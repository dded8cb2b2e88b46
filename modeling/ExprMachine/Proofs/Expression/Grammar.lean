import ExprMachine.Token.Basic

/-! The grammar of expressions over token kinds, in six strata. A chain of operators of one stratum
is read from the left. Every token sequence has at most one tree. -/
namespace ExprMachine

inductive Expr where
  | literal (t : Token)
  | group (inside : Expr) (closing : Token)
  | unary (m : Mark) (operand : Expr)
  | binary (left : Expr) (m : Mark) (right : Expr)
  deriving DecidableEq, Repr

namespace Grammar

inductive Stratum where
  | equality | comparison | term | factor
  deriving DecidableEq, Repr

inductive Nonterminal where
  | chain (s : Stratum)
  | unary
  | primary
  deriving DecidableEq, Repr

def equality : Nonterminal := .chain .equality

def Stratum.operand : Stratum → Nonterminal
  | equality => .chain .comparison
  | comparison => .chain .term
  | term => .chain .factor
  | factor => .unary

def Stratum.marks : Stratum → List Mark
  | equality => [.equalEqual, .bangEqual]
  | comparison => [.less, .lessEqual, .greater, .greaterEqual]
  | term => [.plus, .minus]
  | factor => [.star, .slash]

def signs : List Mark := [.minus, .bang]

def isLiteral : TokenKind → Bool
  | .number | .string | .keyword .true | .keyword .false | .keyword .nil => true
  | _ => false

structure Link where
  token : Token
  mark : Mark
  tokens : List Token
  right : Expr

namespace Link

def all (l : Link) : List Token := l.token :: l.tokens

def extend (left : Expr) (l : Link) : Expr := .binary left l.mark l.right

def At (s : Stratum) (l : Link) : Prop := l.token.kind = .mark l.mark ∧ l.mark ∈ s.marks

end Link

/-- `Derives n ts e`: the tokens `ts` derive from `n`, and `e` is their tree. -/
inductive Derives : Nonterminal → List Token → Expr → Prop where
  | chain {s ts e} (links : List Link) (first : Derives s.operand ts e)
      (marks : ∀ l ∈ links, l.At s) (rights : ∀ l ∈ links, Derives s.operand l.tokens l.right) :
      Derives (.chain s) (ts ++ links.flatMap Link.all) (links.foldl Link.extend e)
  | operator {t m ts e} (kind : t.kind = .mark m) (sign : m ∈ signs)
      (operand : Derives .unary ts e) : Derives .unary (t :: ts) (.unary m e)
  | operand {ts e} (inner : Derives .primary ts e) : Derives .unary ts e
  | literal {t} (kind : isLiteral t.kind = true) : Derives .primary [t] (.literal t)
  | group {opening ts e closing} (opens : opening.kind = .mark .leftParen)
      (inner : Derives equality ts e) (closes : closing.kind = .mark .rightParen) :
      Derives .primary (opening :: (ts ++ [closing])) (.group e closing)

def Stratum.strength : Stratum → Nat
  | equality => 1
  | comparison => 2
  | term => 3
  | factor => 4

def Nonterminal.strength : Nonterminal → Nat
  | chain s => s.strength
  | unary => 5
  | primary => 6

theorem operandStrength (s : Stratum) : s.operand.strength = s.strength + 1 := by
  cases s <;> rfl

theorem stratumStrengthBound (s : Stratum) : 1 ≤ s.strength ∧ s.strength ≤ 4 := by
  cases s <;> decide

theorem marksDisjoint {m : Mark} {s s' : Stratum} (inside : m ∈ s.marks) (inside' : m ∈ s'.marks) :
    s = s' := by
  cases s <;> cases s' <;> grind [Stratum.marks]

theorem single {s ts e} (first : Derives s.operand ts e) : Derives (.chain s) ts e := by
  have whole := Derives.chain (s := s) [] first (by simp) (by simp)
  simpa using whole

theorem treeInduction {P : List Token → Expr → Prop}
    (literal : ∀ {t}, isLiteral t.kind = true → P [t] (.literal t))
    (group : ∀ {opening ts e closing}, opening.kind = .mark .leftParen →
      closing.kind = .mark .rightParen → P ts e → P (opening :: (ts ++ [closing])) (.group e closing))
    (unary : ∀ {t m ts e}, t.kind = .mark m → m ∈ signs → P ts e → P (t :: ts) (.unary m e))
    (binary : ∀ {lefts left t m rights right} {s : Stratum}, t.kind = .mark m → m ∈ s.marks →
      P lefts left → P rights right → P (lefts ++ t :: rights) (.binary left m right))
    {n ts e} (d : Derives n ts e) : P ts e := by
  induction d with
  | @chain s ts e links first marks rights ihFirst ihRights =>
    -- each link makes a binary tree of all that stands before it
    clear first rights
    induction links generalizing ts e with
    | nil => simpa using ihFirst
    | cons l others ih =>
      obtain ⟨mark, marks⟩ := List.forall_mem_cons.mp marks
      obtain ⟨right, rights⟩ := List.forall_mem_cons.mp ihRights
      have longer := ih marks (binary mark.1 mark.2 ihFirst right) rights
      simpa [Link.all, Link.extend] using longer
  | operator kind sign operand ih => exact unary kind sign ih
  | operand inner ih => exact ih
  | literal kind => exact literal kind
  | group opens inner closes ih => exact group opens closes ih

theorem strengthInjective {m n : Nonterminal} (same : m.strength = n.strength) : m = n := by
  cases m with
  | chain s => cases n with
    | chain s' => cases s <;> cases s' <;> simp_all [Nonterminal.strength, Stratum.strength]
    | unary => cases s <;> simp_all [Nonterminal.strength, Stratum.strength]
    | primary => cases s <;> simp_all [Nonterminal.strength, Stratum.strength]
  | unary => cases n with
    | chain s => cases s <;> simp_all [Nonterminal.strength, Stratum.strength]
    | unary => rfl
    | primary => simp_all [Nonterminal.strength]
  | primary => cases n with
    | chain s => cases s <;> simp_all [Nonterminal.strength, Stratum.strength]
    | unary => simp_all [Nonterminal.strength]
    | primary => rfl

theorem strengthBound (n : Nonterminal) : 1 ≤ n.strength ∧ n.strength ≤ 6 := by
  cases n with
  | chain s =>
    have bound := stratumStrengthBound s
    change 1 ≤ s.strength ∧ s.strength ≤ 6
    omega
  | unary => decide
  | primary => decide

theorem loosen {m n ts e} (inner : Derives m ts e) (looser : n.strength ≤ m.strength) :
    Derives n ts e := by
  obtain ⟨gap, same⟩ := Nat.exists_eq_add_of_le looser
  clear looser
  induction gap generalizing n with
  | zero => exact strengthInjective same ▸ inner
  | succ gap ih =>
    cases n with
    | chain s =>
      have next := operandStrength s
      change m.strength = s.strength + (gap + 1) at same
      exact single (ih (by omega))
    | unary =>
      change m.strength = 5 + (gap + 1) at same
      exact .operand (ih (n := .primary) (by change m.strength = 6 + gap; omega))
    | primary =>
      have bound := strengthBound m
      change m.strength = 6 + (gap + 1) at same
      omega

theorem snoc {s lefts left t m rights right} (before : Derives (.chain s) lefts left)
    (kind : t.kind = .mark m) (inside : m ∈ s.marks) (after : Derives s.operand rights right) :
    Derives (.chain s) (lefts ++ t :: rights) (.binary left m right) := by
  cases before with
  | @chain _ ts e links first marks operands =>
    let last : Link := ⟨t, m, rights, right⟩
    have whole := Derives.chain (links ++ [last]) first
      (by
        intro l member
        rcases List.mem_append.mp member with old | new
        · exact marks l old
        · cases List.mem_singleton.mp new
          exact ⟨kind, inside⟩)
      (by
        intro l member
        rcases List.mem_append.mp member with old | new
        · exact operands l old
        · cases List.mem_singleton.mp new
          exact after)
    simpa [last, Link.all, Link.extend] using whole

def Stops (n : Nonterminal) (rest : List Token) : Prop :=
  ∀ t ∈ rest.head?, ∀ m (s : Stratum), t.kind = .mark m → m ∈ s.marks → s.strength < n.strength

theorem stopsTighter {m n rest} (stops : Stops n rest) (tighter : n.strength ≤ m.strength) :
    Stops m rest := fun t first mark s kind inside =>
  Nat.lt_of_lt_of_le (stops t first mark s kind inside) tighter

theorem stopsAtClosing {closing : Token} (closes : closing.kind = .mark .rightParen)
    (n : Nonterminal) (rest : List Token) : Stops n (closing :: rest) := by
  intro t first m s kind inside
  cases Option.some.inj first
  rw [closes] at kind
  cases kind
  cases s <;> simp [Stratum.marks] at inside

theorem stopsBeforeLinks {s rest} {links : List Link} (marks : ∀ l ∈ links, Link.At s l)
    (stops : Stops (.chain s) rest) : Stops s.operand (links.flatMap Link.all ++ rest) := by
  cases links with
  | nil => exact stopsTighter stops (by rw [operandStrength]; exact Nat.le_succ _)
  | cons l tail =>
    intro t first m s' kind inside
    obtain ⟨kind', inside'⟩ := marks l (by simp)
    have same : l.token = t := by simpa [Link.all] using first
    rw [same, kind] at kind'
    cases kind'
    rw [marksDisjoint inside inside', operandStrength]
    exact Nat.lt_succ_self _

theorem linkNotAfter {s rest tail} {l : Link} (here : l.At s) (stops : Stops (.chain s) rest)
    (eq : rest = l.token :: tail) : False :=
  Nat.lt_irrefl _ (stops l.token (by simp [eq]) l.mark s here.1 here.2)

theorem primaryHead {ts e} (d : Derives .primary ts e) :
    ∃ t tail, ts = t :: tail ∧ (isLiteral t.kind = true ∨ t.kind = .mark .leftParen) := by
  cases d with
  | @literal t kind => exact ⟨t, [], rfl, .inl kind⟩
  | @group opening ts e closing opens inner closes =>
    exact ⟨opening, ts ++ [closing], rfl, .inr opens⟩

theorem signNotPrimary {t m ts e} (kind : t.kind = .mark m) (sign : m ∈ signs)
    (d : Derives .primary (t :: ts) e) : False := by
  obtain ⟨t', tail, same, first⟩ := primaryHead d
  cases same
  rcases first with lit | paren
  · simp [kind, isLiteral] at lit
  · rw [kind] at paren
    cases paren
    simp [signs] at sign

theorem linksUnique {s rest rest'} {links links' : List Link}
    (marks : ∀ l ∈ links, Link.At s l) (marks' : ∀ l ∈ links', Link.At s l)
    (operands' : ∀ l ∈ links', Derives s.operand l.tokens l.right)
    (unique : ∀ l ∈ links, ∀ {ts e r r'}, Derives s.operand ts e → Stops s.operand r →
      Stops s.operand r' → l.tokens ++ r = ts ++ r' → l.tokens = ts ∧ l.right = e)
    (stops : Stops (.chain s) rest) (stops' : Stops (.chain s) rest')
    (same : links.flatMap Link.all ++ rest = links'.flatMap Link.all ++ rest') :
    links = links' := by
  induction links generalizing links' with
  | nil =>
    cases links' with
    | nil => rfl
    | cons l' tail' =>
      exact (linkNotAfter (marks' l' (by simp)) stops (by simpa [Link.all] using same)).elim
  | cons l tail ih =>
    cases links' with
    | nil =>
      exact (linkNotAfter (marks l (by simp)) stops' (by simpa [Link.all] using same.symm)).elim
    | cons l' tail' =>
      have split : l.token = l'.token ∧ l.tokens ++ (tail.flatMap Link.all ++ rest) =
          l'.tokens ++ (tail'.flatMap Link.all ++ rest') := by simpa [Link.all] using same
      have restMarks : ∀ x ∈ tail, Link.At s x := fun x h => marks x (by simp [h])
      have restMarks' : ∀ x ∈ tail', Link.At s x := fun x h => marks' x (by simp [h])
      obtain ⟨tokens, right⟩ := unique l (by simp) (operands' l' (by simp))
        (stopsBeforeLinks restMarks stops) (stopsBeforeLinks restMarks' stops') split.2
      have mark : l.mark = l'.mark := by
        have kind := (marks l (by simp)).1
        rw [split.1, (marks' l' (by simp)).1] at kind
        exact (TokenKind.mark.inj kind).symm
      have rest := ih restMarks restMarks' (fun x h => operands' x (by simp [h]))
        (fun x h => unique x (by simp [h])) (List.append_cancel_left (tokens ▸ split.2))
      rw [rest]
      obtain ⟨token, lmark, ltokens, lright⟩ := l
      obtain ⟨token', lmark', ltokens', lright'⟩ := l'
      simp_all

theorem uniqueBefore {n ts e ts' e' rest rest'} (d : Derives n ts e) (d' : Derives n ts' e')
    (stops : Stops n rest) (stops' : Stops n rest') (same : ts ++ rest = ts' ++ rest') :
    ts = ts' ∧ e = e' := by
  induction d generalizing ts' e' rest rest' with
  | @chain s ts e links first marks operands ihFirst ihOperands =>
    cases d' with
    | @chain _ ts' e' links' first' marks' operands' =>
      simp only [List.append_assoc] at same
      obtain ⟨tokens, tree⟩ := ihFirst first' (stopsBeforeLinks marks stops)
        (stopsBeforeLinks marks' stops') same
      have rest := linksUnique marks marks' operands' (fun l h => ihOperands l h) stops stops'
        (List.append_cancel_left (tokens ▸ same))
      exact ⟨by rw [tokens, rest], by rw [tree, rest]⟩
  | @operator t m ts e kind sign operand ih =>
    cases d' with
    | @operator t' m' ts' e' kind' sign' operand' =>
      obtain ⟨head, tail⟩ := List.cons.inj same
      subst head
      obtain ⟨tokens, tree⟩ := ih operand' stops stops' tail
      rw [kind] at kind'
      cases kind'
      exact ⟨by rw [tokens], by rw [tree]⟩
    | operand inner' =>
      obtain ⟨t', tail', shape, _⟩ := primaryHead inner'
      subst shape
      cases (List.cons.inj same).1
      exact (signNotPrimary kind sign inner').elim
  | @operand ts e inner ih =>
    cases d' with
    | @operator t' m' ts' e' kind' sign' operand' =>
      obtain ⟨t, tail, shape, _⟩ := primaryHead inner
      subst shape
      cases (List.cons.inj same).1
      exact (signNotPrimary kind' sign' inner).elim
    | operand inner' =>
      exact ih inner' (stopsTighter stops (by decide)) (stopsTighter stops' (by decide)) same
  | @literal t kind =>
    cases d' with
    | literal kind' => simp_all
    | group opens' inner' closes' =>
      have head := (List.cons.inj same).1
      simp [head, opens', isLiteral] at kind
  | @group opening ts e closing opens inner closes ih =>
    cases d' with
    | literal kind' =>
      have head := (List.cons.inj same).1
      simp [← head, opens, isLiteral] at kind'
    | @group opening' ts' e' closing' opens' inner' closes' =>
      have tail : ts ++ closing :: rest = ts' ++ closing' :: rest' := by
        simpa using (List.cons.inj same).2
      obtain ⟨tokens, tree⟩ := ih inner' (stopsAtClosing closes _ _)
        (stopsAtClosing closes' _ _) tail
      have ends := List.cons.inj (List.append_cancel_left (tokens ▸ tail))
      have head := (List.cons.inj same).1
      exact ⟨by rw [head, tokens, ends.1], by rw [tree, ends.1]⟩

theorem derivesUnique {n ts e e'} (d : Derives n ts e) (d' : Derives n ts e') : e = e' := by
  have stops : Stops n [] := by intro t first; cases first
  exact (uniqueBefore d d' stops stops rfl).2

end Grammar
end ExprMachine
