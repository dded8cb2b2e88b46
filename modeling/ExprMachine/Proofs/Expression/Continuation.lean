import ExprMachine.Proofs.Expression.Recognition
import Mathlib.Data.List.Induction

/-! What can stand in front. Tokens that have been read begin some expression, whatever still waits;
and where a token begins one together with the tokens before it, it is read. -/
namespace ExprMachine

open Text (utf8)

namespace Grammar

/-- The tokens begin an expression that is followed by the end of its source. -/
def Viable (ts : List Token) : Prop :=
  ∃ body e eof, Derives equality body e ∧ eof.kind = .eof ∧ ts <+: body ++ [eof]

def AwaitsOperand (before : List Token) : Prop :=
  ∃ t, isLiteral t.kind = true ∧ Viable (before ++ [t])

def tally (m : Mark) (ts : List Token) : Nat := (ts.map Token.kind).count (.mark m)

def OpenGroup (before : List Token) : Prop := tally .rightParen before < tally .leftParen before

@[simp] theorem tallyNil (m : Mark) : tally m [] = 0 := rfl

@[simp] theorem tallyAppend (m : Mark) (ts us : List Token) :
    tally m (ts ++ us) = tally m ts + tally m us := by simp [tally]

@[simp] theorem tallyCons (m : Mark) (t : Token) (ts : List Token) :
    tally m (t :: ts) = tally m ts + if t.kind = .mark m then 1 else 0 := by
  simp [tally, List.count_cons]

theorem viableShorter {ts us : List Token} (front : ts <+: us) (viable : Viable us) :
    Viable ts := by
  obtain ⟨body, e, eof, d, ended, whole⟩ := viable
  exact ⟨body, e, eof, d, ended, front.trans whole⟩

theorem viableInside {ts : List Token} (viable : Viable ts) (more : ∀ t ∈ ts, t.kind ≠ .eof) :
    ∃ rest e, Derives equality (ts ++ rest) e := by
  obtain ⟨body, e, eof, d, ended, front⟩ := viable
  rcases List.prefix_concat_iff.mp front with whole | ⟨rest, same⟩
  · exact absurd ended (more eof (by simp [whole]))
  · exact ⟨rest, e, same ▸ d⟩

theorem derivedKinds {n ts e} (d : Derives n ts e) :
    ∀ t ∈ ts, t.kind ≠ .eof ∧ t.kind.isError = false := by
  refine treeInduction (P := fun ts _ => ∀ t ∈ ts, t.kind ≠ .eof ∧ t.kind.isError = false)
    (fun {t} kind => ?_) (fun opens closes ih => ?_) (fun kind sign ih => ?_)
    (fun kind inside left right => ?_) d
  · unfold isLiteral at kind
    split at kind <;> simp_all [TokenKind.isError]
  · simpa [opens, closes, TokenKind.isError, or_imp, forall_and] using ih
  · simpa [kind, TokenKind.isError] using ih
  · intro t member
    rcases List.mem_append.mp member with before | after
    · exact left t before
    · rcases List.mem_cons.mp after with rfl | after
      · simp [kind, TokenKind.isError]
      · exact right t after

theorem signPlain {m : Mark} (sign : m ∈ signs) : m ≠ .leftParen ∧ m ≠ .rightParen := by
  constructor <;> rintro rfl <;> simp [signs] at sign

theorem operatorPlain {m : Mark} {s : Stratum} (inside : m ∈ s.marks) :
    m ≠ .leftParen ∧ m ≠ .rightParen := by
  constructor <;> rintro rfl <;> cases s <;> simp [Stratum.marks] at inside

theorem derivedBalanced {n ts e} (d : Derives n ts e) :
    tally .leftParen ts = tally .rightParen ts := by
  refine treeInduction (P := fun ts _ => tally .leftParen ts = tally .rightParen ts)
    (fun {t} kind => ?_) (fun opens closes ih => ?_) (fun kind sign ih => ?_)
    (fun kind inside left right => ?_) d
  · unfold isLiteral at kind
    split at kind <;> simp_all
  · simp [opens, closes, ih]
  · simp [kind, ih, signPlain sign]
  · simp [kind, left, right, operatorPlain inside]

theorem linksMap {f : Token → Token} (kinds : ∀ t, (f t).kind = t.kind) {s : Stratum}
    {links : List Link} {lefts left} (before : Derives (.chain s) lefts left)
    (marks : ∀ l ∈ links, l.At s)
    (rights : ∀ l ∈ links, ∃ e, Derives s.operand (l.tokens.map f) e) :
    ∃ e, Derives (.chain s) (lefts ++ (links.flatMap Link.all).map f) e := by
  -- each link goes behind all that stands before it
  induction links generalizing lefts left with
  | nil => exact ⟨left, by simpa using before⟩
  | cons l others ih =>
    obtain ⟨mark, marks⟩ := List.forall_mem_cons.mp marks
    obtain ⟨⟨right, after⟩, rights⟩ := List.forall_mem_cons.mp rights
    have longer := snoc before ((kinds _).trans mark.1) mark.2 after
    obtain ⟨e, whole⟩ := ih longer marks rights
    exact ⟨e, by simpa [Link.all] using whole⟩

theorem derivesMap {f : Token → Token} (kinds : ∀ t, (f t).kind = t.kind) {n ts e}
    (d : Derives n ts e) : ∃ e', Derives n (ts.map f) e' := by
  induction d with
  | @chain s ts e links first marks rights ihFirst ihRights =>
    obtain ⟨left, before⟩ := ihFirst
    rw [List.map_append]
    exact linksMap kinds (single before) marks ihRights
  | @operator t m ts e kind sign operand ih =>
    obtain ⟨e', inner⟩ := ih
    exact ⟨_, .operator ((kinds t).trans kind) sign inner⟩
  | operand inner ih =>
    obtain ⟨e', inner⟩ := ih
    exact ⟨e', .operand inner⟩
  | @literal t kind => exact ⟨_, .literal ((kinds t).symm ▸ kind)⟩
  | @group opening ts e closing opens inner closes ih =>
    obtain ⟨e', inner⟩ := ih
    have whole := Derives.group ((kinds opening).trans opens) inner ((kinds closing).trans closes)
    exact ⟨_, by simpa using whole⟩

end Grammar

def Token.tamed (t : Token) : Token :=
  if t.kind = .number → (Number.ofLiteral? t.lexeme).isSome = true then t
  else { t with lexeme := utf8 "0" }

theorem Token.tamedKind (t : Token) : t.tamed.kind = t.kind := by
  unfold tamed
  split <;> rfl

theorem Token.tamedInRange (t : Token) :
    t.tamed.kind = .number → (Number.ofLiteral? t.tamed.lexeme).isSome = true := by
  unfold tamed
  split
  · assumption
  · exact fun _ => (by decide +kernel : (Number.ofLiteral? (utf8 "0")).isSome = true)

theorem Token.tamedSame {t : Token}
    (inRange : t.kind = .number → (Number.ofLiteral? t.lexeme).isSome = true) : t.tamed = t :=
  if_pos inRange

namespace Compilation

open Grammar (Derives Viable AwaitsOperand OpenGroup tally)

/-! What has been read can be finished. -/

theorem strengthPositive {p : Pending} (construct : p ≠ .group) : 1 ≤ p.strength := by
  cases p with
  | group => exact absurd rfl construct
  | unary op => exact Nat.succ_pos 4
  | binary op => cases op <;> decide

theorem heldCompletes {ts ps k} (held : Held ts ps k) (positive : 1 ≤ k) :
    ∃ rest e, Derives Grammar.equality (ts ++ rest) e := by
  induction ps generalizing ts k with
  | nil =>
    obtain ⟨before, n, here, m, e, shape, stacked, d, fits, bound⟩ := held
    cases stacked with
    | start => exact ⟨[], e, by simpa [shape] using Grammar.loosen d fits⟩
  | cons p ps ih =>
    by_cases group : p = .group
    · subst group
      -- an open group is closed by a parenthesis that is put behind
      obtain ⟨rest, e, d⟩ := ih
        (@heldClosed ts ⟨.mark .rightParen, [], 0, 0⟩ ps k held rfl) (by decide)
      exact ⟨_, e, by simpa using d⟩
    · have looser := heldWeaker held positive
      exact ih (heldDone looser (strengthPositive group) (Nat.le_refl 1)) (Nat.le_refl 1)

theorem soundCompletes {ts s x} (sound : Sound ts s x) :
    ∃ rest e, Derives Grammar.equality (ts ++ rest) e := by
  cases x with
  | operator => exact heldCompletes sound (by decide)
  | operand =>
    obtain ⟨n, stacked⟩ := sound
    obtain ⟨rest, e, d⟩ := heldCompletes
      (@literalHeld ts s.pending n ⟨.keyword .nil, [], 0, 0⟩ stacked rfl) (by decide)
    exact ⟨_, e, by simpa using d⟩

theorem soundViable {ts s x} (sound : Sound ts s x) : Viable ts := by
  obtain ⟨rest, e, d⟩ := soundCompletes sound
  exact ⟨_, e, ⟨.eof, [], 0, 0⟩, d, rfl, by simp⟩

theorem soundPlain {ts s x} (sound : Sound ts s x) : ∀ t ∈ ts, t.kind ≠ .eof := by
  obtain ⟨rest, e, d⟩ := soundCompletes sound
  exact fun t member => (Grammar.derivedKinds d t (List.mem_append_left rest member)).1

/-! A group is open as long as it waits. -/

theorem stackedTally {ts ps n} (stacked : Stacked ts ps n) :
    tally .leftParen ts = tally .rightParen ts + ps.count .group := by
  induction stacked with
  | start => rfl
  | group below kind ih => simp [kind, ih, Nat.add_assoc]
  | unary below kind spelled ih =>
    simp [kind, ih, Grammar.signPlain (Mark.unaryOperator spelled).2]
  | binary below before looser kind inside spelled ih =>
    have balanced := Grammar.derivedBalanced before
    simp [kind, ih, Grammar.operatorPlain inside, balanced, Nat.add_right_comm]

theorem soundTally {ts s x} (sound : Sound ts s x) :
    tally .leftParen ts = tally .rightParen ts + s.pending.count .group := by
  cases x with
  | operand =>
    obtain ⟨n, stacked⟩ := sound
    exact stackedTally stacked
  | operator =>
    obtain ⟨before, n, here, m, e, rfl, stacked, d, _, _⟩ := sound
    have waiting := stackedTally stacked
    have balanced := Grammar.derivedBalanced d
    rw [Grammar.tallyAppend, Grammar.tallyAppend]
    omega

theorem soundGroup {ts s x} (sound : Sound ts s x) : s.inGroup = true ↔ OpenGroup ts := by
  have waiting : s.inGroup = true ↔ 0 < s.pending.count .group := by
    rw [State.inGroup, List.contains_iff_mem, List.count_pos_iff]
  have counted := soundTally sound
  rw [waiting, OpenGroup]
  omega

theorem operatorNoLiteral {s t s' x} (read : readOperator s t = .ok (s', x)) :
    Grammar.isLiteral t.kind = false := by
  unfold readOperator at read
  split at read <;> simp_all [Grammar.isLiteral]

/-! The tokens that are read one after another. -/

def readNext (s : State) : Expecting → Token → Except Diagnostic (State × Expecting)
  | .operand => readOperand s
  | .operator => readOperator s

inductive Reading : List Token → State → Expecting → Prop where
  | start : Reading [] .start .operand
  | next {ts s x t s' x'} (before : Reading ts s x) (read : readNext s x t = .ok (s', x')) :
      Reading (ts ++ [t]) s' x'

theorem readSound {ts s x t s' x'} (sound : Sound ts s x) (read : readNext s x t = .ok (s', x')) :
    Sound (ts ++ [t]) s' x' := by
  cases x with
  | operand => exact operandSound sound read
  | operator => exact operatorSound sound read

theorem readClean {s x t s' x'} (read : readNext s x t = .ok (s', x')) :
    t.kind.isError = false ∧ (t.kind = .number → (Number.ofLiteral? t.lexeme).isSome = true) := by
  cases x with
  | operand => exact operandClean read
  | operator =>
    obtain ⟨fine, other⟩ := operatorClean read
    exact ⟨fine, fun number => absurd number other⟩

theorem readingSound {ts s x} (reading : Reading ts s x) : Sound ts s x := by
  induction reading with
  | start => exact ⟨_, .start⟩
  | next before read ih => exact readSound ih read

theorem readingInRange {ts s x} (reading : Reading ts s x) : InRange ts := by
  induction reading with
  | start => simp [InRange]
  | next before read ih =>
    refine inRangeAppend.mpr ⟨ih, fun t member => ?_⟩
    cases List.mem_singleton.mp member
    exact (readClean read).2

def lookAhead (us : List Token) : Except Diagnostic Unit :=
  (us.head?.map checkLexical).getD (.ok ())

theorem lookAheadFine {t : Token} (fine : t.kind.isError = false) (us : List Token) :
    lookAhead (t :: us) = .ok () := by
  have clean : Clean [t] := by simpa [Clean] using fine
  exact @cleanHead [t] clean

theorem readingOnward {ts s x} (reading : Reading ts s x) (us : List Token) (eof : Token) :
    TokenStream.compile ⟨ts ++ us, eof⟩ = (do lookAhead us; run s x eof us) := by
  induction reading generalizing us with
  | start => rfl
  | @next ts s x t s' x' before read ih =>
    have shape : ts ++ [t] ++ us = ts ++ t :: us := by simp
    rw [shape, ih, lookAheadFine (readClean read).1]
    cases x with
    | operand =>
      change readOperand s t = _ at read
      simp only [run, read]
      rfl
    | operator =>
      change readOperator s t = _ at read
      simp only [run, read]
      rfl

theorem readingSucceeds {ts s x t} (reading : Reading ts s x) (more : t.kind ≠ .eof)
    (viable : Viable (ts ++ [t])) : ∃ s' x', readNext s x t.tamed = .ok (s', x') := by
  have inside : ∀ u ∈ ts ++ [t], u.kind ≠ .eof := by
    intro u member
    rcases List.mem_append.mp member with before | last
    · exact soundPlain (readingSound reading) u before
    · cases List.mem_singleton.mp last
      exact more
  -- the numbers behind the token may be out of range, and then they would be refused later
  obtain ⟨rest, e, d⟩ := Grammar.viableInside viable inside
  obtain ⟨e', tame⟩ := Grammar.derivesMap Token.tamedKind d
  have kept : ts.map Token.tamed = ts :=
    (List.map_congr_left fun u member => Token.tamedSame (readingInRange reading u member)).trans
      (List.map_id ts)
  have shape : (ts ++ [t] ++ rest).map Token.tamed = ts ++ t.tamed :: rest.map Token.tamed := by
    simp [kept]
  have built := @compileDerived ⟨(ts ++ [t] ++ rest).map Token.tamed, ⟨.eof, [], 0, 0⟩⟩ e' tame
    (fun u member => (Grammar.derivedKinds tame u member).2) (fun u member => by
      obtain ⟨v, _, rfl⟩ := List.mem_map.mp member
      exact v.tamedInRange)
  have fine := (Grammar.derivedKinds tame t.tamed (by simp)).2
  rw [shape, readingOnward reading, lookAheadFine fine] at built
  cases x with
  | operand =>
    obtain ⟨s', x', read, _⟩ := runOperandInversion built
    exact ⟨s', x', read⟩
  | operator =>
    obtain ⟨s', x', read, _⟩ := runOperatorInversion built
    exact ⟨s', x', read⟩

theorem readingExists {ts} (inRange : InRange ts) (more : ∀ t ∈ ts, t.kind ≠ .eof)
    (viable : Viable ts) : ∃ s x, Reading ts s x := by
  induction ts using List.reverseRecOn with
  | nil => exact ⟨_, _, .start⟩
  | append_singleton ts t ih =>
    have ranges := inRangeAppend.mp inRange
    obtain ⟨s, x, reading⟩ := ih ranges.1 (fun u member => more u (List.mem_append_left [t] member))
      (Grammar.viableShorter (List.prefix_append ts [t]) viable)
    obtain ⟨s', x', read⟩ := readingSucceeds reading (more t (by simp)) viable
    rw [Token.tamedSame (ranges.2 t (by simp))] at read
    exact ⟨s', x', .next reading read⟩

theorem readingAwaits {ts s x} (reading : Reading ts s x) : AwaitsOperand ts ↔ x = .operand := by
  constructor
  · rintro ⟨t, literal, viable⟩
    have more : t.kind ≠ .eof := by
      intro ended
      simp [ended, Grammar.isLiteral] at literal
    obtain ⟨s', x', read⟩ := readingSucceeds reading more viable
    cases x with
    | operand => rfl
    | operator =>
      rw [← t.tamedKind, operatorNoLiteral read] at literal
      contradiction
  · rintro rfl
    have read : readNext s .operand ⟨.keyword .nil, [], 0, 0⟩ =
        .ok ((s.atLine 0).emit .nil, .operator) := rfl
    exact ⟨_, rfl, soundViable (readSound (readingSound reading) read)⟩

end Compilation
end ExprMachine
