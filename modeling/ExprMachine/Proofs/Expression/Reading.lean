import ExprMachine.Proofs.Expression.Translation

/-! Compilation of tokens that derive from the grammar. After the tokens of an expression some of
its operators may still wait; as soon as anything looser comes they are finished, and the code is
then that of the tree. -/
namespace ExprMachine.Compilation

open Grammar (Derives Nonterminal Stratum Link)

def Clean (ts : List Token) : Prop := ∀ t ∈ ts, t.kind.isError = false

def InRange (ts : List Token) : Prop :=
  ∀ t ∈ ts, t.kind = .number → (Number.ofLiteral? t.lexeme).isSome = true

theorem cleanTail {t ts} (clean : Clean (t :: ts)) : Clean ts :=
  fun x member => clean x (List.mem_cons_of_mem t member)

theorem cleanAfter {ts rest} (clean : Clean (ts ++ rest)) : Clean rest :=
  fun x member => clean x (List.mem_append_right ts member)

theorem inRangeTail {t ts} (inRange : InRange (t :: ts)) : InRange ts :=
  fun x member => inRange x (List.mem_cons_of_mem t member)

theorem inRangeAppend {ts us} : InRange (ts ++ us) ↔ InRange ts ∧ InRange us := by
  constructor
  · intro whole
    exact ⟨fun x member => whole x (List.mem_append_left us member),
      fun x member => whole x (List.mem_append_right ts member)⟩
  · rintro ⟨left, right⟩ x member
    rcases List.mem_append.mp member with inside | inside
    · exact left x inside
    · exact right x inside

theorem cleanHead {ts : List Token} (clean : Clean ts) :
    (ts.head?.map checkLexical).getD (.ok ()) = .ok () := by
  cases ts with
  | nil => rfl
  | cons t rest =>
    have fine := clean t (by simp)
    simp only [List.head?_cons, Option.map_some, Option.getD_some, checkLexical]
    split <;> simp_all [TokenKind.isError]

theorem runOperand {s s' x eof t rest} (clean : Clean rest) (read : readOperand s t = .ok (s', x)) :
    run s .operand eof (t :: rest) = run s' x eof rest := by
  simp only [run, cleanHead clean, read, bind, Except.bind]

theorem runOperator {s s' x eof t rest} (clean : Clean rest)
    (read : readOperator s t = .ok (s', x)) :
    run s .operator eof (t :: rest) = run s' x eof rest := by
  simp only [run, cleanHead clean, read, bind, Except.bind]

theorem readBinary {s : State} {t m op} (kind : t.kind = .mark m)
    (spelled : BinaryOp.ofMark? m = some op) :
    readOperator s t = .ok (((s.reduce op.strength).atLine t.line).wait (.binary op), .operand) := by
  unfold readOperator
  cases m <;> simp_all [BinaryOp.ofMark?]

theorem readUnary {s : State} {t m op} (kind : t.kind = .mark m)
    (spelled : UnaryOp.ofMark? m = some op) :
    readOperand s t = .ok ((s.atLine t.line).wait (.unary op), .operand) := by
  unfold readOperand
  cases m <;> simp_all [UnaryOp.ofMark?]

namespace State

def settle (s : State) (e : Expr) : State := ⟨s.chunk.extend e, s.pending, e.lastLine⟩

theorem reduceCons (chunk : Chunk) (p : Pending) (rest : List Pending) (line k : Nat) :
    (State.mk chunk (p :: rest) line).reduce k =
      if k ≤ p.strength then
        (State.mk (p.opcodes.foldl (fun c op => c.push (.plain op) line) chunk) rest line).reduce k
      else ⟨chunk, p :: rest, line⟩ := rfl

theorem reduceBlocked {s : State} {k : Nat} (free : ∀ p ∈ s.pending.head?, p.strength < k) :
    s.reduce k = s := by
  obtain ⟨chunk, pending, line⟩ := s
  cases pending with
  | nil => rfl
  | cons p rest =>
    have looser : ¬ k ≤ p.strength := Nat.not_le.mpr (free p rfl)
    rw [reduceCons, if_neg looser]

theorem reduceUnary (s : State) {m op} (spelled : UnaryOp.ofMark? m = some op) (e : Expr) {k : Nat}
    (bound : k ≤ 5) :
    ((s.wait (.unary op)).settle e).reduce k = (s.settle (.unary m e)).reduce k := by
  have tight : k ≤ (Pending.unary op).strength := bound
  simp only [settle, wait, reduceCons, if_pos tight, Chunk.extendUnary, Pending.opcodes,
    (Mark.unaryOperator spelled).1, Expr.lastLine]

theorem reduceBinary (s : State) {m op} (spelled : BinaryOp.ofMark? m = some op) (left right : Expr)
    (line : Nat) {k : Nat} (bound : k ≤ op.strength) :
    ((((s.settle left).atLine line).wait (.binary op)).settle right).reduce k =
      (s.settle (.binary left m right)).reduce k := by
  have tight : k ≤ (Pending.binary op).strength := bound
  simp only [settle, wait, atLine, reduceCons, if_pos tight, Chunk.extendBinary, Pending.opcodes,
    (Mark.binaryOperator spelled .equality).1, Expr.lastLine]

theorem reduceAllInGroup {k : Nat} (positive : 1 ≤ k) (pending : List Pending) (chunk : Chunk)
    (line : Nat) :
    (reduceAll k chunk line pending).pending.contains .group = pending.contains .group := by
  induction pending generalizing chunk with
  | nil => rfl
  | cons p rest ih =>
    simp only [reduceAll]
    split
    · next tight =>
      have inside : p ≠ .group := by
        rintro rfl
        simp only [Pending.strength] at tight
        omega
      rw [ih]
      simp [inside.symm]
    · rfl

theorem reduceInGroup {k : Nat} (positive : 1 ≤ k) (s : State) :
    (s.reduce k).inGroup = s.inGroup := reduceAllInGroup positive s.pending s.chunk s.line

end State

def Free (n : Nonterminal) (pending : List Pending) : Prop :=
  n.strength < 5 → ∀ p ∈ pending.head?, p.strength < n.strength

def Settles (n : Nonterminal) (s : State) (e : Expr) (s' : State) : Prop :=
  ∀ k, k ≤ n.strength → s'.reduce k = (s.settle e).reduce k

def Reads (n : Nonterminal) (ts : List Token) (e : Expr) : Prop :=
  ∀ (s : State) (eof : Token) (rest : List Token), Clean (ts ++ rest) → InRange ts →
    Free n s.pending →
    ∃ s', run s .operand eof (ts ++ rest) = run s' .operator eof rest ∧ Settles n s e s'

theorem literalReads {t : Token} (kind : Grammar.isLiteral t.kind = true) :
    Reads .primary [t] (.literal t) := by
  intro s eof rest clean inRange _
  refine ⟨s.settle (.literal t), runOperand (cleanTail clean) ?_, fun _ _ => rfl⟩
  unfold readOperand
  unfold Grammar.isLiteral at kind
  split at kind
  · next number =>
    obtain ⟨x, value⟩ := Option.isSome_iff_exists.mp (inRange t (by simp) number)
    simp only [number, value]
    simp [State.settle, State.emitConstant, State.atLine, Chunk.extendPooled, Token.isPooled,
      Token.literal, number, value, Expr.lastLine]
  · next string =>
    simp [State.settle, State.emitConstant, State.atLine, Chunk.extendPooled, Token.isPooled,
      Token.literal, string, Expr.lastLine]
  case h_3 word | h_4 word | h_5 word =>
    simp [State.settle, State.emit, State.atLine, Chunk.extend, Chunk.push, Expr.code, Expr.lines,
      Expr.values, Expr.lastLine, Token.instruction, Token.isPooled, word]
  · contradiction

theorem groupReads {opening ts e closing} (opens : opening.kind = .mark .leftParen)
    (inner : Reads Grammar.equality ts e) (closes : closing.kind = .mark .rightParen) :
    Reads .primary (opening :: (ts ++ [closing])) (.group e closing) := by
  intro s eof rest clean inRange _
  have shape : opening :: (ts ++ [closing]) ++ rest = opening :: (ts ++ closing :: rest) := by simp
  rw [shape] at clean ⊢
  have opened : readOperand s opening = .ok ((s.atLine opening.line).wait .group, .operand) := by
    simp [readOperand, opens]
  have free : Free Grammar.equality ((s.atLine opening.line).wait .group).pending := by
    intro _ p first
    cases Option.some.inj first
    decide
  obtain ⟨s', through, settles⟩ := inner ((s.atLine opening.line).wait .group) eof
    (closing :: rest) (cleanTail clean) (inRangeAppend.mp (inRangeTail inRange)).1 free
  have reduced : s'.reduce 1 = ((s.atLine opening.line).wait .group).settle e := by
    rw [settles 1 (by decide)]
    exact State.reduceBlocked (fun p first => by cases Option.some.inj first; decide)
  have closed : readOperator s' closing = .ok (s.settle (.group e closing), .operator) := by
    simp only [readOperator, closes, reduced]
    rfl
  refine ⟨s.settle (.group e closing), ?_, fun _ _ => rfl⟩
  rw [runOperand (cleanTail clean) opened, through,
    runOperator (cleanTail (cleanAfter (cleanTail clean))) closed]

theorem unaryReads {t m ts e} (kind : t.kind = .mark m) (sign : m ∈ Grammar.signs)
    (operand : Reads .unary ts e) : Reads .unary (t :: ts) (.unary m e) := by
  intro s eof rest clean inRange _
  rw [List.cons_append] at clean ⊢
  obtain ⟨op, spelled⟩ := Mark.unarySpelled sign
  obtain ⟨s', through, settles⟩ := operand ((s.atLine t.line).wait (.unary op)) eof rest
    (cleanTail clean) (inRangeTail inRange) (fun absurd => by simp [Nonterminal.strength] at absurd)
  refine ⟨s', ?_, ?_⟩
  · rw [runOperand (cleanTail clean) (readUnary kind spelled), through]
  · intro k bound
    rw [settles k bound, State.reduceUnary _ spelled _ bound]
    rfl

theorem linksRead {stratum : Stratum} {links : List Link} (marks : ∀ l ∈ links, l.At stratum)
    (rights : ∀ l ∈ links, Reads stratum.operand l.tokens l.right) {s s' : State} {left : Expr}
    {eof : Token} {rest : List Token} (clean : Clean (links.flatMap Link.all ++ rest))
    (inRange : InRange (links.flatMap Link.all)) (free : Free (.chain stratum) s.pending)
    (settles : Settles (.chain stratum) s left s') :
    ∃ s'', run s' .operator eof (links.flatMap Link.all ++ rest) = run s'' .operator eof rest ∧
      Settles (.chain stratum) s (links.foldl Link.extend left) s'' := by
  induction links generalizing left s' with
  | nil => exact ⟨s', rfl, settles⟩
  | cons l tail ih =>
    obtain ⟨kind, inside⟩ := marks l (by simp)
    obtain ⟨op, spelled⟩ := Mark.binarySpelled inside
    have strength : op.strength = stratum.strength :=
      (Mark.binaryOperator spelled stratum).2.mp inside
    have shape : (l :: tail).flatMap Link.all ++ rest =
        l.token :: (l.tokens ++ (tail.flatMap Link.all ++ rest)) := by simp [Link.all]
    have parts : (l :: tail).flatMap Link.all = l.token :: (l.tokens ++ tail.flatMap Link.all) := by
      simp [Link.all]
    rw [shape] at clean ⊢
    rw [parts] at inRange
    have ranges := inRangeAppend.mp (inRangeTail inRange)
    have blocked : s'.reduce op.strength = s.settle left := by
      rw [settles _ (Nat.le_of_eq strength)]
      have bound := Grammar.stratumStrengthBound stratum
      exact State.reduceBlocked fun p first =>
        strength ▸ free (by change stratum.strength < 5; omega) p first
    have marked := readBinary (s := s') kind spelled
    rw [blocked] at marked
    have next : Free stratum.operand
        (((s.settle left).atLine l.token.line).wait (.binary op)).pending := by
      intro _ p first
      cases Option.some.inj first
      change op.strength < stratum.operand.strength
      rw [Grammar.operandStrength]
      omega
    obtain ⟨s₁, through, right⟩ := rights l (by simp) _ eof (tail.flatMap Link.all ++ rest)
      (cleanTail clean) ranges.1 next
    have joined : Settles (.chain stratum) s (.binary left l.mark l.right) s₁ := by
      intro k bound
      change k ≤ stratum.strength at bound
      rw [right k (by rw [Grammar.operandStrength]; omega),
        State.reduceBinary _ spelled _ _ _ (by omega)]
    obtain ⟨s₂, onward, done⟩ := ih (fun x h => marks x (by simp [h]))
      (fun x h => rights x (by simp [h])) (cleanAfter (cleanTail clean)) ranges.2 joined
    exact ⟨s₂, by rw [runOperator (cleanTail clean) marked, through, onward], done⟩

theorem derivesReads {n ts e} (d : Derives n ts e) : Reads n ts e := by
  induction d with
  | @chain stratum ts e links first marks rights ihFirst ihRights =>
    intro s eof rest clean inRange free
    have ranges := inRangeAppend.mp inRange
    rw [List.append_assoc] at clean ⊢
    have tighter : Free stratum.operand s.pending := by
      intro loose p first
      rw [Grammar.operandStrength] at loose ⊢
      have bound := free (by change stratum.strength < 5; omega) p first
      change p.strength < stratum.strength at bound
      omega
    obtain ⟨s', through, settles⟩ := ihFirst s eof _ clean ranges.1 tighter
    have here : Settles (.chain stratum) s e s' := fun k bound =>
      settles k (by rw [Grammar.operandStrength]; exact Nat.le_succ_of_le bound)
    obtain ⟨s'', onward, done⟩ := linksRead marks ihRights (cleanAfter clean) ranges.2 free here
    exact ⟨s'', by rw [through, onward], done⟩
  | operator kind sign operand ih => exact unaryReads kind sign ih
  | operand inner ih =>
    intro s eof rest clean inRange _
    obtain ⟨s', through, settles⟩ := ih s eof rest clean inRange
      (fun absurd => by simp [Nonterminal.strength] at absurd)
    exact ⟨s', through, fun k bound => settles k (Nat.le_succ_of_le bound)⟩
  | literal kind => exact literalReads kind
  | group opens inner closes ih => exact groupReads opens ih closes

theorem compileDerived {ts : TokenStream} {e : Expr} (d : Derives Grammar.equality ts.tokens e)
    (clean : Clean ts.tokens) (inRange : InRange ts.tokens) :
    ts.compile = .ok (e.chunk ts.eof.line) := by
  obtain ⟨s, through, settles⟩ := derivesReads d .start ts.eof [] (by simpa using clean) inRange
    (fun _ p first => by cases first)
  have reduced : s.reduce 1 = State.start.settle e := settles 1 (by decide)
  have outside : s.inGroup = false := by
    rw [← State.reduceInGroup (Nat.le_refl 1), reduced]
    rfl
  rw [List.append_nil] at through
  simp only [TokenStream.compile, cleanHead clean, through, run, readEnd, outside, reduced, bind,
    Except.bind]
  have built := Chunk.extendEmpty e ts.eof.line
  simpa [State.settle, State.start, State.atLine, State.emit] using built

end ExprMachine.Compilation
