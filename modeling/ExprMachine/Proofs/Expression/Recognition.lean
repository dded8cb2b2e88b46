import ExprMachine.Proofs.Expression.Reading

/-! Only token sequences of the grammar compile. What has been read is a stack of constructs that
wait, each with the operand to its left if it has one; a token that is accepted keeps it so. -/
namespace ExprMachine.Compilation

open Grammar (Derives Nonterminal Stratum)

/-- `Stacked ts ps n`: reading `ts` leaves `ps` waiting, the innermost one for an operand that
derives from `n`. -/
inductive Stacked : List Token → List Pending → Nonterminal → Prop where
  | start : Stacked [] [] Grammar.equality
  | group {ts ps n t} (below : Stacked ts ps n) (kind : t.kind = .mark .leftParen) :
      Stacked (ts ++ [t]) (.group :: ps) Grammar.equality
  | unary {ts ps n t m op} (below : Stacked ts ps n) (kind : t.kind = .mark m)
      (spelled : UnaryOp.ofMark? m = some op) : Stacked (ts ++ [t]) (.unary op :: ps) .unary
  | binary {ts ps n us left t m op s} (below : Stacked ts ps n)
      (before : Derives (.chain s) us left) (looser : n.strength ≤ s.strength)
      (kind : t.kind = .mark m) (inside : m ∈ s.marks) (spelled : BinaryOp.ofMark? m = some op) :
      Stacked (ts ++ us ++ [t]) (.binary op :: ps) s.operand

theorem stratumOfOperator (op : BinaryOp) : ∃ s : Stratum, s.strength = op.strength := by
  cases op
  case equal | notEqual => exact ⟨.equality, rfl⟩
  case greater | greaterEqual | less | lessEqual => exact ⟨.comparison, rfl⟩
  case add | subtract => exact ⟨.term, rfl⟩
  case multiply | divide => exact ⟨.factor, rfl⟩

theorem awaitedBound {ts ps n} (stacked : Stacked ts ps n) : n.strength ≤ 5 := by
  cases stacked with
  | start => decide
  | group below kind => decide
  | unary below kind spelled => decide
  | @binary _ _ _ _ _ _ _ _ s below before looser kind inside spelled =>
    have bound := Grammar.stratumStrengthBound s
    rw [Grammar.operandStrength]
    omega

theorem awaitedAbove {ts ps n k} (stacked : Stacked ts ps n) (positive : 1 ≤ k) (bound : k ≤ 5)
    (free : ∀ p ∈ ps.head?, p.strength < k) : n.strength ≤ k := by
  cases stacked with
  | start => exact positive
  | group below kind => exact positive
  | unary below kind spelled =>
    have absurd := free _ rfl
    simp only [Pending.strength] at absurd
    omega
  | @binary _ _ _ _ _ _ _ op s below before looser kind inside spelled =>
    have here := free _ rfl
    have strength := (Mark.binaryOperator spelled s).2.mp inside
    change op.strength < k at here
    rw [Grammar.operandStrength]
    omega

def Held (ts : List Token) (ps : List Pending) (k : Nat) : Prop :=
  ∃ before n here m e, ts = before ++ here ∧ Stacked before ps n ∧ Derives m here e ∧
    n.strength ≤ m.strength ∧ k ≤ m.strength

theorem heldWeaker {ts ps j k} (held : Held ts ps k) (weaker : j ≤ k) : Held ts ps j := by
  obtain ⟨before, n, here, m, e, shape, stacked, d, fits, bound⟩ := held
  exact ⟨before, n, here, m, e, shape, stacked, d, fits, Nat.le_trans weaker bound⟩

theorem heldDone {ts op ps k} (held : Held ts (op :: ps) k) (tight : k ≤ op.strength)
    (positive : 1 ≤ k) : Held ts ps k := by
  obtain ⟨before, n, here, m, e, shape, stacked, d, fits, bound⟩ := held
  cases stacked with
  | group below kind =>
    simp only [Pending.strength] at tight
    omega
  | @unary ts' _ n' t m' op below kind spelled =>
    have operand : Derives .unary here e := Grammar.loosen d fits
    exact ⟨ts', n', t :: here, .unary, .unary m' e, by simp [shape], below,
      .operator kind (Mark.unaryOperator spelled).2 operand, awaitedBound below, tight⟩
  | @binary ts' _ n' us left t m' op s below before looser kind inside spelled =>
    have right : Derives s.operand here e := Grammar.loosen d fits
    have strength := (Mark.binaryOperator spelled s).2.mp inside
    refine ⟨ts', n', us ++ t :: here, .chain s, .binary left m' e, by simp [shape], below,
      Grammar.snoc before kind inside right, looser, ?_⟩
    change k ≤ s.strength
    exact strength ▸ tight

theorem heldClosed {ts closing ps k} (held : Held ts (.group :: ps) k)
    (closes : closing.kind = .mark .rightParen) : Held (ts ++ [closing]) ps 6 := by
  obtain ⟨before, n, here, m, e, shape, stacked, d, fits, _⟩ := held
  cases stacked with
  | @group ts' _ n' opening below opens =>
    have inner : Derives Grammar.equality here e := Grammar.loosen d fits
    exact ⟨ts', n', opening :: (here ++ [closing]), .primary, .group e closing, by simp [shape],
      below, .group opens inner closes, Nat.le_trans (awaitedBound below) (by decide), by decide⟩

theorem heldReduced {ts ps k} (held : Held ts ps k) (positive : 1 ≤ k) (chunk : Chunk) (line : Nat) :
    Held ts (State.reduceAll k chunk line ps).pending k ∧
      ∀ p ∈ (State.reduceAll k chunk line ps).pending.head?, p.strength < k := by
  induction ps generalizing chunk with
  | nil => exact ⟨held, fun p first => by cases first⟩
  | cons op rest ih =>
    simp only [State.reduceAll]
    split
    · next tight => exact ih (heldDone held tight positive) _
    · next loose =>
      refine ⟨held, fun p first => ?_⟩
      cases Option.some.inj first
      exact Nat.not_le.mp loose

def Sound (ts : List Token) (s : State) : Expecting → Prop
  | .operand => ∃ n, Stacked ts s.pending n
  | .operator => Held ts s.pending 6

theorem literalHeld {ts ps n t} (stacked : Stacked ts ps n)
    (kind : Grammar.isLiteral t.kind = true) : Held (ts ++ [t]) ps 6 :=
  ⟨ts, n, [t], .primary, .literal t, rfl, stacked, .literal kind,
    Nat.le_trans (awaitedBound stacked) (by decide), by decide⟩

theorem operandCases {s t s' x} (read : readOperand s t = .ok (s', x)) :
    (Grammar.isLiteral t.kind = true ∧
      (t.kind = .number → (Number.ofLiteral? t.lexeme).isSome = true) ∧
      s'.pending = s.pending ∧ x = .operator) ∨
    (t.kind = .mark .leftParen ∧ s'.pending = .group :: s.pending ∧ x = .operand) ∨
    ∃ m op, t.kind = .mark m ∧ UnaryOp.ofMark? m = some op ∧
      s'.pending = .unary op :: s.pending ∧ x = .operand := by
  unfold readOperand at read
  split at read
  case h_1 kind =>
    split at read
    · next value =>
      cases read
      exact .inl ⟨by simp [kind, Grammar.isLiteral], fun _ => by simp [value], rfl, rfl⟩
    · contradiction
  case h_2 kind | h_3 kind | h_4 kind | h_5 kind =>
    cases read
    exact .inl ⟨by simp [kind, Grammar.isLiteral], by simp [kind], rfl, rfl⟩
  case h_6 kind =>
    cases read
    exact .inr (.inl ⟨kind, rfl, rfl⟩)
  case h_7 m _ kind =>
    split at read
    · next op spelled =>
      cases read
      exact .inr (.inr ⟨m, op, kind, spelled, rfl, rfl⟩)
    · contradiction
  · contradiction

theorem operandSound {ts s t s' x} (sound : Sound ts s .operand)
    (read : readOperand s t = .ok (s', x)) : Sound (ts ++ [t]) s' x := by
  obtain ⟨n, stacked⟩ := sound
  rcases operandCases read with ⟨kind, _, pending, rfl⟩ | ⟨kind, pending, rfl⟩ |
    ⟨m, op, kind, spelled, pending, rfl⟩
  · have held := literalHeld stacked kind
    rwa [← pending] at held
  · have waiting := Stacked.group stacked kind
    rw [← pending] at waiting
    exact ⟨_, waiting⟩
  · have waiting := Stacked.unary stacked kind spelled
    rw [← pending] at waiting
    exact ⟨_, waiting⟩

theorem operatorSound {ts s t s' x} (sound : Sound ts s .operator)
    (read : readOperator s t = .ok (s', x)) : Sound (ts ++ [t]) s' x := by
  have held : Held ts s.pending 6 := sound
  unfold readOperator at read
  split at read
  · next kind =>
    obtain ⟨reduced, _⟩ := heldReduced (heldWeaker held (by decide : 1 ≤ 6)) (Nat.le_refl 1)
      s.chunk s.line
    dsimp only at read
    split at read
    · next rest waiting =>
      cases read
      change (State.reduceAll 1 s.chunk s.line s.pending).pending = .group :: rest at waiting
      rw [waiting] at reduced
      exact heldClosed reduced kind
    · contradiction
  · next m _ kind =>
    split at read
    · next op spelled =>
      cases read
      obtain ⟨s', strength⟩ := stratumOfOperator op
      have range := Grammar.stratumStrengthBound s'
      have positive : 1 ≤ op.strength := by omega
      obtain ⟨reduced, free⟩ := heldReduced
        (heldWeaker held (by omega : op.strength ≤ 6)) positive s.chunk s.line
      obtain ⟨before, n, here, m', e, shape, stacked, d, fits, bound⟩ := reduced
      have left : Derives (.chain s') here e :=
        Grammar.loosen d (by change s'.strength ≤ _; omega)
      have inside := (Mark.binaryOperator spelled s').2.mpr strength.symm
      have looser := awaitedAbove stacked positive (by omega) free
      rw [shape]
      exact ⟨_, .binary stacked left (by omega) kind inside spelled⟩
    · contradiction
  · contradiction

theorem endSound {ts s x eof c} (sound : Sound ts s x) (read : readEnd s x eof = .ok c) :
    ∃ e, Derives Grammar.equality ts e := by
  cases x with
  | operand => contradiction
  | operator =>
    have held : Held ts s.pending 6 := sound
    unfold readEnd at read
    dsimp only at read
    split at read
    · contradiction
    · next outside =>
      obtain ⟨reduced, free⟩ := heldReduced (heldWeaker held (by decide : 1 ≤ 6)) (Nat.le_refl 1)
        s.chunk s.line
      have still := State.reduceAllInGroup (Nat.le_refl 1) s.pending s.chunk s.line
      obtain ⟨before, n, here, m, e, shape, stacked, d, fits, bound⟩ := reduced
      generalize (State.reduceAll 1 s.chunk s.line s.pending).pending = waiting at *
      cases stacked with
      | start => exact ⟨e, by simpa [shape] using Grammar.loosen d fits⟩
      | group below kind => simp_all [State.inGroup]
      | unary below kind spelled =>
        have absurd := free _ rfl
        simp [Pending.strength] at absurd
      | @binary _ _ _ _ _ _ _ op s' below before looser kind inside spelled =>
        have absurd := free _ rfl
        have strength := (Mark.binaryOperator spelled s').2.mp inside
        have range := Grammar.stratumStrengthBound s'
        change op.strength < 1 at absurd
        omega

theorem runOperandInversion {s eof t rest c} (ok : run s .operand eof (t :: rest) = .ok c) :
    ∃ s' x, readOperand s t = .ok (s', x) ∧ run s' x eof rest = .ok c := by
  simp only [run, bind, Except.bind] at ok
  split at ok
  · contradiction
  · split at ok
    · contradiction
    · next pair read => exact ⟨pair.1, pair.2, read, ok⟩

theorem runOperatorInversion {s eof t rest c} (ok : run s .operator eof (t :: rest) = .ok c) :
    ∃ s' x, readOperator s t = .ok (s', x) ∧ run s' x eof rest = .ok c := by
  simp only [run, bind, Except.bind] at ok
  split at ok
  · contradiction
  · next pair read =>
    split at ok
    · contradiction
    · exact ⟨pair.1, pair.2, read, ok⟩

theorem runSound {s x eof ts rest c} (sound : Sound ts s x) (ok : run s x eof rest = .ok c) :
    ∃ e, Derives Grammar.equality (ts ++ rest) e := by
  induction rest generalizing s x ts with
  | nil => simpa using endSound sound ok
  | cons t rest ih =>
    cases x with
    | operand =>
      obtain ⟨s', x', read, onward⟩ := runOperandInversion ok
      simpa using ih (operandSound sound read) onward
    | operator =>
      obtain ⟨s', x', read, onward⟩ := runOperatorInversion ok
      simpa using ih (operatorSound sound read) onward

theorem operandClean {s t s' x} (read : readOperand s t = .ok (s', x)) :
    t.kind.isError = false ∧ (t.kind = .number → (Number.ofLiteral? t.lexeme).isSome = true) := by
  rcases operandCases read with ⟨kind, inRange, _⟩ | ⟨kind, _⟩ | ⟨m, op, kind, _⟩
  · refine ⟨?_, inRange⟩
    unfold Grammar.isLiteral at kind
    split at kind <;> simp_all [TokenKind.isError]
  · simp [kind, TokenKind.isError]
  · simp [kind, TokenKind.isError]

theorem operatorClean {s t s' x} (read : readOperator s t = .ok (s', x)) :
    t.kind.isError = false ∧ t.kind ≠ .number := by
  unfold readOperator at read
  split at read <;> simp_all [TokenKind.isError]

theorem runClean {s x eof ts c} (ok : run s x eof ts = .ok c) : Clean ts ∧ InRange ts := by
  induction ts generalizing s x with
  | nil => simp [Clean, InRange]
  | cons t rest ih =>
    have here : ∃ s' x', run s' x' eof rest = .ok c ∧ t.kind.isError = false ∧
        (t.kind = .number → (Number.ofLiteral? t.lexeme).isSome = true) := by
      cases x with
      | operand =>
        obtain ⟨s', x', read, onward⟩ := runOperandInversion ok
        exact ⟨s', x', onward, operandClean read⟩
      | operator =>
        obtain ⟨s', x', read, onward⟩ := runOperatorInversion ok
        exact ⟨s', x', onward, (operatorClean read).1,
          fun number => absurd number (operatorClean read).2⟩
    obtain ⟨s', x', onward, fine, readable⟩ := here
    obtain ⟨clean, inRange⟩ := ih onward
    constructor
    · intro u member
      rcases List.mem_cons.mp member with rfl | inside
      · exact fine
      · exact clean u inside
    · intro u member
      rcases List.mem_cons.mp member with rfl | inside
      · exact readable
      · exact inRange u inside

theorem compileSound {ts : TokenStream} {c : Chunk} (ok : ts.compile = .ok c) :
    Clean ts.tokens ∧ InRange ts.tokens ∧ ∃ e, Derives Grammar.equality ts.tokens e := by
  simp only [TokenStream.compile, bind, Except.bind] at ok
  split at ok
  · contradiction
  · obtain ⟨clean, inRange⟩ := runClean ok
    have sound : Sound [] State.start .operand := ⟨_, .start⟩
    exact ⟨clean, inRange, by simpa using runSound sound ok⟩

end ExprMachine.Compilation
