import ExprMachine.Chunk.Parser
import ExprMachine.Proofs.Expression.Continuation

/-! The parser that goes on after an error reports what stops the compilation, and nothing besides.
Up to the first report both have the same code, but for operators that wait in the one and are emitted
in the other; from then on the reports stay as they are. -/
namespace ExprMachine

def Reports.about (d : Diagnostic) : Reports := ⟨true, true, [d]⟩

theorem Reports.addPanicking {r : Reports} (panic : r.panicking = true) (d : Diagnostic) :
    r.add d = r := if_pos panic

namespace Parser

open Compilation (State Expecting run readOperand readOperator readEnd misplaced lookAhead
  checkLexical)

variable {p q : Parser} {k : Nat} {pending : List Pending} {s : State} {t : Token} {line : Nat}

theorem operandUnopened (none : p.opening? = .none) :
    (operand k p).val = p.advance.report ⟨p.current, .expectedOperand⟩ := by
  rw [operand]
  split
  · rfl
  · next opens => cases none.symm.trans opens

theorem operandOpened {o : Opening} (opens : p.opening? = some o) :
    (operand k p).val = (operators k (opened o p.advance).val).val := by
  rw [operand]
  split
  · next none => cases none.symm.trans opens
  · next same =>
    cases opens.symm.trans same
    rfl

theorem operatorsStop (stops : ∀ op, p.operator? = some op → op.strength < k) :
    (operators k p).val = p := by
  rw [operators]
  split
  · rfl
  · next op found => rw [if_neg (Nat.not_le.mpr (stops op found))]

theorem operatorsContinue {op : BinaryOp} (found : p.operator? = some op)
    (tight : k ≤ op.strength) :
    (operators k p).val =
      (operators k ((operand (op.strength + 1) p.advance).val.emitAll op.opcodes)).val := by
  rw [operators]
  split
  · next none => cases none.symm.trans found
  · next same =>
    cases found.symm.trans same
    rw [if_pos tight]

theorem descent {Operand Operators : Nat → Parser → Parser → Prop}
    {Opened : Opening → Parser → Parser → Prop}
    (unopened : ∀ k p, p.opening? = none →
      Operand k p (p.advance.report ⟨p.current, .expectedOperand⟩))
    (opens : ∀ k p o first whole, p.opening? = some o → Opened o p.advance first →
      Operators k first whole → Operand k p whole)
    (group : ∀ p inner, Operand 1 p inner → Opened .group p inner.expectClosing)
    (sign : ∀ op p inner, Operand 5 p inner → Opened (.sign op) p (inner.emit op.opcode))
    (number : ∀ p, Opened .number p p.number) (string : ∀ p, Opened .string p p.string)
    (word : ∀ op p, Opened (.word op) p (p.emit op))
    (stops : ∀ k p, (∀ op, p.operator? = some op → op.strength < k) → Operators k p p)
    (continues : ∀ k p op right whole, p.operator? = some op → k ≤ op.strength →
      Operand (op.strength + 1) p.advance right →
      Operators k (right.emitAll op.opcodes) whole → Operators k p whole) :
    (∀ k p, Operand k p (operand k p).val) ∧ ∀ k p, Operators k p (operators k p).val := by
  have all := operand.mutual_induct (fun k p => Operand k p (operand k p).val)
    (fun k p => Operators k p (operators k p).val) (fun o p => Opened o p (opened o p).val)
    -- a case for each way one of the three functions can go
    ?_ ?_ ?_ ?_ ?_ ?_ ?_ ?_ ?_ ?_
  · exact ⟨all.1, all.2.1⟩
  · intro k p none
    rw [operandUnopened none]
    exact unopened k p none
  · intro k p o found _ first _ same _ _ _ ihOpened ihOperators
    obtain rfl : (opened o p.advance).val = first := congrArg Subtype.val same
    rw [operandOpened found]
    exact opens k p o _ _ found ihOpened ihOperators
  · intro k p none
    have loose : ∀ op, p.operator? = some op → op.strength < k := by simp [none]
    rw [operatorsStop loose]
    exact stops k p loose
  · intro k p op found tight _ right _ same _ _ _ _ ihOperand ihOperators
    obtain rfl : (operand (op.strength + 1) p.advance).val = right := congrArg Subtype.val same
    rw [operatorsContinue found tight]
    exact continues k p op _ _ found tight ihOperand ihOperators
  · intro k p op found weak
    have loose : ∀ op, p.operator? = some op → op.strength < k := by simpa [found] using weak
    rw [operatorsStop loose]
    exact stops k p loose
  · intro p inner _ _ ih
    rw [opened]
    exact group p _ ih
  · intro p op inner _ _ ih
    rw [opened]
    exact sign op p _ ih
  · intro p
    rw [opened]
    exact number p
  · intro p
    rw [opened]
    exact string p
  · intro p op
    rw [opened]
    exact word op p

/-! In a panic nothing is reported. -/

def Keeps (p q : Parser) : Prop := p.reports.panicking = true → q.reports = p.reports

theorem Keeps.trans {r : Parser} (first : Keeps p q) (second : Keeps q r) : Keeps p r := by
  intro panic
  have same := first panic
  rw [second (same ▸ panic), same]

theorem reportKeeps (p : Parser) (d : Diagnostic) : Keeps p (p.report d) :=
  fun panic => Reports.addPanicking panic d

theorem skipMalformedKeeps {r : Reports} (panic : r.panicking = true) (ts : List Token) :
    (skipMalformed r ts).1 = r := by
  induction ts with
  | nil => rfl
  | cons t rest ih =>
    rw [skipMalformed]
    split
    · rw [Reports.addPanicking panic]
      exact ih
    · rfl

theorem advanceKeeps (p : Parser) : Keeps p p.advance := fun panic => skipMalformedKeeps panic _

theorem numberKeeps (p : Parser) : Keeps p p.number := by
  unfold number
  split
  · exact fun _ => rfl
  · exact reportKeeps p _

theorem expectClosingKeeps (p : Parser) : Keeps p p.expectClosing := by
  unfold expectClosing
  split
  · exact advanceKeeps p
  · exact reportKeeps p _

theorem expectEndKeeps (p : Parser) : Keeps p p.expectEnd := by
  unfold expectEnd
  split
  · exact advanceKeeps p
  · exact reportKeeps p _

/-! Reading a token, in the words of the parser. -/

theorem operandRead (s : State) (t : Token) :
    readOperand s t =
      match Opening.ofKind? t.kind with
      | none => .error ⟨t, .expectedOperand⟩
      | some .group => .ok ((s.atLine t.line).wait .group, .operand)
      | some (.sign op) => .ok ((s.atLine t.line).wait (.unary op), .operand)
      | some .number =>
        match Number.ofLiteral? t.lexeme with
        | some x => .ok ((s.atLine t.line).emitConstant (.number x), .operator)
        | none => .error ⟨t, .invalidNumber⟩
      | some .string =>
        .ok ((s.atLine t.line).emitConstant (.string ((t.lexeme.drop 1).dropLast)), .operator)
      | some (.word op) => .ok ((s.atLine t.line).emit op, .operator) := by
  unfold readOperand Opening.ofKind?
  cases t.kind with
  | mark m => cases m <;> rfl
  | keyword w => cases w <;> rfl
  | _ => rfl

theorem operatorRead (s : State) (t : Token) :
    readOperator s t =
      match operatorOf? t.kind with
      | some op => .ok (((s.reduce op.strength).atLine t.line).wait (.binary op), .operand)
      | none =>
        if t.kind = .mark .rightParen then
          match (s.reduce 1).pending with
          | .group :: rest =>
            .ok (({ s.reduce 1 with pending := rest }).atLine t.line, .operator)
          | _ => .error (misplaced s t)
        else .error (misplaced s t) := by
  unfold readOperator operatorOf?
  cases t.kind with
  | mark m => cases m <;> rfl
  | _ => rfl

theorem skipSilent (ts : List Token) :
    (∃ d, lookAhead ts = .error d ∧ (skipMalformed .none ts).1 = .about d) ∨
      lookAhead ts = .ok () ∧ skipMalformed .none ts = (.none, ts) := by
  cases ts with
  | nil => exact .inr ⟨rfl, rfl⟩
  | cons t rest =>
    simp only [lookAhead, List.head?_cons, Option.map_some, Option.getD_some, checkLexical,
      skipMalformed]
    cases t.kind with
    | error e => exact .inl ⟨_, rfl, skipMalformedKeeps rfl rest⟩
    | _ => exact .inr ⟨rfl, rfl⟩

theorem reportTells (silent : p.reports = .none) (d : Diagnostic) :
    (p.report d).reports = .about d := by
  rw [report, silent]
  rfl

/-! Up to the first report the compilation and the parser agree. -/

def ahead (p : Parser) : Nat := (p.operator?.map BinaryOp.strength).getD 0

theorem strengthBounds (op : BinaryOp) : 1 ≤ op.strength ∧ op.strength < 5 := by
  cases op <;> decide

theorem aheadBound (p : Parser) : p.ahead < 5 := by
  unfold ahead
  cases p.operator? with
  | none => decide
  | some op => exact (strengthBounds op).2

def Below (k : Nat) (pending : List Pending) : Prop := k < 5 → ∀ x ∈ pending.head?, x.strength < k

theorem belowHead {x : Pending} (small : x.strength < k) : Below k (x :: pending) := by
  intro _ y first
  cases Option.some.inj first
  exact small

/-- Operators that hold as tightly as `k` may still wait in the compilation. -/
def Agrees (k : Nat) (pending : List Pending) (s : State) (p : Parser) : Prop :=
  ∀ j ≤ k, s.reduce j = (State.mk p.chunk pending p.previous.line).reduce j

inductive Follows (k : Nat) (pending : List Pending) (outcome : Except Diagnostic Chunk)
    (q : Parser) : Prop where
  | refused {d : Diagnostic} (told : q.reports = .about d) (stops : outcome = .error d)
  | onward {s : State} (silent : q.reports = .none)
      (goes : outcome = run s .operator q.eof q.tokens) (agrees : Agrees k pending s q)
      (loose : q.ahead < k)

section Stepping

variable {outcome : Except Diagnostic Chunk}

theorem Follows.keeps {d : Diagnostic} (told : p.reports = .about d) (keeps : Keeps p q)
    (stops : outcome = .error d) : Follows k pending outcome q :=
  .refused ((keeps (by rw [told]; rfl)).trans told) stops

theorem Follows.advance (silent : p.reports = .none) (keeps : Keeps p.advance q)
    (fine : p.advance = { p with previous := p.current, tokens := p.tokens.tail } →
      Follows k pending outcome q) :
    Follows k pending (do lookAhead p.tokens.tail; outcome) q := by
  obtain ⟨d, refused, told⟩ | ⟨clear, same⟩ := skipSilent p.tokens.tail
  · rw [refused]
    exact .keeps (by rw [Parser.advance, silent]; exact told) keeps rfl
  · rw [clear]
    exact fine (by rw [Parser.advance, silent, same])

end Stepping

def OperandFollows (k : Nat) (p q : Parser) : Prop :=
  Keeps p q ∧ (p.reports = .none → 1 ≤ k → k ≤ 5 → ∀ pending line, Below k pending →
    Follows k pending (run ⟨p.chunk, pending, line⟩ .operand p.eof p.tokens) q)

def OperatorsFollow (k : Nat) (p q : Parser) : Prop :=
  Keeps p q ∧ (p.reports = .none → 1 ≤ k → k ≤ 5 → ∀ pending s, Below k pending →
    Agrees (max k p.ahead) pending s p →
      Follows k pending (run s .operator p.eof p.tokens) q)

/-- The parser has read the first token of an operand, but the compilation has not yet. -/
def OpenedFollows (o : Opening) (p q : Parser) : Prop :=
  Keeps p q ∧ (p.reports = .none → Opening.ofKind? p.previous.kind = some o → ∀ pending line,
    Follows 5 pending
      (do let (s, x) ← readOperand ⟨p.chunk, pending, line⟩ p.previous; run s x p.eof p.tokens) q)

theorem unopenedFollows (none : p.opening? = .none) :
    OperandFollows k p (p.advance.report ⟨p.current, .expectedOperand⟩) := by
  have keeps := reportKeeps p.advance ⟨p.current, .expectedOperand⟩
  refine ⟨(advanceKeeps p).trans keeps, fun silent _ _ pending line _ => ?_⟩
  have stops : run ⟨p.chunk, pending, line⟩ .operand p.eof p.tokens =
      (do lookAhead p.tokens.tail; .error ⟨p.current, .expectedOperand⟩) := by
    cases tokens : p.tokens with
    | nil =>
      rw [current, tokens]
      rfl
    | cons t rest =>
      have unread : Opening.ofKind? t.kind = .none := by simpa [opening?, tokens] using none
      rw [current, tokens, run, operandRead, unread]
      rfl
  rw [stops]
  exact .advance silent keeps fun moved => .refused (reportTells (by rw [moved]; exact silent) _) rfl

theorem openingStep {o : Opening} (opens : p.opening? = some o) (s : State) :
    Opening.ofKind? p.current.kind = some o ∧
      run s .operand p.eof p.tokens = (do
        lookAhead p.tokens.tail
        let (s, x) ← readOperand s p.current
        run s x p.eof p.tokens.tail) := by
  cases tokens : p.tokens with
  | nil => simp [opening?, tokens] at opens
  | cons t rest =>
    rw [current, tokens]
    exact ⟨by simpa [opening?, tokens] using opens, rfl⟩

theorem opensFollows {o : Opening} {first whole : Parser} (opens : p.opening? = some o)
    (opened : OpenedFollows o p.advance first) (operators : OperatorsFollow k first whole) :
    OperandFollows k p whole := by
  refine ⟨(advanceKeeps p).trans (opened.1.trans operators.1), fun silent positive bound pending
    line below => ?_⟩
  obtain ⟨kind, step⟩ := openingStep opens ⟨p.chunk, pending, line⟩
  rw [step]
  refine .advance silent (opened.1.trans operators.1) fun moved => ?_
  rw [moved] at opened
  cases opened.2 silent kind pending line with
  | refused told stops => exact .keeps told operators.1 stops
  | onward silent goes agrees _ =>
    have limit : max k first.ahead ≤ 5 := Nat.max_le.mpr ⟨bound, Nat.le_of_lt first.aheadBound⟩
    rw [goes]
    exact operators.2 silent positive bound pending _ below fun j small =>
      agrees j (Nat.le_trans small limit)

theorem stopsFollow (stops : ∀ op, p.operator? = some op → op.strength < k) :
    OperatorsFollow k p p := by
  refine ⟨fun _ => rfl, fun silent positive _ pending s _ agrees => ?_⟩
  refine .onward silent rfl (fun j small => agrees j (Nat.le_trans small (Nat.le_max_left _ _))) ?_
  unfold ahead
  cases found : p.operator? with
  | none => exact positive
  | some op => exact stops op found

theorem operatorStep {op : BinaryOp} (found : p.operator? = some op) (s : State) :
    run s .operator p.eof p.tokens = (do
      lookAhead p.tokens.tail
      run (((s.reduce op.strength).atLine p.current.line).wait (.binary op)) .operand p.eof
        p.tokens.tail) := by
  cases tokens : p.tokens with
  | nil => simp [operator?, tokens] at found
  | cons t rest =>
    have kind : operatorOf? t.kind = some op := by simpa [operator?, tokens] using found
    rw [current, tokens, run, operatorRead, kind]
    rfl

theorem agreesEmitted {op : BinaryOp}
    (agrees : Agrees (op.strength + 1) (.binary op :: pending) s p) :
    Agrees op.strength pending s (p.emitAll op.opcodes) := by
  intro j small
  have within : j ≤ (Pending.binary op).strength := small
  rw [agrees j (Nat.le_succ_of_le small), State.reduceCons, if_pos within, emitAllMade]
  rfl

theorem continuesFollow {op : BinaryOp} {right whole : Parser} (found : p.operator? = some op)
    (tight : k ≤ op.strength) (operand : OperandFollows (op.strength + 1) p.advance right)
    (operators : OperatorsFollow k (right.emitAll op.opcodes) whole) :
    OperatorsFollow k p whole := by
  have bounds := strengthBounds op
  have made := emitAllMade right op.opcodes
  have emitted : Keeps right (right.emitAll op.opcodes) := fun _ => by rw [made]
  have later := operand.1.trans (emitted.trans operators.1)
  refine ⟨(advanceKeeps p).trans later, fun silent positive bound pending s below agrees => ?_⟩
  have blocked : s.reduce op.strength = ⟨p.chunk, pending, p.previous.line⟩ := by
    have strength : p.ahead = op.strength := by simp [ahead, found]
    rw [agrees _ (strength ▸ Nat.le_max_right _ _)]
    exact State.reduceBlocked fun x first =>
      Nat.lt_of_lt_of_le (below (by omega) x first) tight
  rw [operatorStep found, blocked]
  refine .advance silent later fun moved => ?_
  rw [moved] at operand
  have under : Below (op.strength + 1) (.binary op :: pending) :=
    belowHead (Nat.lt_succ_self op.strength)
  cases operand.2 silent (by omega) (by omega) (.binary op :: pending) p.current.line under with
  | refused told stops => exact .keeps told (emitted.trans operators.1) stops
  | @onward s' silent goes agrees loose =>
    have limit : max k (right.emitAll op.opcodes).ahead ≤ op.strength := by
      rw [made]
      exact Nat.max_le.mpr ⟨tight, Nat.le_of_lt_succ loose⟩
    have onward := operators.2 (by rw [made]; exact silent) positive bound pending s' below
      fun j small => agreesEmitted agrees j (Nat.le_trans small limit)
    rw [made] at onward
    exact goes ▸ onward

theorem looseNone (loose : p.ahead < 1) : p.operator? = none := by
  cases found : p.operator? with
  | none => rfl
  | some op =>
    have positive := (strengthBounds op).1
    simp only [ahead, found, Option.map_some, Option.getD_some] at loose
    omega

theorem misplacedRead (other : operatorOf? t.kind = none)
    (unclosed : t.kind = .mark .rightParen → ∀ rest, (s.reduce 1).pending ≠ .group :: rest) :
    readOperator s t = .error (misplaced s t) := by
  rw [operatorRead, other]
  dsimp only
  split
  · next closing =>
    split
    · next rest opened => exact absurd opened (unclosed closing rest)
    · rfl
  · rfl

theorem misplacedStep (loose : p.ahead < 1) (ends : p.tokens = [] → s.inGroup = true)
    (unclosed : p.closes = true → ∀ rest, (s.reduce 1).pending ≠ .group :: rest) :
    run s .operator p.eof p.tokens = .error (misplaced s p.current) := by
  have other := looseNone loose
  cases tokens : p.tokens with
  | nil =>
    rw [current, tokens, run, readEnd, ends tokens]
    rfl
  | cons t rest =>
    rw [operator?, tokens] at other
    rw [closes, tokens] at unclosed
    rw [current, tokens, run, misplacedRead other fun kind => unclosed (by simp [kind])]
    rfl

theorem closingStep (closes : p.closes = true) {rest : List Pending}
    (opened : (s.reduce 1).pending = .group :: rest) :
    run s .operator p.eof p.tokens = (do
      lookAhead p.tokens.tail
      run (({ s.reduce 1 with pending := rest }).atLine p.current.line) .operator p.eof
        p.tokens.tail) := by
  cases tokens : p.tokens with
  | nil => simp [Parser.closes, tokens] at closes
  | cons t others =>
    have kind : t.kind = .mark .rightParen := by simpa [Parser.closes, tokens] using closes
    have read : readOperator s t =
        .ok (({ s.reduce 1 with pending := rest }).atLine t.line, .operator) := by
      rw [operatorRead, kind]
      simp only [opened]
      rfl
    rw [current, tokens, run, read]
    rfl

theorem groupFollows {inner : Parser} (operand : OperandFollows 1 p inner) :
    OpenedFollows .group p inner.expectClosing := by
  refine ⟨operand.1.trans (expectClosingKeeps inner), fun silent kind pending line => ?_⟩
  have under : Below 1 (.group :: pending) := belowHead (by decide)
  rw [operandRead, kind]
  change Follows 5 pending
    (run ⟨p.chunk, .group :: pending, p.previous.line⟩ .operand p.eof p.tokens) _
  cases operand.2 silent (Nat.le_refl 1) (by decide) (.group :: pending) p.previous.line under with
  | refused told stops => exact .keeps told (expectClosingKeeps inner) stops
  | @onward s' silent goes agrees loose =>
    have reduced : s'.reduce 1 = ⟨inner.chunk, .group :: pending, inner.previous.line⟩ := by
      rw [agrees 1 (Nat.le_refl 1)]
      exact State.reduceBlocked (under (by decide))
    have inside : s'.inGroup = true := by
      rw [← State.reduceInGroup (Nat.le_refl 1), reduced]
      rfl
    refine goes ▸ ?_
    unfold expectClosing
    split
    · next closes =>
      rw [closingStep closes (by rw [reduced]), reduced]
      refine .advance silent (fun _ => rfl) fun moved => ?_
      rw [moved]
      exact .onward silent rfl (fun _ _ => rfl) (aheadBound _)
    · next other =>
      have stops := misplacedStep (s := s') loose (fun _ => inside) (absurd · other)
      rw [misplaced, inside] at stops
      exact .refused (reportTells silent _) stops

theorem signFollows {op : UnaryOp} {inner : Parser} (operand : OperandFollows 5 p inner) :
    OpenedFollows (.sign op) p (inner.emit op.opcode) := by
  refine ⟨operand.1, fun silent kind pending line => ?_⟩
  rw [operandRead, kind]
  change Follows 5 pending
    (run ⟨p.chunk, .unary op :: pending, p.previous.line⟩ .operand p.eof p.tokens) _
  cases operand.2 silent (by decide) (Nat.le_refl 5) (.unary op :: pending) p.previous.line
    (fun small => absurd small (Nat.lt_irrefl 5)) with
  | refused told stops => exact .refused told stops
  | onward silent goes agrees loose =>
    refine .onward silent goes (fun j small => ?_) loose
    have within : j ≤ (Pending.unary op).strength := small
    rw [agrees j small, State.reduceCons, if_pos within]
    rfl

theorem numberFollows (p : Parser) : OpenedFollows .number p p.number := by
  refine ⟨numberKeeps p, fun silent kind pending line => ?_⟩
  rw [operandRead, kind, number]
  dsimp only
  cases Number.ofLiteral? p.previous.lexeme with
  | none => exact .refused (reportTells silent _) rfl
  | some x => exact .onward silent rfl (fun _ _ => rfl) (aheadBound _)

theorem stringFollows (p : Parser) : OpenedFollows .string p p.string := by
  refine ⟨fun _ => rfl, fun silent kind pending line => ?_⟩
  rw [operandRead, kind]
  exact .onward silent rfl (fun _ _ => rfl) (aheadBound _)

theorem wordFollows (op : Opcode) (p : Parser) : OpenedFollows (.word op) p (p.emit op) := by
  refine ⟨fun _ => rfl, fun silent kind pending line => ?_⟩
  rw [operandRead, kind]
  exact .onward silent rfl (fun _ _ => rfl) (aheadBound _)

theorem operandFollows (k : Nat) (p : Parser) : OperandFollows k p (operand k p).val :=
  (@descent OperandFollows OperatorsFollow OpenedFollows (fun _ _ none => unopenedFollows none)
    (fun _ _ _ _ _ opens opened operators => opensFollows opens opened operators)
    (fun _ _ operand => groupFollows operand) (fun _ _ _ operand => signFollows operand)
    numberFollows stringFollows wordFollows (fun _ _ stops => stopsFollow stops)
    fun _ _ _ _ _ found tight operand operators =>
      continuesFollow found tight operand operators).1 k p

theorem endFollows {outcome : Except Diagnostic Chunk} (follows : Follows 1 [] outcome p) :
    (∃ d, outcome = .error d ∧ p.expectEnd.reports = .about d) ∨
      outcome = .ok (p.expectEnd.emit .return).chunk ∧ p.expectEnd.reports = .none := by
  cases follows with
  | refused told stops =>
    exact .inl ⟨_, stops, (expectEndKeeps p (by rw [told]; rfl)).trans told⟩
  | @onward s silent goes agrees loose =>
    have reduced : s.reduce 1 = ⟨p.chunk, [], p.previous.line⟩ := agrees 1 (Nat.le_refl 1)
    have outside : s.inGroup = false := by
      rw [← State.reduceInGroup (Nat.le_refl 1), reduced]
      rfl
    rw [goes]
    unfold expectEnd
    split
    · next ends =>
      right
      rw [advance, current, ends, silent, run, readEnd, outside, reduced]
      exact ⟨rfl, rfl⟩
    · next more =>
      have stops := misplacedStep (s := s) loose (absurd · more) (by simp [reduced])
      rw [misplaced, outside] at stops
      exact .inl ⟨_, stops, reportTells silent _⟩

theorem parseFollows (ts : TokenStream) :
    (∃ d, ts.compile = .error d ∧ (parse ts).reports = .about d) ∨
      ts.compile = .ok (parse ts).chunk ∧ (parse ts).reports = .none := by
  have compiled : ts.compile = (do lookAhead ts.tokens; run .start .operand ts.eof ts.tokens) := rfl
  obtain ⟨keeps, follows⟩ := operandFollows 1 (start ts)
  obtain ⟨d, refused, told⟩ | ⟨clear, same⟩ := skipSilent ts.tokens
  · refine .inl ⟨d, by rw [compiled, refused]; rfl, ?_⟩
    have reports : (start ts).reports = .about d := told
    exact (keeps.trans (expectEndKeeps _) (by rw [reports]; rfl)).trans reports
  · have started : start ts = ⟨.empty, ⟨.mark .leftParen, [], 0, 0⟩, ts.tokens, ts.eof, .none⟩ := by
      rw [start, same]
    rw [clear] at compiled
    have outcome := follows (by rw [started]) (Nat.le_refl 1) (by decide) [] 0
      (fun _ x first => nomatch first)
    have meant : run ⟨(start ts).chunk, [], 0⟩ .operand (start ts).eof (start ts).tokens =
        ts.compile := by
      rw [started, compiled]
      rfl
    exact endFollows (meant ▸ outcome)

theorem parseExact (ts : TokenStream) : (parse ts).result = ts.compile.mapError ([·]) := by
  obtain ⟨d, refused, told⟩ | ⟨compiled, silent⟩ := parseFollows ts
  · rw [result, told, refused]
    rfl
  · rw [result, silent, compiled]
    rfl

end Parser
end ExprMachine
