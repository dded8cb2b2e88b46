import ExprMachine.Chunk.Compilation

/-! Compilation by recursive descent, which does not stop at an error. The first error puts the parser
into a panic that lasts until the end of the source, and in a panic nothing is reported. -/
namespace ExprMachine

structure Reports where
  failed : Bool
  panicking : Bool
  diagnostics : List Diagnostic
  deriving DecidableEq, Repr

namespace Reports

def none : Reports := ⟨false, false, []⟩

def add (r : Reports) (d : Diagnostic) : Reports :=
  if r.panicking then r else ⟨true, true, r.diagnostics ++ [d]⟩

end Reports

/-- A parser has read `previous`; the first of `tokens` is looked at, or the end if there is none. -/
structure Parser where
  chunk : Chunk
  previous : Token
  tokens : List Token
  eof : Token
  reports : Reports
  deriving DecidableEq, Repr

namespace Parser

inductive Opening where
  | group
  | sign (op : UnaryOp)
  | number
  | string
  | word (op : Opcode)
  deriving DecidableEq, Repr

def Opening.ofKind? : TokenKind → Option Opening
  | .number => some number
  | .string => some string
  | .keyword .nil => some (word .nil)
  | .keyword .true => some (word .true)
  | .keyword .false => some (word .false)
  | .mark .leftParen => some group
  | .mark m => (UnaryOp.ofMark? m).map sign
  | _ => none

def operatorOf? : TokenKind → Option BinaryOp
  | .mark m => BinaryOp.ofMark? m
  | _ => none

def current (p : Parser) : Token := p.tokens.headD p.eof

def opening? (p : Parser) : Option Opening := p.tokens.head?.bind (Opening.ofKind? ·.kind)

def operator? (p : Parser) : Option BinaryOp := p.tokens.head?.bind (operatorOf? ·.kind)

def report (p : Parser) (d : Diagnostic) : Parser := { p with reports := p.reports.add d }

def skipMalformed (reports : Reports) : List Token → Reports × List Token
  | [] => (reports, [])
  | t :: rest =>
    match t.kind with
    | .error e => skipMalformed (reports.add ⟨t, .lexical e⟩) rest
    | _ => (reports, t :: rest)

def advance (p : Parser) : Parser :=
  let (reports, tokens) := skipMalformed p.reports p.tokens.tail
  { p with previous := p.current, tokens, reports }

def emit (p : Parser) (op : Opcode) : Parser :=
  { p with chunk := p.chunk.push (.plain op) p.previous.line }

def emitAll (p : Parser) (ops : List Opcode) : Parser := ops.foldl emit p

def emitConstant (p : Parser) (v : Value) : Parser :=
  { p with chunk := p.chunk.pushConstant v p.previous.line }

def number (p : Parser) : Parser :=
  match Number.ofLiteral? p.previous.lexeme with
  | some x => p.emitConstant (.number x)
  | none => p.report ⟨p.previous, .invalidNumber⟩

def string (p : Parser) : Parser :=
  p.emitConstant (.string ((p.previous.lexeme.drop 1).dropLast))

def closes (p : Parser) : Bool := p.tokens.head?.any (·.kind == .mark .rightParen)

def expectClosing (p : Parser) : Parser :=
  if p.closes then p.advance
  else p.report ⟨p.current, .expectedClosingParen⟩

def expectEnd (p : Parser) : Parser :=
  if p.tokens = [] then p.advance else p.report ⟨p.current, .expectedEnd⟩

theorem skipMalformedLength (reports : Reports) (ts : List Token) :
    (skipMalformed reports ts).2.length ≤ ts.length := by
  induction ts generalizing reports with
  | nil => exact Nat.le_refl _
  | cons t rest ih =>
    rw [skipMalformed]
    split
    · exact Nat.le_succ_of_le (ih _)
    · exact Nat.le_refl _

theorem advanceLength (p : Parser) : p.advance.tokens.length ≤ p.tokens.length - 1 := by
  have bound := skipMalformedLength p.reports p.tokens.tail
  rwa [List.length_tail] at bound

theorem advanceShorter {p : Parser} (ahead : p.tokens ≠ []) :
    p.advance.tokens.length < p.tokens.length := by
  have bound := p.advanceLength
  have nonempty := List.length_pos_iff.mpr ahead
  omega

theorem openingAhead {p : Parser} {o : Opening} (opens : p.opening? = some o) :
    p.advance.tokens.length < p.tokens.length :=
  advanceShorter fun none => by simp [opening?, none] at opens

theorem operatorAhead {p : Parser} {op : BinaryOp} (found : p.operator? = some op) :
    p.advance.tokens.length < p.tokens.length :=
  advanceShorter fun none => by simp [operator?, none] at found

theorem emitAllMade (p : Parser) (ops : List Opcode) : p.emitAll ops =
    { p with chunk := ops.foldl (fun c op => c.push (.plain op) p.previous.line) p.chunk } := by
  induction ops generalizing p with
  | nil => rfl
  | cons op ops ih => exact ih (p.emit op)

theorem emitAllTokens (p : Parser) (ops : List Opcode) : (p.emitAll ops).tokens = p.tokens := by
  rw [emitAllMade]

theorem numberTokens (p : Parser) : p.number.tokens = p.tokens := by
  unfold number
  split <;> rfl

theorem expectClosingLength (p : Parser) : p.expectClosing.tokens.length ≤ p.tokens.length := by
  unfold expectClosing
  split
  · exact Nat.le_trans p.advanceLength (Nat.sub_le _ _)
  · exact Nat.le_refl _

abbrev Onward (p : Parser) : Type := { q : Parser // q.tokens.length ≤ p.tokens.length }

mutual

/-- Reads an operand with the operators behind it that bind at least as tightly as `strength`. -/
def operand (strength : Nat) (p : Parser) : Onward p :=
  match opens : p.opening? with
  | none =>
    ⟨p.advance.report ⟨p.current, .expectedOperand⟩,
      Nat.le_trans p.advanceLength (Nat.sub_le _ _)⟩
  | some o =>
    have fewer := openingAhead opens
    let ⟨first, opened⟩ := opened o p.advance
    let ⟨whole, onward⟩ := operators strength first
    ⟨whole, by omega⟩
termination_by 2 * p.tokens.length

def opened (o : Opening) (p : Parser) : Onward p :=
  match o with
  | .group =>
    let ⟨inner, onward⟩ := operand 1 p
    ⟨inner.expectClosing, Nat.le_trans inner.expectClosingLength onward⟩
  | .sign op =>
    -- no operator is as strong as 5, so that a sign takes its operand alone
    let ⟨inner, onward⟩ := operand 5 p
    ⟨inner.emit op.opcode, onward⟩
  | .number => ⟨p.number, Nat.le_of_eq (congrArg List.length p.numberTokens)⟩
  | .string => ⟨p.string, Nat.le_refl _⟩
  | .word op => ⟨p.emit op, Nat.le_refl _⟩
termination_by 2 * p.tokens.length + 1

def operators (strength : Nat) (p : Parser) : Onward p :=
  match found : p.operator? with
  | none => ⟨p, Nat.le_refl _⟩
  | some op =>
    if strength ≤ op.strength then
      have fewer := operatorAhead found
      let ⟨right, onward⟩ := operand (op.strength + 1) p.advance
      have kept := congrArg List.length (right.emitAllTokens op.opcodes)
      let ⟨whole, further⟩ := operators strength (right.emitAll op.opcodes)
      ⟨whole, by omega⟩
    else ⟨p, Nat.le_refl _⟩
termination_by 2 * p.tokens.length + 1

end

def start (ts : TokenStream) : Parser :=
  -- Before any token has been read, the previous one is the one whose fields are all zero.
  let (reports, tokens) := skipMalformed .none ts.tokens
  ⟨.empty, ⟨.mark .leftParen, [], 0, 0⟩, tokens, ts.eof, reports⟩

def parse (ts : TokenStream) : Parser := (operand 1 (start ts)).val.expectEnd.emit .return

def result (p : Parser) : Except (List Diagnostic) Chunk :=
  if p.reports.failed then .error p.reports.diagnostics else .ok p.chunk

end Parser
end ExprMachine
