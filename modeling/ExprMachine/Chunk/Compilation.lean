import ExprMachine.Chunk.Basic
import ExprMachine.Diagnostic
import ExprMachine.Number.Literal
import ExprMachine.Operator
import ExprMachine.Token.Lexer

/-! From tokens to a chunk in one pass. Operators and open groups that still wait for their right
end stand on a list, innermost first; an operator is carried out as soon as a token follows that
binds no tighter. The first token that no expression can continue with is reported. -/
namespace ExprMachine

inductive Pending where
  | group
  | unary (op : UnaryOp)
  | binary (op : BinaryOp)
  deriving DecidableEq, Repr

def Pending.opcodes : Pending → List Opcode
  | group => []
  | unary op => [op.opcode]
  | binary op => op.opcodes

def Pending.strength : Pending → Nat
  | group => 0
  | unary _ => 5
  | binary op => op.strength

namespace Compilation

structure State where
  chunk : Chunk
  pending : List Pending
  line : Nat
  deriving DecidableEq, Repr

namespace State

def start : State := ⟨.empty, [], 0⟩

def emit (s : State) (op : Opcode) : State := { s with chunk := s.chunk.push (.plain op) s.line }

def emitConstant (s : State) (v : Value) : State :=
  { s with chunk := s.chunk.pushConstant v s.line }

def wait (s : State) (p : Pending) : State := { s with pending := p :: s.pending }

def atLine (s : State) (line : Nat) : State := { s with line := line }

def reduceAll (strength : Nat) (chunk : Chunk) (line : Nat) : List Pending → State
  | [] => ⟨chunk, [], line⟩
  | p :: rest =>
    if strength ≤ p.strength then
      reduceAll strength (p.opcodes.foldl (fun c op => c.push (.plain op) line) chunk) line rest
    else ⟨chunk, p :: rest, line⟩

def reduce (s : State) (strength : Nat) : State := reduceAll strength s.chunk s.line s.pending

def inGroup (s : State) : Bool := s.pending.contains .group

end State

inductive Expecting where
  | operand
  | operator
  deriving DecidableEq, Repr

def readOperand (s : State) (t : Token) : Except Diagnostic (State × Expecting) :=
  let s := s.atLine t.line
  match t.kind with
  | .number =>
    match Number.ofLiteral? t.lexeme with
    | some x => .ok (s.emitConstant (.number x), .operator)
    | none => .error ⟨t, .invalidNumber⟩
  | .string => .ok (s.emitConstant (.string ((t.lexeme.drop 1).dropLast)), .operator)
  | .keyword .nil => .ok (s.emit .nil, .operator)
  | .keyword .true => .ok (s.emit .true, .operator)
  | .keyword .false => .ok (s.emit .false, .operator)
  | .mark .leftParen => .ok (s.wait .group, .operand)
  | .mark m =>
    match UnaryOp.ofMark? m with
    | some op => .ok (s.wait (.unary op), .operand)
    | none => .error ⟨t, .expectedOperand⟩
  | _ => .error ⟨t, .expectedOperand⟩

def misplaced (s : State) (t : Token) : Diagnostic :=
  ⟨t, if s.inGroup then .expectedClosingParen else .expectedEnd⟩

def readOperator (s : State) (t : Token) : Except Diagnostic (State × Expecting) :=
  match t.kind with
  | .mark .rightParen =>
    let reduced := s.reduce 1
    match reduced.pending with
    | .group :: rest => .ok (({ reduced with pending := rest }).atLine t.line, .operator)
    | _ => .error (misplaced s t)
  | .mark m =>
    match BinaryOp.ofMark? m with
    | some op => .ok (((s.reduce op.strength).atLine t.line).wait (.binary op), .operand)
    | none => .error (misplaced s t)
  | _ => .error (misplaced s t)

def readEnd (s : State) (expecting : Expecting) (eof : Token) : Except Diagnostic Chunk :=
  match expecting with
  | .operand => .error ⟨eof, .expectedOperand⟩
  | .operator =>
    if s.inGroup then .error (misplaced s eof)
    else .ok (((s.reduce 1).atLine eof.line).emit .return).chunk

def checkLexical (t : Token) : Except Diagnostic Unit :=
  match t.kind with
  | .error e => .error ⟨t, .lexical e⟩
  | _ => .ok ()

/-- Reads the tokens from one on. A token is looked at as soon as the one before it has been taken,
so a lexical error is reported before a misplaced operand in front of it. -/
def run (s : State) (expecting : Expecting) (eof : Token) :
    List Token → Except Diagnostic Chunk
  | [] => readEnd s expecting eof
  | t :: rest =>
    match expecting with
    | .operand => do
      (rest.head?.map checkLexical).getD (.ok ())
      let (s, expecting) ← readOperand s t
      run s expecting eof rest
    | .operator => do
      let (s, expecting) ← readOperator s t
      (rest.head?.map checkLexical).getD (.ok ())
      run s expecting eof rest

end Compilation

def TokenStream.compile (ts : TokenStream) : Except Diagnostic Chunk := do
  (ts.tokens.head?.map Compilation.checkLexical).getD (.ok ())
  Compilation.run .start .operand ts.eof ts.tokens

def compile (source : Bytes) : Except Diagnostic Chunk := (TokenStream.ofSource source).compile

end ExprMachine
