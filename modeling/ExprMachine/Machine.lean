import ExprMachine.Chunk.Check
import ExprMachine.Chunk.Listing

/-! The stack machine. It runs a chunk from its first instruction up to a return, or up to the first
operation whose operands have the wrong kinds. Chunks are checked before they run; the crashes that
remain possible in a single step cannot then occur. -/
namespace ExprMachine

open Text (utf8 natText intText newline)

inductive RuntimeFailure where
  | operandNotNumber
  | operandsNotNumbers
  | operandsNotAddable
  | noReturn
  deriving DecidableEq, Repr

def RuntimeFailure.message : RuntimeFailure → Bytes
  | operandNotNumber => utf8 "Operand must be a number."
  | operandsNotNumbers => utf8 "Operands must be numbers."
  | operandsNotAddable => utf8 "Operands must be two numbers or two strings."
  | noReturn => utf8 "Chunk ended without a return."

/-- A failure with the instruction at which it arose. An empty chunk has none: its failure is at
offset -1, line 0 and opcode byte 0. -/
structure RuntimeError where
  failure : RuntimeFailure
  line : Int
  offset : Int
  code : UInt8
  deriving DecidableEq, Repr

def RuntimeError.message (e : RuntimeError) : Bytes :=
  utf8 "[line " ++ intText e.line ++ utf8 "] " ++ e.failure.message

inductive Crash where
  | invalidChunk (fault : ChunkFault)
  | underflow (offset : Nat)
  | unknownOpcode (code : UInt8) (offset : Nat)
  | outOfRange (place : OutOfRange)
  deriving DecidableEq, Repr

def Crash.message : Crash → Bytes
  | invalidChunk fault => utf8 "vm: invalid chunk: " ++ fault.message
  | underflow offset => utf8 "vm: stack underflow at offset " ++ natText offset
  | unknownOpcode code offset =>
    utf8 "vm: unknown opcode " ++ Opcode.nameOfByte code ++ utf8 " at offset " ++ natText offset
  | outOfRange place => place.message

inductive Outcome where
  | value (v : Value)
  | failed (e : RuntimeError)
  | crashed (c : Crash)
  deriving DecidableEq, Repr

/-- The effect of one instruction on the stack, whose top comes first. -/
inductive Step where
  | next (stack : List Value)
  | done (result : Value) (stack : List Value)
  | failed (failure : RuntimeFailure)
  | crashed (c : Crash)
  deriving DecidableEq, Repr

namespace Machine

-- The top is looked at first, so what is no number there is refused even if nothing lies below.
def onNumbers (offset : Nat) (f : Number → Number → Value) : List Value → Step
  | .number b :: .number a :: rest => .next (f a b :: rest)
  | [] | [.number _] => .crashed (.underflow offset)
  | _ => .failed .operandsNotNumbers

def addition (offset : Nat) : List Value → Step
  | .number b :: .number a :: rest => .next (.number (a.add b) :: rest)
  | .string b :: .string a :: rest => .next (.string (a ++ b) :: rest)
  | _ :: _ :: _ => .failed .operandsNotAddable
  | _ => .crashed (.underflow offset)

def step (c : Chunk) (offset : Nat) (i : Instruction) (stack : List Value) : Step :=
  match i.opcode? with
  | none => .crashed (.unknownOpcode i.code offset)
  | some .constant =>
    match c.constantAt i.operand with
    | .ok v => .next (v :: stack)
    | .error place => .crashed (.outOfRange place)
  | some .nil => .next (.nil :: stack)
  | some .true => .next (.bool true :: stack)
  | some .false => .next (.bool false :: stack)
  | some .negate =>
    match stack with
    | .number x :: rest => .next (.number x.neg :: rest)
    | _ :: _ => .failed .operandNotNumber
    | [] => .crashed (.underflow offset)
  | some .add => addition offset stack
  | some .subtract => onNumbers offset (fun a b => .number (a.sub b)) stack
  | some .multiply => onNumbers offset (fun a b => .number (a.mul b)) stack
  | some .divide => onNumbers offset (fun a b => .number (a.div b)) stack
  | some .greater => onNumbers offset (fun a b => .bool (b.less a)) stack
  | some .less => onNumbers offset (fun a b => .bool (a.less b)) stack
  | some .not =>
    match stack with
    | v :: rest => .next (.bool (!v.truthy) :: rest)
    | [] => .crashed (.underflow offset)
  | some .equal =>
    match stack with
    | b :: a :: rest => .next (.bool (a.equal b) :: rest)
    | _ => .crashed (.underflow offset)
  | some .return =>
    match stack with
    | v :: rest => .done v rest
    | [] => .crashed (.underflow offset)

def errorAt (c : Chunk) (failure : RuntimeFailure) (offset : Nat) (i : Instruction) : RuntimeError :=
  ⟨failure, c.lines.getD offset 0, offset, i.code⟩

def endError (c : Chunk) : RuntimeError :=
  match c.code.back? with
  | some i => errorAt c .noReturn (c.code.size - 1) i
  | none => ⟨.noReturn, 0, -1, 0⟩

def execute (c : Chunk) : (offset : Nat) → List Instruction → List Value → Outcome × List Value
  | _, [], stack => (.failed (endError c), stack)
  | offset, i :: rest, stack =>
    match step c offset i stack with
    | .next stack => execute c (offset + 1) rest stack
    | .done v stack => (.value v, stack)
    | .failed failure => (.failed (errorAt c failure offset i), stack)
    | .crashed crash => (.crashed crash, stack)

def visits (c : Chunk) :
    (offset : Nat) → List Instruction → List Value → List (Nat × List Value)
  | _, [], _ => []
  | offset, i :: rest, stack =>
    (offset, stack) ::
      match step c offset i stack with
      | .next stack => visits c (offset + 1) rest stack
      | _ => []

def stackText (stack : List Value) : Bytes :=
  List.replicate 10 32 ++
    (stack.reverse.flatMap fun v => utf8 "[ " ++ v.text ++ utf8 " ]") ++ [newline]

def traceText (c : Chunk) : Bytes :=
  (visits c 0 c.code.toList []).flatMap fun (offset, stack) =>
    stackText stack ++ (c.listingAt offset).toOption.getD []

end Machine

structure Machine where
  stack : List Value
  deriving DecidableEq, Repr

namespace Machine

def fresh : Machine := ⟨[]⟩

def depth (m : Machine) : Nat := m.stack.length

/-- Runs a chunk on an empty stack. A chunk that fails the check is not run and leaves the machine
as it was; a failure clears the stack. -/
def interpret (m : Machine) (c : Chunk) : Outcome × Machine :=
  match c.fault? with
  | some fault => (.crashed (.invalidChunk fault), m)
  | none =>
    match execute c 0 c.code.toList [] with
    | (.failed e, _) => (.failed e, fresh)
    | (outcome, stack) => (outcome, ⟨stack⟩)

def trace (c : Chunk) : Bytes :=
  match c.fault? with
  | some _ => []
  | none => traceText c

end Machine
end ExprMachine
