import ExprMachine.Text.Bytes

/-! The instruction set. Opcodes are bytes; those of one family share their high four bits. -/
namespace ExprMachine

open Text (utf8 hexByteUpper)

inductive Opcode where
  | constant | nil | true | false
  | negate | add | subtract | multiply | divide
  | not | equal | greater | less
  | return
  deriving DecidableEq, Repr

namespace Opcode

def all : List Opcode :=
  [.constant, .nil, .true, .false, .negate, .add, .subtract, .multiply, .divide, .not, .equal,
    .greater, .less, .return]

def byte : Opcode → UInt8
  | .constant => 0x00
  | .nil => 0x01
  | .true => 0x02
  | .false => 0x03
  | .negate => 0x10
  | .add => 0x11
  | .subtract => 0x12
  | .multiply => 0x13
  | .divide => 0x14
  | .not => 0x20
  | .equal => 0x21
  | .greater => 0x22
  | .less => 0x23
  | .return => 0xf0

def ofByte? (b : UInt8) : Option Opcode := all.find? fun op => op.byte == b

def mnemonic : Opcode → Bytes
  | .constant => utf8 "OpConstant"
  | .nil => utf8 "OpNil"
  | .true => utf8 "OpTrue"
  | .false => utf8 "OpFalse"
  | .negate => utf8 "OpNegate"
  | .add => utf8 "OpAdd"
  | .subtract => utf8 "OpSubtract"
  | .multiply => utf8 "OpMultiply"
  | .divide => utf8 "OpDivide"
  | .not => utf8 "OpNot"
  | .equal => utf8 "OpEqual"
  | .greater => utf8 "OpGreater"
  | .less => utf8 "OpLess"
  | .return => utf8 "OpReturn"

def pops : Opcode → Nat
  | .constant | .nil | .true | .false => 0
  | .negate | .not | .return => 1
  | .add | .subtract | .multiply | .divide | .equal | .greater | .less => 2

def pushes : Opcode → Nat
  | .return => 0
  | _ => 1

def hasOperand (op : Opcode) : Bool := op == .constant

def nameOfByte (b : UInt8) : Bytes :=
  match ofByte? b with
  | some op => op.mnemonic
  | none => utf8 "UNKNOWN(0x" ++ hexByteUpper b ++ utf8 ")"

def traffic (b : UInt8) : Nat × Nat :=
  match ofByte? b with
  | some op => (op.pops, op.pushes)
  | none => (0, 0)

def stackEffect (b : UInt8) : Int := (traffic b).2 - (traffic b).1

theorem ofByte?_byte (op : Opcode) : ofByte? op.byte = some op := by cases op <;> rfl

end Opcode
end ExprMachine
