import ExprMachine.Chunk.Basic

/-! The check that a chunk is fit to run: a line for each instruction, only defined opcodes, constant
indices within the pool, and never fewer values on the stack than an instruction takes. There are no
jumps, so one pass over the instructions sees the stack depth at each of them. -/
namespace ExprMachine

open Text (utf8 intText natText hexByteUpper)

inductive ChunkFault where
  | lineCount (instructions lines : Nat)
  | invalidOpcode (code : UInt8) (offset : Nat)
  | constantIndex (index : Int) (offset constants : Nat)
  | underflow (code : UInt8) (offset needed depth : Nat)
  deriving DecidableEq, Repr

def ChunkFault.message : ChunkFault → Bytes
  | lineCount instructions lines =>
    utf8 "bytecode: " ++ natText instructions ++ utf8 " instructions but " ++ natText lines ++
      utf8 " line entries"
  | invalidOpcode code offset =>
    utf8 "bytecode: invalid opcode 0x" ++ hexByteUpper code ++ utf8 " at offset " ++ natText offset
  | constantIndex index offset constants =>
    utf8 "bytecode: constant index " ++ intText index ++ utf8 " at offset " ++ natText offset ++
      utf8 " out of range [0," ++ natText constants ++ utf8 ")"
  | underflow code offset needed depth =>
    utf8 "bytecode: " ++ Opcode.nameOfByte code ++ utf8 " at offset " ++ natText offset ++
      utf8 " needs " ++ natText needed ++ utf8 " stack values, has " ++ natText depth

namespace Chunk

def instructionFault? (constants offset : Nat) (i : Instruction) : Option ChunkFault :=
  match i.opcode? with
  | none => some (.invalidOpcode i.code offset)
  | some .constant =>
    if 0 ≤ i.operand ∧ i.operand < constants then none
    else some (.constantIndex i.operand offset constants)
  | some _ => none

def firstFault? (constants : Nat) : (offset : Nat) → List Instruction → Option ChunkFault
  | _, [] => none
  | offset, i :: rest =>
    match instructionFault? constants offset i with
    | some fault => some fault
    | none => firstFault? constants (offset + 1) rest

def depthAfter (depth : Nat) (i : Instruction) : Nat :=
  depth - (Opcode.traffic i.code).1 + (Opcode.traffic i.code).2

def firstUnderflow? : (offset depth : Nat) → List Instruction → Option ChunkFault
  | _, _, [] => none
  | offset, depth, i :: rest =>
    let needed := (Opcode.traffic i.code).1
    if depth < needed then some (.underflow i.code offset needed depth)
    else firstUnderflow? (offset + 1) (depthAfter depth i) rest

/-- The stack depth before the instruction at `offset`, by counting alone. -/
def staticDepth (c : Chunk) (offset : Nat) : Nat := (c.code.toList.take offset).foldl depthAfter 0

def fault? (c : Chunk) : Option ChunkFault :=
  if c.code.size ≠ c.lines.size then some (.lineCount c.code.size c.lines.size)
  else
    match firstFault? c.constants.size 0 c.code.toList with
    | some fault => some fault
    | none => firstUnderflow? 0 0 c.code.toList

def IsValid (c : Chunk) : Prop := c.fault? = none

instance (c : Chunk) : Decidable c.IsValid := inferInstanceAs (Decidable (c.fault? = none))

end Chunk
end ExprMachine
