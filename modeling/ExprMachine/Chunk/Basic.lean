import ExprMachine.Opcode
import ExprMachine.Value

/-! A chunk is a compiled expression: instructions, the source line of each, and the constants they
refer to. Any opcode byte and any operand may be stored; checking is a separate matter. -/
namespace ExprMachine

open Text (utf8 intText natText)

/-- One instruction. The operand counts only for the constant instruction. -/
structure Instruction where
  code : UInt8
  operand : Int
  deriving DecidableEq, Repr

namespace Instruction

def opcode? (i : Instruction) : Option Opcode := Opcode.ofByte? i.code

def plain (op : Opcode) : Instruction := ⟨op.byte, 0⟩

def constant (index : Nat) : Instruction := ⟨Opcode.byte .constant, index⟩

def text (i : Instruction) : Bytes :=
  let name := Opcode.nameOfByte i.code
  if i.opcode?.any Opcode.hasOperand then name ++ utf8 "(" ++ intText i.operand ++ utf8 ")"
  else name

end Instruction

structure Chunk where
  version : UInt16
  code : Array Instruction
  lines : Array Int
  constants : Array Value
  deriving DecidableEq, Repr

inductive OutOfRange where
  | instruction (offset : Int) (size : Nat)
  | line (offset : Int) (size : Nat)
  | constant (index : Int) (size : Nat)
  deriving DecidableEq, Repr

def OutOfRange.message : OutOfRange → Bytes
  | instruction offset size => describe "instruction offset" offset size
  | line offset size => describe "line offset" offset size
  | constant index size => describe "constant index" index size
where
  describe (what : String) (place : Int) (size : Nat) : Bytes :=
    utf8 "bytecode: " ++ utf8 what ++ utf8 " " ++ intText place ++ utf8 " out of range [0," ++
      natText size ++ utf8 ")"

namespace Chunk

def currentVersion : UInt16 := 1

def empty : Chunk := ⟨currentVersion, #[], #[], #[]⟩

def size (c : Chunk) : Nat := c.code.size

def push (c : Chunk) (i : Instruction) (line : Int) : Chunk :=
  { c with code := c.code.push i, lines := c.lines.push line }

def addConstant (c : Chunk) (v : Value) : Chunk := { c with constants := c.constants.push v }

def pushConstant (c : Chunk) (v : Value) (line : Int) : Chunk :=
  (c.addConstant v).push (.constant c.constants.size) line

def lookup {α : Type} (xs : Array α) : Int → Option α
  | .ofNat n => xs[n]?
  | .negSucc _ => none

theorem lookupMem {α : Type} {xs : Array α} {index : Int} {x : α} (found : lookup xs index = some x) :
    x ∈ xs := by
  cases index with
  | ofNat n => exact Array.mem_of_getElem? found
  | negSucc n => contradiction

def instructionAt (c : Chunk) (offset : Int) : Except OutOfRange Instruction :=
  match lookup c.code offset with
  | some i => .ok i
  | none => .error (.instruction offset c.code.size)

def lineAt (c : Chunk) (offset : Int) : Except OutOfRange Int :=
  match lookup c.lines offset with
  | some line => .ok line
  | none => .error (.line offset c.lines.size)

def constantAt (c : Chunk) (index : Int) : Except OutOfRange Value :=
  match lookup c.constants index with
  | some v => .ok v
  | none => .error (.constant index c.constants.size)

end Chunk
end ExprMachine
