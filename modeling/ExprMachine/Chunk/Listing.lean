import ExprMachine.Chunk.Basic

/-! Listings: a header with a label, then one line for each instruction with its offset and its
source line. A bar stands for the line of the instruction before. -/
namespace ExprMachine.Chunk

open Text (utf8 natText intText padLeft padRight byte newline)

def constantText (c : Chunk) (index : Int) : Bytes :=
  match lookup c.constants index with
  | some v => v.text
  | none => utf8 "<invalid>"

def instructionText (c : Chunk) (i : Instruction) : Bytes :=
  match i.opcode? with
  | some .constant =>
    padRight 16 32 (Opcode.mnemonic .constant) ++ utf8 " " ++ padLeft 4 32 (intText i.operand) ++
      utf8 " '" ++ c.constantText i.operand ++ utf8 "'"
  | some op => op.mnemonic
  | none => utf8 "Unknown opcode " ++ natText i.code.toNat

def sameLine (c : Chunk) (offset : Nat) : Bool :=
  0 < offset && c.lines[offset]? == c.lines[offset - 1]?

def listingLine (c : Chunk) (offset : Nat) (i : Instruction) (line : Int) : Bytes :=
  padLeft 4 (byte '0') (natText offset) ++ utf8 " " ++
    (if c.sameLine offset then utf8 "   | " else padLeft 4 32 (intText line) ++ utf8 " ") ++
    c.instructionText i ++ [newline]

def listingAt (c : Chunk) (offset : Int) : Except OutOfRange Bytes := do
  let line ← c.lineAt offset
  let i ← c.instructionAt offset
  return c.listingLine offset.toNat i line

def listing (c : Chunk) (label : Bytes) : Bytes :=
  utf8 "== " ++ label ++ utf8 " ==" ++ [newline] ++
    (c.code.toList.zip c.lines.toList).zipIdx.flatMap fun ((i, line), offset) =>
      c.listingLine offset i line

def defaultLabel : Bytes := utf8 "code"

end ExprMachine.Chunk
