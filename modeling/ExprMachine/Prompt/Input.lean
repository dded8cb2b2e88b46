import ExprMachine.Text.Bytes

/-! Lines of an input. A line ends with a line feed, and a carriage return before that belongs to
its end; what follows the last line feed is a line of its own. Overlong lines come in pieces. -/
namespace ExprMachine.Prompt

open Text (newline)

def carriageReturn : UInt8 := 13

def longestPiece : Nat := 4096

structure Piece where
  content : Bytes
  isLast : Bool
  deriving DecidableEq, Repr

def dropCarriageReturn (s : Bytes) : Bytes :=
  if s.getLast? = some carriageReturn then s.dropLast else s

theorem length_dropCarriageReturn (s : Bytes) : s.length - 1 ≤ (dropCarriageReturn s).length := by
  unfold dropCarriageReturn
  split <;> simp

/-- The first piece of an input and what follows it. A carriage return at the end of an unfinished
piece is left for the next, since a line feed may follow. -/
def nextPiece (s : Bytes) : Piece × Bytes :=
  let chunk := s.take longestPiece
  if chunk.contains newline then
    let line := chunk.takeWhile (· != newline)
    (⟨dropCarriageReturn line, true⟩, s.drop (line.length + 1))
  else if chunk.length < longestPiece then (⟨chunk, true⟩, [])
  else
    let content := dropCarriageReturn chunk
    (⟨content, false⟩, s.drop content.length)

theorem nextPiece_length {s : Bytes} (h : s ≠ []) : (nextPiece s).2.length < s.length := by
  have : 0 < s.length := List.length_pos_iff.2 h
  unfold nextPiece
  dsimp only
  split
  · simp; omega
  · split
    · simpa using this
    · rename_i full
      have := length_dropCarriageReturn (s.take longestPiece)
      simp only [longestPiece, List.length_take, List.length_drop] at full this ⊢
      omega

def pieces (s : Bytes) : List Piece :=
  if h : s = [] then []
  else
    have := nextPiece_length h
    (nextPiece s).1 :: pieces (nextPiece s).2
termination_by s.length

end ExprMachine.Prompt
