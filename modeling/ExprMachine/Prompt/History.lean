import ExprMachine.Prompt.Input
import ExprMachine.Text.Utf8

/-! The lines entered so far, oldest first. Only the latest are kept. -/
namespace ExprMachine.Prompt

open Text (newline)

abbrev History := List Bytes

namespace History

def limit : Nat := 1000

def latest (h : List Bytes) : History := h.drop (h.length - limit)

def ofText (s : Bytes) : History :=
  -- The history ends at the first line that is overlong or not valid text.
  latest (((pieces s).takeWhile fun p => p.isLast && Text.isValid p.content).map Piece.content)

def push (h : History) (line : Bytes) : History :=
  if h.getLast? = some line then h else latest (h ++ [line])

def text (h : History) : Bytes := h.flatMap (· ++ [newline])

end History
end ExprMachine.Prompt
