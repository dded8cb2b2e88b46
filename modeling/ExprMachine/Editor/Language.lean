import ExprMachine.Chunk.Compilation
import ExprMachine.Editor.Position
import ExprMachine.Session

/-! What an editor is told about a document: the error in it if it does not compile, its value, and
the words that can complete a fragment. -/
namespace ExprMachine.Editor

open Text (utf8 intText)

structure Marker where
  range : Range
  message : Bytes
  deriving DecidableEq, Repr

def markers (text : Bytes) : List Marker :=
  match compile text with
  | .ok _ => []
  | .error d => ((rangeOf? text d.offset d.length).map fun range => ⟨range, d.message⟩).toList

def literalWords : List Keyword := [.false, .nil, .true]

def completions (fragment : Bytes) : List Keyword :=
  literalWords.filter fun k => fragment.isPrefixOf k.text && k.text != fragment

def hoverText : Except Diagnostic Outcome → Option Bytes
  | .ok (.value v) =>
    some (utf8 "**" ++ v.kind.name ++ utf8 "** \x60" ++ v.text ++ utf8 "\x60")
  | .ok (.failed e) =>
    some (utf8 "**runtime error** (line " ++ intText e.line ++ utf8 "): " ++ e.failure.message)
  | _ => none

end ExprMachine.Editor
