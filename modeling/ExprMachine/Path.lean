import ExprMachine.Text.Fold

/-! File paths with slashes between their parts, handled as text: nothing here looks at files. -/
namespace ExprMachine.Path

open Text (utf8 byte)

def slash : UInt8 := byte '/'

def isAbsolute (path : Bytes) : Bool := path.head? == some slash

/-- One part further along a path. The parts so far are in reverse; `..` takes the last one back,
and stays only at the start of a relative path. -/
def keep (rooted : Bool) (kept : List Bytes) (part : Bytes) : List Bytes :=
  if part = [] ∨ part = utf8 "." then kept
  else if part = utf8 ".." then
    match kept with
    | [] => if rooted then [] else [part]
    | last :: rest => if last = utf8 ".." then part :: kept else rest
  else part :: kept

def clean (path : Bytes) : Bytes :=
  let rooted := isAbsolute path
  let kept := (Text.splitAt slash path).foldl (keep rooted) []
  let body := Text.join [slash] kept.reverse
  if rooted then slash :: body
  else if body.isEmpty then utf8 "."
  else body

def names (path : Bytes) : List Bytes := (Text.splitAt slash path).filter (!·.isEmpty)

def rooted (names : List Bytes) : Bytes := slash :: Text.join [slash] names

def absolute (working : List Bytes) (path : Bytes) : Bytes :=
  clean (if isAbsolute path then path else rooted working ++ slash :: path)

def below (directory path : Bytes) : Bytes :=
  if directory.isEmpty then if path.isEmpty then [] else clean path
  else clean (directory ++ slash :: path)

def directory (path : Bytes) : Bytes :=
  clean (path.reverse.dropWhile (· != slash)).reverse

def extension (path : Bytes) : Bytes :=
  let name := (path.reverse.takeWhile (· != slash)).reverse
  if name.contains (byte '.') then byte '.' :: (name.reverse.takeWhile (· != byte '.')).reverse
  else []

end ExprMachine.Path
