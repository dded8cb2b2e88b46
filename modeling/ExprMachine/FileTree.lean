import ExprMachine.Path
import ExprMachine.Store

/-! Trees of files. An entry is found under the names that lead to it from the root; the root itself
is always a directory. Paths are followed name by name, so that `..` after something that is not a
directory is an error. -/
namespace ExprMachine

open Text (utf8 byte)

/-- What stands at a place in the tree. A database is a file whose content is kept as its table. -/
inductive Entry where
  | directory
  | file (content : Bytes)
  | database (table : Table)

abbrev Location := List Bytes

structure FileTree where
  entries : List (Location × Entry)

inductive FileError where
  | notFound
  | notDirectory
  | isDirectory
  | nameTooLong
  | invalid
  deriving DecidableEq, Repr

def FileError.message : FileError → Bytes
  | notFound => utf8 "no such file or directory"
  | notDirectory => utf8 "not a directory"
  | isDirectory => utf8 "is a directory"
  | nameTooLong => utf8 "file name too long"
  | invalid => utf8 "invalid argument"

inductive FileAction where
  | openFile
  | readFile
  deriving DecidableEq, Repr

def FileAction.name : FileAction → Bytes
  | openFile => utf8 "open"
  | readFile => utf8 "read"

structure FileFailure where
  action : FileAction
  path : Bytes
  cause : FileError
  deriving DecidableEq, Repr

def FileFailure.message (f : FileFailure) : Bytes :=
  f.action.name ++ utf8 " " ++ f.path ++ utf8 ": " ++ f.cause.message

namespace FileTree

def empty : FileTree := ⟨[]⟩

def get? (t : FileTree) : Location → Option Entry
  | [] => some .directory
  | location => t.entries.lookup location

def put (t : FileTree) (location : Location) (e : Entry) : FileTree :=
  ⟨(location, e) :: t.entries.filter (·.1 != location)⟩

theorem get?_put_self (t : FileTree) {location : Location} (e : Entry) (h : location ≠ []) :
    (t.put location e).get? location = some e := by
  cases location with
  | nil => contradiction
  | cons name rest => simp [get?, put]

theorem lookup_filter_of_ne (entries : List (Location × Entry)) {location other : Location}
    (h : other ≠ location) :
    (entries.filter (·.1 != location)).lookup other = entries.lookup other := by
  induction entries with
  | nil => rfl
  | cons head tail ih =>
    obtain ⟨here, e⟩ := head
    by_cases same : here = location
    · subst here
      have differs : (other == location) = false := by simpa using h
      simp [ih, List.lookup_cons, differs]
    · simp [same, ih, List.lookup_cons]

theorem get?_put_of_ne (t : FileTree) {location other : Location} (e : Entry)
    (h : other ≠ location) : (t.put location e).get? other = t.get? other := by
  cases other with
  | nil => rfl
  | cons name rest =>
    have differs : ((name :: rest) == location) = false := by simpa using h
    simp only [get?, put, List.lookup_cons, differs]
    exact lookup_filter_of_ne t.entries h

def longestName : Nat := 255

def longestPath : Nat := 4095

def step (t : FileTree) (here : Location) (name : Bytes) : Except FileError Location :=
  match t.get? here with
  | none => .error .notFound
  | some .directory =>
    if name = utf8 "." then .ok here
    else if name = utf8 ".." then .ok here.dropLast
    else if longestName < name.length then .error .nameTooLong
    else .ok (here ++ [name])
  | some _ => .error .notDirectory

def locate (t : FileTree) (directory : Location) (path : Bytes) : Except FileError Location :=
  if path.isEmpty then .error .notFound
  else if path.contains 0 then .error .invalid
  else if longestPath < path.length then .error .nameTooLong
  else (Path.names path).foldlM t.step (if Path.isAbsolute path then [] else directory)

def endsInSlash (path : Bytes) : Bool := path.getLast? == some Path.slash

def locateEntry (t : FileTree) (directory : Location) (path : Bytes) :
    Except FileError (Location × Entry) := do
  let location ← t.locate directory path
  let location ← if endsInSlash path then t.step location (utf8 ".") else pure location
  match t.get? location with
  | some e => .ok (location, e)
  | none => .error .notFound

def holds (t : FileTree) (directory : Location) (path : Bytes) : Bool :=
  (t.locateEntry directory path).toBool

def databaseMark : Bytes := utf8 "SQLite format 3\x00"

def read (t : FileTree) (directory : Location) (path : Bytes) : Except FileFailure Bytes :=
  match t.locateEntry directory path with
  | .error e => .error ⟨.openFile, path, e⟩
  | .ok (_, .directory) => .error ⟨.readFile, path, .isDirectory⟩
  | .ok (_, .file content) => .ok content
  | .ok (_, .database _) => .ok databaseMark

def locateFile (t : FileTree) (directory : Location) (path : Bytes) : Except FileError Location := do
  let location ← t.locate directory path
  if endsInSlash path then throw .isDirectory
  match t.get? location with
  | some .directory => throw .isDirectory
  | _ => pure location

def write (t : FileTree) (directory : Location) (path content : Bytes) :
    Except FileFailure FileTree :=
  match t.locateFile directory path with
  | .error e => .error ⟨.openFile, path, e⟩
  | .ok location => .ok (t.put location (.file content))

def touch (t : FileTree) (directory : Location) (path : Bytes) : FileTree :=
  match t.locateFile directory path with
  | .error _ => t
  | .ok location => if (t.get? location).isSome then t else t.put location (.file [])

def makeDirectory (t : FileTree) (location : Location) : FileTree :=
  match t.get? location.dropLast, t.get? location with
  | some .directory, none =>
    if (location.getLast?.any (longestName < ·.length)) then t else t.put location .directory
  | _, _ => t

def makeDirectories (t : FileTree) (location : Location) : FileTree :=
  ((List.range location.length).map fun n => location.take (n + 1)).foldl makeDirectory t

def filesBelow (t : FileTree) (root : Location) : List Bytes :=
  let paths := t.entries.filterMap fun (location, e) =>
    match e with
    | .directory => none
    | _ => if root.isPrefixOf location then
        some (Text.join [Path.slash] (location.drop root.length)) else none
  paths.mergeSort fun a b => decide (a ≤ b)

end FileTree
end ExprMachine
