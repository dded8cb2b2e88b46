import ExprMachine.FileTree

/-! The chunk store of a command, kept in a database file. A store that cannot be opened is done
without. -/
namespace ExprMachine.CommandLine

open Text (byte)

def databaseFile (path : Bytes) : Bytes :=
  match path with
  | [] => []
  | first :: rest => first :: rest.takeWhile (· != byte '?')

/-- Opens the store at a path and makes what is missing on the way to it. An empty path stands for a
store that leaves no file. A file can be opened if it is empty or a database. -/
def openStore (t : FileTree) (working : Location) (path : Bytes) : Option Store × FileTree :=
  if path.isEmpty then (some (.openOn [] ∅), t)
  else
    let file := databaseFile path
    let t := t.makeDirectories (Path.names (Path.absolute working (Path.directory path)))
    match t.locateFile working file with
    | .error _ => (none, t)
    | .ok location =>
      match t.get? location with
      | none | some (.file []) => (some (.openOn file ∅), t.put location (.database ∅))
      | some (.database table) => (some (.openOn file table), t)
      | some _ => (none, t)

def saveStore (t : FileTree) (working : Location) (store : Option Store) : FileTree :=
  match store.bind Store.disk with
  | none => t
  | some disk =>
    match t.locateFile working disk.path with
    | .error _ => t
    | .ok location => t.put location (.database disk.table)

end ExprMachine.CommandLine
