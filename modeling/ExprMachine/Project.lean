import ExprMachine.FileTree
import ExprMachine.Settings

/-! The project that a directory belongs to: the nearest directory on the way up that has an entry
for its settings. -/
namespace ExprMachine

open Text (utf8)

def settingsName : Bytes := utf8 "lox.toml"

inductive SettingsError where
  | unreadable (path : Bytes) (failure : FileFailure)
  | malformed (path : Bytes)
  deriving DecidableEq, Repr

def SettingsError.task : SettingsError → Bytes
  | unreadable path _ => utf8 "cannot read " ++ path
  | malformed path => utf8 "parse error in " ++ path

def SettingsError.message (e : SettingsError) : Bytes :=
  e.task ++ utf8 ": " ++
    match e with
    | unreadable _ failure => failure.message
    | malformed _ => utf8 "<toml>"

namespace Settings

def load (t : FileTree) (working : Location) (directory : Bytes) : Except SettingsError Settings :=
  let path := Path.below directory settingsName
  match t.read working path with
  | .error failure => .error (.unreadable path failure)
  | .ok text =>
    match ofText? (Path.absolute working directory) text with
    | some s => .ok s
    | none => .error (.malformed path)

def isAt (t : FileTree) (directory : Bytes) : Bool := t.holds [] (Path.below directory settingsName)

/-- Looks for settings at a location, given from its last name back, and then further up. The first
that are found are final: an error there does not lead on to others. -/
def searchUp (t : FileTree) : List Bytes → Except SettingsError (Option Settings)
  | [] => if isAt t (Path.rooted []) then some <$> load t [] (Path.rooted []) else .ok none
  | name :: above =>
    let directory := Path.rooted (name :: above).reverse
    if isAt t directory then some <$> load t [] directory else searchUp t above

def find (t : FileTree) (working : Location) (directory : Bytes) :
    Except SettingsError (Option Settings) :=
  searchUp t (Path.names (Path.absolute working directory)).reverse

end Settings
end ExprMachine
