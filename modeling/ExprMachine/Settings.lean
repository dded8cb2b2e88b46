import ExprMachine.Path
import ExprMachine.Toml.Document

/-! The settings of a project: which debugging output to write, how the prompt looks, where chunks
are kept, what is logged, and where the evaluation service listens. -/
namespace ExprMachine

open Text (utf8)

/-- `directory` is where the settings were found; it is empty for the default settings. Paths are
as given: they are resolved when they are asked for. -/
structure Settings where
  printCode : Bool
  traceExecution : Bool
  prompt : Bytes
  history : Bytes
  cacheEnabled : Bool
  cacheFile : Bytes
  verbosity : Int
  logFile : Bytes
  address : Bytes
  directory : Bytes
  deriving DecidableEq, Repr

namespace Settings

def defaultPrompt : Bytes := utf8 "> "

def defaultAddress : Bytes := utf8 ":4567"

def default : Settings :=
  ⟨false, false, defaultPrompt, [], false, utf8 ".lox/chunks.db", 0, [], defaultAddress, []⟩

open Toml (Node Entries)

abbrev Reader := Settings → Bytes → Node → Option Settings

def flagReader (name : String) (set : Settings → Bool → Settings) : String × Reader :=
  (name, fun s _ node =>
    match node with
    | .boolean b => some (set s b)
    | _ => none)

def textReader (name : String) (set : Settings → Bytes → Settings) : String × Reader :=
  (name, fun s _ node =>
    match node with
    | .text t => some (set s t)
    | _ => none)

def integerReader (name : String) (set : Settings → Int → Settings) : String × Reader :=
  (name, fun s _ node =>
    match node with
    | .integer n => some (set s n)
    | _ => none)

def takeEntries (readers : List (String × Reader)) : Entries → Settings → Option Settings
  | [], s => some s
  | (name, node) :: rest, s =>
    match readers.find? fun r => Text.spells (utf8 r.1) name with
    | some (_, reader) => do takeEntries readers rest (← reader s name node)
    | none => takeEntries readers rest s

def tableReader (name : String) (readers : List (String × Reader)) : String × Reader :=
  (name, fun s _ node =>
    match node with
    | .table es => takeEntries readers es s
    | _ => none)

def readers : List (String × Reader) :=
  [tableReader "debug"
      [flagReader "print-code" fun s b => { s with printCode := b },
        flagReader "trace-execution" fun s b => { s with traceExecution := b }],
    tableReader "repl"
      [textReader "prompt" fun s t => { s with prompt := t },
        textReader "history" fun s t => { s with history := t }],
    tableReader "cache"
      [flagReader "enabled" fun s b => { s with cacheEnabled := b },
        textReader "path" fun s t => { s with cacheFile := t }],
    tableReader "log"
      [integerReader "verbosity" fun s n => { s with verbosity := n },
        textReader "file" fun s t => { s with logFile := t }],
    tableReader "server" [textReader "addr" fun s t => { s with address := t }]]

/-- The settings that a text gives for a directory. What is missing has its default, except that
chunks are kept unless the text forbids it; an empty prompt or address counts as missing. -/
def ofText? (directory text : Bytes) : Option Settings := do
  let s ← takeEntries readers (← Toml.parse? text) { default with cacheEnabled := true }
  some { s with
    directory := directory
    prompt := if s.prompt.isEmpty then defaultPrompt else s.prompt
    address := if s.address.isEmpty then defaultAddress else s.address }

def resolve (s : Settings) (path : Bytes) : Bytes :=
  if path.isEmpty || Path.isAbsolute path || s.directory.isEmpty then path
  else Path.below s.directory path

def cachePath (s : Settings) : Bytes := s.resolve s.cacheFile

def historyPath (s : Settings) (home : Bytes) : Bytes :=
  if !s.history.isEmpty then s.resolve s.history
  else if home.isEmpty then []
  else Path.below home (utf8 ".lox_history")

def logPath? (s : Settings) : Option Bytes :=
  if s.logFile.isEmpty then none else some (s.resolve s.logFile)

end Settings
end ExprMachine
