import ExprMachine.Editor.Position
import ExprMachine.Json.Basic

/-! What an editor can ask of the language server, and how it is read from a method name with its
parameters. -/
namespace ExprMachine.Editor

open Text (utf8)

/-- A request or a notice from an editor. Of a change only the last whole text counts, and a change
of a part of the text is not followed. -/
inductive Request where
  | begin
  | begun
  | setTrace
  | shutdown
  | opened (uri text : Bytes)
  | changed (uri : Bytes) (text : Option Bytes)
  | closed (uri : Bytes)
  | complete (uri : Bytes) (place : Position)
  | hover (uri : Bytes)
  deriving DecidableEq, Repr

inductive RequestError where
  | notBegun
  | unknownMethod
  | badParameters
  deriving DecidableEq, Repr

def RequestError.message : RequestError → Bytes
  | notBegun => utf8 "server not initialized"
  | unknownMethod => utf8 "method not supported"
  | badParameters => utf8 "invalid parameters"

inductive Method where
  | begin
  | begun
  | setTrace
  | shutdown
  | didOpen
  | didChange
  | didClose
  | completion
  | hover
  deriving DecidableEq, Repr

namespace Method

def all : List Method :=
  [begin, begun, setTrace, shutdown, didOpen, didChange, didClose, completion, hover]

def name : Method → Bytes
  | begin => utf8 "initialize"
  | begun => utf8 "initialized"
  | setTrace => utf8 "$/setTrace"
  | shutdown => utf8 "shutdown"
  | didOpen => utf8 "textDocument/didOpen"
  | didChange => utf8 "textDocument/didChange"
  | didClose => utf8 "textDocument/didClose"
  | completion => utf8 "textDocument/completion"
  | hover => utf8 "textDocument/hover"

def ofName? (name : Bytes) : Option Method := all.find? (·.name == name)

end Method

/-! Readers of parameters. -/

abbrev Members := List (Bytes × Json)

def part? (name : String) (ms : Members) : Option Members := (Json.member name ms).members?

def text? (name : String) (ms : Members) : Option Bytes := (Json.member name ms).text?

def int? (name : String) (ms : Members) : Option Int := (Json.member name ms).int32?

def positionOf? (j : Json) : Option Position := do
  let ms ← j.members?
  some ⟨← (Json.member "line" ms).nat32?, ← (Json.member "character" ms).nat32?⟩

def isProgressToken : Json → Bool
  | .string _ => true
  | j => j.int32?.isSome

def uri? (ms : Members) : Option Bytes := do text? "uri" (← part? "textDocument" ms)

def change? (j : Json) : Option (Option Bytes) := do
  let ms ← j.members?
  let text ← text? "text" ms
  let _ ← (Json.member "rangeLength" ms).nat32?
  match Json.member "range" ms with
  | .null => some (some text)
  | range =>
    let ends ← range.members?
    let _ ← positionOf? (Json.member "start" ends)
    let _ ← positionOf? (Json.member "end" ends)
    some none

def beginning? (ms : Members) : Option Request := do
  let _ ← int? "processId" ms
  let client ← part? "clientInfo" ms
  let _ ← text? "name" client
  let _ ← text? "version" client
  let _ ← text? "locale" ms
  let _ ← text? "rootPath" ms
  let _ ← text? "rootUri" ms
  let _ ← text? "trace" ms
  let capabilities ← part? "capabilities" ms
  let _ ← part? "workspace" capabilities
  let _ ← part? "textDocument" capabilities
  let folders ← (Json.member "workspaceFolders" ms).items?
  let _ ← folders.mapM fun folder => do
    let ms ← folder.members?
    let _ ← text? "uri" ms
    text? "name" ms
  guard (isProgressToken (Json.member "workDoneToken" ms))
  some .begin

def Request.ofMembers? (method : Method) (ms : Members) : Option Request :=
  match method with
  | .begin => beginning? ms
  | .begun => some .begun
  | .shutdown => some .shutdown
  | .setTrace => (text? "value" ms).map fun _ => .setTrace
  | .didOpen => do
    let document ← part? "textDocument" ms
    let _ ← text? "languageId" document
    let _ ← int? "version" document
    some (.opened (← text? "uri" document) (← text? "text" document))
  | .didChange => do
    let document ← part? "textDocument" ms
    let _ ← int? "version" document
    let changes ← (← (Json.member "contentChanges" ms).items?).mapM change?
    some (.changed (← text? "uri" document) changes.getLast?.join)
  | .didClose => do some (.closed (← uri? ms))
  | .completion => do
    let place ← positionOf? (Json.member "position" ms)
    let context ← part? "context" ms
    let _ ← int? "triggerKind" context
    let _ ← text? "triggerCharacter" context
    guard (isProgressToken (Json.member "workDoneToken" ms))
    guard (isProgressToken (Json.member "partialResultToken" ms))
    some (.complete (← uri? ms) place)
  | .hover => do
    let _ ← positionOf? (Json.member "position" ms)
    guard (isProgressToken (Json.member "workDoneToken" ms))
    some (.hover (← uri? ms))

def Request.ofMessage (method : Bytes) (parameters : Option Json) : Except RequestError Request :=
  match Method.ofName? method with
  | none => .error .unknownMethod
  | some .shutdown => .ok .shutdown
  | some m =>
    match parameters.bind Json.members? with
    | none => .error .badParameters
    | some ms =>
      match Request.ofMembers? m ms with
      | none => .error .badParameters
      | some r => .ok r

end ExprMachine.Editor
