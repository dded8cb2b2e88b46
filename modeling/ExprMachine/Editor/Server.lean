import ExprMachine.Editor.Language
import ExprMachine.Editor.Request
import ExprMachine.Worker
import Std.Data.HashMap

/-! The language server: it keeps the texts of the open documents, publishes the error marked in
each text it is told of, and answers what can complete a word and what a document evaluates to. -/
namespace ExprMachine.Editor

open Text (utf8)

abbrev Documents := Std.HashMap Bytes Bytes

structure Server where
  hasBegun : Bool
  documents : Documents
  worker : Worker

structure Publication where
  uri : Bytes
  markers : List Marker
  deriving DecidableEq, Repr

inductive Answer where
  | nothing
  | capabilities
  | completions (words : List Keyword)
  | hover (markdown : Bytes)
  deriving DecidableEq, Repr

structure Reply where
  answer : Except RequestError Answer
  publications : List Publication
  server : Server

namespace Server

def start (worker : Worker) : Server := ⟨false, ∅, worker⟩

def update (s : Server) (uri text : Bytes) : Reply :=
  ⟨.ok .nothing, [⟨uri, markers text⟩], { s with documents := s.documents.insert uri text }⟩

def hover (s : Server) (uri : Bytes) : Reply :=
  match s.documents[uri]? with
  | none => ⟨.ok .nothing, [], s⟩
  | some text =>
    let (result, worker) := s.worker.perform (·.eval text)
    let answer := match result.bind hoverText with
      | some markdown => .hover markdown
      | none => .nothing
    ⟨.ok answer, [], { s with worker := worker }⟩

def complete (s : Server) (uri : Bytes) (place : Position) : Answer :=
  match s.documents[uri]? with
  | none => .nothing
  | some text =>
    match completions (wordBefore text place) with
    | [] => .nothing
    | words => .completions words

def respond (s : Server) : Request → Reply
  | .begin => ⟨.ok .capabilities, [], { s with hasBegun := true }⟩
  | .begun => ⟨.ok .nothing, [], s⟩
  | .setTrace => ⟨.ok .nothing, [], s⟩
  | .shutdown => ⟨.ok .nothing, [], { s with hasBegun := false, worker := s.worker.stop }⟩
  | .opened uri text => s.update uri text
  | .changed uri (some text) => s.update uri text
  | .changed _ none => ⟨.ok .nothing, [], s⟩
  | .closed uri => ⟨.ok .nothing, [⟨uri, []⟩], { s with documents := s.documents.erase uri }⟩
  | .complete uri place => ⟨.ok (s.complete uri place), [], s⟩
  | .hover uri => s.hover uri

/-- Carries out a message. Only the request to begin is heard before the server has begun, whatever
else is wrong with the message. -/
def handle (s : Server) (method : Bytes) (parameters : Option Json) : Reply :=
  if !s.hasBegun && method != Method.begin.name then ⟨.error .notBegun, [], s⟩
  else
    match Request.ofMessage method parameters with
    | .error e => ⟨.error e, [], s⟩
    | .ok request => s.respond request

end Server

/-! How answers and publications are written. -/

def sourceName : Bytes := utf8 "lox-lsp"

def Position.toJson (p : Position) : Json :=
  .ofFields [("line", .ofNat p.line), ("character", .ofNat p.character)]

def Range.toJson (r : Range) : Json :=
  .ofFields [("start", r.start.toJson), ("end", r.stop.toJson)]

def Marker.toJson (m : Marker) : Json :=
  .ofFields [("range", m.range.toJson), ("severity", .ofNat 1), ("source", .ofText sourceName),
    ("message", .ofText m.message)]

def Publication.method : Bytes := utf8 "textDocument/publishDiagnostics"

def Publication.toJson (p : Publication) : Json :=
  .ofFields [("uri", .ofText p.uri), ("diagnostics", .array (p.markers.map Marker.toJson))]

def completionJson (word : Keyword) : Json :=
  .ofFields [("label", .ofText word.text), ("kind", .ofNat 14)]

def capabilitiesJson : Json :=
  .ofFields
    [("capabilities", .ofFields
      [("textDocumentSync", .ofFields [("openClose", .bool true), ("change", .ofNat 1)]),
        ("completionProvider", .ofFields []), ("hoverProvider", .bool true)]),
      ("serverInfo", .ofFields [("name", .ofText sourceName), ("version", .ofText (utf8 "0.1.0"))])]

def Answer.toJson : Answer → Json
  | .nothing => .null
  | .capabilities => capabilitiesJson
  | .completions words => .array (words.map completionJson)
  | .hover markdown =>
    .ofFields [("contents", .ofFields
      [("kind", .ofText (utf8 "markdown")), ("value", .ofText markdown)])]

end ExprMachine.Editor
