import ExprMachine.Json.Parser
import ExprMachine.Service.Schema

/-! Messages of the evaluation service, as records of their own and as values for the fields of
their types. Messages are sent as JSON or in binary form; every text in a message that is sent must
be well-formed UTF-8. -/
namespace ExprMachine.Service

open Text (utf8)

inductive FieldValue where
  | flag (b : Bool)
  | text (s : Bytes)
  | texts (ss : List Bytes)
  deriving DecidableEq, Repr

namespace FieldValue

def asFlag : FieldValue → Bool
  | flag b => b
  | _ => false

def asText : FieldValue → Bytes
  | text s => s
  | _ => []

def asTexts : FieldValue → List Bytes
  | texts ss => ss
  | _ => []

def isZero : FieldValue → Bool
  | flag b => !b
  | text s => s.isEmpty
  | texts ss => ss.isEmpty

def isValid : FieldValue → Bool
  | flag _ => true
  | text s => Text.isValid s
  | texts ss => ss.all Text.isValid

def toJson : FieldValue → Json
  | flag b => .bool b
  | text s => .string s
  | texts ss => .array (ss.map .string)

end FieldValue

def Field.zero (f : Field) : FieldValue :=
  if f.repeated then .texts []
  else match f.type with
    | .bool => .flag false
    | .string => .text []

abbrev Message := List (Field × FieldValue)

namespace Message

def blank (t : MessageType) : Message := t.fields.map fun f => (f, f.zero)

def ofValues (t : MessageType) (values : List FieldValue) : Message := t.fields.zip values

def value (m : Message) (number : Nat) : FieldValue :=
  ((m.find? fun p => p.1.number == number).map Prod.snd).getD (.flag false)

def set (m : Message) (number : Nat) (v : FieldValue) : Message :=
  m.map fun p => if p.1.number = number then (p.1, v) else p

def fault? (t : MessageType) (m : Message) : Option Bytes :=
  (m.find? fun p => !p.2.isValid).map fun p =>
    utf8 "proto: field " ++ t.fullName ++ utf8 "." ++ utf8 p.1.name ++
      utf8 " contains invalid UTF-8"

def toJson (m : Message) : Json :=
  .ofFields ((m.filter fun p => !p.2.isZero).map fun p => (p.1.jsonName, p.2.toJson))

def textOfJson? : Json → Option Bytes
  | .string s => some s
  | _ => none

def fieldOfJson? (f : Field) : Json → Option FieldValue
  | .array items => if f.repeated then (items.mapM textOfJson?).map .texts else none
  | .string s => if !f.repeated && f.type = .string then some (.text s) else none
  | .bool b => if !f.repeated && f.type = .bool then some (.flag b) else none
  | _ => none

def fieldNamed? (t : MessageType) (name : Bytes) : Option Field :=
  t.fields.find? fun f => utf8 f.jsonName == name || utf8 f.name == name

/-- Takes the members of an object into a message. A field may be set only once, also if to `null`,
which leaves it as it is; unknown members are passed over. -/
def takeMembers (t : MessageType) (seen : List Nat) (m : Message) :
    List (Bytes × Json) → Option Message
  | [] => some m
  | (name, j) :: rest =>
    match fieldNamed? t name with
    | none => takeMembers t seen m rest
    | some f =>
      if f.number ∈ seen then none
      else
        match j with
        | .null => takeMembers t (f.number :: seen) m rest
        | _ =>
          match fieldOfJson? f j with
          | none => none
          | some v => takeMembers t (f.number :: seen) (m.set f.number v) rest

def ofJson? (t : MessageType) : Json → Option Message
  | .object members => takeMembers t [] (blank t) members
  | _ => none

def ofJsonText? (t : MessageType) (text : Bytes) : Option Message :=
  (Json.parse? text).bind (ofJson? t)

end Message

structure EvaluateRequest where
  source : Bytes
  deriving DecidableEq, Repr

structure EvaluateReply where
  success : Bool
  result : Bytes
  kind : Bytes
  errorKind : Bytes
  errorMessage : Bytes
  diagnostics : List Bytes
  session : Bytes
  deriving DecidableEq, Repr

structure DisassembleRequest where
  source : Bytes
  label : Bytes
  deriving DecidableEq, Repr

structure DisassembleReply where
  listing : Bytes
  diagnostics : List Bytes
  deriving DecidableEq, Repr

def EvaluateRequest.toMessage (r : EvaluateRequest) : Message :=
  .ofValues evaluateRequest [.text r.source]

def EvaluateRequest.ofMessage (m : Message) : EvaluateRequest := ⟨(m.value 1).asText⟩

def EvaluateReply.toMessage (r : EvaluateReply) : Message :=
  .ofValues evaluateResponse
    [.flag r.success, .text r.result, .text r.kind, .text r.errorKind, .text r.errorMessage,
      .texts r.diagnostics, .text r.session]

def EvaluateReply.ofMessage (m : Message) : EvaluateReply :=
  ⟨(m.value 1).asFlag, (m.value 2).asText, (m.value 3).asText, (m.value 4).asText,
    (m.value 5).asText, (m.value 6).asTexts, (m.value 7).asText⟩

def DisassembleRequest.toMessage (r : DisassembleRequest) : Message :=
  .ofValues disassembleRequest [.text r.source, .text r.label]

def DisassembleRequest.ofMessage (m : Message) : DisassembleRequest :=
  ⟨(m.value 1).asText, (m.value 2).asText⟩

def DisassembleReply.toMessage (r : DisassembleReply) : Message :=
  .ofValues disassembleResponse [.text r.listing, .texts r.diagnostics]

def DisassembleReply.ofMessage (m : Message) : DisassembleReply :=
  ⟨(m.value 1).asText, (m.value 2).asTexts⟩

def EvaluateReply.text (r : EvaluateReply) : Bytes :=
  if r.success then r.result ++ utf8 " (" ++ r.kind ++ utf8 ")"
  else r.errorKind ++ utf8 " error: " ++ r.errorMessage

end ExprMachine.Service
