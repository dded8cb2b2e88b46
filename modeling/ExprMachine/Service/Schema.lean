import ExprMachine.Text.Bytes

/-! The schema of the evaluation service: its messages with their numbered fields, and its methods. -/
namespace ExprMachine.Service

open Text (utf8 natText)

inductive FieldType where
  | bool
  | string
  deriving DecidableEq, Repr

structure Field where
  name : String
  number : Nat
  repeated : Bool
  type : FieldType
  deriving DecidableEq, Repr

structure MessageType where
  name : String
  fields : List Field
  deriving DecidableEq, Repr

structure Method where
  name : String
  input : MessageType
  output : MessageType
  deriving DecidableEq, Repr

def camelCase : List Char → List Char
  | [] => []
  | '_' :: c :: rest => c.toUpper :: camelCase rest
  | c :: rest => c :: camelCase rest

def Field.jsonName (f : Field) : String := String.ofList (camelCase f.name.toList)

def fileName : String := "lox/v1/evaluation.proto"

def packageName : String := "lox.v1"

def serviceName : String := "lox.v1.EvaluationService"

def evaluateRequest : MessageType := ⟨"EvaluateRequest", [⟨"source", 1, false, .string⟩]⟩

def evaluateResponse : MessageType :=
  ⟨"EvaluateResponse",
    [⟨"success", 1, false, .bool⟩, ⟨"result", 2, false, .string⟩, ⟨"kind", 3, false, .string⟩,
      ⟨"error_kind", 4, false, .string⟩, ⟨"error_message", 5, false, .string⟩,
      ⟨"diagnostics", 6, true, .string⟩, ⟨"session", 7, false, .string⟩]⟩

def disassembleRequest : MessageType :=
  ⟨"DisassembleRequest", [⟨"source", 1, false, .string⟩, ⟨"label", 2, false, .string⟩]⟩

def disassembleResponse : MessageType :=
  ⟨"DisassembleResponse", [⟨"listing", 1, false, .string⟩, ⟨"diagnostics", 2, true, .string⟩]⟩

def messageTypes : List MessageType :=
  [evaluateRequest, evaluateResponse, disassembleRequest, disassembleResponse]

def methods : List Method :=
  [⟨"Evaluate", evaluateRequest, evaluateResponse⟩,
    ⟨"Disassemble", disassembleRequest, disassembleResponse⟩]

def MessageType.fullName (t : MessageType) : Bytes := utf8 packageName ++ utf8 "." ++ utf8 t.name

def FieldType.name : FieldType → String
  | bool => "bool"
  | string => "string"

def Field.describe (message : String) (f : Field) : Bytes :=
  utf8 message ++ utf8 "." ++ utf8 f.name ++ utf8 " " ++ natText f.number ++
    utf8 (if f.repeated then " repeated " else " optional ") ++ utf8 f.type.name ++ utf8 " " ++
    utf8 f.jsonName

def Method.describe (m : Method) : Bytes :=
  utf8 serviceName ++ utf8 "." ++ utf8 m.name ++ utf8 " " ++ m.input.fullName ++ utf8 " " ++
    m.output.fullName

def description : List Bytes :=
  (utf8 "file " ++ utf8 fileName ++ utf8 " package " ++ utf8 packageName ++ utf8 " proto3") ::
    (messageTypes.flatMap fun t => t.fields.map (Field.describe t.name)) ++
    methods.map Method.describe

end ExprMachine.Service
