import ExprMachine.Service.Binary
import ExprMachine.Service.Evaluation
import ExprMachine.Service.Http.Envelope
import ExprMachine.Service.Http.MediaType
import ExprMachine.Service.Http.Target

/-! Calls over HTTP: a request is posted to the path of its operation, as JSON or in binary form,
and the reply comes back in the same form. The message is the body itself or stands in it in an
envelope; the status of a call with envelopes is a trailer and not the status of the response. -/
namespace ExprMachine.Service.Http

open Text (utf8 byte)

structure Request where
  method : Bytes
  target : Bytes
  contentType : Bytes
  body : Bytes
  deriving DecidableEq, Repr

structure Response where
  status : Nat
  contentType : Bytes
  allow : Option Bytes
  location : Option Bytes
  body : Bytes
  deriving DecidableEq, Repr

def Response.bare (status : Nat) : Response := ⟨status, [], none, none, []⟩

/-! Content types. -/

inductive Codec where
  | json
  | binary
  deriving DecidableEq, Repr

/-- Where the message stands in a body: it is the body, or it is in an envelope, with trailers apart
from the body or in an envelope of their own. -/
inductive Framing where
  | whole
  | enveloped
  | closed
  deriving DecidableEq, Repr

structure Format where
  framing : Framing
  codec : Codec
  deriving DecidableEq, Repr

def jsonType : Bytes := utf8 "application/json"

def binaryType : Bytes := utf8 "application/proto"

def formats : List (Bytes × Format) :=
  [(jsonType, ⟨.whole, .json⟩), (binaryType, ⟨.whole, .binary⟩),
    (utf8 "application/grpc", ⟨.enveloped, .binary⟩),
    (utf8 "application/grpc+proto", ⟨.enveloped, .binary⟩),
    (utf8 "application/grpc+json", ⟨.enveloped, .json⟩),
    (utf8 "application/grpc-web", ⟨.closed, .binary⟩),
    (utf8 "application/grpc-web+proto", ⟨.closed, .binary⟩),
    (utf8 "application/grpc-web+json", ⟨.closed, .json⟩)]

def format? (contentType : Bytes) : Option (Format × Bytes) := do
  let type ← MediaType.parse? contentType
  let (name, format) ← formats.find? fun f => f.1 == type.name
  match type.parameters with
  | [] => some (format, name)
  | [(parameter, value)] =>
    if format.codec = .json ∧ parameter = utf8 "charset" ∧ value.map Text.lower = utf8 "utf-8" then
      some (format, name ++ utf8 "; charset=utf-8")
    else none
  | _ => none

def Codec.decode? (c : Codec) (t : MessageType) (body : Bytes) : Option Message :=
  match c with
  | .json => Message.ofJsonText? t body
  | .binary => Message.decode? t body

def Codec.encode (c : Codec) (m : Message) : Bytes :=
  match c with
  | .json => m.toJson.render
  | .binary => m.encode

def Format.decode? (f : Format) (t : MessageType) (body : Bytes) : Option Message :=
  match f.framing with
  | .whole => f.codec.decode? t body
  | .enveloped => (Envelope.message? false body).bind (f.codec.decode? t)
  | .closed => (Envelope.message? true body).bind (f.codec.decode? t)

/-! Failures. -/

def statusOf (op : Operation) : CallError → Status
  -- Evaluation reports what it cannot explain as unknown, listing as internal.
  | .sourceRequired => .invalidArgument
  | _ =>
    match op with
    | .evaluate => .unknown
    | .disassemble => .internal

def call (op : Operation) (w : Worker) (caller : Caller) (m : Message) :
    Except Failure Message × Worker :=
  let (reply, w) := op.call w caller m
  (reply.mapError fun e => ⟨statusOf op e, e.message⟩, w)

def code : Status → Nat
  | .canceled => 499
  | .unknown => 500
  | .invalidArgument => 400
  | .deadlineExceeded => 504
  | .internal => 500

def Response.ofFailure (f : Failure) : Response :=
  let body := Json.ofFields [("code", .string f.status.snakeName), ("message", .ofText f.message)]
  { Response.bare (code f.status) with contentType := jsonType, body := body.render }

def undecodable : Failure := ⟨.invalidArgument, utf8 "message cannot be decoded"⟩

def unsendable (fault : Bytes) : Failure := ⟨.internal, utf8 "marshal message: " ++ fault⟩

/-! Responses to calls. -/

inductive Outcome where
  | failed (f : Failure)
  | cutOff (f : Failure)
  | reply (message : Bytes)
  deriving DecidableEq, Repr

def trailers : Option Failure → Bytes
  | none => utf8 "grpc-status: 0\r\n"
  | some f =>
    utf8 "grpc-message: " ++
      Text.percentEncoded (fun b => 32 ≤ b && b < 127 && b != byte '%') f.message ++
      utf8 "\r\ngrpc-status: " ++ Text.natText f.status.number ++ utf8 "\r\n"

def Outcome.envelopes (trailersInBody : Bool) : Outcome → Bytes
  -- The trailers of a call that failed before its reply was begun are not in the body in any
  -- case.
  | failed _ => []
  | cutOff f => if trailersInBody then Envelope.encode ⟨Envelope.trailers, trailers (some f)⟩ else []
  | reply message =>
    Envelope.encode ⟨0, message⟩ ++
      if trailersInBody then Envelope.encode ⟨Envelope.trailers, trailers none⟩ else []

def Outcome.response (contentType : Bytes) (framing : Framing) (o : Outcome) : Response :=
  let success := { Response.bare 200 with contentType := contentType }
  match framing, o with
  | .whole, failed f => .ofFailure f
  | .whole, cutOff f => .ofFailure f
  | .whole, reply message => { success with body := message }
  | .enveloped, o => { success with body := o.envelopes false }
  | .closed, o => { success with body := o.envelopes true }

def answer (op : Operation) (w : Worker) (format : Format) (body : Bytes) : Outcome × Worker :=
  match format.decode? op.input body with
  | none => (.failed undecodable, w)
  | some m =>
    match call op w .waiting m with
    | (.error f, w) => (.failed f, w)
    | (.ok reply, w) =>
      match reply.fault? op.output with
      | some fault => (.cutOff (unsendable fault), w)
      | none => (.reply (format.codec.encode reply), w)

def perform (op : Operation) (w : Worker) (r : Request) : Response × Worker :=
  if r.method ≠ utf8 "POST" then
    ({ Response.bare 405 with allow := some (utf8 "POST") }, w)
  else
    match format? r.contentType with
    | none => (Response.bare 415, w)
    | some (format, contentType) =>
      let (outcome, w) := answer op w format r.body
      (outcome.response contentType format.framing, w)

/-! Routing. -/

def operationPath (op : Operation) : Bytes :=
  Path.slash :: utf8 serviceName ++ Path.slash :: op.name

def isService (path : Bytes) : Bool :=
  Text.percentDecoded? (path.drop 1) == some (utf8 serviceName)

def operationAt? (path : Bytes) : Option Operation :=
  let service := path.take 1 ++ (path.drop 1).takeWhile (· != Path.slash)
  let rest := (path.drop 1).dropWhile (· != Path.slash)
  if isService service then
    Operation.all.find? fun op => Text.percentDecoded? rest == some (Path.slash :: op.name)
  else none

def notFound : Response :=
  { Response.bare 404 with
    contentType := utf8 "text/plain; charset=utf-8", body := utf8 "404 page not found\n" }

def escapeHtml (b : UInt8) : Bytes :=
  if b = byte '&' then utf8 "&amp;"
  else if b = byte '<' then utf8 "&lt;"
  else if b = byte '>' then utf8 "&gt;"
  else if b = byte '"' then utf8 "&#34;"
  else if b = byte '\'' then utf8 "&#39;"
  else [b]

def escapeHeader (b : UInt8) : Bytes := if b < 128 then [b] else byte '%' :: Text.hexOf [b]

def redirect (method path query : Bytes) : Response :=
  let address := if query.isEmpty then path else path ++ byte '?' :: query
  let html := utf8 "text/html; charset=utf-8"
  let response := { Response.bare 307 with location := some (address.flatMap escapeHeader) }
  if method = utf8 "GET" then
    { response with
      contentType := html,
      body := utf8 "<a href=\"" ++ address.flatMap escapeHtml ++
        utf8 "\">Temporary Redirect</a>.\n\n" }
  else if method = utf8 "HEAD" then { response with contentType := html }
  else response

/-- Answers a request. A path that is not clean is sent to its clean form, except from a request to
connect, and the service itself is a directory. No method means to read. -/
def handle (w : Worker) (r : Request) : Response × Worker :=
  let r := if r.method.isEmpty then { r with method := utf8 "GET" } else r
  match Target.parse? r.method r.target with
  | none => (Response.bare 400, w)
  | some .server => (Response.bare 400, w)
  | some (.resource path query) =>
    let clean := if r.method = utf8 "CONNECT" then path else Target.cleanPath path
    if isService clean then (redirect r.method (clean ++ [Path.slash]) query, w)
    else if clean ≠ path then (redirect r.method clean query, w)
    else
      match operationAt? path with
      | some op => perform op w r
      | none => (notFound, w)

/-! Clients. -/

def failureIn (body : Bytes) : Failure :=
  let members := ((Json.parse? body).bind Json.members?).getD []
  let name := (Json.member "code" members).text?.getD []
  let status := [Status.canceled, .invalidArgument, .deadlineExceeded, .internal].find?
    (·.snakeName == name)
  ⟨status.getD .unknown, (Json.member "message" members).text?.getD []⟩

def request (op : Operation) (w : Worker) (caller : Caller) (m : Message) :
    Except Failure Message × Worker :=
  match caller.failure?, m.fault? op.input with
  | some f, _ => (.error f, w)
  | none, some fault => (.error (unsendable fault), w)
  | none, none =>
    let body := Codec.json.encode m
    let (response, w) := handle w ⟨utf8 "POST", operationPath op, jsonType, body⟩
    if response.status = 200 then
      match Codec.json.decode? op.output response.body with
      | some reply => (.ok reply, w)
      | none => (.error undecodable, w)
    else (.error (failureIn response.body), w)

end ExprMachine.Service.Http
