import ExprMachine.Service.Message
import ExprMachine.Worker

/-! The operations of the evaluation service, whatever way they are called: evaluating a source and
listing its chunk. A source that does not compile or fails when run is part of the reply; a call
fails only for want of a source, for want of a caller, or for want of a worker. -/
namespace ExprMachine.Service

open Text (utf8)

inductive Caller where
  | waiting
  | canceled
  | expired
  deriving DecidableEq, Repr

inductive CallError where
  | sourceRequired
  | canceled
  | expired
  | stopped
  deriving DecidableEq, Repr

def CallError.message : CallError → Bytes
  | sourceRequired => utf8 "source is required"
  | canceled => utf8 "context canceled"
  | expired => utf8 "context deadline exceeded"
  | stopped => utf8 "worker stopped"

def Caller.absence? : Caller → Option CallError
  | waiting => none
  | canceled => some .canceled
  | expired => some .expired

def refusal? (caller : Caller) (source : Bytes) : Option CallError :=
  -- A missing source is found first.
  if source.isEmpty then some .sourceRequired else caller.absence?

namespace EvaluateReply

def ofValue (session : Bytes) (v : Value) : EvaluateReply :=
  ⟨true, v.text, v.kind.name, [], [], [], session⟩

def failure (session kind message : Bytes) (diagnostics : List Bytes) : EvaluateReply :=
  ⟨false, [], [], kind, message, diagnostics, session⟩

def internal (session message : Bytes) : EvaluateReply :=
  failure session (utf8 "internal") message []

def ofOutcome (session : Bytes) : Except Diagnostic Outcome → EvaluateReply
  | .error d =>
    failure session (utf8 "compile") (utf8 "Compile error: " ++ d.text) [d.text]
  | .ok (.value v) => ofValue session v
  | .ok (.failed e) => failure session (utf8 "runtime") e.message []
  | .ok (.crashed c) => internal session (utf8 "internal error: " ++ c.message)

end EvaluateReply

def evaluate (w : Worker) (caller : Caller) (r : EvaluateRequest) :
    Except CallError EvaluateReply × Worker :=
  match refusal? caller r.source with
  | some e => (.error e, w)
  | none =>
    let session := w.session.id
    match w.perform (·.eval r.source) with
    | (none, w) => (.ok (.internal session CallError.stopped.message), w)
    | (some outcome, w) => (.ok (.ofOutcome session outcome), w)

def disassemble (w : Worker) (caller : Caller) (r : DisassembleRequest) :
    Except CallError DisassembleReply × Worker :=
  match refusal? caller r.source with
  | some e => (.error e, w)
  | none =>
    match w.perform (·.disassemble r.source r.label) with
    | (none, w) => (.error .stopped, w)
    | (some (.error d), w) => (.ok ⟨[], [d.text]⟩, w)
    | (some (.ok listing), w) => (.ok ⟨listing, []⟩, w)

inductive Operation where
  | evaluate
  | disassemble
  deriving DecidableEq, Repr

namespace Operation

def all : List Operation := [evaluate, disassemble]

def name : Operation → Bytes
  | evaluate => utf8 "Evaluate"
  | disassemble => utf8 "Disassemble"

def input : Operation → MessageType
  | evaluate => evaluateRequest
  | disassemble => disassembleRequest

def output : Operation → MessageType
  | evaluate => evaluateResponse
  | disassemble => disassembleResponse

def call (op : Operation) (w : Worker) (caller : Caller) (m : Message) :
    Except CallError Message × Worker :=
  match op with
  | evaluate =>
    let (reply, w) := Service.evaluate w caller (.ofMessage m)
    (reply.map EvaluateReply.toMessage, w)
  | disassemble =>
    let (reply, w) := Service.disassemble w caller (.ofMessage m)
    (reply.map DisassembleReply.toMessage, w)

end Operation

inductive Status where
  | canceled
  | unknown
  | invalidArgument
  | deadlineExceeded
  | internal
  deriving DecidableEq, Repr

namespace Status

def snakeName : Status → Bytes
  | canceled => utf8 "canceled"
  | unknown => utf8 "unknown"
  | invalidArgument => utf8 "invalid_argument"
  | deadlineExceeded => utf8 "deadline_exceeded"
  | internal => utf8 "internal"

def camelName : Status → Bytes
  | canceled => utf8 "Canceled"
  | unknown => utf8 "Unknown"
  | invalidArgument => utf8 "InvalidArgument"
  | deadlineExceeded => utf8 "DeadlineExceeded"
  | internal => utf8 "Internal"

def number : Status → Nat
  | canceled => 1
  | unknown => 2
  | invalidArgument => 3
  | deadlineExceeded => 4
  | internal => 13

end Status

structure Failure where
  status : Status
  message : Bytes
  deriving DecidableEq, Repr

def Caller.failure? (caller : Caller) : Option Failure :=
  -- A caller that gave up is told so before anything is sent.
  match caller with
  | .waiting => none
  | .canceled => some ⟨.canceled, CallError.canceled.message⟩
  | .expired => some ⟨.deadlineExceeded, CallError.expired.message⟩

end ExprMachine.Service
