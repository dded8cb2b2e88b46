import ExprMachine.Service.Binary
import ExprMachine.Service.Evaluation

/-! Calls with binary messages: bytes of a request in, bytes of a reply out. -/
namespace ExprMachine.Service.Rpc

open Text (utf8)

def failureOf (e : CallError) : Failure :=
  ⟨match e with
    | .sourceRequired => .invalidArgument
    | .canceled => .canceled
    | .expired => .deadlineExceeded
    | .stopped => .internal, e.message⟩

def call (op : Operation) (w : Worker) (caller : Caller) (m : Message) :
    Except Failure Message × Worker :=
  let (reply, w) := op.call w caller m
  (reply.mapError failureOf, w)

inductive ServeError where
  | undecodable
  | failed (f : Failure)
  deriving DecidableEq, Repr

def ServeError.failure : ServeError → Failure
  | undecodable => ⟨.internal, utf8 "message cannot be decoded"⟩
  | failed f => f

def unsendable (fault : Bytes) : Failure :=
  ⟨.internal, utf8 "grpc: error while marshaling: " ++ fault⟩

def serve (op : Operation) (w : Worker) (data : Bytes) : Except ServeError Bytes × Worker :=
  match Message.decode? op.input data with
  | none => (.error .undecodable, w)
  | some m =>
    match call op w .waiting m with
    | (.error f, w) => (.error (.failed f), w)
    | (.ok reply, w) =>
      (match reply.fault? op.output with
        | some fault => .error (.failed (unsendable fault))
        | none => .ok reply.encode, w)

def request (op : Operation) (w : Worker) (caller : Caller) (m : Message) :
    Except Failure Message × Worker :=
  match caller.failure?, m.fault? op.input with
  | some f, _ => (.error f, w)
  | none, some fault => (.error (unsendable fault), w)
  | none, none =>
    match serve op w m.encode with
    | (.error e, w) => (.error e.failure, w)
    | (.ok data, w) =>
      match Message.decode? op.output data with
      | some reply => (.ok reply, w)
      | none => (.error ServeError.undecodable.failure, w)

end ExprMachine.Service.Rpc
