import ExprMachine.Service.Http
import ExprMachine.Service.Rpc

/-! One service behind two transports. A call does the same work and gets the same reply over either,
and a failed one the same text. Only the status of a call with a source whose caller has gone depends
on the transport: over HTTP it does not tell that the caller has gone. -/
namespace ExprMachine.Service

open Text (utf8)

def Http.failureOf (op : Operation) (e : CallError) : Failure := ⟨statusOf op e, e.message⟩

inductive Transport where
  | http
  | rpc
  deriving DecidableEq

structure Call where
  operation : Operation
  caller : Caller
  message : Message

namespace Call

def source (c : Call) : Bytes := (c.message.value 1).asText

/-- The call could be worked on, but nobody waits for the reply. -/
def Abandoned (c : Call) : Prop := c.source ≠ [] ∧ c.caller ≠ .waiting

def through (c : Call) (w : Worker) : Transport → Except Failure Message × Worker
  | .http => Http.call c.operation w c.caller c.message
  | .rpc => Rpc.call c.operation w c.caller c.message

variable {c : Call} {w : Worker} {e : CallError}

theorem refused (reason : refusal? c.caller c.source = some e) (w : Worker) :
    c.operation.call w c.caller c.message = (.error e, w) := by
  unfold source at reason
  cases inOperation : c.operation with
  | evaluate =>
    simp only [Operation.call, evaluate, EvaluateRequest.ofMessage, reason]
    rfl
  | disassemble =>
    simp only [Operation.call, disassemble, DisassembleRequest.ofMessage, reason]
    rfl

theorem unrefused (fine : refusal? c.caller c.source = none)
    (failed : (c.operation.call w c.caller c.message).1 = .error e) :
    c.operation = .disassemble ∧ e = .stopped := by
  unfold source at fine
  cases inOperation : c.operation with
  | evaluate =>
    simp only [inOperation, Operation.call, evaluate, EvaluateRequest.ofMessage, fine] at failed
    split at failed <;> contradiction
  | disassemble =>
    refine ⟨rfl, ?_⟩
    simp only [inOperation, Operation.call, disassemble, DisassembleRequest.ofMessage, fine] at failed
    split at failed
    · cases failed
      rfl
    · contradiction
    · contradiction

theorem throughHttp (c : Call) (w : Worker) : c.through w .http =
    ((c.operation.call w c.caller c.message).1.mapError (Http.failureOf c.operation),
      (c.operation.call w c.caller c.message).2) := rfl

theorem throughRpc (c : Call) (w : Worker) : c.through w .rpc =
    ((c.operation.call w c.caller c.message).1.mapError Rpc.failureOf,
      (c.operation.call w c.caller c.message).2) := rfl

theorem workerAlike (c : Call) (w : Worker) (t t' : Transport) :
    (c.through w t).2 = (c.through w t').2 := by
  cases t <;> cases t' <;> rfl

def told (answer : Except Failure Message) : Except Bytes Message :=
  answer.mapError Failure.message

theorem toldAlike (c : Call) (w : Worker) (t t' : Transport) :
    told (c.through w t).1 = told (c.through w t').1 := by
  have plain : ∀ t, told (c.through w t).1 =
      (c.operation.call w c.caller c.message).1.mapError CallError.message := by
    intro t
    cases t
    all_goals
      simp only [throughHttp, throughRpc, told]
      cases (c.operation.call w c.caller c.message).1 <;> rfl
  rw [plain, plain]

def lostStatus : Operation → Status
  | .evaluate => .unknown
  | .disassemble => .internal

theorem abandonedTold (abandoned : c.Abandoned) (w : Worker) :
    ∃ f, c.caller.failure? = some f ∧ c.through w .rpc = (.error f, w) ∧
      c.through w .http = (.error ⟨lostStatus c.operation, f.message⟩, w) := by
  obtain ⟨given, gone⟩ := abandoned
  have refusal : refusal? c.caller c.source = c.caller.absence? := by
    simp [refusal?, given]
  obtain ⟨e, absent, failure, status⟩ : ∃ e, c.caller.absence? = some e ∧
      c.caller.failure? = some (Rpc.failureOf e) ∧
      Http.statusOf c.operation e = lostStatus c.operation := by
    cases who : c.caller with
    | waiting => contradiction
    | canceled => exact ⟨.canceled, rfl, rfl, by cases c.operation <;> rfl⟩
    | expired => exact ⟨.expired, rfl, rfl, by cases c.operation <;> rfl⟩
  have refused := refused (refusal.trans absent) w
  refine ⟨Rpc.failureOf e, failure, ?_, ?_⟩
  · rw [throughRpc, refused]
    rfl
  · rw [throughHttp, refused, ← status]
    rfl

theorem attendedRefusal (attended : ¬ c.Abandoned) (reason : refusal? c.caller c.source = some e) :
    e = .sourceRequired := by
  unfold refusal? at reason
  split at reason
  · exact (Option.some.inj reason).symm
  · next given =>
    cases who : c.caller with
    | waiting => rw [who] at reason; contradiction
    | _ => exact absurd ⟨by simpa using given, by simp [who]⟩ attended

theorem answersAlike (attended : ¬ c.Abandoned) (w : Worker) :
    (c.through w .http).1 = (c.through w .rpc).1 := by
  have same : ∀ e, (c.operation.call w c.caller c.message).1 = .error e →
      Http.failureOf c.operation e = Rpc.failureOf e := by
    intro e failed
    cases reason : refusal? c.caller c.source with
    | some e' =>
      rw [refused reason] at failed
      cases failed
      rw [attendedRefusal attended reason]
      rfl
    | none =>
      obtain ⟨operation, rfl⟩ := unrefused reason failed
      rw [operation]
      rfl
  rw [throughHttp, throughRpc]
  cases result : (c.operation.call w c.caller c.message).1 with
  | ok reply => rfl
  | error e => exact congrArg Except.error (same e result)

theorem alikeIff (c : Call) (w : Worker) (t t' : Transport) :
    (c.through w t).1 = (c.through w t').1 ↔ t = t' ∨ ¬ c.Abandoned := by
  have across : (c.through w .http).1 = (c.through w .rpc).1 ↔ ¬ c.Abandoned := by
    refine ⟨fun same abandoned => ?_, fun attended => answersAlike attended w⟩
    obtain ⟨f, failure, rpc, http⟩ := abandonedTold abandoned w
    rw [rpc, http] at same
    have status : lostStatus c.operation = f.status :=
      congrArg Failure.status (Except.error.inj same)
    cases who : c.caller <;> cases inOperation : c.operation <;> rw [who] at failure <;>
      cases failure <;> rw [inOperation] at status <;> contradiction
  cases t with
  | http =>
    cases t' with
    | http => simp
    | rpc => simpa using across
  | rpc =>
    cases t' with
    | http => simpa [eq_comm] using across
    | rpc => simp

end Call

def answers : Worker → List (Transport × Call) → List (Except Failure Message)
  | _, [] => []
  | w, (t, c) :: rest => (c.through w t).1 :: answers (c.through w t).2 rest

theorem routesTold (w : Worker) (calls : List (Transport × Transport × Call)) :
    (answers w (calls.map fun c => (c.1, c.2.2))).map Call.told =
      (answers w (calls.map fun c => (c.2.1, c.2.2))).map Call.told := by
  induction calls generalizing w with
  | nil => rfl
  | cons call rest ih =>
    obtain ⟨t, t', c⟩ := call
    simp only [List.map_cons, answers, List.cons.injEq]
    exact ⟨c.toldAlike w t t', by rw [c.workerAlike w t t', ih]⟩

theorem routesAlikeIff (w : Worker) (calls : List (Transport × Transport × Call)) :
    answers w (calls.map fun c => (c.1, c.2.2)) = answers w (calls.map fun c => (c.2.1, c.2.2)) ↔
      ∀ c ∈ calls, c.1 = c.2.1 ∨ ¬ c.2.2.Abandoned := by
  induction calls generalizing w with
  | nil => simp [answers]
  | cons call rest ih =>
    obtain ⟨t, t', c⟩ := call
    simp only [List.map_cons, answers, List.cons.injEq, List.forall_mem_cons]
    rw [c.workerAlike w t t', ih, c.alikeIff]

theorem transportsAgree (w : Worker) (calls : List (Transport × Transport × Call)) :
    (answers w (calls.map fun c => (c.1, c.2.2))).map Call.told =
      (answers w (calls.map fun c => (c.2.1, c.2.2))).map Call.told ∧
    (answers w (calls.map fun c => (c.1, c.2.2)) = answers w (calls.map fun c => (c.2.1, c.2.2)) ↔
      ∀ c ∈ calls, c.1 = c.2.1 ∨ ¬ c.2.2.Abandoned) ∧
    ∀ (c : Call) (w : Worker), c.Abandoned →
      ∃ f, c.caller.failure? = some f ∧ c.through w .rpc = (.error f, w) ∧
        c.through w .http = (.error ⟨Call.lostStatus c.operation, f.message⟩, w) :=
  ⟨routesTold w calls, routesAlikeIff w calls, fun _ w abandoned => Call.abandonedTold abandoned w⟩

def forsaken : Call := ⟨.evaluate, .canceled, EvaluateRequest.toMessage ⟨utf8 "1"⟩⟩

theorem transportsNotAlwaysAgree :
    let http := (forsaken.through (.start [] none) .http).1
    let rpc := (forsaken.through (.start [] none) .rpc).1
    http = .error ⟨.unknown, utf8 "context canceled"⟩ ∧
      rpc = .error ⟨.canceled, utf8 "context canceled"⟩ ∧ http ≠ rpc := by
  have http : (forsaken.through (.start [] none) .http).1 =
      .error ⟨.unknown, utf8 "context canceled"⟩ := rfl
  have rpc : (forsaken.through (.start [] none) .rpc).1 =
      .error ⟨.canceled, utf8 "context canceled"⟩ := rfl
  refine ⟨http, rpc, ?_⟩
  rw [http, rpc]
  simp

end ExprMachine.Service
