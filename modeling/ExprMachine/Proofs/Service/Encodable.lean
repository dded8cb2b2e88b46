import ExprMachine.Proofs.Expression.Encoded
import ExprMachine.Proofs.Service.Isolation

/-! Every reply to an encoded source can be sent. Its chunk is compiled from that source or was kept for
a source of the same hash; texts are cut between tokens and joined whole, so that no part of a reply
is cut inside a character. -/
namespace ExprMachine

open Text (isValid utf8)

theorem Compiled.more {used others : List Source} {key : Digest} {c : Chunk}
    (compiled : Compiled used key c) : Compiled (used ++ others) key c := by
  obtain ⟨source, member, found⟩ := compiled
  exact ⟨source, List.mem_append_left others member, found⟩

theorem Store.Faithful.more {used others : List Source} {s : Store} (faithful : s.Faithful used) :
    s.Faithful (used ++ others) :=
  ⟨fun key c held => (faithful.index key c held).more,
    fun disk key row c opened held decoded => (faithful.rows disk key row c opened held decoded).more⟩

namespace Session

structure Regular (used : List Source) (s : Session) : Prop where
  named : isValid s.id = true
  filled : ∀ store ∈ s.store, store.Faithful used

variable {used : List Source} {s : Session} {source : Source}

@[simp] theorem idOfValid (random : Bytes) : isValid (idOf random) = true := by
  refine Text.joinValid (Text.asciiValid ?_) fun part member => ?_
  · exact .cons (by decide) .nil
  · simp only [List.mem_cons, List.not_mem_nil, or_false] at member
    rcases member with rfl | rfl | rfl | rfl | rfl <;> exact Text.hexOfValid _

theorem compileAfreshRegular (regular : s.Regular used) (inUse : source ∈ used) :
    (s.compileAfresh source.bytes).session.Regular used := by
  unfold compileAfresh
  split
  · exact regular
  · next c compiled =>
    refine ⟨regular.named, fun later put => ?_⟩
    obtain ⟨store, held, rfl⟩ := Option.map_eq_some_iff.mp put
    exact Store.putFaithful (regular.filled store held) inUse compiled

theorem compileRegular (regular : s.Regular used) (inUse : source ∈ used) :
    (s.compile source.bytes).session.Regular used := by
  unfold compile
  split
  · exact compileAfreshRegular regular inUse
  · next store held =>
    have later := (Store.getFaithful (regular.filled store held) source.bytes).1
    have onward : Regular used { s with store := some (store.get source.bytes).2 } :=
      ⟨regular.named, fun _ same => Option.some.inj same ▸ later⟩
    split
    · next got =>
      rw [got] at onward
      exact onward
    · next got =>
      rw [got] at onward
      exact compileAfreshRegular onward inUse

theorem evalRegular (regular : s.Regular used) (inUse : source ∈ used) :
    (s.eval source.bytes).session.Regular used := by
  have compiled := compileRegular regular inUse
  unfold eval
  generalize s.compile source.bytes = reply at compiled ⊢
  rcases reply with ⟨d | c, output, later⟩
  · exact compiled
  · exact ⟨compiled.named, compiled.filled⟩

def Shown {α : Type} (P : α → Prop) : Except Diagnostic α → Prop
  | .error d => isValid d.text = true
  | .ok a => P a

theorem Shown.map {α β : Type} {P : α → Prop} {Q : β → Prop} {f : α → β} {r : Except Diagnostic α}
    (shown : Shown P r) (each : ∀ a, P a → Q (f a)) : Shown Q (r.map f) := by
  cases r with
  | error d => exact shown
  | ok a => exact each a shown

theorem afreshShown (valid : isValid source.bytes) :
    Shown Chunk.Encoded (s.compileAfresh source.bytes).result := by
  unfold compileAfresh
  split
  · next failed => exact Compilation.reportValid valid failed
  · next compiled => exact Compilation.compiledEncoded valid compiled

theorem compileShown (regular : s.Regular used) (valid : isValid source.bytes)
    (kin : ∀ other ∈ used, digest other.bytes = digest source.bytes → isValid other.bytes = true) :
    Shown Chunk.Encoded (s.compile source.bytes).result := by
  unfold compile
  split
  · exact afreshShown valid
  · next store held =>
    have found := (Store.getFaithful (regular.filled store held) source.bytes).2
    split
    · next c _ got =>
      rw [got] at found
      obtain ⟨other, member, same, compiled⟩ := found c rfl
      exact Compilation.compiledEncoded (kin other member same) compiled
    · exact afreshShown valid

theorem disassembleShown (compiled : Shown Chunk.Encoded (s.compile source.bytes).result)
    {label : Bytes} (labelled : isValid label = true) :
    Shown (fun listing => isValid listing = true) (s.disassemble source.bytes label).result := by
  refine compiled.map fun c encoded => encoded.listing ?_
  split
  · exact Text.literalValid _
  · exact labelled

end Session

namespace Service

structure EvaluateReply.Encodable (r : EvaluateReply) : Prop where
  result : isValid r.result = true
  errorMessage : isValid r.errorMessage = true
  diagnostics : ∀ d ∈ r.diagnostics, isValid d = true
  sent : Message.fault? evaluateResponse r.toMessage = none

structure DisassembleReply.Encodable (r : DisassembleReply) : Prop where
  listing : isValid r.listing = true
  diagnostics : ∀ d ∈ r.diagnostics, isValid d = true
  sent : Message.fault? disassembleResponse r.toMessage = none

theorem evaluateSent {r : EvaluateReply} (result : isValid r.result = true)
    (kind : isValid r.kind = true) (errorKind : isValid r.errorKind = true)
    (errorMessage : isValid r.errorMessage = true) (diagnostics : ∀ d ∈ r.diagnostics, isValid d = true)
    (session : isValid r.session = true) : r.Encodable := by
  refine ⟨result, errorMessage, diagnostics, ?_⟩
  have texts : r.diagnostics.all isValid = true := List.all_eq_true.mpr diagnostics
  simp [Message.fault?, EvaluateReply.toMessage, Message.ofValues, evaluateResponse, FieldValue.isValid,
    result, kind, errorKind, errorMessage, texts, session]

theorem disassembleSent {r : DisassembleReply} (listing : isValid r.listing = true)
    (diagnostics : ∀ d ∈ r.diagnostics, isValid d = true) : r.Encodable := by
  refine ⟨listing, diagnostics, ?_⟩
  have texts : r.diagnostics.all isValid = true := List.all_eq_true.mpr diagnostics
  simp [Message.fault?, DisassembleReply.toMessage, Message.ofValues, disassembleResponse,
    FieldValue.isValid, listing, texts]

theorem outcomeSent {session : Bytes} (named : isValid session = true)
    {outcome : Except Diagnostic Outcome} (shown : Session.Shown Outcome.Encoded outcome) :
    (EvaluateReply.ofOutcome session outcome).Encodable := by
  have none : ∀ d ∈ ([] : List Bytes), isValid d = true := List.forall_mem_nil _
  have empty := Text.emptyValid
  rcases outcome with d | v | e | c
  · exact evaluateSent empty empty (Text.literalValid _)
      (Text.appendValid (Text.literalValid _) shown) (List.forall_mem_singleton.mpr shown) named
  · exact evaluateSent (Value.Encoded.text shown) v.kind.nameValid empty empty none named
  · exact evaluateSent empty empty (Text.literalValid _) e.messageValid none named
  · exact evaluateSent empty empty (Text.literalValid _)
      (Text.appendValid (Text.literalValid _) c.messageValid) none named

def Reply.Encodable : Reply → Prop
  | evaluated (.ok r) => r.Encodable
  | disassembled (.ok r) => r.Encodable
  | _ => True

def Request.label : Request → Bytes
  | evaluate _ _ => []
  | disassemble _ _ label => label

variable {used : List Source} {w : Worker} {r : Request}

theorem performed {α : Type} (w : Worker) (task : Session → Session.Reply α) :
    w.perform task = (none, w) ∨
      w.perform task = (some (task w.session).result, { w with session := (task w.session).session }) := by
  unfold Worker.perform
  split
  · exact .inl rfl
  · exact .inr rfl

theorem respondRegular (regular : w.session.Regular used) (inUse : r.source ∈ used) :
    (respond w r).2.session.Regular used := by
  cases r with
  | evaluate caller source =>
    simp only [respond, evaluate]
    split
    · exact regular
    rcases performed w (·.eval source.bytes) with idle | done
    · simpa only [idle] using regular
    · simp only [done]
      exact Session.evalRegular regular inUse
  | disassemble caller source label =>
    simp only [respond, disassemble]
    split
    · exact regular
    rcases performed w (·.disassemble source.bytes label) with idle | done
    · simpa only [idle] using regular
    · have onward := Session.compileRegular regular inUse
      simp only [done]
      simp only [Session.disassemble]
      cases (w.session.compile source.bytes).result <;> exact onward

theorem respondEncodable (regular : w.session.Regular used) (valid : isValid r.source.bytes = true)
    (labelled : isValid r.label = true)
    (kin : ∀ other ∈ used, digest other.bytes = digest r.source.bytes → isValid other.bytes = true) :
    (respond w r).1.Encodable := by
  have shown := Session.compileShown regular valid kin
  cases r with
  | evaluate caller source =>
    simp only [respond, evaluate]
    split
    · trivial
    rcases performed w (·.eval source.bytes) with idle | done
    · simp only [idle]
      exact evaluateSent Text.emptyValid Text.emptyValid (Text.literalValid _) (Text.literalValid _)
        (List.forall_mem_nil _) regular.named
    · simp only [done, (w.session.evalReply source.bytes).1]
      refine outcomeSent regular.named (shown.map fun c encoded => ?_)
      exact Machine.interpretEncoded encoded _
  | disassemble caller source label =>
    simp only [respond, disassemble]
    split
    · trivial
    rcases performed w (·.disassemble source.bytes label) with idle | done
    · simp only [idle]
      trivial
    · have listed : Session.Shown (fun text => isValid text = true)
          (w.session.disassemble source.bytes label).result :=
        Session.disassembleShown shown labelled
      simp only [done]
      cases result : (w.session.disassemble source.bytes label).result with
      | error d =>
        rw [result] at listed
        exact disassembleSent Text.emptyValid (List.forall_mem_singleton.mpr listed)
      | ok text =>
        rw [result] at listed
        exact disassembleSent listed (List.forall_mem_nil _)

def served (w : Worker) (requests : List Request) : Worker :=
  requests.foldl (fun w r => (respond w r).2) w

theorem servedRegular (regular : w.session.Regular used) {requests : List Request}
    (inUse : ∀ r ∈ requests, r.source ∈ used) : (served w requests).session.Regular used := by
  induction requests generalizing w with
  | nil => exact regular
  | cons r rest ih =>
    obtain ⟨here, later⟩ := List.forall_mem_cons.mp inUse
    exact ih (respondRegular regular here) later

/-- The texts of all replies can be sent: those of a worker, at work or stopped, that began with no
store or with one that only compiled chunks were put into. Two hashes may collide as long as no kept
source that is not encoded has the hash of the one in question. -/
theorem repliesEncodable {used : List Source} {first : Option Store}
    (filled : ∀ store ∈ first, store.Faithful used) (random : Bytes) (earlier : List Request)
    (stopped : Bool) {r : Request} (valid : isValid r.source.bytes = true)
    (labelled : isValid r.label = true)
    (kin : ∀ other ∈ used ++ earlier.map Request.source,
      digest other.bytes = digest r.source.bytes → isValid other.bytes = true) :
    let w := served (.start (Session.idOf random) first) earlier
    (respond { w with isStopped := stopped } r).1.Encodable := by
  intro w
  have start : Session.Regular (used ++ earlier.map Request.source)
      (Worker.start (Session.idOf random) first).session :=
    ⟨Session.idOfValid random, fun store held => (filled store held).more⟩
  have regular : w.session.Regular (used ++ earlier.map Request.source) :=
    servedRegular start fun r member => List.mem_append_right _ (List.mem_map_of_mem member)
  exact @respondEncodable _ { w with isStopped := stopped } r regular valid labelled kin

def littered : List Request :=
  [.evaluate .waiting ⟨[34, 0xc3, 34], by decide⟩, .evaluate .waiting ⟨utf8 "\"μ\"", by decide⟩]

def accented : Request := .disassemble .waiting ⟨utf8 "\"é\" + \"λ\"", by decide⟩ (utf8 "ß")

theorem repliesEncodableAccented :
    isValid accented.source.bytes = true ∧ isValid accented.label = true ∧
    (∃ other ∈ littered.map Request.source, isValid other.bytes = false) ∧
    (respond (served (.start (Session.idOf []) (some .memory)) littered) accented).1.Encodable := by
  have valid : isValid accented.source.bytes = true := by decide +kernel
  have labelled : isValid accented.label = true := by decide +kernel
  have stray : ∃ other ∈ littered.map Request.source, isValid other.bytes = false :=
    ⟨_, .head _, by decide +kernel⟩
  have filled : ∀ store ∈ some Store.memory, store.Faithful [] := fun store same =>
    Option.some.inj same ▸ (Store.emptyFaithful []).1
  have kin : ∀ other ∈ [] ++ littered.map Request.source,
      digest other.bytes = digest accented.source.bytes → isValid other.bytes = true := by
    decide +kernel
  exact ⟨valid, labelled, stray, repliesEncodable filled [] littered false valid labelled kin⟩

end Service
end ExprMachine
