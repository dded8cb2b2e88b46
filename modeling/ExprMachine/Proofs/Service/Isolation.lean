import ExprMachine.Proofs.Session.Transparency
import ExprMachine.Service.Evaluation

/-! Requests to a service do not disturb each other. They share one session: its machine keeps what
earlier runs left on the stack, and its store what earlier requests compiled. Neither shows in an
answer, which is that of a new service with the chunks that were there from the start. -/
namespace ExprMachine

open Text (utf8)

namespace Store

def holding (entries : List (Bytes × Chunk)) : Store :=
  entries.foldl (fun s entry => (s.put entry.1 entry.2).2) .memory

def chunkOf (first : Store) (source : Bytes) : Except Diagnostic Chunk :=
  match first.index[digest source]? with
  | some c => .ok c
  | none => compile source

structure Grown (first : Store) (used : List Source) (s : Store) : Prop where
  memory : s.disk = none
  kept : ∀ (key : Digest) c, first.index[key]? = some c → s.index[key]? = some c
  added : ∀ (key : Digest) c, first.index[key]? = none → s.index[key]? = some c →
    Compiled used key c

variable {first s : Store} {used : List Source} {source : Source} {c : Chunk}

theorem putMemory (memory : s.disk = none) (source : Bytes) (c : Chunk) :
    (s.put source c).2 = { s with index := s.index.insert (digest source) c } := by
  simp only [put, memory]

theorem holdingMemory (entries : List (Bytes × Chunk)) : (holding entries).disk = none := by
  suffices ∀ s : Store, s.disk = none →
      (entries.foldl (fun s entry => (s.put entry.1 entry.2).2) s).disk = none from this memory rfl
  induction entries with
  | nil => exact fun _ memory => memory
  | cons entry entries ih =>
    intro s memory
    rw [List.foldl_cons]
    refine ih _ ?_
    rw [putMemory memory]
    exact memory

theorem getMemory (memory : s.disk = none) (source : Bytes) :
    s.get source = (.ok s.index[digest source]?, s) := by
  cases found : s.index[digest source]? <;> simp only [get, memory, found]

theorem Grown.start (memory : first.disk = none) : first.Grown used first where
  memory := memory
  kept _ _ held := held
  added key c absent held := by
    rw [absent] at held
    contradiction

theorem Grown.put (grown : first.Grown used s) (inUse : source ∈ used)
    (absent : first.index[digest source.bytes]? = none) (ok : compile source.bytes = .ok c) :
    first.Grown used (s.put source.bytes c).2 := by
  rw [putMemory grown.memory]
  refine ⟨grown.memory, fun key other held => ?_, fun key other missing held => ?_⟩
  · rw [Std.HashMap.getElem?_insert]
    split
    · next same =>
      rw [beq_iff_eq.mp same] at absent
      rw [absent] at held
      contradiction
    · exact grown.kept key other held
  · rw [Std.HashMap.getElem?_insert] at held
    split at held
    · next same =>
      cases held
      exact ⟨source, inUse, beq_iff_eq.mp same, ok⟩
    · exact grown.added key other missing held

theorem Grown.found (apart : Apart used) (grown : first.Grown used s) (inUse : source ∈ used)
    (held : s.index[digest source.bytes]? = some c) : first.chunkOf source.bytes = .ok c := by
  unfold chunkOf
  cases known : first.index[digest source.bytes]? with
  | some other => exact congrArg Except.ok (Option.some.inj ((grown.kept _ _ known).symm.trans held))
  | none => exact compiledApart apart inUse (grown.added _ _ known held)

theorem Grown.missing (grown : first.Grown used s) {key : Digest} (absent : s.index[key]? = none) :
    first.index[key]? = none := by
  cases known : first.index[key]? with
  | some other =>
    rw [grown.kept _ _ known] at absent
    contradiction
  | none => rfl

end Store

namespace Session

variable {used : List Source} {s : Session} {store first : Store} {source : Source}

theorem compileGrown (apart : Apart used) (held : s.store = some store)
    (grown : first.Grown used store) (inUse : source ∈ used) :
    (s.compile source.bytes).result = first.chunkOf source.bytes ∧
      ∃ later, (s.compile source.bytes).session.store = some later ∧ first.Grown used later := by
  unfold compile
  rw [held]
  dsimp only
  rw [Store.getMemory grown.memory]
  cases found : store.index[digest source.bytes]? with
  | some c => exact ⟨(grown.found apart inUse found).symm, store, rfl, grown⟩
  | none =>
    have absent := grown.missing found
    have same : first.chunkOf source.bytes = ExprMachine.compile source.bytes := by
      rw [Store.chunkOf, absent]
    rw [same]
    dsimp only
    unfold compileAfresh
    split
    · next failed => exact ⟨failed.symm, store, rfl, grown⟩
    · next c compiled => exact ⟨compiled.symm, _, rfl, grown.put inUse absent compiled⟩

end Session

namespace Service

inductive Request where
  | evaluate (caller : Caller) (source : Source)
  | disassemble (caller : Caller) (source : Source) (label : Bytes)

def Request.source : Request → Source
  | evaluate _ source | disassemble _ source _ => source

inductive Reply where
  | evaluated (r : Except CallError EvaluateReply)
  | disassembled (r : Except CallError DisassembleReply)

def Reply.anonymous : Reply → Reply
  | evaluated r => evaluated (r.map fun reply => { reply with session := [] })
  | disassembled r => disassembled r

def respond (w : Worker) : Request → Reply × Worker
  | .evaluate caller source =>
    let (r, w) := evaluate w caller ⟨source.bytes⟩
    (.evaluated r, w)
  | .disassemble caller source label =>
    let (r, w) := disassemble w caller ⟨source.bytes, label⟩
    (.disassembled r, w)

def replies : Worker → List Request → List Reply
  | _, [] => []
  | w, r :: rest => (respond w r).1 :: replies (respond w r).2 rest

def new (id : Bytes) (v : Verbosity) (preload : List (Bytes × Chunk)) : Worker :=
  ⟨.start id v (some (.holding preload)), false⟩

def due (first : Store) : Request → Reply
  | .evaluate caller source =>
    .evaluated <|
      match refusal? caller source.bytes with
      | some e => .error e
      | none => .ok (.ofOutcome []
          ((first.chunkOf source.bytes).map fun c => (Machine.fresh.interpret c).1))
  | .disassemble caller source label =>
    .disassembled <|
      match refusal? caller source.bytes with
      | some e => .error e
      | none =>
        match first.chunkOf source.bytes with
        | .error d => .ok ⟨[], [d.text]⟩
        | .ok c => .ok ⟨c.listing (if label.isEmpty then Chunk.defaultLabel else label), []⟩

structure Serving (first : Store) (used : List Source) (w : Worker) : Prop where
  live : w.isStopped = false
  grown : ∃ store, w.session.store = some store ∧ first.Grown used store

variable {first : Store} {used : List Source} {w : Worker}

theorem newServing (id : Bytes) (v : Verbosity) (preload : List (Bytes × Chunk)) :
    Serving (.holding preload) used (new id v preload) :=
  ⟨rfl, _, rfl, .start (Store.holdingMemory preload)⟩

theorem anonymousOutcome (session : Bytes) (outcome : Except Diagnostic Outcome) :
    { EvaluateReply.ofOutcome session outcome with session := [] } =
      EvaluateReply.ofOutcome [] outcome := by
  rcases outcome with d | (v | e | c) <;> rfl

theorem evaluateDue (apart : Apart used) (serving : Serving first used w) (caller : Caller)
    {source : Source} (inUse : source ∈ used) :
    (respond w (.evaluate caller source)).1.anonymous = due first (.evaluate caller source) ∧
      Serving first used (respond w (.evaluate caller source)).2 := by
  obtain ⟨store, held, grown⟩ := serving.grown
  obtain ⟨result, later, kept, laterGrown⟩ := Session.compileGrown apart held grown inUse
  obtain ⟨outcome, _, storeAfter, _⟩ := w.session.evalReply source.bytes
  rw [result] at outcome
  cases refused : refusal? caller source.bytes with
  | some e =>
    simp only [respond, due, evaluate, refused]
    exact ⟨rfl, serving⟩
  | none =>
    simp only [respond, due, evaluate, refused, Worker.perform, serving.live, Bool.false_eq_true,
      ↓reduceIte]
    refine ⟨?_, rfl, later, storeAfter.trans kept, laterGrown⟩
    rw [Reply.anonymous, Except.map, anonymousOutcome, outcome]

theorem disassembleDue (apart : Apart used) (serving : Serving first used w) (caller : Caller)
    {source : Source} (inUse : source ∈ used) (label : Bytes) :
    (respond w (.disassemble caller source label)).1.anonymous =
        due first (.disassemble caller source label) ∧
      Serving first used (respond w (.disassemble caller source label)).2 := by
  obtain ⟨store, held, grown⟩ := serving.grown
  obtain ⟨result, later, kept, laterGrown⟩ := Session.compileGrown apart held grown inUse
  cases refused : refusal? caller source.bytes with
  | some e =>
    simp only [respond, due, disassemble, refused]
    exact ⟨rfl, serving⟩
  | none =>
    simp only [respond, due, disassemble, refused, Worker.perform, serving.live, Bool.false_eq_true,
      ↓reduceIte, Session.disassemble, result]
    have goesOn : Serving first used ⟨(w.session.compile source.bytes).session, false⟩ :=
      ⟨rfl, later, kept, laterGrown⟩
    cases first.chunkOf source.bytes with
    | error d => exact ⟨rfl, goesOn⟩
    | ok c => exact ⟨rfl, goesOn⟩

theorem respondDue (apart : Apart used) (serving : Serving first used w) (r : Request)
    (inUse : r.source ∈ used) :
    (respond w r).1.anonymous = due first r ∧ Serving first used (respond w r).2 := by
  cases r with
  | evaluate caller source => exact evaluateDue apart serving caller inUse
  | disassemble caller source label => exact disassembleDue apart serving caller inUse label

theorem repliesDue (apart : Apart used) (serving : Serving first used w) {requests : List Request}
    (inUse : ∀ r ∈ requests, r.source ∈ used) :
    (replies w requests).map Reply.anonymous = requests.map (due first) := by
  induction requests generalizing w with
  | nil => rfl
  | cons r rest ih =>
    obtain ⟨here, inRest⟩ := List.forall_mem_cons.mp inUse
    obtain ⟨answered, kept⟩ := respondDue apart serving r here
    rw [replies, List.map_cons, List.map_cons, answered, ih kept inRest]

theorem repliesIsolated (id id' : Bytes) (v v' : Verbosity) (preload : List (Bytes × Chunk))
    (requests : List Request) (apart : Apart (requests.map Request.source)) :
    (replies (new id v preload) requests).map Reply.anonymous =
      requests.map fun r => (respond (new id' v' preload) r).1.anonymous := by
  have inUse : ∀ r ∈ requests, r.source ∈ requests.map Request.source := fun r member =>
    List.mem_map_of_mem member
  rw [repliesDue apart (newServing id v preload) inUse]
  refine List.map_congr_left fun r member => ?_
  exact (respondDue apart (newServing id' v' preload) r (inUse r member)).1.symm

def troubled : List (Bytes × Chunk) :=
  [(utf8 "1", ⟨1, #[.plain .return], #[1], #[]⟩),
    (utf8 "2", ⟨1, #[.plain .nil, .plain .nil, .plain .return], #[1, 1, 1], #[]⟩)]

def troubling : List Request :=
  [.evaluate .waiting ⟨utf8 "1", by decide⟩, .evaluate .waiting ⟨utf8 "2", by decide⟩,
    .evaluate .waiting ⟨utf8 "-true", by decide⟩, .disassemble .waiting ⟨utf8 "1", by decide⟩ [],
    .evaluate .expired ⟨utf8 "3", by decide⟩, .evaluate .waiting ⟨utf8 "3", by decide⟩]

theorem repliesIsolatedTroubled :
    Apart (troubling.map Request.source) ∧ (∃ entry ∈ troubled, ¬ entry.2.IsValid) ∧
    (replies (new [] .quiet troubled) troubling).map Reply.anonymous =
      troubling.map fun r => (respond (new [0] .quiet troubled) r).1.anonymous := by
  have apart : Apart (troubling.map Request.source) := by decide +kernel
  have crashes : ∃ entry ∈ troubled, ¬ entry.2.IsValid := ⟨_, .head _, by decide⟩
  exact ⟨apart, crashes, repliesIsolated [] [0] .quiet .quiet troubled troubling apart⟩

end Service
end ExprMachine
