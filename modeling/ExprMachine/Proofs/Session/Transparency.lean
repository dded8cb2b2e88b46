import ExprMachine.Proofs.Store.Faithful
import ExprMachine.Session

/-! A store cannot be told from having none: whatever happens to it between calls, every call
answers and writes what the same call does in a new session without a store. -/
namespace ExprMachine

open Text (utf8)

namespace Session

inductive Call where
  | eval (source : Source)
  | compile (source : Source)
  | disassemble (source : Source) (label : Bytes)

def Call.source : Call → Source
  | eval source | compile source | disassemble source _ => source

inductive Answer where
  | outcome (r : Except Diagnostic Outcome)
  | chunk (r : Except Diagnostic Chunk)
  | listing (r : Except Diagnostic Bytes)

def Reply.map {α β : Type} (f : α → β) (r : Reply α) : Reply β := ⟨f r.result, r.output, r.session⟩

def answer (s : Session) : Call → Reply Answer
  | .eval source => (s.eval source.bytes).map .outcome
  | .compile source => (s.compile source.bytes).map .chunk
  | .disassemble source label => (s.disassemble source.bytes label).map .listing

/-- What can happen to a session: calls, its store being closed, the same file being opened by a
new session, and rows of the file being changed by someone else. -/
inductive Event where
  | call (c : Call)
  | close
  | reopen (id : Bytes) (v : Verbosity)
  | deleteRow (source : Bytes)
  | setVersion (source : Bytes) (version : Int)
  | setData (source data : Bytes) (rejected : ∀ c, Chunk.decode data ≠ .ok c)

def Event.source? : Event → Option Source
  | call c => some c.source
  | _ => none

def onStore (s : Session) (f : Store → Store) : Session := { s with store := s.store.map f }

def step (s : Session) : Event → List (Answer × Output) × Session
  | .call c =>
    let r := s.answer c
    ([(r.result, r.output)], r.session)
  | .close => ([], s.onStore Store.close)
  | .reopen id v => ([], start id v (s.store.map Store.reopen))
  | .deleteRow source => ([], s.onStore fun store => (store.modifyRow source fun _ => none).2)
  | .setVersion source version =>
    ([], s.onStore fun store =>
      (store.modifyRow source fun row => some { row with version := version }).2)
  | .setData source data _ =>
    ([], s.onStore fun store =>
      (store.modifyRow source fun row => some { row with data := data }).2)

def answers : Session → List Event → List (Answer × Output)
  | _, [] => []
  | s, e :: rest => (s.step e).1 ++ answers (s.step e).2 rest

def alone (v : Verbosity) : Event → List (Answer × Output) × Verbosity
  | .call c =>
    let r := (start [] v none).answer c
    ([(r.result, r.output)], v)
  | .reopen _ v' => ([], v')
  | _ => ([], v)

def answersAlone : Verbosity → List Event → List (Answer × Output)
  | _, [] => []
  | v, e :: rest => (alone v e).1 ++ answersAlone (alone v e).2 rest

end Session

theorem Machine.interpretFresh (m m' : Machine) (c : Chunk) :
    (m.interpret c).1 = (m'.interpret c).1 := by
  unfold interpret
  split
  · rfl
  · rcases execute c 0 c.code.toList [] with ⟨outcome, stack⟩
    cases outcome <;> rfl

namespace Session

def Faithful (used : List Source) (s : Session) : Prop :=
  ∃ store, s.store = some store ∧ store.Faithful used

def written (v : Verbosity) : Except Diagnostic Chunk → Output
  | .error d => { Output.none with reports := d.text ++ [Text.newline] }
  | .ok c =>
    if v.printCode then { Output.none with listing := c.listing Chunk.defaultLabel } else .none

def traced (v : Verbosity) : Except Diagnostic Chunk → Output
  | .error _ => .none
  | .ok c => if v.trace then { Output.none with trace := Machine.trace c } else .none

structure CompilesTo (s : Session) (source : Bytes) (r : Reply (Except Diagnostic Chunk)) : Prop where
  result : r.result = ExprMachine.compile source
  output : r.output = written s.verbosity (ExprMachine.compile source)
  verbosity : r.session.verbosity = s.verbosity

variable {used : List Source} {s : Session} {source : Source}

theorem compileAfreshTo (s : Session) (source : Bytes) :
    CompilesTo s source (s.compileAfresh source) := by
  unfold compileAfresh
  split
  · next failed => exact ⟨failed.symm, by rw [failed]; rfl, rfl⟩
  · next compiled => exact ⟨compiled.symm, by rw [compiled]; rfl, rfl⟩

theorem compileAfreshFaithful (faithful : s.Faithful used) (inUse : source ∈ used) :
    (s.compileAfresh source.bytes).session.Faithful used := by
  unfold compileAfresh
  obtain ⟨store, held, storeFaithful⟩ := faithful
  split
  · exact ⟨store, held, storeFaithful⟩
  · next c compiled =>
    exact ⟨(store.put source.bytes c).2, by simp [held],
      Store.putFaithful storeFaithful inUse compiled⟩

theorem compileFaithful (apart : Apart used) (faithful : s.Faithful used) (inUse : source ∈ used) :
    CompilesTo s source.bytes (s.compile source.bytes) ∧
      (s.compile source.bytes).session.Faithful used := by
  obtain ⟨store, held, storeFaithful⟩ := faithful
  obtain ⟨later, found⟩ := Store.getFaithful storeFaithful source.bytes
  unfold compile
  rw [held]
  dsimp only
  split
  · next c store' got =>
    rw [got] at later found
    have compiled := compiledApart apart inUse (found c rfl)
    exact ⟨⟨compiled.symm, by rw [compiled]; rfl, rfl⟩, store', rfl, later⟩
  · next result store' _ got =>
    rw [got] at later
    have afresh := compileAfreshTo { s with store := some store' } source.bytes
    exact ⟨⟨afresh.result, afresh.output, afresh.verbosity⟩,
      compileAfreshFaithful ⟨store', rfl, later⟩ inUse⟩

theorem evalReply (s : Session) (source : Bytes) :
    (s.eval source).result =
        (s.compile source).result.map (fun c => (Machine.fresh.interpret c).1) ∧
      (s.eval source).output = (s.compile source).output.append
        (traced (s.compile source).session.verbosity (s.compile source).result) ∧
      (s.eval source).session.store = (s.compile source).session.store ∧
      (s.eval source).session.verbosity = (s.compile source).session.verbosity := by
  unfold eval
  rcases s.compile source with ⟨result, output, later⟩
  cases result with
  | error d => exact ⟨rfl, by simp [traced, Output.append, Output.none], rfl, rfl⟩
  | ok c =>
    refine ⟨?_, rfl, rfl, rfl⟩
    exact congrArg Except.ok (later.machine.interpretFresh .fresh c)

theorem answerSame {t : Session} {c : Call}
    (here : CompilesTo s c.source.bytes (s.compile c.source.bytes))
    (there : CompilesTo t c.source.bytes (t.compile c.source.bytes))
    (sameVerbosity : s.verbosity = t.verbosity) :
    (s.answer c).result = (t.answer c).result ∧ (s.answer c).output = (t.answer c).output := by
  have result := here.result.trans there.result.symm
  have output : (s.compile c.source.bytes).output = (t.compile c.source.bytes).output := by
    rw [here.output, there.output, sameVerbosity]
  have verbosity : (s.compile c.source.bytes).session.verbosity =
      (t.compile c.source.bytes).session.verbosity := by
    rw [here.verbosity, there.verbosity, sameVerbosity]
  cases c with
  | compile source => exact ⟨congrArg Answer.chunk result, output⟩
  | disassemble source label =>
    simp only [Call.source] at result
    refine ⟨?_, output⟩
    simp only [answer, disassemble, Reply.map, result]
  | eval source =>
    obtain ⟨resultHere, outputHere, _⟩ := evalReply s source.bytes
    obtain ⟨resultThere, outputThere, _⟩ := evalReply t source.bytes
    refine ⟨congrArg Answer.outcome ?_, ?_⟩
    · rw [resultHere, resultThere]
      exact congrArg (Except.map _) result
    · change (s.eval source.bytes).output = (t.eval source.bytes).output
      rw [outputHere, outputThere]
      simp only [Call.source] at output verbosity result
      rw [output, verbosity, result]

theorem answerKeeps {c : Call} (apart : Apart used) (faithful : s.Faithful used)
    (inUse : c.source ∈ used) :
    (s.answer c).session.verbosity = s.verbosity ∧ (s.answer c).session.Faithful used := by
  obtain ⟨replied, kept⟩ := compileFaithful apart faithful inUse
  cases c with
  | compile source => exact ⟨replied.verbosity, kept⟩
  | disassemble source label => exact ⟨replied.verbosity, kept⟩
  | eval source =>
    obtain ⟨_, _, store, verbosity⟩ := evalReply s source.bytes
    obtain ⟨held, same, faithful⟩ := kept
    exact ⟨verbosity.trans replied.verbosity, held, store.trans same, faithful⟩

theorem onStoreFaithful {f : Store → Store} (faithful : s.Faithful used)
    (keeps : ∀ store, store.Faithful used → (f store).Faithful used) :
    (s.onStore f).Faithful used := by
  obtain ⟨store, held, storeFaithful⟩ := faithful
  exact ⟨f store, by simp [onStore, held], keeps store storeFaithful⟩

theorem stepTransparent {e : Event} (apart : Apart used) (faithful : s.Faithful used)
    (inUse : ∀ source, e.source? = some source → source ∈ used) :
    (s.step e).1 = (alone s.verbosity e).1 ∧
      (s.step e).2.verbosity = (alone s.verbosity e).2 ∧ (s.step e).2.Faithful used := by
  cases e with
  | call c =>
    have called := inUse c.source rfl
    obtain ⟨replied, _⟩ := compileFaithful apart faithful called
    have fresh : CompilesTo (start [] s.verbosity none) c.source.bytes
        ((start [] s.verbosity none).compile c.source.bytes) := compileAfreshTo _ _
    obtain ⟨result, output⟩ := answerSame replied fresh rfl
    obtain ⟨verbosity, kept⟩ := answerKeeps apart faithful called
    refine ⟨?_, verbosity, kept⟩
    simp only [step, alone, result, output]
  | close => exact ⟨rfl, rfl, onStoreFaithful faithful fun _ => Store.closeFaithful⟩
  | reopen id v =>
    obtain ⟨store, held, storeFaithful⟩ := faithful
    exact ⟨rfl, rfl, store.reopen, by simp [step, start, held], Store.reopenFaithful storeFaithful⟩
  | deleteRow source =>
    refine ⟨rfl, rfl, onStoreFaithful faithful fun store kept => ?_⟩
    exact Store.modifyRowFaithful kept source (by simp)
  | setVersion source version =>
    refine ⟨rfl, rfl, onStoreFaithful faithful fun store kept => ?_⟩
    refine Store.modifyRowFaithful kept source fun row row' changed c decoded => ?_
    rw [← Option.some.inj changed] at decoded
    exact decoded
  | setData source data rejected =>
    refine ⟨rfl, rfl, onStoreFaithful faithful fun store kept => ?_⟩
    refine Store.modifyRowFaithful kept source fun row row' changed c decoded => ?_
    rw [← Option.some.inj changed] at decoded
    exact absurd decoded (rejected c)

theorem answersTransparent {events : List Event} (apart : Apart used) (faithful : s.Faithful used)
    (inUse : ∀ source ∈ events.filterMap Event.source?, source ∈ used) :
    s.answers events = answersAlone s.verbosity events := by
  induction events generalizing s with
  | nil => rfl
  | cons e rest ih =>
    have here : ∀ source, e.source? = some source → source ∈ used := by
      intro source called
      exact inUse source (List.mem_filterMap.mpr ⟨e, by simp, called⟩)
    have later : ∀ source ∈ rest.filterMap Event.source?, source ∈ used := by
      intro source called
      obtain ⟨other, member, found⟩ := List.mem_filterMap.mp called
      exact inUse source (List.mem_filterMap.mpr ⟨other, by simp [member], found⟩)
    obtain ⟨answered, verbosity, kept⟩ := stepTransparent apart faithful here
    rw [answers, answersAlone, answered, ih kept later, verbosity]

def blank : Option Bytes → Store
  | none => .memory
  | some path => .openOn path ∅

theorem storeTransparent (id : Bytes) (v : Verbosity) (place : Option Bytes) (events : List Event)
    (apart : Apart (events.filterMap Event.source?)) :
    (start id v (some (blank place))).answers events = answersAlone v events := by
  have faithful : (blank place).Faithful (events.filterMap Event.source?) := by
    cases place with
    | none => exact (Store.emptyFaithful []).1
    | some path => exact (Store.emptyFaithful path).2
  exact answersTransparent apart ⟨_, rfl, faithful⟩ fun _ called => called

theorem emptyRejected (c : Chunk) : Chunk.decode [] ≠ .ok c := by
  have malformed : Chunk.decode [] = .error .malformed := by decide +kernel
  simp [malformed]

def disturbed : List Event :=
  let sum : Source := ⟨utf8 "1 + 2", by decide⟩
  let sign : Source := ⟨utf8 "-nil", by decide⟩
  [.call (.eval sum), .call (.eval sign), .close, .call (.compile sum), .reopen [] ⟨true, true⟩,
    .call (.disassemble sum []), .setVersion sum.bytes 7, .setData sign.bytes [] emptyRejected,
    .reopen [] ⟨true, true⟩, .call (.eval sign), .deleteRow sum.bytes, .call (.eval sum)]

theorem storeTransparentDisturbed :
    Apart (disturbed.filterMap Event.source?) ∧
    (start [] .quiet (some (blank (some (utf8 "chunks.db"))))).answers disturbed =
      answersAlone .quiet disturbed := by
  have apart : Apart (disturbed.filterMap Event.source?) := by decide +kernel
  exact ⟨apart, storeTransparent [] .quiet (some (utf8 "chunks.db")) disturbed apart⟩

end Session
end ExprMachine
