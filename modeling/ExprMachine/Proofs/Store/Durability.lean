import ExprMachine.Proofs.Chunk.Reload
import ExprMachine.Store
import Mathlib.Data.Finset.Card
import Mathlib.Data.Set.Function

/-! A store on a file is a map that lasts. What it answers can be told from the history of its use:
which chunk was last put under a source, and whether the file has been opened anew since. -/
namespace ExprMachine

open Text (utf8)

structure Chunk.Durable (c : Chunk) : Prop where
  made : c.MadeOfWords
  short : c.Short
  kinds : ∀ v ∈ c.constants, v.IsDefined
  texts : ∀ s, .string s ∈ c.constants → ∃ text, s = utf8 text
  valid : c.IsValid

def Chunk.row (c : Chunk) : Row := ⟨c.version.toNat, c.encode⟩

theorem Chunk.Durable.readBack {c : Chunk} (durable : c.Durable) :
    Store.readRow c.row = .ok (some c.normalized) := by
  have loadable := durable.made.loadable.mpr ⟨durable.kinds, durable.texts, durable.valid⟩
  have decoded : Chunk.decode c.row.data = .ok c.normalized :=
    (Chunk.decodeExact (durable.made.storable durable.short.sizes) durable.short).mpr ⟨loadable, rfl⟩
  have current : c.row.version = (Chunk.currentVersion.toNat : Int) := by
    rw [← durable.made.current]
    rfl
  have small : ¬ (c.row.version < 0 ∨ 0x10000 ≤ c.row.version) := by
    rw [current]
    decide
  rw [Store.readRow, if_neg small, if_neg (not_not.mpr current), decoded]

namespace Store

inductive Operation where
  | put (source : Bytes) (c : Chunk)
  | get (source : Bytes)
  | size
  | persisted
  | reopen

def Operation.source? : Operation → Option Bytes
  | put source _ | get source => some source
  | _ => none

def after (s : Store) : Operation → Store
  | .put source c => (s.put source c).2
  | .get source => (s.get source).2
  | .size | .persisted => s
  | .reopen => s.close.reopen

def reached (start : Store) : List Operation → Store
  | [] => start
  | operation :: earlier => (reached start earlier).after operation

def lastPut (source : Bytes) : List Operation → Option Chunk
  | [] => none
  | .put other c :: earlier => if other = source then some c else lastPut source earlier
  | _ :: earlier => lastPut source earlier

def sinceOpened : List Operation → List Operation
  | [] => []
  | .reopen :: _ => []
  | operation :: earlier => operation :: sinceOpened earlier

def answer (source : Bytes) (history : List Operation) : Option Chunk :=
  (lastPut source (sinceOpened history)).or ((lastPut source history).map Chunk.normalized)

def sources (history : List Operation) : Set Bytes :=
  {source | ∃ operation ∈ history, operation.source? = some source}

def everPut : List Operation → Finset Bytes
  | [] => ∅
  | .put source _ :: earlier => insert source (everPut earlier)
  | _ :: earlier => everPut earlier

def touched : List Operation → Finset Bytes
  | [] => ∅
  | .put source _ :: earlier => insert source (touched earlier)
  | .get source :: earlier =>
    if (lastPut source earlier).isSome then insert source (touched earlier) else touched earlier
  | .reopen :: _ => ∅
  | _ :: earlier => touched earlier

def concerns (source : Bytes) (operation : Operation) : Bool :=
  operation.source?.all (· == source)

variable {history : List Operation} {source other : Bytes} {c : Chunk}

@[simp] theorem lastPutSame : lastPut source (.put source c :: history) = some c := if_pos rfl

@[simp] theorem lastPutOther (differ : other ≠ source) :
    lastPut source (.put other c :: history) = lastPut source history := if_neg differ

theorem lastPutIn (put : lastPut source history = some c) : .put source c ∈ history := by
  induction history with
  | nil => simp [lastPut] at put
  | cons operation earlier ih =>
    cases operation with
    | put other c' =>
      rcases eq_or_ne other source with rfl | differ
      · rw [lastPutSame] at put
        simp [Option.some.inj put]
      · rw [lastPutOther differ] at put
        exact List.mem_cons_of_mem _ (ih put)
    | _ => exact List.mem_cons_of_mem _ (ih put)

theorem lastPutSome : (lastPut source history).isSome ↔ ∃ c, .put source c ∈ history := by
  constructor
  · intro put
    obtain ⟨c, put⟩ := Option.isSome_iff_exists.mp put
    exact ⟨c, lastPutIn put⟩
  · rintro ⟨c, member⟩
    induction history with
    | nil => simp at member
    | cons operation earlier ih =>
      rcases List.mem_cons.mp member with rfl | earlierPut
      · simp
      · cases operation with
        | put other c' =>
          rcases eq_or_ne other source with rfl | differ
          · simp
          · simpa [differ] using ih earlierPut
        | _ => exact ih earlierPut

theorem touchedPut (there : source ∈ touched history) : (lastPut source history).isSome := by
  induction history with
  | nil => simp [touched] at there
  | cons operation earlier ih =>
    cases operation with
    | put other c =>
      rcases eq_or_ne other source with rfl | differ
      · simp
      · rw [lastPutOther differ]
        exact ih (by simpa [touched, differ.symm] using there)
    | get other =>
      simp only [touched] at there
      split at there
      · next put =>
        rcases Finset.mem_insert.mp there with rfl | old
        · exact put
        · exact ih old
      · exact ih there
    | reopen => simp [touched] at there
    | _ => exact ih there

theorem recentTouched (recent : (lastPut source (sinceOpened history)).isSome) :
    source ∈ touched history := by
  induction history with
  | nil => simp [sinceOpened, lastPut] at recent
  | cons operation earlier ih =>
    cases operation with
    | put other c =>
      by_cases same : other = source
      · simp [touched, same]
      · exact Finset.mem_insert_of_mem (ih (by simpa [sinceOpened, lastPut, same] using recent))
    | get other =>
      have old := ih recent
      simp only [touched]
      split
      · exact Finset.mem_insert_of_mem old
      · exact old
    | reopen => simp [sinceOpened, lastPut] at recent
    | _ => exact ih recent

theorem answerSome : (answer source history).isSome ↔ (lastPut source history).isSome := by
  have older : (lastPut source (sinceOpened history)).isSome → (lastPut source history).isSome :=
    fun recent => touchedPut (recentTouched recent)
  simpa [answer] using older

theorem touchedGet (same : (lastPut source history).isSome → source ∈ touched history) :
    touched (.get source :: history) = touched history := by
  simp only [touched]
  split
  · next put => exact Finset.insert_eq_of_mem (same put)
  · rfl

theorem answerPut : answer other (.put source c :: history) =
    if source = other then some c else answer other history := by
  by_cases same : source = other <;> simp [answer, sinceOpened, lastPut, same]

def cached (history : List Operation) (source : Bytes) : Option Chunk :=
  if source ∈ touched history then answer source history else none

theorem cachedSome : source ∈ touched history ↔ (cached history source).isSome := by
  unfold cached
  split
  · next there => simpa [there] using answerSome.mpr (touchedPut there)
  · next missing => simp [missing]

structure Keyed {β : Type} (used : Set Bytes) (m : Std.HashMap Digest β) (f : Bytes → Option β)
    (sources : Finset Bytes) : Prop where
  entries : ∀ source ∈ used, m[digest source]? = f source
  present : ∀ source, source ∈ sources ↔ (f source).isSome
  size : m.size = sources.card

theorem Keyed.insert {β : Type} {used : Set Bytes} {m : Std.HashMap Digest β} {f f' : Bytes → Option β}
    {sources : Finset Bytes} {b : β} (keyed : Keyed used m f sources) (apart : Set.InjOn digest used)
    (inUse : source ∈ used) (changed : f' = Function.update f source (some b)) :
    Keyed used (m.insert (digest source) b) f' (insert source sources) := by
  subst changed
  refine ⟨fun other otherInUse => ?_, fun other => ?_, ?_⟩
  · rw [Std.HashMap.getElem?_insert]
    rcases eq_or_ne other source with rfl | differ
    · simp
    · have hashes : digest source ≠ digest other := fun same =>
        differ (apart otherInUse inUse same.symm)
      simpa [hashes, differ] using keyed.entries other otherInUse
  · rcases eq_or_ne other source with rfl | differ
    · simp
    · simpa [differ] using keyed.present other
  · have same : digest source ∈ m ↔ source ∈ sources := by
      rw [keyed.present, ← keyed.entries source inUse, Std.HashMap.isSome_getElem?_iff_mem]
    rw [Std.HashMap.size_insert, Finset.card_insert_eq_ite, keyed.size]
    simp only [same]

structure Mirrors (used : Set Bytes) (path : Bytes) (history : List Operation) (table : Table)
    (s : Store) : Prop where
  index : Keyed used s.index (cached history) (touched history)
  opened : s.disk = some ⟨path, table, true⟩
  rows : Keyed used table (fun source => (lastPut source history).map Chunk.row) (everPut history)

variable {used : Set Bytes} {path : Bytes} {table : Table} {s : Store}

theorem emptyKeyed {β : Type} {f : Bytes → Option β} (none : ∀ source, f source = .none) :
    Keyed used ∅ f ∅ :=
  ⟨by simp [none], by simp [none], by simp⟩

theorem emptyMirrors : Mirrors used path [] ∅ (openOn path ∅) :=
  ⟨emptyKeyed fun _ => rfl, rfl, emptyKeyed fun _ => rfl⟩

theorem cachedPut : cached (.put source c :: history) =
    Function.update (cached history) source (some c) := by
  funext other
  rcases eq_or_ne other source with rfl | differ
  · simp [cached, touched, answerPut]
  · simp [cached, touched, answerPut, differ, differ.symm]

theorem Mirrors.put (mirrors : Mirrors used path history table s) (apart : Set.InjOn digest used)
    (inUse : source ∈ used) : Mirrors used path (.put source c :: history)
      (table.insert (digest source) c.row) (s.put source c).2 := by
  have rowPut : (fun other => (lastPut other (.put source c :: history)).map Chunk.row) =
      Function.update (fun other => (lastPut other history).map Chunk.row) source (some c.row) := by
    funext other
    rcases eq_or_ne other source with rfl | differ
    · simp
    · simp [differ, differ.symm]
  have index := mirrors.index.insert apart inUse (cachedPut (c := c))
  have rows := mirrors.rows.insert apart inUse rowPut
  have stored : s.put source c = (.ok (), ⟨s.index.insert (digest source) c,
      some ⟨path, table.insert (digest source) c.row, true⟩⟩) := by
    simp [Store.put, mirrors.opened, Chunk.row]
  rw [stored]
  exact ⟨index, rfl, rows⟩

theorem Keyed.got {index : Std.HashMap Digest Chunk}
    (keyed : Keyed used index (cached history) (touched history))
    (same : (lastPut source history).isSome → source ∈ touched history) :
    Keyed used index (cached (.get source :: history)) (touched (.get source :: history)) := by
  have unchanged : cached (.get source :: history) = cached history := by
    funext other
    simp only [cached, touchedGet same]
    rfl
  rw [unchanged, touchedGet same]
  exact keyed

theorem Mirrors.getHeld (mirrors : Mirrors used path history table s) (inUse : source ∈ used)
    (there : source ∈ touched history) :
    (s.get source).1 = .ok (answer source history) ∧
      Mirrors used path (.get source :: history) table (s.get source).2 := by
  have entry := mirrors.index.entries source inUse
  obtain ⟨c, held⟩ := Option.isSome_iff_exists.mp (cachedSome.mp there)
  have same : answer source history = some c := by simpa [cached, there] using held
  have unchanged : s.get source = (.ok (some c), s) := by simp [Store.get, entry, held]
  rw [unchanged, same]
  exact ⟨rfl, mirrors.index.got fun _ => there, mirrors.opened, mirrors.rows⟩

theorem Mirrors.getUnknown (mirrors : Mirrors used path history table s) (inUse : source ∈ used)
    (unput : lastPut source history = none) :
    (s.get source).1 = .ok (answer source history) ∧
      Mirrors used path (.get source :: history) table (s.get source).2 := by
  have unanswered : answer source history = none :=
    Option.not_isSome_iff_eq_none.mp (by simp [answerSome, unput])
  have entry := mirrors.index.entries source inUse
  have listed := mirrors.rows.entries source inUse
  have missing : cached history source = none := by simp [cached, unanswered]
  have unchanged : s.get source = (.ok none, s) := by
    simp [Store.get, Disk.find, mirrors.opened, entry, missing, listed, unput]
  rw [unchanged, unanswered]
  exact ⟨rfl, mirrors.index.got (by simp [unput]), mirrors.opened, mirrors.rows⟩

theorem Mirrors.getListed (mirrors : Mirrors used path history table s) (apart : Set.InjOn digest used)
    (inUse : source ∈ used) (missing : source ∉ touched history)
    (put : lastPut source history = some c) (durable : c.Durable) :
    (s.get source).1 = .ok (answer source history) ∧
      Mirrors used path (.get source :: history) table (s.get source).2 := by
  have notRecent : lastPut source (sinceOpened history) = none :=
    Option.not_isSome_iff_eq_none.mp (mt recentTouched missing)
  have same : answer source history = some c.normalized := by simp [answer, notRecent, put]
  have entry := mirrors.index.entries source inUse
  have listed := mirrors.rows.entries source inUse
  have uncached : cached history source = none := if_neg missing
  have loaded : s.get source = (.ok (some c.normalized),
      { s with index := s.index.insert (digest source) c.normalized }) := by
    simp [Store.get, Disk.find, mirrors.opened, entry, uncached, listed, put, durable.readBack]
  have added : touched (.get source :: history) = insert source (touched history) := by
    simp [touched, put]
  have cachedNow : cached (.get source :: history) =
      Function.update (cached history) source (some c.normalized) := by
    funext other
    have unchanged : answer other (.get source :: history) = answer other history := rfl
    rcases eq_or_ne other source with rfl | differ
    · simp [cached, added, unchanged, same]
    · simp [cached, added, unchanged, differ]
  rw [loaded, same]
  exact ⟨rfl, added ▸ mirrors.index.insert apart inUse cachedNow, mirrors.opened, mirrors.rows⟩

theorem Mirrors.get (mirrors : Mirrors used path history table s) (apart : Set.InjOn digest used)
    (inUse : source ∈ used) (durable : ∀ c, lastPut source history = some c → c.Durable) :
    (s.get source).1 = .ok (answer source history) ∧
      Mirrors used path (.get source :: history) table (s.get source).2 := by
  by_cases there : source ∈ touched history
  · exact mirrors.getHeld inUse there
  · cases put : lastPut source history with
    | none => exact mirrors.getUnknown inUse put
    | some c => exact mirrors.getListed apart inUse there put (durable c put)

theorem Mirrors.reopen (mirrors : Mirrors used path history table s) :
    Mirrors used path (.reopen :: history) table s.close.reopen := by
  have fresh : s.close.reopen = openOn path table := by
    simp [Store.reopen, Store.close, mirrors.opened]
  rw [fresh]
  exact ⟨emptyKeyed fun _ => rfl, rfl, mirrors.rows⟩

structure Admissible (used : Set Bytes) (history : List Operation) : Prop where
  durable : ∀ source c, .put source c ∈ history → c.Durable
  inUse : sources history ⊆ used

theorem Admissible.part {part : List Operation} (ok : Admissible used history)
    (within : part ⊆ history) : Admissible used part :=
  ⟨fun source c put => ok.durable source c (within put),
    fun _ ⟨operation, member, named⟩ => ok.inUse ⟨operation, within member, named⟩⟩

theorem Admissible.earlier {operation : Operation} (ok : Admissible used (operation :: history)) :
    Admissible used history := ok.part (List.subset_cons_self operation history)

theorem Admissible.named {operation : Operation} (ok : Admissible used (operation :: history))
    (named : operation.source? = some source) : source ∈ used :=
  ok.inUse ⟨operation, List.mem_cons_self, named⟩

theorem reachedMirrors (apart : Set.InjOn digest used) (ok : Admissible used history) :
    ∃ table, Mirrors used path history table (reached (openOn path ∅) history) := by
  induction history with
  | nil => exact ⟨∅, emptyMirrors⟩
  | cons operation earlier ih =>
    obtain ⟨table, mirrors⟩ := ih ok.earlier
    cases operation with
    | put source c => exact ⟨_, mirrors.put apart (ok.named rfl)⟩
    | get source =>
      have durable := fun c put => ok.earlier.durable source c (lastPutIn put)
      exact ⟨table, (mirrors.get apart (ok.named rfl) durable).2⟩
    | size | persisted => exact ⟨table, mirrors.index, mirrors.opened, mirrors.rows⟩
    | reopen => exact ⟨table, mirrors.reopen⟩

theorem getReached (apart : Set.InjOn digest used) (ok : Admissible used history)
    (inUse : source ∈ used) :
    ((reached (openOn path ∅) history).get source).1 = .ok (answer source history) := by
  obtain ⟨_, mirrors⟩ := reachedMirrors apart ok
  exact (mirrors.get apart inUse fun c put => ok.durable source c (lastPutIn put)).1

theorem lastPutAlone : lastPut source (history.filter (concerns source)) = lastPut source history := by
  induction history with
  | nil => rfl
  | cons operation earlier ih =>
    cases operation with
    | put other c =>
      rcases eq_or_ne other source with rfl | differ
      · simp [concerns, Operation.source?]
      · simpa [concerns, Operation.source?, differ] using ih
    | get other =>
      by_cases same : other = source
      · simpa [concerns, Operation.source?, same, lastPut] using ih
      · simpa [concerns, Operation.source?, same, lastPut] using ih
    | _ => exact ih

theorem sinceOpenedAlone :
    sinceOpened (history.filter (concerns source)) = (sinceOpened history).filter (concerns source) := by
  induction history with
  | nil => rfl
  | cons operation earlier ih =>
    cases operation with
    | reopen => rfl
    | _ =>
      simp only [sinceOpened, List.filter_cons]
      split
      · exact congrArg _ ih
      · exact ih

theorem answerAlone : answer source (history.filter (concerns source)) = answer source history := by
  rw [answer, sinceOpenedAlone, lastPutAlone, lastPutAlone, answer]

theorem sinceOpenedWhole (once : .reopen ∉ history) : sinceOpened history = history := by
  induction history with
  | nil => rfl
  | cons operation earlier ih =>
    have later : .reopen ∉ earlier := fun member => once (List.mem_cons_of_mem _ member)
    cases operation with
    | reopen => simp at once
    | _ => exact congrArg _ (ih later)

theorem touchedOnce (once : .reopen ∉ history) (put : (lastPut source history).isSome) :
    source ∈ touched history := by
  rw [← sinceOpenedWhole once] at put
  exact recentTouched put

theorem cachedOnce (once : .reopen ∉ history) : cached history source = answer source history := by
  unfold cached
  split
  · rfl
  · next missing =>
    have unput : ¬ (answer source history).isSome := fun some =>
      missing (touchedOnce once (answerSome.mp some))
    exact (Option.not_isSome_iff_eq_none.mp unput).symm

theorem memoryGet (closed : s.disk = none) : s.get source = (.ok s.index[digest source]?, s) := by
  cases held : s.index[digest source]? <;> simp [Store.get, held, closed]

theorem reachedInMemory (apart : Set.InjOn digest used) (ok : Admissible used history)
    (once : .reopen ∉ history) :
    (reached memory history).disk = none ∧
      Keyed used (reached memory history).index (cached history) (touched history) := by
  induction history with
  | nil => exact ⟨rfl, emptyKeyed fun _ => rfl⟩
  | cons operation earlier ih =>
    have once' : .reopen ∉ earlier := fun member => once (List.mem_cons_of_mem _ member)
    obtain ⟨closed, keyed⟩ := ih ok.earlier once'
    cases operation with
    | put source c =>
      have stored : (reached memory (.put source c :: earlier)) =
          ⟨(reached memory earlier).index.insert (digest source) c, none⟩ := by
        simp [reached, after, Store.put, closed]
      rw [stored]
      exact ⟨rfl, keyed.insert apart (ok.named rfl) cachedPut⟩
    | get source =>
      have unchanged : reached memory (.get source :: earlier) = reached memory earlier := by
        rw [reached, after, memoryGet closed]
      rw [unchanged]
      exact ⟨closed, keyed.got (touchedOnce once')⟩
    | size | persisted => exact ⟨closed, keyed⟩
    | reopen => simp at once

/-- The store begins with an empty file. As long as no two sources have one hash, it is a map: asking
never fails and gives the last chunk put, whatever happens to other sources, and the two counts are
those of the sources ever put and of the sources touched since the file was opened. Until the file is
opened anew a store in memory does the same. -/
theorem durableMap (path : Bytes) {history : List Operation} {source : Bytes}
    (durable : ∀ other c, .put other c ∈ history → c.Durable)
    (apart : Set.InjOn digest (insert source (sources history))) :
    let s := reached (openOn path ∅) history
    (s.get source).1 = .ok (answer source history) ∧
    ((answer source history).isSome ↔ ∃ c, .put source c ∈ history) ∧
    ((reached (openOn path ∅) (history.filter (concerns source))).get source).1 =
      (s.get source).1 ∧
    s.persisted = .ok (everPut history).card ∧
    s.size = (touched history).card ∧
    (.reopen ∉ history → let m := reached memory history
      (m.get source).1 = (s.get source).1 ∧ m.size = s.size) := by
  intro s
  have ok : Admissible (insert source (sources history)) history :=
    ⟨durable, Set.subset_insert source _⟩
  have inUse := Set.mem_insert source (sources history)
  obtain ⟨table, mirrors⟩ : ∃ table, Mirrors _ path history table s := reachedMirrors apart ok
  have answered : (s.get source).1 = .ok (answer source history) := getReached apart ok inUse
  have alone := ok.part (List.filter_subset_self (p := concerns source) (l := history))
  have answeredAlone : ((reached (openOn path ∅) (history.filter (concerns source))).get source).1 =
      .ok (answer source (history.filter (concerns source))) := getReached apart alone inUse
  refine ⟨answered, answerSome.trans lastPutSome, ?_, ?_, mirrors.index.size, fun once => ?_⟩
  · rw [answeredAlone, answerAlone, answered]
  · simp [persisted, s, mirrors.opened, mirrors.rows.size]
  · obtain ⟨closed, keyed⟩ := reachedInMemory apart ok once
    refine ⟨?_, keyed.size.trans mirrors.index.size.symm⟩
    rw [memoryGet closed, keyed.entries source inUse, cachedOnce once, answered]

def bare (code : UInt8) : Chunk := .built [.instruction code 0 1, .instruction 0xf0 0 1]

def firstOpening : List Operation :=
  [.put (utf8 "2") (bare 0x01), .put (utf8 "1") (.built Chunk.extremes), .put (utf8 "1") (bare 0x01)]

def secondOpening : List Operation := .get (utf8 "2") :: .reopen :: firstOpening

theorem bareDurable {code : UInt8} (valid : (bare code).IsValid) : (bare code).Durable where
  made := Chunk.builtKeeps _
  short := ⟨by simp [bare, Chunk.built, Chunk.add, Chunk.push, Chunk.empty, Cbor.maxElements],
    by simp [bare, Chunk.built, Chunk.add, Chunk.push, Chunk.empty, Cbor.maxElements],
    by simp [bare, Chunk.built, Chunk.add, Chunk.push, Chunk.empty]⟩
  kinds := by simp [bare, Chunk.built, Chunk.add, Chunk.push, Chunk.empty]
  texts := by simp [bare, Chunk.built, Chunk.add, Chunk.push, Chunk.empty]
  valid := valid

theorem extremesDurable : (Chunk.built Chunk.extremes).Durable where
  made := Chunk.builtKeeps _
  short := ⟨by decide, by decide, by decide⟩
  kinds := by
    unfold Value.IsDefined
    decide
  texts := by
    intro s member
    refine ⟨"é", ?_⟩
    simpa [Chunk.built, Chunk.extremes, Chunk.add, Chunk.addConstant, Chunk.push, Chunk.empty]
      using member
  valid := by decide

theorem durableMapReopened :
    let s := reached (openOn (utf8 "chunks.db") ∅) secondOpening
    let m := reached memory firstOpening
    (∀ other c, .put other c ∈ secondOpening → c.Durable) ∧
    Set.InjOn digest (insert (utf8 "1") (sources secondOpening)) ∧
    (s.get (utf8 "1")).1 = .ok (some (Chunk.built Chunk.extremes).normalized) ∧
    s.persisted = .ok 2 ∧ s.size = 1 ∧
    (m.get (utf8 "1")).1 = .ok (some (.built Chunk.extremes)) ∧ m.size = 2 := by
  intro s m
  have durable : ∀ other c, .put other c ∈ secondOpening → c.Durable := by
    intro other c member
    simp [secondOpening, firstOpening] at member
    rcases member with ⟨_, rfl⟩ | ⟨_, rfl⟩ | ⟨_, rfl⟩
    · exact bareDurable (by decide)
    · exact extremesDurable
    · exact bareDurable (by decide)
  have two : insert (utf8 "1") (sources secondOpening) ⊆ {utf8 "1", utf8 "2"} := by
    rintro other (rfl | ⟨operation, member, named⟩)
    · simp
    · simp [secondOpening, firstOpening] at member
      rcases member with rfl | rfl | rfl | rfl | rfl <;> simp_all [Operation.source?]
  have hashes : digest (utf8 "1") ≠ digest (utf8 "2") := by decide +kernel
  have apart : Set.InjOn digest (insert (utf8 "1") (sources secondOpening)) :=
    (Set.injOn_pair.mpr fun same => absurd same hashes).mono two
  have firstDurable : ∀ other c, .put other c ∈ firstOpening → c.Durable := fun other c member =>
    durable other c (by simp [secondOpening, member])
  have firstApart : Set.InjOn digest (insert (utf8 "1") (sources firstOpening)) := by
    refine apart.mono (Set.insert_subset_insert ?_)
    rintro other ⟨operation, member, named⟩
    exact ⟨operation, by simp [secondOpening, member], named⟩
  obtain ⟨answered, _, _, persisted, size, _⟩ := durableMap (utf8 "chunks.db") durable apart
  obtain ⟨first, _, _, _, firstSize, remembered⟩ :=
    durableMap (utf8 "chunks.db") firstDurable firstApart
  obtain ⟨same, sameSize⟩ := remembered (by simp [firstOpening])
  exact ⟨durable, apart, answered.trans rfl, persisted.trans (by decide), size.trans (by decide),
    same.trans (first.trans rfl), sameSize.trans (firstSize.trans (by decide))⟩

end Store
end ExprMachine
