import ExprMachine.Proofs.Store.Durability
import ExprMachine.Proofs.Store.Faithful

/-! Calls on one store side by side. Each access to the index and each to the file is one step, and
the steps of different calls may come in any order. Index and file agree in the end, whatever the
order, exactly when all chunks that can meet under one hash are the same. -/
namespace ExprMachine.Store

open Text (utf8)

inductive Call where
  | get (source : Bytes)
  | put (source : Bytes) (c : Chunk)

inductive Work where
  | lookUp (source : Bytes)
  | query (source : Bytes)
  | remember (source : Bytes) (c : Chunk)
  | found (answer : Except StoreError (Option Chunk))
  | record (source : Bytes) (c : Chunk)
  | save (source : Bytes) (c : Chunk)
  | stored (answer : Except StoreError Unit)

def Call.begin : Call → Work
  | get source => .lookUp source
  | put source c => .record source c

namespace Work

def step (s : Store) : Work → Work × Store
  | lookUp source =>
    match s.index[digest source]?, s.disk with
    | some c, _ => (found (.ok (some c)), s)
    | none, none => (found (.ok none), s)
    | none, some _ => (query source, s)
  | query source =>
    match s.disk with
    | none => (found (.ok none), s)
    | some disk =>
      match Disk.find disk (digest source) with
      | .ok (some c) => (remember source c, s)
      | other => (found other, s)
  | remember source c =>
    (found (.ok (some c)), { s with index := s.index.insert (digest source) c })
  | record source c =>
    let next := if s.disk.isSome then save source c else stored (.ok ())
    (next, { s with index := s.index.insert (digest source) c })
  | save source c =>
    match s.disk with
    | none => (stored (.ok ()), s)
    | some disk =>
      if disk.isOpen then
        let table := disk.table.insert (digest source) c.row
        (stored (.ok ()), { s with disk := some { disk with table := table } })
      else (stored (.error .saving), s)
  | answered => (answered, s)

def left : Work → Nat
  | lookUp _ => 3
  | query _ | record _ _ => 2
  | remember _ _ | save _ _ => 1
  | found _ | stored _ => 0

theorem stepLeft (s : Store) (w : Work) : (w.step s).1.left ≤ w.left - 1 := by
  cases w <;> simp only [step] <;> (repeat' split) <;> simp [left]

theorem getAlone (s : Store) (source : Bytes) :
    (fun (w, s) => step s w)^[3] (lookUp source, s) =
      (found (s.get source).1, (s.get source).2) := by
  cases held : s.index[digest source]? with
  | some c => simp [step, Store.get, held]
  | none =>
    cases opened : s.disk with
    | none => simp [step, Store.get, held, opened]
    | some disk =>
      rcases read : Disk.find disk (digest source) with e | _ | c <;>
        simp [step, Store.get, held, opened, read]

theorem putAlone (s : Store) (source : Bytes) (c : Chunk) :
    (fun (w, s) => step s w)^[2] (record source c, s) =
      (stored (s.put source c).1, (s.put source c).2) := by
  cases opened : s.disk with
  | none => simp [step, Store.put, opened]
  | some disk => by_cases live : disk.isOpen = true <;> simp [step, Store.put, opened, live, Chunk.row]

end Work

structure Shared (n : Nat) where
  store : Store
  works : Fin n → Work

variable {n : Nat}

def begun (path : Bytes) (table : Table) (calls : Fin n → Call) : Shared n :=
  ⟨openOn path table, fun i => (calls i).begin⟩

namespace Shared

def advance (s : Shared n) (i : Fin n) : Shared n :=
  let next := (s.works i).step s.store
  ⟨next.2, Function.update s.works i next.1⟩

def interleave (s : Shared n) (schedule : List (Fin n)) : Shared n := schedule.foldl advance s

theorem advanceIs {s : Shared n} {i : Fin n} {w : Work} (work : s.works i = w) (w' : Work)
    (store : Store) (step : w.step s.store = (w', store)) :
    s.advance i = ⟨store, Function.update s.works i w'⟩ := by
  simp [advance, work, step]

def Finished (s : Shared n) : Prop := ∀ i, (s.works i).left = 0

def Agrees (s : Shared n) : Prop :=
  ∀ (key : Digest) (c : Chunk) (disk : Disk) (row : Row), s.store.index[key]? = some c →
    s.store.disk = some disk → disk.table[key]? = some row → Chunk.decode row.data = .ok c.normalized

/-- Call `i` is about to replace in the index what a finished call has put there, by another chunk it
has read from the file. -/
def Overwrites (calls : Fin n → Call) (s : Shared n) (i : Fin n) : Prop :=
  ∃ source c, s.works i = .remember source c ∧
    ∃ j other d answer, calls j = .put other d ∧ digest other = digest source ∧
      s.works j = .stored answer ∧ s.store.index[digest source]? = some d ∧
      c.normalized ≠ d.normalized

end Shared

def Survives (c : Chunk) : Prop := readRow c.row = .ok (some c.normalized)

def WrittenByPut (table : Table) : Prop :=
  ∀ (key : Digest) (row : Row), table[key]? = some row → ∃ c, Survives c ∧ row = c.row

theorem Survives.decoded {c : Chunk} (survives : Survives c) :
    Chunk.decode c.row.data = .ok c.normalized := rowRead survives

theorem normalizedTwice (c : Chunk) : c.normalized.normalized = c.normalized := by
  have value : ∀ v : Value, v.normalized.normalized = v.normalized := by
    intro v
    cases v with
    | number x =>
      by_cases nan : x.isNaN = true
      · simp [Value.normalized, Number.normalized, nan, show Number.canonicalNaN.isNaN = true by decide]
      · simp [Value.normalized, Number.normalized, nan]
    | _ => rfl
  simp [Chunk.normalized, Function.comp_def, value]

/-- Calls under one hash put the same chunk, and if there is also a call that gets, then it is the
chunk that is already there. -/
structure Compatible (table : Table) (calls : Fin n → Call) : Prop where
  puts : ∀ i j a b c d, calls i = .put a c → calls j = .put b d → digest a = digest b →
    c.normalized = d.normalized
  gets : ∀ i j a b d row, calls i = .get a → calls j = .put b d → digest a = digest b →
    table[digest b]? = some row → Chunk.decode row.data = .ok d.normalized

variable {path : Bytes} {table now : Table} {calls : Fin n → Call} {s : Shared n} {i : Fin n}
  {source : Bytes} {c : Chunk} {key : Digest} {x : Chunk}

inductive Origin (table : Table) (calls : Fin n → Call) (key : Digest) (x : Chunk) : Prop where
  | put {i : Fin n} {source : Bytes} {c : Chunk} (call : calls i = .put source c)
      (hash : digest source = key) (same : c.normalized = x)
  | row {i : Fin n} {source : Bytes} {row : Row} (call : calls i = .get source)
      (hash : digest source = key) (listed : table[key]? = some row)
      (decoded : Chunk.decode row.data = .ok x)

theorem Compatible.only (compatible : Compatible table calls) (call : calls i = .put source c)
    (origin : Origin table calls (digest source) x) : x = c.normalized := by
  cases origin with
  | put call' hash same => exact same.symm.trans (compatible.puts _ _ _ _ _ _ call' call hash)
  | row call' hash listed decoded =>
    have expected := compatible.gets _ _ _ _ _ _ call' call hash listed
    exact Except.ok.inj (decoded.symm.trans expected)

inductive Work.Of : Call → Work → Prop where
  | lookUp (source : Bytes) : Of (.get source) (.lookUp source)
  | query (source : Bytes) : Of (.get source) (.query source)
  | remember (source : Bytes) (c : Chunk) : Of (.get source) (.remember source c)
  | found (source : Bytes) (answer : Except StoreError (Option Chunk)) :
      Of (.get source) (.found answer)
  | record (source : Bytes) (c : Chunk) : Of (.put source c) (.record source c)
  | save (source : Bytes) (c : Chunk) : Of (.put source c) (.save source c)
  | stored (source : Bytes) (c : Chunk) (answer : Except StoreError Unit) :
      Of (.put source c) (.stored answer)

structure Tied (path : Bytes) (table : Table) (calls : Fin n → Call) (now : Table)
    (s : Shared n) : Prop where
  opened : s.store.disk = some ⟨path, now, true⟩
  own : ∀ i, Work.Of (calls i) (s.works i)
  index : ∀ (key : Digest) c, s.store.index[key]? = some c → Origin table calls key c.normalized
  held : ∀ i source c, s.works i = .remember source c →
    Origin table calls (digest source) c.normalized
  rows : ∀ (key : Digest) row, now[key]? = some row →
    (table[key]? = some row ∧ ∀ i source c answer, calls i = .put source c → digest source = key →
      s.works i ≠ .stored answer) ∨
    ∃ i source c, calls i = .put source c ∧ digest source = key ∧ row = c.row

theorem begunTied : Tied path table calls table (begun path table calls) where
  opened := rfl
  own i := by
    simp only [begun]
    cases calls i
    · exact .lookUp _
    · exact .record _ _
  index := by simp [begun, openOn]
  held i source c works := by
    simp only [begun] at works
    cases call : calls i <;> simp [call, Call.begin] at works
  rows key row listed := by
    refine .inl ⟨listed, fun i source c answer call _ => ?_⟩
    simp [begun, call, Call.begin]

namespace Tied

open Shared (advanceIs)

theorem turn {w : Work} (tied : Tied path table calls now s) (own : Work.Of (calls i) w)
    (held : ∀ source c, w = .remember source c → Origin table calls (digest source) c.normalized)
    (unsaved : ∀ answer, w ≠ .stored answer) :
    Tied path table calls now ⟨s.store, Function.update s.works i w⟩ := by
  refine { tied with own := fun j => ?_, held := fun j source c works => ?_,
                     rows := fun key row listed => (tied.rows key row listed).imp_left ?_ }
  · rcases eq_or_ne j i with rfl | other
    · simpa using own
    · simpa [other] using tied.own j
  · rcases eq_or_ne j i with rfl | other
    · exact held source c (by simpa using works)
    · exact tied.held j source c (by simpa [other] using works)
  · rintro ⟨first, unfinished⟩
    refine ⟨first, fun j source c answer call hash => ?_⟩
    rcases eq_or_ne j i with rfl | other
    · simpa using unsaved answer
    · simpa [other] using unfinished j source c answer call hash

theorem insert (tied : Tied path table calls now s) (origin : Origin table calls key c.normalized) :
    Tied path table calls now ⟨{ s.store with index := s.store.index.insert key c }, s.works⟩ := by
  refine { tied with index := fun other d entry => ?_ }
  rw [Std.HashMap.getElem?_insert] at entry
  split at entry
  · next same =>
    rw [← beq_iff_eq.mp same, ← Option.some.inj entry]
    exact origin
  · exact tied.index other d entry

theorem save (tied : Tied path table calls now s) (call : calls i = .put source c) :
    Tied path table calls (now.insert (digest source) c.row)
      ⟨{ s.store with disk := some ⟨path, now.insert (digest source) c.row, true⟩ },
        Function.update s.works i (.stored (.ok ()))⟩ where
  opened := rfl
  own j := by
    rcases eq_or_ne j i with rfl | other
    · simpa [call] using Work.Of.stored source c (.ok ())
    · simpa [other] using tied.own j
  index := tied.index
  held j source c works := by
    rcases eq_or_ne j i with rfl | other
    · simp at works
    · exact tied.held j source c (by simpa [other] using works)
  rows key row listed := by
    rw [Std.HashMap.getElem?_insert] at listed
    split at listed
    · next same => exact .inr ⟨i, source, c, call, beq_iff_eq.mp same, (Option.some.inj listed).symm⟩
    · next differ =>
      refine (tied.rows key row listed).imp_left fun ⟨first, unfinished⟩ => ⟨first, ?_⟩
      intro j other d answer call' hash
      rcases eq_or_ne j i with rfl | apart
      · cases call.symm.trans call'
        simp [hash] at differ
      · simpa [apart] using unfinished j other d answer call' hash

theorem read (tied : Tied path table calls now s) (written : WrittenByPut table)
    (survive : ∀ i source c, calls i = .put source c → Survives c) (call : calls i = .get source)
    (found : Disk.find ⟨path, now, true⟩ (digest source) = .ok (some x)) :
    Origin table calls (digest source) x.normalized := by
  obtain ⟨row, listed, decoded⟩ := foundOnDisk found
  rcases tied.rows _ row listed with ⟨first, _⟩ | ⟨j, other, d, call', hash, rfl⟩
  · obtain ⟨c, survives, rfl⟩ := written _ row first
    cases Except.ok.inj (decoded.symm.trans survives.decoded)
    rw [normalizedTwice]
    exact .row call rfl first decoded
  · cases Except.ok.inj (decoded.symm.trans (survive j other d call').decoded)
    exact .put call' hash (normalizedTwice d).symm

theorem advance (tied : Tied path table calls now s) (written : WrittenByPut table)
    (survive : ∀ i source c, calls i = .put source c → Survives c) (i : Fin n) :
    ∃ now', Tied path table calls now' (s.advance i) := by
  have own := tied.own i
  generalize call : calls i = request at own
  generalize work : s.works i = w at own
  cases own with
  | lookUp source =>
    cases held : s.store.index[digest source]? with
    | none =>
      rw [advanceIs work (.query source) s.store (by simp [Work.step, held, tied.opened])]
      exact ⟨now, tied.turn (call ▸ .query source) (by simp) (by simp)⟩
    | some c =>
      rw [advanceIs work (.found (.ok (some c))) s.store (by simp [Work.step, held])]
      exact ⟨now, tied.turn (call ▸ .found source _) (by simp) (by simp)⟩
  | query source =>
    rcases result : Disk.find ⟨path, now, true⟩ (digest source) with e | _ | x
    · rw [advanceIs work (.found (.error e)) s.store (by simp [Work.step, tied.opened, result])]
      exact ⟨now, tied.turn (call ▸ .found source _) (by simp) (by simp)⟩
    · rw [advanceIs work (.found (.ok none)) s.store (by simp [Work.step, tied.opened, result])]
      exact ⟨now, tied.turn (call ▸ .found source _) (by simp) (by simp)⟩
    · have origin := tied.read written survive call result
      rw [advanceIs work (.remember source x) s.store (by simp [Work.step, tied.opened, result])]
      refine ⟨now, tied.turn (call ▸ .remember source x) ?_ (by simp)⟩
      rintro _ _ ⟨⟩
      exact origin
  | remember source c =>
    rw [advanceIs work _ _ rfl]
    have remembered := tied.insert (tied.held i source c work)
    exact ⟨now, remembered.turn (call ▸ .found source _) (by simp) (by simp)⟩
  | record source c =>
    rw [advanceIs work (.save source c) { s.store with index := s.store.index.insert (digest source) c }
      (by simp [Work.step, tied.opened])]
    have recorded := tied.insert (.put call rfl rfl)
    exact ⟨now, recorded.turn (call ▸ .save source c) (by simp) (by simp)⟩
  | save source c =>
    rw [advanceIs work (.stored (.ok ()))
      { s.store with disk := some ⟨path, now.insert (digest source) c.row, true⟩ }
      (by simp [Work.step, tied.opened])]
    exact ⟨_, tied.save call⟩
  | found | stored =>
    rw [advanceIs work _ _ rfl, ← work, Function.update_eq_self]
    exact ⟨now, tied⟩

theorem interleave (tied : Tied path table calls now s) (written : WrittenByPut table)
    (survive : ∀ i source c, calls i = .put source c → Survives c) (schedule : List (Fin n)) :
    ∃ now', Tied path table calls now' (s.interleave schedule) := by
  induction schedule generalizing s now with
  | nil => exact ⟨now, tied⟩
  | cons i rest ih =>
    obtain ⟨now', tied'⟩ := tied.advance written survive i
    exact ih tied'

theorem keepsIndex (tied : Tied path table calls now s) (compatible : Compatible table calls) :
    ¬ s.Overwrites calls i := by
  rintro ⟨source, c, works, j, other, d, answer, call, hash, _, _, differ⟩
  exact differ (compatible.only call (hash ▸ tied.held i source c works))

theorem agrees (tied : Tied path table calls now s) (compatible : Compatible table calls)
    (survive : ∀ i source c, calls i = .put source c → Survives c) (finished : s.Finished) :
    s.Agrees := by
  intro key c disk row entry opened listed
  cases Option.some.inj (tied.opened.symm.trans opened)
  have origin := tied.index key c entry
  rcases tied.rows key row listed with ⟨first, unfinished⟩ | ⟨j, other, d, call, rfl, rfl⟩
  · cases origin with
    | @put i source d call hash _ =>
      have own := tied.own i
      have done := finished i
      generalize work : s.works i = w at own done
      rw [call] at own
      -- a put that has finished has replaced the first row
      cases own with
      | record | save => simp [Work.left] at done
      | stored _ _ answer => exact absurd work (unfinished i source d answer call hash)
    | row _ _ first' decoded =>
      cases Option.some.inj (first.symm.trans first')
      exact decoded
  · rw [compatible.only call origin]
    exact (survive j other d call).decoded

end Tied

namespace Shared

theorem interleaveLeft (s : Shared n) (schedule : List (Fin n)) (k : Fin n) :
    ((s.interleave schedule).works k).left ≤ (s.works k).left - schedule.count k := by
  induction schedule generalizing s with
  | nil => simp [interleave]
  | cons i rest ih =>
    have later : ((s.interleave (i :: rest)).works k).left ≤
      ((s.advance i).works k).left - rest.count k := ih (s.advance i)
    rcases eq_or_ne i k with rfl | other
    · have now := Work.stepLeft s.store (s.works i)
      have advanced : (s.advance i).works i = ((s.works i).step s.store).1 := by simp [advance]
      rw [advanced] at later
      rw [List.count_cons_self]
      omega
    · have unchanged : (s.advance i).works k = s.works k := by simp [advance, other.symm]
      rwa [List.count_cons_of_ne other, ← unchanged]

theorem interleaveOther {schedule : List (Fin n)} {k : Fin n} (apart : k ∉ schedule) (s : Shared n) :
    (s.interleave schedule).works k = s.works k := by
  induction schedule generalizing s with
  | nil => rfl
  | cons i rest ih =>
    obtain ⟨other, apart'⟩ := List.ne_and_not_mem_of_not_mem_cons apart
    have unchanged : (s.advance i).works k = s.works k := by simp [advance, other]
    exact (ih apart' (s.advance i)).trans unchanged

theorem crossed {i j : Fin n} {a b : Bytes} {c d : Chunk} (differ : i ≠ j)
    (opened : s.store.disk = some ⟨path, now, true⟩) (first : s.works i = .record a c)
    (second : s.works j = .record b d) (hash : digest a = digest b) :
    (s.interleave [i, j, j, i]).store =
      ⟨(s.store.index.insert (digest b) c).insert (digest b) d,
        some ⟨path, (now.insert (digest b) d.row).insert (digest b) c.row, true⟩⟩ := by
  simp [interleave, advance, Work.step, first, second, opened, differ, differ.symm, hash]

theorem crossedDisagree {i j : Fin n} {a b : Bytes} {c d : Chunk} (differ : i ≠ j)
    (opened : s.store.disk = some ⟨path, now, true⟩) (first : s.works i = .record a c)
    (second : s.works j = .record b d) (hash : digest a = digest b) (survives : Survives c)
    (conflict : c.normalized ≠ d.normalized) : ¬ (s.interleave [i, j, j, i]).Agrees := by
  intro agrees
  have left := crossed differ opened first second hash
  have decoded := agrees (digest b) d ⟨path, _, true⟩ c.row (by simp [left]) (by rw [left]) (by simp)
  exact conflict (Except.ok.inj (survives.decoded.symm.trans decoded))

theorem outdated {i j : Fin n} {a b : Bytes} {c d : Chunk} (differ : i ≠ j)
    (opened : s.store.disk = some ⟨path, now, true⟩) (first : s.works i = .lookUp a)
    (second : s.works j = .record b d) (hash : digest a = digest b)
    (unknown : s.store.index[digest b]? = none)
    (listed : Disk.find ⟨path, now, true⟩ (digest b) = .ok (some c)) (call : calls j = .put b d)
    (conflict : c.normalized ≠ d.normalized) :
    (s.interleave [i, i, j, j]).Overwrites calls i := by
  refine ⟨a, c, ?_, j, b, d, .ok (), call, hash.symm, ?_, ?_, conflict⟩ <;>
    simp [interleave, advance, Work.step, first, second, opened, differ, differ.symm, hash, unknown,
      listed]

end Shared

theorem beginLeft (call : Call) : call.begin.left ≤ 3 := by
  cases call <;> simp [Call.begin, Work.left]

def others (i j : Fin n) : List (Fin n) :=
  let each := (List.finRange n).filter fun k => k ≠ i ∧ k ≠ j
  each ++ each ++ each

theorem othersCount {i j k : Fin n} (notI : k ≠ i) (notJ : k ≠ j) : 3 ≤ (others i j).count k := by
  have once : 0 < ((List.finRange n).filter fun k => k ≠ i ∧ k ≠ j).count k :=
    List.count_pos_iff.mpr (by simp [notI, notJ])
  simp only [others, List.count_append]
  omega

theorem putLeft (call : calls i = .put source c) : ((begun path table calls).works i).left = 2 := by
  simp [begun, call, Call.begin, Work.left]

theorem crossedFinished {i j : Fin n} {a b : Bytes} {c d : Chunk} (first : calls i = .put a c)
    (second : calls j = .put b d) :
    ((begun path table calls).interleave (others i j ++ [i, j, j, i])).Finished := by
  intro k
  have bound := Shared.interleaveLeft (begun path table calls) (others i j ++ [i, j, j, i]) k
  rw [List.count_append] at bound
  rcases eq_or_ne k i with rfl | notI
  · have turns : 2 ≤ [k, j, j, k].count k := by grind
    rw [putLeft first] at bound
    omega
  rcases eq_or_ne k j with rfl | notJ
  · have turns : 2 ≤ [i, k, k, i].count k := by grind
    rw [putLeft second] at bound
    omega
  have turns := othersCount notI notJ
  have most : ((begun path table calls).works k).left ≤ 3 := beginLeft (calls k)
  omega

theorem putsSame {i j : Fin n} {a b : Bytes} {c d : Chunk} (written : WrittenByPut table)
    (survive : ∀ i source c, calls i = .put source c → Survives c)
    (safe : ∀ schedule, ((begun path table calls).interleave schedule).Finished →
      ((begun path table calls).interleave schedule).Agrees)
    (first : calls i = .put a c) (second : calls j = .put b d) (hash : digest a = digest b) :
    c.normalized = d.normalized := by
  refine Classical.byContradiction fun conflict => ?_
  have differ : i ≠ j := by
    rintro rfl
    cases first.symm.trans second
    exact conflict rfl
  -- the others run to their ends first, so that nothing comes after the two have crossed
  obtain ⟨now, tied⟩ := begunTied.interleave written survive (others i j)
  have works : ∀ k, k ∉ others i j →
      ((begun path table calls).interleave (others i j)).works k = (calls k).begin :=
    fun k apart => Shared.interleaveOther apart _
  have worksI := works i (by simp [others])
  have worksJ := works j (by simp [others])
  rw [first] at worksI
  rw [second] at worksJ
  have agrees := safe _ (crossedFinished first second)
  rw [Shared.interleave, List.foldl_append] at agrees
  exact Shared.crossedDisagree differ tied.opened worksI worksJ hash (survive i a c first) conflict
    agrees

theorem rowSame {i j : Fin n} {a b : Bytes} {d : Chunk} {row : Row} (written : WrittenByPut table)
    (safe : ∀ schedule i, ¬ ((begun path table calls).interleave schedule).Overwrites calls i)
    (first : calls i = .get a) (second : calls j = .put b d) (hash : digest a = digest b)
    (listed : table[digest b]? = some row) : Chunk.decode row.data = .ok d.normalized := by
  obtain ⟨c, survives, rfl⟩ := written _ row listed
  rw [survives.decoded]
  refine congrArg _ (Classical.byContradiction fun conflict => ?_)
  have differ : i ≠ j := by
    rintro rfl
    simp [first] at second
  have found : Disk.find ⟨path, table, true⟩ (digest b) = .ok (some c.normalized) := by
    simp only [Disk.find, if_true, listed]
    exact survives
  have worksI : (begun path table calls).works i = .lookUp a := by simp [begun, first, Call.begin]
  have worksJ : (begun path table calls).works j = .record b d := by simp [begun, second, Call.begin]
  have stale := Shared.outdated differ rfl worksI worksJ hash (by simp [begun, openOn]) found second
    (by rwa [normalizedTwice])
  exact safe _ i stale

theorem safeIffCompatible (written : WrittenByPut table)
    (survive : ∀ i source c, calls i = .put source c → Survives c) :
    (∀ schedule, let s := (begun path table calls).interleave schedule
      (∀ i, ¬ s.Overwrites calls i) ∧ (s.Finished → s.Agrees)) ↔ Compatible table calls := by
  refine ⟨fun safe => ⟨?_, ?_⟩, fun compatible schedule => ?_⟩
  · intro i j a b c d
    exact putsSame written survive fun schedule => (safe schedule).2
  · intro i j a b d row
    exact rowSame written fun schedule => (safe schedule).1
  · obtain ⟨now, tied⟩ := begunTied.interleave written survive schedule
    exact ⟨fun i => tied.keepsIndex compatible, tied.agrees compatible survive⟩

def repeatedPut (i : Fin 3) : Call :=
  if i = 0 then .get (utf8 "1") else .put (utf8 "1") (bare 0x01)

def crossedPuts (i : Fin 2) : Call :=
  .put (utf8 "1") (bare (if i = 0 then 0x01 else 0x02))

theorem oneRow {row row' : Row} {other : Digest}
    (listed : ((∅ : Table).insert key row)[other]? = some row') : row' = row := by
  rw [Std.HashMap.getElem?_insert] at listed
  split at listed
  · exact (Option.some.inj listed).symm
  · simp at listed

theorem safeIffCompatibleRepeatedPut :
    let table : Table := (∅ : Table).insert (digest (utf8 "1")) (bare 0x01).row
    WrittenByPut table ∧ (∀ i source c, repeatedPut i = .put source c → Survives c) ∧
    ∀ schedule, let s := (begun (utf8 "chunks.db") table repeatedPut).interleave schedule
      (∀ i, ¬ s.Overwrites repeatedPut i) ∧ (s.Finished → s.Agrees) := by
  intro table
  have survives : Survives (bare 0x01) := (bareDurable (by decide)).readBack
  have written : WrittenByPut table := fun _ _ listed => ⟨_, survives, oneRow listed⟩
  have same : ∀ i source c, repeatedPut i = .put source c → c = bare 0x01 := by
    intro i source c call
    unfold repeatedPut at call
    split at call
    · contradiction
    · cases call
      rfl
  have survive : ∀ i source c, repeatedPut i = .put source c → Survives c :=
    fun i source c call => same i source c call ▸ survives
  have compatible : Compatible table repeatedPut := by
    refine ⟨fun i j a b c d callI callJ _ => ?_, fun i j a b d row _ callJ _ listed => ?_⟩
    · rw [same i a c callI, same j b d callJ]
    · rw [oneRow listed, same j b d callJ]
      exact survives.decoded
  exact ⟨written, survive, (safeIffCompatible written survive).mpr compatible⟩

theorem crossedPutsDisagree :
    (∀ i source c, crossedPuts i = .put source c → Survives c) ∧ WrittenByPut ∅ ∧
    let s := (begun (utf8 "chunks.db") ∅ crossedPuts).interleave [0, 1, 1, 0]
    s.Finished ∧ ¬ s.Agrees := by
  have finished : ((begun (utf8 "chunks.db") ∅ crossedPuts).interleave
      (others 0 1 ++ [0, 1, 1, 0])).Finished := crossedFinished rfl rfl
  refine ⟨fun i source c call => ?_, by simp [WrittenByPut], finished, ?_⟩
  · cases call
    split
    · exact (bareDurable (by decide)).readBack
    · exact (bareDurable (by decide)).readBack
  · exact Shared.crossedDisagree (by decide) rfl rfl rfl rfl (bareDurable (by decide)).readBack
      (by decide)

end ExprMachine.Store
