import ExprMachine.Proofs.Expression.Extent
import ExprMachine.Store

/-! A store that only compiled chunks are put into is faithful: every entry that can be read is the
chunk of its source. Closing it, opening its file anew and changes from outside that make no row
readable keep it so. -/
namespace ExprMachine

structure Source where
  bytes : Bytes
  addressable : bytes.length < 2 ^ 63

def Compiled (used : List Source) (key : Digest) (c : Chunk) : Prop :=
  ∃ source ∈ used, digest source.bytes = key ∧ compile source.bytes = .ok c

def Apart (used : List Source) : Prop :=
  ∀ a ∈ used, ∀ b ∈ used, digest a.bytes = digest b.bytes → a.bytes = b.bytes

instance (used : List Source) : Decidable (Apart used) :=
  inferInstanceAs (Decidable (∀ a ∈ used, ∀ b ∈ used,
    digest a.bytes = digest b.bytes → a.bytes = b.bytes))

theorem compiledApart {used : List Source} {source : Source} {c : Chunk} (apart : Apart used)
    (inUse : source ∈ used) (compiled : Compiled used (digest source.bytes) c) :
    compile source.bytes = .ok c := by
  obtain ⟨other, otherInUse, sameHash, ok⟩ := compiled
  rwa [apart other otherInUse source inUse sameHash] at ok

namespace Store

structure Faithful (used : List Source) (s : Store) : Prop where
  index : ∀ key c, s.index[key]? = some c → Compiled used key c
  rows : ∀ disk key row c, s.disk = some disk → disk.table[key]? = some row →
    Chunk.decode row.data = .ok c → Compiled used key c

variable {used : List Source} {s : Store} {source : Source} {c : Chunk}

theorem insertIndex {key : Digest} (faithful : s.Faithful used) (compiled : Compiled used key c) :
    Faithful used { s with index := s.index.insert key c } := by
  refine ⟨fun other found held => ?_, faithful.rows⟩
  rw [Std.HashMap.getElem?_insert] at held
  split at held
  · next same =>
    rw [← beq_iff_eq.mp same, ← Option.some.inj held]
    exact compiled
  · exact faithful.index other found held

theorem rowRead {row : Row} (ok : readRow row = .ok (some c)) : Chunk.decode row.data = .ok c := by
  unfold readRow at ok
  split at ok
  · contradiction
  split at ok
  · simp at ok
  split at ok
  · next decoded =>
    cases Option.some.inj (Except.ok.inj ok)
    exact decoded
  · contradiction

theorem foundOnDisk {disk : Disk} {key : Digest} (ok : Disk.find disk key = .ok (some c)) :
    ∃ row, disk.table[key]? = some row ∧ Chunk.decode row.data = .ok c := by
  unfold Disk.find at ok
  split at ok
  · split at ok
    · next row held => exact ⟨row, held, rowRead ok⟩
    · simp at ok
  · contradiction

theorem getCases (s : Store) (source : Bytes) :
    (∃ c, s.index[digest source]? = some c ∧ s.get source = (.ok (some c), s)) ∨
    (∃ disk c, s.disk = some disk ∧ Disk.find disk (digest source) = .ok (some c) ∧
      s.get source = (.ok (some c), { s with index := s.index.insert (digest source) c })) ∨
    ∃ missing, (∀ c, missing ≠ .ok (some c)) ∧ s.get source = (missing, s) := by
  cases held : s.index[digest source]? with
  | some c => exact .inl ⟨c, rfl, by simp [get, held]⟩
  | none =>
    cases opened : s.disk with
    | none => exact .inr (.inr ⟨.ok none, by simp, by simp [get, held, opened]⟩)
    | some disk =>
      cases found : Disk.find disk (digest source) with
      | error e => exact .inr (.inr ⟨.error e, by simp, by simp [get, held, opened, found]⟩)
      | ok chunk =>
        cases chunk with
        | none => exact .inr (.inr ⟨.ok none, by simp, by simp [get, held, opened, found]⟩)
        | some c => exact .inr (.inl ⟨disk, c, rfl, found, by simp [get, held, opened, found]⟩)

theorem getFaithful (faithful : s.Faithful used) (source : Bytes) :
    (s.get source).2.Faithful used ∧
      ∀ c, (s.get source).1 = .ok (some c) → Compiled used (digest source) c := by
  rcases s.getCases source with ⟨c, held, same⟩ | ⟨disk, c, opened, found, same⟩ |
    ⟨missing, none, same⟩
  · rw [same]
    refine ⟨faithful, fun c' ok => ?_⟩
    cases Option.some.inj (Except.ok.inj ok)
    exact faithful.index _ c held
  · obtain ⟨row, listed, decoded⟩ := foundOnDisk found
    have compiled := faithful.rows disk _ row c opened listed decoded
    rw [same]
    refine ⟨insertIndex faithful compiled, fun c' ok => ?_⟩
    cases Option.some.inj (Except.ok.inj ok)
    exact compiled
  · rw [same]
    exact ⟨faithful, fun c ok => absurd ok (none c)⟩

theorem insertRow {disk : Disk} {key : Digest} (row : Row) (faithful : s.Faithful used)
    (opened : s.disk = some disk)
    (readable : ∀ c, Chunk.decode row.data = .ok c → Compiled used key c) :
    Faithful used { s with disk := some { disk with table := disk.table.insert key row } } := by
  refine ⟨faithful.index, fun disk' other found c same held decoded => ?_⟩
  cases Option.some.inj same
  rw [Std.HashMap.getElem?_insert] at held
  split at held
  · next hit =>
    rw [← beq_iff_eq.mp hit]
    rw [← Option.some.inj held] at decoded
    exact readable c decoded
  · exact faithful.rows disk other found c opened held decoded

theorem eraseRow {disk : Disk} (key : Digest) (faithful : s.Faithful used)
    (opened : s.disk = some disk) :
    Faithful used { s with disk := some { disk with table := disk.table.erase key } } := by
  refine ⟨faithful.index, fun disk' other found c same held decoded => ?_⟩
  cases Option.some.inj same
  rw [Std.HashMap.getElem?_erase] at held
  split at held
  · contradiction
  · exact faithful.rows disk other found c opened held decoded

theorem putFaithful (faithful : s.Faithful used) (inUse : source ∈ used)
    (ok : compile source.bytes = .ok c) : (s.put source.bytes c).2.Faithful used := by
  have compiled : Compiled used (digest source.bytes) c := ⟨source, inUse, rfl, ok⟩
  have indexed := insertIndex faithful compiled
  cases opened : s.disk with
  | none => simpa [put, opened] using indexed
  | some disk =>
    by_cases live : disk.isOpen = true
    · -- a chunk too large to be read back is written all the same
      have readable : ∀ c', Chunk.decode c.encode = .ok c' →
          Compiled used (digest source.bytes) c' := by
        intro c' decoded
        rw [Compilation.storedChunk ok source.addressable decoded]
        exact compiled
      simpa [put, opened, live] using insertRow ⟨c.version.toNat, c.encode⟩ indexed opened readable
    · simpa [put, opened, live] using indexed

theorem closeFaithful (faithful : s.Faithful used) : s.close.Faithful used := by
  refine ⟨faithful.index, fun disk key row c closed held decoded => ?_⟩
  obtain ⟨opened, same, rfl⟩ := Option.map_eq_some_iff.mp closed
  exact faithful.rows opened key row c same held decoded

theorem emptyFaithful (path : Bytes) : (memory.Faithful used) ∧ (openOn path ∅).Faithful used := by
  refine ⟨⟨by simp [memory], by simp [memory]⟩, ⟨by simp [openOn], ?_⟩⟩
  intro disk key row c same held
  cases Option.some.inj same
  simp at held

theorem reopenFaithful (faithful : s.Faithful used) : s.reopen.Faithful used := by
  unfold reopen
  split
  · exact (emptyFaithful []).1
  · next disk opened =>
    refine ⟨by simp [openOn], fun disk' key row c same held decoded => ?_⟩
    cases Option.some.inj same
    exact faithful.rows disk key row c opened held decoded

theorem modifyRowFaithful {f : Row → Option Row} (faithful : s.Faithful used) (source : Bytes)
    (harmless : ∀ row row', f row = some row' → ∀ c, Chunk.decode row'.data = .ok c →
      Chunk.decode row.data = .ok c) : (s.modifyRow source f).2.Faithful used := by
  cases opened : s.disk with
  | none => simpa [modifyRow, opened] using faithful
  | some disk =>
    cases held : disk.table[digest source]? with
    | none => simpa [modifyRow, opened, held] using faithful
    | some row =>
      cases changed : f row with
      | some row' =>
        have inserted := insertRow row' faithful opened fun c decoded =>
          faithful.rows disk _ row c opened held (harmless row row' changed c decoded)
        simpa [modifyRow, opened, held, changed] using inserted
      | none =>
        have erased := eraseRow (digest source) faithful opened
        simpa [modifyRow, opened, held, changed] using erased

end Store
end ExprMachine
