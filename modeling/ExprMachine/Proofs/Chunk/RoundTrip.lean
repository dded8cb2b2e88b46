import ExprMachine.Proofs.Cbor.Written

/-! What the readers make of an encoded chunk: exactly when they accept each part of it, and that
what they return is what was encoded, with every NaN made the canonical one. -/
namespace ExprMachine

namespace Cbor

section Collect

variable {α β : Type} {f : α → Option β}

theorem collectFrom {xs : List α} {start : Option (List β)} {out : List β} :
    xs.foldl (fun done item =>
      match done with
      | some results => (f item).map (· :: results)
      | none => none) start = some out ↔
    ∃ (done ys : List β), start = some done ∧ out = ys.reverse ++ done ∧ xs.map f = ys.map some := by
  induction xs generalizing start with
  | nil =>
    constructor
    · intro ok
      exact ⟨out, [], ok, rfl, rfl⟩
    · rintro ⟨done, ys, start, rfl, none⟩
      rw [List.map_eq_nil_iff.mp none.symm]
      exact start
  | cons x rest ih =>
    rw [List.foldl_cons, ih]
    constructor
    · rintro ⟨later, ys, head, rfl, mapped⟩
      cases start with
      | none => contradiction
      | some done =>
        obtain ⟨y, found, rfl⟩ := Option.map_eq_some_iff.mp head
        exact ⟨done, y :: ys, rfl, by simp, by simp [found, mapped]⟩
    · rintro ⟨done, ys, rfl, rfl, mapped⟩
      cases ys with
      | nil => simp at mapped
      | cons y others =>
        obtain ⟨head, tail⟩ := List.cons.inj mapped
        exact ⟨y :: done, others, by simp [head], by simp, tail⟩

theorem collected {xs : List α} {ys : List β} :
    collect f xs = some ys ↔ xs.map f = ys.map some := by
  refine Option.map_eq_some_iff.trans ⟨?_, fun mapped => ?_⟩
  · rintro ⟨out, folded, rfl⟩
    obtain ⟨done, zs, start, rfl, mapped⟩ := collectFrom.mp folded
    cases Option.some.inj start
    simpa using mapped
  · exact ⟨ys.reverse, collectFrom.mpr ⟨[], ys, rfl, by simp, mapped⟩, by simp⟩

theorem collectExact {γ : Type} {xs : List γ} {item : γ → α} {value : γ → β} {p : γ → Prop}
    {ys : List β} (each : ∀ x ∈ xs, ∀ y, f (item x) = some y ↔ p x ∧ y = value x) :
    collect f (xs.map item) = some ys ↔ (∀ x ∈ xs, p x) ∧ ys = xs.map value := by
  rw [collected]
  induction xs generalizing ys with
  | nil => cases ys <;> simp
  | cons x rest ih =>
    have later := fun zs => @ih zs fun z inside => each z (by simp [inside])
    cases ys with
    | nil => simp
    | cons y others =>
      rw [List.map_cons, List.map_cons, List.map_cons, List.cons_eq_cons, each x (by simp) y,
        later others, List.forall_mem_cons, List.map_cons, List.cons_eq_cons]
      exact and_and_and_comm

end Collect

def entries (items : List (Nat × Item)) : List (Item × Item) :=
  items.map fun (key, item) => (.unsigned key, item)

theorem fieldLookup (items : List (Nat × Item)) (number : Nat) :
    field (items.map fun (key, item) => (.int key, item)) number =
      (items.lookup number).getD .null := by
  unfold field
  induction items with
  | nil => rfl
  | cons p others ih =>
    obtain ⟨key, item⟩ := p
    by_cases same : key = number
    · simp [same]
    · have differs : (key : Int) ≠ number := fun equal => same (Int.ofNat_inj.mp equal)
      rw [List.map_cons, List.find?_cons_of_neg (by simpa using differs), ih,
        List.lookup_cons,
        beq_false_of_ne (Ne.symm same)]

theorem recordFields {items : List (Nat × Item)} (small : ∀ p ∈ items, p.1 < 2 ^ 63) :
    toFields (.map (entries items)) = some (items.map fun (key, item) => (.int key, item)) := by
  refine (collectExact (p := fun _ => True) fun p inside y => ?_).mpr ⟨fun _ _ => trivial, rfl⟩
  have key : Int.bmod p.1 0x1_0000_0000_0000_0000 = p.1 := by
    have := small p inside
    rw [Int.bmod_eq_of_le] <;> omega
  simp only [toKey, key, Option.map_some, Option.some.injEq, true_and]
  exact eq_comm

def FitsWord (n : Int) : Prop := -2 ^ 63 ≤ n ∧ n < 2 ^ 63

theorem signedRead {n m : Int} : toSigned (intItem n) = some m ↔ FitsWord n ∧ m = n := by
  cases n with
  | ofNat n =>
    simp only [toSigned, intItem, untagged, Option.bind_eq_bind, Option.bind_some,
      Option.ite_none_right_eq_some, FitsWord, Int.ofNat_eq_natCast, Option.some.injEq]
    omega
  | negSucc n =>
    simp only [toSigned, intItem, untagged, Option.bind_eq_bind, Option.bind_some,
      Option.ite_none_right_eq_some, FitsWord, Option.some.injEq]
    omega

theorem unsignedRead {bound n m : Nat} :
    toUnsigned bound (.unsigned n) = some m ↔ n < bound ∧ m = n := by
  simp only [toUnsigned, untagged, Option.bind_eq_bind, Option.bind_some,
    Option.ite_none_right_eq_some, Option.some.injEq, @eq_comm _ n]

theorem textRead {s t : Bytes} : toText (.text [s]) = some t ↔ Text.isValid s = true ∧ t = s := by
  simp only [toText, untagged, validText, Option.bind_eq_bind, Option.bind_some,
    Option.ite_none_right_eq_some, Option.some.injEq, List.all_cons, List.all_nil, Bool.and_true,
    List.flatten_cons, List.flatten_nil, List.append_nil, @eq_comm _ s]

end Cbor

open Cbor (Item Encodes Atom FieldsWritten FitsWord entries intItem numberItem)

namespace Instruction

def fieldItems (i : Instruction) : List (Nat × Item) :=
  (1, .unsigned i.code.toNat) :: if i.operand = 0 then [] else [(2, intItem i.operand)]

def item (i : Instruction) : Item := .map (entries i.fieldItems)

theorem fieldsWritten {R : Bytes → Item → Prop} (atoms : ∀ {w item}, Atom w item → R w item)
    {i : Instruction} (low : -2 ^ 64 ≤ i.operand) (high : i.operand < 2 ^ 64) :
    FieldsWritten R
      ((1, Cbor.writeHead 0 i.code.toNat) ::
        if i.operand = 0 then [] else [(2, Cbor.writeInt i.operand)]) i.fieldItems := by
  have code : R (Cbor.writeHead 0 i.code.toNat) (.unsigned i.code.toNat) :=
    atoms (Cbor.unsignedAtom (Nat.lt_trans i.code.toNat_lt (by decide)))
  unfold fieldItems
  split
  · exact .cons (by decide) code .nil
  · exact .cons (by decide) code (.cons (by decide) (atoms (Cbor.intAtom low high)) .nil)

theorem encodes {i : Instruction} (low : -2 ^ 64 ≤ i.operand) (high : i.operand < 2 ^ 64) :
    Encodes i.encode i.item :=
  Cbor.recordEncodes (fieldsWritten Cbor.Atom.encodes low high) (by split <;> simp)

theorem fieldItemsSmall (i : Instruction) : ∀ p ∈ i.fieldItems, p.1 < 2 ^ 63 := by
  unfold fieldItems
  split <;> simp

theorem readsBack {i j : Instruction} :
    Wire.readInstruction i.item = some j ↔ FitsWord i.operand ∧ j = i := by
  have code : ∀ n, Cbor.toUnsigned 0x100 ((i.fieldItems.lookup 1).getD .null) = some n ↔
      n = i.code.toNat := by
    intro n
    have small := i.code.toNat_lt
    exact Cbor.unsignedRead.trans (and_iff_right small)
  have operand : ∀ n, Cbor.toSigned ((i.fieldItems.lookup 2).getD .null) = some n ↔
      FitsWord i.operand ∧ n = i.operand := by
    intro n
    by_cases zero : i.operand = 0
    · have missing : (i.fieldItems.lookup 2).getD .null = .null := by
        simp only [fieldItems, zero]
        rfl
      rw [missing, zero]
      simp [Cbor.toSigned, Cbor.untagged, FitsWord, eq_comm]
    · have there : (i.fieldItems.lookup 2).getD .null = intItem i.operand := by
        simp [fieldItems, zero, List.lookup_cons]
      rw [there, Cbor.signedRead]
  simp only [Wire.readInstruction, item, Cbor.recordFields i.fieldItemsSmall, Option.bind_eq_bind,
    Option.bind_some, Cbor.fieldLookup, Option.bind_eq_some_iff, code, operand]
  have same : i.code.toNat.toUInt8 = i.code := by rw [Nat.toUInt8_eq, UInt8.ofNat_toNat]
  constructor
  · rintro ⟨_, rfl, _, ⟨fits, rfl⟩, read⟩
    rw [← Option.some.inj read, same]
    exact ⟨fits, rfl⟩
  · rintro ⟨fits, rfl⟩
    exact ⟨_, rfl, _, ⟨fits, rfl⟩, by rw [same]; rfl⟩

end Instruction

namespace Value

def fieldItems (v : Value) : List (Nat × Item) :=
  [(1, .unsigned v.kind.tag.toNat), (2, numberItem v.asNumber)] ++
    (if v.asBool then [(3, .bool true)] else []) ++
    (if v.asString.isEmpty then [] else [(4, .text [v.asString])])

def item (v : Value) : Item := .map (entries v.fieldItems)

theorem fieldItemsSmall (v : Value) : ∀ p ∈ v.fieldItems, p.1 < 2 ^ 63 := by
  unfold fieldItems
  split <;> split <;> simp

theorem fieldsWritten {R : Bytes → Item → Prop} (atoms : ∀ {w item}, Atom w item → R w item)
    {v : Value} (fits : v.asString.length < 2 ^ 64) :
    FieldsWritten R
      ([(1, Cbor.writeHead 0 v.kind.tag.toNat), (2, writeNumber v.asNumber)] ++
        (if v.asBool then [(3, [0xf5])] else []) ++
        (if v.asString.isEmpty then [] else [(4, Cbor.writeText v.asString)])) v.fieldItems := by
  have kind : R (Cbor.writeHead 0 v.kind.tag.toNat) (.unsigned v.kind.tag.toNat) :=
    atoms (Cbor.unsignedAtom (Nat.lt_trans v.kind.tag.toNat_lt (by decide)))
  have string : FieldsWritten R
      (if v.asString.isEmpty then [] else [(4, Cbor.writeText v.asString)])
      (if v.asString.isEmpty then [] else [(4, .text [v.asString])]) := by
    split
    · exact .nil
    · exact .cons (by decide) (atoms (Cbor.textAtom fits)) .nil
  refine .cons (by decide) kind (.cons (by decide) (atoms (Cbor.numberAtom v.asNumber)) ?_)
  split
  · exact .cons (by decide) (atoms Cbor.trueAtom) string
  · exact string

theorem encodes {v : Value} (fits : v.asString.length < 2 ^ 64) : Encodes v.encode v.item :=
  Cbor.recordEncodes (fieldsWritten Cbor.Atom.encodes fits) (by split <;> split <;> simp)

def raw (v : Value) : Wire.RawValue := ⟨v.kind.tag, v.asNumber.normalized, v.asBool, v.asString⟩

theorem readsBack {v : Value} {r : Wire.RawValue} :
    Wire.readValue v.item = some r ↔ Text.isValid v.asString = true ∧ r = v.raw := by
  have kind : ∀ n, Cbor.toUnsigned 0x100 ((v.fieldItems.lookup 1).getD .null) = some n ↔
      n = v.kind.tag.toNat := by
    intro n
    have small := v.kind.tag.toNat_lt
    exact Cbor.unsignedRead.trans (and_iff_right small)
  have number : Cbor.toNumber ((v.fieldItems.lookup 2).getD .null) = some v.asNumber.normalized :=
    Cbor.numberRead v.asNumber
  have bool : Cbor.toBool ((v.fieldItems.lookup 3).getD .null) = some v.asBool := by
    unfold fieldItems
    cases v.asBool <;> cases v.asString.isEmpty <;> rfl
  have string : ∀ s, Cbor.toText ((v.fieldItems.lookup 4).getD .null) = some s ↔
      Text.isValid v.asString = true ∧ s = v.asString := by
    intro s
    unfold fieldItems
    cases empty : v.asString.isEmpty
    · cases v.asBool <;> exact Cbor.textRead
    · rw [List.isEmpty_iff.mp empty]
      have nothing : Text.isValid [] = true := by simp [Text.isValid, Text.glyphs]
      cases v.asBool <;> exact Option.some_inj.trans (eq_comm.trans (and_iff_right nothing).symm)
  simp only [Wire.readValue, item, Cbor.recordFields v.fieldItemsSmall, Option.bind_eq_bind,
    Option.bind_some, Cbor.fieldLookup, Option.bind_eq_some_iff, kind, number, bool, string]
  have same : v.kind.tag.toNat.toUInt8 = v.kind.tag := by rw [Nat.toUInt8_eq, UInt8.ofNat_toNat]
  constructor
  · rintro ⟨_, rfl, _, ⟨valid, rfl⟩, read⟩
    rw [← Option.some.inj read, same]
    exact ⟨valid, rfl⟩
  · rintro ⟨valid, rfl⟩
    exact ⟨_, rfl, _, ⟨valid, rfl⟩, by rw [same]; rfl⟩

def normalized : Value → Value
  | number x => .number x.normalized
  | v => v

def IsDefined (v : Value) : Prop := v.kind.tag ≤ 3

theorem rawValue {v w : Value} : v.raw.value? = some w ↔ v.IsDefined ∧ w = v.normalized := by
  cases v with
  | undefined tag above =>
    have refused : Wire.RawValue.value? (undefined tag above).raw = none := by
      simp [Wire.RawValue.value?, raw, kind, Kind.tag, Kind.ofTag, above]
    have undefined : ¬ IsDefined (.undefined tag above) := UInt8.not_le.mpr above
    simp [refused, undefined]
  | _ =>
    refine Option.some_inj.trans (eq_comm.trans (and_iff_right ?_).symm)
    simp [IsDefined, kind, Kind.tag]

theorem valuesRead {vs done out : List Value} :
    Wire.values done (vs.map raw) = .ok out ↔
      (∀ v ∈ vs, v.IsDefined) ∧ out = done.reverse ++ vs.map normalized := by
  induction vs generalizing done with
  | nil =>
    simp [Wire.values]
    exact eq_comm
  | cons v rest ih =>
    rw [List.map_cons, Wire.values, List.forall_mem_cons]
    split
    · next w found =>
      obtain ⟨defined, rfl⟩ := rawValue.mp found
      rw [ih]
      simp [defined]
    · next refused =>
      have undefined : ¬ v.IsDefined := by
        intro defined
        have found := rawValue.mpr ⟨defined, rfl⟩
        rw [refused] at found
        contradiction
      simp [undefined]

end Value

namespace Chunk

def normalized (c : Chunk) : Chunk := { c with constants := c.constants.map Value.normalized }

theorem normalizedValid {c : Chunk} : c.normalized.IsValid ↔ c.IsValid := by
  simp [IsValid, fault?, normalized]

structure Storable (c : Chunk) : Prop where
  operands : ∀ i ∈ c.code.toList, -2 ^ 64 ≤ i.operand ∧ i.operand < 2 ^ 64
  lines : ∀ n ∈ c.lines.toList, -2 ^ 64 ≤ n ∧ n < 2 ^ 64
  strings : ∀ v ∈ c.constants.toList, v.asString.length < 2 ^ 64
  sizes : c.code.toList.length < 2 ^ 64 ∧ c.lines.toList.length < 2 ^ 64 ∧
    c.constants.toList.length < 2 ^ 64

structure MadeOfWords (c : Chunk) : Prop where
  current : c.version = currentVersion
  operands : ∀ i ∈ c.code.toList, FitsWord i.operand
  lines : ∀ n ∈ c.lines.toList, FitsWord n
  strings : ∀ v ∈ c.constants.toList, v.asString.length < 2 ^ 63

theorem MadeOfWords.storable {c : Chunk} (made : c.MadeOfWords)
    (sizes : c.code.toList.length < 2 ^ 64 ∧ c.lines.toList.length < 2 ^ 64 ∧
      c.constants.toList.length < 2 ^ 64) : c.Storable := by
  refine ⟨fun i member => ?_, fun n member => ?_, fun v member => ?_, sizes⟩
  · have fits := made.operands i member
    unfold FitsWord at fits
    omega
  · have fits := made.lines n member
    unfold FitsWord at fits
    omega
  · have fits := made.strings v member
    omega

def linesItem (c : Chunk) : Item :=
  if c.lines.isEmpty then .null else .array (c.lines.toList.map intItem)

def fieldItems (c : Chunk) : List (Nat × Item) :=
  [(1, .text [chunkMagic]), (2, .unsigned c.version.toNat),
    (3, .array (c.code.toList.map Instruction.item)), (4, c.linesItem)] ++
    if c.constants.isEmpty then [] else [(5, .array (c.constants.toList.map Value.item))]

def item (c : Chunk) : Item := .map (entries c.fieldItems)

theorem fieldItemsSmall (c : Chunk) : ∀ p ∈ c.fieldItems, p.1 < 2 ^ 63 := by
  unfold fieldItems
  split <;> simp

theorem fieldsWritten {R : Bytes → Item → Prop} (atoms : ∀ {w item}, Atom w item → R w item)
    {c : Chunk}
    (code : R (writeList (c.code.toList.map Instruction.encode))
      (.array (c.code.toList.map Instruction.item)))
    (lines : R (writeList (c.lines.toList.map Cbor.writeInt))
      (.array (c.lines.toList.map intItem)))
    (constants : R (writeList (c.constants.toList.map Value.encode))
      (.array (c.constants.toList.map Value.item))) :
    FieldsWritten R
      ([(1, Cbor.writeText chunkMagic), (2, Cbor.writeHead 0 c.version.toNat),
        (3, writeList (c.code.toList.map Instruction.encode)),
        (4, if c.lines.isEmpty then [0xf6] else writeList (c.lines.toList.map Cbor.writeInt))] ++
        if c.constants.isEmpty then []
        else [(5, writeList (c.constants.toList.map Value.encode))]) c.fieldItems := by
  have version : R (Cbor.writeHead 0 c.version.toNat) (.unsigned c.version.toNat) :=
    atoms (Cbor.unsignedAtom (Nat.lt_trans c.version.toNat_lt (by decide)))
  have table : R
      (if c.lines.isEmpty then [0xf6] else writeList (c.lines.toList.map Cbor.writeInt))
      c.linesItem := by
    unfold linesItem
    split
    · exact atoms Cbor.nullAtom
    · exact lines
  refine .cons (by decide) (atoms (Cbor.textAtom (by decide))) (.cons (by decide) version
    (.cons (by decide) code (.cons (by decide) table ?_)))
  split
  · exact .nil
  · exact .cons (by decide) constants .nil

theorem encodes {c : Chunk} (storable : c.Storable) : Encodes c.encode c.item := by
  have code := Cbor.listEncodes (fun i inside => Instruction.encodes (storable.operands i inside).1
    (storable.operands i inside).2) storable.sizes.1
  have lines := Cbor.listEncodes (fun n inside => (Cbor.intAtom (storable.lines n inside).1
    (storable.lines n inside).2).encodes) storable.sizes.2.1
  have constants := Cbor.listEncodes
    (fun v inside => Value.encodes (storable.strings v inside)) storable.sizes.2.2
  exact Cbor.recordEncodes (fieldsWritten Cbor.Atom.encodes code lines constants)
    (by split <;> split <;> simp)

def raw (c : Chunk) : Wire.RawChunk :=
  ⟨chunkMagic, c.version.toNat, c.code.toList, c.lines.toList, c.constants.toList.map Value.raw⟩

structure Readable (c : Chunk) : Prop where
  operands : ∀ i ∈ c.code.toList, FitsWord i.operand
  lines : ∀ n ∈ c.lines.toList, FitsWord n
  strings : ∀ v ∈ c.constants.toList, Text.isValid v.asString = true

theorem readsBack {c : Chunk} {raw : Wire.RawChunk} :
    Wire.readChunk c.item = some raw ↔ c.Readable ∧ raw = c.raw := by
  have magic : ∀ s, Cbor.toText ((c.fieldItems.lookup 1).getD .null) = some s ↔
      s = chunkMagic := by
    intro s
    have valid : Text.isValid chunkMagic = true := by decide +kernel
    exact Cbor.textRead.trans (and_iff_right valid)
  have version : ∀ n, Cbor.toUnsigned 0x10000 ((c.fieldItems.lookup 2).getD .null) = some n ↔
      n = c.version.toNat := by
    intro n
    have small := c.version.toNat_lt
    exact Cbor.unsignedRead.trans (and_iff_right small)
  have code : ∀ is, Cbor.toList Wire.readInstruction ((c.fieldItems.lookup 3).getD .null) =
      some is ↔ (∀ i ∈ c.code.toList, FitsWord i.operand) ∧ is = c.code.toList := by
    intro is
    have collected : Cbor.collect Wire.readInstruction (c.code.toList.map Instruction.item) =
        some is ↔ (∀ i ∈ c.code.toList, FitsWord i.operand) ∧ is = c.code.toList.map id :=
      Cbor.collectExact fun i _ j => Instruction.readsBack
    rwa [List.map_id] at collected
  have lines : ∀ ns, Cbor.toList Cbor.toSigned ((c.fieldItems.lookup 4).getD .null) = some ns ↔
      (∀ n ∈ c.lines.toList, FitsWord n) ∧ ns = c.lines.toList := by
    intro ns
    change Cbor.toList Cbor.toSigned c.linesItem = some ns ↔ _
    unfold linesItem
    split
    · next empty =>
      rw [Array.isEmpty_iff.mp empty]
      exact Option.some_inj.trans (eq_comm.trans (and_iff_right (by simp)).symm)
    · have collected : Cbor.collect Cbor.toSigned (c.lines.toList.map intItem) = some ns ↔
          (∀ n ∈ c.lines.toList, FitsWord n) ∧ ns = c.lines.toList.map id :=
        Cbor.collectExact fun n _ m => Cbor.signedRead
      rwa [List.map_id] at collected
  have constants : ∀ vs, Cbor.toList Wire.readValue ((c.fieldItems.lookup 5).getD .null) =
      some vs ↔ (∀ v ∈ c.constants.toList, Text.isValid v.asString = true) ∧
        vs = c.constants.toList.map Value.raw := by
    intro vs
    unfold fieldItems
    split
    · next empty =>
      rw [Array.isEmpty_iff.mp empty]
      exact Option.some_inj.trans (eq_comm.trans (and_iff_right (by simp)).symm)
    · exact Cbor.collectExact fun v _ r => Value.readsBack
  simp only [Wire.readChunk, item, Cbor.recordFields c.fieldItemsSmall, Option.bind_eq_bind,
    Option.bind_some, Cbor.fieldLookup, Option.bind_eq_some_iff, magic, version, code, lines,
    constants]
  constructor
  · rintro ⟨_, rfl, _, rfl, _, ⟨operands, rfl⟩, _, ⟨lines, rfl⟩, _, ⟨strings, rfl⟩, read⟩
    exact ⟨⟨operands, lines, strings⟩, (Option.some.inj read).symm⟩
  · rintro ⟨⟨operands, lines, strings⟩, rfl⟩
    exact ⟨_, rfl, _, rfl, _, ⟨operands, rfl⟩, _, ⟨lines, rfl⟩, _, ⟨strings, rfl⟩, rfl⟩

theorem decoded {data : Bytes} {c : Chunk} :
    decode data = .ok c ↔
      ∃ item raw constants, Cbor.parse data = some item ∧ Wire.readChunk item = some raw ∧
        raw.magic = chunkMagic ∧ raw.version = currentVersion.toNat ∧
        Wire.values [] raw.constants = .ok constants ∧
        c = ⟨currentVersion, raw.code.toArray, raw.lines.toArray, constants.toArray⟩ ∧
        c.IsValid := by
  constructor
  · intro ok
    unfold decode at ok
    split at ok
    · next raw found =>
      obtain ⟨item, parsed, read⟩ := Option.bind_eq_some_iff.mp found
      split at ok
      · contradiction
      next magic =>
      split at ok
      · contradiction
      next version =>
      cases read' : Wire.values [] raw.constants with
      | error e => simp [read', bind, Except.bind] at ok
      | ok constants =>
        simp only [read', bind, Except.bind] at ok
        split at ok
        · contradiction
        · next free =>
          cases Except.ok.inj ok
          exact ⟨item, raw, constants, parsed, read, Decidable.not_not.mp magic,
            Decidable.not_not.mp version, read', rfl, free⟩
    · contradiction
  · rintro ⟨item, raw, constants, parsed, read, magic, version, values, rfl, valid⟩
    have found : (Cbor.parse data).bind Wire.readChunk = some raw :=
      Option.bind_eq_some_iff.mpr ⟨item, parsed, read⟩
    have free : fault? ⟨currentVersion, raw.code.toArray, raw.lines.toArray,
      constants.toArray⟩ = none := valid
    simp [decode, found, magic, version, values, bind, Except.bind, free]

structure Loadable (c : Chunk) : Prop extends c.Readable where
  current : c.version = currentVersion
  kinds : ∀ v ∈ c.constants.toList, v.IsDefined
  valid : c.IsValid

theorem rebuilt {c : Chunk} (current : c.version = currentVersion) :
    (⟨currentVersion, c.raw.code.toArray, c.raw.lines.toArray,
      ([].reverse ++ c.constants.toList.map Value.normalized).toArray⟩ : Chunk) = c.normalized := by
  rw [normalized, current]
  simp [raw, ← Array.toList_inj]

theorem decodeItem {data : Bytes} {c c' : Chunk} (parsed : Cbor.parse data = some c.item) :
    decode data = .ok c' ↔ c.Loadable ∧ c' = c.normalized := by
  rw [decoded]
  constructor
  · rintro ⟨item, raw, constants, found, read, _, version, values, rfl, valid⟩
    cases Option.some.inj (parsed.symm.trans found)
    obtain ⟨readable, rfl⟩ := readsBack.mp read
    obtain ⟨kinds, rfl⟩ := Value.valuesRead.mp values
    have current : c.version = currentVersion := UInt16.toNat_inj.mp version
    rw [rebuilt current] at valid ⊢
    exact ⟨⟨readable, current, kinds, normalizedValid.mp valid⟩, rfl⟩
  · rintro ⟨loadable, rfl⟩
    exact ⟨c.item, c.raw, _, parsed, readsBack.mpr ⟨loadable.toReadable, rfl⟩, rfl,
      congrArg UInt16.toNat loadable.current, Value.valuesRead.mpr ⟨loadable.kinds, rfl⟩,
      (rebuilt loadable.current).symm, normalizedValid.mpr loadable.valid⟩

theorem decodeEncode {c c' : Chunk} (storable : c.Storable) (ok : decode c.encode = .ok c') :
    c' = c.normalized := by
  obtain ⟨item, _, _, parsed, _⟩ := decoded.mp ok
  rw [Cbor.parsed (encodes storable) parsed] at parsed
  exact ((decodeItem parsed).mp ok).2

end Chunk
end ExprMachine
