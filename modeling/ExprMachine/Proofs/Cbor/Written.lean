import ExprMachine.Chunk.Wire
import Mathlib.Algebra.Group.Int.Defs
import Mathlib.Algebra.Group.Nat.Defs

/-! What is written is the only thing that can be read back. A reader that gets through the bytes of
an item returns that item and leaves what follows it; limits on depth and length can only stop it. -/
namespace ExprMachine

namespace Text

theorem bigEndianBytesLength (width n : Nat) : (bigEndianBytes width n).length = width := by
  induction width generalizing n with
  | zero => rfl
  | succ width ih => simp [bigEndianBytes, ih]

theorem bigEndianSnoc (s : Bytes) (b : UInt8) : bigEndian (s ++ [b]) = bigEndian s * 256 + b.toNat := by
  simp [bigEndian]

theorem bigEndianWritten {width n : Nat} (fits : n < 256 ^ width) :
    bigEndian (bigEndianBytes width n) = n := by
  induction width generalizing n with
  | zero =>
    have zero : n = 0 := by simpa using fits
    rw [zero]
    rfl
  | succ width ih =>
    have higher : n / 256 < 256 ^ width := by
      rw [Nat.div_lt_iff_lt_mul (by decide)]
      rwa [Nat.pow_succ] at fits
    have lowest : n.toUInt8.toNat = n % 256 := by simp
    rw [bigEndianBytes, bigEndianSnoc, ih higher, lowest]
    omega

end Text

namespace Cbor

open Text (bigEndian bigEndianBytes bigEndianBytesLength bigEndianWritten)

theorem takeExactlyAppend {first : Bytes} {n : Nat} (length : first.length = n) (rest : Bytes) :
    takeExactly n (first ++ rest) = some (first, rest) := by
  subst length
  simp [takeExactly]

theorem firstByte {major info : Nat} (small : major < 8) (short : info < 32) :
    (major * 32 + info).toUInt8.toNat / 32 = major ∧
      (major * 32 + info).toUInt8.toNat % 32 = info := by
  have value : (major * 32 + info).toUInt8.toNat = major * 32 + info := by
    simp only [Nat.toUInt8_eq, UInt8.toNat_ofNat']
    omega
  rw [value]
  omega

theorem readShort {major n : Nat} (small : major < 8) (short : n < 24) (rest : Bytes) :
    readHead ((major * 32 + n).toUInt8 :: rest) = some (⟨major, n, .definite n⟩, rest) := by
  obtain ⟨majorBits, infoBits⟩ := @firstByte major n small (by omega)
  simp only [readHead, majorBits, infoBits, short, ↓reduceIte]

theorem readLong {major info width n : Nat} (small : major < 8) (wide : argumentWidth? info = some width)
    (notSimple : ¬ (major = 7 ∧ info = 24)) (fits : n < 256 ^ width) (rest : Bytes) :
    readHead ((major * 32 + info).toUInt8 :: (bigEndianBytes width n ++ rest)) =
      some (⟨major, info, .definite n⟩, rest) := by
  have range : 24 ≤ info ∧ info < 28 := by
    unfold argumentWidth? at wide
    grind
  obtain ⟨majorBits, infoBits⟩ := @firstByte major info small (by omega)
  have long : ¬ info < 24 := by omega
  have closed : info ≠ 31 := by omega
  have plain : ¬ (major = 7 ∧ info = 24 ∧ n < 32) := fun simple => notSimple ⟨simple.1, simple.2.1⟩
  simp only [readHead, majorBits, infoBits, long, closed, wide, ↓reduceIte, Option.bind_eq_bind,
    Option.bind_some, takeExactlyAppend (bigEndianBytesLength width n), bigEndianWritten fits, plain]

theorem readHeadWritten {major n : Nat} (small : major < 7) (fits : n < 2 ^ 64) (rest : Bytes) :
    ∃ info, readHead (writeHead major n ++ rest) = some (⟨major, info, .definite n⟩, rest) := by
  have notSimple : ∀ info, ¬ (major = 7 ∧ info = 24) := by omega
  unfold writeHead
  split
  · exact ⟨n, readShort (by omega) ‹_› rest⟩
  split
  · exact ⟨24, readLong (by omega) rfl (notSimple 24) ‹_› rest⟩
  split
  · exact ⟨25, readLong (by omega) rfl (notSimple 25) ‹_› rest⟩
  split
  · exact ⟨26, readLong (by omega) rfl (notSimple 26) ‹_› rest⟩
  · exact ⟨27, readLong (by omega) rfl (notSimple 27) fits rest⟩

/-- The bytes `w` stand for `item`: whoever reads an item at their start reads this one. -/
def Encodes (w : Bytes) (item : Item) : Prop :=
  ∀ fuel levels rest r, readItem fuel levels (w ++ rest) = some r → r = (item, rest)

theorem encodesOf {w : Bytes} {item : Item}
    (next : ∀ fuel levels rest r, readItem (fuel + 1) levels (w ++ rest) = some r → r = (item, rest)) :
    Encodes w item := by
  intro fuel levels rest r ok
  cases fuel with
  | zero => simp [readItem] at ok
  | succ fuel => exact next fuel levels rest r ok

theorem parsed {w : Bytes} {item found : Item} (encoded : Encodes w item)
    (ok : parse w = some found) : found = item := by
  unfold parse at ok
  split at ok
  · next read =>
    have whole := encoded _ _ [] _ (by rwa [List.append_nil])
    rw [← Option.some.inj ok]
    exact congrArg Prod.fst whole
  · contradiction

def Atom (w : Bytes) (item : Item) : Prop :=
  ∀ fuel levels rest, readItem (fuel + 1) levels (w ++ rest) = some (item, rest)

theorem Atom.encodes {w : Bytes} {item : Item} (atom : Atom w item) : Encodes w item := by
  refine encodesOf fun fuel levels rest r ok => ?_
  rw [atom] at ok
  exact (Option.some.inj ok).symm

theorem unsignedAtom {n : Nat} (fits : n < 2 ^ 64) : Atom (writeHead 0 n) (.unsigned n) := by
  intro fuel levels rest
  obtain ⟨info, head⟩ := @readHeadWritten 0 n (by decide) fits rest
  simp only [readItem, head, Option.bind_eq_bind, Option.bind_some]

theorem negativeAtom {n : Nat} (fits : n < 2 ^ 64) : Atom (writeHead 1 n) (.negative n) := by
  intro fuel levels rest
  obtain ⟨info, head⟩ := @readHeadWritten 1 n (by decide) fits rest
  simp only [readItem, head, Option.bind_eq_bind, Option.bind_some]

def intItem : Int → Item
  | .ofNat n => .unsigned n
  | .negSucc n => .negative n

theorem intAtom {n : Int} (low : -2 ^ 64 ≤ n) (high : n < 2 ^ 64) :
    Atom (writeInt n) (intItem n) := by
  cases n with
  | ofNat n => exact unsignedAtom (by simp only [Int.ofNat_eq_natCast] at high; omega)
  | negSucc n => exact negativeAtom (by omega)

theorem textAtom {s : Bytes} (fits : s.length < 2 ^ 64) : Atom (writeText s) (.text [s]) := by
  intro fuel levels rest
  obtain ⟨info, head⟩ := @readHeadWritten 3 s.length (by decide) fits (s ++ rest)
  rw [writeText, List.append_assoc]
  simp only [readItem, head, Option.bind_eq_bind, Option.bind_some, takeExactlyAppend rfl,
    Option.map_some]

theorem itemsRead {α : Type} {xs : List α} {write : α → Bytes} {item : α → Item}
    (each : ∀ x ∈ xs, Encodes (write x) (item x)) {fuel levels done rest r}
    (ok : readItems fuel levels xs.length done ((xs.map write).flatten ++ rest) = some r) :
    r = (done.reverse ++ xs.map item, rest) := by
  induction xs generalizing fuel done with
  | nil =>
    cases fuel with
    | zero => simp [readItems] at ok
    | succ fuel =>
      rw [List.length_nil, readItems] at ok
      simpa using (Option.some.inj ok).symm
  | cons x others ih =>
    cases fuel with
    | zero => simp [readItems] at ok
    | succ fuel =>
      rw [List.length_cons, List.map_cons, List.flatten_cons, List.append_assoc, readItems] at ok
      split at ok
      · next found left read =>
        cases each x (by simp) fuel levels _ _ read
        have later := ih (fun y inside => each y (by simp [inside])) ok
        simpa using later
      · contradiction

theorem listEncodes {α : Type} {xs : List α} {write : α → Bytes} {item : α → Item}
    (each : ∀ x ∈ xs, Encodes (write x) (item x)) (fits : xs.length < 2 ^ 64) :
    Encodes (writeList (xs.map write)) (.array (xs.map item)) := by
  refine encodesOf fun fuel levels rest r ok => ?_
  obtain ⟨info, head⟩ := @readHeadWritten 4 xs.length (by decide) fits
    ((xs.map write).flatten ++ rest)
  rw [writeList, List.append_assoc, List.length_map] at ok
  simp only [readItem, head, Option.bind_eq_bind, Option.bind_some] at ok
  split at ok
  · obtain ⟨_, read, rfl⟩ := Option.map_eq_some_iff.mp ok
    cases itemsRead each read
    rfl
  · contradiction

inductive FieldsWritten (R : Bytes → Item → Prop) :
    List (Nat × Bytes) → List (Nat × Item) → Prop where
  | nil : FieldsWritten R [] []
  | cons {key w item fields items} (small : key < 2 ^ 64) (content : R w item)
      (others : FieldsWritten R fields items) :
      FieldsWritten R ((key, w) :: fields) ((key, item) :: items)

namespace FieldsWritten

def pieces : List (Nat × Bytes) → List (Nat × Item) → List (Bytes × Item)
  | (key, w) :: fields, (_, item) :: items =>
    (writeHead 0 key, .unsigned key) :: (w, item) :: pieces fields items
  | _, _ => []

variable {R : Bytes → Item → Prop} {fields : List (Nat × Bytes)} {items : List (Nat × Item)}

theorem piecesWritten (atoms : ∀ {w item}, Atom w item → R w item)
    (written : FieldsWritten R fields items) : ∀ p ∈ pieces fields items, R p.1 p.2 := by
  induction written with
  | nil => simp [pieces]
  | cons small content others ih =>
    rw [pieces, List.forall_mem_cons, List.forall_mem_cons]
    exact ⟨atoms (unsignedAtom small), content, ih⟩

theorem piecesLength (written : FieldsWritten R fields items) :
    (pieces fields items).length = 2 * fields.length := by
  induction written with
  | nil => rfl
  | cons small content others ih =>
    simp only [pieces, List.length_cons, ih]
    omega

theorem piecesBytes (written : FieldsWritten R fields items) :
    ((pieces fields items).map Prod.fst).flatten =
      fields.flatMap fun (key, content) => writeHead 0 key ++ content := by
  induction written with
  | nil => rfl
  | cons small content others ih => simp [pieces, ih]

theorem piecesPaired (written : FieldsWritten R fields items) :
    pairUp ((pieces fields items).map Prod.snd) =
      some (items.map fun (key, item) => (.unsigned key, item)) := by
  induction written with
  | nil => rfl
  | cons small content others ih => simp [pieces, pairUp, ih]

end FieldsWritten

theorem recordEncodes {fields items} (written : FieldsWritten Encodes fields items)
    (fits : fields.length < 2 ^ 64) :
    Encodes (writeRecord fields) (.map (items.map fun (key, item) => (.unsigned key, item))) := by
  refine encodesOf fun fuel levels rest r ok => ?_
  rw [writeRecord, ← written.piecesBytes, List.append_assoc] at ok
  obtain ⟨info, head⟩ := @readHeadWritten 5 fields.length (by decide) fits
    (((FieldsWritten.pieces fields items).map Prod.fst).flatten ++ rest)
  simp only [readItem, head, Option.bind_eq_bind, Option.bind_some] at ok
  split at ok
  · obtain ⟨_, read, paired⟩ := Option.bind_eq_some_iff.mp ok
    rw [← written.piecesLength] at read
    cases itemsRead (written.piecesWritten Atom.encodes) read
    rw [List.reverse_nil, List.nil_append, written.piecesPaired] at paired
    exact (Option.some.inj paired).symm
  · contradiction

theorem simpleAtom {b : UInt8} {info : Nat}
    (head : ∀ rest, readHead (b :: rest) = some (⟨7, info, .definite info⟩, rest)) :
    Atom [b] (simpleItem info info) := by
  intro fuel levels rest
  rw [List.singleton_append]
  simp only [readItem, head, Option.bind_eq_bind, Option.bind_some]

theorem trueAtom : Atom [0xf5] (.bool true) := @simpleAtom 0xf5 21 fun _ => rfl

theorem nullAtom : Atom [0xf6] .null := @simpleAtom 0xf6 22 fun _ => rfl

theorem floatAtom {info width n : Nat} (wide : argumentWidth? info = some width)
    (notSimple : info ≠ 24) (fits : n < 256 ^ width) :
    Atom ((7 * 32 + info).toUInt8 :: bigEndianBytes width n) (simpleItem info n) := by
  intro fuel levels rest
  have head := @readLong 7 info width n (by decide) wide (fun both => notSimple both.2) fits rest
  rw [List.cons_append]
  simp only [readItem, head, Option.bind_eq_bind, Option.bind_some]

def numberItem (x : Number) : Item :=
  if x.isNaN then .float .half 0x7e00
  else
    match Number.half.narrow? x with
    | some pattern => .float .half pattern
    | none =>
      match Number.single.narrow? x with
      | some pattern => .float .single pattern
      | none => .float .double x.bits.toNat

theorem narrowKeeps {f : Number.Format} {x : Number} {pattern : Nat}
    (narrow : f.narrow? x = some pattern) :
    pattern < 2 ^ (1 + f.exponentBits + f.fractionBits) ∧ f.widen pattern = x := by
  simp only [Number.Format.narrow?] at narrow
  split at narrow
  · next kept =>
    cases Option.some.inj narrow
    exact kept
  · contradiction

theorem numberAtom (x : Number) : Atom (writeNumber x) (numberItem x) := by
  unfold writeNumber numberItem
  by_cases nan : x.isNaN = true
  · simp only [nan, ↓reduceIte]
    exact @floatAtom 25 2 0x7e00 rfl (by decide) (by decide)
  simp only [nan]
  cases halved : Number.half.narrow? x with
  | some pattern => exact @floatAtom 25 2 pattern rfl (by decide) (narrowKeeps halved).1
  | none =>
    cases singled : Number.single.narrow? x with
    | some pattern => exact @floatAtom 26 4 pattern rfl (by decide) (narrowKeeps singled).1
    | none => exact @floatAtom 27 8 x.bits.toNat rfl (by decide) x.bits.toNat_lt

theorem numberRead (x : Number) : toNumber (numberItem x) = some x.normalized := by
  unfold numberItem Number.normalized
  by_cases nan : x.isNaN = true
  · simp only [nan, ↓reduceIte]
    decide
  simp only [nan]
  cases halved : Number.half.narrow? x with
  | some pattern => exact congrArg some (narrowKeeps halved).2
  | none =>
    cases singled : Number.single.narrow? x with
    | some pattern => exact congrArg some (narrowKeeps singled).2
    | none =>
      change some (⟨x.bits.toNat.toUInt64⟩ : Number) = some x
      rw [Nat.toUInt64_eq, UInt64.ofNat_toNat]

end Cbor
end ExprMachine
