import ExprMachine.Proofs.Cbor.Written

/-! What is written can be read: two steps for each byte are enough for the reader to get through,
given levels for the depth of the item. Only a list with more elements than are admitted stops it. -/
namespace ExprMachine.Cbor

variable {depth : Nat} {w : Bytes} {item : Item}

def Reads (depth : Nat) (w : Bytes) (item : Item) : Prop :=
  ∀ fuel levels rest, 2 * w.length ≤ fuel → depth ≤ levels →
    readItem fuel levels (w ++ rest) = some (item, rest)

theorem Reads.nonempty (reads : Reads depth w item) : 0 < w.length := by
  refine Nat.pos_of_ne_zero fun none => ?_
  have read := reads 0 depth [] (by omega) (Nat.le_refl depth)
  simp [readItem] at read

theorem Atom.nonempty (atom : Atom w item) : 0 < w.length := by
  cases w with
  | nil =>
    have read := atom 0 0 []
    simp [readItem, readHead] at read
  | cons b rest => simp

theorem Atom.reads (atom : Atom w item) : Reads depth w item := by
  intro fuel levels rest enough _
  have nonempty := atom.nonempty
  obtain ⟨less, rfl⟩ : ∃ less, fuel = less + 1 := ⟨fuel - 1, by omega⟩
  exact atom less levels rest

theorem writeHeadNonempty (major n : Nat) : 0 < (writeHead major n).length := by
  unfold writeHead
  repeat' split
  all_goals simp

theorem itemsReadable {α : Type} {xs : List α} {write : α → Bytes} {item : α → Item}
    (each : ∀ x ∈ xs, Reads depth (write x) (item x)) (fuel levels : Nat) (done : List Item)
    (rest : Bytes) (enough : 2 * (xs.map write).flatten.length + 1 ≤ fuel) (deep : depth ≤ levels) :
    readItems fuel levels xs.length done ((xs.map write).flatten ++ rest) =
      some (done.reverse ++ xs.map item, rest) := by
  induction xs generalizing fuel done with
  | nil =>
    obtain ⟨less, rfl⟩ : ∃ less, fuel = less + 1 := ⟨fuel - 1, by simp at enough; omega⟩
    simp [readItems]
  | cons x others ih =>
    have head := each x (by simp)
    have nonempty := head.nonempty
    rw [List.map_cons, List.flatten_cons, List.length_append] at enough
    obtain ⟨less, rfl⟩ : ∃ less, fuel = less + 1 := ⟨fuel - 1, by omega⟩
    rw [List.length_cons, List.map_cons, List.flatten_cons, List.append_assoc, readItems,
      head less levels _ (by omega) deep]
    have tail := ih (fun y inside => each y (by simp [inside])) less (item x :: done) (by omega)
    simpa using tail

theorem listReads {α : Type} {xs : List α} {write : α → Bytes} {item : α → Item}
    (each : ∀ x ∈ xs, Reads depth (write x) (item x)) (short : xs.length ≤ maxElements) :
    Reads (depth + 1) (writeList (xs.map write)) (.array (xs.map item)) := by
  intro fuel levels rest enough deep
  obtain ⟨info, head⟩ := @readHeadWritten 4 xs.length (by decide)
    (Nat.lt_of_le_of_lt short (by decide)) ((xs.map write).flatten ++ rest)
  have start := writeHeadNonempty 4 xs.length
  rw [writeList, List.length_map, List.length_append] at enough
  obtain ⟨less, rfl⟩ : ∃ less, fuel = less + 1 := ⟨fuel - 1, by omega⟩
  have items := itemsReadable each less (levels - 1) [] rest (by omega) (by omega)
  have admitted : 0 < levels ∧ xs.length ≤ maxElements := ⟨by omega, short⟩
  rw [writeList, List.length_map, List.append_assoc]
  simp only [readItem, head, Option.bind_eq_bind, Option.bind_some, if_pos admitted, items]
  rfl

theorem recordReads {fields items} (written : FieldsWritten (Reads depth) fields items)
    (short : fields.length ≤ maxElements) :
    Reads (depth + 1) (writeRecord fields)
      (.map (items.map fun (key, item) => (.unsigned key, item))) := by
  intro fuel levels rest enough deep
  obtain ⟨info, head⟩ := @readHeadWritten 5 fields.length (by decide)
    (Nat.lt_of_le_of_lt short (by decide))
    (((FieldsWritten.pieces fields items).map Prod.fst).flatten ++ rest)
  have start := writeHeadNonempty 5 fields.length
  rw [writeRecord, ← written.piecesBytes, List.length_append] at enough
  obtain ⟨less, rfl⟩ : ∃ less, fuel = less + 1 := ⟨fuel - 1, by omega⟩
  have pieces := itemsReadable (written.piecesWritten Atom.reads) less (levels - 1) [] rest
    (by omega) (by omega)
  rw [written.piecesLength] at pieces
  have admitted : 0 < levels ∧ fields.length ≤ maxElements := ⟨by omega, short⟩
  rw [writeRecord, ← written.piecesBytes, List.append_assoc]
  simp only [readItem, head, Option.bind_eq_bind, Option.bind_some, if_pos admitted, pieces,
    List.reverse_nil, List.nil_append, written.piecesPaired]
  rfl

theorem parseReads (reads : Reads depth w item) (shallow : depth ≤ maxLevels) :
    parse w = some item := by
  have read := reads (2 * w.length + 2) maxLevels [] (by omega) shallow
  rw [List.append_nil] at read
  rw [parse, read]

def Refused (w : Bytes) : Prop := ∀ fuel levels rest, readItem fuel levels (w ++ rest) = none

theorem refusedOf
    (unread : ∀ fuel levels rest, readItem (fuel + 1) levels (w ++ rest) = none) : Refused w := by
  intro fuel levels rest
  cases fuel with
  | zero => simp [readItem]
  | succ fuel => exact unread fuel levels rest

theorem listRefused {contents : List Bytes} (long : maxElements < contents.length)
    (fits : contents.length < 2 ^ 64) : Refused (writeList contents) := by
  refine refusedOf fun fuel levels rest => ?_
  obtain ⟨info, head⟩ := @readHeadWritten 4 contents.length (by decide) fits
    (contents.flatten ++ rest)
  rw [writeList, List.append_assoc]
  simp only [readItem, head, Option.bind_eq_bind, Option.bind_some]
  exact if_neg fun admitted => Nat.not_lt.mpr admitted.2 long

theorem itemsRefused {pieces : List (Bytes × Item)} (each : ∀ p ∈ pieces, Encodes p.1 p.2)
    (refused : Refused w) (fuel levels count : Nat) (done : List Item) (rest : Bytes)
    (more : pieces.length < count) :
    readItems fuel levels count done ((pieces.map Prod.fst).flatten ++ (w ++ rest)) = none := by
  induction pieces generalizing fuel count done with
  | nil =>
    cases fuel with
    | zero => simp [readItems]
    | succ fuel =>
      obtain ⟨others, rfl⟩ := Nat.exists_eq_add_one.mpr more
      simp [readItems, refused fuel levels rest]
  | cons p pieces ih =>
    cases fuel with
    | zero => simp [readItems]
    | succ fuel =>
      obtain ⟨others, rfl⟩ := Nat.exists_eq_add_one.mpr (Nat.zero_lt_of_lt more)
      rw [List.map_cons, List.flatten_cons, List.append_assoc, readItems]
      split
      · next item left read =>
        cases each p (by simp) fuel levels _ _ read
        exact ih (fun q inside => each q (by simp [inside])) fuel others (p.2 :: done)
          (Nat.lt_of_succ_lt_succ more)
      · rfl

theorem recordRefused {fields items key} {others : List (Nat × Bytes)}
    (written : FieldsWritten Encodes fields items) (small : key < 2 ^ 64) (refused : Refused w)
    (fits : (fields ++ (key, w) :: others).length < 2 ^ 64) :
    Refused (writeRecord (fields ++ (key, w) :: others)) := by
  refine refusedOf fun fuel levels rest => ?_
  let before := FieldsWritten.pieces fields items ++ [(writeHead 0 key, .unsigned key)]
  let after := others.flatMap fun p => writeHead 0 p.1 ++ p.2
  have each : ∀ p ∈ before, Encodes p.1 p.2 :=
    List.forall_mem_append.mpr ⟨written.piecesWritten Atom.encodes,
      List.forall_mem_singleton.mpr (unsignedAtom small).encodes⟩
  have more : before.length < 2 * (fields ++ (key, w) :: others).length := by
    simp only [before, List.length_append, written.piecesLength, List.length_cons, List.length_nil]
    omega
  have bytes : writeRecord (fields ++ (key, w) :: others) ++ rest =
      writeHead 5 (fields ++ (key, w) :: others).length ++
        ((before.map Prod.fst).flatten ++ (w ++ (after ++ rest))) := by
    simp [writeRecord, before, after, written.piecesBytes]
  have unread := itemsRefused each refused fuel (levels - 1) _ [] (after ++ rest) more
  obtain ⟨info, head⟩ := @readHeadWritten 5 _ (by decide) fits
    ((before.map Prod.fst).flatten ++ (w ++ (after ++ rest)))
  rw [bytes]
  simp only [readItem, head, Option.bind_eq_bind, Option.bind_some, unread, Option.bind_none,
    ite_self]

theorem parseRefused (refused : Refused w) : parse w = none := by
  have unread := refused (2 * w.length + 2) maxLevels []
  rw [List.append_nil] at unread
  rw [parse, unread]

end ExprMachine.Cbor
