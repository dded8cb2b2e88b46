import ExprMachine.Proofs.Cbor.Readable
import ExprMachine.Proofs.Chunk.RoundTrip
import ExprMachine.Proofs.Text.Encoding

/-! Which chunks survive being written and read. Whatever is added to a chunk can be written; it is
read back exactly when its constants have defined kinds, its strings are encoded texts and the chunk
passes the check. -/
namespace ExprMachine

open Cbor (Reads FitsWord maxElements)

theorem Instruction.reads {i : Instruction} (low : -2 ^ 64 ≤ i.operand) (high : i.operand < 2 ^ 64) :
    Reads 1 i.encode i.item :=
  Cbor.recordReads (fieldsWritten Cbor.Atom.reads low high) (by split <;> simp [maxElements])

theorem Value.reads {v : Value} (fits : v.asString.length < 2 ^ 64) : Reads 1 v.encode v.item :=
  Cbor.recordReads (fieldsWritten Cbor.Atom.reads fits) (by split <;> split <;> simp [maxElements])

namespace Chunk

structure Short (c : Chunk) : Prop where
  code : c.code.size ≤ maxElements
  lines : c.lines.size ≤ maxElements
  constants : c.constants.size ≤ maxElements

theorem reads {c : Chunk} (storable : c.Storable) (short : c.Short) : Reads 3 c.encode c.item := by
  have code : Reads 2 (writeList (c.code.toList.map Instruction.encode))
      (.array (c.code.toList.map Instruction.item)) :=
    Cbor.listReads (fun i inside => Instruction.reads (storable.operands i inside).1
      (storable.operands i inside).2) short.code
  have lines : Reads 2 (writeList (c.lines.toList.map Cbor.writeInt))
      (.array (c.lines.toList.map Cbor.intItem)) :=
    Cbor.listReads (fun n inside => (Cbor.intAtom (storable.lines n inside).1
      (storable.lines n inside).2).reads) short.lines
  have constants : Reads 2 (writeList (c.constants.toList.map Value.encode))
      (.array (c.constants.toList.map Value.item)) :=
    Cbor.listReads (fun v inside => Value.reads (storable.strings v inside)) short.constants
  exact Cbor.recordReads (fieldsWritten Cbor.Atom.reads code lines constants)
    (by split <;> split <;> simp [maxElements])

theorem decodeExact {c c' : Chunk} (storable : c.Storable) (short : c.Short) :
    decode c.encode = .ok c' ↔ c.Loadable ∧ c' = c.normalized :=
  decodeItem (Cbor.parseReads (reads storable short) (by decide))

theorem decodeMalformed {data : Bytes} (unread : (Cbor.parse data).bind Wire.readChunk = none) :
    decode data = .error .malformed := by
  unfold decode
  rw [unread]

theorem longRefused {c : Chunk} (long : maxElements < c.code.size)
    (fits : c.code.toList.length < 2 ^ 64) : decode c.encode = .error .malformed := by
  refine decodeMalformed ?_
  have code : Cbor.Refused (writeList (c.code.toList.map Instruction.encode)) :=
    Cbor.listRefused (by simpa using long) (by simpa using fits)
  have magic := (@Cbor.textAtom chunkMagic (by decide)).encodes
  have version := (Cbor.unsignedAtom (Nat.lt_trans c.version.toNat_lt (by decide))).encodes
  have before : Cbor.FieldsWritten Cbor.Encodes
      [(1, Cbor.writeText chunkMagic), (2, Cbor.writeHead 0 c.version.toNat)]
      [(1, .text [chunkMagic]), (2, .unsigned c.version.toNat)] :=
    .cons (by decide) magic (.cons (by decide) version .nil)
  have refused : Cbor.Refused c.encode :=
    Cbor.recordRefused before (by decide) code (by split <;> split <;> simp)
  rw [Cbor.parseRefused refused]
  rfl

theorem unreadableRefused {c : Chunk} (storable : c.Storable) (short : c.Short)
    (unreadable : ¬ c.Readable) : decode c.encode = .error .malformed := by
  refine decodeMalformed ?_
  rw [Cbor.parseReads (reads storable short) (by decide), Option.bind_some]
  exact Option.eq_none_iff_forall_ne_some.mpr fun raw read => unreadable (readsBack.mp read).1

inductive Addition where
  | constant (v : Value) (addressable : v.asString.length < 2 ^ 63)
  | instruction (code : UInt8) (operand line : Int64)

def add (c : Chunk) : Addition → Chunk
  | .constant v _ => c.addConstant v
  | .instruction code operand line => c.push ⟨code, operand.toInt⟩ line.toInt

def built (additions : List Addition) : Chunk := additions.foldl add empty

theorem int64FitsWord (n : Int64) : FitsWord n.toInt := ⟨n.le_toInt, n.toInt_lt⟩

theorem pushKeeps {α : Type} {P : α → Prop} {xs : Array α} {x : α} (old : ∀ y ∈ xs.toList, P y)
    (new : P x) : ∀ y ∈ (xs.push x).toList, P y := by
  intro y member
  rw [Array.toList_push] at member
  rcases List.mem_append.mp member with inside | last
  · exact old y inside
  · rw [List.mem_singleton.mp last]
    exact new

theorem addKeeps {c : Chunk} (made : c.MadeOfWords) (a : Addition) : (c.add a).MadeOfWords := by
  cases a with
  | constant v addressable =>
    exact ⟨made.current, made.operands, made.lines, pushKeeps made.strings addressable⟩
  | instruction code operand line =>
    exact ⟨made.current, pushKeeps made.operands (int64FitsWord operand),
      pushKeeps made.lines (int64FitsWord line), made.strings⟩

theorem builtKeeps (additions : List Addition) : (built additions).MadeOfWords := by
  have start : empty.MadeOfWords := ⟨rfl, by simp [empty], by simp [empty], by simp [empty]⟩
  unfold built
  generalize empty = c at start
  induction additions generalizing c with
  | nil => exact start
  | cons a rest ih => exact ih (c.add a) (addKeeps start a)

theorem Short.sizes {c : Chunk} (short : c.Short) : c.code.toList.length < 2 ^ 64 ∧
    c.lines.toList.length < 2 ^ 64 ∧ c.constants.toList.length < 2 ^ 64 := by
  have limit : maxElements < 2 ^ 64 := by decide
  exact ⟨Nat.lt_of_le_of_lt short.code limit, Nat.lt_of_le_of_lt short.lines limit,
    Nat.lt_of_le_of_lt short.constants limit⟩

theorem stringsValid {c : Chunk} :
    (∀ v ∈ c.constants.toList, Text.isValid v.asString = true) ↔
      ∀ s, .string s ∈ c.constants → ∃ text, s = Text.utf8 text := by
  constructor
  · intro all s member
    exact Text.isValidIff.mp (all (.string s) (by simpa using member))
  · intro strings v member
    refine Text.isValidIff.mpr ?_
    cases v with
    | string s => exact strings s (by simpa using member)
    | _ => exact ⟨"", rfl⟩

theorem MadeOfWords.loadable {c : Chunk} (made : c.MadeOfWords) :
    c.Loadable ↔ (∀ v ∈ c.constants, v.IsDefined) ∧
      (∀ s, .string s ∈ c.constants → ∃ text, s = Text.utf8 text) ∧ c.IsValid := by
  rw [← stringsValid]
  constructor
  · intro loadable
    exact ⟨fun v member => loadable.kinds v (by simpa using member), loadable.strings,
      loadable.valid⟩
  · rintro ⟨kinds, strings, valid⟩
    exact ⟨⟨made.operands, made.lines, strings⟩, made.current,
      fun v member => kinds v (by simpa using member), valid⟩

theorem reloadExact (additions : List Addition) (short : (built additions).Short) :
    let c := built additions
    ((∃ c', decode c.encode = .ok c') ↔
      (∀ v ∈ c.constants, v.IsDefined) ∧
      (∀ s, .string s ∈ c.constants → ∃ text, s = Text.utf8 text) ∧ c.IsValid) ∧
    ∀ c', decode c.encode = .ok c' →
      c'.version = c.version ∧ c'.code = c.code ∧ c'.lines = c.lines ∧
      c'.constants = c.constants.map Value.normalized := by
  intro c
  have made := builtKeeps additions
  have loads : ∀ c', decode c.encode = .ok c' ↔ c.Loadable ∧ c' = c.normalized :=
    fun c' => decodeExact (made.storable short.sizes) short
  rw [← made.loadable]
  refine ⟨⟨?_, fun loadable => ?_⟩, fun c' ok => ?_⟩
  · rintro ⟨c', ok⟩
    exact ((loads c').mp ok).1
  · exact ⟨c.normalized, (loads _).mpr ⟨loadable, rfl⟩⟩
  · rw [((loads c').mp ok).2]
    exact ⟨rfl, rfl, rfl, rfl⟩

def extremes : List Addition :=
  [.constant (.number ⟨0x8000000000000000⟩) (by decide),
    .constant (.number ⟨0xfff0000000000000⟩) (by decide),
    .constant (.number ⟨0x7ff0000000000001⟩) (by decide),
    .constant (.string (Text.utf8 "é")) (by decide),
    .instruction 0x00 3 (-9223372036854775808), .instruction 0x20 (-7) 9223372036854775807,
    .instruction 0xf0 0 0]

theorem reloadExactExtremes :
    (built extremes).Short ∧ ∃ c', decode (built extremes).encode = .ok c' ∧
      c'.code = #[⟨0x00, 3⟩, ⟨0x20, -7⟩, ⟨0xf0, 0⟩] ∧
      c'.lines = #[-9223372036854775808, 9223372036854775807, 0] ∧
      c'.constants = #[.number ⟨0x8000000000000000⟩, .number ⟨0xfff0000000000000⟩,
        .number Number.canonicalNaN, .string (Text.utf8 "é")] := by
  have short : (built extremes).Short := ⟨by decide, by decide, by decide⟩
  obtain ⟨survives, same⟩ := reloadExact extremes short
  have texts : ∀ s, .string s ∈ (built extremes).constants → ∃ text, s = Text.utf8 text := by
    intro s member
    refine ⟨"é", ?_⟩
    simpa [built, extremes, add, addConstant, push, empty] using member
  have kinds : ∀ v ∈ (built extremes).constants, v.IsDefined := by
    unfold Value.IsDefined
    decide
  obtain ⟨c', ok⟩ := survives.mpr ⟨kinds, texts, by decide⟩
  obtain ⟨_, code, lines, constants⟩ := same c' ok
  exact ⟨short, c', ok, code.trans (by decide), lines.trans (by decide),
    constants.trans (by decide +kernel)⟩

end Chunk
end ExprMachine
