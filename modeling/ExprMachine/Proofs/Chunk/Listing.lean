import ExprMachine.Chunk.Listing
import ExprMachine.Proofs.Text.Rows

/-! What can be read off a listing: the source line of every instruction, also where a bar stands for
it, every opcode byte, and every operand that counts with the text of its constant. Two chunks are
listed alike exactly if they agree on all of this. -/
namespace ExprMachine

open Text (utf8 byte natText intText padLeft newline newlines blank Only Visible Unbroken Solid)

namespace Opcode

theorem memAll (op : Opcode) : op ∈ all := by cases op <;> decide

theorem mnemonicVisible (op : Opcode) : Visible op.mnemonic := by cases op <;> exact .of (by decide)

theorem mnemonicInj {op other : Opcode} (same : op.mnemonic = other.mnemonic) : op = other := by
  have apart : ∀ op ∈ all, ∀ other ∈ all, op.mnemonic = other.mnemonic → op = other := by decide
  exact apart op (memAll op) other (memAll other) same

theorem mnemonicKnown (op : Opcode) : op.mnemonic ≠ utf8 "Unknown" := by cases op <;> decide

theorem byteOfByte {b : UInt8} {op : Opcode} (defined : ofByte? b = some op) : op.byte = b := by
  have found := List.find?_some (p := fun other : Opcode => other.byte == b) defined
  exact beq_iff_eq.mp found

end Opcode

theorem Value.textVisible {v : Value} (other : ∀ s, v ≠ .string s) : Visible v.text := by
  cases v with
  | nil => exact .of (by decide)
  | bool b => cases b <;> exact .of (by decide)
  | number x => exact x.textVisible
  | string s => exact absurd rfl (other s)
  | undefined tag above =>
    have name : Visible (Kind.undefined tag above).name :=
      ((Only.of (by decide)).append (Text.natTextVisible _)).append (.of (by decide))
    exact ((Only.of (by decide)).append name).append (.of (by decide))

namespace Chunk

variable {c a b : Chunk} {i j : Instruction} {offset : Nat}

structure Listable (c : Chunk) : Prop where
  paired : c.code.size = c.lines.size
  unbroken : ∀ s, Value.string s ∈ c.constants → newline ∉ s

theorem Listable.constantUnbroken (listable : c.Listable) (index : Int) :
    Unbroken (c.constantText index) := by
  unfold constantText
  split
  · next v found =>
    cases v with
    | string s => exact Text.unbrokenIff.mpr (listable.unbroken s (lookupMem found))
    | _ => exact Text.Visible.unbroken (Value.textVisible (by simp))
  · exact .of (by decide)

/-- What a listing says of an instruction itself: its opcode byte, and the operand that counts with
the text of the constant it leads to. -/
def told (c : Chunk) (i : Instruction) : UInt8 × Option (Int × Bytes) :=
  (i.code,
    match i.opcode? with
    | some .constant => some (i.operand, c.constantText i.operand)
    | _ => none)

def lineMark (c : Chunk) (offset : Nat) (line : Int) : Bytes :=
  if c.sameLine offset then [byte '|'] else intText line

theorem lineMarkSolid (c : Chunk) (offset : Nat) (line : Int) : Solid (c.lineMark offset line) := by
  unfold lineMark
  split
  · exact ⟨.of (by decide), by decide⟩
  · exact Text.intTextSolid line

theorem lineMarkInj {line line' : Int} (same : a.lineMark offset line = b.lineMark offset line') :
    a.sameLine offset = b.sameLine offset ∧ (a.sameLine offset = false → line = line') := by
  have unbarred : ∀ n, [byte '|'] ≠ intText n := by
    intro n barred
    have absent : byte '|' ∉ intText n :=
      (Text.intTextOnly (P := (· ≠ byte '|')) (by decide) (by decide) n).absent (· rfl)
    exact absent (barred ▸ List.mem_cons_self)
  unfold lineMark at same
  cases inA : a.sameLine offset <;> cases inB : b.sameLine offset <;>
    simp only [inA, inB, Bool.false_eq_true, if_true, if_false] at same
  · exact ⟨rfl, fun _ => Text.intTextInj same⟩
  · exact absurd same.symm (unbarred _)
  · exact absurd same (unbarred _)
  · exact ⟨rfl, fun no => nomatch no⟩

/-! The instruction itself: its first word tells the opcode. -/

def firstWord (text : Bytes) : Bytes := text.takeWhile (· != blank)

theorem firstWordEnds {word : Bytes} (visible : Visible word) (rest : Bytes) :
    firstWord (word ++ rest) = word ++ firstWord rest := by
  refine List.takeWhile_append_of_pos fun b member => bne_iff_ne.mpr ?_
  rintro rfl
  exact absurd (visible blank member) (by decide)

theorem constantShown (isConstant : i.opcode? = some .constant) :
    c.instructionText i = Opcode.mnemonic .constant ++ (List.replicate 7 blank ++
      (padLeft 4 blank (intText i.operand) ++ blank ::
        (utf8 "'" ++ (c.constantText i.operand ++ utf8 "'")))) := by
  have name : Text.padRight 16 32 (Opcode.mnemonic .constant) ++ utf8 " " =
      Opcode.mnemonic .constant ++ List.replicate 7 blank := by decide
  have quote : utf8 " '" = blank :: utf8 "'" := by decide
  simp only [instructionText, isConstant, name, quote, List.append_assoc, List.cons_append]
  rfl

theorem undefinedShown (isUndefined : i.opcode? = none) :
    c.instructionText i = utf8 "Unknown" ++ (utf8 " opcode " ++ natText i.code.toNat) := by
  have words : utf8 "Unknown opcode " = utf8 "Unknown" ++ utf8 " opcode " := by decide
  simp only [instructionText, isUndefined, words, List.append_assoc]

theorem plainShown {op : Opcode} (defined : i.opcode? = some op) (plain : op ≠ .constant) :
    c.instructionText i = op.mnemonic := by
  simp only [instructionText, defined]

theorem instructionWord (c : Chunk) (i : Instruction) :
    firstWord (c.instructionText i) = (i.opcode?.map Opcode.mnemonic).getD (utf8 "Unknown") := by
  cases defined : i.opcode? with
  | none =>
    rw [undefinedShown defined, firstWordEnds (.of (by decide))]
    exact List.append_nil _
  | some op =>
    have visible := op.mnemonicVisible
    by_cases plain : op = .constant
    · rw [constantShown (plain ▸ defined), plain, firstWordEnds (plain ▸ visible)]
      exact List.append_nil _
    · rw [plainShown defined plain, ← List.append_nil op.mnemonic, firstWordEnds visible]
      exact List.append_nil _

theorem opcodeShown (same : a.instructionText i = b.instructionText j) : i.opcode? = j.opcode? := by
  have words := congrArg firstWord same
  rw [instructionWord, instructionWord] at words
  cases inA : i.opcode? with
  | none =>
    cases inB : j.opcode? with
    | none => rfl
    | some op => exact absurd (by simpa [inA, inB] using words.symm) op.mnemonicKnown
  | some op =>
    cases inB : j.opcode? with
    | none => exact absurd (by simpa [inA, inB] using words) op.mnemonicKnown
    | some other =>
      rw [Opcode.mnemonicInj (by simpa [inA, inB] using words : op.mnemonic = other.mnemonic)]

theorem codeTold (same : a.told i = b.told j) : i.code = j.code := congrArg Prod.fst same

theorem opcodeTold (same : a.told i = b.told j) : i.opcode? = j.opcode? :=
  congrArg Opcode.ofByte? (codeTold same)

theorem operandTold (inA : i.opcode? = some .constant) (inB : j.opcode? = some .constant) :
    a.told i = b.told j ↔
      i.operand = j.operand ∧ a.constantText i.operand = b.constantText j.operand := by
  have code : i.code = j.code := (Opcode.byteOfByte inA).symm.trans (Opcode.byteOfByte inB)
  simp [told, inA, inB, code]

theorem toldConstantIff (inA : i.opcode? = some .constant) (inB : j.opcode? = some .constant) :
    a.told i = b.told j ↔ a.instructionText i = b.instructionText j := by
  rw [operandTold inA inB, constantShown inA, constantShown inB, List.append_cancel_left_eq,
    List.append_cancel_left_eq]
  constructor
  · rintro ⟨operand, text⟩
    rw [text, operand]
  · intro same
    obtain ⟨operand, quoted⟩ :=
      Text.fieldInj (Text.intTextSolid i.operand) (Text.intTextSolid j.operand) same
    rw [List.append_cancel_left_eq, List.append_cancel_right_eq] at quoted
    exact ⟨Text.intTextInj operand, quoted⟩

theorem toldUndefinedIff (inA : i.opcode? = none) (inB : j.opcode? = none) :
    a.told i = b.told j ↔ a.instructionText i = b.instructionText j := by
  have told : a.told i = b.told j ↔ i.code = j.code := by simp [Chunk.told, inA, inB]
  rw [told, undefinedShown inA, undefinedShown inB, List.append_cancel_left_eq,
    List.append_cancel_left_eq]
  exact ⟨fun code => by rw [code], fun same => UInt8.toNat.inj (Text.natTextInj same)⟩

theorem toldPlain {op : Opcode} (inA : i.opcode? = some op) (inB : j.opcode? = some op)
    (plain : op ≠ .constant) : a.told i = b.told j := by
  have code : i.code = j.code := (Opcode.byteOfByte inA).symm.trans (Opcode.byteOfByte inB)
  simp [told, inA, inB, code, plain]

theorem toldIff : a.told i = b.told j ↔ a.instructionText i = b.instructionText j := by
  by_cases alike : i.opcode? = j.opcode?
  · cases inA : i.opcode? with
    | none => exact toldUndefinedIff inA (alike ▸ inA)
    | some op =>
      have inB : j.opcode? = some op := alike ▸ inA
      by_cases plain : op = .constant
      · subst plain
        exact toldConstantIff inA inB
      · exact iff_of_true (toldPlain inA inB plain)
          ((plainShown inA plain).trans (plainShown inB plain).symm)
  · exact iff_of_false (fun same => alike (opcodeTold same)) fun same => alike (opcodeShown same)

/-! Rows. -/

def listingRow (c : Chunk) (offset : Nat) (i : Instruction) (line : Int) : Bytes :=
  padLeft 4 (byte '0') (natText offset) ++ blank ::
    (padLeft 4 blank (c.lineMark offset line) ++ blank :: c.instructionText i)

theorem listingLineRow (offset : Nat) (i : Instruction) (line : Int) :
    c.listingLine offset i line = c.listingRow offset i line ++ [newline] := by
  have bar : utf8 "   | " = padLeft 4 blank [byte '|'] ++ [blank] := by decide
  have space : utf8 " " = [blank] := by decide
  unfold listingLine listingRow lineMark
  rw [bar, space]
  split <;> simp [blank]

def rows (c : Chunk) : List Bytes :=
  (c.code.toList.zip c.lines.toList).zipIdx.map fun ((i, line), offset) => c.listingRow offset i line

theorem listingRows (c : Chunk) (label : Bytes) :
    c.listing label = Text.ofRows ((utf8 "== " ++ label ++ utf8 " ==") :: c.rows) := by
  simp only [listing, listingLineRow, Text.ofRows, rows, List.flatMap_cons, List.flatMap_map]

theorem rowIff {line line' : Int} : a.listingRow offset i line = b.listingRow offset j line' ↔
    a.lineMark offset line = b.lineMark offset line' ∧ a.told i = b.told j := by
  rw [toldIff, listingRow, listingRow, List.append_cancel_left_eq, List.cons.injEq, and_iff_right rfl]
  constructor
  · exact Text.fieldInj (lineMarkSolid a offset line) (lineMarkSolid b offset line')
  · rintro ⟨mark, text⟩
    rw [mark, text]

theorem Listable.instructionUnbroken (listable : c.Listable) (i : Instruction) :
    Unbroken (c.instructionText i) := by
  cases defined : i.opcode? with
  | none =>
    rw [undefinedShown defined]
    have code := Text.Visible.unbroken (Text.natTextVisible i.code.toNat)
    exact (Only.of (by decide)).append ((Only.of (by decide)).append code)
  | some op =>
    by_cases plain : op = .constant
    · have operand := Text.Visible.unbroken (Text.intTextVisible i.operand)
      have quoted : Unbroken (utf8 "'" ++ (c.constantText i.operand ++ utf8 "'")) :=
        (Only.of (by decide)).append
          ((listable.constantUnbroken i.operand).append (.of (by decide)))
      rw [constantShown (plain ▸ defined)]
      exact (Only.of (by decide)).append ((Only.of (by decide)).append
        ((Only.padLeft (by decide) operand).append (.cons (by decide) quoted)))
    · rw [plainShown defined plain]
      exact Text.Visible.unbroken op.mnemonicVisible

theorem Listable.rowUnbroken (listable : c.Listable) (offset : Nat) (i : Instruction) (line : Int) :
    Unbroken (c.listingRow offset i line) := by
  have number := Text.Visible.unbroken (Text.natTextVisible offset)
  have mark := Text.Visible.unbroken (c.lineMarkSolid offset line).visible
  exact (Only.padLeft (by decide) number).append (.cons (by decide)
    ((Only.padLeft (by decide) mark).append
      (.cons (by decide) (listable.instructionUnbroken i))))

theorem Listable.allUnbroken (listable : c.Listable) {label : Bytes} (labelled : newline ∉ label) :
    ∀ row ∈ (utf8 "== " ++ label ++ utf8 " ==") :: c.rows, Unbroken row := by
  refine List.forall_mem_cons.mpr ⟨?_, fun row member => ?_⟩
  · exact ((Only.of (by decide)).append (Text.unbrokenIff.mpr labelled)).append (.of (by decide))
  · obtain ⟨_, _, rfl⟩ := List.mem_map.mp member
    exact listable.rowUnbroken _ _ _

theorem rowsLength (paired : c.code.size = c.lines.size) : c.rows.length = c.size := by
  simp [rows, size, paired]

theorem rowsAt {k : Nat} {line : Int} (here : c.code[k]? = some i) (marked : c.lines[k]? = some line) :
    c.rows[k]? = some (c.listingRow k i line) := by
  simp only [rows, List.getElem?_map, List.getElem?_zipIdx, List.zip, List.getElem?_zipWith,
    Array.getElem?_toList, here, marked, Option.map_some, Nat.zero_add]

theorem entryAt (paired : c.code.size = c.lines.size) {k : Nat} (inside : k < c.size) :
    ∃ i line, c.code[k]? = some i ∧ c.lines[k]? = some line :=
  ⟨_, _, Array.getElem?_eq_getElem inside, Array.getElem?_eq_getElem (paired ▸ inside)⟩

theorem rowsAgree (pairedA : a.code.size = a.lines.size) (pairedB : b.code.size = b.lines.size)
    (same : a.rows = b.rows) (k : Nat) :
    (a.code[k]? = none ∧ a.lines[k]? = none ∧ b.code[k]? = none ∧ b.lines[k]? = none) ∨
      ∃ i j line line', a.code[k]? = some i ∧ a.lines[k]? = some line ∧
        b.code[k]? = some j ∧ b.lines[k]? = some line' ∧
        a.lineMark k line = b.lineMark k line' ∧ a.told i = b.told j := by
  have sizes : a.size = b.size := by rw [← rowsLength pairedA, same, rowsLength pairedB]
  by_cases inside : k < a.size
  · obtain ⟨i, line, here, marked⟩ := entryAt pairedA inside
    obtain ⟨j, line', here', marked'⟩ := entryAt pairedB (sizes ▸ inside)
    have row := rowsAt here marked
    rw [same, rowsAt here' marked'] at row
    exact .inr ⟨i, j, line, line', here, marked, here', marked',
      rowIff.mp (Option.some.inj row).symm⟩
  · unfold size at inside sizes
    simp only [Array.getElem?_eq_none_iff]
    omega

theorem sameLineIff (k : Nat) : c.sameLine (k + 1) = true ↔ c.lines[k + 1]? = c.lines[k]? := by
  simp [sameLine]

theorem linesAgree (pairedA : a.code.size = a.lines.size) (pairedB : b.code.size = b.lines.size)
    (same : a.rows = b.rows) (k : Nat) : a.lines[k]? = b.lines[k]? := by
  induction k with
  | zero =>
    obtain ⟨_, noneA, _, noneB⟩ | ⟨_, _, _, _, _, marked, _, marked', mark, _⟩ :=
      rowsAgree pairedA pairedB same 0
    · rw [noneA, noneB]
    · rw [marked, marked', (lineMarkInj mark).2 rfl]
  | succ k above =>
    obtain ⟨_, noneA, _, noneB⟩ | ⟨_, _, _, _, _, marked, _, marked', mark, _⟩ :=
      rowsAgree pairedA pairedB same (k + 1)
    · rw [noneA, noneB]
    · obtain ⟨bars, written⟩ := lineMarkInj mark
      cases barred : a.sameLine (k + 1) with
      | true => rw [(sameLineIff k).mp barred, (sameLineIff k).mp (bars ▸ barred), above]
      | false => rw [marked, marked', written barred]

theorem rowsIff (pairedA : a.code.size = a.lines.size) (pairedB : b.code.size = b.lines.size) :
    a.rows = b.rows ↔ a.lines = b.lines ∧ a.code.map a.told = b.code.map b.told := by
  constructor
  · intro same
    refine ⟨Array.ext_getElem? (linesAgree pairedA pairedB same), Array.ext_getElem? fun k => ?_⟩
    rw [Array.getElem?_map, Array.getElem?_map]
    obtain ⟨noneA, _, noneB, _⟩ | ⟨_, _, _, _, here, _, here', _, _, told⟩ :=
      rowsAgree pairedA pairedB same k
    · rw [noneA, noneB]
      rfl
    · rw [here, here']
      exact congrArg some told
  · rintro ⟨lines, told⟩
    have sizes : a.size = b.size := by simpa [size] using congrArg Array.size told
    have lengths : a.rows.length = b.rows.length := by
      rw [rowsLength pairedA, rowsLength pairedB, sizes]
    refine List.ext_getElem? fun k => ?_
    by_cases inside : k < a.size
    · obtain ⟨i, line, here, marked⟩ := entryAt pairedA inside
      obtain ⟨j, line', here', marked'⟩ := entryAt pairedB (sizes ▸ inside)
      have toldHere := congrArg (·[k]?) told
      simp only [Array.getElem?_map, here, here', Option.map_some, Option.some.injEq] at toldHere
      rw [lines, marked', Option.some.injEq] at marked
      have mark : a.lineMark k line = b.lineMark k line' := by
        simp only [lineMark, sameLine, lines, marked]
      rw [rowsAt here (lines ▸ marked ▸ marked'), rowsAt here' marked', rowIff.mpr ⟨mark, toldHere⟩]
    · have outside := Nat.not_lt.mp inside
      rw [List.getElem?_eq_none (rowsLength pairedA ▸ outside),
        List.getElem?_eq_none (lengths ▸ rowsLength pairedA ▸ outside)]

theorem listingIff (listableA : a.Listable) (listableB : b.Listable) {label : Bytes}
    (labelled : newline ∉ label) :
    a.listing label = b.listing label ↔ a.lines = b.lines ∧ a.code.map a.told = b.code.map b.told := by
  rw [← rowsIff listableA.paired listableB.paired, listingRows, listingRows]
  constructor
  · intro same
    exact (List.cons.inj (Text.ofRowsInj (listableA.allUnbroken labelled)
      (listableB.allUnbroken labelled) same)).2
  · intro same
    rw [same]

theorem listingFaithful (listableA : a.Listable) (listableB : b.Listable) {label : Bytes}
    (labelled : newline ∉ label) :
    (a.listing label = b.listing label →
      a.size = b.size ∧ a.code.map Instruction.code = b.code.map Instruction.code ∧
      a.lines = b.lines ∧
      ∀ (k : Nat) (i j : Instruction), a.code[k]? = some i → b.code[k]? = some j →
        i.opcode? = some .constant →
        i.operand = j.operand ∧ a.constantText i.operand = b.constantText j.operand) ∧
    (a.lines = b.lines ∧ a.code.map a.told = b.code.map b.told →
      a.listing label = b.listing label) ∧
    newlines (a.listing label) = a.size + 1 ∧ (a.listing label).getLast? = some newline := by
  refine ⟨fun same => ?_, (listingIff listableA listableB labelled).mpr, ?_, ?_⟩
  · obtain ⟨lines, told⟩ := (listingIff listableA listableB labelled).mp same
    have codes := congrArg (Array.map Prod.fst) told
    refine ⟨by simpa [size] using congrArg Array.size told, ?_, lines, ?_⟩
    · simpa [Function.comp_def, Chunk.told] using codes
    · intro k i j here here' isConstant
      have toldHere := congrArg (·[k]?) told
      simp only [Array.getElem?_map, here, here', Option.map_some, Option.some.injEq] at toldHere
      exact (operandTold isConstant (opcodeTold toldHere ▸ isConstant)).mp toldHere
  · rw [listingRows, Text.ofRowsNewlines (listableA.allUnbroken labelled), List.length_cons,
      rowsLength listableA.paired]
  · rw [listingRows]
    exact Text.ofRowsLast (List.cons_ne_nil _ _)

def scattered (constants : Array Value) (unused : Int) : Chunk :=
  ⟨1, #[⟨0x00, 0⟩, ⟨0x00, -1⟩, ⟨0x77, unused⟩, ⟨0xf0, unused⟩], #[1234567, 1234567, -3, -3], constants⟩

theorem listingFaithfulScattered :
    let a := scattered #[.bool true] 5
    let b := scattered #[.string (utf8 "true"), .nil] (-5)
    a.Listable ∧ b.Listable ∧ newline ∉ utf8 "code" ∧ a ≠ b ∧
      a.listing (utf8 "code") = b.listing (utf8 "code") ∧
      a.code.map Instruction.code = b.code.map Instruction.code ∧ a.lines = b.lines ∧
      newlines (a.listing (utf8 "code")) = 5 := by
  intro a b
  have listableA : a.Listable := ⟨rfl, by simp [a, scattered]⟩
  have listableB : b.Listable := ⟨rfl, by simp +decide [b, scattered]⟩
  have labelled : newline ∉ utf8 "code" := by decide
  obtain ⟨apart, alike, count, _⟩ := listingFaithful listableA listableB labelled
  have same := alike ⟨rfl, by decide +kernel⟩
  obtain ⟨_, codes, lines, _⟩ := apart same
  exact ⟨listableA, listableB, labelled, by decide, same, codes, lines, count⟩

end Chunk
end ExprMachine
