import ExprMachine.Text.Utf8

/-! Byte strings are well formed exactly when they are encoded texts: reading a character at the
start of a byte string undoes writing it, and nothing else is read as a character. -/
namespace ExprMachine.Text

open String (utf8EncodeChar)

def IsTail (b : UInt8) : Prop := 128 ≤ b.toNat ∧ b.toNat < 192

theorem isContinuationIff {b : UInt8} : isContinuation b = true ↔ IsTail b := by
  simp [isContinuation, IsTail, UInt8.le_iff_toNat_le, UInt8.lt_iff_toNat_lt]

inductive Leads (n : Nat) : Bytes → Prop where
  | one {a rest} (first : a.toNat < 128) (code : n = a.toNat) : Leads n (a :: rest)
  | two {a b rest} (first : 192 ≤ a.toNat ∧ a.toNat < 224) (second : IsTail b)
      (code : n = a.toNat % 32 * 64 + payload b) (least : 0x80 ≤ n) : Leads n (a :: b :: rest)
  | three {a b c rest} (first : 224 ≤ a.toNat ∧ a.toNat < 240) (second : IsTail b)
      (third : IsTail c) (code : n = a.toNat % 16 * 4096 + payload b * 64 + payload c)
      (least : 0x800 ≤ n) : Leads n (a :: b :: c :: rest)
  | four {a b c d rest} (first : 240 ≤ a.toNat ∧ a.toNat < 248) (second : IsTail b)
      (third : IsTail c) (fourth : IsTail d)
      (code : n = a.toNat % 8 * 262144 + payload b * 4096 + payload c * 64 + payload d)
      (least : 0x10000 ≤ n) : Leads n (a :: b :: c :: d :: rest)

theorem ofNatToNat {n : Nat} (valid : n.isValidChar) : (Char.ofNat n).toNat = n := by
  rw [Char.ofNat, dif_pos valid]
  rfl

theorem charFromIff {least n : Nat} {ch : Char} :
    charFrom? least n = some ch ↔ ch.toNat = n ∧ least ≤ ch.toNat := by
  unfold charFrom?
  split
  · next both =>
    constructor
    · intro same
      rw [← Option.some.inj same, ofNatToNat both.2]
      exact ⟨rfl, both.1⟩
    · rintro ⟨rfl, _⟩
      rw [Char.ofNat_toNat]
  · next neither =>
    constructor
    · intro absent
      contradiction
    · rintro ⟨rfl, enough⟩
      exact absurd ⟨enough, ch.valid⟩ neither

theorem asciiIff {a : UInt8} (first : a < 128) {ch : Char} :
    some (Char.ofNat a.toNat) = some ch ↔ ch.toNat = a.toNat := by
  have small : a.toNat < 128 := first
  constructor
  · intro same
    rw [← Option.some.inj same, ofNatToNat (.inl (by omega))]
  · intro same
    rw [← same, Char.ofNat_toNat]

section Reading

variable {a b c d : UInt8} {rest : Bytes} {ch : Char}

theorem leadsOne (first : a < 128) (found : some (Char.ofNat a.toNat) = some ch) :
    Leads ch.toNat (a :: rest) := .one first ((asciiIff first).mp found)

theorem leadsTwo (first : ¬ a < 192) (short : a < 224) (second : isContinuation b = true)
    (found : charFrom? 0x80 (a.toNat % 32 * 64 + payload b) = some ch) :
    Leads ch.toNat (a :: b :: rest) := by
  obtain ⟨code, least⟩ := charFromIff.mp found
  exact .two ⟨Nat.not_lt.mp first, short⟩ (isContinuationIff.mp second) code least

theorem leadsThree (first : ¬ a < 224) (short : a < 240) (second : isContinuation b = true)
    (third : isContinuation c = true)
    (found : charFrom? 0x800 (a.toNat % 16 * 4096 + payload b * 64 + payload c) = some ch) :
    Leads ch.toNat (a :: b :: c :: rest) := by
  obtain ⟨code, least⟩ := charFromIff.mp found
  exact .three ⟨Nat.not_lt.mp first, short⟩ (isContinuationIff.mp second)
    (isContinuationIff.mp third) code least

theorem leadsFour (first : ¬ a < 240) (short : a < 248) (second : isContinuation b = true)
    (third : isContinuation c = true) (fourth : isContinuation d = true)
    (found : charFrom? 0x10000
      (a.toNat % 8 * 262144 + payload b * 4096 + payload c * 64 + payload d) = some ch) :
    Leads ch.toNat (a :: b :: c :: d :: rest) := by
  obtain ⟨code, least⟩ := charFromIff.mp found
  exact .four ⟨Nat.not_lt.mp first, short⟩ (isContinuationIff.mp second)
    (isContinuationIff.mp third) (isContinuationIff.mp fourth) code least

end Reading

theorem leadingLeads {s : Bytes} {ch : Char} (found : leadingChar? s = some ch) :
    Leads ch.toNat s := by
  unfold leadingChar? at found
  split at found
  · split at found
    · next first => exact leadsOne first found
    split at found
    · contradiction
    next later =>
    simp only [Bool.or_eq_true, decide_eq_true_eq, Bool.not_eq_true', not_or,
      Bool.not_eq_false] at later
    split at found
    · next short => exact leadsTwo later.1 short later.2 found
    next long =>
    split at found
    · contradiction
    next third =>
    simp only [Bool.not_eq_true', Bool.not_eq_false] at third
    split at found
    · next short => exact leadsThree long short later.2 third found
    next longer =>
    split at found
    · next fourth =>
      simp only [Bool.and_eq_true, decide_eq_true_eq] at fourth
      exact leadsFour longer fourth.1 later.2 third fourth.2 found
    · contradiction
  · split at found
    · next first => exact leadsOne first found
    split at found
    · contradiction
    next later =>
    simp only [Bool.or_eq_true, decide_eq_true_eq, Bool.not_eq_true', not_or,
      Bool.not_eq_false] at later
    split at found
    · next short => exact leadsTwo later.1 short later.2 found
    next long =>
    split at found
    · next third =>
      simp only [Bool.and_eq_true, decide_eq_true_eq] at third
      exact leadsThree long third.1 later.2 third.2 found
    · contradiction
  · split at found
    · next first => exact leadsOne first found
    split at found
    · next second =>
      simp only [Bool.and_eq_true, decide_eq_true_eq] at second
      exact leadsTwo (UInt8.not_lt.mpr second.1.1) second.1.2 second.2 found
    · contradiction
  · split at found
    · next first => exact leadsOne first found
    · contradiction
  · contradiction

theorem notBelow {a m : UInt8} {n : Nat} (least : n ≤ a.toNat) (below : m.toNat ≤ n) : ¬ a < m := by
  rw [UInt8.lt_iff_toNat_lt]
  omega

theorem leadsLeading {s : Bytes} {ch : Char} (leads : Leads ch.toNat s) :
    leadingChar? s = some ch := by
  cases leads with
  | @one a rest first code =>
    have found := (asciiIff first).mpr code
    have small : a < 128 := first
    rcases rest with _ | ⟨b, _ | ⟨c, _ | ⟨d, rest⟩⟩⟩ <;> simp only [leadingChar?, small, found, ↓reduceIte]
  | @two a b rest first second code least =>
    have found := charFromIff.mpr ⟨code, least⟩
    have second := isContinuationIff.mpr second
    have start : ¬ a < 128 ∧ ¬ a < 192 ∧ a < 224 :=
      ⟨notBelow first.1 (by decide), notBelow first.1 (by decide), first.2⟩
    have high : 192 ≤ a := UInt8.not_lt.mp start.2.1
    rcases rest with _ | ⟨c, _ | ⟨d, rest⟩⟩ <;> simp [leadingChar?, start, high, second, found]
  | @three a b c rest first second third code least =>
    have found := charFromIff.mpr ⟨code, least⟩
    have start : ¬ a < 128 ∧ ¬ a < 192 ∧ ¬ a < 224 ∧ a < 240 :=
      ⟨notBelow first.1 (by decide), notBelow first.1 (by decide),
        notBelow first.1 (by decide), first.2⟩
    have second := isContinuationIff.mpr second
    have third := isContinuationIff.mpr third
    rcases rest with _ | ⟨d, rest⟩ <;> simp [leadingChar?, start, second, third, found]
  | @four a b c d rest first second third fourth code least =>
    have found := charFromIff.mpr ⟨code, least⟩
    have start : ¬ a < 128 ∧ ¬ a < 192 ∧ ¬ a < 224 ∧ ¬ a < 240 ∧ a < 248 :=
      ⟨notBelow first.1 (by decide), notBelow first.1 (by decide),
        notBelow first.1 (by decide), notBelow first.1 (by decide), first.2⟩
    have second := isContinuationIff.mpr second
    have third := isContinuationIff.mpr third
    have fourth := isContinuationIff.mpr fourth
    simp [leadingChar?, start, second, third, fourth, found]

theorem leadsWritten {s : Bytes} {ch : Char} (leads : Leads ch.toNat s) :
    ∃ rest, s = utf8EncodeChar ch ++ rest := by
  have code : ch.val.toNat = ch.toNat := rfl
  unfold utf8EncodeChar
  rw [code]
  generalize ch.toNat = n at leads
  cases leads with
  | @one a rest first code =>
    refine ⟨rest, ?_⟩
    simp only [show n ≤ 0x7f by omega, ↓reduceIte, List.singleton_append, List.cons.injEq, and_true]
    rw [code, UInt8.ofNat_toNat]
  | @two a b rest first second code least =>
    refine ⟨rest, ?_⟩
    unfold IsTail at second
    unfold payload at code
    simp only [show ¬ n ≤ 0x7f by omega, show n ≤ 0x7ff by omega, ↓reduceIte, List.cons_append,
      List.nil_append, List.cons.injEq, and_true, ← UInt8.toNat_inj, UInt8.toNat_ofNat']
    omega
  | @three a b c rest first second third code least =>
    refine ⟨rest, ?_⟩
    unfold IsTail at second third
    unfold payload at code
    simp only [show ¬ n ≤ 0x7f by omega, show ¬ n ≤ 0x7ff by omega, show n ≤ 0xffff by omega,
      ↓reduceIte, List.cons_append, List.nil_append, List.cons.injEq, and_true, ← UInt8.toNat_inj,
      UInt8.toNat_ofNat']
    omega
  | @four a b c d rest first second third fourth code least =>
    refine ⟨rest, ?_⟩
    unfold IsTail at second third fourth
    unfold payload at code
    simp only [show ¬ n ≤ 0x7f by omega, show ¬ n ≤ 0x7ff by omega, show ¬ n ≤ 0xffff by omega,
      ↓reduceIte, List.cons_append, List.nil_append, List.cons.injEq, and_true, ← UInt8.toNat_inj,
      UInt8.toNat_ofNat']
    omega

theorem byteValue {n : Nat} (small : n < 256) : (UInt8.ofNat n).toNat = n := by
  rw [UInt8.toNat_ofNat']
  omega

theorem writtenLeads (ch : Char) (rest : Bytes) : Leads ch.toNat (utf8EncodeChar ch ++ rest) := by
  have code : ch.val.toNat = ch.toNat := rfl
  have valid : ch.toNat < 0x110000 := by
    rcases ch.valid with low | high
    · exact Nat.lt_trans low (by decide)
    · exact high.2
  unfold utf8EncodeChar
  rw [code]
  generalize ch.toNat = n at valid
  dsimp only
  split
  · have first := byteValue (show n < 256 by omega)
    exact .one (by omega) first.symm
  have last := byteValue (show n % 64 + 128 < 256 by omega)
  split
  · have first := byteValue (show n / 64 % 32 + 192 < 256 by omega)
    exact .two (by omega) (by unfold IsTail; omega) (by unfold payload; omega) (by omega)
  have middle := byteValue (show n / 64 % 64 + 128 < 256 by omega)
  split
  · have first := byteValue (show n / 4096 % 16 + 224 < 256 by omega)
    exact .three (by omega) (by unfold IsTail; omega) (by unfold IsTail; omega)
      (by unfold payload; omega) (by omega)
  · have first := byteValue (show n / 262144 % 8 + 240 < 256 by omega)
    have second := byteValue (show n / 4096 % 64 + 128 < 256 by omega)
    exact .four (by omega) (by unfold IsTail; omega) (by unfold IsTail; omega)
      (by unfold IsTail; omega) (by unfold payload; omega) (by omega)

theorem asciiWritten {ch : Char} {b : UInt8} (member : b ∈ utf8EncodeChar ch) (ascii : b < 128) :
    utf8EncodeChar ch = [b] ∧ ch.toNat < 128 := by
  have code : ch.val.toNat = ch.toNat := rfl
  unfold utf8EncodeChar at member ⊢
  rw [code] at member ⊢
  generalize ch.toNat = n at *
  have small : b.toNat < 128 := ascii
  have high : ∀ k, 128 ≤ k → k < 256 → b ≠ UInt8.ofNat k := by
    rintro k least bound rfl
    rw [byteValue bound] at small
    omega
  dsimp only at member ⊢
  split at member
  · next first =>
    rw [if_pos first, List.mem_singleton.mp member]
    exact ⟨rfl, by omega⟩
  split at member
  · simp only [List.mem_cons, List.not_mem_nil, or_false] at member
    rcases member with same | same <;> exact absurd same (high _ (by omega) (by omega))
  split at member
  · simp only [List.mem_cons, List.not_mem_nil, or_false] at member
    rcases member with same | same | same <;> exact absurd same (high _ (by omega) (by omega))
  · simp only [List.mem_cons, List.not_mem_nil, or_false] at member
    rcases member with same | same | same | same <;>
      exact absurd same (high _ (by omega) (by omega))

theorem leadingIff {s : Bytes} {ch : Char} :
    leadingChar? s = some ch ↔ ∃ rest, s = utf8EncodeChar ch ++ rest := by
  constructor
  · intro found
    exact leadsWritten (leadingLeads found)
  · rintro ⟨rest, rfl⟩
    exact leadsLeading (writtenLeads ch rest)

theorem leadingRest {b : UInt8} {rest others : Bytes} {ch : Char}
    (same : b :: rest = utf8EncodeChar ch ++ others) : rest.drop (charWidth ch - 1) = others := by
  unfold charWidth
  cases written : utf8EncodeChar ch with
  | nil => exact absurd written (by simp)
  | cons first tail =>
    rw [written, List.cons_append] at same
    simp [(List.cons.inj same).2]

theorem glyphsWritten (ch : Char) (rest : Bytes) :
    glyphs (utf8EncodeChar ch ++ rest) = .char ch :: glyphs rest := by
  have found : leadingChar? (utf8EncodeChar ch ++ rest) = some ch := leadingIff.mpr ⟨rest, rfl⟩
  generalize whole : utf8EncodeChar ch ++ rest = s at found
  cases s with
  | nil => exact absurd (List.append_eq_nil_iff.mp whole).1 (by simp)
  | cons b tail =>
    rw [glyphs, found]
    exact congrArg (fun others => Glyph.char ch :: glyphs others) (leadingRest whole.symm)

theorem glyphsBytes (s : Bytes) : (glyphs s).flatMap Glyph.bytes = s := by
  fun_induction glyphs s with
  | case1 => rfl
  | case2 b rest ch found ih =>
    obtain ⟨others, same⟩ := leadingIff.mp found
    rw [List.flatMap_cons, ih, leadingRest same, same]
    rfl
  | case3 b rest stray ih =>
    rw [List.flatMap_cons, ih]
    rfl

theorem charsOnly {gs : List Glyph} (all : gs.all Glyph.isChar = true) :
    ∃ chars : List Char, gs = chars.map .char := by
  induction gs with
  | nil => exact ⟨[], rfl⟩
  | cons g rest ih =>
    rw [List.all_cons, Bool.and_eq_true] at all
    obtain ⟨chars, rfl⟩ := ih all.2
    cases g with
    | char ch => exact ⟨ch :: chars, rfl⟩
    | stray b => exact absurd all.1 (by simp [Glyph.isChar])

theorem isValidIff {s : Bytes} : isValid s = true ↔ ∃ text, s = utf8 text := by
  constructor
  · intro valid
    obtain ⟨chars, same⟩ := charsOnly valid
    refine ⟨String.ofList chars, ?_⟩
    rw [utf8, String.toList_ofList, ← glyphsBytes s, same, List.flatMap_map]
    rfl
  · rintro ⟨text, rfl⟩
    unfold utf8 isValid
    induction text.toList with
    | nil => simp [glyphs]
    | cons ch rest ih =>
      rw [List.flatMap_cons, glyphsWritten]
      simpa [Glyph.isChar] using ih

end ExprMachine.Text
