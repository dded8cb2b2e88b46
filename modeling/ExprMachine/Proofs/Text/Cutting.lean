import ExprMachine.Proofs.Text.Encoding

/-! Cutting byte strings. An ASCII byte is always a character of its own, so that next to one a text
can be cut, and its characters are those of the two parts. -/
namespace ExprMachine.Text

open String (utf8EncodeChar)

theorem headBefore {a rest others : Bytes} {b : UInt8} {ch : Char}
    (ascii : ∀ x ∈ rest.head?, x < 128)
    (starts : b :: (a ++ rest) = utf8EncodeChar ch ++ others) :
    ∃ later, b :: a = utf8EncodeChar ch ++ later := by
  rw [← List.cons_append, List.append_eq_append_iff] at starts
  rcases starts with ⟨inside, written, cut⟩ | ⟨later, whole, _⟩
  · cases inside with
    | nil => exact ⟨[], by rw [written, List.append_nil, List.append_nil]⟩
    | cons x inside =>
      -- the character would have to go on with an ASCII byte
      have small : x < 128 := ascii x (by rw [cut]; rfl)
      have alone := (asciiWritten (by rw [written]; simp) small).1
      rw [alone] at written
      simp at written
  · exact ⟨later, whole⟩

theorem glyphsBefore {a rest : Bytes} (ascii : ∀ x ∈ rest.head?, x < 128) :
    glyphs (a ++ rest) = glyphs a ++ glyphs rest := by
  fun_induction glyphs a with
  | case1 => simp
  | case2 b a ch found ih =>
    obtain ⟨others, same⟩ := leadingIff.mp found
    rw [leadingRest same] at ih
    rw [same, List.append_assoc, glyphsWritten, ih, leadingRest same]
    rfl
  | case3 b a stray ih =>
    have stays : leadingChar? (b :: (a ++ rest)) = none := by
      refine Option.eq_none_iff_forall_ne_some.mpr fun ch found => ?_
      obtain ⟨others, starts⟩ := leadingIff.mp found
      rw [leadingIff.mpr (headBefore ascii starts)] at stray
      contradiction
    rw [List.cons_append, glyphs, stays, ih]
    rfl

theorem asciiEncoded {b : UInt8} (ascii : b < 128) : utf8EncodeChar (Char.ofNat b.toNat) = [b] := by
  have small : b.toNat < 128 := ascii
  have code : (Char.ofNat b.toNat).toNat = b.toNat := ofNatToNat (.inl (by omega))
  have single : utf8EncodeChar (Char.ofNat b.toNat) = [UInt8.ofNat (Char.ofNat b.toNat).toNat] :=
    if_pos (by change (Char.ofNat b.toNat).toNat ≤ _; omega)
  rw [single, code, UInt8.ofNat_toNat]

theorem glyphsAscii {b : UInt8} (ascii : b < 128) (rest : Bytes) :
    glyphs (b :: rest) = .char (Char.ofNat b.toNat) :: glyphs rest := by
  have written := glyphsWritten (Char.ofNat b.toNat) rest
  rwa [asciiEncoded ascii] at written

theorem glyphsBehind {a : Bytes} (ascii : ∀ x ∈ a.getLast?, x < 128) (rest : Bytes) :
    glyphs (a ++ rest) = glyphs a ++ glyphs rest := by
  rcases List.eq_nil_or_concat a with rfl | ⟨before, x, rfl⟩
  · simp [glyphs]
  rw [List.concat_eq_append] at ascii ⊢
  have small : x < 128 := ascii x (by simp)
  have head : ∀ y ∈ (x :: rest).head?, y < 128 := fun y first => Option.some.inj first ▸ small
  have alone : ∀ y ∈ [x].head?, y < 128 := fun y first => Option.some.inj first ▸ small
  calc glyphs (before ++ [x] ++ rest)
      = glyphs before ++ glyphs (x :: rest) := by rw [List.append_assoc, ← glyphsBefore head]; rfl
    _ = glyphs before ++ glyphs [x] ++ glyphs rest := by
      rw [glyphsAscii small, glyphsAscii small, List.append_assoc, glyphs]; rfl
    _ = glyphs (before ++ [x]) ++ glyphs rest := by rw [glyphsBefore alone]

theorem glyphsBehindValid {a : Bytes} (valid : isValid a = true) (rest : Bytes) :
    glyphs (a ++ rest) = glyphs a ++ glyphs rest := by
  obtain ⟨text, rfl⟩ := isValidIff.mp valid
  unfold utf8
  induction text.toList with
  | nil => simp [glyphs]
  | cons ch chars ih =>
    rw [List.flatMap_cons, List.append_assoc, glyphsWritten, glyphsWritten, ih]
    rfl

/-! What the characters of the parts say of the whole. -/

theorem validParts {a b : Bytes} (parts : glyphs (a ++ b) = glyphs a ++ glyphs b)
    (valid : isValid (a ++ b) = true) : isValid a = true ∧ isValid b = true := by
  rw [isValid, parts, List.all_append, Bool.and_eq_true] at valid
  exact valid

theorem unitsOnward (gs : List Glyph) (units : Nat) :
    gs.foldr (·.units16 + ·) units = gs.foldr (·.units16 + ·) 0 + units := by
  induction gs with
  | nil => exact (Nat.zero_add units).symm
  | cons g gs ih => rw [List.foldr_cons, List.foldr_cons, ih, Nat.add_assoc]

theorem unitsParts {a b : Bytes} (parts : glyphs (a ++ b) = glyphs a ++ glyphs b) :
    units16 (a ++ b) = units16 a + units16 b := by
  rw [units16, parts, List.foldr_append, unitsOnward]
  rfl

def Seam (s : Bytes) (offset : Nat) : Prop :=
  (∀ x ∈ (s.take offset).getLast?, x < 128) ∨ (∀ x ∈ (s.drop offset).head?, x < 128)

theorem Seam.valid {s : Bytes} {offset : Nat} (seam : Seam s offset) (valid : isValid s = true) :
    isValid (s.take offset) = true ∧ isValid (s.drop offset) = true := by
  rw [← List.take_append_drop offset s] at valid
  rcases seam with behind | before
  · exact validParts (glyphsBehind behind _) valid
  · exact validParts (glyphsBefore before) valid

end ExprMachine.Text
