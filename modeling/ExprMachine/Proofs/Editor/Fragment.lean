import ExprMachine.Editor.Position
import ExprMachine.Proofs.Text.Encoding
import Mathlib.Data.List.TakeWhile

/-! The word fragment in front of a position that was computed for a byte offset. Positions count
columns in UTF-16 units, and the fragment is looked for at that many bytes: it is the right one where
the line so far is ASCII, and otherwise the search stops short by the bytes beyond the units. -/
namespace ExprMachine.Editor

open Text (utf8 isValid newline newlines splitAt glyphs units16 Glyph isWordByte asciiWritten)
open String (utf8EncodeChar)

structure Fragment (s w : Bytes) : Prop where
  ends : w <:+ s
  letters : ∀ b ∈ w, isWordByte b = true
  longest : ∀ v, v <:+ s → (∀ b ∈ v, isWordByte b = true) → v.length ≤ w.length

def wordEnd (s : Bytes) : Bytes := (s.reverse.takeWhile isWordByte).reverse

theorem takeWhileLongest {p : UInt8 → Bool} {s v : Bytes} (front : v <+: s)
    (all : ∀ b ∈ v, p b = true) : v.length ≤ (s.takeWhile p).length := by
  obtain ⟨rest, rfl⟩ := front
  rw [List.takeWhile_append_of_pos all, List.length_append]
  exact Nat.le_add_right _ _

theorem wordEndFragment (s : Bytes) : Fragment s (wordEnd s) where
  ends := by
    rw [← List.reverse_prefix, wordEnd, List.reverse_reverse]
    exact List.takeWhile_prefix _
  letters b member := List.mem_takeWhile_imp (List.mem_reverse.mp member)
  longest v ends letters := by
    have bound := takeWhileLongest (List.reverse_prefix.mpr ends)
      fun b member => letters b (List.mem_reverse.mp member)
    simpa [wordEnd] using bound

theorem fragmentIff {s w : Bytes} : Fragment s w ↔ w = wordEnd s := by
  constructor
  · intro fragment
    have whole := wordEndFragment s
    have shorter := whole.longest w fragment.ends fragment.letters
    have longer := fragment.longest _ whole.ends whole.letters
    exact (List.suffix_of_suffix_length_le fragment.ends whole.ends shorter).eq_of_length_le longer
  · rintro rfl
    exact wordEndFragment s

theorem takeWhileDrop {p : UInt8 → Bool} {s : Bytes} {cut : Nat}
    (within : cut ≤ (s.takeWhile p).length) :
    (s.drop cut).takeWhile p = (s.takeWhile p).drop cut := by
  have whole := List.takeWhile_append_dropWhile (p := p) (l := s)
  have stops : (s.dropWhile p).takeWhile p = [] := by
    cases rest : s.dropWhile p with
    | nil => rfl
    | cons b others =>
      have head := List.head?_dropWhile_not p s
      rw [rest] at head
      have refused : p b = false := by simpa using head
      simp [refused]
  have inside : ∀ b ∈ (s.takeWhile p).drop cut, p b = true := fun b member =>
    List.mem_takeWhile_imp (List.mem_of_mem_drop member)
  calc (s.drop cut).takeWhile p
      = ((s.takeWhile p ++ s.dropWhile p).drop cut).takeWhile p := by rw [whole]
    _ = ((s.takeWhile p).drop cut ++ s.dropWhile p).takeWhile p := by
      rw [List.drop_append_of_le_length within]
    _ = (s.takeWhile p).drop cut := by
      rw [List.takeWhile_append_of_pos inside, stops, List.append_nil]

theorem wordEndCut {s : Bytes} {cut : Nat} (within : cut ≤ (wordEnd s).length) :
    wordEnd (s.take (s.length - cut)) = (wordEnd s).take ((wordEnd s).length - cut) := by
  rw [wordEnd, List.length_reverse] at within
  have reversed : (s.take (s.length - cut)).reverse = s.reverse.drop cut := by
    rw [List.drop_reverse]
  rw [wordEnd, reversed, takeWhileDrop within, List.reverse_drop, wordEnd, List.length_reverse]

/-! The line of a place. -/

theorem lastLineAfter (front : Bytes) {s : Bytes} (cut : newline ∈ s) :
    lastLine (front ++ s) = lastLine s := by
  have partly : (s.reverse.takeWhile (· != newline)).length ≠ s.reverse.length := by
    intro same
    have whole := (List.takeWhile_prefix (l := s.reverse) (· != newline)).eq_of_length same
    have member := List.mem_reverse.mpr cut
    rw [← whole] at member
    simpa using List.mem_takeWhile_imp member
  rw [lastLine, List.reverse_append, List.takeWhile_append, if_neg partly, lastLine]

theorem lastLineLonger (front : Bytes) {s : Bytes} (clear : newline ∉ s) :
    lastLine (front ++ s) = lastLine front ++ s := by
  have all : ∀ b ∈ s.reverse, (b != newline) = true := by
    intro b member
    rw [bne_iff_ne]
    rintro rfl
    exact clear (List.mem_reverse.mp member)
  rw [lastLine, List.reverse_append, List.takeWhile_append_of_pos all, List.reverse_append,
    List.reverse_reverse, lastLine]

theorem lastLineWhole {s : Bytes} (clear : newline ∉ s) : lastLine s = s :=
  lastLineLonger [] clear

theorem lastLineCons {b : UInt8} {front : Bytes} (cut : b = newline ∨ newline ∈ front) :
    lastLine (b :: front) = lastLine front := by
  by_cases more : newline ∈ front
  · exact lastLineAfter [b] more
  · rw [lastLineWhole more, cut.resolve_right more]
    exact lastLineLonger [newline] more

theorem splitHead (s : Bytes) :
    ∃ parts, splitAt newline s = s.takeWhile (· != newline) :: parts := by
  induction s with
  | nil => exact ⟨[], rfl⟩
  | cons b s ih =>
    obtain ⟨parts, cut⟩ := ih
    by_cases last : b = newline
    · exact ⟨s.takeWhile (· != newline) :: parts, by simp [splitAt, cut, last]⟩
    · exact ⟨parts, by simp [splitAt, cut, last]⟩

theorem splitLine (front rest : Bytes) :
    (splitAt newline (front ++ rest))[newlines front]? =
      some (lastLine front ++ rest.takeWhile (· != newline)) := by
  induction front with
  | nil =>
    obtain ⟨parts, cut⟩ := splitHead rest
    simp [cut, newlines, lastLine]
  | cons b front ih =>
    obtain ⟨parts, cut⟩ := splitHead (front ++ rest)
    rw [cut] at ih
    rw [List.cons_append, splitAt, cut]
    dsimp only
    by_cases last : b = newline
    · rw [if_pos last, lastLineCons (.inl last), ← ih, last]
      simp [newlines]
    · have count : newlines (b :: front) = newlines front := by simp [newlines, last]
      rw [if_neg last, count]
      by_cases more : newline ∈ front
      · obtain ⟨before, positive⟩ := Nat.exists_eq_succ_of_ne_zero
          (Nat.ne_of_gt (List.count_pos_iff.mpr more))
        change newlines front = before + 1 at positive
        rw [lastLineCons (.inr more), ← ih, positive]
        rfl
      · have zero : newlines front = 0 := List.count_eq_zero.mpr more
        have longer : newline ∉ b :: front :=
          List.not_mem_cons_of_ne_of_not_mem (Ne.symm last) more
        rw [zero, lastLineWhole more] at ih
        rw [zero, lastLineWhole longer]
        simpa using ih

/-! Units and bytes. -/

theorem unitsFewer {ch : Char} (beyond : 128 ≤ ch.toNat) :
    (Glyph.char ch).units16 < (utf8EncodeChar ch).length := by
  have code : ch.val.toNat = ch.toNat := rfl
  unfold Glyph.units16 utf8EncodeChar
  rw [code]
  dsimp only
  generalize ch.toNat = n at *
  have notOne : ¬ n ≤ 0x7f := by omega
  by_cases wide : n < 0x10000
  · have notFour : n ≤ 0xffff := by omega
    rw [if_pos wide, if_neg notOne, if_pos notFour]
    split <;> simp
  · have four : ¬ n ≤ 0x7ff ∧ ¬ n ≤ 0xffff := by omega
    rw [if_neg wide, if_neg notOne, if_neg four.1, if_neg four.2]
    simp

theorem charUnits (ch : Char) :
    (Glyph.char ch).units16 ≤ (utf8EncodeChar ch).length ∧
      ((Glyph.char ch).units16 = (utf8EncodeChar ch).length ↔ ∀ b ∈ utf8EncodeChar ch, b < 128) := by
  by_cases beyond : 128 ≤ ch.toNat
  · have fewer := unitsFewer beyond
    refine ⟨Nat.le_of_lt fewer, fun same => absurd same (Nat.ne_of_lt fewer), fun all => ?_⟩
    have some : utf8EncodeChar ch ≠ [] := by simp
    have first := (utf8EncodeChar ch).head_mem some
    exact absurd (asciiWritten first (all _ first)).2 (Nat.not_lt.mpr beyond)
  · have one : (Glyph.char ch).units16 = 1 := if_pos (by omega)
    have single : utf8EncodeChar ch = [UInt8.ofNat ch.toNat] :=
      if_pos (by change ch.toNat ≤ _; omega)
    have ascii : UInt8.ofNat ch.toNat < 128 := by
      rw [UInt8.lt_iff_toNat_lt, Text.byteValue (by omega)]
      exact Nat.not_le.mp beyond
    simp [single, one, ascii]

theorem glyphUnits (g : Glyph) : g.units16 ≤ g.bytes.length := by
  cases g with
  | char ch => exact (charUnits ch).1
  | stray b => exact Nat.le_refl 1

theorem glyphsUnits (gs : List Glyph) :
    gs.foldr (·.units16 + ·) 0 ≤ (gs.flatMap Glyph.bytes).length := by
  induction gs with
  | nil => exact Nat.le_refl 0
  | cons g gs ih =>
    rw [List.foldr_cons, List.flatMap_cons, List.length_append]
    exact Nat.add_le_add (glyphUnits g) ih

theorem charsUnits (chars : List Char) :
    (chars.map Glyph.char).foldr (·.units16 + ·) 0 =
        ((chars.map Glyph.char).flatMap Glyph.bytes).length ↔
      ∀ b ∈ (chars.map Glyph.char).flatMap Glyph.bytes, b < 128 := by
  induction chars with
  | nil => simp
  | cons ch chars ih =>
    have here := charUnits ch
    have rest := glyphsUnits (chars.map .char)
    rw [List.map_cons, List.foldr_cons, List.flatMap_cons, List.length_append,
      List.forall_mem_append, ← ih, Glyph.bytes, ← here.2]
    omega

theorem unitsBound (s : Bytes) : units16 s ≤ s.length := by
  have bound := glyphsUnits (glyphs s)
  rwa [Text.glyphsBytes] at bound

theorem unitsAscii {s : Bytes} (valid : isValid s = true) :
    units16 s = s.length ↔ ∀ b ∈ s, b < 128 := by
  obtain ⟨chars, same⟩ := Text.charsOnly valid
  have counted := charsUnits chars
  rwa [← same, Text.glyphsBytes] at counted

theorem lastLineWritten (ch : Char) :
    lastLine (utf8EncodeChar ch) = [] ∨ lastLine (utf8EncodeChar ch) = utf8EncodeChar ch := by
  by_cases cut : newline ∈ utf8EncodeChar ch
  · rw [(asciiWritten cut (by decide)).1]
    exact .inl rfl
  · exact .inr (lastLineWhole cut)

theorem lastLineChars (chars : List Char) :
    ∃ others : List Char,
      lastLine (chars.flatMap utf8EncodeChar) = others.flatMap utf8EncodeChar := by
  induction chars with
  | nil => exact ⟨[], rfl⟩
  | cons ch chars ih =>
    rw [List.flatMap_cons]
    by_cases cut : newline ∈ chars.flatMap utf8EncodeChar
    · rw [lastLineAfter _ cut]
      exact ih
    · rw [lastLineLonger _ cut]
      rcases lastLineWritten ch with none | whole
      · exact ⟨chars, by rw [none, List.nil_append]⟩
      · exact ⟨ch :: chars, by rw [whole, List.flatMap_cons]⟩

theorem lastLineValid {s : Bytes} (valid : isValid s = true) : isValid (lastLine s) = true := by
  obtain ⟨text, rfl⟩ := Text.isValidIff.mp valid
  obtain ⟨others, same⟩ := lastLineChars text.toList
  exact Text.isValidIff.mpr ⟨String.ofList others, by rw [utf8, same, utf8, String.toList_ofList]⟩

theorem positionFits {text : Bytes} (short : text.length < 0x1_0000_0000) (offset : Nat) :
    positionAt text offset =
      ⟨newlines (text.take offset), units16 (lastLine (text.take offset))⟩ := by
  have front : (text.take offset).length ≤ text.length := List.length_take_le' _ _
  have lines : newlines (text.take offset) ≤ _ := List.count_le_length
  have column := unitsBound (lastLine (text.take offset))
  have line : (lastLine (text.take offset)).length ≤ (text.take offset).length := by
    have kept := (List.takeWhile_prefix (l := (text.take offset).reverse) (· != newline)).length_le
    simpa [lastLine] using kept
  rw [positionAt, Nat.mod_eq_of_lt (by omega), Nat.mod_eq_of_lt (by omega)]

theorem fragmentFound {text : Bytes} {offset : Nat} (short : text.length < 0x1_0000_0000) :
    wordBefore text (positionAt text offset) =
      wordEnd ((lastLine (text.take offset)).take (units16 (lastLine (text.take offset)))) := by
  have line := splitLine (text.take offset) (text.drop offset)
  rw [List.take_append_drop] at line
  simp only [wordBefore, positionFits short, line]
  rw [List.take_append_of_le_length (unitsBound _), wordEnd]

theorem fragmentReadBack {text : Bytes} {offset : Nat} (short : text.length < 0x1_0000_0000)
    (boundary : isValid (text.take offset) = true) :
    let before := lastLine (text.take offset)
    let found := wordBefore text (positionAt text offset)
    Fragment (before.take (units16 before)) found ∧
    ((∀ b ∈ before, b < 128) → Fragment before found) ∧
    (¬ (∀ b ∈ before, b < 128) → units16 before < before.length ∧
      ∀ w, Fragment before w → before.length ≤ units16 before + w.length →
        found = w.take (units16 before + w.length - before.length)) := by
  intro before found
  have exactly : found = wordEnd (before.take (units16 before)) := fragmentFound short
  have bound := unitsBound before
  have ascii := unitsAscii (lastLineValid boundary)
  change units16 before = before.length ↔ _ at ascii
  refine ⟨fragmentIff.mpr exactly, fun all => ?_, fun other => ?_⟩
  · rw [fragmentIff, exactly, ascii.mpr all, List.take_length]
  · have fewer : units16 before < before.length :=
      Nat.lt_of_le_of_ne bound fun same => other (ascii.mp same)
    refine ⟨fewer, fun w fragment long => ?_⟩
    rw [fragmentIff.mp fragment] at long ⊢
    have cut := @wordEndCut before (before.length - units16 before) (by omega)
    have kept : before.length - (before.length - units16 before) = units16 before := by omega
    have surplus : (wordEnd before).length - (before.length - units16 before) =
        units16 before + (wordEnd before).length - before.length := by omega
    rw [kept, surplus] at cut
    rw [exactly, cut]

theorem fragmentReadBackAccented :
    (utf8 "\"é\" f").length < 0x1_0000_0000 ∧ isValid ((utf8 "\"é\" f").take 6) = true ∧
    wordBefore (utf8 "\"é\" f") (positionAt (utf8 "\"é\" f") 6) = [] := by
  have short : (utf8 "\"é\" f").length < 0x1_0000_0000 := by decide +kernel
  have boundary : isValid ((utf8 "\"é\" f").take 6) = true := by decide +kernel
  have long : (lastLine ((utf8 "\"é\" f").take 6)).length ≤
      units16 (lastLine ((utf8 "\"é\" f").take 6)) + (utf8 "f").length := by decide +kernel
  have word : Fragment (lastLine ((utf8 "\"é\" f").take 6)) (utf8 "f") :=
    fragmentIff.mpr (by decide +kernel)
  refine ⟨short, boundary, ?_⟩
  rw [((fragmentReadBack short boundary).2.2 (by decide +kernel)).2 (utf8 "f") word long]
  decide +kernel

theorem fragmentNotAlwaysFound :
    ¬ ∀ (text : Bytes) (offset : Nat), isValid text = true → isValid (text.take offset) = true →
      Fragment (lastLine (text.take offset)) (wordBefore text (positionAt text offset)) := by
  intro always
  have claimed := always (utf8 "\"é\" f") 6 (by decide +kernel) (by decide +kernel)
  rw [fragmentIff] at claimed
  revert claimed
  decide +kernel

end ExprMachine.Editor
