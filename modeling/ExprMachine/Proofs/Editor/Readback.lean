import ExprMachine.Proofs.Editor.Fragment
import ExprMachine.Proofs.Text.Cutting

/-! Reading a position back: the line is looked up, and characters are taken from it until they fill
the units of the column. The position of a place between characters leads back to that place. -/
namespace ExprMachine.Editor

open Text (isValid newline newlines splitAt glyphs Glyph)

def bytesFor? : List Glyph → Nat → Option Nat
  | _, 0 => some 0
  | [], _ + 1 => none
  | g :: gs, units + 1 =>
    if g.units16 ≤ units + 1 then (bytesFor? gs (units + 1 - g.units16)).map (g.bytes.length + ·)
    else none

def offsetAt? (text : Bytes) (p : Position) : Option Nat := do
  let lines := splitAt newline text
  let inside ← bytesFor? (glyphs (← lines[p.line]?)) p.character
  some ((lines.take p.line).foldr (·.length + 1 + ·) inside)

theorem unitsPositive (g : Glyph) : 0 < g.units16 := by
  cases g with
  | char ch =>
    unfold Glyph.units16
    dsimp only
    split <;> decide
  | stray b => exact Nat.one_pos

theorem bytesFilled (gs others : List Glyph) :
    bytesFor? (gs ++ others) (gs.foldr (·.units16 + ·) 0) =
      some (gs.flatMap Glyph.bytes).length := by
  induction gs with
  | nil => cases others <;> rfl
  | cons g gs ih =>
    have positive := unitsPositive g
    obtain ⟨units, more⟩ : ∃ units, g.units16 + gs.foldr (·.units16 + ·) 0 = units + 1 :=
      ⟨_, (Nat.succ_pred_eq_of_pos (by omega)).symm⟩
    rw [List.foldr_cons, more, List.cons_append, bytesFor?, ← more, if_pos (Nat.le_add_right _ _),
      Nat.add_sub_cancel_left, ih, List.flatMap_cons, List.length_append]
    rfl

theorem linesBefore (front rest : Bytes) :
    ((splitAt newline (front ++ rest)).take (newlines front)).foldr (·.length + 1 + ·)
      (lastLine front).length = front.length := by
  induction front with
  | nil => rfl
  | cons b front ih =>
    obtain ⟨parts, cut⟩ := splitHead (front ++ rest)
    rw [cut] at ih
    rw [List.cons_append, splitAt, cut, List.length_cons, ← ih]
    dsimp only
    by_cases last : b = newline
    · have count : newlines (b :: front) = newlines front + 1 := by simp [newlines, last]
      rw [if_pos last, count, lastLineCons (.inl last), List.take_succ_cons, List.foldr_cons,
        List.length_nil]
      omega
    have count : newlines (b :: front) = newlines front := by simp [newlines, last]
    rw [if_neg last, count]
    by_cases more : newline ∈ front
    · obtain ⟨before, positive⟩ := Nat.exists_eq_succ_of_ne_zero
        (Nat.ne_of_gt (List.count_pos_iff.mpr more))
      change newlines front = before + 1 at positive
      rw [positive, lastLineCons (.inr more), List.take_succ_cons, List.take_succ_cons,
        List.foldr_cons, List.foldr_cons, List.length_cons]
      omega
    · have zero : newlines front = 0 := List.count_eq_zero.mpr more
      have longer : newline ∉ b :: front :=
        List.not_mem_cons_of_ne_of_not_mem (Ne.symm last) more
      rw [zero, lastLineWhole more, lastLineWhole longer]
      rfl

theorem offsetRead {text : Bytes} {offset : Nat} (short : text.length < 0x1_0000_0000)
    (within : offset ≤ text.length) (boundary : isValid (text.take offset) = true) :
    offsetAt? text (positionAt text offset) = some offset := by
  have line := splitLine (text.take offset) (text.drop offset)
  have before := linesBefore (text.take offset) (text.drop offset)
  rw [List.take_append_drop] at line before
  have filled := bytesFilled (glyphs (lastLine (text.take offset)))
    (glyphs ((text.drop offset).takeWhile (· != newline)))
  rw [Text.glyphsBytes] at filled
  change bytesFor? _ (Text.units16 _) = _ at filled
  simp only [offsetAt?, positionFits short, line, Text.glyphsBehindValid (lastLineValid boundary),
    filled, Option.bind_eq_bind, Option.bind_some, before, List.length_take_of_le within]

end ExprMachine.Editor
