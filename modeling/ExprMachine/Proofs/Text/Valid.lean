import ExprMachine.Proofs.Text.Cutting
import ExprMachine.Proofs.Text.Visible

/-! Texts that are put together from encoded texts are encoded texts, and so is what digits and other
ASCII bytes make up. -/
namespace ExprMachine

namespace Text

theorem emptyValid : isValid [] = true := isValidIff.mpr ⟨"", rfl⟩

@[simp] theorem literalValid (text : String) : isValid (utf8 text) = true :=
  isValidIff.mpr ⟨text, rfl⟩

@[simp] theorem validBehind {a : Bytes} (first : isValid a = true) (b : Bytes) :
    isValid (a ++ b) = isValid b := by
  rw [isValid, glyphsBehindValid first, List.all_append]
  exact (Bool.and_eq_right_iff_imp.mpr fun _ => first)

theorem appendValid {a b : Bytes} (first : isValid a = true) (second : isValid b = true) :
    isValid (a ++ b) = true := (validBehind first b).trans second

theorem flattenValid {pieces : List Bytes} (each : ∀ piece ∈ pieces, isValid piece = true) :
    isValid pieces.flatten = true := by
  induction pieces with
  | nil => exact emptyValid
  | cons piece pieces ih =>
    obtain ⟨first, others⟩ := List.forall_mem_cons.mp each
    exact appendValid first (ih others)

theorem flatMapValid {α : Type} {xs : List α} {f : α → Bytes}
    (each : ∀ x ∈ xs, isValid (f x) = true) : isValid (xs.flatMap f) = true := by
  rw [List.flatMap_def]
  exact flattenValid (List.forall_mem_map.mpr each)

/-! ASCII texts. -/

theorem asciiValid {s : Bytes} (ascii : Ascii s) : isValid s = true := by
  induction s with
  | nil => exact emptyValid
  | cons b rest ih =>
    obtain ⟨first, others⟩ := List.forall_mem_cons.mp ascii
    have alone : isValid [b] = true := isValidIff.mpr ⟨.singleton (Char.ofNat b.toNat), by
      rw [utf8, String.toList_singleton, List.flatMap_singleton, asciiEncoded first]⟩
    exact appendValid alone (ih others)

theorem visibleValid {s : Bytes} (visible : Visible s) : isValid s = true :=
  asciiValid (Visible.ascii visible)

@[simp] theorem natTextValid (n : Nat) : isValid (natText n) = true :=
  visibleValid (natTextVisible n)

@[simp] theorem intTextValid (n : Int) : isValid (intText n) = true :=
  visibleValid (intTextVisible n)

@[simp] theorem newlineValid : isValid [newline] = true :=
  asciiValid (.cons (by decide) .nil)

theorem hexDigitsAscii (b : UInt8) :
    Ascii [hexDigit (b.toNat / 16), hexDigit (b.toNat % 16)] ∧ Ascii (hexByteUpper b) := by
  have digit : ∀ n < 16, hexDigit n < 128 ∧ hexDigitUpper n < 128 := by decide
  have small := b.toNat_lt
  have high := digit (b.toNat / 16) (by omega)
  have low := digit (b.toNat % 16) (by omega)
  exact ⟨.cons high.1 (.cons low.1 .nil), .cons high.2 (.cons low.2 .nil)⟩

@[simp] theorem hexByteUpperValid (b : UInt8) : isValid (hexByteUpper b) = true :=
  asciiValid (hexDigitsAscii b).2

@[simp] theorem hexOfValid (s : Bytes) : isValid (hexOf s) = true :=
  flatMapValid fun b _ => asciiValid (hexDigitsAscii b).1

@[simp] theorem padLeftValid {s : Bytes} (width : Nat) {fill : UInt8} (ascii : fill < 128)
    (valid : isValid s = true) : isValid (padLeft width fill s) = true :=
  appendValid (asciiValid (.replicate _ ascii)) valid

@[simp] theorem padRightValid {s : Bytes} (width : Nat) {fill : UInt8} (ascii : fill < 128)
    (valid : isValid s = true) : isValid (padRight width fill s) = true :=
  appendValid valid (asciiValid (.replicate _ ascii))

theorem joinValid {separator : Bytes} (between : isValid separator = true) {parts : List Bytes}
    (each : ∀ part ∈ parts, isValid part = true) : isValid (join separator parts) = true := by
  fun_induction join separator parts with
  | case1 => exact emptyValid
  | case2 part => exact each part (List.mem_singleton.mpr rfl)
  | case3 part rest _ ih =>
    obtain ⟨first, others⟩ := List.forall_mem_cons.mp each
    exact appendValid (appendValid first between) (ih others)

end Text
end ExprMachine
