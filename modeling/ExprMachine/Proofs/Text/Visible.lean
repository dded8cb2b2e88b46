import ExprMachine.Number.Decimal

/-! Texts whose bytes are all of one class. What is written for a number has visible ASCII bytes only,
so that a blank or a line feed behind it ends it; and decimal digits lead back to their number. -/
namespace ExprMachine

namespace Text

def Only (P : UInt8 → Prop) (s : Bytes) : Prop := ∀ b ∈ s, P b

abbrev Ascii (s : Bytes) : Prop := Only (· < 128) s

def IsVisible (b : UInt8) : Prop := 32 < b ∧ b < 127

instance : DecidablePred IsVisible := fun b => inferInstanceAs (Decidable (32 < b ∧ b < 127))

abbrev Visible (s : Bytes) : Prop := Only IsVisible s

variable {P Q : UInt8 → Prop} {a s : Bytes}

theorem Only.nil : Only P [] := List.forall_mem_nil _

theorem Only.of [DecidablePred P] (all : s.all (decide <| P ·) = true) : Only P s :=
  fun b member => of_decide_eq_true (List.all_eq_true.mp all b member)

theorem Only.append (first : Only P a) (second : Only P s) : Only P (a ++ s) :=
  List.forall_mem_append.mpr ⟨first, second⟩

theorem Only.cons {b : UInt8} (first : P b) (others : Only P s) : Only P (b :: s) :=
  List.forall_mem_cons.mpr ⟨first, others⟩

theorem Only.part (only : Only P s) (part : a ⊆ s) : Only P a :=
  fun b member => only b (part member)

theorem Only.replicate (n : Nat) {b : UInt8} (here : P b) : Only P (List.replicate n b) :=
  fun _ member => List.eq_of_mem_replicate member ▸ here

theorem Only.imp (only : Only P s) (wider : ∀ b, P b → Q b) : Only Q s :=
  fun b member => wider b (only b member)

theorem Only.padLeft {width : Nat} {fill : UInt8} (filled : P fill) (only : Only P s) :
    Only P (padLeft width fill s) := (Only.replicate _ filled).append only

theorem Only.absent {b : UInt8} (only : Only P s) (other : ¬ P b) : b ∉ s :=
  fun member => other (only b member)

theorem Visible.ascii (visible : Visible s) : Ascii s :=
  visible.imp fun _ seen => UInt8.lt_trans seen.2 (by decide)

/-! Decimal digits. -/

theorem natTextOnly (digits : ∀ n < 10, P (digitByte n)) (n : Nat) : Only P (natText n) := by
  induction n using Nat.strongRecOn with
  | ind n ih =>
    rw [natText]
    split
    · next digit => exact .cons (digits n digit) .nil
    · next large =>
      exact (ih (n / 10) (by omega)).append (.cons (digits _ (Nat.mod_lt n (by decide))) .nil)

theorem natTextVisible (n : Nat) : Visible (natText n) := natTextOnly (by decide) n

theorem natTextNonempty (n : Nat) : natText n ≠ [] := by
  rw [natText]
  split <;> simp

theorem natTextRead (n : Nat) : digitsValue (natText n) = n := by
  have digit : ∀ d < 10, (digitByte d).toNat - 48 = d := by decide
  induction n using Nat.strongRecOn with
  | ind n ih =>
    rw [natText]
    split
    · next small => simp [digitsValue, digit n small]
    · next large =>
      have front := ih (n / 10) (by omega)
      unfold digitsValue at front ⊢
      rw [List.foldl_append, front, List.foldl_cons, List.foldl_nil,
        digit _ (Nat.mod_lt n (by decide))]
      omega

theorem natTextInj {m n : Nat} (same : natText m = natText n) : m = n := by
  rw [← natTextRead m, same, natTextRead]

theorem intTextOnly (minus : P (byte '-')) (digits : ∀ n < 10, P (digitByte n)) (n : Int) :
    Only P (intText n) := by
  cases n with
  | ofNat n => exact natTextOnly digits n
  | negSucc n => exact .cons minus (natTextOnly digits (n + 1))

theorem intTextVisible (n : Int) : Visible (intText n) := intTextOnly (by decide) (by decide) n

theorem intTextNonempty (n : Int) : intText n ≠ [] := by
  cases n with
  | ofNat n => exact natTextNonempty n
  | negSucc n => exact List.cons_ne_nil _ _

theorem intTextInj {m n : Int} (same : intText m = intText n) : m = n := by
  have unsigned : ∀ k j, natText k ≠ byte '-' :: natText j := by
    intro k j signed
    have absent : byte '-' ∉ natText k :=
      (natTextOnly (P := (· ≠ byte '-')) (by decide) k).absent (· rfl)
    exact absent (signed ▸ List.mem_cons_self)
  cases m with
  | ofNat m =>
    cases n with
    | ofNat n => exact congrArg Int.ofNat (natTextInj same)
    | negSucc n => exact absurd same (unsigned _ _)
  | negSucc m =>
    cases n with
    | ofNat n => exact absurd same.symm (unsigned _ _)
    | negSucc n => exact congrArg Int.negSucc (Nat.succ.inj (natTextInj (List.cons.inj same).2))

end Text

namespace Number

open Text (Visible Only)

theorem significantVisible (s : Scaled) : Visible (significant s) := by
  refine (Text.natTextVisible s.n).part fun b member => ?_
  have kept := (List.dropWhile_sublist _).subset (List.mem_reverse.mp member)
  exact List.mem_reverse.mp kept

theorem plainVisible {digits : Bytes} (visible : Visible digits) (power : Int) :
    Visible (plain digits power) := by
  have zero : Text.IsVisible (Text.byte '0') := by decide
  have point : Visible (Text.utf8 "0.") := .of (by decide)
  simp only [plain]
  split
  · exact (point.append (.replicate _ zero)).append visible
  split
  · exact visible.append (.replicate _ zero)
  · exact (visible.part (List.take_subset _ _)).append
      (.cons (by decide) (visible.part (List.drop_subset _ _)))

theorem scientificVisible {digits : Bytes} (visible : Visible digits) (power : Int) :
    Visible (scientific digits power) := by
  have tail : Visible (if (digits.drop 1).isEmpty then [] else Text.byte '.' :: digits.drop 1) := by
    split
    · exact .nil
    · exact .cons (by decide) (visible.part (List.drop_subset _ _))
  have sign : Visible [Text.byte 'e', if power < 0 then Text.byte '-' else Text.byte '+'] := by
    refine .cons (by decide) (.cons ?_ .nil)
    split <;> decide
  have exponent : Visible (Text.padLeft 2 (Text.byte '0') (Text.natText power.natAbs)) :=
    .padLeft (by decide) (Text.natTextVisible _)
  exact (((visible.part (List.take_subset _ _)).append tail).append sign).append exponent

theorem textVisible (x : Number) : Visible x.text := by
  have sign : Visible (if x.isNegative then [Text.byte '-'] else []) := by
    split <;> exact .of (by decide)
  simp only [text]
  split
  · exact .of (by decide)
  split
  · split <;> exact .of (by decide)
  split
  · exact sign.append (.cons (by decide) .nil)
  · refine sign.append ?_
    split
    · exact plainVisible (significantVisible _) _
    · exact scientificVisible (significantVisible _) _

end Number
end ExprMachine
