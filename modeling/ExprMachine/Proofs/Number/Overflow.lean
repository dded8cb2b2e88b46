import ExprMachine.Number.Literal
import Mathlib.Tactic.Linarith
import Mathlib.Tactic.Ring

/-! Which number literals are out of range: exactly those whose decimal value reaches the middle
between the greatest finite number and the power of two above it. -/
namespace ExprMachine.Number

/-- `2 ^ 1024 - 2 ^ 970`: what comes after the greatest finite number, less half of its last place. -/
def overflowThreshold : Nat := (2 ^ 54 - 1) * 2 ^ 970

theorem thresholdTimes (den : Nat) :
    overflowThreshold * den = (2 ^ 54 - 1) * (den * 2 ^ 970) := by
  rw [overflowThreshold, Nat.mul_assoc, Nat.mul_comm (2 ^ 970) den]

theorem thresholdPositive : 0 < overflowThreshold :=
  Nat.mul_pos (show 0 < 2 ^ 54 - 1 by decide) (Nat.two_pow_pos 970)

theorem scaleDenPositive {den : Nat} (positive : 0 < den) (q : Int) (num : Nat) :
    0 < (scaleDown q num den).2 := Nat.mul_pos positive (Nat.pow_pos (by decide))

theorem scaleRatio (q : Int) (k num den : Nat) :
    (scaleDown q num den).1 * (scaleDown (q + k) num den).2 =
      2 ^ k * ((scaleDown (q + k) num den).1 * (scaleDown q num den).2) := by
  simp only [scaleDown, twoTo, Nat.pow_eq]
  have exponents : (-q).toNat + (q + k).toNat = k + ((-(q + k)).toNat + q.toNat) := by omega
  calc num * 2 ^ (-q).toNat * (den * 2 ^ (q + k).toNat)
      = num * den * 2 ^ ((-q).toNat + (q + k).toNat) := by rw [pow_add]; ring
    _ = num * den * 2 ^ (k + ((-(q + k)).toNat + q.toNat)) := by rw [exponents]
    _ = 2 ^ k * (num * 2 ^ (-(q + k)).toNat * (den * 2 ^ q.toNat)) := by
      rw [pow_add, pow_add]; ring

theorem scaleGuess {num den : Nat} (hn : num ≠ 0) (hd : den ≠ 0) :
    2 ^ 52 * (scaleDown ((num.log2 : Int) - den.log2 - 53) num den).2 ≤
        (scaleDown ((num.log2 : Int) - den.log2 - 53) num den).1 ∧
      (scaleDown ((num.log2 : Int) - den.log2 - 53) num den).1 <
        2 ^ 54 * (scaleDown ((num.log2 : Int) - den.log2 - 53) num den).2 := by
  obtain ⟨numLow, numHigh⟩ := (Nat.log2_eq_iff hn).mp rfl
  obtain ⟨denLow, denHigh⟩ := (Nat.log2_eq_iff hd).mp rfl
  generalize num.log2 = a at *
  generalize den.log2 = b at *
  simp only [scaleDown, twoTo, Nat.pow_eq]
  obtain ⟨x, hx⟩ : ∃ x, (-((a : Int) - b - 53)).toNat = x := ⟨_, rfl⟩
  obtain ⟨y, hy⟩ : ∃ y, ((a : Int) - b - 53).toNat = y := ⟨_, rfl⟩
  rw [hx, hy]
  have balance : a + x = b + y + 53 := by omega
  have low : 2 ^ (b + y + 53) ≤ num * 2 ^ x := by
    rw [← balance, pow_add]
    exact Nat.mul_le_mul_right _ numLow
  have high : num * 2 ^ x < 2 ^ (b + y + 54) := by
    have same : b + y + 54 = a + 1 + x := by omega
    rw [same, pow_add]
    exact Nat.mul_lt_mul_of_pos_right numHigh (by positivity)
  have denBelow : den * 2 ^ y ≤ 2 ^ (b + 1 + y) := by
    rw [pow_add]
    exact Nat.mul_le_mul_right _ denHigh.le
  have denAbove : 2 ^ (b + y) ≤ den * 2 ^ y := by
    rw [pow_add]
    exact Nat.mul_le_mul_right _ denLow
  constructor
  · calc 2 ^ 52 * (den * 2 ^ y) ≤ 2 ^ 52 * 2 ^ (b + 1 + y) := Nat.mul_le_mul_left _ denBelow
      _ = 2 ^ (b + y + 53) := by rw [← pow_add]; congr 1; omega
      _ ≤ num * 2 ^ x := low
  · calc num * 2 ^ x < 2 ^ (b + y + 54) := high
      _ = 2 ^ 54 * 2 ^ (b + y) := by rw [← pow_add]; congr 1; omega
      _ ≤ 2 ^ 54 * (den * 2 ^ y) := Nat.mul_le_mul_left _ denAbove

theorem ratioBounds {num den : Nat} (hn : num ≠ 0) (hd : den ≠ 0) :
    (scaleDown (ratioPower num den) num den).1 <
        2 ^ 53 * (scaleDown (ratioPower num den) num den).2 ∧
      (-1074 < ratioPower num den → 2 ^ 52 * (scaleDown (ratioPower num den) num den).2 ≤
        (scaleDown (ratioPower num den) num den).1) := by
  have positive := scaleDenPositive (Nat.pos_of_ne_zero hd)
  obtain ⟨low, high⟩ := scaleGuess hn hd
  simp only [ratioPower]
  generalize (num.log2 : Int) - den.log2 - 53 = q at *
  -- the first guess may be one too small, never more
  have normal : ∃ q' : Int,
      (if (scaleDown q num den).2 * (2 * exponentUnit) ≤ (scaleDown q num den).1 then q + 1
        else q) = q' ∧
      2 ^ 52 * (scaleDown q' num den).2 ≤ (scaleDown q' num den).1 ∧
      (scaleDown q' num den).1 < 2 ^ 53 * (scaleDown q' num den).2 := by
    split
    · next large =>
      have ratio := scaleRatio q 1 num den
      have here := positive q num
      have next := positive (q + (1 : Nat)) num
      refine ⟨q + 1, rfl, ?_, ?_⟩
      · change 2 ^ 52 * (scaleDown (q + (1 : Nat)) num den).2 ≤ (scaleDown (q + (1 : Nat)) num den).1
        generalize scaleDown (q + (1 : Nat)) num den = after at *
        generalize scaleDown q num den = before at *
        nlinarith
      · change (scaleDown (q + (1 : Nat)) num den).1 < 2 ^ 53 * (scaleDown (q + (1 : Nat)) num den).2
        generalize scaleDown (q + (1 : Nat)) num den = after at *
        generalize scaleDown q num den = before at *
        nlinarith
    · next small =>
      refine ⟨q, rfl, low, ?_⟩
      rw [Nat.not_le] at small
      calc (scaleDown q num den).1 < (scaleDown q num den).2 * (2 * exponentUnit) := small
        _ = 2 ^ 53 * (scaleDown q num den).2 := by
          rw [Nat.mul_comm, show 2 * exponentUnit = 2 ^ 53 by decide]
  obtain ⟨q', chosen, low', high'⟩ := normal
  rw [chosen]
  rcases Int.le_total (-1074) q' with above | below
  · rw [Int.max_eq_left above]
    exact ⟨high', fun _ => low'⟩
  · rw [Int.max_eq_right below]
    refine ⟨?_, fun absurd => (Int.lt_irrefl _ absurd).elim⟩
    obtain ⟨k, gap⟩ := Int.le.dest below
    have ratio := scaleRatio q' k num den
    have here := positive q' num
    have next := positive (-1074) num
    have unit : 1 ≤ 2 ^ k := Nat.one_le_two_pow
    rw [gap] at ratio
    generalize scaleDown (-1074) num den = after at *
    generalize scaleDown q' num den = before at *
    have scaled : 2 ^ k * (after.1 * before.2) < 2 ^ 53 * after.2 * before.2 := by
      rw [← ratio]
      calc before.1 * after.2 < 2 ^ 53 * before.2 * after.2 :=
            Nat.mul_lt_mul_of_pos_right high' next
        _ = 2 ^ 53 * after.2 * before.2 := by ring
    have smaller : after.1 * before.2 ≤ 2 ^ k * (after.1 * before.2) := Nat.le_mul_of_pos_left _ unit
    exact Nat.lt_of_mul_lt_mul_right (Nat.lt_of_le_of_lt smaller scaled)

theorem roundQuotientBounds {n d : Nat} (hd : 0 < d) (below : n < 2 ^ 53 * d) :
    n / d ≤ roundQuotient n d ∧ roundQuotient n d ≤ 2 ^ 53 ∧
      (2 ^ 53 ≤ roundQuotient n d ↔ (2 ^ 54 - 1) * d ≤ 2 * n) := by
  have quotient : n / d < 2 ^ 53 := (Nat.div_lt_iff_lt_mul hd).mpr below
  have parts : d * (n / d) + n % d = n := Nat.div_add_mod n d
  have remainder := Nat.mod_lt n hd
  have round : roundQuotient n d =
      if 2 * (n % d) < d then n / d
      else if d < 2 * (n % d) then n / d + 1 else n / d + n / d % 2 := rfl
  have last : n / d + 1 = 2 ^ 53 → (2 ^ 54 - 1) * d = 2 * (d * (n / d)) + d := by
    intro top
    have value : n / d = 2 ^ 53 - 1 := by omega
    rw [value]
    omega
  have early : n / d + 1 < 2 ^ 53 → 2 * n < (2 ^ 54 - 1) * d := by
    intro few
    have bound : d * (n / d) ≤ d * (2 ^ 53 - 2) := Nat.mul_le_mul_left d (by omega)
    omega
  rcases Nat.lt_or_ge (n / d + 1) (2 ^ 53) with few | top
  · have short := early few
    refine ⟨?_, ?_, ?_⟩ <;> rw [round] <;> split <;> try split
    all_goals omega
  · have full := last (by omega)
    refine ⟨?_, ?_, ?_⟩ <;> rw [round] <;> split <;> try split
    all_goals omega

theorem scaleWhole {q : Int} (nonnegative : 0 ≤ q) (num den : Nat) :
    scaleDown q num den = (num, den * 2 ^ q.toNat) := by
  have none : (-q).toNat = 0 := by omega
  simp [scaleDown, none]

theorem belowThreshold {q : Int} {num den : Nat} (hd : 0 < den) (small : q ≤ 970)
    (high : (scaleDown q num den).1 < 2 ^ 53 * (scaleDown q num den).2) :
    num < overflowThreshold * den := by
  have scaled : num < 2 ^ 53 * (den * 2 ^ 970) := by
    rcases Int.le_total 0 q with nonnegative | negative
    · rw [scaleWhole nonnegative] at high
      have power : 2 ^ q.toNat ≤ 2 ^ 970 := Nat.pow_le_pow_right (by decide) (by omega)
      have scaled := Nat.mul_le_mul_left (2 ^ 53) (Nat.mul_le_mul_left den power)
      exact Nat.lt_of_lt_of_le high scaled
    · have none : q.toNat = 0 := by omega
      simp only [scaleDown, twoTo, Nat.pow_eq, none, pow_zero, mul_one] at high
      have larger : num ≤ num * 2 ^ (-q).toNat := Nat.le_mul_of_pos_right _ (by positivity)
      have unit : den ≤ den * 2 ^ 970 := Nat.le_mul_of_pos_right _ (Nat.two_pow_pos 970)
      generalize den * 2 ^ 970 = scale at *
      omega
  have positive : 0 < den * 2 ^ 970 := by positivity
  rw [thresholdTimes]
  generalize den * 2 ^ 970 = unit at *
  omega

theorem ofRatioOverflow {num den : Nat} (hd : 0 < den) :
    ofRatio? num den = none ↔ overflowThreshold * den ≤ num := by
  unfold ofRatio?
  split
  · next zero =>
    have positive := Nat.mul_pos thresholdPositive hd
    simp only [zero, reduceCtorEq, false_iff]
    omega
  · next hn =>
    obtain ⟨high, low⟩ := ratioBounds hn (Nat.ne_of_gt hd)
    have denPositive := scaleDenPositive hd (ratioPower num den) num
    obtain ⟨least, most, top⟩ := roundQuotientBounds denPositive high
    have full : -1074 < ratioPower num den →
        2 ^ 52 ≤ (scaleDown (ratioPower num den) num den).1 /
          (scaleDown (ratioPower num den) num den).2 := fun normal =>
      (Nat.le_div_iff_mul_le denPositive).mpr ((Nat.mul_comm _ _).symm ▸ low normal)
    dsimp only
    generalize ratioPower num den = q at *
    have rest : ∀ bits : Nat, ((if bits < 0x7ff0000000000000 then
        some (Number.mk bits.toUInt64) else none) = none ↔ 0x7ff0000000000000 ≤ bits) := by
      intro bits
      split <;> simp <;> omega
    rw [rest, show exponentUnit = 2 ^ 52 by decide]
    rcases Int.lt_trichotomy q 971 with below | equal | above
    · have small := belowThreshold hd (by omega) high
      omega
    · subst equal
      rw [scaleWhole (by decide)] at top most least full ⊢
      have power : den * 2 ^ Int.toNat 971 = 2 * (den * 2 ^ 970) := by
        rw [show Int.toNat 971 = 970 + 1 from rfl, Nat.pow_succ', Nat.mul_left_comm]
      dsimp only at top most least full ⊢
      rw [power] at top most least full ⊢
      rw [thresholdTimes, show (971 + 1074 : Int).toNat = 2045 from rfl]
      generalize den * 2 ^ 970 = unit at *
      omega
    · have large : overflowThreshold * den ≤ num := by
        have enough := low (by omega)
        rw [scaleWhole (by omega)] at enough
        have grown : 2 ^ 972 ≤ 2 ^ q.toNat := Nat.pow_le_pow_right (by decide) (by omega)
        have scaled : 2 ^ 52 * (den * 2 ^ 972) ≤ num :=
          Nat.le_trans (Nat.mul_le_mul_left _ (Nat.mul_le_mul_left _ grown)) enough
        have power : den * 2 ^ 972 = 4 * (den * 2 ^ 970) := by
          rw [show (972 : Nat) = 2 + 970 from rfl, Nat.pow_add, Nat.mul_left_comm]
        rw [power] at scaled
        rw [thresholdTimes]
        generalize den * 2 ^ 970 = unit at *
        omega
      have bits := full (by omega)
      omega

def Overflows (s : Bytes) : Prop :=
  let whole := s.takeWhile Text.isDigit
  let places := (s.dropWhile Text.isDigit).drop 1
  overflowThreshold * 10 ^ places.length ≤ Text.digitsValue (whole ++ places)

theorem ofLiteralOverflow (s : Bytes) : ofLiteral? s = none ↔ Overflows s :=
  ofRatioOverflow (Nat.pow_pos (by decide))

end ExprMachine.Number
