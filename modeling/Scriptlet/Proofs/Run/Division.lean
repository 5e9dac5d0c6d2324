import Mathlib.Data.Rat.Floor
import Scriptlet.Run.Arithmetic

/-!
Contract: division and modulo on 64-bit integers, against the floor of the exact
quotient.

Owns:
- when a truncated quotient and remainder of integers are those of the floor, and
  the correction that makes them so otherwise;
- the corrections stay within 64 bits, and so does every quotient but one;
- the laws of division and modulo on all 64-bit integers.

The quotient is corrected by the signs of its operands and the remainder by its own
sign.  A remainder that is not zero has the sign of the dividend, so both are
corrected in the same cases.
-/

namespace Scriptlet

namespace Arithmetic

/-! ## Integers -/

/-- Whether a quotient and a remainder are those of the floor: the remainder is as
large as the floor leaves it, on the side of zero that the divisor is on. -/
structure IsFloored (dividend divisor quotient remainder : Int) : Prop where
  whole : quotient * divisor + remainder = dividend
  sided : 0 ≤ remainder ∧ remainder < divisor ∨ divisor < remainder ∧ remainder ≤ 0

section

variable {dividend divisor quotient remainder : Int}

theorem IsFloored.floor_eq (floored : IsFloored dividend divisor quotient remainder) :
    ⌊(dividend : ℚ) / divisor⌋ = quotient := by
  obtain ⟨whole, sided⟩ := floored
  have isWhole : (dividend : ℚ) = quotient * divisor + remainder := by exact_mod_cast whole.symm
  rw [Int.floor_eq_iff, isWhole]
  rcases sided with ⟨atLeast, below⟩ | ⟨above, atMost⟩
  · have positive : (0 : ℚ) < divisor := by exact_mod_cast Int.lt_of_le_of_lt atLeast below
    have atLeast : (0 : ℚ) ≤ remainder := by exact_mod_cast atLeast
    have below : (remainder : ℚ) < divisor := by exact_mod_cast below
    rw [le_div_iff₀ positive, div_lt_iff₀ positive]
    constructor <;> linarith
  · have negative : (divisor : ℚ) < 0 := by exact_mod_cast Int.lt_of_lt_of_le above atMost
    have above : (divisor : ℚ) < remainder := by exact_mod_cast above
    have atMost : (remainder : ℚ) ≤ 0 := by exact_mod_cast atMost
    rw [le_div_iff_of_neg negative, div_lt_iff_of_neg negative]
    constructor <;> linarith

theorem tmod_bounds (dividend : Int) {divisor : Int} (nonzero : divisor ≠ 0) :
    (dividend.tmod divisor).natAbs < divisor.natAbs ∧
      (0 ≤ dividend → 0 ≤ dividend.tmod divisor) ∧ (dividend ≤ 0 → dividend.tmod divisor ≤ 0) := by
  refine ⟨?_, Int.tmod_nonneg divisor, fun nonpositive => ?_⟩
  · rw [Int.natAbs_tmod]
    exact Nat.mod_lt _ (by omega)
  · have negated := Int.tmod_nonneg divisor (Int.neg_nonneg_of_nonpos nonpositive)
    rw [Int.neg_tmod] at negated
    omega

/-- A remainder that is not zero has the sign of the dividend. -/
theorem tmod_neg_iff (nonzero : divisor ≠ 0) (inexact : dividend.tmod divisor ≠ 0) :
    dividend.tmod divisor < 0 ↔ dividend < 0 := by
  obtain ⟨_, nonnegative, nonpositive⟩ := tmod_bounds dividend nonzero
  omega

/-- Truncation towards zero is the floor, unless something is left over and the signs of
the operands differ. -/
theorem isFloored_truncated (nonzero : divisor ≠ 0)
    (kept : dividend.tmod divisor ≠ 0 → (dividend < 0 ↔ divisor < 0)) :
    IsFloored dividend divisor (dividend.tdiv divisor) (dividend.tmod divisor) := by
  obtain ⟨small, nonnegative, nonpositive⟩ := tmod_bounds dividend nonzero
  refine ⟨Int.tdiv_mul_add_tmod dividend divisor, ?_⟩
  by_cases exactly : dividend.tmod divisor = 0
  · omega
  · have sameSign := kept exactly
    omega

theorem isFloored_corrected (nonzero : divisor ≠ 0) (inexact : dividend.tmod divisor ≠ 0)
    (differ : ¬ (dividend < 0 ↔ divisor < 0)) :
    IsFloored dividend divisor (dividend.tdiv divisor - 1) (dividend.tmod divisor + divisor) := by
  obtain ⟨small, nonnegative, nonpositive⟩ := tmod_bounds dividend nonzero
  have whole := Int.tdiv_mul_add_tmod dividend divisor
  refine ⟨by linarith, ?_⟩
  omega

end

/-! ## Operators -/

/-- Whether something is left over and the signs of the operands differ. -/
def NeedsCorrection (left right : Int64) : Prop :=
  left.toInt.tmod right.toInt ≠ 0 ∧ ¬ (left.toInt < 0 ↔ right.toInt < 0)

section

variable {left right : Int64}

theorem toInt_ne_zero (nonzero : right ≠ 0) : right.toInt ≠ 0 :=
  fun isZero => nonzero (Int64.toInt_inj.mp isZero)

theorem mod_ne_zero_iff : left % right ≠ 0 ↔ left.toInt.tmod right.toInt ≠ 0 := by
  rw [← Int64.toInt_mod, ← Int64.toInt_zero, ne_eq, ne_eq, Int64.toInt_inj]

theorem signs_differ_iff {first second : Int64} :
    (decide (first < 0) != decide (second < 0)) = true ↔
      ¬ (first.toInt < 0 ↔ second.toInt < 0) := by
  rw [bne_iff_ne, ne_eq, decide_eq_decide, Int64.lt_iff_toInt_lt, Int64.lt_iff_toInt_lt,
    Int64.toInt_zero]

theorem floorDivide_of_ne_zero (nonzero : right ≠ 0) :
    (NeedsCorrection left right → floorDivide left right = .ok (left / right - 1)) ∧
      (¬ NeedsCorrection left right → floorDivide left right = .ok (left / right)) := by
  have same : (left % right ≠ 0 ∧ (decide (left < 0) != decide (right < 0)) = true) ↔
      NeedsCorrection left right := by
    rw [mod_ne_zero_iff, signs_differ_iff, NeedsCorrection]
  unfold floorDivide
  rw [if_neg nonzero]
  exact ⟨fun needed => if_pos (same.mpr needed), fun free => if_neg (mt same.mp free)⟩

/-- The remainder is corrected in the same cases as the quotient. -/
theorem floorModulo_of_ne_zero (nonzero : right ≠ 0) :
    (NeedsCorrection left right → floorModulo left right = .ok (left % right + right)) ∧
      (¬ NeedsCorrection left right → floorModulo left right = .ok (left % right)) := by
  have same : (left % right ≠ 0 ∧ (decide (left % right < 0) != decide (right < 0)) = true) ↔
      NeedsCorrection left right := by
    rw [mod_ne_zero_iff, signs_differ_iff, Int64.toInt_mod, NeedsCorrection]
    refine and_congr_right fun inexact => ?_
    rw [tmod_neg_iff (toInt_ne_zero nonzero) inexact]
  unfold floorModulo
  rw [if_neg nonzero]
  exact ⟨fun needed => if_pos (same.mpr needed), fun free => if_neg (mt same.mp free)⟩

/-- What is left over is left by a divisor of at least two, whatever its sign, and that
halves the quotient. -/
theorem toInt_div_sub_one (nonzero : right ≠ 0) (inexact : left.toInt.tmod right.toInt ≠ 0) :
    (left / right - 1).toInt = (left / right).toInt - 1 ∧
      (left / right).toInt = left.toInt.tdiv right.toInt := by
  have notUnit : right.toInt ≠ 1 ∧ right.toInt ≠ -1 := by
    constructor
    · intro isOne
      exact inexact (by rw [isOne, Int.tmod_one])
    · intro isMinusOne
      exact inexact (by rw [isMinusOne, Int.tmod_neg, Int.tmod_one])
  have notZero := toInt_ne_zero nonzero
  have quotient : (left / right).toInt = left.toInt.tdiv right.toInt := by
    apply Int64.toInt_div_of_ne_right
    rintro rfl
    exact notUnit.2 rfl
  have halved : (left.toInt.tdiv right.toInt).natAbs ≤ left.toInt.natAbs / 2 := by
    rw [Int.natAbs_tdiv]
    exact Nat.div_le_div_left (by omega) (by decide)
  have atLeast := left.le_toInt
  have below := left.toInt_lt
  refine ⟨?_, quotient⟩
  rw [Int64.toInt_sub, Int64.toInt_one, quotient]
  apply Int.bmod_eq_of_le <;> omega

/-- A remainder and a divisor on different sides of zero add up to less than either. -/
theorem toInt_mod_add (nonzero : right ≠ 0) (needed : NeedsCorrection left right) :
    (left % right + right).toInt = (left % right).toInt + right.toInt := by
  obtain ⟨inexact, differ⟩ := needed
  have notZero := toInt_ne_zero nonzero
  obtain ⟨small, nonnegative, nonpositive⟩ := tmod_bounds left.toInt notZero
  have atLeast := right.le_toInt
  have below := right.toInt_lt
  rw [Int64.toInt_add, Int64.toInt_mod]
  apply Int.bmod_eq_of_le <;> omega

/-- The one quotient that 64 bits do not hold is that of the smallest integer by minus
one. -/
theorem toInt_div_eq_tdiv_iff (nonzero : right ≠ 0) :
    (left / right).toInt = left.toInt.tdiv right.toInt ↔
      ¬ (left = Int64.minValue ∧ right = -1) := by
  constructor
  · rintro fits ⟨rfl, rfl⟩
    exact absurd fits (by decide)
  · intro notWrapped
    by_cases smallest : left = Int64.minValue
    · exact Int64.toInt_div_of_ne_right left right fun isMinusOne => notWrapped ⟨smallest, isMinusOne⟩
    · exact Int64.toInt_div_of_ne_left left right smallest

end

/-! ## The laws of division and modulo -/

/-- What division and modulo give, told by the floor of the exact quotient. -/
structure DividesToFloor (left right quotient remainder : Int64) : Prop where
  /-- The quotient is the floor, wrapped around to 64 bits. -/
  isFloor : quotient = Int64.ofInt ⌊(left.toInt : ℚ) / right.toInt⌋
  wraps : quotient.toInt ≠ ⌊(left.toInt : ℚ) / right.toInt⌋ ↔
    left = Int64.minValue ∧ right = -1
  isRest : remainder.toInt = left.toInt - right.toInt * ⌊(left.toInt : ℚ) / right.toInt⌋
  sign : remainder = 0 ∨ (remainder < 0 ↔ right < 0)
  smaller : remainder.toInt.natAbs < right.toInt.natAbs
  whole : quotient * right + remainder = left
  /-- A quotient that was corrected did not wrap around when it was. -/
  correctedQuotient : quotient = left / right - 1 → quotient.toInt = (left / right).toInt - 1
  /-- Nor did a remainder that was corrected. -/
  correctedRemainder : remainder = left % right + right →
    remainder.toInt = (left % right).toInt + right.toInt

section

variable {left right quotient remainder : Int64}

/-- The laws follow from those of the floor on integers, where the remainder fits in 64
bits and the quotient may wrap around. -/
theorem dividesToFloor_of_isFloored {floor : Int}
    (floored : IsFloored left.toInt right.toInt floor remainder.toInt)
    (isQuotient : quotient = Int64.ofInt floor)
    (fits : quotient.toInt = floor ↔ ¬ (left = Int64.minValue ∧ right = -1))
    (correctedQuotient : quotient = left / right - 1 →
      quotient.toInt = (left / right).toInt - 1)
    (correctedRemainder : remainder = left % right + right →
      remainder.toInt = (left % right).toInt + right.toInt) :
    DividesToFloor left right quotient remainder := by
  have isFloor := floored.floor_eq
  obtain ⟨whole, sided⟩ := floored
  refine ⟨?_, ?_, ?_, ?_, ?_, ?_, correctedQuotient, correctedRemainder⟩
  · rw [isFloor]
    exact isQuotient
  · rw [isFloor, ne_eq, fits, not_not]
  · rw [isFloor]
    linarith
  · rw [← Int64.toInt_inj, Int64.lt_iff_toInt_lt, Int64.lt_iff_toInt_lt, Int64.toInt_zero]
    omega
  · omega
  · calc quotient * right + remainder
        = Int64.ofInt (floor * right.toInt + remainder.toInt) := by simp [isQuotient]
      _ = left := by rw [whole, Int64.ofInt_toInt]

theorem dividesToFloor_corrected (nonzero : right ≠ 0) (needed : NeedsCorrection left right) :
    DividesToFloor left right (left / right - 1) (left % right + right) := by
  have inexact : left.toInt.tmod right.toInt ≠ 0 := needed.1
  obtain ⟨lessOne, isTruncated⟩ := toInt_div_sub_one nonzero inexact
  have isSum := toInt_mod_add nonzero needed
  have floored := isFloored_corrected (toInt_ne_zero nonzero) inexact needed.2
  rw [← isTruncated, ← lessOne, ← Int64.toInt_mod, ← isSum] at floored
  refine dividesToFloor_of_isFloored floored (Int64.ofInt_toInt _).symm ?_ (fun _ => lessOne)
    fun _ => isSum
  exact iff_of_true rfl ((toInt_div_eq_tdiv_iff nonzero).mp isTruncated)

theorem dividesToFloor_truncated (nonzero : right ≠ 0) (free : ¬ NeedsCorrection left right) :
    DividesToFloor left right (left / right) (left % right) := by
  have floored : IsFloored left.toInt right.toInt (left.toInt.tdiv right.toInt)
      (left % right).toInt := by
    rw [Int64.toInt_mod]
    apply isFloored_truncated (toInt_ne_zero nonzero)
    exact fun inexact => not_not.mp fun differ => free ⟨inexact, differ⟩
  apply dividesToFloor_of_isFloored floored
  · rw [← Int64.toInt_inj, Int64.toInt_ofInt, Int64.toInt_div]
  · exact toInt_div_eq_tdiv_iff nonzero
  · intro isLess
    have isZero : (1 : Int64) = 0 := by grind
    exact absurd isZero (by decide)
  · intro isMore
    exact absurd (by simpa [eq_comm] using isMore) nonzero

end

/-- Division and modulo on 64-bit integers fail on a zero divisor only, and otherwise
round to the floor. -/
theorem division_floors (left right : Int64) :
    (floorDivide left right = .error .divisionByZero ↔ right = 0) ∧
    (floorModulo left right = .error .divisionByZero ↔ right = 0) ∧
    (right ≠ 0 → ∃ quotient remainder, floorDivide left right = .ok quotient ∧
      floorModulo left right = .ok remainder ∧
      DividesToFloor left right quotient remainder) := by
  by_cases isZero : right = 0
  · have divideFails : floorDivide left right = .error .divisionByZero := if_pos isZero
    have moduloFails : floorModulo left right = .error .divisionByZero := if_pos isZero
    exact ⟨iff_of_true divideFails isZero, iff_of_true moduloFails isZero,
      fun nonzero => absurd isZero nonzero⟩
  · obtain ⟨quotient, remainder, divides, leaves, laws⟩ : ∃ quotient remainder,
        floorDivide left right = .ok quotient ∧ floorModulo left right = .ok remainder ∧
          DividesToFloor left right quotient remainder := by
      by_cases needed : NeedsCorrection left right
      · exact ⟨_, _, (floorDivide_of_ne_zero isZero).1 needed,
          (floorModulo_of_ne_zero isZero).1 needed, dividesToFloor_corrected isZero needed⟩
      · exact ⟨_, _, (floorDivide_of_ne_zero isZero).2 needed,
          (floorModulo_of_ne_zero isZero).2 needed, dividesToFloor_truncated isZero needed⟩
    rw [divides, leaves]
    exact ⟨iff_of_false nofun isZero, iff_of_false nofun isZero,
      fun _ => ⟨quotient, remainder, rfl, rfl, laws⟩⟩

/-- The quotient that wraps around, and one that is corrected. -/
example : floorDivide Int64.minValue (-1) = .ok Int64.minValue ∧
    floorModulo Int64.minValue (-1) = .ok 0 ∧
    floorDivide Int64.minValue Int64.maxValue = .ok (-2) ∧
    floorModulo Int64.minValue Int64.maxValue = .ok (Int64.maxValue - 1) := by
  decide

end Arithmetic

end Scriptlet
