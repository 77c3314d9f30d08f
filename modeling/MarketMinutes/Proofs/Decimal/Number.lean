import Mathlib.Algebra.Order.Field.Rat
import Mathlib.Order.Compare
import Mathlib.Tactic.FieldSimp
import Mathlib.Tactic.Positivity
import MarketMinutes.Decimal.Basic

/-!
# The numbers decimals stand for

The order of decimals is the order of these numbers, so scales and the sign of
a zero do not count in it.
-/

namespace MarketMinutes.Decimal

/-- The number a decimal stands for. -/
def number (d : Decimal) : ℚ :=
  d.signed / 10 ^ d.scale

theorem scaled_number {d : Decimal} {s : Nat} (h : d.scale ≤ s) :
    ((d.signed * Nat.pow 10 (s - d.scale) : Int) : ℚ) = d.number * 10 ^ s := by
  have hs : (10 : ℚ) ^ s = 10 ^ (s - d.scale) * 10 ^ d.scale := by
    rw [← pow_add, Nat.sub_add_cancel h]
  rw [number, hs, Nat.pow_eq]
  push_cast
  field_simp

theorem aligned_fst (a b : Decimal) :
    ((aligned a b).1 : ℚ) = a.number * 10 ^ max a.scale b.scale :=
  scaled_number (Nat.le_max_left ..)

theorem aligned_snd (a b : Decimal) :
    ((aligned a b).2 : ℚ) = b.number * 10 ^ max a.scale b.scale :=
  scaled_number (Nat.le_max_right ..)

/-! ## Order -/

theorem aligned_lt_iff (a b : Decimal) : (aligned a b).1 < (aligned a b).2 ↔ a.number < b.number := by
  rw [← Int.cast_lt (R := ℚ), aligned_fst, aligned_snd]
  exact mul_lt_mul_iff_left₀ (by positivity)

theorem aligned_eq_iff (a b : Decimal) : (aligned a b).1 = (aligned a b).2 ↔ a.number = b.number := by
  rw [← Int.cast_inj (α := ℚ), aligned_fst, aligned_snd]
  exact mul_left_inj' (by positivity)

theorem compare_eq_lt_iff {a b : Decimal} : a.compare b = .lt ↔ a.number < b.number := by
  rw [← aligned_lt_iff]
  exact compare_lt_iff_lt

theorem compare_eq_eq_iff {a b : Decimal} : a.compare b = .eq ↔ a.number = b.number := by
  rw [← aligned_eq_iff]
  exact compare_eq_iff_eq

theorem compare_eq_gt_iff {a b : Decimal} : a.compare b = .gt ↔ b.number < a.number := by
  cases h : a.compare b with
  | lt => simp [(compare_eq_lt_iff.mp h).le]
  | eq => simp [compare_eq_eq_iff.mp h]
  | gt =>
    have hlt : ¬ a.number < b.number := fun h' => by simp [compare_eq_lt_iff.mpr h'] at h
    have hne : a.number ≠ b.number := fun h' => by simp [compare_eq_eq_iff.mpr h'] at h
    simpa using lt_of_le_of_ne (not_lt.mp hlt) hne.symm

/-- Scales do not count in the order. -/
theorem compare_congr {a a' b b' : Decimal} (ha : a.number = a'.number) (hb : b.number = b'.number) :
    a.compare b = a'.compare b' := by
  cases h : a'.compare b' with
  | lt => rwa [compare_eq_lt_iff, ha, hb, ← compare_eq_lt_iff]
  | eq => rwa [compare_eq_eq_iff, ha, hb, ← compare_eq_eq_iff]
  | gt => rwa [compare_eq_gt_iff, ha, hb, ← compare_eq_gt_iff]

@[simp] theorem isLT_iff {a b : Decimal} : a.isLT b = true ↔ a.number < b.number := by
  simp [isLT, compare_eq_lt_iff]

@[simp] theorem sameNumber_iff {a b : Decimal} : a.sameNumber b = true ↔ a.number = b.number := by
  simp [sameNumber, compare_eq_eq_iff]

@[simp] theorem isLE_iff {a b : Decimal} : a.isLE b = true ↔ a.number ≤ b.number := by
  simp [isLE, compare_eq_gt_iff]

/-! ## Sign -/

@[simp] theorem number_zero : zero.number = 0 := by
  simp [number, signed, zero]

theorem number_one_pos : 0 < one.number := by
  simp [number, signed, one]

theorem number_two : two.number = 2 := by
  simp [number, signed, two]

theorem isZero_iff {d : Decimal} : d.isZero = true ↔ d.number = 0 := by
  cases h : d.negative <;> simp [isZero, number, signed, h]

@[simp] theorem number_neg (d : Decimal) : d.neg.number = -d.number := by
  cases h : d.negative <;> simp [neg, number, signed, h, neg_div]

theorem neg_involutive : Function.Involutive neg := fun d =>
  congrArg (fun negative => { d with negative }) (Bool.not_not d.negative)

theorem sameNumber_neg (a b : Decimal) : a.neg.sameNumber b.neg = a.sameNumber b := by
  rw [Bool.eq_iff_iff, sameNumber_iff, sameNumber_iff, number_neg, number_neg, neg_inj]

/-- The sign of a zero does not make it negative. -/
theorem isNegative_iff {d : Decimal} : d.isNegative = true ↔ d.number < 0 := by
  cases h : d.negative with
  | false =>
    have : 0 ≤ d.number := by
      simp only [number, signed, h, Bool.false_eq_true, if_false, Int.cast_natCast]
      positivity
    simp [isNegative, h, this]
  | true =>
    have hz : d.isZero = false ↔ d.number ≠ 0 := by rw [← Bool.not_eq_true, isZero_iff.not]
    have : d.number ≤ 0 := by
      simp only [number, signed, h, if_true, Int.cast_neg, Int.cast_natCast, neg_div]
      exact neg_nonpos.mpr (by positivity)
    simp [isNegative, h, hz, lt_iff_le_and_ne, this]

end MarketMinutes.Decimal
