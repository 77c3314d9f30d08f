import Mathlib.Tactic.Ring
import MarketMinutes.Proofs.Decimal.Division

/-!
# Halves

A quotient by two is always there, since a half is never out of range. So the
middle of two numbers is missing only where their sum is, and it is the sum
rounded, halved and rounded again. A decimal comes back from its own double,
unless the double has no room for all of its digits.
-/

namespace MarketMinutes.Decimal

/-! ## Halves and middles -/

/-- A quotient by two is the exact half, rounded. -/
theorem exists_div?_two (a : Decimal) : ∃ c, a.div? two = some c ∧ Rounds (a.number / 2) c := by
  have hcomputes := div?_computes a (b := two) (by rw [number_two]; norm_num)
  rw [number_two] at hcomputes
  have hin : ¬ OutOfRange (a.number / 2) := by
    rw [OutOfRange, abs_div, abs_two, not_le]
    have hlt := a.abs_number_lt
    have hpos := abs_nonneg a.number
    linarith
  obtain ⟨c, hc⟩ := Option.ne_none_iff_exists'.mp (hcomputes.eq_none_iff.not.mpr hin)
  exact ⟨c, hc, hcomputes.rounds hc⟩

/-- The middle is the sum, rounded, then the half of that, rounded. -/
theorem middle?_eq_some {a b m : Decimal} (h : a.middle? b = some m) :
    ∃ c, a.add? b = some c ∧ Rounds (a.number + b.number) c ∧ Rounds (c.number / 2) m := by
  unfold middle? at h
  obtain ⟨c, hc, hm⟩ := Option.bind_eq_some_iff.mp h
  obtain ⟨m', hm', hrounds⟩ := exists_div?_two c
  rw [hm, Option.some.injEq] at hm'
  exact ⟨c, hc, (add?_computes a b).rounds hc, hm' ▸ hrounds⟩

theorem middle?_eq_none_iff {a b : Decimal} : a.middle? b = none ↔ OutOfRange (a.number + b.number) := by
  rw [← (add?_computes a b).eq_none_iff, middle?]
  cases a.add? b with
  | none => simp
  | some sum =>
    obtain ⟨c, hc, -⟩ := exists_div?_two sum
    simp [hc]

/-- Each of the two roundings keeps the order. -/
theorem middle?_mono {a b a' b' m m' : Decimal} (h : a.middle? b = some m) (h' : a'.middle? b' = some m')
    (ha : a.number ≤ a'.number) (hb : b.number ≤ b'.number) : m.number ≤ m'.number := by
  obtain ⟨c, -, hc, hm⟩ := middle?_eq_some h
  obtain ⟨c', -, hc', hm'⟩ := middle?_eq_some h'
  have hsum : c.number ≤ c'.number := hc.mono hc' (add_le_add ha hb)
  exact hm.mono hm' (div_le_div_of_nonneg_right hsum zero_le_two)

/-! ## Doubles -/

/-- What is left of a decimal that is doubled and halved: itself where the double has room for all of its digits, else
the nearest with a mantissa that is a multiple of five. -/
def halfOfDouble (d : Decimal) : Decimal :=
  if 2 * d.mantissa < bound ∨ d.scale = 0 then d
  else
    { d with
      mantissa := 5 * ((d.mantissa + 2) / 5)
      mantissa_lt := by
        have hm := d.mantissa_lt
        have hbound : Nat.pow 2 96 % 5 = 1 := by decide
        omega }

theorem halfOfDouble_neg (d : Decimal) : d.neg.halfOfDouble = d.halfOfDouble.neg := by
  unfold halfOfDouble
  by_cases h : 2 * d.mantissa < bound ∨ d.scale = 0
  · rw [if_pos h]
    exact if_pos h
  · rw [if_neg h]
    exact if_neg h

theorem halfOfDouble_eq {d : Decimal} (h : 2 * d.mantissa < bound ∨ d.scale = 0 ∨ d.mantissa % 5 = 0) :
    d.halfOfDouble = d := by
  unfold halfOfDouble
  by_cases hroom : 2 * d.mantissa < bound ∨ d.scale = 0
  · exact if_pos hroom
  · have hfive : 5 * ((d.mantissa + 2) / 5) = d.mantissa := by
      have hmod : d.mantissa % 5 = 0 := (or_assoc.mpr h).resolve_left hroom
      omega
    simp only [if_neg hroom, hfive]

theorem abs_halfOfDouble_sub_le (d : Decimal) : |d.halfOfDouble.number - d.number| ≤ 2 / 10 ^ d.scale := by
  by_cases hroom : 2 * d.mantissa < bound ∨ d.scale = 0
  · rw [halfOfDouble, if_pos hroom, sub_self, abs_zero]
    positivity
  have hscale : d.halfOfDouble.scale = d.scale := by rw [halfOfDouble, if_neg hroom]
  have hsigned : |d.halfOfDouble.signed - d.signed| ≤ 2 := by
    unfold halfOfDouble signed
    rw [if_neg hroom, abs_le]
    dsimp only
    split <;> omega
  have hsignedq : |((d.halfOfDouble.signed - d.signed : Int) : ℚ)| ≤ 2 := by exact_mod_cast hsigned
  unfold number
  rw [hscale, ← sub_div, abs_div, abs_of_pos (show (0 : ℚ) < 10 ^ d.scale by positivity), ← Int.cast_sub]
  exact div_le_div_of_nonneg_right hsignedq (by positivity)

/-- A double that has a place to give up comes to the double of what is left of it. -/
theorem exists_double {d : Decimal} (h : 2 * d.mantissa < bound ∨ 0 < d.scale) :
    ∃ e : Decimal, Rounds (2 * d.number) e ∧ e.number = 2 * d.halfOfDouble.number := by
  by_cases hroom : 2 * d.mantissa < bound
  · let e : Decimal := { d with mantissa := 2 * d.mantissa, mantissa_lt := hroom }
    have he : e.number = 2 * d.number := by
      simp only [e, number_of_parts]
      push_cast
      split <;> ring
    exact ⟨e, he ▸ .self e, by rw [he, halfOfDouble_eq (.inl hroom)]⟩
  have hpos : 0 < d.scale := h.resolve_left hroom
  have hm : d.mantissa < bound := d.mantissa_lt
  have hsettles := settles_of_excess (m := 2 * d.mantissa) (k := 1) hpos (Nat.le_succ_of_le d.scale_le) (by omega)
    (.inr (.inr (by omega)))
  have hround : roundHalfEven (2 * d.mantissa) (10 ^ 1) = (d.mantissa + 2) / 5 := by
    unfold roundHalfEven
    dsimp only
    split
    · omega
    · rw [if_pos (by omega)]
      omega
  rw [hround] at hsettles
  have hlt : (d.mantissa + 2) / 5 < bound := by omega
  let e : Decimal := ⟨d.negative, (d.mantissa + 2) / 5, d.scale - 1, hlt, (Nat.sub_le ..).trans d.scale_le⟩
  have hdouble : 2 * d.number = if d.negative then -(((2 * d.mantissa : Nat) : ℚ) / 10 ^ d.scale)
      else ((2 * d.mantissa : Nat) : ℚ) / 10 ^ d.scale := by
    rw [number_of_parts]
    push_cast
    split <;> ring
  have hten : (10 : ℚ) ^ d.scale = 10 ^ (d.scale - 1) * 10 := by rw [← pow_succ, Nat.sub_add_cancel hpos]
  refine ⟨e, hdouble ▸ .of_settles hsettles (by positivity) ?_, ?_⟩
  · rw [carried_of_lt hlt]
    exact number_of_parts
  · have hnot : ¬ (2 * d.mantissa < bound ∨ d.scale = 0) := by omega
    simp only [e, halfOfDouble, if_neg hnot, number_of_parts, hten]
    push_cast
    split <;> (field_simp; ring)

/-- A number whose double is no more than the sum, as far as it survives doubling, is no more than the middle. -/
theorem halfOfDouble_le {c m p : Decimal} {x : ℚ} (hx : ¬ OutOfRange x) (hc : Rounds x c) (hm : Rounds (c.number / 2) m)
    (hp : 2 * p.number ≤ x) : p.halfOfDouble.number ≤ m.number := by
  refine (Rounds.self _).mono hm ?_
  by_cases hplace : 2 * p.mantissa < bound ∨ 0 < p.scale
  · obtain ⟨e, he, hnumber⟩ := exists_double hplace
    have hle := he.mono hc hp
    linarith
  -- The double is out of range, so the sum is too, or both its parts are below zero.
  obtain ⟨hlong, hscale⟩ := not_or.mp hplace
  have hzero : p.scale = 0 := Nat.eq_zero_of_not_pos hscale
  have hlarge : (bound : ℚ) ≤ 2 * |p.number| := by
    rw [abs_number, hzero, pow_zero, div_one]
    exact_mod_cast not_lt.mp hlong
  have hc' := (abs_lt.mp c.abs_number_lt).1
  rw [halfOfDouble_eq (.inr (.inl hzero))]
  rcases le_total 0 p.number with hsign | hsign
  · rw [abs_of_nonneg hsign] at hlarge
    refine absurd ?_ hx
    rw [OutOfRange, abs_of_nonneg (by linarith)]
    linarith
  · rw [abs_of_nonpos hsign] at hlarge
    linarith

theorem not_outOfRange_of_middle? {a b m : Decimal} (h : a.middle? b = some m) : ¬ OutOfRange (a.number + b.number) := by
  rw [← middle?_eq_none_iff, h]
  exact Option.some_ne_none m

theorem le_middle? {a b m p : Decimal} (h : a.middle? b = some m) (hp : 2 * p.number ≤ a.number + b.number) :
    p.halfOfDouble.number ≤ m.number := by
  obtain ⟨c, -, hc, hm⟩ := middle?_eq_some h
  exact halfOfDouble_le (not_outOfRange_of_middle? h) hc hm hp

theorem middle?_le {a b m p : Decimal} (h : a.middle? b = some m) (hp : a.number + b.number ≤ 2 * p.number) :
    m.number ≤ p.halfOfDouble.number := by
  obtain ⟨c, -, hc, hm⟩ := middle?_eq_some h
  have hx : ¬ OutOfRange (-(a.number + b.number)) := by
    rw [OutOfRange, abs_neg]
    exact not_outOfRange_of_middle? h
  have hhalf : Rounds (c.neg.number / 2) m.neg := by
    rw [number_neg, neg_div]
    exact hm.neg
  have hle := halfOfDouble_le (p := p.neg) hx hc.neg hhalf (by rw [number_neg]; linarith)
  rwa [halfOfDouble_neg, number_neg, number_neg, neg_le_neg_iff] at hle

end MarketMinutes.Decimal
