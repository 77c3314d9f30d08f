import Mathlib.Algebra.Order.AbsoluteValue.Basic
import Mathlib.Tactic.Linarith
import Mathlib.Tactic.NormNum
import MarketMinutes.Decimal.Arithmetic
import MarketMinutes.Proofs.Decimal.Number

/-!
# Rounding keeps the order

What a sum, a difference or a product comes to depends on its exact number
alone: on the most places at which that number has room, rounded there to the
nearest. So the larger of two exact numbers never comes to the smaller
decimal, and a number that some decimal stands for is kept. A result is
missing exactly where its exact number is nearer to the bound than to the
largest decimal.
-/

namespace MarketMinutes

/-! ## The nearest natural number -/

/-- A natural number nearest to a number; of two it is the even one. -/
structure IsNearest (x : ℚ) (n : Nat) : Prop where
  below : (n : ℚ) - 1 / 2 ≤ x
  above : x ≤ n + 1 / 2
  even : x = n - 1 / 2 ∨ x = n + 1 / 2 → n % 2 = 0

namespace IsNearest

theorem of_lt {x : ℚ} {n : Nat} (hlow : (n : ℚ) - 1 / 2 < x) (hhigh : x < n + 1 / 2) : IsNearest x n where
  below := hlow.le
  above := hhigh.le
  even h := by
    rcases h with h | h
    · exact absurd h hlow.ne'
    · exact absurd h hhigh.ne

theorem self (n : Nat) : IsNearest n n :=
  .of_lt (by linarith) (by linarith)

theorem mono {x y : ℚ} {a b : Nat} (ha : IsNearest x a) (hb : IsNearest y b) (h : x ≤ y) : a ≤ b := by
  by_contra hlt
  have hle : (b : ℚ) + 1 ≤ a := by exact_mod_cast not_le.mp hlt
  have hx := ha.below
  have hy := hb.above
  -- Both numbers lie halfway between the two, and only one of these is even.
  have ha2 := ha.even (.inl (by linarith))
  have hb2 := hb.even (.inr (by linarith))
  have hab : (a : ℚ) = b + 1 := by linarith
  have hnat : a = b + 1 := by exact_mod_cast hab
  omega

end IsNearest

theorem isNearest_roundHalfEven (n : Nat) {d : Nat} (hd : 0 < d) : IsNearest ((n : ℚ) / d) (roundHalfEven n d) := by
  have hpos : (0 : ℚ) < d := by exact_mod_cast hd
  -- The quotient and the share of the divisor that is left over.
  obtain ⟨f, hf, hx⟩ : ∃ f : ℚ, f * d = (n % d : Nat) ∧ (n : ℚ) / d = (n / d : Nat) + f := by
    have hsplit : (d : ℚ) * (n / d : Nat) + (n % d : Nat) = n := by exact_mod_cast Nat.div_add_mod n d
    refine ⟨(n % d : Nat) / d, div_mul_cancel₀ _ hpos.ne', ?_⟩
    field_simp
    linarith
  have hf0 : 0 ≤ f := by
    have : (0 : ℚ) ≤ f * d := hf ▸ Nat.cast_nonneg _
    exact nonneg_of_mul_nonneg_left this hpos
  have hf1 : f < 1 := by
    have : ((n % d : Nat) : ℚ) < d := by exact_mod_cast Nat.mod_lt n hd
    nlinarith
  rw [hx]
  unfold roundHalfEven
  by_cases hlow : 2 * (n % d) < d
  · have hlow' : (2 : ℚ) * (n % d : Nat) < d := by exact_mod_cast hlow
    have hf2 : f < 1 / 2 := by nlinarith
    simp only [if_pos hlow]
    exact .of_lt (by linarith) (by linarith)
  by_cases hhigh : d < 2 * (n % d)
  · have hhigh' : (d : ℚ) < 2 * (n % d : Nat) := by exact_mod_cast hhigh
    have hf2 : 1 / 2 < f := by nlinarith
    simp only [if_neg hlow, if_pos hhigh]
    exact .of_lt (by push_cast; linarith) (by push_cast; linarith)
  · have htie : (2 : ℚ) * (n % d : Nat) = d := by
      have : 2 * (n % d) = d := by omega
      exact_mod_cast this
    have hf2 : f = 1 / 2 := by nlinarith
    simp only [if_neg hlow, if_neg hhigh]
    have heven : (n / d + n / d % 2) % 2 = 0 := by omega
    have hq : (0 : ℚ) ≤ (n / d % 2 : Nat) := Nat.cast_nonneg _
    have hq1 : ((n / d % 2 : Nat) : ℚ) ≤ 1 := by exact_mod_cast Nat.le_of_lt_succ (Nat.mod_lt _ (by decide))
    exact ⟨by push_cast at *; linarith, by push_cast at *; linarith, fun _ => heven⟩

theorem roundHalfEven_le (n d : Nat) : roundHalfEven n d ≤ n / d + 1 := by
  have hmod := Nat.mod_lt (n / d) (show 0 < 2 by decide)
  unfold roundHalfEven
  dsimp only
  split
  · omega
  · split <;> omega

theorem roundHalfEven_one (m : Nat) : roundHalfEven m 1 = m := by
  simp [roundHalfEven, Nat.mod_one]

namespace Decimal

theorem bound_half_even : bound % 2 = 0 := by decide

/-- The bound itself is no mantissa; at one place less its last digit is rounded up. -/
theorem ten_mul_roundHalfEven_bound : 10 * roundHalfEven bound 10 = bound + 4 := by decide

/-- A mantissa after rounding, brought back below the bound. -/
def carried (n : Nat) : Nat :=
  if n < bound then n else n + 4

theorem carried_of_lt {n : Nat} (h : n < bound) : carried n = n :=
  if_pos h

theorem le_carried (n : Nat) : n ≤ carried n := by
  unfold carried
  split <;> omega

theorem carried_le {n : Nat} (h : n ≤ bound) : carried n ≤ bound + 4 := by
  unfold carried
  split <;> omega

theorem carried_mono {a b : Nat} (h : a ≤ b) : carried a ≤ carried b := by
  unfold carried
  split <;> split <;> omega

/-! ## The places of a result -/

/-- A number that is not negative, rounded to the most places at which it has room. Fewer are taken only where these
hold it exactly. -/
structure Settles (x : ℚ) (places n : Nat) : Prop where
  places_le : places ≤ 28
  room : x * 10 ^ places < bound
  full : places = 28 ∨ (bound : ℚ) ≤ x * 10 ^ (places + 1) ∨ x * 10 ^ places = n
  nearest : IsNearest (x * 10 ^ places) n

namespace Settles
variable {x y : ℚ} {s t a b : Nat}

theorem le_bound (h : Settles x s a) : a ≤ bound :=
  h.nearest.mono (.self bound) h.room.le

/-- Where a place had no room, the mantissa is at least a tenth of the bound. -/
theorem bound_le_carried (h : Settles x s a) (hfull : (bound : ℚ) ≤ x * 10 ^ (s + 1)) : bound + 4 ≤ carried a * 10 := by
  have htenth : IsNearest ((bound : ℚ) / (10 : Nat)) (roundHalfEven bound 10) :=
    isNearest_roundHalfEven bound (by decide)
  have hle : (bound : ℚ) / (10 : Nat) ≤ x * 10 ^ s := by
    rw [pow_succ] at hfull
    push_cast
    linarith
  have hround := htenth.mono h.nearest hle
  have hten := ten_mul_roundHalfEven_bound
  have hcarried := le_carried a
  omega

theorem nearest_of_exact (hexact : x * 10 ^ s = a) (hst : s ≤ t) : IsNearest (x * 10 ^ t) (a * 10 ^ (t - s)) := by
  have hx : x * 10 ^ t = (a * 10 ^ (t - s) : Nat) := by
    rw [← Nat.add_sub_cancel' hst, pow_add, ← mul_assoc, hexact, Nat.add_sub_cancel_left]
    push_cast
    rfl
  rw [hx]
  exact .self _

theorem value_eq (n : Nat) (hst : s ≤ t) : (n : ℚ) / 10 ^ s = (n * 10 ^ (t - s) : Nat) / 10 ^ t := by
  have ht : (10 : ℚ) ^ t = 10 ^ s * 10 ^ (t - s) := by rw [← pow_add, Nat.add_sub_cancel' hst]
  rw [ht]
  push_cast
  field_simp

theorem value_le {m n : Nat} (h : m ≤ n) (s : Nat) : (m : ℚ) / 10 ^ s ≤ n / 10 ^ s :=
  div_le_div_of_nonneg_right (by exact_mod_cast h) (by positivity)

theorem mono (hx : Settles x s a) (hy : Settles y t b) (h0 : 0 ≤ x) (h : x ≤ y) :
    (carried a : ℚ) / 10 ^ s ≤ carried b / 10 ^ t := by
  rcases Nat.lt_trichotomy s t with hst | hst | hst
  · -- The smaller number gave up places only because it is exact without them.
    have hroom : ¬ (bound : ℚ) ≤ x * 10 ^ (s + 1) := by
      have hpow : (10 : ℚ) ^ (s + 1) ≤ 10 ^ t := pow_le_pow_right₀ (by norm_num) hst
      have hle : x * 10 ^ (s + 1) ≤ y * 10 ^ t := mul_le_mul h hpow (by positivity) (h0.trans h)
      exact not_le.mpr (hle.trans_lt hy.room)
    have hexact : x * 10 ^ s = a := by
      rcases hx.full with hf | hf | hf
      · have := hy.places_le
        omega
      · exact absurd hf hroom
      · exact hf
    have ha : a < bound := by
      have := hx.room
      rw [hexact] at this
      exact_mod_cast this
    have hle : x * 10 ^ t ≤ y * 10 ^ t := mul_le_mul_of_nonneg_right h (by positivity)
    have hab : a * 10 ^ (t - s) ≤ carried b :=
      ((nearest_of_exact hexact hst.le).mono hy.nearest hle).trans (le_carried b)
    rw [carried_of_lt ha, value_eq a hst.le]
    exact value_le hab t
  · subst hst
    have hle : x * 10 ^ s ≤ y * 10 ^ s := mul_le_mul_of_nonneg_right h (by positivity)
    exact value_le (carried_mono (hx.nearest.mono hy.nearest hle)) s
  · rw [value_eq (carried b) hst.le]
    have htop := carried_le hx.le_bound
    have hpow : 10 ∣ 10 ^ (s - t) := dvd_pow_self 10 (Nat.sub_ne_zero_of_lt hst)
    have hfull : bound + 4 ≤ carried b * 10 ^ (s - t) ∨ y * 10 ^ t = b := by
      rcases hy.full with hf | hf | hf
      · have := hx.places_le
        omega
      · left
        have hten : 10 ≤ 10 ^ (s - t) := Nat.le_of_dvd (by positivity) hpow
        exact (hy.bound_le_carried hf).trans (Nat.mul_le_mul_left _ hten)
      · exact .inr hf
    rcases hfull with hfull | hexact
    · exact value_le (htop.trans hfull) s
    · -- The larger number is exact at fewer places: as a multiple of ten it passes over the carried bound.
      have hle : x * 10 ^ s ≤ y * 10 ^ s := mul_le_mul_of_nonneg_right h (by positivity)
      have hab : a ≤ b * 10 ^ (s - t) := hx.nearest.mono (nearest_of_exact hexact hst.le) hle
      have hb := Nat.mul_le_mul_right (10 ^ (s - t)) (le_carried b)
      refine value_le ?_ s
      by_cases ha : a < bound
      · rw [carried_of_lt ha]
        exact hab.trans hb
      · obtain ⟨k, hk⟩ := hpow
        have hten : b * 10 ^ (s - t) = 10 * (b * k) := by rw [hk, Nat.mul_left_comm]
        have hmod : bound % 10 = 6 := by decide
        omega

/-- Nothing but zero comes from zero. -/
theorem carried_eq_zero (h : Settles 0 s a) : carried a = 0 := by
  have ha : a ≤ 0 := h.nearest.mono (.self 0) (by simp)
  rw [Nat.le_zero.mp ha, carried_of_lt (by decide)]

theorem lt_of_room (h : Settles x s a) (h0 : 0 ≤ x) (hroom : ¬ (s = 0 ∧ a = bound)) : x < (bound : ℚ) - 1 / 2 := by
  rcases Nat.eq_zero_or_pos s with rfl | hs
  · have ha : a < bound := lt_of_le_of_ne h.le_bound fun hab => hroom ⟨rfl, hab⟩
    have habove := h.nearest.above
    have heven := h.nearest.even
    rw [pow_zero, mul_one] at habove heven
    have hle : (a : ℚ) + 1 ≤ bound := by exact_mod_cast ha
    -- Halfway the even neighbour is the bound itself.
    refine lt_of_le_of_ne (by linarith) fun hx => ?_
    have ha2 := heven (.inr (by linarith))
    have hab : (a : ℚ) + 1 = bound := by linarith
    have hnat : a + 1 = bound := by exact_mod_cast hab
    have hbound := bound_half_even
    omega
  · have hpow : (10 : ℚ) ^ 1 ≤ 10 ^ s := pow_le_pow_right₀ (by norm_num) hs
    have hle : x * 10 ^ 1 ≤ x * 10 ^ s := mul_le_mul_of_nonneg_left hpow h0
    have hlt := h.room
    have hbound : (1 : ℚ) ≤ bound := by exact_mod_cast (show 1 ≤ bound by decide)
    linarith

end Settles

/-- The bound is carried over by giving up its last place. -/
theorem carried_bound_div {s : Nat} (hs : 0 < s) :
    (carried bound : ℚ) / 10 ^ s = (roundHalfEven bound 10 : ℚ) / 10 ^ (s - 1) := by
  have hcarried : carried bound = roundHalfEven bound 10 * 10 ^ 1 := by
    rw [pow_one, Nat.mul_comm, ten_mul_roundHalfEven_bound]
    exact if_neg (lt_irrefl _)
  have hone : s - (s - 1) = 1 := by omega
  rw [Settles.value_eq _ (Nat.sub_le s 1), hone, hcarried]

/-! ## Bringing an exact result into range -/

theorem number_of_parts {d : Decimal} :
    d.number = if d.negative then -((d.mantissa : ℚ) / 10 ^ d.scale) else d.mantissa / 10 ^ d.scale := by
  unfold number signed
  split <;> simp [neg_div]

theorem ofSigned?_eq_some (negative : Bool) {m s : Nat} (hm : m < bound) (hs : s ≤ 28) :
    ∃ d, ofSigned? negative m s = some d ∧
      d.number = if negative then -((m : ℚ) / 10 ^ s) else m / 10 ^ s := by
  refine ⟨⟨negative && m != 0, m, s, hm, hs⟩, by simp [ofSigned?, ofParts?, show m < Nat.pow 2 96 from hm, hs], ?_⟩
  rw [number_of_parts]
  by_cases hz : m = 0
  · simp [hz]
  · simp [hz]

theorem excess?_eq_some {m s k : Nat} (h : excess? m s = some k) :
    k ≤ s ∧ s ≤ k + 28 ∧ m < bound * 10 ^ k ∧ (k = 0 ∨ s = k + 28 ∨ bound * 10 ^ (k - 1) ≤ m) := by
  obtain ⟨hk, hmem, hleast⟩ := List.find?_range_eq_some.mp h
  obtain ⟨hs, hm⟩ : s ≤ k + maxScale ∧ m / Nat.pow 10 k < bound := of_decide_eq_true hk
  rw [Nat.pow_eq, Nat.div_lt_iff_lt_mul (by positivity)] at hm
  refine ⟨Nat.le_of_lt_succ (List.mem_range.mp hmem), hs, hm, ?_⟩
  rcases Nat.eq_zero_or_pos k with h0 | hpos
  · exact .inl h0
  right
  -- One place less did not do, for its scale or for its mantissa.
  have hless : ¬ (s ≤ k - 1 + maxScale ∧ m / Nat.pow 10 (k - 1) < bound) := by
    have hj := hleast (k - 1) (by omega)
    rwa [Bool.not_eq_true', decide_eq_false_iff_not] at hj
  rw [Nat.pow_eq, Nat.div_lt_iff_lt_mul (by positivity)] at hless
  unfold maxScale at hless hs
  omega

theorem excess?_eq_none {m s : Nat} (h : excess? m s = none) : bound * 10 ^ s ≤ m := by
  have hall := List.find?_range_eq_none.mp h s (Nat.lt_succ_self s)
  have hnot : ¬ (s ≤ s + maxScale ∧ m / Nat.pow 10 s < bound) := by simpa using hall
  rw [Nat.pow_eq, Nat.div_lt_iff_lt_mul (by positivity)] at hnot
  omega

/-- A fraction rounded where it has room, and would have none at one place more. -/
theorem settles_of_fraction {x : ℚ} {n d t : Nat} (ht : t ≤ 28) (hd : 0 < d) (hx : x * 10 ^ t = (n : ℚ) / d)
    (hlt : n < bound * d) (hfull : t = 28 ∨ bound * d ≤ n * 10 ∨ d = 1) : Settles x t (roundHalfEven n d) := by
  have hdq : (0 : ℚ) < d := by exact_mod_cast hd
  refine ⟨ht, ?_, ?_, hx ▸ isNearest_roundHalfEven n hd⟩
  · rw [hx, div_lt_iff₀ hdq]
    exact_mod_cast hlt
  · rcases hfull with hfull | hfull | rfl
    · exact .inl hfull
    · right; left
      have hfullq : (bound : ℚ) * d ≤ n * 10 := by exact_mod_cast hfull
      rw [pow_succ, ← mul_assoc, hx, div_mul_eq_mul_div, le_div_iff₀ hdq]
      exact hfullq
    · right; right
      rw [hx, roundHalfEven_one, Nat.cast_one, div_one]

theorem settles_of_excess {m s k : Nat} (hks : k ≤ s) (hs : s ≤ k + 28) (hm : m < bound * 10 ^ k)
    (hleast : k = 0 ∨ s = k + 28 ∨ bound * 10 ^ (k - 1) ≤ m) :
    Settles ((m : ℚ) / 10 ^ s) (s - k) (roundHalfEven m (10 ^ k)) := by
  have hscaled : (m : ℚ) / 10 ^ s * 10 ^ (s - k) = m / (10 ^ k : Nat) := by
    have hsplit : (10 : ℚ) ^ s = 10 ^ k * 10 ^ (s - k) := by rw [← pow_add, Nat.add_sub_cancel' hks]
    rw [hsplit]
    push_cast
    field_simp
  refine settles_of_fraction (by omega) (by positivity) hscaled hm ?_
  cases k with
  | zero => exact .inr (.inr (pow_zero 10))
  | succ k =>
    rcases hleast with h0 | hs | hbound
    · cases h0
    · left
      omega
    · right; left
      rw [pow_succ, ← mul_assoc]
      exact Nat.mul_le_mul_right 10 hbound

/-- A result is brought into range with the sign asked for, or it has no place left for its mantissa. -/
theorem shrink?_cases (negative : Bool) (m s : Nat) :
    (shrink? negative m s = none ∧ (bound : ℚ) ≤ m / 10 ^ s) ∨
      ∃ t n, Settles ((m : ℚ) / 10 ^ s) t n ∧
        ((shrink? negative m s = none ∧ t = 0 ∧ n = bound) ∨
          ∃ d, shrink? negative m s = some d ∧ ¬ (t = 0 ∧ n = bound) ∧
            d.number = if negative then -((carried n : ℚ) / 10 ^ t) else carried n / 10 ^ t) := by
  cases hk : excess? m s with
  | none =>
    left
    refine ⟨by simp only [shrink?, hk], ?_⟩
    rw [le_div_iff₀ (by positivity)]
    exact_mod_cast excess?_eq_none hk
  | some k =>
    right
    obtain ⟨hks, hs, hm, hleast⟩ := excess?_eq_some hk
    have hsettles := settles_of_excess hks hs hm hleast
    cases k with
    | zero =>
      rw [Nat.pow_zero, Nat.mul_one] at hm
      rw [Nat.pow_zero, roundHalfEven_one] at hsettles
      obtain ⟨d, hd, hnumber⟩ := ofSigned?_eq_some negative hm hs
      refine ⟨s, m, hsettles, .inr ⟨d, by simpa only [shrink?, hk] using hd, fun h => hm.ne h.2, ?_⟩⟩
      rw [hnumber, carried_of_lt hm]
    | succ k =>
      refine ⟨_, _, hsettles, ?_⟩
      simp only [shrink?, hk, Nat.pow_eq]
      by_cases hn : roundHalfEven m (10 ^ (k + 1)) < bound
      · obtain ⟨d, hd, hnumber⟩ := ofSigned?_eq_some negative hn hsettles.places_le
        rw [if_pos hn]
        exact .inr ⟨d, hd, fun h => hn.ne h.2, by rw [hnumber, carried_of_lt hn]⟩
      · have hbound : roundHalfEven m (10 ^ (k + 1)) = bound := le_antisymm hsettles.le_bound (not_lt.mp hn)
        rw [hbound, if_neg (lt_irrefl _)]
        by_cases hzero : s - (k + 1) = 0
        · rw [if_pos hzero]
          exact .inl ⟨rfl, hzero, rfl⟩
        -- The carry takes one place more.
        obtain ⟨d, hd, hnumber⟩ := ofSigned?_eq_some negative (m := roundHalfEven bound 10)
          (s := s - (k + 1) - 1) (by decide) (by have := hsettles.places_le; omega)
        rw [if_neg hzero]
        refine .inr ⟨d, hd, fun h => hzero h.1, ?_⟩
        rw [hnumber, carried_bound_div (Nat.pos_of_ne_zero hzero)]

theorem shrink?_eq_some {negative : Bool} {m s : Nat} {d : Decimal} (h : shrink? negative m s = some d) :
    ∃ t n, Settles ((m : ℚ) / 10 ^ s) t n ∧
      d.number = if negative then -((carried n : ℚ) / 10 ^ t) else carried n / 10 ^ t := by
  rcases shrink?_cases negative m s with ⟨hnone, -⟩ | ⟨t, n, hsettles, ⟨hnone, -⟩ | ⟨e, he, -, hnumber⟩⟩
  · rw [hnone] at h
    cases h
  · rw [hnone] at h
    cases h
  · rw [he, Option.some.injEq] at h
    exact ⟨t, n, hsettles, h ▸ hnumber⟩

/-- A result is missing from the number on that lies halfway between the largest decimal and the bound. -/
theorem shrink?_eq_none_iff {negative : Bool} {m s : Nat} :
    shrink? negative m s = none ↔ (bound : ℚ) - 1 / 2 ≤ m / 10 ^ s := by
  rcases shrink?_cases negative m s with ⟨hnone, hx⟩ | ⟨t, n, hsettles, ⟨hnone, rfl, rfl⟩ | ⟨d, hd, hroom, -⟩⟩
  · exact iff_of_true hnone (by linarith)
  · have hbelow := hsettles.nearest.below
    rw [pow_zero, mul_one] at hbelow
    exact iff_of_true hnone hbelow
  · exact iff_of_false (by simp [hd]) (not_le.mpr (hsettles.lt_of_room (by positivity) hroom))

end Decimal
end MarketMinutes
