import Mathlib.Algebra.Order.Field.Power
import Mathlib.Tactic.IntervalCases
import Mathlib.Tactic.Ring
import MarketMinutes.Decimal.Division
import MarketMinutes.Proofs.Decimal.Arithmetic

/-!
# Quotients by number

A quotient is the exact one, rounded, as a sum or a product is: its digits and
its remainder stand for the exact quotient all along, and where no further
place has room the remainder settles the last one. It is missing only where
the exact quotient is out of range.
-/

namespace MarketMinutes.Decimal

namespace Quotient

/-- A quotient that is a decimal of this size once its sign is set. -/
structure HasSize (q : Quotient) (x : ℚ) : Prop where
  digits_lt : q.digits < bound
  places_nonneg : 0 ≤ q.places
  places_le : q.places ≤ 28
  size : (q.digits : ℚ) / 10 ^ q.places.toNat = x

variable {q : Quotient} {x : ℚ} {divisor : Nat}

theorem HasSize.cut (h : q.HasSize x) (k : Nat) : (q.cut k).HasSize x := by
  unfold Quotient.cut
  split
  next hk =>
    obtain ⟨hplaces, hzeros⟩ := hk
    have hle := h.places_le
    have hnat : q.places.toNat = (q.places - k).toNat + k := by omega
    have hdigits : q.digits = q.digits / 10 ^ k * 10 ^ k :=
      (Nat.div_mul_cancel (Nat.dvd_of_mod_eq_zero hzeros)).symm
    refine ⟨(Nat.div_le_self ..).trans_lt h.digits_lt, by dsimp only; omega, by dsimp only; omega, ?_⟩
    rw [← h.size, hnat, pow_add, hdigits]
    push_cast
    rw [mul_div_mul_right _ _ (by positivity), ← hdigits]
    rfl
  next => exact h

theorem HasSize.cutEight (h : q.HasSize x) : q.cutEight.HasSize x := by
  unfold Quotient.cutEight
  split
  · exact h.cut 8
  · exact h

theorem HasSize.cutZeros (h : q.HasSize x) : q.cutZeros.HasSize x :=
  ((h.cutEight.cutEight.cutEight.cut 4).cut 2).cut 1

/-! ## Room for places -/

theorem roomFor_spec (digits most : Nat) : roomFor digits most = 0 ∨ digits * 10 ^ roomFor digits most < bound := by
  have hbound : 0 < bound := by decide
  induction most with
  | zero => exact .inl rfl
  | succ p ih =>
    simp only [roomFor]
    split
    next h =>
      rw [Nat.pow_eq, Nat.le_div_iff_mul_le (by positivity)] at h
      right
      omega
    next => exact ih

theorem bound_le_of_roomFor_lt {digits most : Nat} (h : roomFor digits most < most) :
    bound ≤ digits * 10 ^ (roomFor digits most + 1) := by
  induction most with
  | zero => cases h
  | succ p ih =>
    simp only [roomFor] at h ⊢
    split at h
    next => exact absurd h (lt_irrefl _)
    next hroom =>
      rw [if_neg hroom]
      by_cases hp : roomFor digits p < p
      · exact ih hp
      · have hall : roomFor digits p = p := le_antisymm (roomFor_le digits p) (not_lt.mp hp)
        rw [Nat.pow_eq, Nat.le_div_iff_mul_le (by positivity)] at hroom
        rw [hall]
        omega

/-! ## The exact quotient under way -/

/-- Digits and remainder stand for the exact quotient at the places they have. -/
structure StandsFor (q : Quotient) (divisor : Nat) (x : ℚ) : Prop where
  rest_lt : q.rest < divisor
  places_le : q.places ≤ 28
  value : x * 10 ^ q.places = q.digits + (q.rest : ℚ) / divisor

namespace StandsFor

/-- Any number of places more, by long division. -/
theorem next (h : q.StandsFor divisor x) {p : Nat} (hp : q.places + p ≤ 28) (inexact : Bool) :
    StandsFor ⟨q.digits * 10 ^ p + q.rest * 10 ^ p / divisor, q.places + p, q.rest * 10 ^ p % divisor, inexact⟩
      divisor x := by
  have hd : 0 < divisor := Nat.zero_lt_of_lt h.rest_lt
  have hdq : (divisor : ℚ) ≠ 0 := by exact_mod_cast hd.ne'
  refine ⟨Nat.mod_lt _ hd, hp, ?_⟩
  have hsplit : (divisor : ℚ) * (q.rest * 10 ^ p / divisor : Nat) + (q.rest * 10 ^ p % divisor : Nat) =
      q.rest * 10 ^ p := by
    exact_mod_cast Nat.div_add_mod (q.rest * 10 ^ p) divisor
  calc x * 10 ^ (q.places + p)
    _ = x * 10 ^ q.places * 10 ^ p := by rw [zpow_add₀ (by norm_num), zpow_natCast, mul_assoc]
    _ = q.digits * 10 ^ p + q.rest * 10 ^ p / divisor := by rw [h.value]; ring
    _ = _ := by
      rw [← hsplit]
      push_cast
      field_simp
      ring

theorem fraction (h : q.StandsFor divisor x) {s : Nat} (hs : q.places = s) :
    x * 10 ^ s = ((q.digits * divisor + q.rest : Nat) : ℚ) / divisor := by
  have hdq : (divisor : ℚ) ≠ 0 := by exact_mod_cast (Nat.zero_lt_of_lt h.rest_lt).ne'
  rw [← zpow_natCast, ← hs, h.value]
  push_cast
  field_simp

theorem digits_le (h : q.StandsFor divisor x) : (q.digits : ℚ) ≤ x * 10 ^ q.places := by
  rw [h.value]
  exact le_add_of_nonneg_right (by positivity)

theorem bound_le (h : q.StandsFor divisor x) {p : Nat} (hp : q.places + p ≤ 0) (hbound : bound ≤ q.digits * 10 ^ p) :
    (bound : ℚ) ≤ x := by
  have hboundq : (bound : ℚ) ≤ q.digits * 10 ^ p := by exact_mod_cast hbound
  have hdigits : 0 < q.digits := by
    by_contra hzero
    rw [Nat.eq_zero_of_not_pos hzero, Nat.zero_mul] at hbound
    exact absurd hbound (by decide)
  have hx : 0 < x := by
    have hpos : (0 : ℚ) < q.digits := by exact_mod_cast hdigits
    exact pos_of_mul_pos_left (hpos.trans_le h.digits_le) (by positivity)
  calc (bound : ℚ)
    _ ≤ q.digits * 10 ^ p := hboundq
    _ ≤ x * 10 ^ q.places * 10 ^ p := mul_le_mul_of_nonneg_right h.digits_le (by positivity)
    _ = x * 10 ^ (q.places + p) := by rw [zpow_add₀ (by norm_num), zpow_natCast, mul_assoc]
    _ ≤ x * 10 ^ (0 : Int) := mul_le_mul_of_nonneg_left (zpow_le_zpow_right₀ (by norm_num) hp) hx.le
    _ = x := by rw [zpow_zero, mul_one]

end StandsFor

/-! ## The last place -/

/-- Digits and remainder as one fraction, to the nearest. -/
theorem roundHalfEven_rest {digits rest : Nat} (hrest : rest < divisor) :
    roundHalfEven (digits * divisor + rest) divisor =
      if (decide (divisor < 2 * rest) || (decide (2 * rest = divisor) && digits % 2 == 1)) = true then digits + 1
      else digits := by
  obtain ⟨hdiv, hmod⟩ := (Nat.div_mod_unique (Nat.zero_lt_of_lt hrest)).mpr
    ⟨show rest + divisor * digits = digits * divisor + rest by ring, hrest⟩
  simp only [roundHalfEven, hdiv, hmod, Bool.or_eq_true, Bool.and_eq_true, decide_eq_true_eq, beq_iff_eq]
  split
  · rw [if_neg (by omega)]
  · split
    · rw [if_pos (by omega)]
    · split <;> omega

/-- The same at one place less. -/
theorem roundHalfEven_rest_ten {digits rest : Nat} (hrest : rest < divisor) :
    roundHalfEven (digits * divisor + rest) (divisor * 10) =
      if (digits % 10 == 5 && rest != 0) = true then digits / 10 + 1 else roundHalfEven digits 10 := by
  have hlt : digits % 10 * divisor + rest < divisor * 10 := by
    have hmul : digits % 10 * divisor ≤ 9 * divisor := Nat.mul_le_mul_right _ (by omega)
    omega
  have hsplit : digits % 10 * divisor + rest + divisor * 10 * (digits / 10) = digits * divisor + rest := by
    conv_rhs => rw [← Nat.div_add_mod digits 10]
    ring
  obtain ⟨hdiv, hmod⟩ := (Nat.div_mod_unique (Nat.zero_lt_of_lt hlt)).mpr ⟨hsplit, hlt⟩
  simp only [roundHalfEven, hdiv, hmod, Bool.and_eq_true, beq_iff_eq, bne_iff_ne]
  -- A last digit of five is halfway only without a remainder.
  rcases lt_trichotomy (digits % 10) 5 with h | h | h
  · have hmul : digits % 10 * divisor ≤ 4 * divisor := Nat.mul_le_mul_right _ (by omega)
    rw [if_pos (by omega), if_neg (by omega), if_pos (by omega)]
  · rw [h]
    by_cases hzero : rest = 0
    · rw [if_neg (by omega), if_neg (by omega), if_neg (by omega), if_neg (by omega), if_neg (by omega)]
    · rw [if_neg (by omega), if_pos (by omega), if_pos ⟨rfl, hzero⟩]
  · have hmul : 6 * divisor ≤ digits % 10 * divisor := Nat.mul_le_mul_right _ h
    rw [if_neg (by omega), if_pos (by omega), if_neg (by omega), if_neg (by omega), if_pos (by omega)]

/-! ## How a division ends -/

/-- A division ends at what its exact quotient settles to, or that is out of range. -/
def Settled (result : Option Quotient) (x : ℚ) : Prop :=
  (result = none ∧ (bound : ℚ) - 1 / 2 ≤ x) ∨
    ∃ q t n, result = some q ∧ Settles x t n ∧ ¬ (t = 0 ∧ n = bound) ∧ q.HasSize ((carried n : ℚ) / 10 ^ t)

theorem settled_none (h : (bound : ℚ) ≤ x) : Settled none x :=
  .inl ⟨rfl, by linarith⟩

theorem settled_some {t n : Nat} (h : Settles x t n) (hn : n < bound) {q : Quotient} (hdigits : q.digits = n)
    (hplaces : q.places = t) : Settled (some q) x := by
  have hle : (t : Int) ≤ 28 := by exact_mod_cast h.places_le
  refine .inr ⟨q, t, n, rfl, h, fun hfull => hn.ne hfull.2, hdigits ▸ hn, by omega, by omega, ?_⟩
  rw [hdigits, hplaces, Int.toNat_natCast, carried_of_lt hn]

theorem settled_exact (h : q.StandsFor divisor x) (hrest : q.rest = 0) (hlt : q.digits < bound) (hplaces : 0 ≤ q.places) :
    Settled (some q) x := by
  obtain ⟨s, hs⟩ := Int.eq_ofNat_of_zero_le hplaces
  have hvalue : x * 10 ^ s = q.digits := by
    rw [← zpow_natCast, ← hs, h.value, hrest, Nat.cast_zero, zero_div, add_zero]
  have hle := h.places_le
  refine settled_some ⟨by omega, ?_, .inr (.inr hvalue), hvalue ▸ .self _⟩ hlt rfl hs
  rw [hvalue]
  exact_mod_cast hlt

/-- Where no further place has room, the remainder rounds the last one. -/
theorem settled_round? (h : q.StandsFor divisor x) (hlt : q.digits < bound) (hplaces : 0 ≤ q.places)
    (hfull : q.places = 28 ∨ bound ≤ q.digits * 10) : Settled (q.round? divisor) x := by
  obtain ⟨s, hs⟩ := Int.eq_ofNat_of_zero_le hplaces
  have hrest := h.rest_lt
  have hle := h.places_le
  have hsettles : Settles x s (roundHalfEven (q.digits * divisor + q.rest) divisor) := by
    refine settles_of_fraction (by omega) (Nat.zero_lt_of_lt hrest) (h.fraction hs) ?_ ?_
    · have hmul : (q.digits + 1) * divisor ≤ bound * divisor := Nat.mul_le_mul_right _ hlt
      rw [Nat.add_mul, Nat.one_mul] at hmul
      omega
    · rcases hfull with h28 | hbound
      · left
        omega
      · right; left
        have hmul : bound * divisor ≤ q.digits * 10 * divisor := Nat.mul_le_mul_right _ hbound
        rw [Nat.mul_right_comm] at hmul
        omega
  unfold Quotient.round?
  simp only [← roundHalfEven_rest hrest]
  by_cases hn : roundHalfEven (q.digits * divisor + q.rest) divisor < bound
  · rw [if_pos hn]
    exact settled_some hsettles hn rfl hs
  have hn' : roundHalfEven (q.digits * divisor + q.rest) divisor = bound := le_antisymm hsettles.le_bound (not_lt.mp hn)
  rw [hn'] at hsettles ⊢
  rw [if_neg (lt_irrefl _)]
  by_cases hzero : q.places < 1
  · rw [if_pos hzero]
    have hbelow := hsettles.nearest.below
    rw [show s = 0 by omega, pow_zero, mul_one] at hbelow
    exact .inl ⟨rfl, hbelow⟩
  · -- The carry takes one place more.
    have hcarry : roundHalfEven bound 10 < bound := by decide
    have hnat : (q.places - 1).toNat = s - 1 := by omega
    rw [if_neg hzero]
    refine .inr ⟨_, s, bound, rfl, hsettles, by omega, hcarry, by dsimp only; omega, by dsimp only; omega, ?_⟩
    dsimp only
    rw [hnat, carried_bound_div (by omega)]

/-- Digits that are too many are rounded to one place less. -/
theorem settled_dropPlace? (h : q.StandsFor divisor x) (hlong : bound ≤ q.digits) (hlt : q.digits < 5 * bound) :
    Settled q.dropPlace? x := by
  unfold Quotient.dropPlace?
  by_cases hzero : q.places < 1
  · rw [if_pos hzero]
    exact settled_none (h.bound_le (p := 0) (by omega) (by omega))
  obtain ⟨t, ht⟩ : ∃ t : Nat, q.places = (t + 1 : Nat) := ⟨(q.places - 1).toNat, by omega⟩
  have hrest := h.rest_lt
  have hle := h.places_le
  have htenth : x * 10 ^ t = ((q.digits * divisor + q.rest : Nat) : ℚ) / (divisor * 10 : Nat) := by
    rw [Nat.cast_mul divisor, ← div_div, ← h.fraction ht, pow_succ, ← mul_assoc, Nat.cast_ofNat,
      mul_div_cancel_right₀ _ (by norm_num)]
  have hsmall : roundHalfEven (q.digits * divisor + q.rest) (divisor * 10) < bound := by
    have hround := roundHalfEven_le q.digits 10
    have hbig : 4 ≤ bound := by decide
    rw [roundHalfEven_rest_ten hrest]
    split <;> omega
  rw [if_neg hzero]
  simp only [← roundHalfEven_rest_ten hrest]
  have hsettles : Settles x t (roundHalfEven (q.digits * divisor + q.rest) (divisor * 10)) := by
    have hroom : (q.digits + 1) * divisor ≤ 5 * bound * divisor := Nat.mul_le_mul_right _ hlt
    have hfull : bound * divisor ≤ q.digits * divisor := Nat.mul_le_mul_right _ hlong
    rw [Nat.add_mul, Nat.one_mul, Nat.mul_assoc] at hroom
    refine settles_of_fraction (by omega) (by omega) htenth ?_ (.inr (.inl ?_))
    · rw [← Nat.mul_assoc]
      omega
    · rw [← Nat.mul_assoc]
      omega
  exact settled_some hsettles hsmall rfl (by dsimp only; omega)

theorem digits_next_lt {p : Nat} (hrest : q.rest < divisor) (hroom : q.digits * 10 ^ p < bound) (hp : p ≤ 9) :
    q.digits * 10 ^ p + q.rest * 10 ^ p / divisor < 5 * bound := by
  have hquot : q.rest * 10 ^ p / divisor < 10 ^ p := by
    rw [Nat.div_lt_iff_lt_mul (Nat.zero_lt_of_lt hrest), Nat.mul_comm]
    exact Nat.mul_lt_mul_of_pos_left hrest (by positivity)
  have hpow : 10 ^ p ≤ 10 ^ 9 := Nat.pow_le_pow_right (by decide) hp
  have hbig : 10 ^ 9 ≤ bound := by decide
  omega

/-- A division from any digits on; each round stands for the same exact quotient. -/
theorem settled_finish? (h : q.StandsFor divisor x) (hlt : q.digits < bound) : Settled (q.finish? divisor) x := by
  fun_induction Quotient.finish? divisor q with
  | case1 q hrest hplaces => exact settled_exact h hrest hlt hplaces
  | case2 q hrest hplaces p hroom ih =>
    have hp : p ≤ (-q.places).toNat := Nat.min_le_right ..
    have hnext := h.next (p := p) (by omega) q.inexact
    simp only [hrest, Nat.zero_mul, Nat.zero_div, Nat.zero_mod, Nat.add_zero] at hnext ⊢
    rw [hrest] at ih
    exact ih hnext hroom
  | case3 q hrest hplaces p hroom =>
    have hp : p ≤ (-q.places).toNat := Nat.min_le_right ..
    exact settled_none (h.bound_le (p := p) (by omega) (not_lt.mp hroom))
  | case4 q hrest p hp =>
    -- One more place is short of the point, and has no room.
    have hstep : step q.places = 9 := by
      unfold step
      omega
    have hlong : bound ≤ q.digits * 10 ^ (p + 1) := bound_le_of_roomFor_lt (show p < step q.places by omega)
    exact settled_none (h.bound_le (p := p + 1) (by omega) hlong)
  | case5 q hrest p hp hzero =>
    have hle := h.places_le
    have hfull : q.places = 28 ∨ bound ≤ q.digits * 10 := by
      by_cases hstep : step q.places = 0
      · left
        unfold step at hstep
        omega
      · right
        have hlong : bound ≤ q.digits * 10 ^ (p + 1) := bound_le_of_roomFor_lt (show p < step q.places by omega)
        rwa [hzero, Nat.zero_add, pow_one] at hlong
    have hopen : StandsFor { q with inexact := true } divisor x := ⟨h.rest_lt, hle, h.value⟩
    exact settled_round? hopen hlt (show 0 ≤ q.places by omega) hfull
  | case6 q hrest p hp hzero hlong =>
    exact absurd ((roomFor_spec q.digits (step q.places)).resolve_left hzero) (not_lt.mpr hlong)
  | case7 q hrest p hp hzero rest next hroom hlong =>
    have hstep : p ≤ min 9 (28 - q.places).toNat := roomFor_le q.digits (step q.places)
    have hle := h.places_le
    exact settled_dropPlace? (h.next (by omega) true) hlong
      (digits_next_lt h.rest_lt (not_le.mp hroom) (by omega))
  | case8 q hrest p hp hzero rest next hroom hlong ih =>
    have hstep : p ≤ min 9 (28 - q.places).toNat := roomFor_le q.digits (step q.places)
    have hle := h.places_le
    exact ih (h.next (by omega) true) (not_le.mp hlong)

end Quotient

/-! ## Quotients -/

theorem number_div (a b : Decimal) :
    a.number / b.number =
      if (a.negative != b.negative) = true then -((a.mantissa : ℚ) / 10 ^ a.scale / (b.mantissa / 10 ^ b.scale))
      else (a.mantissa : ℚ) / 10 ^ a.scale / (b.mantissa / 10 ^ b.scale) := by
  rw [number_of_parts, number_of_parts]
  cases a.negative <;> cases b.negative <;> simp [neg_div, div_neg]

theorem standsFor_start {a b : Decimal} (hb : 0 < b.mantissa) (inexact : Bool) :
    Quotient.StandsFor
      ⟨a.mantissa / b.mantissa, (a.scale : Int) - b.scale, a.mantissa % b.mantissa, inexact⟩ b.mantissa
      ((a.mantissa : ℚ) / 10 ^ a.scale / (b.mantissa / 10 ^ b.scale)) := by
  have hbq : (b.mantissa : ℚ) ≠ 0 := by exact_mod_cast hb.ne'
  have ha := a.scale_le
  refine ⟨Nat.mod_lt _ hb, by dsimp only; omega, ?_⟩
  have hsplit : (b.mantissa : ℚ) * (a.mantissa / b.mantissa : Nat) + (a.mantissa % b.mantissa : Nat) = a.mantissa := by
    exact_mod_cast Nat.div_add_mod a.mantissa b.mantissa
  rw [zpow_sub₀ (by norm_num), zpow_natCast, zpow_natCast]
  field_simp
  linarith

/-- A quotient is the exact one, rounded. -/
theorem div?_computes (a : Decimal) {b : Decimal} (hb : b.number ≠ 0) : Computes (a.div? b) (a.number / b.number) := by
  have hzero : ¬ b.isZero = true := isZero_iff.not.mpr hb
  have hpos : 0 < b.mantissa := Nat.pos_of_ne_zero fun h => hzero (by simp [isZero, h])
  unfold div?
  rw [if_neg hzero]
  by_cases ha : a.isZero = true
  · rw [if_pos ha, isZero_iff.mp ha, zero_div]
    exact .of_number number_zero
  rw [if_neg ha, number_div]
  have hsettled := Quotient.settled_finish? (standsFor_start (a := a) hpos false)
    ((Nat.div_le_self ..).trans_lt a.mantissa_lt)
  have hx : (0 : ℚ) ≤ (a.mantissa : ℚ) / 10 ^ a.scale / (b.mantissa / 10 ^ b.scale) := by positivity
  generalize (a.mantissa : ℚ) / 10 ^ a.scale / (b.mantissa / 10 ^ b.scale) = x at hsettled hx
  rcases hsettled with ⟨hnone, hout⟩ | ⟨q, t, n, hq, hsettles, hroom, hsize⟩
  · simp only [hnone]
    refine ⟨fun h => ?_, iff_of_true rfl ((outOfRange_signed_iff hx).mpr hout)⟩
    cases h
  have hcut : (if q.inexact then q.cutZeros else q).HasSize ((carried n : ℚ) / 10 ^ t) := by
    split
    · exact hsize.cutZeros
    · exact hsize
  obtain ⟨c, hc, hnumber⟩ := ofSigned?_eq_some (a.negative != b.negative) hcut.digits_lt
    (Int.toNat_le.mpr hcut.places_le)
  rw [hcut.size] at hnumber
  simp only [hq, hc]
  refine ⟨fun h => ?_, iff_of_false (Option.some_ne_none c) ?_⟩
  · cases h
    exact .of_settles hsettles hx hnumber
  · rw [outOfRange_signed_iff hx, not_le]
    exact hsettles.lt_of_room hx hroom

end MarketMinutes.Decimal
