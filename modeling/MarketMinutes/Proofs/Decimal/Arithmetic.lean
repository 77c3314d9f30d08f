import MarketMinutes.Proofs.Decimal.Rounding

/-!
# Sums, differences and products by number

A sum, a difference or a product is the exact one, rounded. It keeps order in
the exact results, is exact where a decimal stands for the exact result, and is
missing where that result is out of range. So sums that need no more places and
digits than a mantissa has do not depend on their order.
-/

namespace MarketMinutes.Decimal

/-! ## Rounded numbers -/

/-- No decimal is nearest: the number is at least halfway from the largest decimal to the bound. -/
def OutOfRange (x : ℚ) : Prop :=
  (bound : ℚ) - 1 / 2 ≤ |x|

theorem outOfRange_signed_iff {negative : Bool} {x : ℚ} (hx : 0 ≤ x) :
    OutOfRange (if negative then -x else x) ↔ (bound : ℚ) - 1 / 2 ≤ x := by
  unfold OutOfRange
  split
  · rw [abs_neg, abs_of_nonneg hx]
  · rw [abs_of_nonneg hx]

/-- A decimal that an exact result comes to. -/
structure Rounds (x : ℚ) (d : Decimal) : Prop where
  size : ∃ t n, Settles |x| t n ∧ |d.number| = carried n / 10 ^ t
  nonneg : 0 ≤ x → 0 ≤ d.number
  nonpos : x ≤ 0 → d.number ≤ 0

theorem abs_number (d : Decimal) : |d.number| = d.mantissa / 10 ^ d.scale := by
  have hsize : (0 : ℚ) ≤ d.mantissa / 10 ^ d.scale := by positivity
  rw [number_of_parts]
  split
  · rw [abs_neg, abs_of_nonneg hsize]
  · exact abs_of_nonneg hsize

theorem abs_number_lt (d : Decimal) : |d.number| < (bound : ℚ) - 1 / 2 := by
  have hm : (d.mantissa : ℚ) + 1 ≤ bound := by exact_mod_cast d.mantissa_lt
  have hpow : (1 : ℚ) ≤ 10 ^ d.scale := one_le_pow₀ (by norm_num)
  have hle : (d.mantissa : ℚ) / 10 ^ d.scale ≤ d.mantissa := div_le_self (Nat.cast_nonneg _) hpow
  rw [abs_number]
  linarith

theorem not_outOfRange_number (d : Decimal) : ¬ OutOfRange d.number :=
  not_le.mpr d.abs_number_lt

namespace Rounds

theorem self (d : Decimal) : Rounds d.number d where
  size := by
    have hscaled : |d.number| * 10 ^ d.scale = d.mantissa := by
      rw [abs_number]
      exact div_mul_cancel₀ _ (by positivity)
    have hm : (d.mantissa : ℚ) < bound := by exact_mod_cast d.mantissa_lt
    refine ⟨d.scale, d.mantissa, ⟨d.scale_le, hscaled ▸ hm, .inr (.inr hscaled), hscaled ▸ .self _⟩, ?_⟩
    rw [carried_of_lt d.mantissa_lt, abs_number]
  nonneg := id
  nonpos := id

/-- A size that settles, with a sign in front of it. -/
theorem of_settles {negative : Bool} {x : ℚ} {t n : Nat} {d : Decimal} (h : Settles x t n) (hx : 0 ≤ x)
    (hnumber : d.number = if negative then -((carried n : ℚ) / 10 ^ t) else carried n / 10 ^ t) :
    Rounds (if negative then -x else x) d := by
  have hd : (0 : ℚ) ≤ carried n / 10 ^ t := by positivity
  have hzero : x ≤ 0 → (carried n : ℚ) / 10 ^ t = 0 := by
    intro h0
    rw [le_antisymm h0 hx] at h
    rw [h.carried_eq_zero, Nat.cast_zero, zero_div]
  cases negative with
  | false =>
    simp only [Bool.false_eq_true, if_false] at hnumber ⊢
    refine ⟨⟨t, n, by rwa [abs_of_nonneg hx], by rw [hnumber, abs_of_nonneg hd]⟩, fun _ => hnumber ▸ hd, fun h0 => ?_⟩
    rw [hnumber, hzero h0]
  | true =>
    simp only [if_true] at hnumber ⊢
    refine ⟨⟨t, n, by rwa [abs_neg, abs_of_nonneg hx], by rw [hnumber, abs_neg, abs_of_nonneg hd]⟩, fun h0 => ?_,
      fun _ => ?_⟩
    · rw [hnumber, hzero (neg_nonneg.mp h0), neg_zero]
    · rw [hnumber]
      exact neg_nonpos.mpr hd

theorem of_shrink? {negative : Bool} {m s : Nat} {d : Decimal} (h : shrink? negative m s = some d) :
    Rounds (if negative then -((m : ℚ) / 10 ^ s) else m / 10 ^ s) d := by
  obtain ⟨t, n, hsettles, hnumber⟩ := shrink?_eq_some h
  exact of_settles hsettles (by positivity) hnumber

theorem neg {x : ℚ} {d : Decimal} (h : Rounds x d) : Rounds (-x) d.neg where
  size := by
    rw [abs_neg, number_neg, abs_neg]
    exact h.size
  nonneg h0 := by
    rw [number_neg]
    exact neg_nonneg.mpr (h.nonpos (neg_nonneg.mp h0))
  nonpos h0 := by
    rw [number_neg]
    exact neg_nonpos.mpr (h.nonneg (neg_nonpos.mp h0))

theorem abs_le_abs {x y : ℚ} {a b : Decimal} (ha : Rounds x a) (hb : Rounds y b) (h : |x| ≤ |y|) :
    |a.number| ≤ |b.number| := by
  obtain ⟨s, m, hx, hsize⟩ := ha.size
  obtain ⟨t, n, hy, hsize'⟩ := hb.size
  rw [hsize, hsize']
  exact hx.mono hy (abs_nonneg x) h

theorem mono {x y : ℚ} {a b : Decimal} (ha : Rounds x a) (hb : Rounds y b) (h : x ≤ y) : a.number ≤ b.number := by
  rcases le_total 0 x with hx | hx
  · have hle := ha.abs_le_abs hb (by rwa [abs_of_nonneg hx, abs_of_nonneg (hx.trans h)])
    rwa [abs_of_nonneg (ha.nonneg hx), abs_of_nonneg (hb.nonneg (hx.trans h))] at hle
  · rcases le_total 0 y with hy | hy
    · exact (ha.nonpos hx).trans (hb.nonneg hy)
    · have hle := hb.abs_le_abs ha (by rwa [abs_of_nonpos hx, abs_of_nonpos hy, neg_le_neg_iff])
      rwa [abs_of_nonpos (ha.nonpos hx), abs_of_nonpos (hb.nonpos hy), neg_le_neg_iff] at hle

theorem number_unique {x : ℚ} {a b : Decimal} (ha : Rounds x a) (hb : Rounds x b) : a.number = b.number :=
  le_antisymm (ha.mono hb le_rfl) (hb.mono ha le_rfl)

theorem number_eq {x : ℚ} {a d : Decimal} (ha : Rounds x a) (hd : d.number = x) : a.number = x := by
  subst hd
  exact ha.number_unique (.self d)

end Rounds

/-! ## Operations -/

/-- What an operation comes to where its exact result is `x`. -/
structure Computes (result : Option Decimal) (x : ℚ) : Prop where
  rounds : ∀ {d}, result = some d → Rounds x d
  eq_none_iff : result = none ↔ OutOfRange x

namespace Computes

theorem of_number {d : Decimal} {x : ℚ} (h : d.number = x) : Computes (some d) x := by
  subst h
  refine ⟨fun hd => ?_, iff_of_false (by simp) d.not_outOfRange_number⟩
  rw [Option.some.injEq] at hd
  exact hd ▸ .self d

theorem exact {result : Option Decimal} {x : ℚ} (h : Computes result x) {d : Decimal} (hd : d.number = x) :
    ∃ c, result = some c ∧ c.number = x := by
  cases hr : result with
  | none =>
    have hout := h.eq_none_iff.mp hr
    rw [← hd] at hout
    exact absurd hout d.not_outOfRange_number
  | some c => exact ⟨c, rfl, (h.rounds hr).number_eq hd⟩

/-- Of two results the smaller is there if the larger is, unless it is negative. -/
theorem exists_of_le {result result' : Option Decimal} {x y : ℚ} (h : Computes result x) (h' : Computes result' y)
    (hx : 0 ≤ x) (hxy : x ≤ y) {e : Decimal} (he : result' = some e) :
    ∃ d, result = some d ∧ 0 ≤ d.number ∧ d.number ≤ e.number := by
  have hy : ¬ OutOfRange y := by
    rw [← h'.eq_none_iff, he]
    exact Option.some_ne_none e
  have hin : ¬ OutOfRange x := by
    rw [OutOfRange, abs_of_nonneg (hx.trans hxy), not_le] at hy
    rw [OutOfRange, abs_of_nonneg hx, not_le]
    exact hxy.trans_lt hy
  obtain ⟨d, hd⟩ := Option.ne_none_iff_exists'.mp (h.eq_none_iff.not.mpr hin)
  exact ⟨d, hd, (h.rounds hd).nonneg hx, (h.rounds hd).mono (h'.rounds he) hxy⟩

/-- Rounding does not see the sign. -/
theorem neg {result result' : Option Decimal} {x : ℚ} (h : Computes result x) (h' : Computes result' (-x)) :
    Option.Rel (fun d d' => d'.number = -d.number) result result' := by
  have hnone : result' = none ↔ result = none := by rw [h.eq_none_iff, h'.eq_none_iff, OutOfRange, OutOfRange, abs_neg]
  cases hr : result with
  | none =>
    rw [hnone.mpr hr]
    exact .none
  | some d =>
    obtain ⟨d', hd'⟩ : ∃ d', result' = some d' := by
      refine Option.ne_none_iff_exists'.mp fun hn => ?_
      rw [hnone.mp hn] at hr
      cases hr
    rw [hd']
    refine .some ?_
    rw [← number_neg]
    exact (h'.rounds hd').number_unique (h.rounds hr).neg

end Computes

theorem shrink?_computes (negative : Bool) (m s : Nat) :
    Computes (shrink? negative m s) (if negative then -((m : ℚ) / 10 ^ s) else m / 10 ^ s) where
  rounds := Rounds.of_shrink?
  eq_none_iff := by
    rw [shrink?_eq_none_iff, outOfRange_signed_iff (by positivity)]

theorem ofExact?_computes (value : Int) (s : Nat) : Computes (ofExact? value s) (value / 10 ^ s) := by
  have hvalue : (if decide (value < 0) then -((value.natAbs : ℚ) / 10 ^ s) else value.natAbs / 10 ^ s) =
      (value : ℚ) / 10 ^ s := by
    rw [Nat.cast_natAbs, Int.cast_abs]
    by_cases hv : value < 0
    · have hneg : (value : ℚ) < 0 := by exact_mod_cast hv
      rw [if_pos (decide_eq_true hv), abs_of_neg hneg, neg_div, neg_neg]
    · have hpos : (0 : ℚ) ≤ value := by exact_mod_cast not_lt.mp hv
      rw [if_neg (by simpa using hv), abs_of_nonneg hpos]
  rw [← hvalue]
  exact shrink?_computes ..

theorem add?_computes (a b : Decimal) : Computes (a.add? b) (a.number + b.number) := by
  unfold add?
  by_cases ha : a.isZero = true
  · rw [if_pos ha]
    exact .of_number (by rw [isZero_iff.mp ha, zero_add])
  by_cases hb : b.isZero = true
  · rw [if_neg ha, if_pos hb]
    exact .of_number (by rw [isZero_iff.mp hb, add_zero])
  rw [if_neg ha, if_neg hb]
  have hsum : (((aligned a b).1 + (aligned a b).2 : Int) : ℚ) / 10 ^ max a.scale b.scale = a.number + b.number := by
    rw [Int.cast_add, aligned_fst, aligned_snd, ← add_mul, mul_div_cancel_right₀ _ (by positivity)]
  rw [← hsum]
  exact ofExact?_computes ..

theorem sub?_computes (a b : Decimal) : Computes (a.sub? b) (a.number - b.number) := by
  unfold sub?
  by_cases ha : a.isZero = true
  · rw [if_pos ha, isZero_iff.mp ha, zero_sub]
    refine .of_number ?_
    by_cases hb : b.isZero = true
    · rw [if_pos hb, isZero_iff.mp hb, neg_zero]
    · rw [if_neg hb, number_neg]
  by_cases hb : b.isZero = true
  · rw [if_neg ha, if_pos hb]
    exact .of_number (by rw [isZero_iff.mp hb, sub_zero])
  rw [if_neg ha, if_neg hb]
  have hdiff : (((aligned a b).1 - (aligned a b).2 : Int) : ℚ) / 10 ^ max a.scale b.scale = a.number - b.number := by
    rw [Int.cast_sub, aligned_fst, aligned_snd, ← sub_mul, mul_div_cancel_right₀ _ (by positivity)]
  rw [← hdiff]
  exact ofExact?_computes ..

/-- Two short mantissas with so many places multiply to less than half of the last place. -/
theorem settles_tiny {m n s : Nat} (hm : m < 2 ^ 32) (hn : n < 2 ^ 32) (hs : 47 < s) :
    Settles (((m * n : Nat) : ℚ) / 10 ^ s) 28 0 := by
  have hprod : ((m * n : Nat) : ℚ) ≤ 2 ^ 64 := by
    have : m * n ≤ 2 ^ 32 * 2 ^ 32 := Nat.mul_le_mul hm.le hn.le
    exact_mod_cast this
  have hscaled : ((m * n : Nat) : ℚ) / 10 ^ s * 10 ^ 28 < 1 / 2 := by
    have hpow : (10 : ℚ) ^ 48 ≤ 10 ^ s := pow_le_pow_right₀ (by norm_num) hs
    rw [div_mul_eq_mul_div, div_lt_iff₀ (by positivity)]
    linarith
  have hpos : (0 : ℚ) ≤ ((m * n : Nat) : ℚ) / 10 ^ s * 10 ^ 28 := by positivity
  have hbound : (1 : ℚ) ≤ bound := by exact_mod_cast (show 1 ≤ bound by decide)
  refine ⟨le_rfl, by linarith, .inl rfl, .of_lt ?_ ?_⟩ <;> push_cast at * <;> linarith

theorem abs_mul_number (a b : Decimal) :
    |a.number * b.number| = ((a.mantissa * b.mantissa : Nat) : ℚ) / 10 ^ (a.scale + b.scale) := by
  rw [abs_mul, abs_number, abs_number, div_mul_div_comm, pow_add]
  push_cast
  rfl

theorem mul?_computes (a b : Decimal) : Computes (a.mul? b) (a.number * b.number) := by
  unfold mul?
  by_cases hz : (a.isZero || b.isZero) = true
  · rw [if_pos hz]
    refine .of_number ?_
    rw [Bool.or_eq_true, isZero_iff, isZero_iff, ← mul_eq_zero] at hz
    rw [hz, number_zero]
  rw [if_neg hz]
  by_cases htiny : a.mantissa < Nat.pow 2 32 ∧ b.mantissa < Nat.pow 2 32 ∧ 47 < a.scale + b.scale
  · rw [if_pos htiny]
    have hsettles := settles_tiny htiny.1 htiny.2.1 htiny.2.2
    rw [← abs_mul_number] at hsettles
    refine ⟨fun hd => ?_, iff_of_false (by simp) (not_le.mpr ?_)⟩
    · rw [Option.some.injEq] at hd
      subst hd
      refine ⟨⟨28, 0, hsettles, ?_⟩, fun _ => number_zero.ge, fun _ => number_zero.le⟩
      rw [number_zero, carried_of_lt (by decide), abs_zero, Nat.cast_zero, zero_div]
    · exact hsettles.lt_of_room (abs_nonneg _) fun h => absurd h.1 (by decide)
  rw [if_neg htiny]
  have hproduct : (if (a.negative != b.negative) = true
        then -(((a.mantissa * b.mantissa : Nat) : ℚ) / 10 ^ (a.scale + b.scale))
        else ((a.mantissa * b.mantissa : Nat) : ℚ) / 10 ^ (a.scale + b.scale)) = a.number * b.number := by
    rw [number_of_parts, number_of_parts, pow_add]
    push_cast
    cases a.negative <;> cases b.negative <;> simp [div_mul_div_comm]
  rw [← hproduct]
  exact shrink?_computes ..

/-! ## Sums -/

theorem zero_add? (d : Decimal) : zero.add? d = some d :=
  if_pos rfl

/-- Adding what is not negative never brings a sum down, rounded or not. -/
theorem le_of_foldlM_add? {start total : Decimal} {ds : List Decimal} (hds : ∀ d ∈ ds, 0 ≤ d.number)
    (h : ds.foldlM add? start = some total) : start.number ≤ total.number := by
  induction ds generalizing start with
  | nil =>
    cases h
    exact le_rfl
  | cons d ds ih =>
    obtain ⟨hd, hds⟩ := List.forall_mem_cons.mp hds
    rw [List.foldlM_cons, Option.bind_eq_bind, Option.bind_eq_some_iff] at h
    obtain ⟨next, hnext, h⟩ := h
    have hle : start.number ≤ next.number :=
      (Rounds.self start).mono ((add?_computes start d).rounds hnext) (le_add_of_nonneg_right hd)
    exact hle.trans (ih hds h)

/-! ## Sums without rounding -/

/-- A natural number of units of one place, as a decimal. -/
theorem exists_number {n s : Nat} (hn : n < bound) (hs : s ≤ 28) : ∃ d : Decimal, d.number = n / 10 ^ s := by
  obtain ⟨d, -, hd⟩ := ofSigned?_eq_some false hn hs
  exact ⟨d, hd⟩

/-- The number is a natural number of units of the last of so many places. -/
def IsWhole (s : Nat) (d : Decimal) : Prop :=
  ∃ n : Nat, d.number * 10 ^ s = n

theorem IsWhole.number_nonneg {s : Nat} {d : Decimal} (h : d.IsWhole s) : 0 ≤ d.number := by
  obtain ⟨n, hn⟩ := h
  have hpos : (0 : ℚ) < 10 ^ s := by positivity
  have hle : (0 : ℚ) ≤ d.number * 10 ^ s := hn ▸ Nat.cast_nonneg n
  exact nonneg_of_mul_nonneg_left hle hpos

theorem IsWhole.add {s : Nat} {a b : Decimal} (ha : a.IsWhole s) (hb : b.IsWhole s) (hs : s ≤ 28)
    (hroom : (a.number + b.number) * 10 ^ s < bound) :
    ∃ c, a.add? b = some c ∧ c.number = a.number + b.number ∧ c.IsWhole s := by
  obtain ⟨m, hm⟩ := ha
  obtain ⟨n, hn⟩ := hb
  have hsum : (a.number + b.number) * 10 ^ s = (m + n : Nat) := by
    rw [add_mul, hm, hn]
    push_cast
    rfl
  rw [hsum] at hroom
  obtain ⟨e, he⟩ := exists_number (by exact_mod_cast hroom) hs
  rw [← hsum, mul_div_cancel_right₀ _ (by positivity)] at he
  obtain ⟨c, hc, hnumber⟩ := (add?_computes a b).exact he
  exact ⟨c, hc, hnumber, m + n, hnumber ▸ hsum⟩

/-- Numbers of whole units whose total has room are added without rounding, in whatever order. -/
theorem foldlM_add?_exact {s : Nat} (hs : s ≤ 28) {ds : List Decimal} (hds : ∀ d ∈ ds, d.IsWhole s) {start : Decimal}
    (hstart : start.IsWhole s) (hroom : (start.number + (ds.map number).sum) * 10 ^ s < bound) :
    ∃ t, ds.foldlM add? start = some t ∧ t.number = start.number + (ds.map number).sum ∧ t.IsWhole s := by
  induction ds generalizing start with
  | nil => exact ⟨start, rfl, by simp, hstart⟩
  | cons d ds ih =>
    obtain ⟨hd, hrest⟩ := List.forall_mem_cons.mp hds
    have hpos : (0 : ℚ) ≤ (ds.map number).sum :=
      List.sum_nonneg (List.forall_mem_map.mpr fun e he => (hrest e he).number_nonneg)
    rw [List.map_cons, List.sum_cons, ← add_assoc] at hroom
    have hfirst : (start.number + d.number) * 10 ^ s < bound := by
      refine lt_of_le_of_lt (mul_le_mul_of_nonneg_right ?_ (by positivity)) hroom
      linarith
    obtain ⟨c, hc, hnumber, hwhole⟩ := hstart.add hd hs hfirst
    rw [← hnumber] at hroom
    obtain ⟨t, ht, htotal, htwhole⟩ := ih hrest hwhole hroom
    refine ⟨t, ?_, ?_, htwhole⟩
    · rw [List.foldlM_cons, hc]
      exact ht
    · rw [htotal, hnumber, List.map_cons, List.sum_cons, add_assoc]

theorem sum?_exact {s : Nat} (hs : s ≤ 28) {ds : List Decimal} (hds : ∀ d ∈ ds, d.IsWhole s)
    (hroom : (ds.map number).sum * 10 ^ s < bound) :
    ∃ t, sum? ds = some t ∧ t.number = (ds.map number).sum ∧ t.IsWhole s := by
  have hzero : zero.IsWhole s := ⟨0, by rw [number_zero, zero_mul, Nat.cast_zero]⟩
  have htotal := foldlM_add?_exact hs hds hzero (by rwa [number_zero, zero_add])
  rwa [number_zero, zero_add] at htotal

end MarketMinutes.Decimal
