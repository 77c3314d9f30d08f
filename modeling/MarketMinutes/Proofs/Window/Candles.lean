import MarketMinutes.Proofs.Decimal.Number
import MarketMinutes.Window.Candle

/-!
# Candles of series

A candle holds the ends of its series and the first of its highest and of its
lowest prices; this fixes it, so a series in two parts has the candle that the
parts make together. The valid candles are, number by number, those of series.
-/

namespace MarketMinutes

/-! ## The first of the greatest -/

/-- A price of a series whose key none exceeds and none before it reaches. -/
def FirstMost (key : Decimal → ℚ) (ps : List Decimal) (m : Decimal) : Prop :=
  ∃ before after, ps = before ++ m :: after ∧ (∀ p ∈ before, key p < key m) ∧ ∀ p ∈ after, key p ≤ key m

namespace FirstMost
variable {key : Decimal → ℚ} {ps qs : List Decimal} {m n : Decimal}

theorem singleton (p : Decimal) : FirstMost key [p] p :=
  ⟨[], [], rfl, List.forall_mem_nil _, List.forall_mem_nil _⟩

theorem mem (h : FirstMost key ps m) : m ∈ ps := by
  obtain ⟨before, after, rfl, -, -⟩ := h
  simp

theorem le (h : FirstMost key ps m) : ∀ p ∈ ps, key p ≤ key m := by
  obtain ⟨before, after, rfl, hbefore, hafter⟩ := h
  intro p hp
  simp only [List.mem_append, List.mem_cons] at hp
  rcases hp with hp | rfl | hp
  · exact (hbefore p hp).le
  · exact le_rfl
  · exact hafter p hp

theorem key_eq (h : FirstMost key ps m) (hn : n ∈ ps) (hle : ∀ p ∈ ps, key p ≤ key n) : key m = key n :=
  le_antisymm (hle m h.mem) (h.le n hn)

/-- Of two series one after the other the later counts only where it exceeds the first. -/
theorem append (hm : FirstMost key ps m) (hn : FirstMost key qs n) :
    FirstMost key (ps ++ qs) (if key m < key n then n else m) := by
  by_cases hlt : key m < key n
  · rw [if_pos hlt]
    have hps := hm.le
    obtain ⟨before, after, rfl, hbefore, hafter⟩ := hn
    refine ⟨ps ++ before, after, by simp, ?_, hafter⟩
    intro p hp
    rcases List.mem_append.mp hp with hp | hp
    · exact (hps p hp).trans_lt hlt
    · exact hbefore p hp
  · rw [if_neg hlt]
    have hqs := hn.le
    obtain ⟨before, after, rfl, hbefore, hafter⟩ := hm
    refine ⟨before, after ++ qs, by simp, hbefore, ?_⟩
    intro p hp
    rcases List.mem_append.mp hp with hp | hp
    · exact hafter p hp
    · exact (hqs p hp).trans (not_lt.mp hlt)

theorem unique (hm : FirstMost key ps m) (hn : FirstMost key ps n) : m = n := by
  obtain ⟨before, after, hps, hbefore, hafter⟩ := hm
  obtain ⟨before', after', hps', hbefore', hafter'⟩ := hn
  rw [hps, List.append_eq_append_iff] at hps'
  -- The one that comes later would exceed the other, and the other reaches it.
  rcases hps' with ⟨gap, rfl, hgap⟩ | ⟨gap, rfl, hgap⟩
  · cases gap with
    | nil => exact (List.cons.inj hgap).1
    | cons p gap =>
      obtain ⟨rfl, rfl⟩ := List.cons.inj hgap
      have hlt := hbefore' m (by simp)
      have hle := hafter n (by simp)
      exact absurd hlt (not_lt.mpr hle)
  · cases gap with
    | nil => exact (List.cons.inj hgap).1.symm
    | cons p gap =>
      obtain ⟨rfl, rfl⟩ := List.cons.inj hgap
      have hlt := hbefore n (by simp)
      have hle := hafter' m (by simp)
      exact absurd hlt (not_lt.mpr hle)

end FirstMost

/-! ## Candles -/

namespace Candle
variable {c d : Candle} {ps qs : List Decimal} {p : Decimal}

/-- The ends of a series, and the first of its highest and of its lowest prices. -/
structure Spans (c : Candle) (ps : List Decimal) : Prop where
  opening : ps.head? = some c.opening
  closing : ps.getLast? = some c.closing
  high : FirstMost Decimal.number ps c.high
  low : FirstMost (-·.number) ps c.low

/-- The candle of one series and a later one. Of equal extremes the first counts. -/
def join (c d : Candle) : Candle where
  opening := c.opening
  high := if c.high.isLT d.high then d.high else c.high
  low := if d.low.isLT c.low then d.low else c.low
  closing := d.closing

structure SameRange (c d : Candle) : Prop where
  high : c.high.number = d.high.number
  low : c.low.number = d.low.number

structure SameNumbers (c d : Candle) : Prop extends SameRange c d where
  opening : c.opening.number = d.opening.number
  closing : c.closing.number = d.closing.number

namespace Spans

theorem ofPrice (p : Decimal) : (ofPrice p).Spans [p] :=
  ⟨rfl, rfl, .singleton p, .singleton p⟩

theorem join (hc : c.Spans ps) (hd : d.Spans qs) : (c.join d).Spans (ps ++ qs) where
  opening := by
    rw [List.head?_append, hc.opening]
    rfl
  closing := by
    rw [List.getLast?_append, hd.closing]
    rfl
  high := by
    simpa only [Candle.join, Decimal.isLT_iff] using hc.high.append hd.high
  low := by
    simpa only [Candle.join, Decimal.isLT_iff, neg_lt_neg_iff] using hc.low.append hd.low

theorem extend (h : c.Spans ps) (p : Decimal) : (c.extend p).Spans (ps ++ [p]) := by
  have hjoin : c.extend p = c.join (Candle.ofPrice p) := rfl
  rw [hjoin]
  exact h.join (ofPrice p)

theorem foldl_extend (h : c.Spans ps) (qs : List Decimal) : (qs.foldl Candle.extend c).Spans (ps ++ qs) := by
  induction qs generalizing c ps with
  | nil =>
    rw [List.append_nil]
    exact h
  | cons q qs ih =>
    rw [List.append_cons]
    exact ih (h.extend q)

theorem unique (hc : c.Spans ps) (hd : d.Spans ps) : c = d := by
  have hopening := hc.opening.symm.trans hd.opening
  have hclosing := hc.closing.symm.trans hd.closing
  have hhigh := hc.high.unique hd.high
  have hlow := hc.low.unique hd.low
  cases c
  cases d
  simp_all

theorem high_le (h : c.Spans ps) (hp : p ∈ ps) : p.number ≤ c.high.number :=
  h.high.le p hp

theorem le_low (h : c.Spans ps) (hp : p ∈ ps) : c.low.number ≤ p.number :=
  neg_le_neg_iff.mp (h.low.le p hp)

theorem isValid (h : c.Spans ps) : c.isValid = true := by
  have hopening : c.opening ∈ ps := List.mem_of_head? h.opening
  have hclosing : c.closing ∈ ps := List.mem_of_getLast? h.closing
  simp only [Candle.isValid, Bool.and_eq_true, Decimal.isLE_iff]
  exact ⟨⟨⟨⟨h.high_le hopening, h.high_le hclosing⟩, h.high_le h.low.mem⟩, h.le_low hopening⟩, h.le_low hclosing⟩

end Spans

theorem ofSeries?_eq_some_iff : ofSeries? ps = some c ↔ c.Spans ps := by
  cases ps with
  | nil => exact iff_of_false nofun fun h => nomatch h.opening
  | cons p ps =>
    have hspans : (ps.foldl extend (ofPrice p)).Spans (p :: ps) := (Spans.ofPrice p).foldl_extend ps
    constructor
    · intro h
      cases h
      exact hspans
    · intro h
      rw [h.unique hspans]
      rfl

theorem exists_spans (hps : ps ≠ []) : ∃ c : Candle, c.Spans ps := by
  cases ps with
  | nil => exact absurd rfl hps
  | cons p ps => exact ⟨_, ofSeries?_eq_some_iff.mp rfl⟩

/-- Prices in another order have the same highest and the same lowest number. -/
theorem ofSeries?_perm (h : ps.Perm qs) : Option.Rel SameRange (ofSeries? ps) (ofSeries? qs) := by
  by_cases hps : ps = []
  · subst hps
    rw [List.nil_perm.mp h]
    exact .none
  · have hqs : qs ≠ [] := fun hqs => hps (List.perm_nil.mp (hqs ▸ h))
    obtain ⟨c, hc⟩ := exists_spans hps
    obtain ⟨d, hd⟩ := exists_spans hqs
    rw [ofSeries?_eq_some_iff.mpr hc, ofSeries?_eq_some_iff.mpr hd]
    refine .some ⟨?_, ?_⟩
    · apply le_antisymm
      · exact hd.high_le (h.mem_iff.mp hc.high.mem)
      · exact hc.high_le (h.mem_iff.mpr hd.high.mem)
    · apply le_antisymm
      · exact hc.le_low (h.mem_iff.mpr hd.low.mem)
      · exact hd.le_low (h.mem_iff.mp hc.low.mem)

theorem isValid_congr (h : c.SameNumbers d) : c.isValid = d.isValid := by
  rw [Bool.eq_iff_iff]
  simp only [isValid, Bool.and_eq_true, Decimal.isLE_iff, h.opening, h.high, h.low, h.closing]

/-- Opened, risen to its high, fallen to its low and closed, a valid candle comes about. -/
theorem exists_series (h : c.isValid = true) : ∃ ps d, ofSeries? ps = some d ∧ c.SameNumbers d := by
  simp only [isValid, Bool.and_eq_true, Decimal.isLE_iff] at h
  obtain ⟨⟨⟨⟨hopening, hclosing⟩, hrange⟩, hopening'⟩, hclosing'⟩ := h
  obtain ⟨d, hd⟩ := exists_spans (List.cons_ne_nil c.opening [c.high, c.low, c.closing])
  refine ⟨_, d, ofSeries?_eq_some_iff.mpr hd, ⟨?_, ?_⟩, ?_, ?_⟩
  · refine (hd.high.key_eq (by simp) ?_).symm
    simp only [List.forall_mem_cons]
    exact ⟨hopening, le_rfl, hrange, hclosing, List.forall_mem_nil _⟩
  · refine (neg_inj.mp (hd.low.key_eq (n := c.low) (by simp) ?_)).symm
    simp only [List.forall_mem_cons, neg_le_neg_iff]
    exact ⟨hopening', hrange, le_rfl, hclosing', List.forall_mem_nil _⟩
  · exact congrArg Decimal.number (Option.some.inj hd.opening)
  · exact congrArg Decimal.number (Option.some.inj hd.closing)

/-- A candle of prices spans them and is valid, the candles of two series make that of both, and a candle is valid just
where some series has its numbers. -/
theorem series_make_the_valid :
    (∀ ps, ps ≠ [] → ∃ c, ofSeries? ps = some c ∧ c.Spans ps ∧ c.isValid = true) ∧
    (∀ xs ys c d, ofSeries? xs = some c → ofSeries? ys = some d → ofSeries? (xs ++ ys) = some (c.join d)) ∧
    ∀ c, isValid c = true ↔ ∃ ps d, ofSeries? ps = some d ∧ c.SameNumbers d := by
  refine ⟨?_, ?_, ?_⟩
  · intro ps hps
    obtain ⟨c, hc⟩ := exists_spans hps
    exact ⟨c, ofSeries?_eq_some_iff.mpr hc, hc, hc.isValid⟩
  · intro xs ys c d hc hd
    rw [ofSeries?_eq_some_iff] at hc hd ⊢
    exact hc.join hd
  · intro c
    constructor
    · exact exists_series
    · rintro ⟨ps, d, hd, hsame⟩
      rw [isValid_congr hsame]
      exact (ofSeries?_eq_some_iff.mp hd).isValid

/-- A rise to the high and back, then the fall: equal prices of two scales at either end. -/
theorem series_make_the_valid_with_ties :
    let xs : List Decimal := [.one, ⟨false, 200, 2, by decide, by decide⟩, .two]
    let ys : List Decimal := [⟨false, 5, 1, by decide, by decide⟩, .two, ⟨false, 50, 2, by decide, by decide⟩]
    xs ≠ [] ∧ ∃ c d, ofSeries? xs = some c ∧ ofSeries? ys = some d ∧ c.Spans xs ∧ c.isValid = true ∧
      ofSeries? (xs ++ ys) = some (c.join d) ∧
      c.join d = ⟨.one, ⟨false, 200, 2, by decide, by decide⟩, ⟨false, 5, 1, by decide, by decide⟩,
        ⟨false, 50, 2, by decide, by decide⟩⟩ ∧
      (c.join d).isValid = true ∧ ∃ ps e, ofSeries? ps = some e ∧ (c.join d).SameNumbers e := by
  intro xs ys
  obtain ⟨hspans, hjoin, hvalid⟩ := series_make_the_valid
  have hne : xs ≠ [] := List.cons_ne_nil _ _
  obtain ⟨c, hc, hcspans, hcvalid⟩ := hspans xs hne
  obtain ⟨d, hd, -⟩ := hspans ys (List.cons_ne_nil _ _)
  have hboth := hjoin xs ys c d hc hd
  have hcandle : ofSeries? (xs ++ ys) = some ⟨.one, ⟨false, 200, 2, by decide, by decide⟩,
      ⟨false, 5, 1, by decide, by decide⟩, ⟨false, 50, 2, by decide, by decide⟩⟩ := by
    decide
  have heq := Option.some.inj (hboth.symm.trans hcandle)
  have hv : (c.join d).isValid = true := by
    rw [heq]
    decide
  exact ⟨hne, c, d, hc, hd, hcspans, hcvalid, hboth, heq, hv, (hvalid _).mp hv⟩

end Candle
end MarketMinutes
