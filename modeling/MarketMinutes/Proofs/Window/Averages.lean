import Mathlib.Algebra.BigOperators.Ring.List
import MarketMinutes.Proofs.Decimal.Division
import MarketMinutes.Proofs.Json.Documents
import MarketMinutes.Proofs.Window.Sides

/-!
# Prices averaged over a volume

The averaged price of a side is its notional over its volume, rounded. It is
missing without a volume, and where that quotient is out of range. No quantity
being negative, dearer trades never bring it down: it lies between what the
same quantities average to at the lowest price and at the highest, and between
these prices themselves where neither sum is rounded.
-/

namespace MarketMinutes

namespace Turnover
variable {t : Turnover} {p : Decimal}

theorem averagePrice?_eq_none_iff :
    t.averagePrice? = Option.none ↔ t.volume.isZero = true ∨ Decimal.OutOfRange (t.notional.number / t.volume.number) := by
  unfold averagePrice?
  by_cases hzero : t.volume.isZero = true
  · rw [if_pos hzero]
    exact iff_of_true rfl (.inl hzero)
  · rw [if_neg hzero, (Decimal.div?_computes t.notional (Decimal.isZero_iff.not.mp hzero)).eq_none_iff]
    exact (or_iff_right hzero).symm

theorem averagePrice?_eq_some_iff :
    t.averagePrice? = some p ↔ t.volume.number ≠ 0 ∧ t.notional.div? t.volume = some p := by
  unfold averagePrice?
  by_cases hzero : t.volume.isZero = true
  · rw [if_pos hzero]
    exact iff_of_false nofun fun h => h.1 (Decimal.isZero_iff.mp hzero)
  · rw [if_neg hzero]
    exact (and_iff_right (Decimal.isZero_iff.not.mp hzero)).symm

theorem rounds_of_averagePrice? (h : t.averagePrice? = some p) :
    Decimal.Rounds (t.notional.number / t.volume.number) p := by
  obtain ⟨hne, hdiv⟩ := averagePrice?_eq_some_iff.mp h
  exact (Decimal.div?_computes t.notional hne).rounds hdiv

end Turnover

/-! ## Dearer trades -/

/-- One quantity, not negative, at a price no higher. -/
structure Trade.Cheaper (s t : Trade) : Prop where
  quantity : s.quantity = t.quantity
  nonneg : 0 ≤ t.quantity.number
  price : s.price.number ≤ t.price.number

/-- The same quantity at another price. -/
def Trade.priced (p : Decimal) (t : Trade) : Trade :=
  { t with price := p }

namespace Turnover
variable {t u : Turnover} {p x y m n : Decimal} {trades ss ts : List Trade}

theorem notional_mono (h : List.Forall₂ Trade.Cheaper ss ts) (hmn : m.number ≤ n.number)
    (hx : (ss.mapM Trade.product?).bind (·.foldlM Decimal.add? m) = some x)
    (hy : (ts.mapM Trade.product?).bind (·.foldlM Decimal.add? n) = some y) : x.number ≤ y.number := by
  induction h generalizing m n with
  | nil =>
    cases hx
    cases hy
    exact hmn
  | cons hst _ ih =>
    rw [notional_cons, Option.bind_eq_some_iff] at hx hy
    obtain ⟨m', hm', hx⟩ := hx
    obtain ⟨n', hn', hy⟩ := hy
    obtain ⟨a, ha, hm'⟩ := Option.bind_eq_some_iff.mp hm'
    obtain ⟨b, hb, hn'⟩ := Option.bind_eq_some_iff.mp hn'
    have hab : a.number ≤ b.number := by
      apply ((Decimal.mul?_computes ..).rounds ha).mono ((Decimal.mul?_computes ..).rounds hb)
      rw [hst.quantity]
      exact mul_le_mul_of_nonneg_left hst.price hst.nonneg
    have hnext : m'.number ≤ n'.number := by
      apply ((Decimal.add?_computes ..).rounds hm').mono ((Decimal.add?_computes ..).rounds hn')
      exact add_le_add hmn hab
    exact ih hnext hx hy

theorem Sums.volume_eq (ht : t.Sums ss) (hu : u.Sums ts) (h : ss.map (·.quantity) = ts.map (·.quantity)) :
    t.volume = u.volume := by
  have hvolume := ht.volume
  rw [h, hu.volume] at hvolume
  exact (Option.some.inj hvolume).symm

theorem Sums.volume_nonneg (h : t.Sums trades) (hq : ∀ s ∈ trades, 0 ≤ s.quantity.number) : 0 ≤ t.volume.number := by
  have hle := Decimal.le_of_foldlM_add? (List.forall_mem_map.mpr hq) h.volume
  rwa [Decimal.number_zero] at hle

theorem averagePrice?_mono (hvolume : t.volume = u.volume) (hpos : 0 ≤ t.volume.number)
    (hle : t.notional.number ≤ u.notional.number) (hx : t.averagePrice? = some x) (hy : u.averagePrice? = some y) :
    x.number ≤ y.number := by
  apply (rounds_of_averagePrice? hx).mono (rounds_of_averagePrice? hy)
  rw [← hvolume]
  exact div_le_div_of_nonneg_right hle hpos

/-- What the quantities of some trades average to if all of them are traded at one price. -/
def averageAt? (p : Decimal) (trades : List Trade) : Option Decimal :=
  ((trades.map (Trade.priced p)).foldlM add none).toOption.bind averagePrice?

theorem averageAt?_eq_some_iff :
    averageAt? p trades = some x ↔ ∃ t : Turnover, t.Sums (trades.map (Trade.priced p)) ∧ t.averagePrice? = some x := by
  unfold averageAt?
  simp only [← foldlM_add_none_eq_ok_iff]
  cases (trades.map (Trade.priced p)).foldlM add none with
  | error o => simp [Except.toOption]
  | ok t => simp [Except.toOption]

theorem map_quantity_priced (p : Decimal) (trades : List Trade) :
    (trades.map (Trade.priced p)).map (·.quantity) = trades.map (·.quantity) := by
  rw [List.map_map]
  rfl

theorem cheaper_priced (hq : ∀ s ∈ trades, 0 ≤ s.quantity.number) (hp : ∀ s ∈ trades, p.number ≤ s.price.number) :
    List.Forall₂ Trade.Cheaper (trades.map (Trade.priced p)) trades := by
  rw [List.forall₂_map_left_iff, List.forall₂_same]
  intro s hs
  exact ⟨rfl, hq s hs, hp s hs⟩

theorem averageAt?_le (hq : ∀ s ∈ trades, 0 ≤ s.quantity.number) (hp : ∀ s ∈ trades, p.number ≤ s.price.number)
    (ht : t.Sums trades) (hx : averageAt? p trades = some x) (hy : t.averagePrice? = some y) : x.number ≤ y.number := by
  obtain ⟨u, hu, hx⟩ := averageAt?_eq_some_iff.mp hx
  have hvolume := hu.volume_eq ht (map_quantity_priced p trades)
  refine averagePrice?_mono hvolume ?_ (notional_mono (cheaper_priced hq hp) le_rfl hu.notional ht.notional) hx hy
  rw [hvolume]
  exact ht.volume_nonneg hq

theorem le_averageAt? (hq : ∀ s ∈ trades, 0 ≤ s.quantity.number) (hp : ∀ s ∈ trades, s.price.number ≤ p.number)
    (ht : t.Sums trades) (hx : averageAt? p trades = some x) (hy : t.averagePrice? = some y) : y.number ≤ x.number := by
  obtain ⟨u, hu, hx⟩ := averageAt?_eq_some_iff.mp hx
  have hvolume := hu.volume_eq ht (map_quantity_priced p trades)
  have hdearer : List.Forall₂ Trade.Cheaper trades (trades.map (Trade.priced p)) := by
    rw [List.forall₂_map_right_iff, List.forall₂_same]
    intro s hs
    exact ⟨rfl, hq s hs, hp s hs⟩
  exact averagePrice?_mono hvolume.symm (ht.volume_nonneg hq) (notional_mono hdearer le_rfl ht.notional hu.notional) hy hx

theorem exists_notional (h : List.Forall₂ Trade.Cheaper ss ts) (hprices : ∀ s ∈ ss, 0 ≤ s.price.number)
    (hm : 0 ≤ m.number) (hmn : m.number ≤ n.number)
    (hy : (ts.mapM Trade.product?).bind (·.foldlM Decimal.add? n) = some y) :
    ∃ x, (ss.mapM Trade.product?).bind (·.foldlM Decimal.add? m) = some x ∧ 0 ≤ x.number := by
  induction h generalizing m n with
  | nil => exact ⟨m, rfl, hm⟩
  | @cons s t ss ts hst _ ih =>
    obtain ⟨hprice, hprices⟩ := List.forall_mem_cons.mp hprices
    rw [notional_cons, Option.bind_eq_some_iff] at hy
    obtain ⟨n', hn', hy⟩ := hy
    obtain ⟨b, hb, hn'⟩ := Option.bind_eq_some_iff.mp hn'
    obtain ⟨a, ha, hpos, hab⟩ := (Decimal.mul?_computes s.quantity s.price).exists_of_le (Decimal.mul?_computes ..)
      (mul_nonneg (hst.quantity ▸ hst.nonneg) hprice)
      (by rw [hst.quantity]; exact mul_le_mul_of_nonneg_left hst.price hst.nonneg) hb
    obtain ⟨m', hm', hpos', hmn'⟩ := (Decimal.add?_computes m a).exists_of_le (Decimal.add?_computes ..)
      (add_nonneg hm hpos) (add_le_add hmn hab) hn'
    obtain ⟨x, hx, hpos⟩ := ih hprices hpos' hmn' hy
    refine ⟨x, ?_, hpos⟩
    rw [notional_cons, show s.product? = some a from ha, Option.bind_some, hm', Option.bind_some, hx]

/-- What is averaged at a price no higher than any, and not negative, is in range if the average is. -/
theorem exists_averageAt? (hq : ∀ s ∈ trades, 0 ≤ s.quantity.number) (h0 : 0 ≤ p.number)
    (hp : ∀ s ∈ trades, p.number ≤ s.price.number) (ht : t.Sums trades) (hy : t.averagePrice? = some y) :
    ∃ x, averageAt? p trades = some x := by
  obtain ⟨hne, hdiv⟩ := averagePrice?_eq_some_iff.mp hy
  have hcheaper := cheaper_priced hq hp
  obtain ⟨notional, hnotional, hpos⟩ := exists_notional hcheaper (List.forall_mem_map.mpr fun _ _ => h0)
    Decimal.number_zero.ge le_rfl ht.notional
  have hle := notional_mono hcheaper le_rfl hnotional ht.notional
  have hvolume := ht.volume_nonneg hq
  obtain ⟨x, hx, -⟩ := (Decimal.div?_computes notional hne).exists_of_le (Decimal.div?_computes t.notional hne)
    (div_nonneg hpos hvolume) (div_le_div_of_nonneg_right hle hvolume) hdiv
  refine ⟨x, averageAt?_eq_some_iff.mpr ⟨⟨t.volume, notional⟩, ⟨?_, hnotional⟩, averagePrice?_eq_some_iff.mpr ⟨hne, hx⟩⟩⟩
  rw [map_quantity_priced]
  exact ht.volume

/-! ## Sums without rounding -/

/-- Volume and notional are the exact sums. -/
structure Exact (t : Turnover) (trades : List Trade) : Prop where
  volume : t.volume.number = (trades.map (·.quantity.number)).sum
  notional : t.notional.number = (trades.map fun s => s.quantity.number * s.price.number).sum

namespace Exact

theorem volume_nonneg (h : t.Exact trades) (hq : ∀ s ∈ trades, 0 ≤ s.quantity.number) : 0 ≤ t.volume.number := by
  rw [h.volume]
  exact List.sum_nonneg (List.forall_mem_map.mpr hq)

theorem le_div (h : t.Exact trades) (hq : ∀ s ∈ trades, 0 ≤ s.quantity.number)
    (hp : ∀ s ∈ trades, p.number ≤ s.price.number) (hne : t.volume.number ≠ 0) :
    p.number ≤ t.notional.number / t.volume.number := by
  rw [le_div_iff₀ (lt_of_le_of_ne (h.volume_nonneg hq) hne.symm)]
  calc p.number * t.volume.number
    _ = (trades.map fun s => p.number * s.quantity.number).sum := by rw [h.volume, List.sum_map_mul_left]
    _ ≤ (trades.map fun s => s.quantity.number * s.price.number).sum := by
      refine List.sum_le_sum fun s hs => ?_
      rw [mul_comm]
      exact mul_le_mul_of_nonneg_left (hp s hs) (hq s hs)
    _ = t.notional.number := h.notional.symm

theorem div_le (h : t.Exact trades) (hq : ∀ s ∈ trades, 0 ≤ s.quantity.number)
    (hp : ∀ s ∈ trades, s.price.number ≤ p.number) (hne : t.volume.number ≠ 0) :
    t.notional.number / t.volume.number ≤ p.number := by
  rw [div_le_iff₀ (lt_of_le_of_ne (h.volume_nonneg hq) hne.symm)]
  calc t.notional.number
    _ = (trades.map fun s => s.quantity.number * s.price.number).sum := h.notional
    _ ≤ (trades.map fun s => p.number * s.quantity.number).sum := by
      refine List.sum_le_sum fun s hs => ?_
      rw [mul_comm p.number]
      exact mul_le_mul_of_nonneg_left (hp s hs) (hq s hs)
    _ = p.number * t.volume.number := by rw [h.volume, List.sum_map_mul_left]

theorem not_outOfRange (h : t.Exact trades) (hq : ∀ s ∈ trades, 0 ≤ s.quantity.number) (hne : t.volume.number ≠ 0) :
    ¬ Decimal.OutOfRange (t.notional.number / t.volume.number) := by
  have htrades : trades.map (·.price) ≠ [] := by
    rw [Ne, List.map_eq_nil_iff]
    rintro rfl
    exact hne h.volume
  obtain ⟨c, hc⟩ := Candle.exists_spans htrades
  have hlow := h.le_div hq (fun s hs => hc.le_low (List.mem_map_of_mem hs)) hne
  have hhigh := h.div_le hq (fun s hs => hc.high_le (List.mem_map_of_mem hs)) hne
  have hlow' := (abs_lt.mp c.low.abs_number_lt).1
  have hhigh' := (abs_lt.mp c.high.abs_number_lt).2
  rw [Decimal.OutOfRange, not_le, abs_lt]
  exact ⟨hlow'.trans_le hlow, hhigh.trans_lt hhigh'⟩

theorem le_averagePrice? (h : t.Exact trades) (hq : ∀ s ∈ trades, 0 ≤ s.quantity.number)
    (hp : ∀ s ∈ trades, p.number ≤ s.price.number) (hy : t.averagePrice? = some y) : p.number ≤ y.number := by
  have hne := (averagePrice?_eq_some_iff.mp hy).1
  exact (Decimal.Rounds.self p).mono (rounds_of_averagePrice? hy) (h.le_div hq hp hne)

theorem averagePrice?_le (h : t.Exact trades) (hq : ∀ s ∈ trades, 0 ≤ s.quantity.number)
    (hp : ∀ s ∈ trades, s.price.number ≤ p.number) (hy : t.averagePrice? = some y) : y.number ≤ p.number := by
  have hne := (averagePrice?_eq_some_iff.mp hy).1
  exact (rounds_of_averagePrice? hy).mono (Decimal.Rounds.self p) (h.div_le hq hp hne)

end Exact

/-- Quantities and prices of so few places, and sums with so much room, that nothing is rounded. -/
structure Short (a b : Nat) (trades : List Trade) : Prop where
  places_le : a + b ≤ 28
  quantity : ∀ s ∈ trades, s.quantity.IsWhole a
  price : ∀ s ∈ trades, s.price.IsWhole b
  volume_lt : (trades.map (·.quantity.number)).sum * 10 ^ a < Decimal.bound
  notional_lt : (trades.map fun s => s.quantity.number * s.price.number).sum * 10 ^ (a + b) < Decimal.bound

namespace Short
variable {a b : Nat} {s : Trade}

theorem exists_product (h : Short a b trades) (hs : s ∈ trades) :
    ∃ d, s.product? = some d ∧ d.number = s.quantity.number * s.price.number ∧ d.IsWhole (a + b) := by
  obtain ⟨m, hm⟩ := h.quantity s hs
  obtain ⟨n, hn⟩ := h.price s hs
  have hwhole : s.quantity.number * s.price.number * 10 ^ (a + b) = (m * n : Nat) := by
    rw [Nat.cast_mul, ← hm, ← hn, pow_add]
    ring
  have hnonneg : ∀ s ∈ trades, 0 ≤ s.quantity.number * s.price.number := by
    intro s hs
    exact mul_nonneg (h.quantity s hs).number_nonneg (h.price s hs).number_nonneg
  have hle := List.single_le_sum (List.forall_mem_map.mpr hnonneg) _ (List.mem_map_of_mem hs)
  have hlt : ((m * n : Nat) : ℚ) < Decimal.bound := by
    rw [← hwhole]
    exact lt_of_le_of_lt (mul_le_mul_of_nonneg_right hle (by positivity)) h.notional_lt
  obtain ⟨e, he⟩ := Decimal.exists_number (by exact_mod_cast hlt) h.places_le
  rw [← hwhole, mul_div_cancel_right₀ _ (by positivity)] at he
  obtain ⟨d, hd, hnumber⟩ := (Decimal.mul?_computes s.quantity s.price).exact he
  exact ⟨d, hd, hnumber, m * n, hnumber ▸ hwhole⟩

theorem exists_products {trades : List Trade} {c : Nat}
    (h : ∀ s ∈ trades, ∃ d, s.product? = some d ∧ d.number = s.quantity.number * s.price.number ∧ d.IsWhole c) :
    ∃ ds, trades.mapM Trade.product? = some ds ∧
      ds.map Decimal.number = (trades.map fun s => s.quantity.number * s.price.number) ∧ ∀ d ∈ ds, d.IsWhole c := by
  induction trades with
  | nil => exact ⟨[], rfl, rfl, List.forall_mem_nil _⟩
  | cons s trades ih =>
    obtain ⟨⟨d, hd, hnumber, hwhole⟩, hrest⟩ := List.forall_mem_cons.mp h
    obtain ⟨ds, hds, hnumbers, hwholes⟩ := ih hrest
    refine ⟨d :: ds, by simp [hd, hds], ?_, List.forall_mem_cons.mpr ⟨hwhole, hwholes⟩⟩
    rw [List.map_cons, hnumber, hnumbers, List.map_cons]

theorem exact (h : Short a b trades) (ht : t.Sums trades) : t.Exact trades := by
  have hle := h.places_le
  obtain ⟨ds, hds, hnumbers, hwholes⟩ := exists_products fun s hs => h.exists_product hs
  have hquantities : ((trades.map (·.quantity)).map Decimal.number).sum = (trades.map (·.quantity.number)).sum := by
    rw [List.map_map]
    rfl
  obtain ⟨volume, hvolume, hvolumes, -⟩ := Decimal.sum?_exact (by omega) (List.forall_mem_map.mpr h.quantity)
    (by rw [hquantities]; exact h.volume_lt)
  obtain ⟨notional, hnotional, hnotionals, -⟩ := Decimal.sum?_exact hle hwholes
    (by rw [hnumbers]; exact h.notional_lt)
  have htvolume := ht.volume.symm.trans hvolume
  have htnotional := ht.notional
  rw [hds, Option.bind_some, hnotional] at htnotional
  rw [Option.some.injEq] at htvolume htnotional
  exact ⟨by rw [htvolume, hvolumes, hquantities], by rw [← htnotional, hnotionals, hnumbers]⟩

end Short

end Turnover

namespace TradeWindow
open Turnover (averageAt?)

/-- How the averaged price of some trades keeps to a candle: it lies between what their quantities average to at the
low and at the high, and between low and high themselves if no sum is rounded. The average at a low is there unless that
low is negative. -/
structure LiesWithin (p : Decimal) (c : Candle) (trades : List Trade) : Prop where
  low : ∀ x, averageAt? c.low trades = some x → x.number ≤ p.number
  exists_low : 0 ≤ c.low.number → ∃ x, averageAt? c.low trades = some x
  high : ∀ x, averageAt? c.high trades = some x → p.number ≤ x.number
  exact : (∀ t : Turnover, t.Sums trades → t.Exact trades) → c.low.number ≤ p.number ∧ p.number ≤ c.high.number

theorem Reduces.liesWithin {w : TradeWindow} {trades : List Trade} (h : w.Reduces trades) {maker : Bool}
    (hq : ∀ s ∈ Trade.side maker trades, 0 ≤ s.quantity.number) {p : Decimal} (hp : w.price? maker = some p) :
    ∃ c, w.candle = some c ∧ LiesWithin p c (Trade.side maker trades) := by
  obtain ⟨t, hsums, -, hprice⟩ := h.sides maker
  rw [hp] at hprice
  have hne : trades.map (·.price) ≠ [] := by
    rw [Ne, List.map_eq_nil_iff]
    rintro rfl
    have hzero : Decimal.zero = t.volume := Option.some.inj hsums.volume
    have hvolume := (Turnover.averagePrice?_eq_some_iff.mp hprice.symm).1
    rw [← hzero] at hvolume
    exact hvolume Decimal.number_zero
  obtain ⟨c, hc⟩ := Candle.exists_spans hne
  have hmem : ∀ s ∈ Trade.side maker trades, s.price ∈ trades.map (·.price) := by
    intro s hs
    exact List.mem_map_of_mem (List.mem_filter.mp hs).1
  have hlow : ∀ s ∈ Trade.side maker trades, c.low.number ≤ s.price.number := fun s hs => hc.le_low (hmem s hs)
  have hhigh : ∀ s ∈ Trade.side maker trades, s.price.number ≤ c.high.number := fun s hs => hc.high_le (hmem s hs)
  refine ⟨c, h.candle.trans (Candle.ofSeries?_eq_some_iff.mpr hc), ?_, ?_, ?_, ?_⟩
  · intro x hx
    exact Turnover.averageAt?_le hq hlow hsums hx hprice.symm
  · intro h0
    exact Turnover.exists_averageAt? hq h0 hlow hsums hprice.symm
  · intro x hx
    exact Turnover.le_averageAt? hq hhigh hsums hx hprice.symm
  · intro hexact
    exact ⟨(hexact t hsums).le_averagePrice? hq hlow hprice.symm, (hexact t hsums).averagePrice?_le hq hhigh hprice.symm⟩

/-- A side has no averaged price just where it has no volume or its notional over its volume is out of range; where it
has one, that is this quotient, rounded. Only a negative quantity or a rounded sum can bring an average out of range. -/
theorem price_missing_iff :
    ∀ trades w, ofTrades trades = .ok w → ∀ maker, ∃ t : Turnover, t.Sums (Trade.side maker trades) ∧
      w.volume maker = t.volume ∧
      (w.price? maker = none ↔
        (w.volume maker).isZero = true ∨ Decimal.OutOfRange (t.notional.number / t.volume.number)) ∧
      (∀ p, w.price? maker = some p →
        t.notional.div? t.volume = some p ∧ Decimal.Rounds (t.notional.number / t.volume.number) p) ∧
      ((∀ s ∈ Trade.side maker trades, 0 ≤ s.quantity.number) → t.Exact (Trade.side maker trades) →
        (w.price? maker = none ↔ (w.volume maker).isZero = true)) := by
  intro trades w hw maker
  obtain ⟨t, hsums, hvolume, hprice⟩ := (ofTrades_eq_ok_iff.mp hw).sides maker
  refine ⟨t, hsums, hvolume, ?_, ?_, ?_⟩
  · rw [hprice, hvolume]
    exact Turnover.averagePrice?_eq_none_iff
  · intro p hp
    rw [hprice] at hp
    exact ⟨(Turnover.averagePrice?_eq_some_iff.mp hp).2, Turnover.rounds_of_averagePrice? hp⟩
  · intro hq hexact
    rw [hprice, hvolume, Turnover.averagePrice?_eq_none_iff]
    refine or_iff_left_of_imp fun hout => ?_
    by_contra hzero
    exact hexact.not_outOfRange hq (Decimal.isZero_iff.not.mp hzero) hout

/-- Two sells with an average, and two buys that cancel each other but for the last place of their volume. -/
theorem price_missing_iff_of_cancelled_buys :
    let sells : List Trade := [⟨⟨false, 100, 0, by decide, by decide⟩, .one, true⟩, ⟨.two, .two, true⟩]
    let buys : List Trade := [⟨⟨false, 10000000000, 0, by decide, by decide⟩, .one, false⟩,
      ⟨.zero, ⟨true, 9999999999999999999999999999, 28, by decide, by decide⟩, false⟩]
    let p : Decimal := ⟨false, 34666666666666666666666666667, 27, by decide, by decide⟩
    ∃ w, ofTrades (sells ++ buys) = .ok w ∧
      (∃ t : Turnover, t.Sums sells ∧ w.sellPrice = some p ∧ t.notional.div? t.volume = some p ∧
        Decimal.Rounds (t.notional.number / t.volume.number) p ∧ (∀ s ∈ sells, 0 ≤ s.quantity.number) ∧ t.Exact sells ∧
        (w.sellPrice = none ↔ w.sellVolume.isZero = true)) ∧
      ∃ t : Turnover, t.Sums buys ∧ w.buyPrice = none ∧ w.buyVolume.isZero = false ∧
        Decimal.OutOfRange (t.notional.number / t.volume.number) := by
  intro sells buys p
  let price : Decimal := ⟨false, 10000000000, 0, by decide, by decide⟩
  let w : TradeWindow := ⟨⟨false, 3, 0, by decide, by decide⟩, ⟨false, 1, 28, by decide, by decide⟩, some p, none,
    some ⟨⟨false, 100, 0, by decide, by decide⟩, price, .zero, .zero⟩, 4⟩
  have hw : ofTrades (sells ++ buys) = .ok w := by
    decide +kernel
  refine ⟨w, hw, ?_, ?_⟩
  · obtain ⟨t, hsums, hvolume, -, hprice, hpresent⟩ := price_missing_iff _ _ hw true
    have hside : Trade.side true (sells ++ buys) = sells := rfl
    rw [hside] at hsums hpresent
    have hq : ∀ s ∈ sells, 0 ≤ s.quantity.number := by
      simp [sells, Decimal.number, Decimal.signed, Decimal.one, Decimal.two]
    have hshort : Turnover.Short 0 0 sells := by
      constructor
      · decide
      · simp only [sells, List.forall_mem_cons]
        exact ⟨⟨1, by simp [Decimal.number, Decimal.signed, Decimal.one]⟩, ⟨2, by simp [Decimal.number_two]⟩,
          List.forall_mem_nil _⟩
      · simp only [sells, List.forall_mem_cons]
        exact ⟨⟨100, by simp [Decimal.number, Decimal.signed]⟩, ⟨2, by simp [Decimal.number_two]⟩, List.forall_mem_nil _⟩
      · norm_num [sells, Decimal.number, Decimal.signed, Decimal.one, Decimal.two, Decimal.bound]
      · norm_num [sells, Decimal.number, Decimal.signed, Decimal.one, Decimal.two, Decimal.bound]
    have hexact : t.Exact sells := hshort.exact hsums
    obtain ⟨hdiv, hrounds⟩ := hprice p rfl
    exact ⟨t, hsums, rfl, hdiv, hrounds, hq, hexact, hpresent hq hexact⟩
  · obtain ⟨t, hsums, hvolume, hmissing, -⟩ := price_missing_iff _ _ hw false
    have hside : Trade.side false (sells ++ buys) = buys := rfl
    rw [hside] at hsums
    have hzero : w.buyVolume.isZero = false := rfl
    refine ⟨t, hsums, rfl, hzero, (hmissing.mp rfl).resolve_left ?_⟩
    exact Bool.eq_false_iff.mp hzero

/-- One sell at the largest price: its notional is rounded up, and over the quantity it leaves the range. The same
without rounding, where a negative quantity leaves next to no volume. -/
theorem traded_side_without_price :
    let price : Decimal := ⟨false, 79228162514264337593543950335, 0, by decide, by decide⟩
    let quantity : Decimal := ⟨false, 9, 1, by decide, by decide⟩
    let cancelled : Decimal := ⟨true, 9999999999999999999999999999, 28, by decide, by decide⟩
    (∃ w, ofTrades [⟨price, quantity, true⟩] = .ok w ∧ w.sellPrice = none ∧ w.sellVolume = quantity) ∧
      ∃ w, ofTrades [⟨⟨false, 10000000000, 0, by decide, by decide⟩, .one, true⟩, ⟨.zero, cancelled, true⟩] = .ok w ∧
        w.sellPrice = none ∧ w.sellVolume.isZero = false := by
  intro price quantity cancelled
  let large : Decimal := ⟨false, 10000000000, 0, by decide, by decide⟩
  let rounded : TradeWindow := ⟨quantity, .zero, none, none, some (.ofPrice price), 1⟩
  let left : TradeWindow := ⟨⟨false, 1, 28, by decide, by decide⟩, .zero, none, none,
    some ⟨large, large, .zero, .zero⟩, 2⟩
  have hrounded : ofTrades [⟨price, quantity, true⟩] = .ok rounded := by
    decide +kernel
  have hleft : ofTrades [⟨large, .one, true⟩, ⟨.zero, cancelled, true⟩] = .ok left := by
    decide +kernel
  exact ⟨⟨rounded, hrounded, rfl, rfl⟩, left, hleft, rfl, rfl⟩

/-- A side without negative quantities has no negative volume, and its averaged price lies in the range of the candle
as far as its sums are not rounded. At one price, quantities average to that price if no sum is rounded; none is where
quantities and prices are short. -/
theorem averages_within_candle :
    (∀ trades w, ofTrades trades = .ok w → ∀ maker, (∀ s ∈ Trade.side maker trades, 0 ≤ s.quantity.number) →
      0 ≤ (w.volume maker).number ∧ ∀ p, w.price? maker = some p →
        ∃ c, w.candle = some c ∧ LiesWithin p c (Trade.side maker trades)) ∧
    (∀ trades p x, (∀ s ∈ trades, 0 ≤ s.quantity.number) → averageAt? p trades = some x →
      (∀ t : Turnover, t.Sums (trades.map (Trade.priced p)) → t.Exact (trades.map (Trade.priced p))) →
      x.number = p.number) ∧
    ∀ trades a b, Turnover.Short a b trades → ∀ t : Turnover, t.Sums trades → t.Exact trades := by
  refine ⟨?_, ?_, fun trades a b h t ht => h.exact ht⟩
  · intro trades w hw maker hq
    have hreduces := ofTrades_eq_ok_iff.mp hw
    obtain ⟨t, hsums, hvolume, -⟩ := hreduces.sides maker
    refine ⟨?_, fun p hp => hreduces.liesWithin hq hp⟩
    rw [hvolume]
    exact hsums.volume_nonneg hq
  · intro trades p x hq hx hexact
    obtain ⟨t, hsums, hprice⟩ := Turnover.averageAt?_eq_some_iff.mp hx
    have hq' : ∀ s ∈ trades.map (Trade.priced p), 0 ≤ s.quantity.number := List.forall_mem_map.mpr hq
    have hp' : ∀ s ∈ trades.map (Trade.priced p), s.price = p := List.forall_mem_map.mpr fun _ _ => rfl
    apply le_antisymm
    · exact (hexact t hsums).averagePrice?_le hq' (fun s hs => by rw [hp' s hs]) hprice
    · exact (hexact t hsums).le_averagePrice? hq' (fun s hs => by rw [hp' s hs]) hprice

/-- A price too long for its product with a quantity, then a short one. -/
theorem averages_within_candle_of_long_price :
    let long : Decimal := ⟨false, 10000000000000000000000000001, 28, by decide, by decide⟩
    let tenth : Decimal := ⟨false, 1, 1, by decide, by decide⟩
    let trades : List Trade := [⟨long, tenth, true⟩, ⟨.two, tenth, true⟩]
    let p : Decimal := ⟨false, 1500000000000000000000000000, 27, by decide, by decide⟩
    ∃ w c, ofTrades trades = .ok w ∧ (∀ s ∈ Trade.side true trades, 0 ≤ s.quantity.number) ∧
      0 ≤ w.sellVolume.number ∧ w.sellPrice = some p ∧ w.candle = some c ∧ LiesWithin p c (Trade.side true trades) ∧
      c.low = long ∧ c.high = .two ∧ (∃ x, averageAt? .two trades = some x ∧ p.number ≤ x.number ∧
        Turnover.Short 1 0 (trades.map (Trade.priced .two)) ∧ x.number = Decimal.two.number) := by
  intro long tenth trades p
  obtain ⟨hwithin, hconstant, hexact⟩ := averages_within_candle
  let candle : Candle := ⟨long, .two, long, .two⟩
  let w : TradeWindow := ⟨⟨false, 2, 1, by decide, by decide⟩, .zero, some p, none, some candle, 2⟩
  have hw : ofTrades trades = .ok w := by
    decide +kernel
  have hq : ∀ s ∈ trades, 0 ≤ s.quantity.number := by
    simp [trades, tenth, Decimal.number, Decimal.signed]
  obtain ⟨hvolume, hprice⟩ := hwithin trades w hw true hq
  obtain ⟨c, hc, hlies⟩ := hprice p rfl
  cases hc
  have hat : averageAt? .two trades = some .two := by
    decide +kernel
  have htenth : tenth.number = 1 / 10 := by
    norm_num [tenth, Decimal.number, Decimal.signed]
  have hshort : Turnover.Short 1 0 (trades.map (Trade.priced .two)) := by
    have hquantity : tenth.IsWhole 1 := ⟨1, by norm_num [htenth]⟩
    have hprice : Decimal.two.IsWhole 0 := ⟨2, by norm_num [Decimal.number_two]⟩
    constructor
    · decide
    · simp [trades, Trade.priced, hquantity]
    · simp [trades, Trade.priced, hprice]
    · norm_num [trades, Trade.priced, htenth, Decimal.bound]
    · norm_num [trades, Trade.priced, htenth, Decimal.number_two, Decimal.bound]
  exact ⟨w, candle, hw, hq, hvolume, rfl, rfl, hlies, rfl, rfl, .two, hat, hlies.high .two hat, hshort,
    hconstant trades .two .two hq hat (hexact _ 1 0 hshort)⟩

/-- A negative quantity is read as it is, and makes a volume negative and an average larger than both its prices. So is
a positive one; its product with a long price is rounded down, and the average lies below the only price. -/
theorem averages_leave_candle :
    let long : Decimal := ⟨false, 10000000000000000000000000001, 28, by decide, by decide⟩
    let tenth : Decimal := ⟨false, 1, 1, by decide, by decide⟩
    let ten : Decimal := ⟨false, 10, 0, by decide, by decide⟩
    let twenty : Decimal := ⟨false, 20, 0, by decide, by decide⟩
    let three : Decimal := ⟨true, 3, 0, by decide, by decide⟩
    (∀ trades ∈ [[⟨ten, .two, true⟩, ⟨twenty, three, true⟩], [⟨long, tenth, true⟩]],
      ∃ text, Document.parse? text = some ⟨1, none, .trades trades⟩) ∧
    (∃ w c p, ofTrades [⟨ten, .two, true⟩, ⟨twenty, three, true⟩] = .ok w ∧ w.candle = some c ∧ w.sellPrice = some p ∧
      w.sellVolume.number < 0 ∧ c.high.number < p.number) ∧
    ∃ w c p, ofTrades [⟨long, tenth, true⟩] = .ok w ∧ w.candle = some c ∧ w.sellPrice = some p ∧
      p.number < c.low.number := by
  intro long tenth ten twenty three
  refine ⟨?_, ?_, ?_⟩
  · intro trades htrades
    refine ⟨(Document.toJson ⟨1, none, .trades trades⟩).render, ?_⟩
    rw [Document.parse?_render]
    simp only [List.mem_cons, List.not_mem_nil, or_false] at htrades
    rcases htrades with rfl | rfl <;> rfl
  · let w : TradeWindow := ⟨⟨true, 1, 0, by decide, by decide⟩, .zero, some ⟨false, 40, 0, by decide, by decide⟩, none,
      some ⟨ten, twenty, ten, twenty⟩, 2⟩
    have hw : ofTrades [⟨ten, .two, true⟩, ⟨twenty, three, true⟩] = .ok w := by
      decide +kernel
    refine ⟨w, _, _, hw, rfl, rfl, ?_, ?_⟩
    · rw [← Decimal.isNegative_iff]
      decide
    · rw [← Decimal.isLT_iff]
      decide
  · let w : TradeWindow := ⟨tenth, .zero, some ⟨false, 1000000000000000000000000000, 27, by decide, by decide⟩, none,
      some (.ofPrice long), 1⟩
    have hw : ofTrades [⟨long, tenth, true⟩] = .ok w := by
      decide +kernel
    refine ⟨w, _, _, hw, rfl, rfl, ?_⟩
    rw [← Decimal.isLT_iff]
    decide +kernel

end TradeWindow
end MarketMinutes
