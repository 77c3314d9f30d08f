import MarketMinutes.Proofs.Decimal.Halves
import MarketMinutes.Proofs.Window.Candles
import MarketMinutes.Window.Quotes

/-!
# The prices between bids and asks

A window of quotes is reduced unless the sum of some bid and ask is out of
range. Its three candles come from different series, but the one between is
made tick by tick from the other two. So it opens and closes halfway between
them, and it cannot leave the range between the middle of their lows and the
middle of their highs, though these may be reached at different ticks.
-/

namespace MarketMinutes

/-! ## A function on all members of a list -/

theorem mapM_eq_some_iff {α β : Type} {f : α → Option β} {xs : List α} {ys : List β} :
    xs.mapM f = some ys ↔ xs.map f = ys.map some := by
  induction xs generalizing ys with
  | nil => cases ys <;> simp
  | cons x xs ih =>
    rw [List.mapM_cons, Option.bind_eq_bind, Option.bind_eq_some_iff]
    constructor
    · rintro ⟨y, hy, hrest⟩
      obtain ⟨ys', hys, h⟩ := Option.bind_eq_some_iff.mp hrest
      cases h
      rw [List.map_cons, List.map_cons, hy, ih.mp hys]
    · intro h
      cases ys with
      | nil => cases h
      | cons y ys =>
        obtain ⟨hy, hys⟩ := List.cons.inj h
        exact ⟨y, hy, Option.bind_eq_some_iff.mpr ⟨ys, ih.mpr hys, rfl⟩⟩

theorem mapM_eq_none_iff {α β : Type} {f : α → Option β} {xs : List α} : xs.mapM f = none ↔ ∃ x ∈ xs, f x = none := by
  induction xs with
  | nil => simp
  | cons x xs ih =>
    rw [List.mapM_cons, List.exists_mem_cons_iff, ← ih]
    cases f x with
    | none => simp
    | some y => cases xs.mapM f <;> simp

/-! ## Candles that belong together -/

namespace QuoteWindow
variable {w : QuoteWindow} {quotes : List Quote} {m : Decimal}

/-- The candles of the bids, of the asks and of the prices between them. -/
structure Reduces (w : QuoteWindow) (quotes : List Quote) : Prop where
  bid : w.bid.Spans (quotes.map (·.bid))
  ask : w.ask.Spans (quotes.map (·.ask))
  mid : ∃ mids, quotes.map Quote.mid? = mids.map some ∧ w.mid.Spans mids

/-- The candle between opens and closes in the middle of the other two, and keeps between the middle of their lows and
the middle of their highs as far as these are in range. -/
structure Centred (w : QuoteWindow) : Prop where
  opening : Quote.mid? ⟨w.bid.opening, w.ask.opening⟩ = some w.mid.opening
  closing : Quote.mid? ⟨w.bid.closing, w.ask.closing⟩ = some w.mid.closing
  le_low : ∀ m, Quote.mid? ⟨w.bid.low, w.ask.low⟩ = some m → m.number ≤ w.mid.low.number
  high_le : ∀ m, Quote.mid? ⟨w.bid.high, w.ask.high⟩ = some m → w.mid.high.number ≤ m.number

/-- What is taken of a quote in each of the three series comes from one quote. -/
theorem mid?_of_parts {found : Option Quote} {bid ask : Decimal} (hbid : found.map (·.bid) = some bid)
    (hask : found.map (·.ask) = some ask) (hmid : found.map Quote.mid? = some (some m)) :
    Quote.mid? ⟨bid, ask⟩ = some m := by
  cases found with
  | none => cases hbid
  | some q =>
    cases hbid
    cases hask
    exact Option.some.inj hmid

theorem Reduces.centred (h : w.Reduces quotes) : w.Centred := by
  obtain ⟨hbid, hask, mids, hmids, hmid⟩ := h
  have hquote : ∀ m ∈ mids, ∃ q ∈ quotes, q.mid? = some m := by
    intro m hm
    rw [← List.mem_map, hmids]
    exact List.mem_map_of_mem hm
  refine ⟨?_, ?_, ?_, ?_⟩
  · have hopening := congrArg List.head? hmids
    rw [List.head?_map, List.head?_map, hmid.opening] at hopening
    exact mid?_of_parts (List.head?_map.symm.trans hbid.opening) (List.head?_map.symm.trans hask.opening) hopening
  · have hclosing := congrArg List.getLast? hmids
    rw [List.getLast?_map, List.getLast?_map, hmid.closing] at hclosing
    exact mid?_of_parts (List.getLast?_map.symm.trans hbid.closing) (List.getLast?_map.symm.trans hask.closing) hclosing
  · -- The tick of the lowest price between has no lower bid and ask than the lowest.
    intro m hm
    obtain ⟨q, hq, hlow⟩ := hquote _ hmid.low.mem
    exact Decimal.middle?_mono hm hlow (hbid.le_low (List.mem_map_of_mem hq)) (hask.le_low (List.mem_map_of_mem hq))
  · intro m hm
    obtain ⟨q, hq, hhigh⟩ := hquote _ hmid.high.mem
    exact Decimal.middle?_mono hhigh hm (hbid.high_le (List.mem_map_of_mem hq)) (hask.high_le (List.mem_map_of_mem hq))

/-! ## Reducing a window -/

theorem exists_reduces (hne : quotes ≠ []) {mids : List Decimal} (h : quotes.mapM Quote.mid? = some mids) :
    ∃ w, ofQuotes quotes = .ok (some w) ∧ w.Reduces quotes := by
  have hmids := mapM_eq_some_iff.mp h
  have hne' : mids ≠ [] := by
    rintro rfl
    exact hne (List.map_eq_nil_iff.mp hmids)
  obtain ⟨bid, hbid⟩ := Candle.exists_spans (List.map_eq_nil_iff.not.mpr hne)
  obtain ⟨ask, hask⟩ := Candle.exists_spans (List.map_eq_nil_iff.not.mpr hne)
  obtain ⟨mid, hmid⟩ := Candle.exists_spans hne'
  refine ⟨⟨bid, ask, mid⟩, ?_, hbid, hask, mids, hmids, hmid⟩
  rw [← Candle.ofSeries?_eq_some_iff] at hbid hask hmid
  simp [ofQuotes, h, Overflow.require, hbid, hask, hmid, bind, Except.bind]

theorem ofQuotes_cases (quotes : List Quote) :
    (ofQuotes quotes = .error .midPrice ∧ ∃ q ∈ quotes, q.mid? = none) ∨
      (∀ q ∈ quotes, q.mid? ≠ none) ∧
        (quotes = [] ∧ ofQuotes quotes = .ok none ∨
          quotes ≠ [] ∧ ∃ w, ofQuotes quotes = .ok (some w) ∧ w.Reduces quotes) := by
  cases h : quotes.mapM Quote.mid? with
  | none =>
    left
    refine ⟨?_, mapM_eq_none_iff.mp h⟩
    unfold ofQuotes
    rw [h]
    rfl
  | some mids =>
    right
    constructor
    · intro q hq hnone
      rw [mapM_eq_none_iff.mpr ⟨q, hq, hnone⟩] at h
      cases h
    · by_cases hne : quotes = []
      · subst hne
        exact .inl ⟨rfl, rfl⟩
      · exact .inr ⟨hne, exists_reduces hne h⟩

/-- A window fails where the sum of some bid and ask is out of range, and is none where it has no quotes. Any other has
the three candles of its quotes, the one between centred on the other two. -/
theorem mid_candle_centred (quotes : List Quote) :
    (∀ e, ofQuotes quotes = .error e ↔
      e = .midPrice ∧ ∃ q ∈ quotes, Decimal.OutOfRange (q.bid.number + q.ask.number)) ∧
    (ofQuotes quotes = .ok none ↔ quotes = []) ∧
    (quotes ≠ [] → (∀ q ∈ quotes, ¬ Decimal.OutOfRange (q.bid.number + q.ask.number)) →
      ∃ w, ofQuotes quotes = .ok (some w) ∧ w.Reduces quotes ∧ w.Centred) := by
  have hrange : ∀ q : Quote, q.mid? = none ↔ Decimal.OutOfRange (q.bid.number + q.ask.number) :=
    fun q => Decimal.middle?_eq_none_iff
  simp only [← hrange]
  rcases ofQuotes_cases quotes with ⟨herror, hnone⟩ | ⟨hsome, ⟨rfl, hok⟩ | ⟨hne, w, hok, hreduces⟩⟩
  · rw [herror]
    refine ⟨fun e => ?_, ?_, ?_⟩
    · rw [Except.error.injEq, eq_comm, and_iff_left hnone]
    · obtain ⟨q, hq, -⟩ := hnone
      exact iff_of_false nofun (List.ne_nil_of_mem hq)
    · intro _ hsome
      obtain ⟨q, hq, hq'⟩ := hnone
      exact absurd hq' (hsome q hq)
  · rw [hok]
    exact ⟨fun e => by simp, by simp, fun hne => absurd rfl hne⟩
  · rw [hok]
    refine ⟨fun e => iff_of_false nofun ?_, iff_of_false nofun hne, fun _ _ => ⟨w, rfl, hreduces, hreduces.centred⟩⟩
    rintro ⟨-, q, hq, hnone⟩
    exact hsome q hq hnone

/-- The bids and the asks have their extremes at different ticks, and two of the sums lose their last place. -/
theorem mid_candle_centred_on_long_price :
    let long : Decimal := ⟨false, 50000000000000000000000000004, 28, by decide, by decide⟩
    let below : Decimal := ⟨false, 49, 1, by decide, by decide⟩
    let above : Decimal := ⟨false, 520, 2, by decide, by decide⟩
    let low : Decimal := ⟨false, 4950000000000000000000000000, 27, by decide, by decide⟩
    let high : Decimal := ⟨false, 5100000000000000000000000000, 27, by decide, by decide⟩
    let quotes : List Quote := [⟨long, long⟩, ⟨below, above⟩]
    quotes ≠ [] ∧ (∀ q ∈ quotes, ¬ Decimal.OutOfRange (q.bid.number + q.ask.number)) ∧
      ∃ w, ofQuotes quotes = .ok (some w) ∧ w.Reduces quotes ∧ w.Centred ∧
        Quote.mid? ⟨w.bid.low, w.ask.low⟩ = some low ∧ low.number ≤ w.mid.low.number ∧
        Quote.mid? ⟨w.bid.high, w.ask.high⟩ = some high ∧ w.mid.high.number ≤ high.number := by
  intro long below above low high quotes
  have hne : quotes ≠ [] := List.cons_ne_nil _ _
  have hrange : ∀ q ∈ quotes, ¬ Decimal.OutOfRange (q.bid.number + q.ask.number) := by
    simp only [← Decimal.middle?_eq_none_iff]
    decide +kernel
  obtain ⟨-, -, h⟩ := mid_candle_centred quotes
  obtain ⟨w, hw, hreduces, hcentred⟩ := h hne hrange
  let first : Decimal := ⟨false, 50000000000000000000000000005, 28, by decide, by decide⟩
  let last : Decimal := ⟨false, 505, 2, by decide, by decide⟩
  have hwindow : ofQuotes quotes =
      .ok (some ⟨⟨long, long, below, below⟩, ⟨long, above, long, above⟩, ⟨first, last, first, last⟩⟩) := by
    decide +kernel
  cases hw.symm.trans hwindow
  have hlow : Quote.mid? ⟨below, long⟩ = some low := by decide +kernel
  have hhigh : Quote.mid? ⟨long, above⟩ = some high := by decide +kernel
  exact ⟨hne, hrange, _, hw, hreduces, hcentred, hlow, hcentred.le_low low hlow, hhigh, hcentred.high_le high hhigh⟩

end QuoteWindow
end MarketMinutes
