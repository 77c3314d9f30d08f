import MarketMinutes.Proofs.Book.Invariant
import MarketMinutes.Proofs.Decimal.Halves
import MarketMinutes.Window.Quotes

/-!
# The midpoint between two prices

The midpoint of a quote or of a book is rounded twice, as a sum and as a half.
So it lies between its two prices as far as these come back from doubling and
halving, which most do. The longest mantissas do not: two equal prices of this
length may both lie below their midpoint.
-/

namespace MarketMinutes

/-- No lower than the one price and no higher than the other, each taken for what is left of it when it is doubled and
halved. -/
structure Decimal.LiesBetween (m low high : Decimal) : Prop where
  low_le : low.halfOfDouble.number ≤ m.number
  le_high : m.number ≤ high.halfOfDouble.number

theorem Decimal.liesBetween_of_middle? {a b m : Decimal} (h : a.middle? b = some m) :
    (a.number ≤ b.number → m.LiesBetween a b) ∧ (b.number ≤ a.number → m.LiesBetween b a) := by
  constructor
  · intro hab
    exact ⟨le_middle? h (by linarith), middle?_le h (by linarith)⟩
  · intro hba
    exact ⟨le_middle? h (by linarith), middle?_le h (by linarith)⟩

namespace Book

theorem midPrice?_of_best {b : Book} {bid ask : Level} (hbid : b.bids.best? = some bid) (hask : b.asks.best? = some ask) :
    b.midPrice? = bid.price.middle? ask.price := by
  simp only [midPrice?, hbid, hask, bind, Option.bind]

theorem best?_of_midPrice? {b : Book} {mid : Decimal} (h : b.midPrice? = some mid) :
    ∃ bid ask, b.bids.best? = some bid ∧ b.asks.best? = some ask ∧ bid.price.middle? ask.price = some mid := by
  simp only [midPrice?, Option.bind_eq_bind, Option.bind_eq_some_iff] at h
  obtain ⟨bid, hbid, ask, hask, hmid⟩ := h
  exact ⟨bid, ask, hbid, hask, hmid⟩

/-- The midpoint of any quote, and of a book after any calls, lies between its two prices, a long one taken for what is
left of it when it is doubled and halved: the nearest with a mantissa that is a multiple of five. -/
theorem midpoint_between_prices :
    (∀ (q : Quote) m, q.mid? = some m → (q.bid.number ≤ q.ask.number → m.LiesBetween q.bid q.ask) ∧
      (q.ask.number ≤ q.bid.number → m.LiesBetween q.ask q.bid)) ∧
    (∀ depth, 0 < depth → ∃ start, Book.new depth = .ok start ∧ ∀ calls m, (start.after calls).midPrice? = some m →
      ∃ bid ask, (start.after calls).bids.best? = some bid ∧ (start.after calls).asks.best? = some ask ∧
        (bid.price.number ≤ ask.price.number → m.LiesBetween bid.price ask.price) ∧
        (ask.price.number ≤ bid.price.number → m.LiesBetween ask.price bid.price)) ∧
    ∀ p : Decimal, (2 * p.mantissa < Decimal.bound ∨ p.scale = 0 ∨ p.mantissa % 5 = 0 → p.halfOfDouble = p) ∧
      |p.halfOfDouble.number - p.number| ≤ 2 / 10 ^ p.scale := by
  refine ⟨fun q m h => Decimal.liesBetween_of_middle? h, fun depth hd => ⟨empty depth, if_neg hd.ne', ?_⟩,
    fun p => ⟨Decimal.halfOfDouble_eq, p.abs_halfOfDouble_sub_le⟩⟩
  intro calls m h
  obtain ⟨bid, ask, hbid, hask, hmid⟩ := best?_of_midPrice? h
  exact ⟨bid, ask, hbid, hask, Decimal.liesBetween_of_middle? hmid⟩

/-- A crossed quote, and a book with a crossed best bid and best ask: short prices bound their midpoint as they are. -/
theorem midpoint_between_crossed_prices :
    let high : Decimal := ⟨false, 1015, 1, by decide, by decide⟩
    let low : Decimal := ⟨false, 100, 0, by decide, by decide⟩
    let mid : Decimal := ⟨false, 100750, 3, by decide, by decide⟩
    let calls := [Call.updates [⟨[("101.5", "1")], [("100", "1")]⟩]]
    Quote.mid? ⟨high, low⟩ = some mid ∧ low.number ≤ high.number ∧ mid.LiesBetween low high ∧
      low.halfOfDouble = low ∧ high.halfOfDouble = high ∧ 0 < 1 ∧ ∃ start, Book.new 1 = .ok start ∧
        let b := start.after calls
        b.midPrice? = some mid ∧ ∃ bid ask, b.bids.best? = some bid ∧ b.asks.best? = some ask ∧
          ask.price.number ≤ bid.price.number ∧ mid.LiesBetween ask.price bid.price := by
  intro high low mid calls
  obtain ⟨hquote, hbook, hprice⟩ := midpoint_between_prices
  have hmid : Quote.mid? ⟨high, low⟩ = some mid := by decide +kernel
  have hle : low.number ≤ high.number := by
    rw [← Decimal.isLE_iff]
    decide
  obtain ⟨start, hstart, h⟩ := hbook 1 (by decide)
  cases hstart
  have hcalls : ((Book.empty 1).after calls).midPrice? = some mid := by
    decide +kernel
  have hbest : ((Book.empty 1).after calls).bids.best? = some ⟨high, ⟨.one, rfl⟩⟩ ∧
      ((Book.empty 1).after calls).asks.best? = some ⟨low, ⟨.one, rfl⟩⟩ := by
    decide +kernel
  obtain ⟨bid, ask, hbid, hask, -, hcrossed⟩ := h _ _ hcalls
  have hprices : ask.price.number ≤ bid.price.number := by
    cases hbest.1.symm.trans hbid
    cases hbest.2.symm.trans hask
    exact hle
  exact ⟨hmid, hle, (hquote _ _ hmid).2 hle, (hprice low).1 (.inl (by decide)), (hprice high).1 (.inl (by decide)),
    by decide, _, rfl, hcalls, bid, ask, hbid, hask, hprices, hcrossed hprices⟩

/-- A price of 29 digits with itself: the midpoint lies above both, in a quote as in a book. -/
theorem midpoint_above_equal_prices :
    let price : Price := ⟨false, 50000000000000000000000000004, 28, by decide, by decide⟩
    let b := (Book.empty 1).after [.operations [⟨.bid, price, .one⟩, ⟨.ask, price, .one⟩]]
    ∃ m, Quote.mid? ⟨price, price⟩ = some m ∧ b.midPrice? = some m ∧ b.bids.best?.map (·.price) = some price ∧
      b.asks.best?.map (·.price) = some price ∧ ¬ m.number ≤ max price.number price.number := by
  intro price b
  refine ⟨⟨false, 50000000000000000000000000005, 28, by decide, by decide⟩, by decide +kernel, by decide +kernel,
    by decide +kernel, by decide +kernel, ?_⟩
  rw [max_self, not_le, ← Decimal.isLT_iff]
  decide +kernel

end Book
end MarketMinutes
