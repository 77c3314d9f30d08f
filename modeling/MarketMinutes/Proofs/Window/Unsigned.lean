import MarketMinutes.Proofs.Json.Documents

/-!
# Windows and the sign of a zero

The sign of a zero is carried along and decides nothing. So a window of quotes
or trades without signs on their zeros is the window with them, less the signs
that it was handed.
-/

namespace MarketMinutes

/-! ## Operations on decimals -/

namespace Decimal

@[simp] theorem unsigned_unsigned (d : Decimal) : d.unsigned.unsigned = d.unsigned := by
  apply unsigned_of_negative
  simp [unsigned, isNegative, isZero]

theorem map_unsigned_ofSigned? (negative : Bool) (mantissa scale : Nat) :
    (ofSigned? negative mantissa scale).map unsigned = ofSigned? negative mantissa scale := by
  unfold ofSigned? ofParts?
  split
  · rw [Option.map_some, unsigned_of_negative]
    simp [isNegative, isZero, bne]
  · rfl

theorem map_unsigned_shrink? (negative : Bool) (mantissa scale : Nat) :
    (shrink? negative mantissa scale).map unsigned = shrink? negative mantissa scale := by
  unfold shrink?
  split
  · rfl
  · exact map_unsigned_ofSigned? ..
  · by_cases hm : roundHalfEven mantissa (Nat.pow 10 ‹Nat›) < bound
    · simp only [if_pos hm, map_unsigned_ofSigned?]
    · simp only [if_neg hm]
      split
      · rfl
      · exact map_unsigned_ofSigned? ..

theorem aligned_unsigned (a b : Decimal) : aligned a.unsigned b.unsigned = aligned a b := by
  unfold aligned
  rw [signed_unsigned, signed_unsigned]
  rfl

theorem isLT_unsigned (a b : Decimal) : a.unsigned.isLT b.unsigned = a.isLT b := by
  unfold isLT compare
  rw [aligned_unsigned]

theorem add?_unsigned (a b : Decimal) : a.unsigned.add? b.unsigned = (a.add? b).map unsigned := by
  unfold add?
  rw [isZero_unsigned, isZero_unsigned, aligned_unsigned]
  by_cases ha : a.isZero = true
  · rw [if_pos ha, if_pos ha, Option.map_some]
  · rw [if_neg ha, if_neg ha]
    by_cases hb : b.isZero = true
    · rw [if_pos hb, if_pos hb, Option.map_some]
    · rw [if_neg hb, if_neg hb]
      exact (map_unsigned_shrink? ..).symm

theorem mul?_unsigned (a b : Decimal) : a.unsigned.mul? b.unsigned = a.mul? b := by
  by_cases h : (a.isZero || b.isZero) = true
  · unfold mul?
    rw [isZero_unsigned, isZero_unsigned, if_pos h, if_pos h]
  · rw [Bool.or_eq_true, not_or] at h
    rw [unsigned_of_not_zero h.1, unsigned_of_not_zero h.2]

theorem map_unsigned_mul? (a b : Decimal) : (a.mul? b).map unsigned = a.mul? b := by
  unfold mul?
  split
  · rfl
  split
  · rfl
  · exact map_unsigned_shrink? ..

theorem div?_unsigned (a b : Decimal) : a.unsigned.div? b.unsigned = a.div? b := by
  by_cases hb : b.isZero = true
  · unfold div?
    rw [isZero_unsigned, if_pos hb, if_pos hb]
  · by_cases ha : a.isZero = true
    · unfold div?
      rw [isZero_unsigned, isZero_unsigned, if_neg hb, if_neg hb, if_pos ha, if_pos ha]
    · rw [unsigned_of_not_zero ha, unsigned_of_not_zero hb]

theorem middle?_unsigned (a b : Decimal) : a.unsigned.middle? b.unsigned = a.middle? b := by
  unfold middle?
  rw [add?_unsigned, Option.bind_map]
  exact congrArg _ (funext fun sum => div?_unsigned sum two)

end Decimal

/-! ## Candles -/

namespace Candle

@[simp] theorem unsigned_unsigned (c : Candle) : c.unsigned.unsigned = c.unsigned := by
  simp [unsigned]

theorem extend_unsigned (c : Candle) (p : Decimal) : c.unsigned.extend p.unsigned = (c.extend p).unsigned := by
  have hhigh : c.unsigned.high.isLT p.unsigned = c.high.isLT p := Decimal.isLT_unsigned ..
  have hlow : p.unsigned.isLT c.unsigned.low = p.isLT c.low := Decimal.isLT_unsigned ..
  unfold extend
  rw [hhigh, hlow]
  simp only [unsigned, apply_ite Decimal.unsigned]

theorem ofSeries?_unsigned (ps : List Decimal) :
    ofSeries? (ps.map Decimal.unsigned) = (ofSeries? ps).map unsigned := by
  cases ps with
  | nil => rfl
  | cons p ps =>
    have hfold : ps.foldl (fun c p => c.extend p.unsigned) (ofPrice p).unsigned =
        (ps.foldl extend (ofPrice p)).unsigned := List.foldl_hom unsigned extend_unsigned
    simp only [List.map_cons, ofSeries?, List.foldl_map, Option.map_some]
    exact congrArg some hfold

end Candle

/-! ## Quotes -/

theorem Quote.mid?_unsigned (q : Quote) : q.unsigned.mid? = q.mid? :=
  Decimal.middle?_unsigned q.bid q.ask

namespace QuoteWindow

/-- A price between others comes from a quotient, which has no sign on a zero. -/
def unsigned (w : QuoteWindow) : QuoteWindow :=
  { w with bid := w.bid.unsigned, ask := w.ask.unsigned }

theorem ofQuotes_unsigned (qs : List Quote) :
    ofQuotes (qs.map Quote.unsigned) = (ofQuotes qs).map (Option.map unsigned) := by
  have hbids : (qs.map Quote.unsigned).map (·.bid) = (qs.map (·.bid)).map Decimal.unsigned := by
    rw [List.map_map, List.map_map]
    rfl
  have hasks : (qs.map Quote.unsigned).map (·.ask) = (qs.map (·.ask)).map Decimal.unsigned := by
    rw [List.map_map, List.map_map]
    rfl
  have hmids : (qs.map Quote.unsigned).mapM Quote.mid? = qs.mapM Quote.mid? := by
    rw [List.mapM_map]
    exact congrArg (qs.mapM ·) (funext Quote.mid?_unsigned)
  unfold ofQuotes
  rw [hmids, hbids, hasks, Candle.ofSeries?_unsigned, Candle.ofSeries?_unsigned]
  cases qs.mapM Quote.mid? with
  | none => rfl
  | some mids =>
    simp only [Overflow.require, bind, Except.bind, Except.map]
    cases Candle.ofSeries? (qs.map (·.bid)) <;> cases Candle.ofSeries? (qs.map (·.ask)) <;>
      cases Candle.ofSeries? mids <;> rfl

end QuoteWindow

/-! ## Trades -/

namespace Turnover

def unsigned (t : Turnover) : Turnover :=
  ⟨t.volume.unsigned, t.notional.unsigned⟩

theorem add_unsigned (t : Turnover) (trade : Trade) :
    t.unsigned.add trade.unsigned = (t.add trade).map unsigned := by
  have hnotional : (trade.unsigned.quantity.mul? trade.unsigned.price).bind t.unsigned.notional.add? =
      ((trade.quantity.mul? trade.price).bind t.notional.add?).map Decimal.unsigned := by
    have hmul : trade.unsigned.quantity.mul? trade.unsigned.price = trade.quantity.mul? trade.price :=
      Decimal.mul?_unsigned ..
    have hplain := Decimal.map_unsigned_mul? trade.quantity trade.price
    rw [hmul]
    cases hm : trade.quantity.mul? trade.price with
    | none => rfl
    | some product =>
      rw [hm, Option.map_some, Option.some.injEq] at hplain
      calc t.unsigned.notional.add? product
        _ = t.notional.unsigned.add? product.unsigned := by rw [hplain]; rfl
        _ = (t.notional.add? product).map Decimal.unsigned := Decimal.add?_unsigned ..
  have hvolume : t.unsigned.volume.add? trade.unsigned.quantity =
      (t.volume.add? trade.quantity).map Decimal.unsigned := Decimal.add?_unsigned ..
  unfold add
  rw [hnotional, hvolume]
  cases (trade.quantity.mul? trade.price).bind t.notional.add? with
  | none => rfl
  | some notional => cases t.volume.add? trade.quantity <;> rfl

theorem averagePrice?_unsigned (t : Turnover) : t.unsigned.averagePrice? = t.averagePrice? := by
  have hzero : t.unsigned.volume.isZero = t.volume.isZero := Decimal.isZero_unsigned _
  unfold averagePrice?
  rw [hzero]
  exact congrArg _ (Decimal.div?_unsigned t.notional t.volume)

end Turnover

namespace TradeWindow

def Turnovers.unsigned (t : Turnovers) : Turnovers :=
  ⟨t.sells.unsigned, t.buys.unsigned⟩

theorem Turnovers.add_unsigned (t : Turnovers) (trade : Trade) :
    t.unsigned.add trade.unsigned = (t.add trade).map unsigned := by
  unfold add
  have hmaker : trade.unsigned.buyerIsMaker = trade.buyerIsMaker := rfl
  have hsells : t.unsigned.sells.add trade.unsigned = _ := Turnover.add_unsigned t.sells trade
  have hbuys : t.unsigned.buys.add trade.unsigned = _ := Turnover.add_unsigned t.buys trade
  rw [hmaker, hsells, hbuys]
  by_cases h : trade.buyerIsMaker = true
  · rw [if_pos h, if_pos h]
    cases t.sells.add trade <;> rfl
  · rw [if_neg h, if_neg h]
    cases t.buys.add trade <;> rfl

theorem foldlM_add_unsigned (t : Turnovers) (trades : List Trade) :
    (trades.map Trade.unsigned).foldlM Turnovers.add t.unsigned =
      (trades.foldlM Turnovers.add t).map Turnovers.unsigned := by
  induction trades generalizing t with
  | nil => rfl
  | cons trade trades ih =>
    rw [List.map_cons, List.foldlM_cons, List.foldlM_cons, Turnovers.add_unsigned]
    cases t.add trade with
    | error e => rfl
    | ok t' => exact ih t'

/-- An averaged price is a quotient as well. -/
def unsigned (w : TradeWindow) : TradeWindow :=
  { w with
    sellVolume := w.sellVolume.unsigned
    buyVolume := w.buyVolume.unsigned
    candle := w.candle.map Candle.unsigned }

theorem ofTrades_unsigned (trades : List Trade) :
    ofTrades (trades.map Trade.unsigned) = (ofTrades trades).map unsigned := by
  have hprices : (trades.map Trade.unsigned).map (·.price) = (trades.map (·.price)).map Decimal.unsigned := by
    rw [List.map_map, List.map_map]
    rfl
  have hfold := foldlM_add_unsigned ⟨.none, .none⟩ trades
  unfold ofTrades
  rw [hprices, Candle.ofSeries?_unsigned, List.length_map]
  have hnone : Turnovers.unsigned ⟨.none, .none⟩ = ⟨.none, .none⟩ := rfl
  rw [hnone] at hfold
  rw [hfold]
  cases trades.foldlM Turnovers.add ⟨.none, .none⟩ with
  | error e => rfl
  | ok t =>
    have hsells : t.unsigned.sells.averagePrice? = t.sells.averagePrice? := Turnover.averagePrice?_unsigned _
    have hbuys : t.unsigned.buys.averagePrice? = t.buys.averagePrice? := Turnover.averagePrice?_unsigned _
    simp only [Except.map, bind, Except.bind, hsells, hbuys]
    rfl

end TradeWindow
end MarketMinutes
