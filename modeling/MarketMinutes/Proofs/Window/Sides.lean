import MarketMinutes.Proofs.Window.Candles
import MarketMinutes.Window.Trades

/-!
# The two sides of a window of trades

Market sells and market buys are summed apart from each other: the turnover of
a side is the checked sum of its own quantities and of its own products, in
their order. So two windows in which the sides are mixed in different ways
succeed or fail together, and differ in the ends of their candles at most.
-/

namespace MarketMinutes

theorem bind_eq_ok_iff {ε α β : Type} {x : Except ε α} {f : α → Except ε β} {b : β} :
    x >>= f = .ok b ↔ ∃ a, x = .ok a ∧ f a = .ok b := by
  cases x with
  | error e => exact iff_of_false nofun (by simp)
  | ok a => simp [bind, Except.bind]

namespace Trade

/-- The trades of one side in their order, market sells where the buyer was the maker. -/
def side (maker : Bool) (trades : List Trade) : List Trade :=
  trades.filter (·.buyerIsMaker == maker)

/-- What a trade adds to the notional. -/
def product? (t : Trade) : Option Decimal :=
  t.quantity.mul? t.price

theorem side_cons_self (trade : Trade) (trades : List Trade) :
    side trade.buyerIsMaker (trade :: trades) = trade :: side trade.buyerIsMaker trades :=
  List.filter_cons_of_pos (beq_self_eq_true _)

theorem side_cons_of_ne {maker : Bool} {trade : Trade} (h : trade.buyerIsMaker ≠ maker) (trades : List Trade) :
    side maker (trade :: trades) = side maker trades :=
  List.filter_cons_of_neg (by rwa [beq_iff_eq])

theorem sides_perm (trades : List Trade) : (side true trades ++ side false trades).Perm trades := by
  have hfalse : side false trades = trades.filter (fun t => !(t.buyerIsMaker == true)) := by
    unfold side
    congr 1
    funext t
    cases t.buyerIsMaker <;> rfl
  rw [hfalse]
  exact List.filter_append_perm ..

end Trade

/-! ## The turnover of a side -/

namespace Turnover
variable {t t' : Turnover} {trade : Trade} {trades : List Trade}

/-- Volume and notional, each as a sum of its own from left to right. -/
structure Sums (t : Turnover) (trades : List Trade) : Prop where
  volume : Decimal.sum? (trades.map (·.quantity)) = some t.volume
  notional : (trades.mapM Trade.product?).bind Decimal.sum? = some t.notional

theorem add_eq_ok_iff :
    t.add trade = .ok t' ↔ t.volume.add? trade.quantity = some t'.volume ∧
      trade.product?.bind t.notional.add? = some t'.notional := by
  unfold add Trade.product?
  cases hn : (trade.quantity.mul? trade.price).bind t.notional.add? with
  | none => simp [Overflow.require, bind, Except.bind]
  | some notional =>
    cases hv : t.volume.add? trade.quantity with
    | none => simp [Overflow.require, bind, Except.bind]
    | some volume => cases t'; simp [Overflow.require, bind, Except.bind]

theorem notional_cons (notional : Decimal) (trade : Trade) (trades : List Trade) :
    ((trade :: trades).mapM Trade.product?).bind (·.foldlM Decimal.add? notional) =
      (trade.product?.bind notional.add?).bind fun next =>
        (trades.mapM Trade.product?).bind (·.foldlM Decimal.add? next) := by
  rw [List.mapM_cons]
  cases trade.product? with
  | none => rfl
  | some product =>
    cases trades.mapM Trade.product? with
    | none => simp
    | some products => rfl

theorem foldlM_add_eq_ok_iff :
    trades.foldlM add t = .ok t' ↔ (trades.map (·.quantity)).foldlM Decimal.add? t.volume = some t'.volume ∧
      (trades.mapM Trade.product?).bind (·.foldlM Decimal.add? t.notional) = some t'.notional := by
  induction trades generalizing t with
  | nil => cases t; cases t'; simp [pure, Except.pure]
  | cons trade trades ih =>
    rw [List.foldlM_cons, bind_eq_ok_iff, List.map_cons, List.foldlM_cons, Option.bind_eq_bind,
      Option.bind_eq_some_iff, notional_cons, Option.bind_eq_some_iff]
    constructor
    · rintro ⟨next, hadd, hrest⟩
      obtain ⟨hvolume, hnotional⟩ := add_eq_ok_iff.mp hadd
      obtain ⟨hvolumes, hnotionals⟩ := ih.mp hrest
      exact ⟨⟨_, hvolume, hvolumes⟩, _, hnotional, hnotionals⟩
    · rintro ⟨⟨volume, hvolume, hvolumes⟩, notional, hnotional, hnotionals⟩
      exact ⟨⟨volume, notional⟩, add_eq_ok_iff.mpr ⟨hvolume, hnotional⟩, ih.mpr ⟨hvolumes, hnotionals⟩⟩

theorem foldlM_add_none_eq_ok_iff : trades.foldlM add .none = .ok t ↔ t.Sums trades :=
  foldlM_add_eq_ok_iff.trans ⟨fun h => ⟨h.1, h.2⟩, fun h => ⟨h.volume, h.notional⟩⟩

end Turnover

/-! ## Both sides -/

namespace TradeWindow

namespace Turnovers
variable {t t' : Turnovers} {trades : List Trade}

def side (t : Turnovers) : Bool → Turnover
  | true => t.sells
  | false => t.buys

def withSide (t : Turnovers) (maker : Bool) (turnover : Turnover) : Turnovers :=
  match maker with
  | true => { t with sells := turnover }
  | false => { t with buys := turnover }

@[simp] theorem side_withSide_self (t : Turnovers) (maker : Bool) (turnover : Turnover) :
    (t.withSide maker turnover).side maker = turnover := by
  cases maker <;> rfl

theorem side_withSide_of_ne (t : Turnovers) {maker other : Bool} (h : other ≠ maker) (turnover : Turnover) :
    (t.withSide maker turnover).side other = t.side other := by
  cases maker <;> cases other <;> first | rfl | exact absurd rfl h

theorem ext_side (h : ∀ maker, t.side maker = t'.side maker) : t = t' := by
  have hsells : t.sells = t'.sells := h true
  have hbuys : t.buys = t'.buys := h false
  cases t
  cases t'
  simp_all

/-- A trade changes the turnover of its own side, and that alone decides whether it can be added. -/
theorem add_eq (t : Turnovers) (trade : Trade) :
    t.add trade = ((t.side trade.buyerIsMaker).add trade).map (t.withSide trade.buyerIsMaker) := by
  unfold add
  cases trade.buyerIsMaker <;> rfl

theorem foldlM_add_eq_ok_iff :
    trades.foldlM add t = .ok t' ↔
      ∀ maker, (Trade.side maker trades).foldlM Turnover.add (t.side maker) = .ok (t'.side maker) := by
  induction trades generalizing t with
  | nil =>
    constructor
    · intro h maker
      cases h
      rfl
    · intro h
      exact congrArg Except.ok (ext_side fun maker => Except.ok.inj (h maker))
  | cons trade trades ih =>
    have hstep : (trade :: trades).foldlM add t = .ok t' ↔ ∃ turnover, (t.side trade.buyerIsMaker).add trade = .ok turnover ∧
        trades.foldlM add (t.withSide trade.buyerIsMaker turnover) = .ok t' := by
      rw [List.foldlM_cons, add_eq]
      cases (t.side trade.buyerIsMaker).add trade with
      | error o => exact iff_of_false nofun (by simp)
      | ok turnover => simp [Except.map, bind, Except.bind]
    rw [hstep]
    constructor
    · rintro ⟨turnover, hadd, hrest⟩ maker
      have hmaker := ih.mp hrest maker
      by_cases h : maker = trade.buyerIsMaker
      · subst h
        rw [side_withSide_self] at hmaker
        rw [Trade.side_cons_self, List.foldlM_cons, bind_eq_ok_iff]
        exact ⟨turnover, hadd, hmaker⟩
      · rw [side_withSide_of_ne t h] at hmaker
        rwa [Trade.side_cons_of_ne (Ne.symm h)]
    · intro hall
      have hown := hall trade.buyerIsMaker
      rw [Trade.side_cons_self, List.foldlM_cons, bind_eq_ok_iff] at hown
      obtain ⟨turnover, hadd, hrest⟩ := hown
      refine ⟨turnover, hadd, ih.mpr fun maker => ?_⟩
      by_cases h : maker = trade.buyerIsMaker
      · subst h
        rwa [side_withSide_self]
      · have hmaker := hall maker
        rwa [Trade.side_cons_of_ne (Ne.symm h), ← side_withSide_of_ne t h turnover] at hmaker

end Turnovers

variable {trades others : List Trade} {v w : TradeWindow}

def volume (w : TradeWindow) : Bool → Decimal
  | true => w.sellVolume
  | false => w.buyVolume

def price? (w : TradeWindow) : Bool → Option Decimal
  | true => w.sellPrice
  | false => w.buyPrice

/-- What a window says of its trades: of each side by itself, and of all of them. -/
structure Reduces (w : TradeWindow) (trades : List Trade) : Prop where
  sides : ∀ maker, ∃ t : Turnover, t.Sums (Trade.side maker trades) ∧ w.volume maker = t.volume ∧
    w.price? maker = t.averagePrice?
  candle : w.candle = Candle.ofSeries? (trades.map (·.price))
  tradeCount : w.tradeCount = trades.length

theorem ofTrades_eq_ok_iff : ofTrades trades = .ok w ↔ w.Reduces trades := by
  have hsums : ∀ t : Turnovers, trades.foldlM Turnovers.add ⟨.none, .none⟩ = .ok t ↔
      ∀ maker, (t.side maker).Sums (Trade.side maker trades) := by
    intro t
    rw [Turnovers.foldlM_add_eq_ok_iff]
    refine forall_congr' fun maker => ?_
    rw [← Turnover.foldlM_add_none_eq_ok_iff]
    cases maker <;> rfl
  unfold ofTrades
  rw [bind_eq_ok_iff]
  constructor
  · rintro ⟨t, ht, hw⟩
    cases hw
    refine ⟨fun maker => ⟨t.side maker, (hsums t).mp ht maker, ?_⟩, rfl, rfl⟩
    cases maker <;> exact ⟨rfl, rfl⟩
  · intro h
    obtain ⟨sells, hsells, hsellVolume, hsellPrice⟩ := h.sides true
    obtain ⟨buys, hbuys, hbuyVolume, hbuyPrice⟩ := h.sides false
    refine ⟨⟨sells, buys⟩, (hsums _).mpr (Bool.rec hbuys hsells), ?_⟩
    have hcandle := h.candle
    have hcount := h.tradeCount
    cases w
    simp_all [volume, price?]

/-- Two windows that can differ in the ends of their candles, and in how their highs and lows are written. -/
structure Alike (v w : TradeWindow) : Prop where
  volume : ∀ maker, v.volume maker = w.volume maker
  price : ∀ maker, v.price? maker = w.price? maker
  tradeCount : v.tradeCount = w.tradeCount
  candle : Option.Rel Candle.SameRange v.candle w.candle

theorem perm_of_sides (h : ∀ maker, Trade.side maker trades = Trade.side maker others) : trades.Perm others := by
  have htrades := Trade.sides_perm trades
  rw [h true, h false] at htrades
  exact htrades.symm.trans (Trade.sides_perm others)

theorem Reduces.of_sides (h : ∀ maker, Trade.side maker trades = Trade.side maker others) (hv : v.Reduces trades) :
    ∃ w : TradeWindow, w.Reduces others ∧ v.Alike w := by
  have hperm := perm_of_sides h
  refine ⟨{ v with candle := Candle.ofSeries? (others.map (·.price)) }, ⟨?_, rfl, ?_⟩, ⟨?_, ?_, rfl, ?_⟩⟩
  · intro maker
    obtain ⟨t, hsums, hvolume, hprice⟩ := hv.sides maker
    rw [h maker] at hsums
    refine ⟨t, hsums, ?_⟩
    cases maker <;> exact ⟨hvolume, hprice⟩
  · exact hv.tradeCount.trans hperm.length_eq
  · intro maker
    cases maker <;> rfl
  · intro maker
    cases maker <;> rfl
  · rw [hv.candle]
    exact Candle.ofSeries?_perm (hperm.map _)

/-- However two windows mix the same market sells with the same market buys, both fail or both succeed and are alike.
Each side is summed by itself, its quantities and its products from left to right. -/
theorem sides_reduced_apart :
    (∀ trades others, (∀ maker, Trade.side maker trades = Trade.side maker others) →
      (∃ o o', ofTrades trades = .error o ∧ ofTrades others = .error o') ∨
        ∃ v w, ofTrades trades = .ok v ∧ ofTrades others = .ok w ∧ v.Alike w) ∧
    ∀ trades w, ofTrades trades = .ok w ↔ w.Reduces trades := by
  refine ⟨?_, fun trades w => ofTrades_eq_ok_iff⟩
  intro trades others h
  cases hv : ofTrades trades with
  | ok v =>
    obtain ⟨w, hw, halike⟩ := (ofTrades_eq_ok_iff.mp hv).of_sides h
    exact .inr ⟨v, w, rfl, ofTrades_eq_ok_iff.mpr hw, halike⟩
  | error o =>
    cases hw : ofTrades others with
    | error o' => exact .inl ⟨o, o', rfl, rfl⟩
    | ok w =>
      obtain ⟨v, hv', -⟩ := (ofTrades_eq_ok_iff.mp hw).of_sides fun maker => (h maker).symm
      rw [ofTrades_eq_ok_iff.mpr hv'] at hv
      cases hv

/-- Three sells, the later two lost in the rounding of their volume, with a buy among them or behind them. -/
theorem sides_reduced_apart_with_lost_volume :
    let price : Decimal := ⟨false, 100, 0, by decide, by decide⟩
    let lower : Decimal := ⟨false, 999, 1, by decide, by decide⟩
    let higher : Decimal := ⟨false, 101, 0, by decide, by decide⟩
    let sell : Trade := ⟨price, ⟨false, 9, 0, by decide, by decide⟩, true⟩
    let small : Trade := ⟨lower, ⟨false, 4, 28, by decide, by decide⟩, true⟩
    let buy : Trade := ⟨higher, .two, false⟩
    let v : TradeWindow := ⟨⟨false, 9000000000000000000000000000, 27, by decide, by decide⟩, .two, some price, some higher,
      some ⟨price, higher, lower, lower⟩, 4⟩
    (∀ maker, Trade.side maker [sell, small, buy, small] = Trade.side maker [sell, small, small, buy]) ∧
      ofTrades [sell, small, buy, small] = .ok v ∧ v.Reduces [sell, small, buy, small] ∧
      ∃ w, ofTrades [sell, small, small, buy] = .ok w ∧ v.Alike w ∧ v.candle ≠ w.candle := by
  intro price lower higher sell small buy v
  obtain ⟨halike, hreduces⟩ := sides_reduced_apart
  have hsides : ∀ maker, Trade.side maker [sell, small, buy, small] = Trade.side maker [sell, small, small, buy] := by
    decide
  have hv : ofTrades [sell, small, buy, small] = .ok v := by
    decide +kernel
  rcases halike _ _ hsides with ⟨o, -, ho, -⟩ | ⟨v', w, hv', hw, hvw⟩
  · rw [hv] at ho
    cases ho
  · cases hv.symm.trans hv'
    refine ⟨hsides, hv, (hreduces _ _).mp hv, w, hw, hvw, ?_⟩
    rw [((hreduces _ _).mp hw).candle]
    decide

end TradeWindow
end MarketMinutes
