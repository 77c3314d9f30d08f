import MarketMinutes.Decimal.Division
import MarketMinutes.Overflow
import MarketMinutes.Window.Candle

/-!
# Windows of trades

A trade is a market sell if its buyer was the maker, else a market buy. A
window holds the volume of either kind, the price averaged over that volume,
and the candle of all prices.
-/

namespace MarketMinutes

structure Trade where
  price : Decimal
  quantity : Decimal
  buyerIsMaker : Bool
  deriving DecidableEq

namespace Trade

def toJson (t : Trade) : Json :=
  .record [("price", t.price.toJson), ("qty", t.quantity.toJson), ("is_market_maker", .bool t.buyerIsMaker)]

def ofJson? (j : Json) : Option Trade :=
  match j.parts? ["price", "qty", "is_market_maker"] with
  | some [price, quantity, maker] => do
    some ⟨← price.required? Decimal.ofJson?, ← quantity.required? Decimal.ofJson?,
      ← maker.required? Json.bool?⟩
  | _ => none

end Trade

/-! ## Turnover -/

/-- What has been traded on one side: how much, and for how much. -/
structure Turnover where
  volume : Decimal
  notional : Decimal
  deriving DecidableEq

namespace Turnover

def none : Turnover := ⟨.zero, .zero⟩

/-- One more trade; its notional is added before its volume. -/
def add (t : Turnover) (trade : Trade) : Except Overflow Turnover := do
  let notional ← Overflow.tradeNotional.require
    ((trade.quantity.mul? trade.price).bind t.notional.add?)
  let volume ← Overflow.tradeVolume.require (t.volume.add? trade.quantity)
  .ok ⟨volume, notional⟩

/-- The price averaged over the volume, none for no volume or out of range. -/
def averagePrice? (t : Turnover) : Option Decimal :=
  if t.volume.isZero then .none else t.notional.div? t.volume

end Turnover

structure TradeWindow where
  sellVolume : Decimal
  buyVolume : Decimal
  sellPrice : Option Decimal
  buyPrice : Option Decimal
  candle : Option Candle
  tradeCount : Nat
  deriving DecidableEq

namespace TradeWindow

/-- Market sells and market buys. -/
structure Turnovers where
  sells : Turnover
  buys : Turnover

def Turnovers.add (t : Turnovers) (trade : Trade) : Except Overflow Turnovers :=
  if trade.buyerIsMaker then (t.sells.add trade).map fun sells => { t with sells }
  else (t.buys.add trade).map fun buys => { t with buys }

def ofTrades (trades : List Trade) : Except Overflow TradeWindow := do
  let t ← trades.foldlM Turnovers.add ⟨.none, .none⟩
  .ok
    { sellVolume := t.sells.volume
      buyVolume := t.buys.volume
      sellPrice := t.sells.averagePrice?
      buyPrice := t.buys.averagePrice?
      candle := Candle.ofSeries? (trades.map (·.price))
      tradeCount := trades.length }

end TradeWindow
end MarketMinutes
