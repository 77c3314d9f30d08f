import MarketMinutes.Decimal.Division
import MarketMinutes.Overflow
import MarketMinutes.Window.Candle

/-!
# Windows of quotes

The best bid and ask as seen during one window, and their candles together
with that of the prices between them.
-/

namespace MarketMinutes

/-- Best bid and best ask at one moment. -/
structure Quote where
  bid : Decimal
  ask : Decimal
  deriving DecidableEq

namespace Quote

/-- The price between bid and ask, `none` if their sum leaves the range. -/
def mid? (q : Quote) : Option Decimal :=
  q.bid.middle? q.ask

def toJson (q : Quote) : Json :=
  .record [("bid", q.bid.toJson), ("ask", q.ask.toJson)]

def ofJson? (j : Json) : Option Quote :=
  match j.parts? ["bid", "ask"] with
  | some [bid, ask] => do
    some ⟨← bid.required? Decimal.ofJson?, ← ask.required? Decimal.ofJson?⟩
  | _ => none

end Quote

structure QuoteWindow where
  bid : Candle
  ask : Candle
  mid : Candle
  deriving DecidableEq

namespace QuoteWindow

/-- The candles of a window; none without quotes. -/
def ofQuotes (quotes : List Quote) : Except Overflow (Option QuoteWindow) := do
  let mids ← Overflow.midPrice.require (quotes.mapM Quote.mid?)
  .ok do
    let bid ← Candle.ofSeries? (quotes.map (·.bid))
    let ask ← Candle.ofSeries? (quotes.map (·.ask))
    let mid ← Candle.ofSeries? mids
    some ⟨bid, ask, mid⟩

end QuoteWindow
end MarketMinutes
