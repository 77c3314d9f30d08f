import MarketMinutes.Json.Parts

/-!
# Candles

Open, high, low and close of a price series. Of equal extremes the first one
counts.
-/

namespace MarketMinutes

structure Candle where
  opening : Decimal
  high : Decimal
  low : Decimal
  closing : Decimal
  deriving DecidableEq

namespace Candle

def ofPrice (p : Decimal) : Candle :=
  ⟨p, p, p, p⟩

/-- The candle with one more price. -/
def extend (c : Candle) (p : Decimal) : Candle :=
  { opening := c.opening
    high := if c.high.isLT p then p else c.high
    low := if p.isLT c.low then p else c.low
    closing := p }

/-- The candle of a series, none if it is empty. -/
def ofSeries? : List Decimal → Option Candle
  | [] => none
  | p :: ps => some (ps.foldl extend (ofPrice p))

/-- The candle that stands, and those after each further price. -/
def historyFrom (c : Candle) : List Decimal → List Candle
  | [] => [c]
  | p :: ps => c :: historyFrom (c.extend p) ps

def history : List Decimal → List Candle
  | [] => []
  | p :: ps => historyFrom (ofPrice p) ps

/-- High and low bound the open, the close and each other. -/
def isValid (c : Candle) : Bool :=
  c.opening.isLE c.high && c.closing.isLE c.high && c.low.isLE c.high &&
    c.low.isLE c.opening && c.low.isLE c.closing

def toJson (c : Candle) : Json :=
  .record [("o", c.opening.toJson), ("h", c.high.toJson), ("l", c.low.toJson), ("c", c.closing.toJson)]

def ofJson? (j : Json) : Option Candle :=
  match j.parts? ["o", "h", "l", "c"] with
  | some [o, h, l, c] => do
    some ⟨← o.required? Decimal.ofJson?, ← h.required? Decimal.ofJson?,
      ← l.required? Decimal.ofJson?, ← c.required? Decimal.ofJson?⟩
  | _ => none

end Candle
end MarketMinutes
