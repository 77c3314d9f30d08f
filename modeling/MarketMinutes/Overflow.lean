/-!
# Results out of range

The quantities of a window that may leave the range of decimals.
-/

namespace MarketMinutes

inductive Overflow where
  | midpoint
  | bucketWidth
  | bucketBoundary
  | bucketVolume
  | midPrice
  | tradeNotional
  | tradeVolume
  deriving DecidableEq

namespace Overflow

def quantity : Overflow → String
  | midpoint => "midpoint"
  | bucketWidth => "bucket width"
  | bucketBoundary => "bucket boundary"
  | bucketVolume => "bucket volume"
  | midPrice => "mid price"
  | tradeNotional => "trade notional"
  | tradeVolume => "trade volume"

def message (o : Overflow) : String :=
  "Arithmetic overflow in " ++ o.quantity

/-- A value that must be there, or this overflow in its place. -/
def require (o : Overflow) : Option α → Except Overflow α
  | some x => .ok x
  | none => .error o

end Overflow
end MarketMinutes
