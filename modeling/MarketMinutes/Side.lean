import MarketMinutes.Json.Parts

/-!
# The two sides of a market

A bid is better the higher it is, an ask the lower.
-/

namespace MarketMinutes

inductive Side where
  | bid
  | ask
  deriving DecidableEq

namespace Side

def name : Side → String
  | bid => "bid"
  | ask => "ask"

/-- The first price is strictly better than the second. -/
def better : Side → Decimal → Decimal → Bool
  | bid, a, b => b.isLT a
  | ask, a, b => a.isLT b

def toJson (side : Side) : Json :=
  .ofString side.name

def ofName? (s : String) : Option Side :=
  if s = "bid" then some bid else if s = "ask" then some ask else none

/-- A side by its name alone, or by an object that holds null under it. -/
def ofJson? : Json → Option Side
  | .string (some s) => ofName? s
  | .object [(some s, .null)] => ofName? s
  | _ => none

end Side
end MarketMinutes
