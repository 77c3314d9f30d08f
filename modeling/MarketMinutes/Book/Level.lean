import MarketMinutes.Side
import MarketMinutes.Volume

/-!
# Price levels

A price and the volume that rests there.
-/

namespace MarketMinutes

structure Level where
  price : Price
  volume : Volume
  deriving DecidableEq

namespace Level

def toJson (l : Level) : Json :=
  .record [("price", l.price.toJson), ("volume", l.volume.toJson)]

def ofJson? (j : Json) : Option Level :=
  match j.parts? ["price", "volume"] with
  | some [price, volume] => do
    some ⟨← price.required? Decimal.ofJson?, ← volume.required? Volume.ofJson?⟩
  | _ => none

end Level
end MarketMinutes
