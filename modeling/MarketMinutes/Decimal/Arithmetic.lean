import MarketMinutes.Decimal.Rounding

/-!
# Sums, differences and products

Each operation gives `none` where its result leaves the range. A sum with a
zero is the other operand, its scale and sign untouched.
-/

namespace MarketMinutes.Decimal

/-- A signed exact result at a scale, rounded into range. -/
def ofExact? (value : Int) (scale : Nat) : Option Decimal :=
  shrink? (decide (value < 0)) value.natAbs scale

def add? (a b : Decimal) : Option Decimal :=
  if a.isZero then some b
  else if b.isZero then some a
  else
    let (x, y) := aligned a b
    ofExact? (x + y) (max a.scale b.scale)

/-- A difference; of two zeros it is the second. -/
def sub? (a b : Decimal) : Option Decimal :=
  if a.isZero then some (if b.isZero then b else b.neg)
  else if b.isZero then some a
  else
    let (x, y) := aligned a b
    ofExact? (x - y) (max a.scale b.scale)

/-- A product; two short mantissas whose places pass 47 give zero. -/
def mul? (a b : Decimal) : Option Decimal :=
  if a.isZero || b.isZero then some zero
  else if a.mantissa < Nat.pow 2 32 ∧ b.mantissa < Nat.pow 2 32 ∧ 47 < a.scale + b.scale then some zero
  else shrink? (a.negative != b.negative) (a.mantissa * b.mantissa) (a.scale + b.scale)

/-- The sum from left to right, `none` once it leaves the range. -/
def sum? (ds : List Decimal) : Option Decimal :=
  ds.foldlM add? zero

end MarketMinutes.Decimal
