import MarketMinutes.Decimal.Basic

/-!
# Rounding

A quotient to the nearest natural number, ties to the even one, and an exact
result brought back into the range of decimals.
-/

namespace MarketMinutes

/-- The natural number nearest to `n / d`; a tie goes to the even neighbour. -/
def roundHalfEven (n d : Nat) : Nat :=
  let q := n / d
  let r := n % d
  if 2 * r < d then q
  else if d < 2 * r then q + 1
  else q + q % 2

namespace Decimal

/-- The fewest places to drop so that scale and mantissa fit, cutting off what is dropped. -/
def excess? (mantissa scale : Nat) : Option Nat :=
  (List.range (scale + 1)).find? fun k => decide (scale ≤ k + maxScale ∧ mantissa / Nat.pow 10 k < bound)

/-- An exact result rounded into range, to the nearest with ties to even; `none` if its whole part is too large. -/
def shrink? (negative : Bool) (mantissa scale : Nat) : Option Decimal :=
  match excess? mantissa scale with
  | none => none
  | some 0 => ofSigned? negative mantissa scale
  | some k =>
    let m := roundHalfEven mantissa (Nat.pow 10 k)
    let s := scale - k
    if m < bound then ofSigned? negative m s
    else if s = 0 then none
    else ofSigned? negative (roundHalfEven m 10) (s - 1)

end Decimal
end MarketMinutes
