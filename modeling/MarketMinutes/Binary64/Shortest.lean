import MarketMinutes.Binary64.Basic

/-!
# Shortest writing

A double is written with the fewest digits that no other double is nearest
to, the closest such digits, the upper ones on a tie; without exponent, and
without a point where it is whole.
-/

namespace MarketMinutes.Binary64

/-- Ends of the numbers that round to `x`, in quarter units, and whether the ends themselves do. -/
def catchment (x : Binary64) : Nat × Nat × Bool :=
  let low := if x.significand = Nat.pow 2 52 ∧ 0 < x.power then 4 * x.significand - 1 else 4 * x.significand - 2
  (low * Nat.pow 2 x.power, (4 * x.significand + 2) * Nat.pow 2 x.power, x.significand % 2 == 0)

/-- The decimal `n * 10^e` over one quarter unit, as a fraction. -/
def quarters (n : Nat) (e : Int) : Nat × Nat :=
  (n * Nat.pow 10 e.toNat * (4 * unity), Nat.pow 10 (-e).toNat)

/-- `n * 10^e` rounds to `x`. -/
def catches (x : Binary64) (n : Nat) (e : Int) : Bool :=
  let (low, high, ends) := x.catchment
  let (num, den) := quarters n e
  if ends then low * den ≤ num && num ≤ high * den else low * den < num && num < high * den

/-- The multiple of `10^e` that `x` is written with, if one of its two neighbours rounds to `x`. -/
def onGrid? (x : Binary64) (e : Int) : Option Nat :=
  let num := x.units * Nat.pow 10 (-e).toNat
  let den := unity * Nat.pow 10 e.toNat
  let below := num / den
  match x.catches below e, x.catches (below + 1) e with
  | true, true => some (if 2 * (num % den) < den then below else below + 1)
  | true, false => some below
  | false, true => some (below + 1)
  | false, false => none

/-- A power of ten above `x`. -/
def ceilingPlace (x : Binary64) : Int :=
  if unity ≤ x.units then (Digits.ofNat (x.units / unity)).length
  else 2 - (Digits.ofNat (unity / x.units)).length

/-- The digits and the place of their last one. -/
def shortest (x : Binary64) : Nat × Int :=
  let top := x.ceilingPlace
  ((List.range 20).findSome? fun (k : Nat) =>
    let e := top - (k : Int)
    (x.onGrid? e).map fun n => (n, e)).getD (0, 0)

def text (x : Binary64) : List Char :=
  if x.isZero then ['0']
  else
    let (n, e) := x.shortest
    if 0 ≤ e then Digits.text (n * Nat.pow 10 e.toNat)
    else
      let (m, places) := Decimal.stripZeros n (-e).toNat
      Decimal.pointed (Digits.padded (places + 1) m) places

end MarketMinutes.Binary64
