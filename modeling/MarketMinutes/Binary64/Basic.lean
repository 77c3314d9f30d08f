import MarketMinutes.Decimal.Rounding

/-!
# Double precision

The finite numbers of 64-bit binary floating point, without sign: a
significand below 2^53 times a power of two, in units of 2^-1074. Every
operation is the exact result rounded to the nearest number, ties to even.
-/

namespace MarketMinutes

structure Binary64 where
  significand : Nat
  power : Nat
  deriving DecidableEq

namespace Binary64

/-- The number in units of 2^-1074. -/
def units (x : Binary64) : Nat :=
  x.significand * Nat.pow 2 x.power

def unity : Nat := Nat.pow 2 1074

/-- The largest power of a finite number. -/
def maxPower : Nat := 2045

def isZero (x : Binary64) : Bool :=
  x.significand == 0

/-- The number nearest to `n / d`, `none` past the largest. -/
def nearest? (n d : Nat) : Option Binary64 :=
  let power := Nat.log2 (n * unity / d) - 52
  let m := roundHalfEven (n * unity) (d * Nat.pow 2 power)
  let x : Binary64 := if m < Nat.pow 2 53 then ⟨m, power⟩ else ⟨m / 2, power + 1⟩
  if x.power ≤ maxPower then some x else none

def mul? (x y : Binary64) : Option Binary64 :=
  nearest? (x.units * y.units) (unity * unity)

def div? (x y : Binary64) : Option Binary64 :=
  nearest? x.units y.units

/-- Times a power of ten, in steps of at most 308 places; a number that has come down to zero stays there. -/
def shift? : Nat → Binary64 → Int → Option Binary64
  | 0, x, _ => some x
  | steps + 1, x, places =>
    if places.natAbs ≤ 308 then do
      let p ← nearest? (Nat.pow 10 places.natAbs) 1
      if 0 ≤ places then x.mul? p else x.div? p
    else if x.isZero then some x
    else if 0 < places then none
    else do
      let p ← nearest? (Nat.pow 10 308) 1
      shift? steps (← x.div? p) (places + 308)

/-- A 64-bit significand times a power of ten. Each step rounds, so this need not be the nearest number.
Three steps take every significand to zero. -/
def ofScientific? (significand : Nat) (places : Int) : Option Binary64 := do
  shift? 4 (← nearest? significand 1) places

end Binary64
end MarketMinutes
