import MarketMinutes.Decimal.Arithmetic

/-!
# Quotients

Long division that takes up to nine places at a time, until the remainder is
gone or no further place fits; then the last place is rounded. The zeros at
the end of a division that had a remainder are cut off again, eight at a time
only while the 32 low bits are clear, so some of them stay.
-/

namespace MarketMinutes.Decimal

/-- A quotient under way; `inexact` once a remainder was left. -/
structure Quotient where
  digits : Nat
  places : Int
  rest : Nat
  inexact : Bool
  deriving DecidableEq

/-- The most places, up to a limit, that digits can be extended by. -/
def roomFor (digits : Nat) : Nat → Nat
  | 0 => 0
  | p + 1 => if digits ≤ (bound - 1) / Nat.pow 10 (p + 1) then p + 1 else roomFor digits p

theorem roomFor_le (digits most : Nat) : roomFor digits most ≤ most := by
  induction most with
  | zero => simp [roomFor]
  | succ p ih => simp only [roomFor]; split <;> omega

/-- Nine places, or what is left up to the largest scale. -/
def step (places : Int) : Nat :=
  min 9 (28 - places).toNat

/-- The quotient with its last place settled by the remainder, ties to even. -/
def Quotient.round? (q : Quotient) (divisor : Nat) : Option Quotient :=
  let up := decide (divisor < 2 * q.rest) || (decide (2 * q.rest = divisor) && q.digits % 2 == 1)
  let m := if up then q.digits + 1 else q.digits
  if m < bound then some { q with digits := m }
  else if q.places < 1 then none
  else some { q with digits := roundHalfEven m 10, places := q.places - 1 }

/-- One place less, to the nearest; a tie goes up over a remainder, to even without one. -/
def Quotient.dropPlace? (q : Quotient) : Option Quotient :=
  if q.places < 1 then none
  else
    let tieUp := q.digits % 10 == 5 && q.rest != 0
    let m := if tieUp then q.digits / 10 + 1 else roundHalfEven q.digits 10
    some { q with digits := m, places := q.places - 1 }

/-- The division carried on until its result stands. -/
def Quotient.finish? (divisor : Nat) (q : Quotient) : Option Quotient :=
  if q.rest = 0 then
    if 0 ≤ q.places then some q
    else
      let p := min 9 (-q.places).toNat
      if q.digits * Nat.pow 10 p < bound then
        finish? divisor { q with digits := q.digits * Nat.pow 10 p, places := q.places + p }
      else none
  else
    let p := roomFor q.digits (step q.places)
    if p < 9 ∧ q.places + p < 0 then none
    else if p = 0 then { q with inexact := true }.round? divisor
    else
      let rest := q.rest * Nat.pow 10 p
      let next : Quotient :=
        ⟨q.digits * Nat.pow 10 p + rest / divisor, q.places + p, rest % divisor, true⟩
      if bound ≤ q.digits * Nat.pow 10 p then none
      else if bound ≤ next.digits then next.dropPlace?
      else finish? divisor next
termination_by (28 - q.places).toNat
decreasing_by
  · omega
  · have h := roomFor_le q.digits (step q.places)
    have h' : step q.places ≤ (28 - q.places).toNat := Nat.min_le_right _ _
    change (28 - (q.places + p)).toNat < (28 - q.places).toNat
    omega

/-! ## Trailing zeros -/

/-- Cut `k` zeros off the end, if that many are there. -/
def Quotient.cut (k : Nat) (q : Quotient) : Quotient :=
  if (k : Int) ≤ q.places ∧ q.digits % Nat.pow 10 k = 0 then
    { q with digits := q.digits / Nat.pow 10 k, places := q.places - k }
  else q

/-- Cut eight zeros, tried only where the 32 low bits are clear. -/
def Quotient.cutEight (q : Quotient) : Quotient :=
  if q.digits % Nat.pow 2 32 = 0 then q.cut 8 else q

/-- At most 28 places are there, so eight at a time is tried three times. -/
def Quotient.cutZeros (q : Quotient) : Quotient :=
  (((q.cutEight.cutEight.cutEight).cut 4).cut 2).cut 1

/-- A quotient; `none` over zero, and where the result leaves the range. -/
def div? (a b : Decimal) : Option Decimal :=
  if b.isZero then none
  else if a.isZero then some zero
  else
    let start : Quotient :=
      ⟨a.mantissa / b.mantissa, (a.scale : Int) - b.scale, a.mantissa % b.mantissa, false⟩
    match start.finish? b.mantissa with
    | none => none
    | some q =>
      let q := if q.inexact then q.cutZeros else q
      ofSigned? (a.negative != b.negative) q.digits q.places.toNat

/-- The middle of two numbers, `none` if their sum leaves the range. -/
def middle? (a b : Decimal) : Option Decimal :=
  (a.add? b).bind (·.div? two)

end MarketMinutes.Decimal
