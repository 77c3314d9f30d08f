import MarketMinutes.Text.Digits

/-!
# Decimal numbers

A decimal is a sign, a 96-bit mantissa and a scale from 0 to 28. It stands
for the mantissa over a power of ten. Two decimals may stand for one number
and differ in scale, so order and equality of numbers are kept apart from
equality of decimals. A zero may carry a sign; it is not negative.
-/

namespace MarketMinutes

structure Decimal where
  negative : Bool
  mantissa : Nat
  scale : Nat
  mantissa_lt : mantissa < Nat.pow 2 96
  scale_le : scale ≤ 28
  deriving DecidableEq

namespace Decimal

def bound : Nat := Nat.pow 2 96

def maxScale : Nat := 28

/-- The decimal of three parts, if they are in range. -/
def ofParts? (negative : Bool) (mantissa scale : Nat) : Option Decimal :=
  if h : mantissa < Nat.pow 2 96 ∧ scale ≤ 28 then some ⟨negative, mantissa, scale, h.1, h.2⟩ else none

/-- As `ofParts?`; a zero has no sign. -/
def ofSigned? (negative : Bool) (mantissa scale : Nat) : Option Decimal :=
  ofParts? (negative && mantissa != 0) mantissa scale

def zero : Decimal := ⟨false, 0, 0, by decide, by decide⟩

def one : Decimal := ⟨false, 1, 0, by decide, by decide⟩

def two : Decimal := ⟨false, 2, 0, by decide, by decide⟩

instance : Inhabited Decimal := ⟨zero⟩

def isZero (d : Decimal) : Bool :=
  d.mantissa == 0

/-- Below zero: the sign of a zero does not count. -/
def isNegative (d : Decimal) : Bool :=
  d.negative && !d.isZero

def neg (d : Decimal) : Decimal :=
  { d with negative := !d.negative }

def signed (d : Decimal) : Int :=
  if d.negative then -(d.mantissa : Int) else d.mantissa

/-! ## Order of the numbers -/

/-- Both mantissas at the larger of the two scales. -/
def aligned (a b : Decimal) : Int × Int :=
  let s := max a.scale b.scale
  (a.signed * Nat.pow 10 (s - a.scale), b.signed * Nat.pow 10 (s - b.scale))

/-- Order by number; the scale does not count. -/
def compare (a b : Decimal) : Ordering :=
  let (x, y) := aligned a b
  Ord.compare x y

def isLT (a b : Decimal) : Bool :=
  a.compare b == .lt

def isLE (a b : Decimal) : Bool :=
  a.compare b != .gt

/-- Equal as numbers, whatever the scales. -/
def sameNumber (a b : Decimal) : Bool :=
  a.compare b == .eq

/-! ## One form per number -/

/-- Cut trailing zeros off a mantissa, at most `scale` of them. -/
def stripZeros (mantissa : Nat) : Nat → Nat × Nat
  | 0 => (mantissa, 0)
  | scale + 1 => if mantissa % 10 = 0 then stripZeros (mantissa / 10) scale else (mantissa, scale + 1)

theorem stripZeros_fst_le (m s : Nat) : (stripZeros m s).1 ≤ m := by
  induction s generalizing m with
  | zero => simp [stripZeros]
  | succ s ih =>
    simp only [stripZeros]
    split
    · exact Nat.le_trans (ih _) (Nat.div_le_self _ _)
    · exact Nat.le_refl _

theorem stripZeros_snd_le (m s : Nat) : (stripZeros m s).2 ≤ s := by
  induction s generalizing m with
  | zero => simp [stripZeros]
  | succ s ih =>
    simp only [stripZeros]
    split
    · exact Nat.le_succ_of_le (ih _)
    · exact Nat.le_refl _

/-- The same number at its smallest scale; every zero becomes plain 0. -/
def normalize (d : Decimal) : Decimal :=
  if d.isZero then zero
  else
    { negative := d.negative
      mantissa := (stripZeros d.mantissa d.scale).1
      scale := (stripZeros d.mantissa d.scale).2
      mantissa_lt := Nat.lt_of_le_of_lt (stripZeros_fst_le _ _) d.mantissa_lt
      scale_le := Nat.le_trans (stripZeros_snd_le _ _) d.scale_le }

/-! ## Writing -/

/-- Digits with a point before the last `places` of them. -/
def pointed (digits : List Char) (places : Nat) : List Char :=
  if places = 0 then digits
  else
    let whole := digits.length - places
    digits.take whole ++ '.' :: digits.drop whole

/-- The decimal in writing: every place of its scale, at least one digit before the point. -/
def text (d : Decimal) : List Char :=
  (if d.negative then ['-'] else []) ++ pointed (Digits.padded (d.scale + 1) d.mantissa) d.scale

instance : ToString Decimal where
  toString d := String.ofList d.text

end Decimal
end MarketMinutes
