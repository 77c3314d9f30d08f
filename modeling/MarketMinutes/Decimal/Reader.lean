import MarketMinutes.Decimal.Arithmetic
import MarketMinutes.Text.Blank

/-!
# Reading decimals

Plain writing is a sign, digits with `_` between them and one point. Short
texts are taken digit by digit. A long text that outgrows the mantissa or the
scale is rounded at the first digit that does not fit: by that digit alone,
half away from zero, whatever follows it. Scientific writing adds a power of
ten to plain writing.
-/

namespace MarketMinutes.Decimal

structure Reading where
  mantissa : Nat
  scale : Nat
  pastPoint : Bool
  anyDigit : Bool
  deriving DecidableEq

namespace Reading

def start : Reading := ⟨0, 0, false, false⟩

def push (r : Reading) (d : Nat) : Reading :=
  { r with
    mantissa := 10 * r.mantissa + d
    scale := if r.pastPoint then r.scale + 1 else r.scale
    anyDigit := true }

/-- No further place after the point fits. -/
def full (r : Reading) : Bool :=
  r.pastPoint && maxScale ≤ r.scale

/-- Texts from this length on are watched for overflow. -/
def longText : Nat := 18

/-- From this mantissa on the next digit may not fit a 64-bit word. -/
def wideFrom : Nat := (Nat.pow 2 64 - 1) / 10 - 255

/-- Digits and `_` only. -/
def digitsOrGaps (cs : List Char) : Bool :=
  cs.all fun c => c == '_' || (Digits.ofChar? c).isSome

/-- Round by the character that does not fit; the rest must be digits but counts no more. -/
def roundAt (r : Reading) : List Char → Option Reading
  | [] => some r
  | c :: rest =>
    match if c = '_' then some 0 else Digits.ofChar? c with
    | none => none
    | some d =>
      if digitsOrGaps rest then
        let m := if 5 ≤ d then r.mantissa + 1 else r.mantissa
        if m < bound then some { r with mantissa := m }
        else if r.scale = 0 then none
        else some { r with mantissa := (m + 4) / 10, scale := r.scale - 1 }
      else none

/-- Read on where the mantissa is already wide. -/
def wide (r : Reading) : List Char → Option Reading
  | [] => some r
  | c :: rest =>
    match Digits.ofChar? c with
    | some d =>
      let r' := r.push d
      if bound ≤ r'.mantissa then if r.pastPoint then r.roundAt (c :: rest) else none
      else if r'.full then r'.roundAt (rest.dropWhile (· == '_'))
      else r'.wide rest
    | none =>
      if c = '_' then r.wide rest
      else if c = '.' ∧ !r.pastPoint then { r with pastPoint := true }.wide rest
      else none

def scan (long : Bool) (r : Reading) : List Char → Option Reading
  | [] => if r.anyDigit then some r else none
  | c :: rest =>
    match Digits.ofChar? c with
    | some d =>
      let r' := r.push d
      if long && !rest.isEmpty && r'.full then r'.roundAt rest
      else if long && !rest.isEmpty && wideFrom ≤ r'.mantissa then r'.wide rest
      else r'.scan long rest
    | none =>
      if c = '_' ∧ r.anyDigit then r.scan long rest
      else if c = '.' ∧ !r.pastPoint then { r with pastPoint := true }.scan long rest
      else none

end Reading

/-- The sign in front of a number and what follows it. -/
def splitSign : List Char → Bool × List Char
  | '-' :: cs => (true, cs)
  | '+' :: cs => (false, cs)
  | cs => (false, cs)

def ofPlain? (cs : List Char) : Option Decimal :=
  let (negative, body) := splitSign cs
  match Reading.start.scan (Reading.longText ≤ cs.length) body with
  | none => none
  | some r => ofSigned? negative r.mantissa r.scale

/-! ## Powers of ten -/

/-- The digits of an unsigned number with an optional `+`. -/
def exponentDigits? (cs : List Char) : Option Nat :=
  let ds := match cs with
    | '+' :: rest => rest
    | cs => cs
  if ds.isEmpty then none else (ds.mapM Digits.ofChar?).map Digits.value

/-- Move the point to the left; places past the last are dropped by their first digit, half away from zero. -/
def lower? (d : Decimal) (exponent : Nat) : Option Decimal :=
  if d.scale + exponent ≤ maxScale then ofParts? d.negative d.mantissa (d.scale + exponent)
  else
    let cut := d.mantissa / Nat.pow 10 (d.scale + exponent - maxScale - 1)
    ofParts? d.negative (if 5 ≤ cut % 10 then cut / 10 + 1 else cut / 10) maxScale

def powerOfTen? (exponent : Nat) : Option Decimal :=
  ofParts? false (Nat.pow 10 exponent) 0

/-- Move the point to the right; past the places of the scale by products, nineteen zeros first. -/
def raise? (d : Decimal) (exponent : Nat) : Option Decimal :=
  if exponent ≤ d.scale then ofParts? d.negative d.mantissa (d.scale - exponent)
  else if exponent < 19 then do
    let p ← d.mul? (← powerOfTen? exponent)
    some p.normalize
  else do
    let p ← d.mul? (← powerOfTen? 19)
    let p ← p.mul? (← powerOfTen? (exponent - 19))
    some p.normalize

/-- A number in scientific writing: plain writing, `e` or `E`, and an exponent of at most 28 either way. -/
def ofScientific? (cs : List Char) : Option Decimal :=
  let isMark := fun c => c == 'e' || c == 'E'
  match cs.dropWhile (!isMark ·) with
  | [] => none
  | _ :: tail => do
    let base ← ofPlain? (cs.takeWhile (!isMark ·))
    let (down, digits) := match tail with
      | '-' :: rest => (true, rest)
      | rest => (false, rest)
    let exponent ← exponentDigits? digits
    if maxScale < exponent then none
    else if down then base.lower? exponent
    else base.raise? exponent

/-- A number in either writing, no blanks around it. -/
def read? (cs : List Char) : Option Decimal :=
  (ofPlain? cs).or (ofScientific? cs)

/-- A number in either writing, blanks around it allowed. -/
def parse? (s : String) : Option Decimal :=
  read? (Text.trim s.toList)

end MarketMinutes.Decimal
