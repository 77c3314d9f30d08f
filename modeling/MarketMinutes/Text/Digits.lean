/-!
# Decimal digits

Natural numbers as their digits, most significant first, and the characters
that write them.
-/

namespace MarketMinutes

/-- The digits of `n` in front of those already given. -/
def Digits.ofNatOnto (n : Nat) (rest : List Nat) : List Nat :=
  if n < 10 then n :: rest else ofNatOnto (n / 10) (n % 10 :: rest)
termination_by n

/-- The digits of a number, without leading zeros; zero is the one digit 0. -/
def Digits.ofNat (n : Nat) : List Nat :=
  ofNatOnto n []

/-- The number that digits spell after the number already read. -/
def Digits.valueFrom (read : Nat) (ds : List Nat) : Nat :=
  ds.foldl (fun m d => 10 * m + d) read

def Digits.value (ds : List Nat) : Nat :=
  valueFrom 0 ds

def Digits.toChar (d : Nat) : Char :=
  Char.ofNat (0x30 + d)

/-- The hexadecimal digit of a number below 16, lower case. -/
def Digits.hexChar (d : Nat) : Char :=
  if d < 10 then Char.ofNat (0x30 + d) else Char.ofNat (0x57 + d)

def Digits.ofChar? (c : Char) : Option Nat :=
  if '0' ≤ c ∧ c ≤ '9' then some (c.toNat - 0x30) else none

def Digits.text (n : Nat) : List Char :=
  (ofNat n).map toChar

def Digits.intText (n : Int) : List Char :=
  (if n < 0 then ['-'] else []) ++ text n.natAbs

/-- At least `width` digits, zeros in front. -/
def Digits.padded (width n : Nat) : List Char :=
  let ds := text n
  List.replicate (width - ds.length) '0' ++ ds

end MarketMinutes
