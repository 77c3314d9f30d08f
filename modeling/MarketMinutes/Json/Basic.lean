import MarketMinutes.Binary64.Basic

/-!
# JSON texts

The tree of a JSON text as it is written: numbers keep their digits, objects
their order and repeated names. What a number stands for, and whether that is
in range, is asked later.
-/

namespace MarketMinutes

/-- A number as written. No fraction digits means no point. -/
structure Numeral where
  negative : Bool
  whole : List Nat
  fraction : List Nat
  exponent : Option Int
  deriving DecidableEq

/-- What a string literal spells; `none` where its escapes leave half of a surrogate pair. -/
abbrev Literal := Option String

inductive Json where
  | null
  | bool (value : Bool)
  | number (value : Numeral)
  | string (value : Literal)
  | array (items : List Json)
  | object (members : List (Literal × Json))
  deriving Inhabited

namespace Numeral

def ofNat (n : Nat) : Numeral :=
  ⟨false, Digits.ofNat n, [], none⟩

def ofInt (n : Int) : Numeral :=
  ⟨decide (n < 0), Digits.ofNat n.natAbs, [], none⟩

end Numeral

/-- What a number stands for: a 64-bit integer, signed or not, or a double with its sign. -/
inductive Number where
  | integer (value : Int)
  | real (negative : Bool) (value : Binary64)
  deriving DecidableEq

namespace Numeral

/-- Take digits into a 64-bit significand up to the first that does not fit; how many were taken. -/
def absorb (significand : Nat) : List Nat → Nat × Nat
  | [] => (significand, 0)
  | d :: ds =>
    if 10 * significand + d < Nat.pow 2 64 then
      let (m, taken) := absorb (10 * significand + d) ds
      (m, taken + 1)
    else (significand, 0)

/-- The double of a number: 64 bits of its digits, shifted by what they leave out. -/
def real? (n : Numeral) : Option Binary64 :=
  let (m, taken) := absorb 0 n.whole
  let (m, places) := absorb m n.fraction
  Binary64.ofScientific? m ((n.whole.length - taken : Nat) - (places : Int) + n.exponent.getD 0)

/-- The integer of a number written without point and exponent, if 64 bits hold it; negative zero is a double. -/
def integer? (n : Numeral) : Option Int :=
  if n.fraction.isEmpty && n.exponent.isNone then
    let m := Digits.value n.whole
    if !n.negative && m < Nat.pow 2 64 then some m
    else if n.negative && m != 0 && m ≤ Nat.pow 2 63 then some (-m)
    else none
  else none

/-- What a number stands for; `none` past the largest double. -/
def number? (n : Numeral) : Option Number :=
  match n.integer? with
  | some i => some (.integer i)
  | none => n.real?.map (.real n.negative)

end Numeral

namespace Json

def ofNat (n : Nat) : Json := .number (.ofNat n)
def ofInt (n : Int) : Json := .number (.ofInt n)
def ofString (s : String) : Json := .string (some s)

/-- An object with its members in order. -/
def record (members : List (String × Json)) : Json :=
  .object (members.map fun (name, value) => (some name, value))

/-! ## Texts taken in whole

A text that is read whole before its parts are looked at must have every
number in range, every string complete, and at most 127 brackets inside one
another. -/

mutual
def sound : Nat → Json → Bool
  | _, .null => true
  | _, .bool _ => true
  | _, .number n => n.number?.isSome
  | _, .string s => s.isSome
  | 0, .array _ => false
  | 0, .object _ => false
  | depth + 1, .array items => soundItems depth items
  | depth + 1, .object members => soundMembers depth members

def soundItems : Nat → List Json → Bool
  | _, [] => true
  | depth, j :: js => sound depth j && soundItems depth js

def soundMembers : Nat → List (Literal × Json) → Bool
  | _, [] => true
  | depth, (name, j) :: ms => name.isSome && sound depth j && soundMembers depth ms
end

def maxDepth : Nat := 127

/-- The text may be taken in whole. -/
def isSound (j : Json) : Bool :=
  j.sound maxDepth

end Json
end MarketMinutes
