import MarketMinutes.Binary64.Shortest
import MarketMinutes.Decimal.Reader
import MarketMinutes.Json.Printer
import MarketMinutes.Json.Parser

/-!
# Reading values out of JSON

A structure is an object, its parts found by name, or an array with its parts
in their order. An object may hold further names, but none of its own twice;
an array may be cut short, but holds nothing further.
-/

namespace MarketMinutes

/-- What a structure holds for one of its parts: a value, no such name, or an array that ends before it. -/
inductive Part where
  | given (value : Json)
  | absent
  | cutOff

namespace Part

def required? (read : Json → Option α) : Part → Option α
  | .given j => read j
  | _ => none

/-- A part with a value of its own when it is not there. -/
def orElse? (read : Json → Option α) (value : α) : Part → Option α
  | .given j => read j
  | _ => some value

/-- A part that may be null, or missing by name. -/
def optional? (read : Json → Option α) : Part → Option (Option α)
  | .given .null => some none
  | .given j => (read j).map some
  | .absent => some none
  | .cutOff => none

/-- A part that may be null or missing. -/
def nullable? (read : Json → Option α) : Part → Option (Option α)
  | .given .null => some none
  | .given j => (read j).map some
  | _ => some none

end Part

namespace Json

/-- The one value under a name, `none` if the name comes twice. -/
def named? (members : List (Literal × Json)) (name : String) : Option Part :=
  match members.filter (·.1 == some name) with
  | [] => some .absent
  | [(_, j)] => some (.given j)
  | _ => none

/-- The parts of a structure, in the order of their names. -/
def parts? (names : List String) : Json → Option (List Part)
  | .object members =>
    if members.all (·.1.isSome) then names.mapM (named? members) else none
  | .array items =>
    if items.length ≤ names.length then
      some (items.map .given ++ List.replicate (names.length - items.length) .cutOff)
    else none
  | _ => none

/-! ## Plain values -/

def string? : Json → Option String
  | .string s => s
  | _ => none

def bool? : Json → Option Bool
  | .bool b => some b
  | _ => none

def integer? : Json → Option Int
  | .number n => n.integer?
  | _ => none

def int64? (j : Json) : Option Int64 := do
  let i ← j.integer?
  if i < Nat.pow 2 63 then some (Int64.ofInt i) else none

/-- A natural number below 2^64. -/
def nat64? (j : Json) : Option Nat := do
  let i ← j.integer?
  if 0 ≤ i then some i.toNat else none

def uint64? (j : Json) : Option UInt64 :=
  j.nat64?.map UInt64.ofNat

def ofInt64 (n : Int64) : Json := .ofInt n.toInt

def ofUInt64 (n : UInt64) : Json := .ofNat n.toNat

def list? (read : Json → Option α) : Json → Option (List α)
  | .array items => items.mapM read
  | _ => none

def ofList (write : α → Json) (xs : List α) : Json :=
  .array (xs.map write)

def ofOption (write : α → Json) : Option α → Json
  | none => .null
  | some x => write x

end Json

/-! ## Decimals -/

namespace Decimal

/-- The decimal of an integer, or of a double by way of its shortest writing. -/
def ofNumber? : Number → Option Decimal
  | .integer i => ofSigned? (decide (i < 0)) i.natAbs 0
  | .real negative x => read? ((if negative then ['-'] else []) ++ x.text)

/-- A decimal from a number, or from a string without blanks around it. -/
def ofJson? : Json → Option Decimal
  | .number n => n.number?.bind ofNumber?
  | .string (some s) => read? s.toList
  | _ => none

/-- A decimal is written as a string and so keeps its scale. -/
def toJson (d : Decimal) : Json :=
  .ofString (toString d)

end Decimal
end MarketMinutes
