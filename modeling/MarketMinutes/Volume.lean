import MarketMinutes.Json.Parts
import MarketMinutes.Text.Quoted

/-!
# Prices and volumes

A price is any decimal. A volume is a decimal that is not negative; a volume
of zero stands for no volume at all.
-/

namespace MarketMinutes

abbrev Price := Decimal

structure Volume where
  value : Decimal
  nonnegative : value.isNegative = false
  deriving DecidableEq

/-- Why a text or a number is not what is asked for. -/
inductive NumberError where
  | unreadable (input : String)
  | negativeVolume (value : Decimal)
  deriving DecidableEq

def NumberError.message : NumberError → String
  | unreadable input => "Invalid decimal: " ++ Text.quoted input
  | negativeVolume value => "Negative volume: " ++ toString value

/-- A decimal from a text, blanks around it allowed. -/
def Decimal.ofText (s : String) : Except NumberError Decimal :=
  match Decimal.parse? s with
  | some d => .ok d
  | none => .error (.unreadable s)

namespace Volume

def ofDecimal? (d : Decimal) : Option Volume :=
  if h : d.isNegative = false then some ⟨d, h⟩ else none

def ofDecimal (d : Decimal) : Except NumberError Volume :=
  match ofDecimal? d with
  | some v => .ok v
  | none => .error (.negativeVolume d)

def ofText (s : String) : Except NumberError Volume :=
  Decimal.ofText s >>= ofDecimal

def isZero (v : Volume) : Bool :=
  v.value.isZero

def toJson (v : Volume) : Json :=
  v.value.toJson

def ofJson? (j : Json) : Option Volume :=
  (Decimal.ofJson? j).bind ofDecimal?

end Volume
end MarketMinutes
