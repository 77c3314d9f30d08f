import MarketMinutes.Json.Parts

/-!
# Market symbols

The name of an instrument: any text that is not blank, kept as it is.
-/

namespace MarketMinutes

structure Symbol where
  name : String
  notBlank : Text.allBlank name = false
  deriving DecidableEq

namespace Symbol

def ofText? (s : String) : Option Symbol :=
  if h : Text.allBlank s = false then some ⟨s, h⟩ else none

def blankMessage : String :=
  "Market symbol must not be blank"

def toJson (symbol : Symbol) : Json :=
  .ofString symbol.name

def ofJson? (j : Json) : Option Symbol :=
  j.string?.bind ofText?

end Symbol
end MarketMinutes
