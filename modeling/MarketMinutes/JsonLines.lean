import MarketMinutes.Json.Parser
import MarketMinutes.Text.Lines

/-!
# One JSON text per line

What a line of such a file holds: bytes that are no text, nothing but blanks,
a text that spells no value, or a value.
-/

namespace MarketMinutes

inductive LineContent (α : Type) where
  | notText
  | blank
  | garbled
  | value (a : α)
  deriving DecidableEq

/-- What the system says of bytes that are no text. -/
def notTextMessage : String :=
  "stream did not contain valid UTF-8"

/-- The content of a line without its end. -/
def LineContent.ofLine (parse : String → Option α) (line : Bytes) : LineContent α :=
  match Bytes.text? line with
  | none => .notText
  | some text =>
    if Text.allBlank text then .blank
    else
      match parse text with
      | none => .garbled
      | some a => .value a

end MarketMinutes
