import MarketMinutes.Text.Hidden

/-!
# Quoted text

A text between quotes as messages show it: the quote, the backslash and the
commonest controls by a letter, other characters that do not show by their
code point.
-/

namespace MarketMinutes

/-- One character inside quotes. -/
def Text.quotedChar (c : Char) : List Char :=
  if c = '\x00' then ['\\', '0']
  else if c = '\t' then ['\\', 't']
  else if c = '\n' then ['\\', 'n']
  else if c = '\r' then ['\\', 'r']
  else if c = '"' then ['\\', '"']
  else if c = '\\' then ['\\', '\\']
  else if isHidden c then
    ['\\', 'u', '\x7b'] ++ Nat.toDigits 16 c.toNat ++ ['\x7d']
  else [c]

def Text.quoted (s : String) : String :=
  String.ofList ('"' :: s.toList.flatMap quotedChar ++ ['"'])

end MarketMinutes
