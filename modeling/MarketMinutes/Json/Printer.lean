import MarketMinutes.Json.Basic

/-!
# Writing JSON

Compact, in the order of the tree. A string escapes the quote, the backslash
and the characters below U+0020, and nothing else.

A text is written in pieces, each handed on as a whole; whoever writes to a
limited buffer sees where they end.
-/

namespace MarketMinutes

namespace Json

/-- How an escaped character is written, `none` for one that stands for itself. -/
def escape? (c : Char) : Option (List Char) :=
  if c = '"' then some ['\\', '"']
  else if c = '\\' then some ['\\', '\\']
  else if c = '\x08' then some ['\\', 'b']
  else if c = '\x0c' then some ['\\', 'f']
  else if c = '\n' then some ['\\', 'n']
  else if c = '\r' then some ['\\', 'r']
  else if c = '\t' then some ['\\', 't']
  else if c.toNat < 0x20 then
    some ['\\', 'u', '0', '0', Digits.hexChar (c.toNat / 16), Digits.hexChar (c.toNat % 16)]
  else none

/-- The body of a literal in pieces: runs of plain characters, and escapes. -/
def bodyPieces (run : List Char) : List Char → List (List Char)
  | [] => if run.isEmpty then [] else [run.reverse]
  | c :: cs =>
    match escape? c with
    | none => bodyPieces (c :: run) cs
    | some e => (if run.isEmpty then [] else [run.reverse]) ++ e :: bodyPieces [] cs

/-- A literal in pieces; one that spells no text is an unpaired surrogate. -/
def literalPieces : Literal → List (List Char)
  | some s => ['"'] :: bodyPieces [] s.toList ++ [['"']]
  | none => [['"'], ['\\', 'u', 'd', '8', '0', '0'], ['"']]

end Json

def Numeral.text (n : Numeral) : List Char :=
  (if n.negative then ['-'] else []) ++ n.whole.map Digits.toChar ++
    (if n.fraction.isEmpty then [] else '.' :: n.fraction.map Digits.toChar) ++
    match n.exponent with
    | none => []
    | some e => 'e' :: Digits.intText e

namespace Json

mutual
def pieces : Json → List (List Char)
  | .null => ["null".toList]
  | .bool true => ["true".toList]
  | .bool false => ["false".toList]
  | .number n => [n.text]
  | .string s => literalPieces s
  | .array items => ['['] :: itemPieces items ++ [[']']]
  | .object members => ['\x7b'] :: memberPieces members ++ [['\x7d']]

def itemPieces : List Json → List (List Char)
  | [] => []
  | [j] => pieces j
  | j :: js => pieces j ++ [','] :: itemPieces js

def memberPieces : List (Literal × Json) → List (List Char)
  | [] => []
  | [(name, j)] => literalPieces name ++ [':'] :: pieces j
  | (name, j) :: ms => literalPieces name ++ [':'] :: pieces j ++ [','] :: memberPieces ms
end

def text (j : Json) : List Char :=
  j.pieces.flatten

def render (j : Json) : String :=
  String.ofList j.text

end Json
end MarketMinutes
