import MarketMinutes.Json.Basic

/-!
# Reading JSON

The grammar of RFC 8259 over a list of characters; each reader gives what it
has read and what is left. Every reader takes at least one character, so the
length of the text bounds the recursion.
-/

namespace MarketMinutes.Json

/-- JSON's own white space. -/
def isGap (c : Char) : Bool :=
  c == ' ' || c == '\t' || c == '\n' || c == '\r'

def skipGaps (cs : List Char) : List Char :=
  cs.dropWhile isGap

/-! ## Strings -/

/-- Half of what a literal spells: a character, or the 16-bit unit of an escape. -/
inductive Spelled where
  | char (c : Char)
  | unit (n : Nat)

def hexDigit? (c : Char) : Option Nat :=
  if '0' ≤ c ∧ c ≤ '9' then some (c.toNat - 0x30)
  else if 'a' ≤ c ∧ c ≤ 'f' then some (c.toNat - 0x57)
  else if 'A' ≤ c ∧ c ≤ 'F' then some (c.toNat - 0x37)
  else none

def hexUnit? (a b c d : Char) : Option Nat := do
  some (4096 * (← hexDigit? a) + 256 * (← hexDigit? b) + 16 * (← hexDigit? c) + (← hexDigit? d))

def shortEscape? : Char → Option Char
  | '"' => some '"'
  | '\\' => some '\\'
  | '/' => some '/'
  | 'b' => some '\x08'
  | 'f' => some '\x0c'
  | 'n' => some '\n'
  | 'r' => some '\r'
  | 't' => some '\t'
  | _ => none

/-- The rest of a literal, up to its closing quote. -/
def body? : List Char → Option (List Spelled × List Char)
  | [] => none
  | '"' :: cs => some ([], cs)
  | '\\' :: 'u' :: a :: b :: c :: d :: cs => do
    let n ← hexUnit? a b c d
    let (rest, left) ← body? cs
    some (.unit n :: rest, left)
  | '\\' :: e :: cs => do
    let c ← shortEscape? e
    let (rest, left) ← body? cs
    some (.char c :: rest, left)
  | c :: cs =>
    if c.toNat < 0x20 || c == '\\' then none
    else do
      let (rest, left) ← body? cs
      some (.char c :: rest, left)

def isHighSurrogate (n : Nat) : Bool := 0xD800 ≤ n && n ≤ 0xDBFF
def isLowSurrogate (n : Nat) : Bool := 0xDC00 ≤ n && n ≤ 0xDFFF

/-- The characters that are spelled, `none` if half of a surrogate pair stands alone. -/
def spelled? : List Spelled → Option (List Char)
  | [] => some []
  | .char c :: rest => (spelled? rest).map (c :: ·)
  | .unit h :: .unit l :: rest =>
    if isHighSurrogate h && isLowSurrogate l then
      (spelled? rest).map (Char.ofNat (0x10000 + 1024 * (h - 0xD800) + (l - 0xDC00)) :: ·)
    else if isHighSurrogate h || isLowSurrogate h then none
    else (spelled? (.unit l :: rest)).map (Char.ofNat h :: ·)
  | .unit n :: rest =>
    if isHighSurrogate n || isLowSurrogate n then none
    else (spelled? rest).map (Char.ofNat n :: ·)

/-- A literal whose opening quote has been read. -/
def literal? (cs : List Char) : Option (Literal × List Char) := do
  let (units, left) ← body? cs
  some ((spelled? units).map String.ofList, left)

/-! ## Numbers -/

/-- The digits in front, and what follows them. -/
def digits : List Char → List Nat × List Char
  | [] => ([], [])
  | c :: cs =>
    match Digits.ofChar? c with
    | none => ([], c :: cs)
    | some d =>
      let (ds, left) := digits cs
      (d :: ds, left)

/-- A fraction, if a point stands in front. -/
def fraction? : List Char → Option (List Nat × List Char)
  | '.' :: cs =>
    match digits cs with
    | ([], _) => none
    | (ds, left) => some (ds, left)
  | cs => some ([], cs)

/-- An exponent, if its mark stands in front. -/
def exponent? : List Char → Option (Option Int × List Char)
  | [] => some (none, [])
  | c :: cs =>
    if c = 'e' ∨ c = 'E' then
      let (negative, cs) := match cs with
        | '-' :: rest => (true, rest)
        | '+' :: rest => (false, rest)
        | rest => (false, rest)
      match digits cs with
      | ([], _) => none
      | (ds, left) =>
        let n : Int := Digits.value ds
        some (some (if negative then -n else n), left)
    else some (none, c :: cs)

/-- A number; its whole part has no zero in front of other digits. -/
def numeral? (cs : List Char) : Option (Numeral × List Char) := do
  let (negative, cs) := match cs with
    | '-' :: rest => (true, rest)
    | rest => (false, rest)
  let (whole, cs) := digits cs
  if whole.isEmpty || (1 < whole.length && whole.head? == some 0) then none
  else do
    let (fraction, cs) ← fraction? cs
    let (exponent, cs) ← exponent? cs
    some (⟨negative, whole, fraction, exponent⟩, cs)

/-! ## Values -/

mutual
/-- One value, gaps in front of it allowed. -/
def value? : Nat → List Char → Option (Json × List Char)
  | 0, _ => none
  | n + 1, cs =>
    match skipGaps cs with
    | 'n' :: 'u' :: 'l' :: 'l' :: rest => some (.null, rest)
    | 't' :: 'r' :: 'u' :: 'e' :: rest => some (.bool true, rest)
    | 'f' :: 'a' :: 'l' :: 's' :: 'e' :: rest => some (.bool false, rest)
    | '"' :: rest => (literal? rest).map fun (s, left) => (.string s, left)
    | '[' :: rest =>
      match skipGaps rest with
      | ']' :: left => some (.array [], left)
      | _ => (items? n rest).map fun (js, left) => (.array js, left)
    | '\x7b' :: rest =>
      match skipGaps rest with
      | '\x7d' :: left => some (.object [], left)
      | _ => (members? n rest).map fun (ms, left) => (.object ms, left)
    | rest => (numeral? rest).map fun (x, left) => (.number x, left)

/-- One or more values with commas between them, and the closing bracket. -/
def items? : Nat → List Char → Option (List Json × List Char)
  | 0, _ => none
  | n + 1, cs => do
    let (j, left) ← value? n cs
    match skipGaps left with
    | ',' :: rest =>
      let (js, left) ← items? n rest
      some (j :: js, left)
    | ']' :: left => some ([j], left)
    | _ => none

/-- One or more members with commas between them, and the closing brace. -/
def members? : Nat → List Char → Option (List (Literal × Json) × List Char)
  | 0, _ => none
  | n + 1, cs => do
    match skipGaps cs with
    | '"' :: rest =>
      let (name, left) ← literal? rest
      match skipGaps left with
      | ':' :: rest =>
        let (j, left) ← value? n rest
        match skipGaps left with
        | ',' :: rest =>
          let (ms, left) ← members? n rest
          some ((name, j) :: ms, left)
        | '\x7d' :: left => some ([(name, j)], left)
        | _ => none
      | _ => none
    | _ => none
end

/-- The one value of a text, with gaps around it and nothing else. -/
def parse? (s : String) : Option Json :=
  let cs := s.toList
  match value? (cs.length + 1) cs with
  | some (j, left) => if (skipGaps left).isEmpty then some j else none
  | none => none

end MarketMinutes.Json
