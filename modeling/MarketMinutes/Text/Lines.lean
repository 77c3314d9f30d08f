import MarketMinutes.Text.Blank

/-!
# Bytes, text and lines

A line ends at a newline byte or at the end of the input. A carriage return
before the newline belongs to the line end; without a newline it is text.
-/

namespace MarketMinutes

abbrev Bytes := List UInt8

namespace Bytes

/-- The UTF-8 form of a text. -/
def ofText (s : String) : Bytes :=
  s.toUTF8.data.toList

/-- The text with this UTF-8 form, if there is one. -/
def text? (bytes : Bytes) : Option String :=
  String.fromUTF8? ⟨bytes.toArray⟩

def newline : UInt8 := 0x0A
def carriageReturn : UInt8 := 0x0D

/-- Without a carriage return at the end. -/
def dropReturn (line : Bytes) : Bytes :=
  if line.getLast? = some carriageReturn then line.dropLast else line

/-- The first line without its end, and what follows. -/
def splitLine (bytes : Bytes) : Bytes × Bytes :=
  match bytes.dropWhile (· != newline) with
  | [] => (bytes, [])
  | _ :: rest => (dropReturn (bytes.takeWhile (· != newline)), rest)

theorem length_splitLine_lt {bytes : Bytes} (h : bytes ≠ []) :
    (splitLine bytes).2.length < bytes.length := by
  have hle := (List.dropWhile_suffix (· != newline) (l := bytes)).length_le
  simp only [splitLine]
  split
  · exact List.length_pos_iff.2 h
  · rename_i heq
    rw [heq, List.length_cons] at hle
    exact hle

/-- All lines; nothing after a final newline is no line. -/
def lines (bytes : Bytes) : List Bytes :=
  if h : bytes = [] then []
  else
    have := length_splitLine_lt h
    (splitLine bytes).1 :: lines (splitLine bytes).2
termination_by bytes.length

end Bytes

end MarketMinutes
