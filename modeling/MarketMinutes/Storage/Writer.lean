import MarketMinutes.Storage.FileTree

/-!
# Buffered writing

Pieces of bytes are held back until a buffer is full or flushed. A piece that
does not fit drains the buffer first; one as large as the buffer goes straight
to the file.
-/

namespace MarketMinutes

/-- Where the next bytes of an open file go. -/
inductive Position where
  | atEnd
  | offset (n : Nat)
  | lost
  deriving DecidableEq

/-- Bytes written over old ones from an offset on; a gap before it is filled with zeros. -/
def Bytes.overwrite (old : Bytes) (offset : Nat) (new : Bytes) : Bytes :=
  old.take offset ++ List.replicate (offset - old.length) 0 ++ new ++ old.drop (offset + new.length)

/-- An open file: where it is, and the pieces held back, the latest first. -/
structure Writer where
  location : Location
  position : Position
  held : List Bytes
  size : Nat

namespace Writer

def capacity : Nat := 8192

def pending (w : Writer) : Bytes :=
  w.held.reverse.flatten

def emit (t : FileTree) (w : Writer) (bytes : Bytes) : FileTree × Writer :=
  if bytes.isEmpty then (t, w)
  else
    let old := (t.content? w.location).getD []
    match w.position with
    | .atEnd => (t.put w.location (old ++ bytes), w)
    | .offset n =>
      (t.put w.location (old.overwrite n bytes), { w with position := .offset (n + bytes.length) })
    | .lost => (t, w)

def flush (t : FileTree) (w : Writer) : FileTree × Writer :=
  emit t { w with held := [], size := 0 } w.pending

def push (tw : FileTree × Writer) (piece : Bytes) : FileTree × Writer :=
  let (t, w) := if capacity - tw.2.size < piece.length then flush tw.1 tw.2 else tw
  if capacity ≤ piece.length then emit t w piece
  else (t, { w with held := piece :: w.held, size := w.size + piece.length })

/-- Open a file for writing: at its end, or anew with its content dropped. -/
def «open» (t : FileTree) (path : String) (drop : Bool) : Except PathError (FileTree × Writer) :=
  (t.writable path).map fun place =>
    if drop then (t.put place [], ⟨place, .offset 0, [], 0⟩)
    else (t.put place ((t.content? place).getD []), ⟨place, .atEnd, [], 0⟩)

end Writer
end MarketMinutes
