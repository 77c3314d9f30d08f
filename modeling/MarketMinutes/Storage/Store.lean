import MarketMinutes.Aggregation
import MarketMinutes.Storage.Collection
import MarketMinutes.Storage.Writer

/-!
# Stores

A collection opened for writing: one file per kind, to which every record of
that kind is added as one line.
-/

namespace MarketMinutes

structure Store where
  quotes : Writer
  trades : Writer
  book : Writer
  recordsWritten : Nat

namespace Store

def writer (s : Store) : Kind → Writer
  | .quotes => s.quotes
  | .trades => s.trades
  | .book => s.book

def withWriter (s : Store) (kind : Kind) (w : Writer) : Store :=
  match kind with
  | .quotes => { s with quotes := w }
  | .trades => { s with trades := w }
  | .book => { s with book := w }

/-- The file at a location is one of the store's. -/
def owns (s : Store) (place : Location) : Bool :=
  Kind.all.any fun kind => (s.writer kind).location == place

/-- Open the files of a collection, in order, in a directory made for them. What was made and opened before a
failure stays. -/
def «open» (t : FileTree) (directory collection : String) (drop : Bool) : FileTree × Except PathError Store :=
  match t.makeDirectories directory with
  | (t, .error e) => (t, .error e)
  | (t, .ok ()) =>
    let file := fun t kind => Writer.open t (Collection.path directory collection kind) drop
    match file t .quotes with
    | .error e => (t, .error e)
    | .ok (t, quotes) =>
      match file t .trades with
      | .error e => (t, .error e)
      | .ok (t, trades) =>
        match file t .book with
        | .error e => (t, .error e)
        | .ok (t, book) => (t, .ok ⟨quotes, trades, book, 0⟩)

def linePieces (r : Record) : List Bytes :=
  (r.toJson.pieces ++ [['\n']]).map fun cs => Bytes.ofText (String.ofList cs)

def write (t : FileTree) (s : Store) (r : Record) : FileTree × Store :=
  let (t, w) := (linePieces r).foldl Writer.push (t, s.writer r.kind)
  (t, { s.withWriter r.kind w with recordsWritten := s.recordsWritten + 1 })

def flushKind (ts : FileTree × Store) (kind : Kind) : FileTree × Store :=
  let (t, w) := (ts.2.writer kind).flush ts.1
  (t, ts.2.withWriter kind w)

def flush (t : FileTree) (s : Store) : FileTree × Store :=
  Kind.all.foldl flushKind (t, s)

/-- Close the files, which brings them up to date. -/
def close (t : FileTree) (s : Store) : FileTree :=
  (flush t s).1

end Store

/-- Records into a store, which never refuses them. -/
def Sink.store : Sink (FileTree × Store) Empty where
  write ts r := (ts.2.write ts.1 r, .ok ())
  flush ts := (ts.2.flush ts.1, .ok ())

end MarketMinutes
