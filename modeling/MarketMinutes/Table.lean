import MarketMinutes.Decimal.Arithmetic
import MarketMinutes.Record
import MarketMinutes.Text.Lines

/-!
# Tables

Records are sorted into rows, one for every minute that has any; a later record
takes the place of an earlier one of its kind. Then one line is written for
each minute from the first row to the last, whether or not there is a row for
it. A value that is not there leaves its cell empty.
-/

namespace MarketMinutes

namespace Table

def header : List String :=
  ["minute_utc", "BookOpenMid", "BookHighMid", "BookLowMid", "BookCloseMid",
    "TradeOpen", "TradeHigh", "TradeLow", "TradeClose", "SellVolume", "BuyVolume",
    "PriceWeightedSellVolume", "PriceWeightedBuyVolume",
    "BookAskVolume1Pctg", "BookBidVolume1Pctg", "BookAskVolume5Pctg", "BookBidVolume5Pctg"]

/-! ## Rows -/

/-- The records of a minute, one of a kind at most. -/
structure Row where
  quotes : Option QuoteMinute := none
  trades : Option TradeMinute := none
  book : Option BookMinute := none

def Row.set (row : Row) : Record → Row
  | .quotes r => { row with quotes := some r }
  | .trades r => { row with trades := some r }
  | .book r => { row with book := some r }

/-- Rows by rising minute. -/
abbrev Rows := List (Int × Row)

namespace Rows

/-- Put a record in the row of its minute, which is made if it is not there. -/
def add (rows : Rows) (r : Record) : Rows :=
  match rows with
  | [] => [(r.minute.toInt, ({} : Row).set r)]
  | (minute, row) :: rows =>
    if r.minute.toInt < minute then (r.minute.toInt, ({} : Row).set r) :: (minute, row) :: rows
    else if r.minute.toInt = minute then (minute, row.set r) :: rows
    else (minute, row) :: add rows r

def ofRecords (records : List Record) : Rows :=
  records.foldl add []

def keys (rows : Rows) : List Int :=
  rows.map Prod.fst

/-- The row of a minute, an empty one if it has none. -/
def row (rows : Rows) (minute : Int) : Row :=
  (rows.lookup minute).getD {}

/-- Every minute from that of the first row to that of the last. -/
def minutes (rows : Rows) : List Int :=
  match rows.keys.head?, rows.keys.getLast? with
  | some first, some last => (List.range (last - first + 1).toNat).map fun (n : Nat) => first + (n : Int)
  | _, _ => []

end Rows

/-! ## Cells -/

/-- A number at its smallest scale, or nothing. -/
def cell : Option Decimal → List Char
  | none => []
  | some d => d.normalize.text

def candleCells (c : Option Candle) : List (List Char) :=
  [cell (c.map (·.opening)), cell (c.map (·.high)), cell (c.map (·.low)), cell (c.map (·.closing))]

/-- The volume of the first buckets, nothing if it leaves the range. -/
def near? (nearBuckets : Nat) (buckets : List Decimal) : Option Decimal :=
  Decimal.sum? (buckets.take nearBuckets)

def quoteCells (quotes : Option QuoteMinute) : List (List Char) :=
  candleCells (quotes.map (·.mid))

def tradeCells (trades : Option TradeMinute) : List (List Char) :=
  candleCells (trades.bind (·.candle)) ++
    [cell (trades.map (·.sellVolume)), cell (trades.map (·.buyVolume)),
      cell (trades.bind (·.sellPrice)), cell (trades.bind (·.buyPrice))]

def bookCells (nearBuckets : Nat) (book : Option BookMinute) : List (List Char) :=
  [cell (book.bind (·.asks.head?)), cell (book.bind (·.bids.head?)),
    cell (book.bind fun b => near? nearBuckets b.asks), cell (book.bind fun b => near? nearBuckets b.bids)]

def Row.cells (nearBuckets : Nat) (row : Row) : List (List Char) :=
  quoteCells row.quotes ++ tradeCells row.trades ++ bookCells nearBuckets row.book

/-! ## Writing -/

def line (cells : List (List Char)) : List Char :=
  List.intercalate [','] cells ++ ['\n']

/-- What has been written: how many rows, and all of the text. -/
structure Written where
  rows : Nat
  text : String

/-- Write the row of a minute behind what has been written. -/
def writeRow (nearBuckets : Nat) (rows : Rows) (w : Written) (minute : Int) : Written :=
  ⟨w.rows + 1, w.text ++ String.ofList (line (Digits.intText minute :: (rows.row minute).cells nearBuckets))⟩

def write (nearBuckets : Nat) (records : List Record) : Written :=
  let rows := Rows.ofRecords records
  rows.minutes.foldl (writeRow nearBuckets rows) ⟨0, String.ofList (line (header.map String.toList))⟩

/-- How a table failed to be written: while rows were still coming, or at the end. -/
inductive WriteError where
  | rows (reason : String)
  | flush (reason : String)
  deriving DecidableEq

def WriteError.message : WriteError → String
  | rows reason => "CSV error: " ++ reason
  | flush reason => "IO error: " ++ reason

/-- Rows are held back up to this many bytes. -/
def bufferSize : Nat := 8192

/-- Write a table: its rows in number, and its text. A writer that refuses is found out once the buffer
is full, else at the end. -/
def «export» (nearBuckets : Nat) (records : List Record) (refusal : Option String) :
    Except WriteError (Nat × String) :=
  let table := write nearBuckets records
  match refusal with
  | none => .ok (table.rows, table.text)
  | some reason =>
    if bufferSize < table.text.utf8ByteSize then .error (.rows reason) else .error (.flush reason)

end Table
end MarketMinutes
