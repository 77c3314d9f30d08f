import MarketMinutes.Book.Profile
import MarketMinutes.Book.Snapshot
import MarketMinutes.Feed
import MarketMinutes.Record

/-!
# Aggregation

Documents are reduced one by one to records, which go to a sink. Quotes and
trades stand for themselves; the updates of a book go into the one book that
is kept, and its profile after them makes the record. A window without a
record is counted by its reason and passed over. A feed or a sink that fails
ends the run; the next run goes on behind that place.
-/

namespace MarketMinutes

structure Stats where
  documentsRead : Nat := 0
  quoteWindows : Nat := 0
  tradeWindows : Nat := 0
  bookWindows : Nat := 0
  recordsWritten : Nat := 0
  emptyWindows : Nat := 0
  emptySides : Nat := 0
  rejectedBatches : Nat := 0
  overflows : Nat := 0
  deriving DecidableEq

inductive Skip where
  | noQuotes
  | emptySide
  | rejectedBatch
  | overflow
  deriving DecidableEq

/-- What can go wrong with a book or with the numbers of a window. -/
inductive BookError where
  | rejected (rejection : Rejection)
  | emptySide (side : Side)
  | setup (error : SetupError)
  | overflow (error : Overflow)
  deriving DecidableEq

def BookError.ofProfile : ProfileError → BookError
  | .emptySide side => emptySide side
  | .overflow error => overflow error

def BookError.message : BookError → String
  | rejected rejection => rejection.message
  | emptySide side => (ProfileError.emptySide side).message
  | setup error => error.message
  | overflow error => error.message

namespace Stats

def countDocument (s : Stats) (kind : Kind) : Stats :=
  let s := { s with documentsRead := s.documentsRead + 1 }
  match kind with
  | .quotes => { s with quoteWindows := s.quoteWindows + 1 }
  | .trades => { s with tradeWindows := s.tradeWindows + 1 }
  | .book => { s with bookWindows := s.bookWindows + 1 }

def countSkip (s : Stats) : Skip → Stats
  | .noQuotes => { s with emptyWindows := s.emptyWindows + 1 }
  | .emptySide => { s with emptySides := s.emptySides + 1 }
  | .rejectedBatch => { s with rejectedBatches := s.rejectedBatches + 1 }
  | .overflow => { s with overflows := s.overflows + 1 }

def countWrite (s : Stats) : Stats :=
  { s with recordsWritten := s.recordsWritten + 1 }

end Stats

/-! ## One document -/

/-- The record of a window of quotes, none without quotes. -/
def Record.ofQuotes (minute : Int64) (symbol : Option Symbol) (quotes : List Quote) :
    Except BookError (Option Record) :=
  match QuoteWindow.ofQuotes quotes with
  | .error e => .error (.overflow e)
  | .ok none => .ok none
  | .ok (some w) => .ok (some (.quotes ⟨minute, symbol, w.bid, w.ask, w.mid⟩))

def Record.ofTrades (minute : Int64) (symbol : Option Symbol) (trades : List Trade) :
    Except BookError Record :=
  match TradeWindow.ofTrades trades with
  | .error e => .error (.overflow e)
  | .ok w =>
    .ok (.trades
      { minute, symbol
        sellVolume := w.sellVolume
        buyVolume := w.buyVolume
        sellPrice := w.sellPrice
        buyPrice := w.buyPrice
        candle := w.candle
        tradeCount := UInt64.ofNat w.tradeCount })

def Record.ofBook (interval : Interval) (minute : Int64) (symbol : Option Symbol) (book : Book) :
    Except BookError Record :=
  match Profile.ofBook interval book with
  | .error e => .error (.ofProfile e)
  | .ok p => .ok (.book ⟨minute, symbol, p.bids, p.asks, (Snapshot.ofBook book).checksum⟩)

/-- What is kept from document to document. -/
structure Aggregator where
  interval : Interval
  book : Book
  stats : Stats

namespace Aggregator

/-- An empty book and nothing counted; the depth is checked before the interval. -/
def new (maxDepth : Nat) (interval : Decimal) : Except SetupError Aggregator := do
  let book ← Book.new maxDepth
  let interval ← Interval.ofDecimal interval
  .ok ⟨interval, book, {}⟩

def skip (a : Aggregator) (reason : Skip) : Aggregator :=
  { a with stats := a.stats.countSkip reason }

/-- Reduce the updates of a book. A batch that is rejected and a side that is empty are passed over. -/
def reduceUpdates (a : Aggregator) (minute : Int64) (symbol : Option Symbol) (updates : List Update) :
    Aggregator × Except BookError (Option Record) :=
  let (book, taken) := a.book.takeUpdates updates
  let a := { a with book }
  match taken.mapError BookError.rejected with
  | .error (.rejected _) => (a.skip .rejectedBatch, .ok none)
  | .error e => (a, .error e)
  | .ok _ =>
    match Record.ofBook a.interval minute symbol a.book with
    | .error (.emptySide _) => (a.skip .emptySide, .ok none)
    | .error e => (a, .error e)
    | .ok record => (a, .ok (some record))

/-- Reduce one document to its record, none for a window that is passed over. -/
def reduce (a : Aggregator) (d : Document) : Aggregator × Except BookError (Option Record) :=
  match d.payload with
  | .quotes quotes =>
    match Record.ofQuotes d.minute d.symbol quotes with
    | .ok none => (a.skip .noQuotes, .ok none)
    | reduced => (a, reduced)
  | .trades trades => (a, (Record.ofTrades d.minute d.symbol trades).map some)
  | .book updates => a.reduceUpdates d.minute d.symbol updates

/-- Take one document: counted and reduced. A window whose numbers leave the range is passed over. -/
def take (a : Aggregator) (d : Document) : Aggregator × Except BookError (Option Record) :=
  match { a with stats := a.stats.countDocument d.kind }.reduce d with
  | (a, .error (.overflow _)) => (a.skip .overflow, .ok none)
  | (a, reduced) => (a, reduced)

end Aggregator

/-! ## Runs -/

/-- Where records go. Both actions may refuse, with a new state all the same. -/
structure Sink (σ ε : Type) where
  write : σ → Record → σ × Except ε Unit
  flush : σ → σ × Except ε Unit

/-- Records kept in order; nothing is refused. -/
def Sink.memory : Sink (List Record) Empty where
  write records r := (records ++ [r], .ok ())
  flush records := (records, .ok ())

inductive RunError (ε : Type) where
  | feed (error : FeedError)
  | sink (error : ε)
  | book (error : BookError)

/-- What is said of a run that failed, given what is said of its sink. -/
def RunError.message (sinkMessage : ε → String) : RunError ε → String
  | feed error => "Feed error: " ++ error.message
  | sink error => "Sink error: " ++ sinkMessage error
  | book error => "Book error: " ++ error.message

/-- A run's outcome: the aggregator and sink after it, the arrivals not yet taken, and its error if it failed. -/
structure Run (σ ε : Type) where
  aggregator : Aggregator
  sink : σ
  rest : List Arrival
  result : Except (RunError ε) Unit

namespace Aggregator

/-- Take one arrival, and write its record if it has one. -/
def step (sink : Sink σ ε) (a : Aggregator) (s : σ) : Arrival → Aggregator × σ × Except (RunError ε) Unit
  | .error e => (a, s, .error (.feed e))
  | .ok d =>
    match a.take d with
    | (a, .error e) => (a, s, .error (.book e))
    | (a, .ok none) => (a, s, .ok ())
    | (a, .ok (some record)) =>
      match sink.write s record with
      | (s, .ok ()) => ({ a with stats := a.stats.countWrite }, s, .ok ())
      | (s, .error e) => (a, s, .error (.sink e))

/-- Take arrivals up to the end of the feed and flush, or up to the first failure. -/
def run (sink : Sink σ ε) (a : Aggregator) (s : σ) : List Arrival → Run σ ε
  | [] =>
    match sink.flush s with
    | (s, .ok ()) => ⟨a, s, [], .ok ()⟩
    | (s, .error e) => ⟨a, s, [], .error (.sink e)⟩
  | arrival :: rest =>
    match a.step sink s arrival with
    | (a, s, .ok ()) => a.run sink s rest
    | (a, s, .error e) => ⟨a, s, rest, .error e⟩

/-- A number of runs in a row, each going on where the one before it ended. -/
def runs (sink : Sink σ ε) : Nat → Aggregator → σ → List Arrival → List (Run σ ε)
  | 0, _, _, _ => []
  | n + 1, a, s, arrivals =>
    let r := a.run sink s arrivals
    r :: runs sink n r.aggregator r.sink r.rest

end Aggregator
end MarketMinutes
