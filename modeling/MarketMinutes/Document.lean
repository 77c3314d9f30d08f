import MarketMinutes.Book.Batch
import MarketMinutes.Symbol
import MarketMinutes.Window.Quotes
import MarketMinutes.Window.Trades

/-!
# Feed documents

A document holds the raw market data of one minute and of one kind: quotes,
trades, or updates of a book. In JSON its `type` names the kind.
-/

namespace MarketMinutes

inductive Kind where
  | quotes
  | trades
  | book
  deriving DecidableEq

namespace Kind

/-- All kinds, in the order they are stored. -/
def all : List Kind := [quotes, trades, book]

/-- How JSON names a kind. -/
def label : Kind → String
  | quotes => "BOOK_TICKER"
  | trades => "TRADE_TICKER"
  | book => "ORDER_BOOK"

/-- How messages and files name a kind. -/
def title : Kind → String
  | quotes => "BookTicker"
  | trades => "TradeTicker"
  | book => "OrderBook"

def ofLabel? (s : String) : Option Kind :=
  all.find? (·.label == s)

end Kind

inductive Payload where
  | quotes (quotes : List Quote)
  | trades (trades : List Trade)
  | book (updates : List Update)
  deriving DecidableEq

def Payload.kind : Payload → Kind
  | quotes _ => .quotes
  | trades _ => .trades
  | book _ => .book

structure Document where
  minute : Int64
  symbol : Option Symbol
  payload : Payload
  deriving DecidableEq

namespace Document

def kind (d : Document) : Kind :=
  d.payload.kind

/-! ## In JSON -/

/-- A symbol is written only where there is one. -/
def symbolMembers : Option Symbol → List (String × Json)
  | none => []
  | some s => [("symbol", s.toJson)]

def payloadMember : Payload → String × Json
  | .quotes quotes => ("tickers", .ofList Quote.toJson quotes)
  | .trades trades => ("tickers", .ofList Trade.toJson trades)
  | .book updates => ("updates", .ofList Update.toJson updates)

def toJson (d : Document) : Json :=
  .record (("minute_utc", .ofInt64 d.minute) :: symbolMembers d.symbol ++
    [("type", .ofString d.kind.label), payloadMember d.payload])

/-- A kind by its label or by its number. -/
def kindOfJson? : Json → Option Kind
  | .string (some s) => Kind.ofLabel? s
  | .number n => do
    let i ← n.integer?
    if i < 0 then none else Kind.all[i.toNat]?
  | _ => none

/-- The one list of a payload, under its name in the document. -/
def payloadList? (read : Json → Option α) (name : String) (j : Json) : Option (List α) :=
  match j.parts? [name] with
  | some [items] => items.required? (Json.list? read)
  | _ => none

def payload? (kind : Kind) (j : Json) : Option Payload :=
  match kind with
  | .quotes => (payloadList? Quote.ofJson? "tickers" j).map .quotes
  | .trades => (payloadList? Trade.ofJson? "tickers" j).map .trades
  | .book => (payloadList? Update.ofJson? "updates" j).map .book

/-- A document from a text taken in whole; only an object will do. -/
def ofJson? (j : Json) : Option Document :=
  match j with
  | .object _ =>
    if j.isSound then
      match j.parts? ["minute_utc", "symbol", "type"] with
      | some [minute, symbol, kind] => do
        let minute ← minute.required? Json.int64?
        let symbol ← symbol.nullable? Symbol.ofJson?
        let kind ← kind.required? kindOfJson?
        some ⟨minute, symbol, ← payload? kind j⟩
      | _ => none
    else none
  | _ => none

def parse? (s : String) : Option Document :=
  (Json.parse? s).bind ofJson?

end Document
end MarketMinutes
