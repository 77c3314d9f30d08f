import MarketMinutes.Document

/-!
# Records

What a document comes down to: candles of its quotes, a summary of its trades,
or the profile of the book after it. In JSON its `kind` names the kind of
data.
-/

namespace MarketMinutes

structure QuoteMinute where
  minute : Int64
  symbol : Option Symbol
  bid : Candle
  ask : Candle
  mid : Candle
  deriving DecidableEq

structure TradeMinute where
  minute : Int64
  symbol : Option Symbol
  sellVolume : Decimal
  buyVolume : Decimal
  sellPrice : Option Decimal
  buyPrice : Option Decimal
  candle : Option Candle
  tradeCount : UInt64
  deriving DecidableEq

structure BookMinute where
  minute : Int64
  symbol : Option Symbol
  bids : List Decimal
  asks : List Decimal
  checksum : String
  deriving DecidableEq

inductive Record where
  | quotes (minute : QuoteMinute)
  | trades (minute : TradeMinute)
  | book (minute : BookMinute)
  deriving DecidableEq

namespace Record

def minute : Record → Int64
  | quotes r => r.minute
  | trades r => r.minute
  | book r => r.minute

def kind : Record → Kind
  | quotes _ => .quotes
  | trades _ => .trades
  | book _ => .book

end Record

/-! ## In JSON -/

namespace QuoteMinute

def members (r : QuoteMinute) : List (String × Json) :=
  ("minute_utc", .ofInt64 r.minute) :: Document.symbolMembers r.symbol ++
    [("bid", r.bid.toJson), ("ask", r.ask.toJson), ("mid", r.mid.toJson)]

def ofJson? (j : Json) : Option QuoteMinute :=
  match j.parts? ["minute_utc", "symbol", "bid", "ask", "mid"] with
  | some [minute, symbol, bid, ask, mid] => do
    some
      { minute := ← minute.required? Json.int64?
        symbol := ← symbol.nullable? Symbol.ofJson?
        bid := ← bid.required? Candle.ofJson?
        ask := ← ask.required? Candle.ofJson?
        mid := ← mid.required? Candle.ofJson? }
  | _ => none

end QuoteMinute

namespace TradeMinute

def members (r : TradeMinute) : List (String × Json) :=
  ("minute_utc", .ofInt64 r.minute) :: Document.symbolMembers r.symbol ++
    [("market_sell_vol", r.sellVolume.toJson), ("market_buy_vol", r.buyVolume.toJson),
      ("weighted_sell_price", .ofOption Decimal.toJson r.sellPrice),
      ("weighted_buy_price", .ofOption Decimal.toJson r.buyPrice),
      ("candle", .ofOption Candle.toJson r.candle), ("trade_count", .ofUInt64 r.tradeCount)]

def ofJson? (j : Json) : Option TradeMinute :=
  match j.parts? ["minute_utc", "symbol", "market_sell_vol", "market_buy_vol", "weighted_sell_price",
    "weighted_buy_price", "candle", "trade_count"] with
  | some [minute, symbol, sellVolume, buyVolume, sellPrice, buyPrice, candle, count] => do
    some
      { minute := ← minute.required? Json.int64?
        symbol := ← symbol.nullable? Symbol.ofJson?
        sellVolume := ← sellVolume.required? Decimal.ofJson?
        buyVolume := ← buyVolume.required? Decimal.ofJson?
        sellPrice := ← sellPrice.optional? Decimal.ofJson?
        buyPrice := ← buyPrice.optional? Decimal.ofJson?
        candle := ← candle.optional? Candle.ofJson?
        tradeCount := ← count.required? Json.uint64? }
  | _ => none

end TradeMinute

namespace BookMinute

def members (r : BookMinute) : List (String × Json) :=
  ("minute_utc", .ofInt64 r.minute) :: Document.symbolMembers r.symbol ++
    [("bids", .ofList Decimal.toJson r.bids), ("asks", .ofList Decimal.toJson r.asks),
      ("book_checksum", .ofString r.checksum)]

def ofJson? (j : Json) : Option BookMinute :=
  match j.parts? ["minute_utc", "symbol", "bids", "asks", "book_checksum"] with
  | some [minute, symbol, bids, asks, checksum] => do
    some
      { minute := ← minute.required? Json.int64?
        symbol := ← symbol.nullable? Symbol.ofJson?
        bids := ← bids.required? (Json.list? Decimal.ofJson?)
        asks := ← asks.required? (Json.list? Decimal.ofJson?)
        checksum := ← checksum.required? Json.string? }
  | _ => none

end BookMinute

namespace Record

def members : Record → List (String × Json)
  | quotes r => r.members
  | trades r => r.members
  | book r => r.members

def toJson (r : Record) : Json :=
  .record (("kind", .ofString r.kind.label) :: r.members)

def ofFields? (kind : Kind) (j : Json) : Option Record :=
  match kind with
  | .quotes => (QuoteMinute.ofJson? j).map .quotes
  | .trades => (TradeMinute.ofJson? j).map .trades
  | .book => (BookMinute.ofJson? j).map .book

def kindOfJson? (j : Json) : Option Kind :=
  j.string?.bind Kind.ofLabel?

/-- A record from a text taken in whole: an object with a `kind`, or an array that begins with it. -/
def ofJson? (j : Json) : Option Record :=
  if j.isSound then
    match j with
    | .object _ =>
      match j.parts? ["kind"] with
      | some [kind] => do ofFields? (← kind.required? kindOfJson?) j
      | _ => none
    | .array (kind :: fields) => do ofFields? (← kindOfJson? kind) (.array fields)
    | _ => none
  else none

def parse? (s : String) : Option Record :=
  (Json.parse? s).bind ofJson?

end Record
end MarketMinutes
