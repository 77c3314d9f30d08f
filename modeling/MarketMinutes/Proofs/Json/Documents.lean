import MarketMinutes.Proofs.Json.Parts
import MarketMinutes.Record

/-!
# Documents and records read back

A document or a record comes back from its JSON text with every field as it
was, and with no sign on a zero.
-/

namespace MarketMinutes

/-! ## No sign on a zero -/

def Candle.unsigned (c : Candle) : Candle :=
  ⟨c.opening.unsigned, c.high.unsigned, c.low.unsigned, c.closing.unsigned⟩

def Quote.unsigned (q : Quote) : Quote :=
  ⟨q.bid.unsigned, q.ask.unsigned⟩

def Trade.unsigned (t : Trade) : Trade :=
  ⟨t.price.unsigned, t.quantity.unsigned, t.buyerIsMaker⟩

/-- The price and volume texts of updates are kept as they are. -/
def Payload.unsigned : Payload → Payload
  | quotes qs => quotes (qs.map Quote.unsigned)
  | trades ts => trades (ts.map Trade.unsigned)
  | book updates => book updates

def Document.unsigned (d : Document) : Document :=
  { d with payload := d.payload.unsigned }

def Record.unsigned : Record → Record
  | quotes r => quotes { r with bid := r.bid.unsigned, ask := r.ask.unsigned, mid := r.mid.unsigned }
  | trades r =>
    trades
      { r with
        sellVolume := r.sellVolume.unsigned
        buyVolume := r.buyVolume.unsigned
        sellPrice := r.sellPrice.map Decimal.unsigned
        buyPrice := r.buyPrice.map Decimal.unsigned
        candle := r.candle.map Candle.unsigned }
  | book r => book { r with bids := r.bids.map Decimal.unsigned, asks := r.asks.map Decimal.unsigned }

@[simp] theorem Record.kind_unsigned (r : Record) : r.unsigned.kind = r.kind := by
  cases r <;> rfl

/-! ## Parts of documents and records -/

namespace Candle

theorem fits_toJson (depth : Nat) (c : Candle) : c.toJson.Fits (depth + 1) := by
  refine Json.fits_record ?_
  simp [Decimal.fits_toJson]

theorem ofJson?_toJson (c : Candle) : ofJson? c.toJson = some c.unsigned := by
  have hparts : c.toJson.parts? ["o", "h", "l", "c"] =
      some [.given c.opening.toJson, .given c.high.toJson, .given c.low.toJson, .given c.closing.toJson] := by
    simp [toJson, Json.record, Json.parts?, Json.named?]
  simp only [ofJson?, hparts, Part.required?, Decimal.ofJson?_toJson]
  rfl

end Candle

namespace Quote

theorem fits_toJson (depth : Nat) (q : Quote) : q.toJson.Fits (depth + 1) := by
  refine Json.fits_record ?_
  simp [Decimal.fits_toJson]

theorem ofJson?_toJson (q : Quote) : ofJson? q.toJson = some q.unsigned := by
  have hparts : q.toJson.parts? ["bid", "ask"] = some [.given q.bid.toJson, .given q.ask.toJson] := by
    simp [toJson, Json.record, Json.parts?, Json.named?]
  simp only [ofJson?, hparts, Part.required?, Decimal.ofJson?_toJson]
  rfl

end Quote

namespace Trade

theorem fits_toJson (depth : Nat) (t : Trade) : t.toJson.Fits (depth + 1) := by
  refine Json.fits_record ?_
  simp [Decimal.fits_toJson, Json.fits_bool]

theorem ofJson?_toJson (t : Trade) : ofJson? t.toJson = some t.unsigned := by
  have hparts : t.toJson.parts? ["price", "qty", "is_market_maker"] =
      some [.given t.price.toJson, .given t.quantity.toJson, .given (.bool t.buyerIsMaker)] := by
    simp [toJson, Json.record, Json.parts?, Json.named?]
  simp only [ofJson?, hparts, Part.required?, Decimal.ofJson?_toJson]
  rfl

end Trade

namespace Update

theorem fits_pairToJson (depth : Nat) (p : String × String) : (pairToJson p).Fits (depth + 1) := by
  refine Json.fits_array ?_
  simp [Json.fits_ofString]

theorem fits_toJson (depth : Nat) (u : Update) : u.toJson.Fits (depth + 3) := by
  refine Json.fits_record ?_
  simp [Json.fits_ofList (fits_pairToJson depth)]

theorem ofJson?_toJson (u : Update) : ofJson? u.toJson = some u := by
  have hparts : u.toJson.parts? ["bids", "asks"] =
      some [.given (.ofList pairToJson u.bids), .given (.ofList pairToJson u.asks)] := by
    simp [toJson, Json.record, Json.parts?, Json.named?]
  have hpair : ∀ p, pair? (pairToJson p) = some (id p) := fun _ => rfl
  have hlist : ∀ ps, Json.list? pair? (.ofList pairToJson ps) = some ps := fun ps => by
    rw [Json.list?_ofList hpair, List.map_id]
  simp only [ofJson?, hparts, Part.orElse?, hlist]
  rfl

end Update

namespace Symbol

theorem fits_toJson (depth : Nat) (s : Symbol) : s.toJson.Fits depth :=
  Json.fits_ofString depth _

theorem ofJson?_toJson (s : Symbol) : ofJson? s.toJson = some s :=
  dif_pos s.notBlank

/-- What is found of a symbol that is written only where there is one. -/
def part : Option Symbol → Part
  | none => .absent
  | some s => .given s.toJson

theorem nullable?_part (s : Option Symbol) : (part s).nullable? ofJson? = some s := by
  cases s with
  | none => rfl
  | some s =>
    show (ofJson? s.toJson).map some = _
    rw [ofJson?_toJson]
    rfl

end Symbol

/-! ## Documents -/

namespace Kind

theorem ofLabel?_label (kind : Kind) : ofLabel? kind.label = some kind := by
  cases kind <;> decide

end Kind

namespace Document

theorem fits_symbolMembers (depth : Nat) (s : Option Symbol) : ∀ m ∈ symbolMembers s, m.2.Fits depth := by
  cases s <;> simp [symbolMembers, Symbol.fits_toJson]

theorem fits_payloadMember (depth : Nat) (p : Payload) : (payloadMember p).2.Fits (depth + 4) := by
  cases p with
  | quotes qs => exact Json.fits_ofList (Quote.fits_toJson _) qs
  | trades ts => exact Json.fits_ofList (Trade.fits_toJson _) ts
  | book updates => exact Json.fits_ofList (Update.fits_toJson _) updates

theorem fits_toJson (depth : Nat) (d : Document) : d.toJson.Fits (depth + 5) := by
  refine Json.fits_record (List.forall_mem_cons.mpr ⟨Json.fits_ofInt64 .., List.forall_mem_append.mpr ⟨?_, ?_⟩⟩)
  · exact fits_symbolMembers _ d.symbol
  · exact List.forall_mem_cons.mpr ⟨Json.fits_ofString .., List.forall_mem_singleton.mpr (fits_payloadMember ..)⟩

theorem payload?_toJson (d : Document) : payload? d.kind d.toJson = some d.payload.unsigned := by
  obtain ⟨minute, symbol, payload⟩ := d
  cases payload with
  | quotes qs =>
    have hparts : (toJson ⟨minute, symbol, .quotes qs⟩).parts? ["tickers"] =
        some [.given (.ofList Quote.toJson qs)] := by
      cases symbol <;> simp [toJson, symbolMembers, payloadMember, Json.record, Json.parts?, Json.named?]
    simp only [payload?, payloadList?, kind, Payload.kind, hparts, Part.required?, Json.list?_ofList Quote.ofJson?_toJson]
    rfl
  | trades ts =>
    have hparts : (toJson ⟨minute, symbol, .trades ts⟩).parts? ["tickers"] =
        some [.given (.ofList Trade.toJson ts)] := by
      cases symbol <;> simp [toJson, symbolMembers, payloadMember, Json.record, Json.parts?, Json.named?]
    simp only [payload?, payloadList?, kind, Payload.kind, hparts, Part.required?, Json.list?_ofList Trade.ofJson?_toJson]
    rfl
  | book updates =>
    have hparts : (toJson ⟨minute, symbol, .book updates⟩).parts? ["updates"] =
        some [.given (.ofList Update.toJson updates)] := by
      cases symbol <;> simp [toJson, symbolMembers, payloadMember, Json.record, Json.parts?, Json.named?]
    have hupdate : ∀ u, Update.ofJson? (Update.toJson u) = some (id u) := Update.ofJson?_toJson
    simp only [payload?, payloadList?, kind, Payload.kind, hparts, Part.required?, Json.list?_ofList hupdate, List.map_id]
    rfl

theorem ofJson?_toJson (d : Document) : ofJson? d.toJson = some d.unsigned := by
  have hparts : d.toJson.parts? ["minute_utc", "symbol", "type"] =
      some [.given (.ofInt64 d.minute), Symbol.part d.symbol, .given (.ofString d.kind.label)] := by
    obtain ⟨minute, symbol, payload⟩ := d
    cases symbol <;> cases payload <;>
      simp [toJson, symbolMembers, payloadMember, Symbol.part, kind, Payload.kind, Json.record, Json.parts?, Json.named?]
  have hkind : kindOfJson? (.ofString d.kind.label) = some d.kind := Kind.ofLabel?_label d.kind
  have hsound : d.toJson.isSound = true := (fits_toJson 122 d).sound
  have hobject : ofJson? d.toJson = if d.toJson.isSound then _ else none := rfl
  rw [hobject, if_pos hsound, hparts]
  simp only [Part.required?, Json.int64?_ofInt64, Symbol.nullable?_part, hkind, payload?_toJson, Option.bind_eq_bind,
    Option.bind_some]
  rfl

theorem parse?_render (d : Document) : parse? d.toJson.render = some d.unsigned := by
  rw [parse?, Json.parse?_render (fits_toJson 0 d).proper, Option.bind_some, ofJson?_toJson]

end Document

/-! ## Records -/

namespace QuoteMinute

theorem fits_members (depth : Nat) (r : QuoteMinute) : ∀ m ∈ r.members, m.2.Fits (depth + 1) := by
  refine List.forall_mem_cons.mpr ⟨Json.fits_ofInt64 .., List.forall_mem_append.mpr ⟨?_, ?_⟩⟩
  · exact Document.fits_symbolMembers _ r.symbol
  · simp [Candle.fits_toJson]

theorem ofJson?_members (r : QuoteMinute) (kind : Json) :
    (ofJson? (.record (("kind", kind) :: r.members))).map .quotes = some (Record.unsigned (.quotes r)) := by
  have hparts : (Json.record (("kind", kind) :: r.members)).parts? ["minute_utc", "symbol", "bid", "ask", "mid"] =
      some [.given (.ofInt64 r.minute), Symbol.part r.symbol, .given r.bid.toJson, .given r.ask.toJson,
        .given r.mid.toJson] := by
    cases hs : r.symbol <;>
      simp [members, hs, Document.symbolMembers, Symbol.part, Json.record, Json.parts?, Json.named?]
  simp only [ofJson?, hparts, Part.required?, Json.int64?_ofInt64, Symbol.nullable?_part, Candle.ofJson?_toJson]
  rfl

end QuoteMinute

namespace TradeMinute

theorem fits_members (depth : Nat) (r : TradeMinute) : ∀ m ∈ r.members, m.2.Fits (depth + 1) := by
  refine List.forall_mem_cons.mpr ⟨Json.fits_ofInt64 .., List.forall_mem_append.mpr ⟨?_, ?_⟩⟩
  · exact Document.fits_symbolMembers _ r.symbol
  · simp [Decimal.fits_toJson, Json.fits_ofUInt64, Json.fits_ofOption (Decimal.fits_toJson _),
      Json.fits_ofOption (Candle.fits_toJson _)]

theorem ofJson?_members (r : TradeMinute) (kind : Json) :
    (ofJson? (.record (("kind", kind) :: r.members))).map .trades = some (Record.unsigned (.trades r)) := by
  have hparts : (Json.record (("kind", kind) :: r.members)).parts? ["minute_utc", "symbol", "market_sell_vol",
      "market_buy_vol", "weighted_sell_price", "weighted_buy_price", "candle", "trade_count"] =
      some [.given (.ofInt64 r.minute), Symbol.part r.symbol, .given r.sellVolume.toJson, .given r.buyVolume.toJson,
        .given (.ofOption Decimal.toJson r.sellPrice), .given (.ofOption Decimal.toJson r.buyPrice),
        .given (.ofOption Candle.toJson r.candle), .given (.ofUInt64 r.tradeCount)] := by
    cases hs : r.symbol <;>
      simp [members, hs, Document.symbolMembers, Symbol.part, Json.record, Json.parts?, Json.named?]
  have hprice : ∀ d, Decimal.toJson d ≠ .null := fun _ => Json.noConfusion
  have hcandle : ∀ c, Candle.toJson c ≠ .null := fun _ => Json.noConfusion
  simp only [ofJson?, hparts, Part.required?, Json.int64?_ofInt64, Symbol.nullable?_part, Decimal.ofJson?_toJson,
    Part.optional?_ofOption Decimal.ofJson?_toJson hprice, Part.optional?_ofOption Candle.ofJson?_toJson hcandle,
    Json.uint64?_ofUInt64]
  rfl

end TradeMinute

namespace BookMinute

theorem fits_members (depth : Nat) (r : BookMinute) : ∀ m ∈ r.members, m.2.Fits (depth + 1) := by
  refine List.forall_mem_cons.mpr ⟨Json.fits_ofInt64 .., List.forall_mem_append.mpr ⟨?_, ?_⟩⟩
  · exact Document.fits_symbolMembers _ r.symbol
  · simp [Json.fits_ofString, Json.fits_ofList (Decimal.fits_toJson _)]

theorem ofJson?_members (r : BookMinute) (kind : Json) :
    (ofJson? (.record (("kind", kind) :: r.members))).map .book = some (Record.unsigned (.book r)) := by
  have hparts : (Json.record (("kind", kind) :: r.members)).parts? ["minute_utc", "symbol", "bids", "asks",
      "book_checksum"] =
      some [.given (.ofInt64 r.minute), Symbol.part r.symbol, .given (.ofList Decimal.toJson r.bids),
        .given (.ofList Decimal.toJson r.asks), .given (.ofString r.checksum)] := by
    cases hs : r.symbol <;>
      simp [members, hs, Document.symbolMembers, Symbol.part, Json.record, Json.parts?, Json.named?]
  simp only [ofJson?, hparts, Part.required?, Json.int64?_ofInt64, Symbol.nullable?_part,
    Json.list?_ofList Decimal.ofJson?_toJson]
  rfl

end BookMinute

namespace Record

theorem fits_toJson (depth : Nat) (r : Record) : r.toJson.Fits (depth + 2) := by
  refine Json.fits_record (List.forall_mem_cons.mpr ⟨Json.fits_ofString .., ?_⟩)
  cases r with
  | quotes r => exact r.fits_members depth
  | trades r => exact r.fits_members depth
  | book r => exact r.fits_members depth

theorem ofFields?_toJson (r : Record) : ofFields? r.kind r.toJson = some r.unsigned := by
  cases r with
  | quotes r => exact r.ofJson?_members _
  | trades r => exact r.ofJson?_members _
  | book r => exact r.ofJson?_members _

theorem ofJson?_toJson (r : Record) : ofJson? r.toJson = some r.unsigned := by
  have hparts : r.toJson.parts? ["kind"] = some [.given (.ofString r.kind.label)] := by
    obtain ⟨minute, symbol⟩ | ⟨minute, symbol⟩ | ⟨minute, symbol⟩ := r <;>
      cases symbol <;>
        simp [toJson, members, QuoteMinute.members, TradeMinute.members, BookMinute.members,
          Document.symbolMembers, kind, Json.record, Json.parts?, Json.named?]
  have hkind : kindOfJson? (.ofString r.kind.label) = some r.kind := Kind.ofLabel?_label r.kind
  have hsound : r.toJson.isSound = true := (fits_toJson 125 r).sound
  have hobject : ofJson? r.toJson = if r.toJson.isSound then _ else none := rfl
  rw [hobject, if_pos hsound, hparts]
  show (kindOfJson? (.ofString r.kind.label)).bind (ofFields? · r.toJson) = some r.unsigned
  rw [hkind, Option.bind_some, ofFields?_toJson]

theorem parse?_render (r : Record) : parse? r.toJson.render = some r.unsigned := by
  rw [parse?, Json.parse?_render (fits_toJson 0 r).proper, Option.bind_some, ofJson?_toJson]

end Record

end MarketMinutes
