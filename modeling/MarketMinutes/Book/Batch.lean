import MarketMinutes.Book.Level

/-!
# Batches of changes

A batch comes as operations with any volume, or as updates of price and volume
texts. It is checked in full before any of it counts, and rejected at its
first fault.
-/

namespace MarketMinutes

/-- A change asked for: the volume a price shall have, zero to delete it. -/
structure Operation where
  side : Side
  price : Price
  volume : Decimal
  deriving DecidableEq

structure Change where
  side : Side
  price : Price
  volume : Volume
  deriving DecidableEq

/-- One update of a feed: price and volume texts of either side. -/
structure Update where
  bids : List (String × String)
  asks : List (String × String)
  deriving DecidableEq

structure Entry where
  side : Side
  price : String
  volume : String
  deriving DecidableEq

/-! ## Faults -/

inductive Fault where
  | negativeVolume (volume : Decimal) (price : Price)
  | badPrice (side : Side) (error : NumberError)
  | badVolume (side : Side) (error : NumberError)
  deriving DecidableEq

/-- The first fault of a batch and the place of its operation. -/
structure Rejection where
  index : Nat
  fault : Fault
  deriving DecidableEq

def Fault.message : Fault → String
  | negativeVolume volume price =>
    "negative volume " ++ toString volume ++ " at price " ++ toString price
  | badPrice side error => side.name ++ " price: " ++ error.message
  | badVolume side error => side.name ++ " volume: " ++ error.message

def Rejection.message (r : Rejection) : String :=
  "Malformed update at operation " ++ toString r.index ++ ": " ++ r.fault.message

/-! ## Checking -/

def Operation.check (o : Operation) : Except Fault Change :=
  match Volume.ofDecimal? o.volume with
  | some v => .ok ⟨o.side, o.price, v⟩
  | none => .error (.negativeVolume o.volume o.price)

/-- The price is read before the volume. -/
def Entry.check (e : Entry) : Except Fault Change :=
  match Decimal.ofText e.price with
  | .error error => .error (.badPrice e.side error)
  | .ok price =>
    match Volume.ofText e.volume with
    | .error error => .error (.badVolume e.side error)
    | .ok volume => .ok ⟨e.side, price, volume⟩

/-- Its bids, then its asks. -/
def Update.entries (u : Update) : List Entry :=
  (u.bids.map fun (price, volume) => ⟨.bid, price, volume⟩) ++
    (u.asks.map fun (price, volume) => ⟨.ask, price, volume⟩)

/-- Check one by one, counting from an index, up to the first fault. -/
def checkFrom (check : α → Except Fault Change) (index : Nat) : List α → Except Rejection (List Change)
  | [] => .ok []
  | x :: xs =>
    match check x with
    | .error fault => .error ⟨index, fault⟩
    | .ok change =>
      match checkFrom check (index + 1) xs with
      | .error rejection => .error rejection
      | .ok changes => .ok (change :: changes)

def checkOperations (batch : List Operation) : Except Rejection (List Change) :=
  checkFrom Operation.check 0 batch

def checkUpdates (updates : List Update) : Except Rejection (List Change) :=
  checkFrom Entry.check 0 (updates.flatMap Update.entries)

/-! ## In JSON -/

namespace Operation

def toJson (o : Operation) : Json :=
  .record [("side", o.side.toJson), ("price", o.price.toJson), ("volume", o.volume.toJson)]

def ofJson? (j : Json) : Option Operation :=
  match j.parts? ["side", "price", "volume"] with
  | some [side, price, volume] => do
    some ⟨← side.required? Side.ofJson?, ← price.required? Decimal.ofJson?,
      ← volume.required? Decimal.ofJson?⟩
  | _ => none

end Operation

namespace Update

/-- A price and a volume, both strings. -/
def pair? : Json → Option (String × String)
  | .array [.string (some price), .string (some volume)] => some (price, volume)
  | _ => none

def pairToJson : String × String → Json
  | (price, volume) => .array [.ofString price, .ofString volume]

def toJson (u : Update) : Json :=
  .record [("bids", .ofList pairToJson u.bids), ("asks", .ofList pairToJson u.asks)]

/-- A side that is not there is empty. -/
def ofJson? (j : Json) : Option Update :=
  match j.parts? ["bids", "asks"] with
  | some [bids, asks] => do
    some ⟨← bids.orElse? (Json.list? pair?) [], ← asks.orElse? (Json.list? pair?) []⟩
  | _ => none

end Update
end MarketMinutes
