import MarketMinutes.Book.Basic
import MarketMinutes.Overflow

/-!
# Volume profiles

The volume of each side in buckets, going outward from the best price. A
bucket is anchored at the first level that no bucket has taken; it takes the
levels strictly within its width of the anchor. The width is a fixed share of
the midpoint.
-/

namespace MarketMinutes

/-- The share of the midpoint that a bucket is wide: 0.01 is one per cent. -/
structure Interval where
  value : Decimal
  positive : Decimal.zero.isLT value = true
  deriving DecidableEq

def Interval.ofDecimal (d : Decimal) : Except SetupError Interval :=
  if h : Decimal.zero.isLT d = true then .ok ⟨d, h⟩ else .error (.interval d)

/-- Bucket volumes of both sides, the bucket at the best price first. -/
structure Profile where
  bids : List Decimal
  asks : List Decimal
  deriving DecidableEq

inductive ProfileError where
  | emptySide (side : Side)
  | overflow (error : Overflow)
  deriving DecidableEq

def ProfileError.message : ProfileError → String
  | emptySide side => "Book empty: no " ++ side.name ++ " levels"
  | overflow error => error.message

namespace Profile

/-- The price at which a bucket ends: its width away from the anchor, on the side of worse prices. -/
def boundary? (side : Side) (anchor : Price) (width : Decimal) : Option Decimal :=
  match side with
  | .bid => anchor.sub? width
  | .ask => anchor.add? width

def boundary (side : Side) (anchor : Price) (width : Decimal) : Except Overflow Decimal :=
  Overflow.bucketBoundary.require (boundary? side anchor width)

/-- The buckets from one that ends at a boundary and holds a volume so far. -/
def bucketsFrom (side : Side) (width limit volume : Decimal) : List Level → Except Overflow (List Decimal)
  | [] => .ok [volume]
  | l :: ls =>
    if side.better l.price limit then do
      let volume ← Overflow.bucketVolume.require (volume.add? l.volume.value)
      bucketsFrom side width limit volume ls
    else do
      let limit ← boundary side l.price width
      let rest ← bucketsFrom side width limit l.volume.value ls
      .ok (volume :: rest)

/-- The buckets of levels given from best to worst. -/
def buckets (side : Side) (width : Decimal) : List Level → Except Overflow (List Decimal)
  | [] => .ok []
  | l :: ls => do
    let limit ← boundary side l.price width
    bucketsFrom side width limit l.volume.value ls

/-- The width of all buckets of a book with these best prices. -/
def width (interval : Interval) (bid ask : Price) : Except Overflow Decimal := do
  let mid ← Overflow.midpoint.require (bid.middle? ask)
  Overflow.bucketWidth.require (interval.value.mul? mid)

/-- The buckets of both sides, bids first. -/
def ofSides (interval : Interval) (bids asks : Ladder) (bid ask : Price) : Except Overflow Profile := do
  let width ← width interval bid ask
  let bids ← buckets .bid width bids.fromBest
  let asks ← buckets .ask width asks.fromBest
  .ok ⟨bids, asks⟩

/-- The profile of a book; without a best price on either side there is no midpoint. -/
def ofBook (interval : Interval) (book : Book) : Except ProfileError Profile :=
  match book.bids.best?, book.asks.best? with
  | none, _ => .error (.emptySide .bid)
  | some _, none => .error (.emptySide .ask)
  | some bid, some ask =>
    (ofSides interval book.bids book.asks bid.price ask.price).mapError .overflow

def side (p : Profile) : Side → List Decimal
  | .bid => p.bids
  | .ask => p.asks

/-- The volume of the `n` buckets nearest the best price, `none` if it leaves the range. -/
def nearVolume? (p : Profile) (side : Side) (n : Nat) : Option Decimal :=
  Decimal.sum? ((p.side side).take n)

/-! ## In JSON -/

def toJson (p : Profile) : Json :=
  .record [("bid_buckets", .ofList Decimal.toJson p.bids), ("ask_buckets", .ofList Decimal.toJson p.asks)]

def ofJson? (j : Json) : Option Profile :=
  match j.parts? ["bid_buckets", "ask_buckets"] with
  | some [bids, asks] => do
    some ⟨← bids.required? (Json.list? Decimal.ofJson?), ← asks.required? (Json.list? Decimal.ofJson?)⟩
  | _ => none

end Profile
end MarketMinutes
