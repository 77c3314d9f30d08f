import MarketMinutes.Book.Ladder
import MarketMinutes.Book.Batch
import MarketMinutes.Decimal.Division

/-!
# The book of one instrument

Both sides, and counts of the batches taken and the levels pushed out. A batch
is taken as a whole, its changes in order, or not at all.
-/

namespace MarketMinutes

structure Book where
  bids : Ladder
  asks : Ladder
  batchesApplied : Nat
  levelsEvicted : Nat
  deriving DecidableEq

namespace Book

def empty (maxDepth : Nat) : Book :=
  ⟨.empty .bid maxDepth, .empty .ask maxDepth, 0, 0⟩

def new (maxDepth : Nat) : Except SetupError Book :=
  if maxDepth = 0 then .error .depth else .ok (empty maxDepth)

def maxDepth (b : Book) : Nat :=
  b.bids.maxDepth

def side (b : Book) : Side → Ladder
  | .bid => b.bids
  | .ask => b.asks

def withSide (b : Book) (side : Side) (l : Ladder) : Book :=
  match side with
  | .bid => { b with bids := l }
  | .ask => { b with asks := l }

def applyChange (b : Book) (c : Change) : Book :=
  let (ladder, evicted) := (b.side c.side).upsert c.price c.volume
  let b := b.withSide c.side ladder
  if evicted.isSome then { b with levelsEvicted := b.levelsEvicted + 1 } else b

def applyChanges (b : Book) (changes : List Change) : Book :=
  let b := changes.foldl applyChange b
  { b with batchesApplied := b.batchesApplied + 1 }

/-! ## Taking batches -/

/-- Hand a book operations. They are all made, or it stays as it is and they are rejected. -/
def takeOperations (b : Book) (batch : List Operation) : Book × Except Rejection Unit :=
  match checkOperations batch with
  | .error rejection => (b, .error rejection)
  | .ok changes => (b.applyChanges changes, .ok ())

/-- Hand a book updates; it tells how many changes they have made. -/
def takeUpdates (b : Book) (updates : List Update) : Book × Except Rejection Nat :=
  match checkUpdates updates with
  | .error rejection => (b, .error rejection)
  | .ok changes => (b.applyChanges changes, .ok changes.length)

/-- The book that operations leave if it takes them. -/
def apply (b : Book) (batch : List Operation) : Except Rejection Book :=
  match b.takeOperations batch with
  | (_, .error rejection) => .error rejection
  | (next, .ok ()) => .ok next

def applyUpdates (b : Book) (updates : List Update) : Except Rejection (Book × Nat) :=
  match b.takeUpdates updates with
  | (_, .error rejection) => .error rejection
  | (next, .ok count) => .ok (next, count)

/-! ## Prices between the sides -/

def midPrice? (b : Book) : Option Decimal := do
  let bid ← b.bids.best?
  let ask ← b.asks.best?
  bid.price.middle? ask.price

def spread? (b : Book) : Option Decimal := do
  let bid ← b.bids.best?
  let ask ← b.asks.best?
  ask.price.sub? bid.price

end Book
end MarketMinutes
