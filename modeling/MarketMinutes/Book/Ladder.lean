import MarketMinutes.Book.Level

/-!
# One side of a book

A bounded set of levels, one per price. They are kept by rising price; the
side says which end is best. A level written past the bound pushes out the
worst.
-/

namespace MarketMinutes

/-- Settings that no book or profile can be made with. -/
inductive SetupError where
  | depth
  | interval (value : Decimal)
  deriving DecidableEq

def SetupError.message : SetupError → String
  | depth => "Invalid depth: max depth must be positive"
  | interval value => "Invalid percentage interval: " ++ toString value ++ " (must be positive)"

/-! ## Levels by rising price -/

namespace Levels

/-- The level at a price, which may be stored at another scale. -/
def find? (price : Price) (levels : List Level) : Option Level :=
  levels.find? (·.price.sameNumber price)

/-- Put a level in its place. A level already at this price keeps its price as stored and takes the volume. -/
def write (new : Level) : List Level → List Level
  | [] => [new]
  | l :: ls =>
    match new.price.compare l.price with
    | .lt => new :: l :: ls
    | .eq => { l with volume := new.volume } :: ls
    | .gt => l :: write new ls

def erase (price : Price) (levels : List Level) : List Level :=
  levels.filter (!·.price.sameNumber price)

end Levels

structure Ladder where
  side : Side
  maxDepth : Nat
  rising : List Level
  deriving DecidableEq

namespace Ladder

def empty (side : Side) (maxDepth : Nat) : Ladder :=
  ⟨side, maxDepth, []⟩

def new (side : Side) (maxDepth : Nat) : Except SetupError Ladder :=
  if maxDepth = 0 then .error .depth else .ok (empty side maxDepth)

def length (l : Ladder) : Nat :=
  l.rising.length

def isEmpty (l : Ladder) : Bool :=
  l.rising.isEmpty

/-- The levels from worst to best. -/
def levels (l : Ladder) : List Level :=
  match l.side with
  | .bid => l.rising
  | .ask => l.rising.reverse

/-- The levels from best to worst. -/
def fromBest (l : Ladder) : List Level :=
  match l.side with
  | .bid => l.rising.reverse
  | .ask => l.rising

def best? (l : Ladder) : Option Level :=
  match l.side with
  | .bid => l.rising.getLast?
  | .ask => l.rising.head?

def worst? (l : Ladder) : Option Level :=
  match l.side with
  | .bid => l.rising.head?
  | .ask => l.rising.getLast?

def volume? (l : Ladder) (price : Price) : Option Volume :=
  (Levels.find? price l.rising).map (·.volume)

/-- The sum of all volumes by rising price, `none` if it leaves the range. -/
def totalVolume? (l : Ladder) : Option Decimal :=
  Decimal.sum? (l.rising.map (·.volume.value))

def erase (l : Ladder) (price : Price) : Ladder :=
  { l with rising := Levels.erase price l.rising }

/-- Delete the level at a price, and whether there was one. -/
def delete (l : Ladder) (price : Price) : Ladder × Bool :=
  (l.erase price, (l.volume? price).isSome)

def dropWorst (l : Ladder) : Ladder :=
  { l with rising := match l.side with
      | .bid => l.rising.drop 1
      | .ask => l.rising.dropLast }

/-- Set the volume at a price, and what that pushes out. A volume of zero deletes the level. -/
def upsert (l : Ladder) (price : Price) (volume : Volume) : Ladder × Option Level :=
  if volume.isZero then (l.erase price, none)
  else
    let full : Ladder := { l with rising := Levels.write ⟨price, volume⟩ l.rising }
    if l.maxDepth < full.length then (full.dropWorst, full.worst?) else (full, none)

end Ladder
end MarketMinutes
