import MarketMinutes.Book.Basic
import MarketMinutes.Sha256

/-!
# Snapshots

Both sides of a book from worst to best, with a digest of their numbers. The
digest does not depend on scales: every number is written in its one
normal form.
-/

namespace MarketMinutes

namespace Checksum

/-- A level as it enters the digest. -/
def levelText (l : Level) : List Char :=
  l.price.normalize.text ++ ':' :: l.volume.value.normalize.text ++ ['|']

def sideText (levels : List Level) : List Char :=
  levels.flatMap levelText ++ ['-', '-', '-']

/-- What the digest is taken of. -/
def text (bids asks : List Level) : List Char :=
  sideText bids ++ sideText asks

def ofLevels (bids asks : List Level) : String :=
  Sha256.hex (Bytes.ofText (String.ofList (text bids asks)))

end Checksum

structure Snapshot where
  bids : List Level
  asks : List Level
  maxDepth : Nat
  checksum : String
  deriving DecidableEq

namespace Snapshot

def ofBook (b : Book) : Snapshot :=
  ⟨b.bids.levels, b.asks.levels, b.maxDepth, Checksum.ofLevels b.bids.levels b.asks.levels⟩

def levelCount (s : Snapshot) : Nat :=
  s.bids.length + s.asks.length

/-- The digest of the levels held. -/
def digest (s : Snapshot) : String :=
  Checksum.ofLevels s.bids s.asks

/-- The checksum is that of the levels held. -/
def isIntact (s : Snapshot) : Bool :=
  s.checksum == s.digest

def toJson (s : Snapshot) : Json :=
  .record [("bids", .ofList Level.toJson s.bids), ("asks", .ofList Level.toJson s.asks),
    ("max_depth", .ofNat s.maxDepth), ("checksum", .ofString s.checksum)]

def ofJson? (j : Json) : Option Snapshot :=
  match j.parts? ["bids", "asks", "max_depth", "checksum"] with
  | some [bids, asks, maxDepth, checksum] => do
    some ⟨← bids.required? (Json.list? Level.ofJson?), ← asks.required? (Json.list? Level.ofJson?),
      ← maxDepth.required? Json.nat64?, ← checksum.required? Json.string?⟩
  | _ => none

end Snapshot
end MarketMinutes
