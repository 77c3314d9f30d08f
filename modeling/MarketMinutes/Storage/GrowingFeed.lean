import MarketMinutes.Storage.Store

/-!
# Feeds that grow

A feed may lie in a file that its own records are written to. It is read as
it stands each time it is asked: behind its documents come such records as
have reached the file by then. A record is no document, so the first of them
ends the run.
-/

namespace MarketMinutes

/-- A feed in a file: how many bytes have been read, and the lines counted so far. -/
structure GrowingFeed where
  location : Location
  read : Nat
  line : Nat
  deriving DecidableEq

namespace GrowingFeed

def start (location : Location) : GrowingFeed :=
  ⟨location, 0, 0⟩

/-- The next arrival from the file as it stands, and the feed behind it. -/
def next (f : GrowingFeed) (t : FileTree) : Option Arrival × GrowingFeed :=
  let content := (t.content? f.location).getD []
  let (arrival, rest) := LineFeed.next ⟨content.drop f.read, f.line⟩
  (arrival, { f with read := content.length - rest.rest.length, line := rest.line })

/-- Take what the feed gives, at most so many arrivals, up to its end or the first failure. -/
def follow (a : Aggregator) (ts : FileTree × Store) (f : GrowingFeed) : Nat → Run (FileTree × Store) Empty
  | 0 => a.run Sink.store ts []
  | n + 1 =>
    match f.next ts.1 with
    | (none, _) => a.run Sink.store ts []
    | (some arrival, f) =>
      match a.step Sink.store ts arrival with
      | (a, ts, .ok ()) => follow a ts f n
      | (a, ts, .error e) => ⟨a, ts, [], .error e⟩

/-- Run a feed into a store that it is a file of. Every document takes at least one byte of those the file
holds at the start, and one arrival more ends the run. -/
def run (a : Aggregator) (t : FileTree) (store : Store) (feed : Location) : Run (FileTree × Store) Empty :=
  follow a (t, store) (start feed) (((t.content? feed).getD []).length + 1)

end GrowingFeed
end MarketMinutes
