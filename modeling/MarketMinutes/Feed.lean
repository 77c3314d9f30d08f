import MarketMinutes.Document
import MarketMinutes.JsonLines

/-!
# Feeds

A feed gives one document per line. Blank lines are passed over and counted.
A line that cannot be read is an arrival like any other, and reading goes on
behind it; a line that is no text is not counted.
-/

namespace MarketMinutes

inductive FeedError where
  | notText
  | unreadable
  | garbled (line : Nat)
  deriving DecidableEq

def FeedError.message : FeedError → String
  | notText => "IO error: " ++ notTextMessage
  | unreadable => "IO error"
  | garbled line => "Invalid document on line " ++ toString line

/-- What a feed gives each time it is asked. -/
abbrev Arrival := Except FeedError Document

/-- What is left of a feed, and the lines counted so far. -/
structure LineFeed where
  rest : Bytes
  line : Nat
  deriving DecidableEq

namespace LineFeed

def ofBytes (bytes : Bytes) : LineFeed :=
  ⟨bytes, 0⟩

/-- The feed behind its next line, with that line counted. -/
def skip (f : LineFeed) : LineFeed :=
  ⟨(Bytes.splitLine f.rest).2, f.line + 1⟩

/-- The feed behind its next line, with that line not counted. -/
def pass (f : LineFeed) : LineFeed :=
  { f with rest := (Bytes.splitLine f.rest).2 }

/-- The next arrival, if there is one, and the feed behind it. -/
def next (f : LineFeed) : Option Arrival × LineFeed :=
  if h : f.rest = [] then (none, f)
  else
    match LineContent.ofLine Document.parse? (Bytes.splitLine f.rest).1 with
    | .notText => (some (.error .notText), f.pass)
    | .blank =>
      have : f.skip.rest.length < f.rest.length := Bytes.length_splitLine_lt h
      f.skip.next
    | .garbled => (some (.error (.garbled (f.line + 1))), f.skip)
    | .value d => (some (.ok d), f.skip)
termination_by f.rest.length

/-- Every arrival takes at least one byte. -/
theorem length_rest_lt {f f' : LineFeed} {a : Arrival} (h : f.next = (some a, f')) :
    f'.rest.length < f.rest.length := by
  fun_induction next f with
  | case1 f hr => simp at h
  | case2 f hr =>
    obtain ⟨-, rfl⟩ := Prod.mk.inj h
    exact Bytes.length_splitLine_lt hr
  | case3 f hr hc hlt ih => exact Nat.lt_trans (ih h) hlt
  | case4 f hr =>
    obtain ⟨-, rfl⟩ := Prod.mk.inj h
    exact Bytes.length_splitLine_lt hr
  | case5 f hr =>
    obtain ⟨-, rfl⟩ := Prod.mk.inj h
    exact Bytes.length_splitLine_lt hr

/-- All arrivals, each with the lines counted by then, and the lines counted at the end. -/
def drain (f : LineFeed) : List (Arrival × Nat) × Nat :=
  match h : f.next with
  | (none, f') => ([], f'.line)
  | (some a, f') =>
    have := length_rest_lt h
    let (arrivals, total) := f'.drain
    ((a, f'.line) :: arrivals, total)
termination_by f.rest.length

def arrivals (f : LineFeed) : List Arrival :=
  f.drain.1.map (·.1)

end LineFeed

/-- The documents of a text in which every line holds one. -/
def Document.ofLines? (bytes : Bytes) : Option (List Document) :=
  bytes.lines.mapM fun line =>
    match LineContent.ofLine Document.parse? line with
    | .value d => some d
    | _ => none

/-- A feed of documents at hand. -/
def Arrival.ofDocuments (documents : List Document) : List Arrival :=
  documents.map .ok

end MarketMinutes
