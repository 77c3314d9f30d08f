import MarketMinutes.Proofs.Aggregation.Arrivals
import MarketMinutes.Proofs.Aggregation.Replay
import MarketMinutes.Proofs.Feed.Calls

/-!
# Runs up to a failure

A run into a sink that refuses nothing takes the documents before the first
failure of its feed, and so does a run over the lines before the first bad one.
-/

namespace MarketMinutes
namespace Arrival

/-- The documents before the first failure. -/
def leading : List Arrival → List Document
  | .ok d :: arrivals => d :: leading arrivals
  | _ => []

def failure? (arrivals : List Arrival) : Option FeedError :=
  (failures arrivals).head?

end Arrival

namespace Aggregator

/-- A run writes the records of the documents before the first failure. It flushes at the end of the feed alone. -/
theorem run_leading {sink : Sink σ ε} (hs : sink.Reliable) (a : Aggregator) (s : σ) (arrivals : List Arrival) :
    let r := a.run sink s arrivals
    let written := sink.writeAll s (recordsOf a.interval a.book (Arrival.leading arrivals))
    (Arrival.failure? arrivals = none → r.result = .ok () ∧ r.sink = (sink.flush written).1) ∧
      ∀ e, Arrival.failure? arrivals = some e → r.result = .error (.feed e) ∧ r.sink = written := by
  induction arrivals generalizing a s with
  | nil =>
    have hrun : a.run sink s [] = _ := run_eq hs a s []
    rw [hrun]
    exact ⟨fun _ => ⟨rfl, rfl⟩, fun e he => nomatch he⟩
  | cons arrival arrivals ih =>
    cases arrival with
    | error e =>
      rw [run_cons_of_error (show a.step sink s (.error e) = _ from rfl)]
      refine ⟨fun hnone => (nomatch hnone), fun e' he => ?_⟩
      cases he
      exact ⟨rfl, rfl⟩
    | ok d =>
      rw [run_cons_of_ok (step_document hs a s d), Arrival.leading, recordsOf_cons, Sink.writeAll_append,
        ← passed_book, ← passed_interval a d]
      exact ih (a.passed d) _

end Aggregator
end MarketMinutes
