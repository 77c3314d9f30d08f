import MarketMinutes.Proofs.Aggregation.Outcome

/-!
# Runs over documents at hand

Over documents, and into a sink that never refuses, a run writes the record of
each document that has one, in order, and nothing else. What a document comes
to depends on the book alone that is made of the updates up to it; so
documents that leave the book as it is can be put in and left out freely.
-/

namespace MarketMinutes

structure Sink.Reliable (sink : Sink σ ε) : Prop where
  write_ok : ∀ s record, (sink.write s record).2 = .ok ()
  flush_ok : ∀ s, (sink.flush s).2 = .ok ()

theorem Sink.memory_reliable : Sink.memory.Reliable :=
  ⟨fun _ _ => rfl, fun _ => rfl⟩

/-- A sink after records written to it in order. -/
def Sink.writeAll (sink : Sink σ ε) (s : σ) (records : List Record) : σ :=
  records.foldl (fun s record => (sink.write s record).1) s

theorem Sink.writeAll_append (sink : Sink σ ε) (s : σ) (xs ys : List Record) :
    sink.writeAll s (xs ++ ys) = sink.writeAll (sink.writeAll s xs) ys :=
  List.foldl_append ..

theorem Sink.writeAll_memory (records more : List Record) :
    Sink.memory.writeAll records more = records ++ more := by
  induction more generalizing records with
  | nil => exact (List.append_nil _).symm
  | cons record more ih =>
    rw [List.append_cons, ← ih]
    rfl

/-- The records of documents, each from the book of all updates up to and with its own. -/
def recordsOf (interval : Interval) (start : Book) (ds : List Document) : List Record :=
  ds.zipIdx.filterMap fun (d, i) => (d.outcome interval (start.afterDocuments (ds.take (i + 1)))).toOption

/-- Quotes, trades, or updates that are rejected. -/
def Document.LeavesBook (d : Document) : Prop :=
  ∀ updates, d.payload = .book updates → ∃ r, checkUpdates updates = .error r

/-! ## Records of documents -/

theorem recordsOf_cons (interval : Interval) (b : Book) (d : Document) (ds : List Document) :
    recordsOf interval b (d :: ds) = (d.outcome interval (b.afterDocuments [d])).toOption.toList ++
      recordsOf interval (b.afterDocuments [d]) ds := by
  have htail : (ds.zipIdx 1).filterMap (fun (x, i) =>
      (x.outcome interval (b.afterDocuments ((d :: ds).take (i + 1)))).toOption) =
      recordsOf interval (b.afterDocuments [d]) ds := by
    rw [recordsOf, List.zipIdx_succ, List.filterMap_map]
    refine List.filterMap_congr fun x _ => ?_
    simp only [Function.comp, List.take_succ_cons]
    rw [Book.afterDocuments_cons]
  rw [recordsOf, List.zipIdx_cons, List.filterMap_cons, htail]
  simp only [Nat.zero_add, List.take_succ_cons, List.take_zero]
  cases (d.outcome interval (b.afterDocuments [d])).toOption <;> rfl

theorem recordsOf_append (interval : Interval) (b : Book) (xs ys : List Document) :
    recordsOf interval b (xs ++ ys) = recordsOf interval b xs ++ recordsOf interval (b.afterDocuments xs) ys := by
  induction xs generalizing b with
  | nil => rfl
  | cons d ds ih =>
    rw [List.cons_append, recordsOf_cons, ih, recordsOf_cons, ← Book.afterDocuments_cons, List.append_assoc]

theorem Book.afterDocuments_of_leavesBook {b : Book} {d : Document} (h : d.LeavesBook) :
    b.afterDocuments [d] = b := by
  cases hp : d.payload with
  | quotes quotes => exact afterDocuments_of_no_call (by simp [Document.call?, hp])
  | trades trades => exact afterDocuments_of_no_call (by simp [Document.call?, hp])
  | book updates =>
    obtain ⟨r, hr⟩ := h updates hp
    rw [afterDocuments_singleton (show d.call? = some (.updates updates) by simp [Document.call?, hp]),
      receive_updates_of_error hr]

theorem Document.outcome_of_leavesBook {d : Document} (h : d.LeavesBook) (interval : Interval) (b b' : Book) :
    d.outcome interval b = d.outcome interval b' := by
  cases hp : d.payload with
  | quotes quotes => simp only [outcome, hp]
  | trades trades => simp only [outcome, hp]
  | book updates =>
    obtain ⟨r, hr⟩ := h updates hp
    simp only [outcome, hp, hr]

namespace Aggregator

variable {sink : Sink σ ε}

/-- The aggregator after a document whose record, if it has one, has been written. -/
def passed (a : Aggregator) (d : Document) : Aggregator :=
  match d.outcome a.interval (a.book.afterDocuments [d]) with
  | .ok _ => { a.counted d with stats := (a.counted d).stats.countWrite }
  | .error reason => (a.counted d).skip reason

theorem passed_interval (a : Aggregator) (d : Document) : (a.passed d).interval = a.interval := by
  unfold passed
  split <;> rfl

theorem passed_book (a : Aggregator) (d : Document) : (a.passed d).book = a.book.afterDocuments [d] := by
  unfold passed
  split <;> rfl

theorem book_foldl_passed (a : Aggregator) (ds : List Document) :
    (ds.foldl passed a).book = a.book.afterDocuments ds := by
  induction ds generalizing a with
  | nil => rfl
  | cons d ds ih => rw [List.foldl_cons, ih, passed_book, ← Book.afterDocuments_cons]

theorem step_document (hs : sink.Reliable) (a : Aggregator) (s : σ) (d : Document) :
    a.step sink s (.ok d) =
      (a.passed d, sink.writeAll s (d.outcome a.interval (a.book.afterDocuments [d])).toOption.toList, .ok ()) := by
  simp only [step, take_eq, settled, passed]
  cases ho : d.outcome a.interval (a.book.afterDocuments [d]) with
  | error reason => rfl
  | ok record =>
    have hw := hs.write_ok s record
    rcases hr : sink.write s record with ⟨s', e | _⟩ <;> rw [hr] at hw
    · cases hw
    · simp [Sink.writeAll, Except.toOption, hr]

theorem run_eq (hs : sink.Reliable) (a : Aggregator) (s : σ) (ds : List Document) :
    a.run sink s (Arrival.ofDocuments ds) =
      ⟨ds.foldl passed a, (sink.flush (sink.writeAll s (recordsOf a.interval a.book ds))).1, [], .ok ()⟩ := by
  induction ds generalizing a s with
  | nil =>
    have hf := hs.flush_ok s
    simp only [Arrival.ofDocuments, List.map_nil, run]
    rcases hr : sink.flush s with ⟨s', e | _⟩ <;> rw [hr] at hf
    · cases hf
    · simp [Sink.writeAll, recordsOf, hr]
  | cons d ds ih =>
    have hrun : a.run sink s (Arrival.ofDocuments (d :: ds)) = _ :=
      run_cons_of_ok (step_document hs a s d) (Arrival.ofDocuments ds)
    rw [hrun, recordsOf_cons, Sink.writeAll_append, List.foldl_cons, ← passed_book, ← passed_interval a d]
    exact ih _ _

theorem run_documents (hs : sink.Reliable) (a : Aggregator) (s : σ) (ds : List Document) :
    let r := a.run sink s (Arrival.ofDocuments ds)
    r.result = .ok () ∧ r.rest = [] ∧
      r.sink = (sink.flush (sink.writeAll s (recordsOf a.interval a.book ds))).1 ∧
      r.aggregator.book = a.book.afterDocuments ds := by
  rw [run_eq hs]
  exact ⟨rfl, rfl, rfl, book_foldl_passed a ds⟩

theorem new_of_valid {depth : Nat} (hd : 0 < depth) {interval : Decimal} (hi : 0 < interval.number) :
    ∃ a, Aggregator.new depth interval = .ok a ∧ a.book = .empty depth ∧ a.interval.value = interval ∧
      a.stats = {} := by
  have hi' : Decimal.zero.isLT interval = true := by simpa using hi
  refine ⟨⟨⟨interval, hi'⟩, .empty depth, {}⟩, ?_, rfl, rfl, rfl⟩
  simp [Aggregator.new, Book.new, Interval.ofDecimal, hd.ne', hi', bind, Except.bind]

/-- A run over documents writes the records of those that have one, each from the book of all updates up to it,
and leaves the book of all. A document that leaves the book as it is has its own record, at its place in the
order, and counts for no other: it can be put in, left out and moved. -/
theorem run_writes_records (hs : sink.Reliable) {depth : Nat} (hd : 0 < depth) {interval : Decimal}
    (hi : 0 < interval.number) :
    ∃ a start, Aggregator.new depth interval = .ok a ∧ Book.new depth = .ok start ∧
      a.interval.value = interval ∧
      (∀ ds s, let r := a.run sink s (Arrival.ofDocuments ds)
        r.result = .ok () ∧ r.rest = [] ∧
        r.sink = (sink.flush (sink.writeAll s (recordsOf a.interval start ds))).1 ∧
        r.aggregator.book = start.afterDocuments ds) ∧
      ∀ xs d ys, d.LeavesBook →
        start.afterDocuments (xs ++ d :: ys) = start.afterDocuments (xs ++ ys) ∧
        recordsOf a.interval start (xs ++ ys) =
          recordsOf a.interval start xs ++ recordsOf a.interval (start.afterDocuments xs) ys ∧
        recordsOf a.interval start (xs ++ d :: ys) =
          recordsOf a.interval start xs ++ (d.outcome a.interval start).toOption.toList ++
            recordsOf a.interval (start.afterDocuments xs) ys := by
  obtain ⟨a, hnew, hbook, hvalue, -⟩ := new_of_valid hd hi
  refine ⟨a, .empty depth, hnew, if_neg hd.ne', hvalue, fun ds s => hbook ▸ run_documents hs a s ds,
    fun xs d ys h => ?_⟩
  have hb : (Book.empty depth).afterDocuments (xs ++ [d]) = (Book.empty depth).afterDocuments xs := by
    rw [Book.afterDocuments_append, Book.afterDocuments_of_leavesBook h]
  refine ⟨?_, recordsOf_append .., ?_⟩
  · rw [List.append_cons, Book.afterDocuments_append, hb, Book.afterDocuments_append]
  · rw [recordsOf_append, recordsOf_cons, Book.afterDocuments_of_leavesBook h,
      Document.outcome_of_leavesBook h _ _ (.empty depth), List.append_assoc]

/-- Updates of both sides, updates that are rejected, and trades. -/
theorem run_writes_records_past_rejection :
    Sink.memory.Reliable ∧ 0 < 2 ∧ 0 < Decimal.one.number ∧
      ∃ a start, Aggregator.new 2 .one = .ok a ∧ Book.new 2 = .ok start ∧
        let ds : List Document := [⟨1, none, .book [⟨[("1", "1")], [("2", "1")]⟩]⟩,
          ⟨2, none, .book [⟨[("x", "1")], []⟩]⟩, ⟨2, none, .trades []⟩]
        let r := a.run Sink.memory [] (Arrival.ofDocuments ds)
        r.result = .ok () ∧ r.sink = (Sink.memory.flush (Sink.memory.writeAll [] (recordsOf a.interval start ds))).1 ∧
          (recordsOf a.interval start ds).map Record.kind = [.book, .trades] ∧
          r.aggregator.book = start.afterDocuments ds ∧ (start.afterDocuments ds).batchesApplied = 1 := by
  have hone := Decimal.number_one_pos
  obtain ⟨a, start, ha, hs, -, h, -⟩ := run_writes_records Sink.memory_reliable (show 0 < 2 by decide) hone
  refine ⟨Sink.memory_reliable, by decide, hone, a, start, ha, hs, (h _ _).1, (h _ _).2.2.1, ?_, (h _ _).2.2.2, ?_⟩
  · cases ha
    cases hs
    decide +kernel
  · cases hs
    decide

end Aggregator
end MarketMinutes
