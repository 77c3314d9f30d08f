import MarketMinutes.Proofs.Aggregation.Arrivals
import MarketMinutes.Proofs.Aggregation.Replay
import MarketMinutes.RefusingSink

/-!
# Runs that go on after a failure

A run that fails has taken the arrival it failed on. So the runs of a feed
together take every arrival once: each bad line ends one run and changes
nothing, and each refused write ends one run and loses its own record alone.
-/

namespace MarketMinutes

/-- The sink that refuses the writes of these numbers, counted from one, and no flush. -/
def RefusingSink.choosy (refused : Nat → Bool) : Sink RefusingSink String where
  write s r :=
    let s := { s with attempts := s.attempts + 1 }
    if refused s.attempts then (s, .error writeRefused)
    else ({ s with records := s.records ++ [r] }, .ok ())
  flush s := ({ s with flushes := s.flushes + 1 }, .ok ())

/-- To refuse one write is to be choosy about its number alone. -/
theorem RefusingSink.sink_eq_choosy (n : Nat) : sink (some n) false = choosy (n == ·) := by
  simp [sink, choosy]

namespace Aggregator

theorem runs_cons_of_ok {sink : Sink σ ε} {a a' : Aggregator} {s s' : σ} {arrival : Arrival}
    (h : a.step sink s arrival = (a', s', .ok ())) (n : Nat) (arrivals : List Arrival) :
    a.runs sink (n + 1) s (arrival :: arrivals) = a'.runs sink (n + 1) s' arrivals := by
  simp only [runs, run_cons_of_ok h]

theorem runs_cons_of_error {sink : Sink σ ε} {a a' : Aggregator} {s s' : σ} {arrival : Arrival} {e : RunError ε}
    (h : a.step sink s arrival = (a', s', .error e)) (n : Nat) (arrivals : List Arrival) :
    a.runs sink (n + 1) s (arrival :: arrivals) = ⟨a', s', arrivals, .error e⟩ :: a'.runs sink n s' arrivals := by
  simp only [runs, run_cons_of_error h]

/-! ## Bad lines -/

/-- Each failure of the feed ends one run, and the run after the last of them ends as if there had been none. -/
theorem runs_of_failures {sink : Sink σ ε} (hs : sink.Reliable) (a : Aggregator) (s : σ) (arrivals : List Arrival) :
    ∃ failed, a.runs sink ((Arrival.failures arrivals).length + 1) s arrivals =
        failed ++ [a.run sink s (Arrival.ofDocuments (Arrival.documents arrivals))] ∧
      failed.map Run.result = (Arrival.failures arrivals).map fun e => .error (.feed e) := by
  induction arrivals generalizing a s with
  | nil => exact ⟨[], rfl, rfl⟩
  | cons arrival arrivals ih =>
    cases arrival with
    | error e =>
      obtain ⟨failed, hruns, hresults⟩ := ih a s
      refine ⟨⟨a, s, arrivals, .error (.feed e)⟩ :: failed, ?_, ?_⟩
      · rw [Arrival.failures_error, List.length_cons, runs_cons_of_error (show a.step sink s (.error e) = _ from rfl),
          hruns, Arrival.documents_error, List.cons_append]
      · rw [List.map_cons, hresults, Arrival.failures_error, List.map_cons]
    | ok d =>
      have hstep := step_document hs a s d
      obtain ⟨failed, hruns, hresults⟩ := ih (a.passed d) _
      refine ⟨failed, ?_, hresults⟩
      have hrun : a.run sink s (Arrival.ofDocuments (d :: Arrival.documents arrivals)) = _ :=
        run_cons_of_ok hstep (Arrival.ofDocuments (Arrival.documents arrivals))
      rw [Arrival.failures_ok, runs_cons_of_ok hstep, hruns, Arrival.documents_ok, hrun]

/-! ## Refused writes -/

/-- How many of the next records a choosy sink will refuse. -/
def refusals (refused : Nat → Bool) (attempts : Nat) (records : List Record) : Nat :=
  (records.zipIdx (attempts + 1)).countP (refused ·.2)

/-- The records among the next that a choosy sink will take. -/
def accepted (refused : Nat → Bool) (attempts : Nat) (records : List Record) : List Record :=
  ((records.zipIdx (attempts + 1)).filter (!refused ·.2)).map (·.1)

theorem refusals_cons (refused : Nat → Bool) (attempts : Nat) (record : Record) (records : List Record) :
    refusals refused attempts (record :: records) =
      refusals refused (attempts + 1) records + if refused (attempts + 1) then 1 else 0 := by
  simp only [refusals, List.zipIdx_cons, List.countP_cons]

theorem accepted_cons (refused : Nat → Bool) (attempts : Nat) (record : Record) (records : List Record) :
    accepted refused attempts (record :: records) =
      (if refused (attempts + 1) then [] else [record]) ++ accepted refused (attempts + 1) records := by
  simp only [accepted, List.zipIdx_cons, List.filter_cons]
  cases refused (attempts + 1) <;> rfl

theorem documentsRead_counted (a : Aggregator) (d : Document) :
    (a.counted d).stats.documentsRead = a.stats.documentsRead + 1 := by
  simp only [counted, Stats.countDocument]
  cases d.kind <;> rfl

theorem documentsRead_skip (a : Aggregator) (reason : Skip) :
    (a.skip reason).stats.documentsRead = a.stats.documentsRead := by
  cases reason <;> rfl

/-- What runs into a choosy sink come to: every run but the last has failed on a refused write, and the last has
taken what was left. -/
structure Survived (refused : Nat → Bool) (a : Aggregator) (s : RefusingSink) (ds : List Document)
    (failed : List (Run RefusingSink String)) (last : Run RefusingSink String) : Prop where
  runs : failed.length = refusals refused s.attempts (recordsOf a.interval a.book ds)
  failed_result : ∀ r ∈ failed, r.result = .error (.sink RefusingSink.writeRefused)
  last_result : last.result = .ok ()
  last_rest : last.rest = []
  records : last.sink.records = s.records ++ accepted refused s.attempts (recordsOf a.interval a.book ds)
  attempts : last.sink.attempts = s.attempts + (recordsOf a.interval a.book ds).length
  book : last.aggregator.book = a.book.afterDocuments ds
  documents : ∀ r ∈ failed ++ [last],
    r.aggregator.stats.documentsRead + r.rest.length = a.stats.documentsRead + ds.length

namespace Survived

variable {refused : Nat → Bool} {a : Aggregator} {s : RefusingSink} {d : Document} {ds : List Document}
  {failed : List (Run RefusingSink String)} {last : Run RefusingSink String}

theorem recordsOf_of_error {reason : Skip} (ho : d.outcome a.interval (a.book.afterDocuments [d]) = .error reason) :
    recordsOf a.interval a.book (d :: ds) = recordsOf a.interval (a.book.afterDocuments [d]) ds := by
  rw [recordsOf_cons, ho]
  rfl

theorem recordsOf_of_ok {record : Record} (ho : d.outcome a.interval (a.book.afterDocuments [d]) = .ok record) :
    recordsOf a.interval a.book (d :: ds) = record :: recordsOf a.interval (a.book.afterDocuments [d]) ds := by
  rw [recordsOf_cons, ho]
  rfl

theorem nil (refused : Nat → Bool) (a : Aggregator) (s : RefusingSink) :
    Survived refused a s [] [] (a.run (RefusingSink.choosy refused) s []) where
  runs := rfl
  failed_result := fun r hr => nomatch hr
  last_result := rfl
  last_rest := rfl
  records := (List.append_nil _).symm
  attempts := rfl
  book := rfl
  documents := fun r hr => by
    cases List.mem_singleton.mp hr
    rfl

theorem skip {reason : Skip} (ho : d.outcome a.interval (a.book.afterDocuments [d]) = .error reason)
    (h : Survived refused ((a.counted d).skip reason) s ds failed last) : Survived refused a s (d :: ds) failed last where
  runs := recordsOf_of_error ho ▸ h.runs
  failed_result := h.failed_result
  last_result := h.last_result
  last_rest := h.last_rest
  records := recordsOf_of_error ho ▸ h.records
  attempts := recordsOf_of_error ho ▸ h.attempts
  book := by rw [h.book, Book.afterDocuments_cons a.book d ds]; rfl
  documents := fun r hr => by
    rw [h.documents r hr, documentsRead_skip, documentsRead_counted, List.length_cons]
    omega

/-- A record refused is one failed run more, in which its document has been read. -/
theorem refuse {record : Record} (ho : d.outcome a.interval (a.book.afterDocuments [d]) = .ok record)
    (hr : refused (s.attempts + 1) = true)
    (h : Survived refused (a.counted d) { s with attempts := s.attempts + 1 } ds failed last) :
    Survived refused a s (d :: ds)
      (⟨a.counted d, { s with attempts := s.attempts + 1 }, Arrival.ofDocuments ds,
        .error (.sink RefusingSink.writeRefused)⟩ :: failed) last where
  runs := by
    rw [recordsOf_of_ok ho, refusals_cons, if_pos hr, List.length_cons, h.runs]
    rfl
  failed_result := List.forall_mem_cons.mpr ⟨rfl, h.failed_result⟩
  last_result := h.last_result
  last_rest := h.last_rest
  records := by
    rw [h.records, recordsOf_of_ok ho, accepted_cons, if_pos hr]
    rfl
  attempts := by
    rw [h.attempts, recordsOf_of_ok ho, List.length_cons]
    simp only [counted]
    omega
  book := by rw [h.book, Book.afterDocuments_cons a.book d ds]; rfl
  documents := by
    have hread := documentsRead_counted a d
    refine List.forall_mem_cons.mpr ⟨?_, fun r hr => ?_⟩
    · simp only [Arrival.ofDocuments, List.length_map, List.length_cons]
      omega
    · rw [h.documents r hr, hread, List.length_cons]
      omega

theorem accept {record : Record} (ho : d.outcome a.interval (a.book.afterDocuments [d]) = .ok record)
    (hr : refused (s.attempts + 1) = false)
    (h : Survived refused { a.counted d with stats := (a.counted d).stats.countWrite }
      { s with records := s.records ++ [record], attempts := s.attempts + 1 } ds failed last) :
    Survived refused a s (d :: ds) failed last where
  runs := by
    rw [recordsOf_of_ok ho, refusals_cons, if_neg (Bool.eq_false_iff.mp hr), h.runs]
    rfl
  failed_result := h.failed_result
  last_result := h.last_result
  last_rest := h.last_rest
  records := by
    rw [h.records, recordsOf_of_ok ho, accepted_cons, if_neg (Bool.eq_false_iff.mp hr), ← List.append_assoc]
    rfl
  attempts := by
    rw [h.attempts, recordsOf_of_ok ho, List.length_cons]
    simp only [counted]
    omega
  book := by rw [h.book, Book.afterDocuments_cons a.book d ds]; rfl
  documents := fun r hr => by
    rw [h.documents r hr, List.length_cons, Stats.countWrite, documentsRead_counted]
    omega

end Survived

theorem runs_of_refusals (refused : Nat → Bool) (a : Aggregator) (s : RefusingSink) (ds : List Document) :
    ∃ failed last, a.runs (RefusingSink.choosy refused)
        (refusals refused s.attempts (recordsOf a.interval a.book ds) + 1) s (Arrival.ofDocuments ds) =
          failed ++ [last] ∧
      Survived refused a s ds failed last := by
  -- With the runs that failed counted, and not the refusals to come, each step adds a run or leaves them as they are.
  suffices h : ∃ failed last, a.runs (RefusingSink.choosy refused) (failed.length + 1) s (Arrival.ofDocuments ds) =
      failed ++ [last] ∧ Survived refused a s ds failed last by
    obtain ⟨failed, last, hruns, h⟩ := h
    exact ⟨failed, last, h.runs ▸ hruns, h⟩
  induction ds generalizing a s with
  | nil => exact ⟨[], _, rfl, .nil refused a s⟩
  | cons d ds ih =>
    cases ho : d.outcome a.interval (a.book.afterDocuments [d]) with
    | error reason =>
      have hstep : a.step (RefusingSink.choosy refused) s (.ok d) = ((a.counted d).skip reason, s, .ok ()) := by
        simp only [step, take_eq, settled, ho]
      obtain ⟨failed, last, hruns, h⟩ := ih ((a.counted d).skip reason) s
      exact ⟨failed, last, (runs_cons_of_ok hstep _ _).trans hruns, h.skip ho⟩
    | ok record =>
      cases hr : refused (s.attempts + 1) with
      | true =>
        have hstep : a.step (RefusingSink.choosy refused) s (.ok d) =
            (a.counted d, { s with attempts := s.attempts + 1 }, .error (.sink RefusingSink.writeRefused)) := by
          simp [step, take_eq, settled, ho, RefusingSink.choosy, hr]
        obtain ⟨failed, last, hruns, h⟩ := ih (a.counted d) { s with attempts := s.attempts + 1 }
        refine ⟨_, last, ?_, h.refuse ho hr⟩
        exact (runs_cons_of_error hstep _ _).trans (congrArg _ hruns)
      | false =>
        have hstep : a.step (RefusingSink.choosy refused) s (.ok d) =
            ({ a.counted d with stats := (a.counted d).stats.countWrite },
              { s with records := s.records ++ [record], attempts := s.attempts + 1 }, .ok ()) := by
          simp [step, take_eq, settled, ho, RefusingSink.choosy, hr]
        obtain ⟨failed, last, hruns, h⟩ := ih { a.counted d with stats := (a.counted d).stats.countWrite }
          { s with records := s.records ++ [record], attempts := s.attempts + 1 }
        exact ⟨failed, last, (runs_cons_of_ok hstep _ _).trans hruns, h.accept ho hr⟩

/-! ## All runs of a feed -/

/-- Runs in a row over any bytes. With a reliable sink, each bad line is the failure of one run and the run after
them is the one run over the bytes without them. Without bad lines, each write that the sink refuses is the failure
of one run; the last run leaves the records of the run without refusals but for those refused, and every document
is read once. -/
theorem runs_resume {depth : Nat} (hd : 0 < depth) {interval : Decimal} (hi : 0 < interval.number) :
    ∃ a, Aggregator.new depth interval = .ok a ∧ ∀ bytes : Bytes,
      (∀ {σ ε : Type} (sink : Sink σ ε) (s : σ), sink.Reliable →
        let clean := a.run sink s (LineFeed.ofBytes (bytes.withoutLines Document.badLine)).arrivals
        clean.result = .ok () ∧ ∃ failed,
          a.runs sink (bytes.lines.countP Document.badLine + 1) s (LineFeed.ofBytes bytes).arrivals =
            failed ++ [clean] ∧
          failed.length = bytes.lines.countP Document.badLine ∧
          ∀ r ∈ failed, ∃ e, r.result = .error (.feed e)) ∧
      ((∀ line ∈ bytes.lines, Document.badLine line = false) → ∀ refused : Nat → Bool,
        let arrivals := (LineFeed.ofBytes bytes).arrivals
        let clean := a.run Sink.memory [] arrivals
        ∃ failed last,
          a.runs (RefusingSink.choosy refused) ((clean.sink.zipIdx 1).countP (refused ·.2) + 1) .empty arrivals =
            failed ++ [last] ∧
          failed.length = (clean.sink.zipIdx 1).countP (refused ·.2) ∧
          (∀ r ∈ failed, r.result = .error (.sink RefusingSink.writeRefused)) ∧
          last.result = .ok () ∧ last.rest = [] ∧
          last.sink.records = ((clean.sink.zipIdx 1).filter (!refused ·.2)).map (·.1) ∧
          last.sink.attempts = clean.sink.length ∧
          last.aggregator.book = clean.aggregator.book ∧
          ∀ r ∈ failed ++ [last], r.aggregator.stats.documentsRead + r.rest.length = arrivals.length) := by
  obtain ⟨a, ha, hbook, -, hstats⟩ := new_of_valid hd hi
  refine ⟨a, ha, fun bytes => ⟨fun {σ ε} sink s hs => ?_, fun hgood refused => ?_⟩⟩
  · have hcount : (Arrival.failures (LineFeed.ofBytes bytes).arrivals).length = bytes.lines.countP Document.badLine := by
      rw [LineFeed.arrivals_ofBytes]
      exact Arrival.length_failures_ofLines ..
    obtain ⟨failed, hruns, hresults⟩ := runs_of_failures hs a s (LineFeed.ofBytes bytes).arrivals
    rw [LineFeed.arrivals_withoutLines]
    refine ⟨(run_documents hs a s _).1, failed, hcount ▸ hruns, ?_, fun r hr => ?_⟩
    · rw [← hcount, ← List.length_map Run.result, hresults, List.length_map]
    · have hmem : r.result ∈ failed.map Run.result := List.mem_map_of_mem hr
      rw [hresults] at hmem
      obtain ⟨e, -, he⟩ := List.mem_map.mp hmem
      exact ⟨e, he.symm⟩
  · have harrivals := LineFeed.arrivals_of_no_badLine hgood
    generalize Arrival.documents (LineFeed.ofBytes bytes).arrivals = ds at harrivals
    obtain ⟨-, -, hsink, hbooks⟩ := run_documents Sink.memory_reliable a [] ds
    have hrecords : (a.run Sink.memory [] (Arrival.ofDocuments ds)).sink = recordsOf a.interval a.book ds :=
      hsink.trans (Sink.writeAll_memory [] _)
    obtain ⟨failed, last, hruns, h⟩ := runs_of_refusals refused a .empty ds
    rw [harrivals]
    simp only [hrecords]
    refine ⟨failed, last, hruns, h.runs, h.failed_result, h.last_result, h.last_rest, h.records, ?_,
      h.book.trans hbooks.symm, fun r hr => ?_⟩
    · rw [h.attempts]
      exact Nat.zero_add _
    · rw [h.documents r hr, hstats, Arrival.ofDocuments, List.length_map]
      exact Nat.zero_add _

/-- A bad line before a document, and a refusal of the first of two records. -/
theorem runs_resume_past_failures :
    0 < 1 ∧ 0 < Decimal.one.number ∧ ∃ a, Aggregator.new 1 .one = .ok a ∧
      let line := Bytes.ofText "\x7b\"minute_utc\":1,\"type\":\"TRADE_TICKER\",\"tickers\":[]\x7d"
      (∃ failed last, a.runs Sink.memory 2 [] (LineFeed.ofBytes (0xFF :: Bytes.newline :: line)).arrivals =
          failed ++ [last] ∧ failed.length = 1 ∧ last.result = .ok ()) ∧
      ∃ failed last, a.runs (RefusingSink.sink (some 1) false) 2 .empty
          (LineFeed.ofBytes (line ++ Bytes.newline :: line)).arrivals = failed ++ [last] ∧
        failed.length = 1 ∧ last.result = .ok () ∧ last.sink.records.length = 1 := by
  obtain ⟨a, ha, h⟩ := runs_resume (show 0 < 1 by decide) Decimal.number_one_pos
  refine ⟨by decide, Decimal.number_one_pos, a, ha, ?_⟩
  rw [RefusingSink.sink_eq_choosy]
  intro line
  have hn : Bytes.newline ∉ line := by decide +kernel
  have hvalue : LineContent.ofLine Document.parse? line = .value ⟨1, none, .trades []⟩ := by decide +kernel
  have hgood : Document.badLine line = false := by rw [Document.badLine_eq, hvalue]
  have hlines : Bytes.lines line = [line] := Bytes.lines_of_not_mem (by decide +kernel) hn
  constructor
  · have hbad : Document.badLine [0xFF] = true := by decide +kernel
    have hcut : Bytes.lines (0xFF :: Bytes.newline :: line) = [[0xFF], line] := by
      rw [show (0xFF :: Bytes.newline :: line) = [0xFF] ++ Bytes.newline :: line from rfl,
        Bytes.lines_append (by decide), hlines]
      rfl
    have hcount : (Bytes.lines (0xFF :: Bytes.newline :: line)).countP Document.badLine = 1 := by
      rw [hcut, List.countP_cons_of_pos hbad, List.countP_cons_of_neg (by simp [hgood]), List.countP_nil]
    obtain ⟨hresult, failed, hruns, hlength, -⟩ := (h (0xFF :: Bytes.newline :: line)).1 Sink.memory [] Sink.memory_reliable
    rw [hcount] at hruns hlength
    exact ⟨failed, _, hruns, hlength, hresult⟩
  · have hcut : Bytes.lines (line ++ Bytes.newline :: line) = [line, line] := by
      rw [Bytes.lines_append hn, hlines, Bytes.dropReturn_of_not_mem (by decide +kernel)]
    have hall : ∀ l ∈ Bytes.lines (line ++ Bytes.newline :: line), Document.badLine l = false := by
      rw [hcut]
      exact List.forall_mem_cons.mpr ⟨hgood, List.forall_mem_singleton.mpr hgood⟩
    obtain ⟨failed, last, h⟩ := (h (line ++ Bytes.newline :: line)).2 hall (1 == ·)
    have harrivals : (LineFeed.ofBytes (line ++ Bytes.newline :: line)).arrivals =
        [.ok ⟨1, none, .trades []⟩, .ok ⟨1, none, .trades []⟩] := by
      rw [LineFeed.arrivals_ofBytes, hcut]
      simp only [Arrival.ofLines, hvalue]
    rw [harrivals] at h ⊢
    cases ha
    obtain ⟨hruns, hlength, -, hresult, -, hrecords, -⟩ := h
    refine ⟨failed, last, hruns, hlength.trans rfl, hresult, ?_⟩
    rw [hrecords]
    rfl

end Aggregator
end MarketMinutes
