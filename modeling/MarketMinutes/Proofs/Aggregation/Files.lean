import MarketMinutes.Proofs.Aggregation.Arrivals
import MarketMinutes.Proofs.Aggregation.Replay
import MarketMinutes.Proofs.Storage.History
import MarketMinutes.Proofs.Window.Unsigned

/-!
# Runs from file to file

Documents put down line by line are read again, less the signs of their
zeros, and a run makes nothing of these. So a run over the file ends as the run
over the documents does, and what it stores are the records of that run.
-/

namespace MarketMinutes

/-! ## Documents as lines -/

def Document.line (d : Document) : Bytes :=
  Bytes.ofText d.toJson.render

/-- Documents with an end of line between them, and one behind the last if it is to be ended. -/
def Document.joined (ds : List Document) (ended : Bool) : Bytes :=
  [Bytes.newline].intercalate (ds.map line) ++ if ended then [Bytes.newline] else []

theorem Arrival.ofLines_documents (counted : Nat) (ds : List Document) :
    ofLines counted (ds.map Document.line) = ofDocuments (ds.map Document.unsigned) := by
  induction ds generalizing counted with
  | nil => rfl
  | cons d ds ih =>
    have hline : LineContent.ofLine Document.parse? d.line = .value d.unsigned :=
      Json.ofLine_render (d.fits_toJson 0).proper d.parse?_render
    simp only [List.map_cons, ofLines, hline, ih]
    rfl

theorem LineFeed.arrivals_joined (ds : List Document) (ended : Bool) :
    (ofBytes (Document.joined ds ended)).arrivals = Arrival.ofDocuments (ds.map Document.unsigned) := by
  rw [arrivals_ofBytes]
  by_cases hds : ds = []
  · subst hds
    -- Without documents there is at most one line, and it is blank.
    cases ended with
    | false =>
      have hjoined : Document.joined [] false = [] := rfl
      rw [hjoined, Bytes.lines_nil]
      rfl
    | true =>
      have hjoined : Document.joined [] true = [] ++ Bytes.newline :: [] := rfl
      rw [hjoined, Bytes.lines_append List.not_mem_nil, Bytes.lines_nil]
      rfl
  · have hlines : (Document.joined ds ended).lines = ds.map Document.line := by
      refine Bytes.lines_intercalate hds (fun d _ => ?_) ended
      have hd := (d.fits_toJson 0).proper
      exact ⟨Json.ofText_render_ne_nil hd, Json.newline_not_mem_render hd, Json.carriageReturn_not_mem_render hd⟩
    rw [hlines, Arrival.ofLines_documents]

/-! ## Runs and the sign of a zero -/

namespace Document

theorem unsigned_of_book {d : Document} {updates : List Update} (h : d.payload = .book updates) : d.unsigned = d := by
  obtain ⟨minute, symbol, payload⟩ := d
  cases h
  rfl

@[simp] theorem kind_unsigned (d : Document) : d.unsigned.kind = d.kind := by
  obtain ⟨minute, symbol, payload⟩ := d
  cases payload <;> rfl

@[simp] theorem call?_unsigned (d : Document) : d.unsigned.call? = d.call? := by
  obtain ⟨minute, symbol, payload⟩ := d
  cases payload <;> rfl

theorem outcome_unsigned (interval : Interval) (b : Book) (d : Document) :
    (d.unsigned.outcome interval b).map Record.unsigned = (d.outcome interval b).map Record.unsigned := by
  cases hp : d.payload with
  | quotes quotes =>
    have hp' : d.unsigned.payload = .quotes (quotes.map Quote.unsigned) := by rw [unsigned, hp]; rfl
    simp only [outcome, hp, hp', QuoteWindow.ofQuotes_unsigned]
    rcases QuoteWindow.ofQuotes quotes with e | (_ | w)
    · rfl
    · rfl
    · simp [Except.map, unsigned, Record.unsigned, QuoteWindow.unsigned]
  | trades trades =>
    have hp' : d.unsigned.payload = .trades (trades.map Trade.unsigned) := by rw [unsigned, hp]; rfl
    simp only [outcome, hp, hp', TradeWindow.ofTrades_unsigned]
    cases TradeWindow.ofTrades trades with
    | error e => rfl
    | ok w => cases hc : w.candle <;> simp [Except.map, unsigned, Record.unsigned, TradeWindow.unsigned, hc]
  | book updates => rw [unsigned_of_book hp]

end Document

theorem Book.afterDocuments_unsigned (b : Book) (d : Document) :
    b.afterDocuments [d.unsigned] = b.afterDocuments [d] := by
  simp only [afterDocuments, List.filterMap_cons, List.filterMap_nil, Document.call?_unsigned]

theorem recordsOf_unsigned (interval : Interval) (b : Book) (ds : List Document) :
    (recordsOf interval b (ds.map Document.unsigned)).map Record.unsigned =
      (recordsOf interval b ds).map Record.unsigned := by
  induction ds generalizing b with
  | nil => rfl
  | cons d ds ih =>
    have hmap : ∀ o : Except Skip Record,
        o.toOption.toList.map Record.unsigned = (o.map Record.unsigned).toOption.toList := fun o => by
      cases o <;> rfl
    rw [List.map_cons, recordsOf_cons, recordsOf_cons, List.map_append, List.map_append, Book.afterDocuments_unsigned,
      ih, hmap, hmap, Document.outcome_unsigned]

namespace Aggregator

theorem passed_unsigned (a : Aggregator) (d : Document) : a.passed d.unsigned = a.passed d := by
  have hcounted : a.counted d.unsigned = a.counted d := by
    rw [counted, counted, Book.afterDocuments_unsigned, Document.kind_unsigned]
  have ho := d.outcome_unsigned a.interval (a.book.afterDocuments [d])
  unfold passed
  rw [Book.afterDocuments_unsigned, hcounted]
  generalize d.unsigned.outcome a.interval (a.book.afterDocuments [d]) = read at ho ⊢
  generalize d.outcome a.interval (a.book.afterDocuments [d]) = given at ho ⊢
  -- Either both have a record, or both have none for the same reason.
  cases read with
  | error reason =>
    cases given with
    | error reason' => rw [Except.error.inj ho]
    | ok record' => cases ho
  | ok record =>
    cases given with
    | error reason' => cases ho
    | ok record' => rfl

theorem foldl_passed_unsigned (a : Aggregator) (ds : List Document) :
    (ds.map Document.unsigned).foldl passed a = ds.foldl passed a := by
  rw [List.foldl_map]
  exact congrArg (List.foldl · a ds) (funext fun a => funext fun d => passed_unsigned a d)

end Aggregator

/-! ## Runs into a store -/

theorem Sink.store_reliable : Sink.store.Reliable :=
  ⟨fun _ _ => rfl, fun _ => rfl⟩

/-- What a store was opened for anew, written to, flushed and closed, is loaded again. -/
theorem Collection.Writable.load_of_run {t : FileTree} {directory collection : String} {place : Kind → Location}
    (h : Writable t directory collection place) {drop : Bool}
    (hfresh : drop = true ∨ ∀ kind, t.lookup? (path directory collection kind) = none) :
    ∃ ts, Store.open t directory collection drop = (ts.1, .ok ts.2) ∧ ∀ records,
      let ts' := (Sink.store.flush (Sink.store.writeAll ts records)).1
      load (ts'.2.close ts'.1) directory collection = .ok (Session.loaded records) := by
  obtain ⟨store, hopen, -, hleft⟩ := h.close_of_writes drop
  refine ⟨(_, store), hopen, fun records => ?_⟩
  have hclose := (hleft records).2
  simp only [h.opening_eq_nil hfresh, List.nil_append] at hclose
  exact (congrArg (load · directory collection) hclose).trans (Session.load_putKinds h records)

namespace Aggregator

/-- A run over documents put down in a file reads the documents again, less the signs of their zeros, which keep
their number and scale. Into any sink that refuses nothing it ends as the run over the documents at hand, with all
its counters and the book; and a store that was opened anew comes to hold the records of that run, kind after kind,
each kind in the order of the run. -/
theorem run_from_file {depth : Nat} (hd : 0 < depth) {interval : Decimal} (hi : 0 < interval.number) :
    (∀ d : Decimal, d.unsigned.number = d.number ∧ d.unsigned.scale = d.scale) ∧
    ∃ a, Aggregator.new depth interval = .ok a ∧ ∀ (ds : List Document) (ended : Bool),
      let arrivals := (LineFeed.ofBytes (Document.joined ds ended)).arrivals
      let memory := a.run Sink.memory [] (Arrival.ofDocuments ds)
      arrivals = Arrival.ofDocuments (ds.map Document.unsigned) ∧ memory.result = .ok () ∧
      (∀ {σ ε : Type} (sink : Sink σ ε) (s : σ), sink.Reliable →
        let run := a.run sink s arrivals
        run.result = .ok () ∧ run.rest = [] ∧ run.aggregator = memory.aggregator) ∧
      ∀ {t : FileTree} {directory collection : String} {place : Kind → Location},
        Collection.Writable t directory collection place → ∀ drop : Bool,
        (drop = true ∨ ∀ kind, t.lookup? (Collection.path directory collection kind) = none) →
        ∃ ts, Store.open t directory collection drop = (ts.1, .ok ts.2) ∧
          let run := a.run Sink.store ts arrivals
          run.result = .ok () ∧ run.aggregator = memory.aggregator ∧
          Collection.load (run.sink.2.close run.sink.1) directory collection = .ok (Session.loaded memory.sink) := by
  obtain ⟨a, ha, -⟩ := new_of_valid hd hi
  refine ⟨fun d => ⟨d.number_unsigned, rfl⟩, a, ha, fun ds ended => ?_⟩
  rw [LineFeed.arrivals_joined, run_eq Sink.memory_reliable]
  refine ⟨rfl, rfl, fun sink s hs => ?_, fun h drop hfresh => ?_⟩
  · rw [run_eq hs, foldl_passed_unsigned]
    exact ⟨rfl, rfl, rfl⟩
  · obtain ⟨ts, hopen, hload⟩ := h.load_of_run hfresh
    refine ⟨ts, hopen, ?_⟩
    rw [run_eq Sink.store_reliable, foldl_passed_unsigned]
    have hmemory := Sink.writeAll_memory [] (recordsOf a.interval a.book ds)
    rw [List.nil_append] at hmemory
    refine ⟨rfl, rfl, (hload _).trans ?_⟩
    simp only [Sink.memory] at hmemory ⊢
    rw [hmemory, Session.loaded_congr (recordsOf_unsigned ..)]

/-- A window without quotes, and a trade at a zero that has a sign. -/
theorem run_from_file_with_signed_zero :
    0 < 1 ∧ 0 < Decimal.one.number ∧
      Collection.Writable Session.emptyDirectory "d" "c" Session.placeIn ∧
      (∀ kind, Session.emptyDirectory.lookup? (Collection.path "d" "c" kind) = none) ∧
      let price : Decimal := ⟨true, 0, 1, by decide, by decide⟩
      let ds : List Document := [⟨1, none, .quotes []⟩, ⟨2, none, .trades [⟨price, .zero, true⟩]⟩]
      ∃ a ts, Aggregator.new 1 .one = .ok a ∧
        Store.open Session.emptyDirectory "d" "c" false = (ts.1, .ok ts.2) ∧
        let run := a.run Sink.store ts (LineFeed.ofBytes (Document.joined ds true)).arrivals
        run.result = .ok () ∧ run.aggregator.stats.emptyWindows = 1 ∧ run.aggregator.stats.recordsWritten = 1 ∧
        Collection.load (run.sink.2.close run.sink.1) "d" "c" =
          .ok [.trades ⟨2, none, .zero, .zero, none, none, some (.ofPrice price.unsigned), 1⟩] := by
  refine ⟨by decide, Decimal.number_one_pos, Session.emptyDirectory_writable, Session.emptyDirectory_fresh, ?_⟩
  intro price ds
  obtain ⟨-, a, ha, h⟩ := run_from_file (show 0 < 1 by decide) Decimal.number_one_pos
  obtain ⟨-, -, -, hstore⟩ := h ds true
  obtain ⟨ts, hopen, hresult, haggregator, hload⟩ :=
    hstore Session.emptyDirectory_writable false (.inr Session.emptyDirectory_fresh)
  refine ⟨a, ts, ha, hopen, hresult, ?_, ?_, hload.trans ?_⟩
  · rw [haggregator]
    cases ha
    rfl
  · rw [haggregator]
    cases ha
    rfl
  · cases ha
    rfl

end Aggregator
end MarketMinutes
