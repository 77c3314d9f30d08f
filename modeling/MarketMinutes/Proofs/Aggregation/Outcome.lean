import MarketMinutes.Aggregation
import MarketMinutes.Proofs.Book.Calls

/-!
# What a document comes to

The outcome of a document is a function of the document and of the book with
its updates in it. To take a document is to make that book one's own and to
count the outcome; no error of a window gets past that.
-/

namespace MarketMinutes

namespace Document

def call? (d : Document) : Option Call :=
  match d.payload with
  | .book updates => some (.updates updates)
  | _ => none

/-- The record of a document or why it has none, from the book with the document's updates in it. -/
def outcome (interval : Interval) (b : Book) (d : Document) : Except Skip Record :=
  match d.payload with
  | .quotes quotes =>
    match QuoteWindow.ofQuotes quotes with
    | .error _ => .error .overflow
    | .ok none => .error .noQuotes
    | .ok (some w) => .ok (.quotes ⟨d.minute, d.symbol, w.bid, w.ask, w.mid⟩)
  | .trades trades =>
    match TradeWindow.ofTrades trades with
    | .error _ => .error .overflow
    | .ok w =>
      .ok (.trades ⟨d.minute, d.symbol, w.sellVolume, w.buyVolume, w.sellPrice, w.buyPrice, w.candle,
        UInt64.ofNat w.tradeCount⟩)
  | .book updates =>
    match checkUpdates updates, Profile.ofBook interval b with
    | .error _, _ => .error .rejectedBatch
    | .ok _, .error (.emptySide _) => .error .emptySide
    | .ok _, .error (.overflow _) => .error .overflow
    | .ok _, .ok p => .ok (.book ⟨d.minute, d.symbol, p.bids, p.asks, (Snapshot.ofBook b).checksum⟩)

/-- What goes wrong in the window of a document, from the book with the document's updates in it. -/
def error? (interval : Interval) (b : Book) (d : Document) : Option BookError :=
  match d.payload with
  | .quotes quotes =>
    match QuoteWindow.ofQuotes quotes with
    | .error e => some (.overflow e)
    | .ok _ => none
  | .trades trades =>
    match TradeWindow.ofTrades trades with
    | .error e => some (.overflow e)
    | .ok _ => none
  | .book updates =>
    match checkUpdates updates, Profile.ofBook interval b with
    | .error r, _ => some (.rejected r)
    | .ok _, .error e => some (.ofProfile e)
    | .ok _, .ok _ => none

end Document

def Book.afterDocuments (b : Book) (ds : List Document) : Book :=
  b.after (ds.filterMap Document.call?)

/-- The reason that an error of a window counts for. -/
def Skip.ofError? : BookError → Option Skip
  | .rejected _ => some rejectedBatch
  | .emptySide _ => some emptySide
  | .overflow _ => some overflow
  | .setup _ => none

/-- An error of a window is the outcome of its document, under one reason. -/
theorem Document.outcome_of_error {interval : Interval} {b : Book} {d : Document} {e : BookError}
    (h : d.error? interval b = some e) :
    ∃ reason, Skip.ofError? e = some reason ∧ d.outcome interval b = .error reason := by
  unfold error? at h
  unfold outcome
  cases hp : d.payload with
  | quotes quotes =>
    simp only [hp] at h ⊢
    split at h
    next he =>
      cases h
      exact ⟨.overflow, rfl, by simp [he]⟩
    · cases h
  | trades trades =>
    simp only [hp] at h ⊢
    cases hw : TradeWindow.ofTrades trades with
    | error e' =>
      simp only [hw, Option.some.injEq] at h
      exact ⟨.overflow, h ▸ rfl, rfl⟩
    | ok w => simp [hw] at h
  | book updates =>
    simp only [hp] at h ⊢
    split at h
    next hc =>
      cases h
      exact ⟨.rejectedBatch, rfl, by simp [hc]⟩
    next e' hc he =>
      cases h
      cases e' with
      | emptySide s => exact ⟨.emptySide, rfl, by simp [hc, he]⟩
      | overflow o => exact ⟨.overflow, rfl, by simp [hc, he]⟩
    · cases h

namespace Book

theorem afterDocuments_append (b : Book) (xs ys : List Document) :
    b.afterDocuments (xs ++ ys) = (b.afterDocuments xs).afterDocuments ys := by
  simp only [afterDocuments, after, List.filterMap_append, List.foldl_append]

theorem afterDocuments_cons (b : Book) (d : Document) (ds : List Document) :
    b.afterDocuments (d :: ds) = (b.afterDocuments [d]).afterDocuments ds :=
  afterDocuments_append b [d] ds

theorem afterDocuments_singleton {b : Book} {d : Document} {call : Call} (h : d.call? = some call) :
    b.afterDocuments [d] = (b.receive call).1 := by
  simp [afterDocuments, after, h]

theorem afterDocuments_of_no_call {b : Book} {d : Document} (h : d.call? = none) :
    b.afterDocuments [d] = b := by
  simp [afterDocuments, after, h]

end Book

namespace Aggregator

/-- The aggregator with a document counted and the book it leaves. -/
def counted (a : Aggregator) (d : Document) : Aggregator :=
  { a with book := a.book.afterDocuments [d], stats := a.stats.countDocument d.kind }

/-- A document taken by its outcome: with its record, or counted by the reason that it has none. -/
def settled (a : Aggregator) (d : Document) : Aggregator × Option Record :=
  match d.outcome a.interval (a.book.afterDocuments [d]) with
  | .ok record => (a.counted d, some record)
  | .error reason => ((a.counted d).skip reason, none)

theorem take_eq (a : Aggregator) (d : Document) : a.take d = ((a.settled d).1, .ok (a.settled d).2) := by
  cases h : d.payload with
  | quotes quotes =>
    have hb : a.book.afterDocuments [d] = a.book :=
      Book.afterDocuments_of_no_call (by simp [Document.call?, h])
    simp only [take, reduce, settled, Document.outcome, Record.ofQuotes, counted, h, hb]
    cases QuoteWindow.ofQuotes quotes with
    | error e => rfl
    | ok w => cases w <;> rfl
  | trades trades =>
    have hb : a.book.afterDocuments [d] = a.book :=
      Book.afterDocuments_of_no_call (by simp [Document.call?, h])
    simp only [take, reduce, settled, Document.outcome, Record.ofTrades, counted, h, hb]
    cases TradeWindow.ofTrades trades <;> rfl
  | book updates =>
    have hb : a.book.afterDocuments [d] = (a.book.receive (.updates updates)).1 :=
      Book.afterDocuments_singleton (by simp [Document.call?, h])
    simp only [take, reduce, reduceUpdates, settled, Document.outcome, Record.ofBook, counted, h, hb]
    cases hc : checkUpdates updates with
    | error r =>
      rw [Book.takeUpdates_of_error hc, Book.receive_updates_of_error hc]
      rfl
    | ok changes =>
      rw [Book.takeUpdates_of_ok hc, Book.receive_updates_of_ok hc]
      simp only [Except.mapError]
      cases Profile.ofBook a.interval (a.book.applyChanges changes) with
      | error e => cases e <;> rfl
      | ok p => rfl

/-! ## One arrival more -/

variable {sink : Sink σ ε} {a a' : Aggregator} {s s' : σ} {arrival : Arrival}

theorem run_cons_of_ok (h : a.step sink s arrival = (a', s', .ok ())) (arrivals : List Arrival) :
    a.run sink s (arrival :: arrivals) = a'.run sink s' arrivals := by
  rw [run, h]

theorem run_cons_of_error {e : RunError ε} (h : a.step sink s arrival = (a', s', .error e))
    (arrivals : List Arrival) : a.run sink s (arrival :: arrivals) = ⟨a', s', arrivals, .error e⟩ := by
  rw [run, h]

end Aggregator
end MarketMinutes
