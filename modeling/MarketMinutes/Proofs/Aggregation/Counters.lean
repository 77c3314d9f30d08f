import MarketMinutes.Proofs.Aggregation.Outcome
import MarketMinutes.RefusingSink

/-!
# The counters of runs

Every document is counted by its kind, and once more by what became of it: a
record taken by the sink, a record refused, or one reason to pass it over. The
balance is kept by every arrival, so it stands after each of any runs in a row,
whatever their feeds and sinks, also after one that these have cut short.
-/

namespace MarketMinutes

/-! ## Sinks that are watched -/

structure Tally where
  accepted : Nat := 0
  refused : Nat := 0

/-- A sink beside which its writes are counted. -/
def Sink.tallied (sink : Sink σ ε) : Sink (σ × Tally) ε where
  write st record :=
    match sink.write st.1 record with
    | (s, .ok ()) => ((s, { st.2 with accepted := st.2.accepted + 1 }), .ok ())
    | (s, .error e) => ((s, { st.2 with refused := st.2.refused + 1 }), .error e)
  flush st := (((sink.flush st.1).1, st.2), (sink.flush st.1).2)

def Run.untallied (r : Run (σ × Tally) ε) : Run σ ε :=
  { r with sink := r.sink.1 }

namespace Aggregator

theorem step_tallied (sink : Sink σ ε) (a : Aggregator) (st : σ × Tally) (arrival : Arrival) :
    a.step sink st.1 arrival =
      ((a.step sink.tallied st arrival).1, (a.step sink.tallied st arrival).2.1.1,
        (a.step sink.tallied st arrival).2.2) := by
  cases arrival with
  | error e => rfl
  | ok d =>
    simp only [step, take_eq]
    cases (a.settled d).2 with
    | none => rfl
    | some record =>
      simp only [Sink.tallied]
      rcases sink.write st.1 record with ⟨s, _ | _⟩ <;> rfl

/-- Counting the writes changes nothing else. -/
theorem run_tallied (sink : Sink σ ε) (a : Aggregator) (st : σ × Tally) (arrivals : List Arrival) :
    (a.run sink.tallied st arrivals).untallied = a.run sink st.1 arrivals := by
  induction arrivals generalizing a st with
  | nil =>
    simp only [run, Sink.tallied]
    rcases sink.flush st.1 with ⟨s, _ | _⟩ <;> rfl
  | cons arrival arrivals ih =>
    have hs := step_tallied sink a st arrival
    rcases h : a.step sink.tallied st arrival with ⟨a', st', e | _⟩ <;> rw [h] at hs
    · rw [run_cons_of_error h, run_cons_of_error hs]
      rfl
    · rw [run_cons_of_ok h, run_cons_of_ok hs]
      exact ih a' st'

/-- Aggregators between runs, each run with a feed and a sink of its own, and how all writes so far went. -/
inductive Reached : Aggregator → Tally → Prop where
  | new {depth : Nat} {interval : Decimal} {a : Aggregator} : Aggregator.new depth interval = .ok a → Reached a {}
  | run {a : Aggregator} {t : Tally} {σ ε : Type} (sink : Sink σ ε) (s : σ) (arrivals : List Arrival) :
    Reached a t →
      Reached (a.run sink.tallied (s, t) arrivals).aggregator (a.run sink.tallied (s, t) arrivals).sink.2

/-- Runs of one feed into one sink, each going on where the one before it ended. -/
theorem Reached.runs {sink : Sink σ ε} {a : Aggregator} {st : σ × Tally} (h : a.Reached st.2) (n : Nat)
    (arrivals : List Arrival) : ∀ r ∈ a.runs sink.tallied n st arrivals, r.aggregator.Reached r.sink.2 := by
  induction n generalizing a st arrivals with
  | zero => exact fun r hr => nomatch hr
  | succ n ih =>
    have hr : (a.run sink.tallied st arrivals).aggregator.Reached (a.run sink.tallied st arrivals).sink.2 :=
      h.run sink st.1 arrivals
    rw [Aggregator.runs]
    exact List.forall_mem_cons.mpr ⟨hr, ih hr _⟩

end Aggregator

/-! ## The balance -/

/-- Each reason belongs to windows of one kind, an overflow to all. -/
def Skip.fits : Skip → Kind → Bool
  | noQuotes, .quotes => true
  | emptySide, .book => true
  | rejectedBatch, .book => true
  | overflow, _ => true
  | _, _ => false

theorem Document.fits_of_outcome {interval : Interval} {b : Book} {d : Document} {reason : Skip}
    (h : d.outcome interval b = .error reason) : reason.fits d.kind = true := by
  unfold outcome at h
  unfold kind
  cases hp : d.payload <;> simp only [hp] at h
  all_goals
    split at h <;> cases h <;> rfl

/-- A book counts the batches of book documents, but for those rejected. -/
theorem Book.batchesApplied_afterDocuments (interval : Interval) (b : Book) (d : Document) :
    (b.afterDocuments [d]).batchesApplied = b.batchesApplied +
      if d.kind = .book ∧ d.outcome interval (b.afterDocuments [d]) ≠ .error .rejectedBatch then 1 else 0 := by
  cases hp : d.payload with
  | quotes quotes =>
    have hk : d.kind = .quotes := by simp [Document.kind, hp, Payload.kind]
    rw [afterDocuments_of_no_call (by simp [Document.call?, hp])]
    simp [hk]
  | trades trades =>
    have hk : d.kind = .trades := by simp [Document.kind, hp, Payload.kind]
    rw [afterDocuments_of_no_call (by simp [Document.call?, hp])]
    simp [hk]
  | book updates =>
    have hk : d.kind = .book := by simp [Document.kind, hp, Payload.kind]
    have hd : d.call? = some (.updates updates) := by simp [Document.call?, hp]
    rw [afterDocuments_singleton hd]
    cases hc : checkUpdates updates with
    | error r =>
      have ho : ∀ b', d.outcome interval b' = .error .rejectedBatch := fun b' => by
        simp [Document.outcome, hp, hc]
      simp [receive_updates_of_error hc, ho]
    | ok changes =>
      have ho : ∀ b', d.outcome interval b' ≠ .error .rejectedBatch := fun b' => by
        simp only [Document.outcome, hp, hc]
        rcases Profile.ofBook interval b' with (_ | _) | _ <;> simp
      have := (makes_applyChanges b changes).batches
      simp [receive_updates_of_ok hc, ho, hk, this]

/-- All documents are accounted for, by their kinds and by what became of them. -/
structure Balanced (a : Aggregator) (t : Tally) : Prop where
  kinds : a.stats.documentsRead = a.stats.quoteWindows + a.stats.tradeWindows + a.stats.bookWindows
  outcomes : a.stats.documentsRead = a.stats.recordsWritten + a.stats.emptyWindows + a.stats.emptySides +
    a.stats.rejectedBatches + a.stats.overflows + t.refused
  written : a.stats.recordsWritten = t.accepted
  emptyWindows_le : a.stats.emptyWindows ≤ a.stats.quoteWindows
  bookSkips_le : a.stats.emptySides + a.stats.rejectedBatches ≤ a.stats.bookWindows
  batches : a.book.batchesApplied + a.stats.rejectedBatches = a.stats.bookWindows

namespace Balanced

theorem of_new {depth : Nat} {interval : Decimal} {a : Aggregator} (h : Aggregator.new depth interval = .ok a) :
    Balanced a {} := by
  unfold Aggregator.new Book.new Interval.ofDecimal at h
  by_cases hd : depth = 0
  · rw [if_pos hd] at h
    cases h
  · rw [if_neg hd] at h
    by_cases hi : Decimal.zero.isLT interval = true
    · rw [dif_pos hi] at h
      cases h
      exact ⟨rfl, rfl, rfl, Nat.le_refl _, Nat.le_refl _, rfl⟩
    · rw [dif_neg hi] at h
      cases h

variable {a : Aggregator} {d : Document} {t : Tally}

theorem skip {reason : Skip} (h : Balanced a t)
    (ho : d.outcome a.interval (a.book.afterDocuments [d]) = .error reason) :
    Balanced ((a.counted d).skip reason) t := by
  have hf := Document.fits_of_outcome ho
  have hb := Book.batchesApplied_afterDocuments a.interval a.book d
  rw [ho] at hb
  obtain ⟨hk, hs, hw, hq, hu, hc⟩ := h
  cases hd : d.kind <;> cases reason <;> simp [hd, Skip.fits] at hf hb <;>
    constructor <;> simp [Aggregator.skip, Aggregator.counted, Stats.countDocument, Stats.countSkip, hd] <;> omega

theorem record {record : Record} (h : Balanced a t)
    (ho : d.outcome a.interval (a.book.afterDocuments [d]) = .ok record) :
    Balanced { a.counted d with stats := (a.counted d).stats.countWrite } { t with accepted := t.accepted + 1 } ∧
      Balanced (a.counted d) { t with refused := t.refused + 1 } := by
  have hb := Book.batchesApplied_afterDocuments a.interval a.book d
  rw [ho] at hb
  obtain ⟨hk, hs, hw, hq, hu, hc⟩ := h
  cases hd : d.kind <;> simp [hd] at hb <;> constructor <;>
    constructor <;> simp [Aggregator.counted, Stats.countDocument, Stats.countWrite, hd] <;> omega

/-- One arrival keeps the balance, whatever becomes of it. -/
theorem step {sink : Sink σ ε} {st : σ × Tally} (h : Balanced a st.2) (arrival : Arrival) :
    Balanced (a.step sink.tallied st arrival).1 (a.step sink.tallied st arrival).2.1.2 := by
  cases arrival with
  | error e => exact h
  | ok d =>
    simp only [Aggregator.step, Aggregator.take_eq, Aggregator.settled]
    cases ho : d.outcome a.interval (a.book.afterDocuments [d]) with
    | error reason => exact h.skip ho
    | ok record =>
      obtain ⟨hw, hr⟩ := h.record ho
      simp only [Sink.tallied]
      rcases sink.write st.1 record with ⟨s, e | _⟩
      · exact hr
      · exact hw

theorem run {sink : Sink σ ε} {st : σ × Tally} (h : Balanced a st.2) (arrivals : List Arrival) :
    Balanced (a.run sink.tallied st arrivals).aggregator (a.run sink.tallied st arrivals).sink.2 := by
  induction arrivals generalizing a st with
  | nil =>
    simp only [Aggregator.run, Sink.tallied]
    rcases sink.flush st.1 with ⟨s, _ | _⟩ <;> exact h
  | cons arrival arrivals ih =>
    have hs : Balanced (a.step sink.tallied st arrival).1 (a.step sink.tallied st arrival).2.1.2 :=
      h.step arrival
    rcases ha : a.step sink.tallied st arrival with ⟨a', st', e | _⟩ <;> rw [ha] at hs
    · rw [Aggregator.run_cons_of_error ha]
      exact hs
    · rw [Aggregator.run_cons_of_ok ha]
      exact ih hs

/-- Each run goes on from the balance that the runs before it have left. -/
theorem of_reached (h : a.Reached t) : Balanced a t := by
  induction h with
  | new ha => exact of_new ha
  | @run a t _ _ sink s arrivals _ ih =>
    have hs : Balanced a (s, t).2 := ih
    exact hs.run arrivals

end Balanced

/-! ## Errors of runs -/

def RunError.IsOutside (e : RunError ε) : Prop :=
  (∃ f, e = .feed f) ∨ ∃ x, e = .sink x

namespace Aggregator

theorem isOutside_of_step {sink : Sink σ ε} {a : Aggregator} {s : σ} {arrival : Arrival} {e : RunError ε}
    (h : (a.step sink s arrival).2.2 = .error e) : e.IsOutside := by
  cases arrival with
  | error f =>
    cases h
    exact .inl ⟨f, rfl⟩
  | ok d =>
    simp only [step, take_eq] at h
    cases hr : (a.settled d).2 with
    | none => simp [hr] at h
    | some record =>
      simp only [hr] at h
      rcases hw : sink.write s record with ⟨s', x | _⟩ <;> rw [hw] at h <;> cases h
      exact .inr ⟨x, rfl⟩

theorem isOutside_of_run {sink : Sink σ ε} {a : Aggregator} {s : σ} {arrivals : List Arrival} {e : RunError ε}
    (h : (a.run sink s arrivals).result = .error e) : e.IsOutside := by
  induction arrivals generalizing a s with
  | nil =>
    rw [run] at h
    rcases hf : sink.flush s with ⟨s', x | _⟩ <;> rw [hf] at h <;> cases h
    exact .inr ⟨x, rfl⟩
  | cons arrival arrivals ih =>
    rcases hs : a.step sink s arrival with ⟨a', s', e' | _⟩
    · rw [run_cons_of_error hs] at h
      cases h
      exact isOutside_of_step (congrArg (·.2.2) hs)
    · rw [run_cons_of_ok hs] at h
      exact ih h

/-- After each of any runs in a row all documents are accounted for, and what ends a run early lies outside the
book: an error of a window is counted under one reason, and its document is done. -/
theorem runs_account_for_all {a : Aggregator} {t : Tally} (h : a.Reached t) :
    (a.stats.documentsRead = a.stats.quoteWindows + a.stats.tradeWindows + a.stats.bookWindows ∧
      a.stats.documentsRead = a.stats.recordsWritten + a.stats.emptyWindows + a.stats.emptySides +
        a.stats.rejectedBatches + a.stats.overflows + t.refused ∧
      a.stats.recordsWritten = t.accepted ∧
      a.stats.emptyWindows ≤ a.stats.quoteWindows ∧
      a.stats.emptySides + a.stats.rejectedBatches ≤ a.stats.bookWindows ∧
      a.book.batchesApplied = a.stats.bookWindows - a.stats.rejectedBatches) ∧
    (∀ {σ ε : Type} (sink : Sink σ ε) (s : σ) (arrivals : List Arrival),
      (a.run sink.tallied (s, t) arrivals).untallied = a.run sink s arrivals ∧
      ∀ e, (a.run sink s arrivals).result = .error e → (∃ f, e = .feed f) ∨ ∃ x, e = .sink x) ∧
    ∀ (now : Aggregator) (d : Document) (e : BookError),
      d.error? now.interval (now.book.afterDocuments [d]) = some e →
      ∃ reason, Skip.ofError? e = some reason ∧ (now.take d).2 = .ok none ∧
        (now.take d).1.stats = (now.stats.countDocument d.kind).countSkip reason := by
  refine ⟨?_, fun sink s arrivals => ⟨run_tallied sink a (s, t) arrivals, fun e he => isOutside_of_run he⟩,
    fun now d e he => ?_⟩
  · obtain ⟨hk, hs, hw, hq, hu, hb⟩ := Balanced.of_reached h
    exact ⟨hk, hs, hw, hq, hu, by omega⟩
  · obtain ⟨reason, hreason, ho⟩ := Document.outcome_of_error he
    exact ⟨reason, hreason, by simp [take_eq, settled, ho], by simp [take_eq, settled, ho, skip, counted]⟩

/-- A window without quotes, a record refused, an error of the feed, and a record taken. -/
theorem runs_account_for_all_after_refusal :
    ∃ a, Aggregator.new 1 .one = .ok a ∧
      let runs := a.runs (RefusingSink.sink (some 1) false).tallied 3 (.empty, {})
        [.ok ⟨0, none, .quotes []⟩, .ok ⟨0, none, .trades []⟩, .error .unreadable, .ok ⟨0, none, .trades []⟩]
      (∀ r ∈ runs, r.aggregator.Reached r.sink.2 ∧ r.aggregator.stats.documentsRead =
        r.aggregator.stats.recordsWritten + r.aggregator.stats.emptyWindows + r.aggregator.stats.emptySides +
          r.aggregator.stats.rejectedBatches + r.aggregator.stats.overflows + r.sink.2.refused) ∧
      runs.map (fun r => (r.aggregator.stats.documentsRead, r.sink.2.accepted, r.sink.2.refused)) =
        [(2, 0, 1), (2, 0, 1), (3, 1, 1)] := by
  have ha : Aggregator.new 1 .one = .ok ⟨⟨.one, by decide⟩, .empty 1, {}⟩ := rfl
  refine ⟨_, ha, fun r hr => ?_, by decide⟩
  have h : r.aggregator.Reached r.sink.2 := (Reached.new ha).runs 3 _ r hr
  exact ⟨h, (runs_account_for_all h).1.2.1⟩

end Aggregator
end MarketMinutes
