import MarketMinutes.Proofs.Book.Invariant
import MarketMinutes.Proofs.Book.LinearScan

/-!
# Batches taken and rejected

A book that has come about by calls takes a batch as two plain lists would,
that are scanned for every change on their side: one after another, and each
level that is pushed out is counted. A batch with a fault it does not take at
all.
-/

namespace MarketMinutes

/-! ## A batch by the scan -/

/-- The levels that the scan keeps of a side after changes of its own, and how many of them it has pushed out. -/
def Scan.make (side : Side) (depth : Nat) (levels : List Level) : List Change → List Level × Nat
  | [] => (levels, 0)
  | c :: cs =>
    if c.volume.isZero then make side depth (delete c.price levels).1 cs
    else
      let (next, out) := upsert side depth ⟨c.price, c.volume⟩ levels
      let (last, n) := make side depth next cs
      (last, n + if out.isSome then 1 else 0)

theorem Ladder.Shows.make {l : Ladder} {kept : List Level} (h : l.Shows kept) (changes : List Change) :
    (l.make changes).1.Shows (Scan.make l.side l.maxDepth kept changes).1 ∧
      (l.make changes).2 = (Scan.make l.side l.maxDepth kept changes).2 := by
  induction changes generalizing l kept with
  | nil => exact ⟨h, rfl⟩
  | cons c cs ih =>
    cases hv : c.volume.isZero with
    | true =>
      have hupsert := Ladder.upsert_of_zero l c.price hv
      simp only [Ladder.make, Scan.make, hupsert, hv, if_true]
      exact ih (h.erase c.price)
    | false =>
      obtain ⟨hshows, hout⟩ := h.upsert c.price hv
      have hsome := congrArg Option.isSome hout
      rw [Option.isSome_map, Option.isSome_map] at hsome
      obtain ⟨ihshows, ihcount⟩ := ih hshows
      rw [upsert_side, upsert_maxDepth] at ihshows ihcount
      simp only [Ladder.make, Scan.make, hv, Bool.false_eq_true, if_false, hsome]
      exact ⟨ihshows, congrArg (· + _) ihcount⟩

namespace Book

/-- A book that calls have led to, from an empty one. -/
def Reachable (b : Book) : Prop :=
  ∃ depth start calls, Book.new depth = .ok start ∧ b = start.after calls

theorem Reachable.sound {b : Book} (h : b.Reachable) : ∃ depth, b.Sound depth := by
  obtain ⟨depth, start, calls, hstart, rfl⟩ := h
  unfold Book.new at hstart
  split at hstart
  · cases hstart
  · cases hstart
    exact ⟨depth, (empty_sound depth).after calls⟩

/-- A book with changes made in their order, as the scan makes them on either side. -/
structure Scans (b : Book) (changes : List Change) (next : Book) : Prop where
  levels : ∀ s, (next.side s).levels.map Level.entry =
    (Scan.make s (b.side s).maxDepth (b.side s).levels (changes.filter (·.side = s))).1.map Level.entry
  evicted : next.levelsEvicted = b.levelsEvicted +
    (Scan.make .bid b.bids.maxDepth b.bids.levels (changes.filter (·.side = .bid))).2 +
    (Scan.make .ask b.asks.maxDepth b.asks.levels (changes.filter (·.side = .ask))).2
  batches : next.batchesApplied = b.batchesApplied + 1

theorem Makes.scans {b next : Book} {changes : List Change} (h : b.Makes changes next) (hb : b.Reachable) :
    b.Scans changes next := by
  obtain ⟨depth, hsound⟩ := hb.sound
  have hshows : ∀ s, (b.side s).Shows (b.side s).levels := fun s => ⟨hsound.sound s, rfl⟩
  have hmake := fun s => (hshows s).make (changes.filter (·.side = s))
  simp only [hsound.side_eq] at hmake
  refine ⟨fun s => ?_, ?_, h.batches⟩
  · rw [h.sides]
    exact (hmake s).1.entries
  · rw [h.evicted, (hmake .bid).2, (hmake .ask).2]
    rfl

/-- Batches are taken as a whole or not at all. They are rejected for a volume below zero or a text that
is no number, for the first of these in their order; after that all goes on as if they had not come. A batch that is
taken leaves the levels, and pushes out as many, as the scan of either side. -/
theorem all_or_nothing (b : Book) :
    (∀ batch,
      ((∃ r, b.apply batch = .error r) ↔ ∃ o ∈ batch, o.volume.number < 0) ∧
      (∀ r, b.apply batch = .error r ↔ IsFirstFault Operation.fault? batch r) ∧
      ∀ next, b.apply batch = .ok next →
        ∃ changes, changes.map Change.operation = batch ∧ b.Makes changes next ∧ (b.Reachable → b.Scans changes next)) ∧
    (∀ updates,
      ((∃ r, b.applyUpdates updates = .error r) ↔ ∃ e ∈ updates.flatMap Update.entries,
        Decimal.parse? e.price = none ∨ Decimal.parse? e.volume = none ∨
          ∃ v, Decimal.parse? e.volume = some v ∧ v.number < 0) ∧
      (∀ r, b.applyUpdates updates = .error r ↔
        IsFirstFault Entry.fault? (updates.flatMap Update.entries) r) ∧
      ∀ next n, b.applyUpdates updates = .ok (next, n) →
        ∃ changes, (updates.flatMap Update.entries).map Entry.operation? = changes.map (some ·.operation) ∧
          b.Makes changes next ∧ (b.Reachable → b.Scans changes next) ∧ n = changes.length) ∧
    ∀ call r, (b.receive call).2 = .error r →
      (b.receive call).1 = b ∧
      ∀ later, b.answers (call :: later) = .error r :: b.answers later ∧
        b.after (call :: later) = b.after later := by
  refine ⟨fun batch => ⟨?_, fun r => apply_eq_error_iff, fun next h => ?_⟩,
    fun updates => ⟨?_, fun r => applyUpdates_eq_error_iff, fun next n h => ?_⟩, fun call r h => ?_⟩
  · simp only [apply_eq_error_iff, exists_isFirstFault_iff, Operation.fault?_ne_none_iff]
  · obtain ⟨changes, hbatch, hmakes⟩ := makes_of_apply h
    exact ⟨changes, hbatch, hmakes, hmakes.scans⟩
  · simp only [applyUpdates_eq_error_iff, exists_isFirstFault_iff, Entry.fault?_ne_none_iff]
  · obtain ⟨changes, hupdates, hmakes, hcount⟩ := makes_of_applyUpdates h
    exact ⟨changes, hupdates, hmakes, hmakes.scans, hcount⟩
  · have hb := receive_of_error h
    refine ⟨hb, fun later => ⟨?_, ?_⟩⟩
    · rw [answers, h, hb]
    · rw [after, List.foldl_cons, hb, after]

/-- The bid at 1 is pushed out, comes in once more and is pushed out at once; the ask is deleted again. A volume that is
no number makes no difference to the book. -/
theorem all_or_nothing_past_depth :
    ∃ start, Book.new 1 = .ok start ∧
      let b := start.after [.operations [⟨.bid, .one, .one⟩]]
      let batch : List Operation :=
        [⟨.bid, .two, .one⟩, ⟨.ask, .two, .one⟩, ⟨.bid, .one, .two⟩, ⟨.ask, .two, .zero⟩, ⟨.bid, .two, .two⟩]
      let updates : List Update := [⟨[("2", "1")], []⟩, ⟨[], [("2", "one")]⟩]
      (∃ next changes, b.apply batch = .ok next ∧ changes.map Change.operation = batch ∧ b.Scans changes next ∧
        next.bids.levels.map Level.entry = [(2, ⟨.two, rfl⟩)] ∧ next.asks.levels = [] ∧
        next.levelsEvicted = 2 ∧ next.batchesApplied = 2) ∧
      ∃ r, b.applyUpdates updates = .error r ∧ r.index = 1 ∧ (b.receive (.updates updates)).1 = b ∧
        b.bids.levels.map Level.entry = [(1, ⟨.one, rfl⟩)] := by
  refine ⟨empty 1, rfl, ?_⟩
  intro b batch updates
  obtain ⟨hbatches, -, hcalls⟩ := all_or_nothing b
  have hreachable : b.Reachable := ⟨1, empty 1, _, rfl, rfl⟩
  refine ⟨?_, ⟨1, .badVolume .ask (.unreadable "one")⟩, by decide +kernel, rfl, ?_, by decide +kernel⟩
  · have htaken : b.apply batch = .ok (b.takeOperations batch).1 := by decide +kernel
    obtain ⟨changes, hmap, -, hscans⟩ := (hbatches batch).2.2 _ htaken
    refine ⟨_, changes, htaken, hmap, hscans hreachable, ?_⟩
    decide +kernel
  · exact (hcalls (.updates updates) ⟨1, .badVolume .ask (.unreadable "one")⟩ (by decide +kernel)).1

end Book
end MarketMinutes
