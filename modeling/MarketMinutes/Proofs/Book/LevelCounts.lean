import MarketMinutes.Proofs.Book.Contents
import MarketMinutes.Proofs.Book.Invariant

/-!
# Levels counted

A level comes in with a volume for a price that was not there. From then on it
is there, was pushed out, or was deleted, so the levels that have come in can
be counted twice. What one change does to the counts is seen on its side at
that moment; the history of a book is the moments of all accepted changes.
-/

namespace MarketMinutes

/-- A change, and its side as it is just before. -/
structure Moment where
  ladder : Ladder
  change : Change

namespace Moment
open Levels

/-- A volume for a price that is not there. -/
def inserts (m : Moment) : Bool :=
  !m.change.volume.isZero && (m.ladder.volume? m.change.price).isNone

/-- No volume for a price that is there. -/
def removes (m : Moment) : Bool :=
  m.change.volume.isZero && (m.ladder.volume? m.change.price).isSome

/-- The side once the change is made. -/
def after (m : Moment) : Ladder :=
  (m.ladder.upsert m.change.price m.change.volume).1

def pushedOut? (m : Moment) : Option Level :=
  (m.ladder.upsert m.change.price m.change.volume).2

def pushesOut (m : Moment) : Bool :=
  m.pushedOut?.isSome

variable {l : Ladder} {c : Change}

theorem length_after_of_zero (h : l.Sound) (hv : c.volume.isZero = true) :
    l.length = (after ⟨l, c⟩).length + (removes ⟨l, c⟩).toNat := by
  have hafter : after ⟨l, c⟩ = l.erase c.price := congrArg Prod.fst (Ladder.upsert_of_zero l c.price hv)
  have hremoves : removes ⟨l, c⟩ = (l.volume? c.price).isSome := by rw [removes, hv, Bool.true_and]
  rw [hafter, hremoves]
  by_cases hp : Has l.rising c.price.number
  · rw [Ladder.isSome_volume?_iff.mpr hp]
    exact (length_erase_of_has h.rising hp).symm
  · rw [Ladder.volume?_eq_none_iff.mpr hp, Ladder.erase, erase_of_not_has hp]
    rfl

/-- A level that comes in makes the side longer by one, or has one pushed out; one that was there makes no difference. -/
theorem length_after_of_pos (h : l.Sound) (hv : c.volume.isZero = false) :
    l.length + (inserts ⟨l, c⟩).toNat = (after ⟨l, c⟩).length + (pushesOut ⟨l, c⟩).toNat := by
  have hinserts : inserts ⟨l, c⟩ = (l.volume? c.price).isNone := by rw [inserts, hv, Bool.not_false, Bool.true_and]
  have hmade : ∀ next out, l.upsert c.price c.volume = (next, out) →
      after ⟨l, c⟩ = next ∧ pushesOut ⟨l, c⟩ = out.isSome := by
    intro next out hupsert
    exact ⟨congrArg Prod.fst hupsert, congrArg (·.2.isSome) hupsert⟩
  have hle := h.length_le
  by_cases hp : Has l.rising c.price.number
  · have hlen := Ladder.length_written_of_has (v := c.volume) h hp
    obtain ⟨hafter, hout⟩ := hmade _ _ (Ladder.upsert_of_le hv (hlen ▸ hle))
    rw [hinserts, hafter, hout, hlen, ← Option.not_isSome, Ladder.isSome_volume?_iff.mpr hp]
    rfl
  · have hlen := Ladder.length_written_of_not_has (v := c.volume) hp
    rw [hinserts, Ladder.volume?_eq_none_iff.mpr hp, Option.isNone_none, Bool.toNat_true, ← hlen]
    by_cases hlt : l.maxDepth < (l.written c.price c.volume).length
    · have hne : (l.written c.price c.volume).rising ≠ [] := List.ne_nil_of_length_pos (Nat.zero_lt_of_lt hlt)
      obtain ⟨w, hw, -⟩ := Ladder.worst_cases (rising_write h.rising _) hne
      obtain ⟨hafter, hout⟩ := hmade _ _ (Ladder.upsert_of_lt hv hlt)
      rw [hafter, hout, hw, Ladder.length_dropWorst]
      exact (Nat.sub_add_cancel (Nat.zero_lt_of_lt hlt)).symm
    · obtain ⟨hafter, hout⟩ := hmade _ _ (Ladder.upsert_of_le hv (not_lt.mp hlt))
      rw [hafter, hout]
      rfl

theorem length_after {m : Moment} (h : m.ladder.Sound) :
    m.ladder.length + m.inserts.toNat = m.after.length + m.pushesOut.toNat + m.removes.toNat := by
  obtain ⟨l, c⟩ := m
  cases hv : c.volume.isZero with
  | true =>
    have hinserts : inserts ⟨l, c⟩ = false := by rw [inserts, hv, Bool.not_true, Bool.false_and]
    have hout : pushesOut ⟨l, c⟩ = false := congrArg (·.2.isSome) (Ladder.upsert_of_zero l c.price hv)
    rw [hinserts, hout]
    exact length_after_of_zero h hv
  | false =>
    have hremoves : removes ⟨l, c⟩ = false := by rw [removes, hv, Bool.false_and]
    rw [hremoves]
    exact length_after_of_pos h hv

theorem better_of_pushedOut? {m : Moment} (h : m.ladder.Sound) {w : Level} (hw : m.pushedOut? = some w) :
    ∀ x ∈ m.after.levels, m.ladder.side.better x.price w.price = true := by
  obtain ⟨l, c⟩ := m
  unfold pushedOut? at hw
  unfold after
  dsimp only at h hw ⊢
  cases hv : c.volume.isZero with
  | true =>
    rw [Ladder.upsert_of_zero _ _ hv] at hw
    cases hw
  | false =>
    by_cases hlt : l.maxDepth < (l.written c.price c.volume).length
    · have hne : (l.written c.price c.volume).rising ≠ [] := List.ne_nil_of_length_pos (Nat.zero_lt_of_lt hlt)
      obtain ⟨w', hw', -, hbetter⟩ := Ladder.worst_cases (rising_write h.rising _) hne
      rw [Ladder.upsert_of_lt hv hlt] at hw ⊢
      obtain rfl : w' = w := Option.some.inj (hw'.symm.trans hw)
      intro x hx
      exact Side.better_iff.mpr (hbetter x (Ladder.mem_levels.mp hx))
    · rw [Ladder.upsert_of_le hv (not_lt.mp hlt)] at hw
      cases hw

end Moment

namespace Book

def levelCount (b : Book) : Nat :=
  b.bids.length + b.asks.length

/-- Changes made one after another, each with its side just before. -/
def moments (b : Book) : List Change → List Moment
  | [] => []
  | c :: cs => ⟨b.side c.side, c⟩ :: (b.applyChange c).moments cs

/-- The changes of all accepted calls, each with its side just before. -/
def history (b : Book) : List Call → List Moment
  | [] => []
  | call :: calls => b.moments call.changes ++ (b.receive call).1.history calls

/-- Moments that lead from one book to another, with all levels accounted for. -/
structure Accounts (before : Book) (ms : List Moment) (after : Book) : Prop where
  levels : before.levelCount + before.levelsEvicted + ms.countP Moment.inserts =
    after.levelCount + after.levelsEvicted + ms.countP Moment.removes
  evicted : after.levelsEvicted = before.levelsEvicted + ms.countP Moment.pushesOut
  sound : ∀ m ∈ ms, m.ladder.Sound ∧ m.ladder.side = m.change.side

namespace Accounts

theorem nil (b : Book) : Accounts b [] b :=
  ⟨rfl, rfl, List.forall_mem_nil _⟩

theorem append {b b' b'' : Book} {ms ms' : List Moment} (h : Accounts b ms b') (h' : Accounts b' ms' b'') :
    Accounts b (ms ++ ms') b'' := by
  have hlevels := h.levels
  have hlevels' := h'.levels
  refine ⟨?_, ?_, List.forall_mem_append.mpr ⟨h.sound, h'.sound⟩⟩
  · rw [List.countP_append, List.countP_append]
    omega
  · rw [h'.evicted, h.evicted, List.countP_append, Nat.add_assoc]

end Accounts

variable {depth : Nat} {b : Book}

theorem Sound.applyChange (h : b.Sound depth) (c : Change) : (b.applyChange c).Sound depth := by
  obtain ⟨hs, -⟩ := applyChange_spec b c
  constructor
  all_goals
    intro s
    rw [hs]
    split
  · rw [Ladder.upsert_side, h.side_eq]
  · exact h.side_eq s
  · rw [Ladder.upsert_maxDepth, h.depth_eq]
  · exact h.depth_eq s
  · exact (h.sound s).upsert c.price c.volume
  · exact h.sound s

theorem levelCount_applyChange (b : Book) (c : Change) :
    (b.applyChange c).levelCount + (b.side c.side).length =
      b.levelCount + (Moment.after ⟨b.side c.side, c⟩).length := by
  obtain ⟨hs, -⟩ := applyChange_spec b c
  have hbids := hs .bid
  have hasks := hs .ask
  unfold levelCount Moment.after
  cases hc : c.side with
  | bid =>
    rw [hc, if_pos rfl] at hbids
    rw [hc, if_neg Side.noConfusion] at hasks
    show ((b.applyChange c).side .bid).length + ((b.applyChange c).side .ask).length + _ = _
    rw [hbids, hasks]
    simp only [side]
    omega
  | ask =>
    rw [hc, if_neg Side.noConfusion] at hbids
    rw [hc, if_pos rfl] at hasks
    show ((b.applyChange c).side .bid).length + ((b.applyChange c).side .ask).length + _ = _
    rw [hbids, hasks]
    simp only [side]
    omega

theorem accounts_applyChange (h : b.Sound depth) (c : Change) :
    Accounts b [⟨b.side c.side, c⟩] (b.applyChange c) := by
  have hevicted : (b.applyChange c).levelsEvicted = b.levelsEvicted + [⟨b.side c.side, c⟩].countP Moment.pushesOut := by
    rw [(applyChange_spec b c).2.1, List.countP_singleton]
    rfl
  refine ⟨?_, hevicted, List.forall_mem_singleton.mpr ⟨h.sound c.side, h.side_eq c.side⟩⟩
  have hone : ∀ p : Moment → Bool, [⟨b.side c.side, c⟩].countP p = (p ⟨b.side c.side, c⟩).toNat := by
    intro p
    rw [List.countP_singleton]
    cases p ⟨b.side c.side, c⟩ <;> rfl
  have hlength := Moment.length_after (m := ⟨b.side c.side, c⟩) (h.sound c.side)
  have hcount := levelCount_applyChange b c
  dsimp only at hlength
  rw [hevicted, hone, hone, hone]
  omega

theorem accounts_moments (h : b.Sound depth) (changes : List Change) :
    Accounts b (b.moments changes) (changes.foldl applyChange b) := by
  induction changes generalizing b with
  | nil => exact .nil b
  | cons c cs ih => exact (accounts_applyChange h c).append (ih (h.applyChange c))

theorem accounts_receive (h : b.Sound depth) (call : Call) : Accounts b (b.moments call.changes) (b.receive call).1 := by
  rcases receive_cases b call with ⟨r, hb, hc⟩ | ⟨n, hb⟩
  · rw [hb, hc]
    exact .nil b
  · -- The number of batches is no part of the account.
    obtain ⟨hlevels, hevicted, hsound⟩ := accounts_moments h call.changes
    rw [hb]
    exact ⟨hlevels, hevicted, hsound⟩

theorem accounts_history (h : b.Sound depth) (calls : List Call) : Accounts b (b.history calls) (b.after calls) := by
  induction calls generalizing b with
  | nil => exact .nil b
  | cons call calls ih => exact (accounts_receive h call).append (ih (h.receive call))

theorem batchesApplied_after (b : Book) (calls : List Call) :
    (b.after calls).batchesApplied = b.batchesApplied + (b.answers calls).countP (·.isOk) := by
  induction calls generalizing b with
  | nil => rfl
  | cons call calls ih =>
    have hrest : (b.after (call :: calls)).batchesApplied = _ := ih (b.receive call).1
    rw [hrest, answers, List.countP_cons]
    rcases receive_cases b call with ⟨r, hr, -⟩ | ⟨n, hn⟩
    · rw [hr]
      rfl
    · rw [hn, (makes_applyChanges b call.changes).batches]
      exact Nat.add_right_comm ..

/-- After any calls, accepted or rejected, the levels that have come in are those still there, those pushed out and those
deleted. Each that was pushed out was strictly worse than all that stayed. The book counts what it has pushed out, and
the calls accepted. -/
theorem levels_accounted_for {depth : Nat} (hd : 0 < depth) :
    ∃ start, Book.new depth = .ok start ∧ ∀ calls,
      let b := start.after calls
      let history := start.history calls
      history.countP Moment.inserts =
        b.bids.length + b.asks.length + b.levelsEvicted + history.countP Moment.removes ∧
      b.levelsEvicted = history.countP Moment.pushesOut ∧
      (∀ m ∈ history, ∀ w, m.pushedOut? = some w → ∀ x ∈ m.after.levels, m.change.side.better x.price w.price = true) ∧
      b.batchesApplied = (start.answers calls).countP (·.isOk) := by
  refine ⟨empty depth, if_neg hd.ne', fun calls => ?_⟩
  intro b history
  have haccounts : Accounts (empty depth) history b := accounts_history (empty_sound depth) calls
  refine ⟨?_, ?_, ?_, ?_⟩
  · have hlevels := haccounts.levels
    have hnone : (empty depth).levelCount + (empty depth).levelsEvicted = 0 := rfl
    rwa [hnone, Nat.zero_add] at hlevels
  · have hevicted := haccounts.evicted
    rwa [show (empty depth).levelsEvicted = 0 from rfl, Nat.zero_add] at hevicted
  · intro m hm w hw
    obtain ⟨hsound, hside⟩ := haccounts.sound m hm
    rw [← hside]
    exact Moment.better_of_pushedOut? hsound hw
  · rw [batchesApplied_after]
    exact Nat.zero_add _

/-- The bid at 1 comes in and is pushed out at once by that at 2, which is written over and deleted; a batch in between is
rejected, and a price that is not there is deleted in vain. -/
theorem levels_accounted_for_after_rejection :
    0 < 1 ∧ ∃ start, Book.new 1 = .ok start ∧
      let calls := [.operations [⟨.bid, .two, .one⟩, ⟨.bid, .one, .one⟩, ⟨.bid, .two, .two⟩],
        .operations [⟨.bid, .two, .zero⟩, ⟨.bid, .one, Decimal.one.neg⟩],
        .operations [⟨.bid, .two, .zero⟩, ⟨.bid, .two, .zero⟩, ⟨.ask, .two, .one⟩]]
      let b := start.after calls
      let history := start.history calls
      history.countP Moment.inserts =
        b.bids.length + b.asks.length + b.levelsEvicted + history.countP Moment.removes ∧
      (∀ m ∈ history, ∀ w, m.pushedOut? = some w → ∀ x ∈ m.after.levels, m.change.side.better x.price w.price = true) ∧
      b.batchesApplied = (start.answers calls).countP (·.isOk) ∧
      history.countP Moment.inserts = 3 ∧ b.levelsEvicted = 1 ∧ b.batchesApplied = 2 := by
  obtain ⟨start, hstart, h⟩ := levels_accounted_for (show 0 < 1 by decide)
  refine ⟨by decide, start, hstart, ?_⟩
  intro calls b history
  obtain ⟨hlevels, -, hworse, hbatches⟩ := h calls
  refine ⟨hlevels, hworse, hbatches, ?_⟩
  cases hstart
  decide +kernel

end Book
end MarketMinutes
