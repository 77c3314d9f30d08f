import MarketMinutes.Proofs.Book.Calls

/-!
# The invariant of a book

Whatever calls a book has had, its sides keep their names and depths and stay
sound. So either side reads as a strictly ordered list of positive levels,
from its worst to its best.
-/

namespace MarketMinutes

theorem Ladder.make_side (l : Ladder) (changes : List Change) : (l.make changes).1.side = l.side := by
  induction changes generalizing l with
  | nil => rfl
  | cons c cs ih => rw [make, ih, upsert_side]

theorem Ladder.make_maxDepth (l : Ladder) (changes : List Change) :
    (l.make changes).1.maxDepth = l.maxDepth := by
  induction changes generalizing l with
  | nil => rfl
  | cons c cs ih => rw [make, ih, upsert_maxDepth]

theorem Ladder.Sound.make {l : Ladder} (h : l.Sound) (changes : List Change) : (l.make changes).1.Sound := by
  induction changes generalizing l with
  | nil => exact h
  | cons c cs ih => exact ih (h.upsert c.price c.volume)

namespace Book

structure Sound (depth : Nat) (b : Book) : Prop where
  side_eq : ∀ s, (b.side s).side = s
  depth_eq : ∀ s, (b.side s).maxDepth = depth
  sound : ∀ s, (b.side s).Sound

theorem empty_sound (depth : Nat) : (empty depth).Sound depth where
  side_eq s := by cases s <;> rfl
  depth_eq s := by cases s <;> rfl
  sound s := by cases s <;> exact Ladder.empty_sound ..

theorem Sound.of_makes {depth : Nat} {b next : Book} {changes : List Change} (h : b.Sound depth)
    (hm : b.Makes changes next) : next.Sound depth where
  side_eq s := by rw [hm.sides, Ladder.make_side, h.side_eq]
  depth_eq s := by rw [hm.sides, Ladder.make_maxDepth, h.depth_eq]
  sound s := by rw [hm.sides]; exact (h.sound s).make _

theorem Sound.receive {depth : Nat} {b : Book} (h : b.Sound depth) (call : Call) :
    (b.receive call).1.Sound depth := by
  rcases receive_cases b call with ⟨r, hr, -⟩ | ⟨n, hn⟩
  · rw [hr]
    exact h
  · rw [hn]
    exact h.of_makes (makes_applyChanges b call.changes)

theorem Sound.after {depth : Nat} {b : Book} (h : b.Sound depth) (calls : List Call) :
    (b.after calls).Sound depth := by
  induction calls generalizing b with
  | nil => exact h
  | cons call calls ih => exact ih (h.receive call)

/-! ## What holds of either side -/

theorem Sound.bids_rise {depth : Nat} {b : Book} (h : b.Sound depth) :
    b.bids.levels.Pairwise fun x y => x.price.number < y.price.number := by
  have hs : b.bids.side = .bid := h.side_eq .bid
  simp only [Ladder.levels, hs]
  exact (h.sound .bid).rising

theorem Sound.asks_fall {depth : Nat} {b : Book} (h : b.Sound depth) :
    b.asks.levels.Pairwise fun x y => y.price.number < x.price.number := by
  have hs : b.asks.side = .ask := h.side_eq .ask
  simp only [Ladder.levels, hs]
  exact List.pairwise_reverse.mpr (h.sound .ask).rising

/-- After any calls the bids rise and the asks fall from worst to best, strictly by number. No side is longer
than the depth, no level is without volume, and all ways to read a side agree. -/
theorem sides_in_order {depth : Nat} (hd : 0 < depth) :
    ∃ start, Book.new depth = .ok start ∧ ∀ calls,
      ((start.after calls).bids.levels.Pairwise fun x y => x.price.number < y.price.number) ∧
      ((start.after calls).asks.levels.Pairwise fun x y => y.price.number < x.price.number) ∧
      ∀ s, let l := (start.after calls).side s
        l.length ≤ depth ∧
        (l.levels.Pairwise fun x y => x.price.number ≠ y.price.number) ∧
        (∀ x ∈ l.levels, 0 < x.volume.value.number) ∧
        l.fromBest = l.levels.reverse ∧ l.fromBest.length = l.length ∧
        l.best? = l.levels.getLast? ∧ l.worst? = l.levels.head? ∧
        (l.best? = none ↔ l.isEmpty = true) ∧ (l.worst? = none ↔ l.isEmpty = true) ∧
        ∀ p v, l.volume? p = some v ↔ ∃ x ∈ l.levels, x.price.number = p.number ∧ x.volume = v := by
  refine ⟨empty depth, if_neg hd.ne', fun calls => ?_⟩
  have h := (empty_sound depth).after calls
  refine ⟨h.bids_rise, h.asks_fall, fun s => ?_⟩
  have hs := h.sound s
  refine ⟨(hs.length_le).trans_eq (h.depth_eq s), ?_, fun x hx => hs.positive x (Ladder.mem_levels.mp hx),
    Ladder.fromBest_eq_reverse _, ?_, Ladder.best?_eq_getLast? _, Ladder.worst?_eq_head? _, ?_, ?_,
    fun p v => hs.volume?_eq_some_iff⟩
  · cases s with
    | bid => exact h.bids_rise.imp ne_of_lt
    | ask => exact h.asks_fall.imp ne_of_gt
  · rw [Ladder.fromBest_eq_reverse, List.length_reverse, Ladder.length_levels]
  · rw [Ladder.best?_eq_getLast?, List.getLast?_eq_none_iff, Ladder.isEmpty_iff]
  · rw [Ladder.worst?_eq_head?, List.head?_eq_none_iff, Ladder.isEmpty_iff]

/-- Three bids on a side of two: the worst is pushed out. -/
theorem sides_in_order_when_full :
    0 < 2 ∧ ∃ start, Book.new 2 = .ok start ∧
      let b := start.after [.operations [⟨.bid, .two, .one⟩, ⟨.bid, .zero, .one⟩, ⟨.bid, .one, .two⟩]]
      (b.bids.levels.Pairwise fun x y => x.price.number < y.price.number) ∧ b.bids.length ≤ 2 ∧
        b.bids.levels.map (·.price) = [.one, .two] ∧ b.levelsEvicted = 1 := by
  obtain ⟨start, hs, h⟩ := sides_in_order (show 0 < 2 by decide)
  refine ⟨by decide, start, hs, (h _).1, ((h _).2.2 .bid).1, ?_⟩
  cases hs
  decide

end Book
end MarketMinutes
