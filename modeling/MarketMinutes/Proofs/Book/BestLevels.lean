import MarketMinutes.Proofs.Book.Interleaving
import MarketMinutes.Proofs.Book.Writes

/-!
# Batches without deletes

A batch that gives no volume of zero is accepted and deletes nothing. Either
side keeps the best levels of what it was and what is written there, at each
price the last volume given. So the batch can be repeated, and its operations
on different sides or at different prices may change places.
-/

namespace MarketMinutes
open Levels

/-- The operations of a batch on one side at one price, at whatever scale, in their order. -/
def Operation.on (side : Side) (price : Price) (ops : List Operation) : List Operation :=
  ops.filter fun o => o.side = side ∧ o.price.sameNumber price

theorem Operation.on_eq_map (s : Side) (p : Price) (changes : List Change) :
    Operation.on s p (changes.map Change.operation) =
      ((changes.filter (·.side = s)).filter (·.price.sameNumber p)).map Change.operation := by
  rw [on, List.filter_map, List.filter_filter]
  congr 2
  funext c
  simp only [Change.operation, Function.comp_apply, Bool.decide_and, Bool.decide_eq_true, Bool.and_comm]
  rfl

/-- Operations on different sides or at different prices may change places. -/
theorem Operation.on_swap {o o' : Operation} (h : o.side ≠ o'.side ∨ o.price.number ≠ o'.price.number)
    (before after : List Operation) (s : Side) (p : Price) :
    Operation.on s p (before ++ o :: o' :: after) = Operation.on s p (before ++ o' :: o :: after) := by
  have hnot : ¬ ((o.side = s ∧ o.price.sameNumber p) ∧ o'.side = s ∧ o'.price.sameNumber p) := by
    rintro ⟨⟨hside, hnumber⟩, hside', hnumber'⟩
    rw [Decimal.sameNumber_iff] at hnumber hnumber'
    exact h.elim (· (hside.trans hside'.symm)) (· (hnumber.trans hnumber'.symm))
  simp only [on, List.filter_append, List.filter_cons, decide_eq_true_eq]
  by_cases ho : o.side = s ∧ o.price.sameNumber p
  · have ho' : ¬ (o'.side = s ∧ o'.price.sameNumber p) := fun ho' => hnot ⟨ho, ho'⟩
    simp only [if_pos ho, if_neg ho']
  · simp only [if_neg ho]

theorem filter_map_level (p : Price) (changes : List Change) :
    (changes.map Change.level).filter (·.price.sameNumber p) =
      (changes.filter (·.price.sameNumber p)).map Change.level :=
  List.filter_map

/-- What a price holds on a side with all changes written: the last volume given for it, or else the old one. -/
theorem Ladder.holds_writtenAll_iff {l : Ladder} (h : l.Sound) {changes : List Change} {p : Price} {v : Volume} :
    Holds (l.writtenAll changes).rising p.number v ↔
      (((changes.filter (·.price.sameNumber p)).map Change.operation).getLast?.map (·.volume)).or
        ((l.volume? p).map (·.value)) = some v.value := by
  have hwritten : Rising (l.writtenAll changes).rising := rising_writeAll h.rising _
  have hlast : (((changes.map Change.level).filter (·.price.sameNumber p)).getLast?.map (·.volume)).map (·.value) =
      ((changes.filter (·.price.sameNumber p)).map Change.operation).getLast?.map (·.volume) := by
    rw [filter_map_level, List.getLast?_map, List.getLast?_map, Option.map_map, Option.map_map, Option.map_map]
    rfl
  have hfound : (find? p (l.writtenAll changes).rising).map (·.volume) =
      (((changes.map Change.level).filter (·.price.sameNumber p)).getLast?.map (·.volume)).or (l.volume? p) := by
    rw [writtenAll, find?_writeAll h.rising, volume_stack, volume?]
  rw [holds_iff_find? hwritten, hfound, ← hlast, ← Option.map_or]
  exact ((Option.map_injective Volume.value_injective).eq_iff (b := some v)).symm

namespace Book

/-- A call of operations with volumes above zero is accepted. Either side makes a change for each of its own. -/
theorem exists_writes {call : Call} {ops : List Operation} (hparts : call.parts = ops.map some)
    (hpos : ∀ o ∈ ops, 0 < o.volume.number) :
    ∃ changes : Side → List Change, (∀ s, ∀ c ∈ changes s, c.volume.isZero = false) ∧
      (∀ s p, Operation.on s p ops = ((changes s).filter (·.price.sameNumber p)).map Change.operation) ∧
      ∀ b : Book, (∃ n, (b.receive call).2 = .ok n) ∧
        ∀ s, (b.receive call).1.side s = ((b.side s).make (changes s)).1 := by
  obtain ⟨changes, hchanges, rfl⟩ := Call.exists_changes? hparts fun o ho => (hpos o ho).le
  have hzero : ∀ c ∈ changes, c.volume.isZero = false := by
    intro c hc
    have hvolume : 0 < c.volume.value.number := hpos c.operation (List.mem_map_of_mem hc)
    rw [← Bool.not_eq_true, Volume.isZero_iff]
    exact hvolume.ne'
  refine ⟨fun s => changes.filter (·.side = s), ?_, fun s p => Operation.on_eq_map s p changes, fun b => ?_⟩
  · exact fun s c hc => hzero c (List.mem_of_mem_filter hc)
  · obtain ⟨n, hn⟩ := b.receive_of_changes? hchanges
    rw [hn]
    exact ⟨⟨n, rfl⟩, (makes_applyChanges b changes).sides⟩

/-- A batch with no volume of zero leaves on either side the best levels of the map that holds at every price of
the batch the volume last given there, and elsewhere what was there. So the same batch again changes nothing, nor
does it matter in which order operations on different sides and at different prices come. -/
theorem keeps_best_of_writes {depth : Nat} (hd : 0 < depth) :
    ∃ start, Book.new depth = .ok start ∧ ∀ calls call ops, call.parts = ops.map some →
      (∀ o ∈ ops, 0 < o.volume.number) →
        let b := start.after calls
        let next := (b.receive call).1
        (∃ n, (b.receive call).2 = .ok n) ∧
        (∀ s, ∃ all, Falls s all ∧ (next.side s).fromBest = all.take depth ∧
          ∀ p v, Holds all p.number v ↔
            ((Operation.on s p ops).getLast?.map (·.volume)).or (((b.side s).volume? p).map (·.value)) =
              some v.value) ∧
        (∀ s, ((next.receive call).1.side s).levels = (next.side s).levels) ∧
        ∀ call' ops', call'.parts = ops'.map some → (∀ s p, Operation.on s p ops' = Operation.on s p ops) →
          ∀ s, ((b.receive call').1.side s).levels = (next.side s).levels := by
  refine ⟨empty depth, if_neg hd.ne', fun calls call ops hparts hpos => ?_⟩
  intro b next
  have hb : b.Sound depth := (empty_sound depth).after calls
  obtain ⟨changes, hzero, hon, hmade⟩ := exists_writes hparts hpos
  have hnext : ∀ s, next.side s = ((b.side s).make (changes s)).1 := (hmade b).2
  refine ⟨(hmade b).1, fun s => ?_, fun s => ?_, fun call' ops' hparts' heq s => ?_⟩
  · have hrising : Rising ((b.side s).writtenAll (changes s)).rising := rising_writeAll (hb.sound s).rising _
    refine ⟨((b.side s).writtenAll (changes s)).fromBest, ?_, ?_, fun p v => ?_⟩
    · have hfalls := Ladder.fromBest_falls hrising
      rwa [show ((b.side s).writtenAll (changes s)).side = s from hb.side_eq s] at hfalls
    · have hdepth : ((b.side s).writtenAll (changes s)).maxDepth = depth := hb.depth_eq s
      rw [hnext, Ladder.make_eq_cut (hb.sound s) (hzero s), Ladder.fromBest_cut, hdepth]
    · rw [hon, ← Ladder.holds_writtenAll_iff (hb.sound s)]
      simp only [Holds, Ladder.mem_fromBest]
  · rw [(hmade next).2, hnext, Ladder.make_twice (hb.sound s) (hzero s)]
  · have hpos' : ∀ o ∈ ops', 0 < o.volume.number := by
      intro o ho
      have hmem : o ∈ Operation.on o.side o.price ops' := List.mem_filter.mpr ⟨ho, by simp⟩
      rw [heq] at hmem
      exact hpos o (List.mem_of_mem_filter hmem)
    obtain ⟨changes', hzero', hon', hmade'⟩ := exists_writes hparts' hpos'
    rw [(hmade' b).2, hnext]
    refine congrArg Ladder.levels (Ladder.make_congr (hb.sound s) (hzero' s) (hzero s) fun p => ?_)
    have hsame : (changes' s).filter (·.price.sameNumber p) = (changes s).filter (·.price.sameNumber p) := by
      refine List.map_injective_iff.mpr Change.operation_injective ?_
      rw [← hon', ← hon, heq]
    rw [filter_map_level, filter_map_level, hsame]

/-- The bid at 1 is pushed out by that at 2 and written once more in vain; it makes no difference if it comes later. -/
theorem keeps_best_of_writes_past_depth :
    0 < 1 ∧ ∃ start, Book.new 1 = .ok start ∧
      let ops : List Operation := [⟨.bid, .one, .one⟩, ⟨.bid, .two, .one⟩, ⟨.bid, .one, .two⟩]
      let ops' : List Operation := [⟨.bid, .two, .one⟩, ⟨.bid, .one, .one⟩, ⟨.bid, .one, .two⟩]
      let next := (start.receive (.operations ops)).1
      (∀ o ∈ ops, 0 < o.volume.number) ∧ (∀ s p, Operation.on s p ops' = Operation.on s p ops) ∧
        (∃ all, Falls .bid all ∧ next.bids.fromBest = all.take 1) ∧
        (next.receive (.operations ops)).1.bids.levels = next.bids.levels ∧
        (start.receive (.operations ops')).1.bids.levels = next.bids.levels ∧
        next.bids.levels.map (·.price) = [.two] := by
  obtain ⟨start, hstart, h⟩ := keeps_best_of_writes (show 0 < 1 by decide)
  refine ⟨by decide, start, hstart, ?_⟩
  intro ops ops' next
  have hpos : ∀ o ∈ ops, 0 < o.volume.number := by decide +kernel
  have heq : ∀ s p, Operation.on s p ops' = Operation.on s p ops := fun s p =>
    (Operation.on_swap (.inr (by decide +kernel)) [] [⟨.bid, .one, .two⟩] s p).symm
  obtain ⟨-, hbest, htwice, hmoved⟩ := h [] (.operations ops) ops rfl hpos
  obtain ⟨all, hfalls, htake, -⟩ := hbest .bid
  refine ⟨hpos, heq, ⟨all, hfalls, htake⟩, htwice .bid, hmoved (.operations ops') ops' rfl heq .bid, ?_⟩
  cases hstart
  decide

end Book
end MarketMinutes
