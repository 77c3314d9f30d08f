import MarketMinutes.Proofs.Book.Contents

/-!
# A side kept by a linear scan

The plain way to keep a side is a list from worst to best: a write scans it
from the worst level on, a level past the depth is taken off the front. A side
by rising price does the same, step by step. Both lists climb strictly by
number, so they are equal as soon as they hold the same volumes at the same
numbers.
-/

namespace MarketMinutes

/-! ## Lists that climb -/

/-- A level by number and volume, whatever the scale of its price. -/
def Level.entry (l : Level) : ℚ × Volume :=
  (l.price.number, l.volume)

namespace Levels

/-- Every level is strictly better than those in front of it. -/
def Climbs (side : Side) (levels : List Level) : Prop :=
  levels.Pairwise fun x y => side.rank x.price.number < side.rank y.price.number

theorem mem_map_entry {levels : List Level} {q : ℚ} {v : Volume} :
    (q, v) ∈ levels.map Level.entry ↔ Holds levels q v := by
  simp [Level.entry, Holds]

theorem climbs_iff_entries {side : Side} {levels : List Level} :
    Climbs side levels ↔ (levels.map Level.entry).Pairwise fun a b => side.rank a.1 < side.rank b.1 := by
  rw [List.pairwise_map]
  rfl

theorem entries_eq {side : Side} {xs ys : List Level} (hx : Climbs side xs) (hy : Climbs side ys)
    (h : ∀ q v, Holds xs q v ↔ Holds ys q v) : xs.map Level.entry = ys.map Level.entry := by
  rw [climbs_iff_entries] at hx hy
  refine eq_of_rising_key (fun e => side.rank e.1) hx hy ?_
  intro ⟨q, v⟩
  rw [mem_map_entry, mem_map_entry]
  exact h q v

theorem holds_append_iff {xs ys : List Level} {q : ℚ} {v : Volume} :
    Holds (xs ++ ys) q v ↔ Holds xs q v ∨ Holds ys q v := by
  simp only [← mem_map_entry, List.map_append, List.mem_append]

theorem has_iff {levels : List Level} {q : ℚ} : Has levels q ↔ ∃ v, Holds levels q v := by
  constructor
  · rintro ⟨x, hx, hq⟩
    exact ⟨x.volume, x, hx, hq, rfl⟩
  · rintro ⟨v, hv⟩
    exact hv.has

end Levels

/-! ## The scan -/

namespace Scan
open Levels

/-- Where the scan stops, and whether it does so at the price itself; else it stops in front of a better one. -/
def place (side : Side) (price : Price) : List Level → Nat × Bool
  | [] => (0, false)
  | l :: ls =>
    if l.price.sameNumber price then (0, true)
    else if side.better l.price price then (0, false)
    else ((place side price ls).1 + 1, (place side price ls).2)

def write (side : Side) (new : Level) (levels : List Level) : List Level :=
  match place side new.price levels with
  | (i, true) => levels.set i new
  | (i, false) => levels.insertIdx i new

def upsert (side : Side) (depth : Nat) (new : Level) (levels : List Level) : List Level × Option Level :=
  let full := write side new levels
  if depth < full.length then (full.drop 1, full.head?) else (full, none)

def delete (price : Price) (levels : List Level) : List Level × Bool :=
  (levels.filter (!·.price.sameNumber price), levels.any (·.price.sameNumber price))

variable {side : Side} {new : Level} {levels : List Level}

theorem write_cons_of_worse {l : Level} (hne : l.price.sameNumber new.price = false)
    (hworse : side.better l.price new.price = false) (ls : List Level) :
    write side new (l :: ls) = l :: write side new ls := by
  have hplace : place side new.price (l :: ls) = ((place side new.price ls).1 + 1, (place side new.price ls).2) := by
    rw [place, hne, hworse, if_neg Bool.false_ne_true, if_neg Bool.false_ne_true]
  unfold write
  rw [hplace]
  generalize place side new.price ls = stop
  obtain ⟨i, found⟩ := stop
  cases found with
  | true => exact List.set_cons_succ
  | false => exact List.insertIdx_succ_cons

/-- A write puts the level behind all worse ones and in front of all better ones; one at the same price makes way. -/
theorem write_cases (h : Climbs side levels) (new : Level) :
    ∃ before behind, write side new levels = before ++ new :: behind ∧
      (∀ x ∈ before, side.rank x.price.number < side.rank new.price.number) ∧
      (∀ x ∈ behind, side.rank new.price.number < side.rank x.price.number) ∧
      (levels = before ++ behind ∨ ∃ old, old.price.number = new.price.number ∧ levels = before ++ old :: behind) := by
  induction levels with
  | nil => exact ⟨[], [], rfl, List.forall_mem_nil _, List.forall_mem_nil _, .inl rfl⟩
  | cons l ls ih =>
    obtain ⟨hl, hls⟩ := List.pairwise_cons.mp h
    cases hsame : l.price.sameNumber new.price with
    | true =>
      have hnumber := Decimal.sameNumber_iff.mp hsame
      refine ⟨[], ls, ?_, List.forall_mem_nil _, fun x hx => hnumber ▸ hl x hx, .inr ⟨l, hnumber, rfl⟩⟩
      rw [write, place, if_pos hsame]
      rfl
    | false =>
      cases hbetter : side.better l.price new.price with
      | true =>
        have hrank := Side.better_iff.mp hbetter
        refine ⟨[], l :: ls, ?_, List.forall_mem_nil _, ?_, .inl rfl⟩
        · rw [write, place, hsame, if_neg Bool.false_ne_true, if_pos hbetter]
          rfl
        · exact List.forall_mem_cons.mpr ⟨hrank, fun x hx => hrank.trans (hl x hx)⟩
      | false =>
        have hrank : side.rank l.price.number < side.rank new.price.number := by
          rw [← Bool.not_eq_true, Decimal.sameNumber_iff] at hsame
          rw [← Bool.not_eq_true, Side.better_iff, not_lt] at hbetter
          exact lt_of_le_of_ne hbetter fun he => hsame (Side.rank_inj he)
        obtain ⟨before, behind, hwrite, hbefore, hbehind, hlevels⟩ := ih hls
        refine ⟨l :: before, behind, ?_, List.forall_mem_cons.mpr ⟨hrank, hbefore⟩, hbehind, ?_⟩
        · rw [write_cons_of_worse hsame hbetter, hwrite]
          rfl
        · rcases hlevels with rfl | ⟨old, hold, rfl⟩
          · exact .inl rfl
          · exact .inr ⟨old, hold, rfl⟩

theorem climbs_write (h : Climbs side levels) (new : Level) : Climbs side (write side new levels) := by
  obtain ⟨before, behind, hwrite, hbefore, hbehind, hlevels⟩ := write_cases h new
  have hsub : (before ++ behind).Sublist levels := by
    rcases hlevels with rfl | ⟨old, -, rfl⟩
    · exact List.Sublist.refl _
    · exact List.Sublist.append_left (List.sublist_cons_self ..) _
  obtain ⟨hb, hh, hcross⟩ := List.pairwise_append.mp (h.sublist hsub)
  rw [hwrite]
  refine List.pairwise_append.mpr ⟨hb, List.pairwise_cons.mpr ⟨hbehind, hh⟩, fun x hx y hy => ?_⟩
  rcases List.mem_cons.mp hy with rfl | hy
  · exact hbefore x hx
  · exact hcross x hx y hy

theorem holds_write_iff (h : Climbs side levels) {q : ℚ} {v : Volume} :
    Holds (write side new levels) q v ↔ if q = new.price.number then v = new.volume else Holds levels q v := by
  obtain ⟨before, behind, hwrite, hbefore, hbehind, hlevels⟩ := write_cases h new
  rw [hwrite, holds_append_iff, holds_cons_iff]
  by_cases hq : q = new.price.number
  · -- No other level is at the price.
    have hb : ¬ Holds before q v := by
      rintro ⟨x, hx, rfl, -⟩
      exact absurd (hbefore x hx) (hq ▸ lt_irrefl _)
    have hh : ¬ Holds behind q v := by
      rintro ⟨x, hx, rfl, -⟩
      exact absurd (hbehind x hx) (hq ▸ lt_irrefl _)
    simp [hq, hq ▸ hb, hq ▸ hh, eq_comm]
  · rw [if_neg hq]
    rcases hlevels with rfl | ⟨old, hold, rfl⟩
    · simp [holds_append_iff, Ne.symm hq]
    · simp [holds_append_iff, holds_cons_iff, hold, Ne.symm hq]

end Scan

/-! ## Step by step -/

/-- A step on one side: a volume for a price, or no level there. -/
inductive Step where
  | upsert (price : Price) (volume : Volume)
  | delete (price : Price)

/-- What a step answers: the level pushed out, by number and volume, or whether there was one to delete. -/
inductive Answer where
  | pushedOut (level : Option (ℚ × Volume))
  | deleted (found : Bool)
  deriving DecidableEq

def Ladder.step (l : Ladder) : Step → Ladder × Answer
  | .upsert p v => ((l.upsert p v).1, .pushedOut ((l.upsert p v).2.map Level.entry))
  | .delete p => ((l.delete p).1, .deleted (l.delete p).2)

/-- The levels after each step, worst to best, by number and volume, and its answer. -/
def Ladder.trace (l : Ladder) : List Step → List (List (ℚ × Volume) × Answer)
  | [] => []
  | s :: ss => ((l.step s).1.levels.map Level.entry, (l.step s).2) :: (l.step s).1.trace ss

namespace Scan

/-- A write of no volume is a delete. -/
def step (side : Side) (depth : Nat) (levels : List Level) : Step → List Level × Answer
  | .upsert p v =>
    if v.isZero then ((delete p levels).1, .pushedOut none)
    else ((upsert side depth ⟨p, v⟩ levels).1, .pushedOut ((upsert side depth ⟨p, v⟩ levels).2.map Level.entry))
  | .delete p => ((delete p levels).1, .deleted (delete p levels).2)

def trace (side : Side) (depth : Nat) (levels : List Level) : List Step → List (List (ℚ × Volume) × Answer)
  | [] => []
  | s :: ss =>
    ((step side depth levels s).1.map Level.entry, (step side depth levels s).2) ::
      trace side depth (step side depth levels s).1 ss

end Scan

namespace Ladder
open Levels

theorem climbs_levels {l : Ladder} (h : Rising l.rising) : Climbs l.side l.levels := by
  unfold Climbs levels
  cases l.side with
  | bid => exact h
  | ask => exact List.pairwise_reverse.mpr (h.imp neg_lt_neg)

theorem levels_dropWorst (l : Ladder) : l.dropWorst.levels = l.levels.drop 1 := by
  unfold dropWorst levels
  cases hs : l.side with
  | bid => simp only
  | ask => simp only [List.drop_one, List.tail_reverse]

/-- A side and a list that the scan keeps show the same levels. -/
structure Shows (l : Ladder) (kept : List Level) : Prop where
  sound : l.Sound
  entries : l.levels.map Level.entry = kept.map Level.entry

variable {l : Ladder} {kept : List Level}

theorem Shows.climbs (h : l.Shows kept) : Climbs l.side kept := by
  rw [climbs_iff_entries, ← h.entries, ← climbs_iff_entries]
  exact climbs_levels h.sound.rising

theorem Shows.holds_iff (h : l.Shows kept) {q : ℚ} {v : Volume} : Holds kept q v ↔ Holds l.rising q v := by
  rw [← mem_map_entry, ← h.entries, mem_map_entry, holds_levels_iff]

theorem Shows.written (h : l.Shows kept) (p : Price) (v : Volume) :
    (l.written p v).levels.map Level.entry = (Scan.write l.side ⟨p, v⟩ kept).map Level.entry := by
  refine entries_eq (climbs_levels (rising_write h.sound.rising _)) (Scan.climbs_write h.climbs _) fun q u => ?_
  rw [holds_levels_iff, Scan.holds_write_iff h.climbs, h.holds_iff]
  exact holds_write_iff h.sound.rising

theorem Shows.upsert (h : l.Shows kept) (p : Price) {v : Volume} (hv : v.isZero = false) :
    (l.upsert p v).1.Shows (Scan.upsert l.side l.maxDepth ⟨p, v⟩ kept).1 ∧
      (l.upsert p v).2.map Level.entry = (Scan.upsert l.side l.maxDepth ⟨p, v⟩ kept).2.map Level.entry := by
  have hfull := h.written p v
  have hlen : (l.written p v).length = (Scan.write l.side ⟨p, v⟩ kept).length := by
    rw [← length_levels, ← List.length_map (f := Level.entry), hfull, List.length_map]
  by_cases hlt : l.maxDepth < (l.written p v).length
  · have hcut : Scan.upsert l.side l.maxDepth ⟨p, v⟩ kept =
        ((Scan.write l.side ⟨p, v⟩ kept).drop 1, (Scan.write l.side ⟨p, v⟩ kept).head?) := if_pos (hlen ▸ hlt)
    refine ⟨⟨h.sound.upsert p v, ?_⟩, ?_⟩ <;> rw [hcut, upsert_of_lt hv hlt]
    · rw [levels_dropWorst, List.map_drop, hfull, List.map_drop]
    · rw [worst?_eq_head?, ← List.head?_map, hfull, List.head?_map]
  · have hcut : Scan.upsert l.side l.maxDepth ⟨p, v⟩ kept = (Scan.write l.side ⟨p, v⟩ kept, none) := if_neg (hlen ▸ hlt)
    refine ⟨⟨h.sound.upsert p v, ?_⟩, ?_⟩ <;> rw [hcut, upsert_of_le hv (not_lt.mp hlt)]
    · exact hfull

theorem Shows.erase (h : l.Shows kept) (p : Price) : (l.erase p).Shows (Scan.delete p kept).1 := by
  refine ⟨h.sound.erase p, ?_⟩
  refine entries_eq (climbs_levels (h.sound.erase p).rising) (h.climbs.sublist List.filter_sublist) fun q v => ?_
  have hkept : Holds (Scan.delete p kept).1 q v ↔ q ≠ p.number ∧ Holds kept q v := holds_erase_iff
  rw [holds_levels_iff, hkept, h.holds_iff]
  exact holds_erase_iff

theorem Shows.found (h : l.Shows kept) (p : Price) : (l.volume? p).isSome = (Scan.delete p kept).2 := by
  have hkept : (Scan.delete p kept).2 = true ↔ Has kept p.number := by
    rw [Scan.delete, List.any_eq_true]
    simp only [Decimal.sameNumber_iff]
    rfl
  rw [Bool.eq_iff_iff, isSome_volume?_iff, hkept, has_iff, has_iff]
  simp only [h.holds_iff]

theorem Shows.step (h : l.Shows kept) (s : Step) :
    (l.step s).1.Shows (Scan.step l.side l.maxDepth kept s).1 ∧
      (l.step s).2 = (Scan.step l.side l.maxDepth kept s).2 := by
  cases s with
  | delete p =>
    refine ⟨h.erase p, ?_⟩
    simp only [Ladder.step, Scan.step, delete, h.found]
  | upsert p v =>
    cases hv : v.isZero with
    | true =>
      simp only [Ladder.step, Scan.step, upsert_of_zero _ _ hv, hv, if_true]
      exact ⟨h.erase p, rfl⟩
    | false =>
      obtain ⟨hshows, hout⟩ := h.upsert p hv
      simp only [Ladder.step, Scan.step, hv, Bool.false_eq_true, if_false, hout]
      exact ⟨hshows, trivial⟩

theorem step_side (l : Ladder) (s : Step) : (l.step s).1.side = l.side := by
  cases s with
  | upsert p v => exact upsert_side l p v
  | delete p => rfl

theorem step_maxDepth (l : Ladder) (s : Step) : (l.step s).1.maxDepth = l.maxDepth := by
  cases s with
  | upsert p v => exact upsert_maxDepth l p v
  | delete p => rfl

theorem Shows.trace (h : l.Shows kept) (steps : List Step) : l.trace steps = Scan.trace l.side l.maxDepth kept steps := by
  induction steps generalizing l kept with
  | nil => rfl
  | cons s ss ih =>
    obtain ⟨hshows, hanswer⟩ := h.step s
    have hrest := ih hshows
    rw [step_side, step_maxDepth] at hrest
    rw [Ladder.trace, Scan.trace, hshows.entries, hanswer, hrest]

/-- Whatever is written and deleted, after each step a side shows the levels that a linear scan keeps, and both give the
same answer: the level pushed out, or whether there was one to delete. -/
theorem trace_eq_scan (side : Side) {depth : Nat} (hd : 0 < depth) :
    ∃ start, Ladder.new side depth = .ok start ∧
      ∀ steps, start.trace steps = Scan.trace side depth [] steps := by
  refine ⟨empty side depth, if_neg hd.ne', fun steps => ?_⟩
  have hempty : (empty side depth).Shows [] := ⟨empty_sound side depth, by cases side <;> rfl⟩
  exact hempty.trace steps

/-- The ask at 2 is pushed out by the two below it; the write at 1.0 meets the level at 1, and so does the delete. -/
theorem trace_eq_scan_past_depth :
    0 < 2 ∧ ∃ start, Ladder.new .ask 2 = .ok start ∧
      let tenth : Price := ⟨false, 10, 1, by decide, by decide⟩
      let steps := [.upsert .two ⟨.one, rfl⟩, .upsert .one ⟨.one, rfl⟩, .upsert .zero ⟨.two, rfl⟩,
        .upsert tenth ⟨.two, rfl⟩, .delete tenth, .delete .two]
      start.trace steps = Scan.trace .ask 2 [] steps ∧
        (start.trace steps).map (·.1.map Prod.fst) = [[2], [2, 1], [1, 0], [1, 0], [0], [0]] ∧
        (start.trace steps).map (·.2) = [.pushedOut none, .pushedOut none, .pushedOut (some (2, ⟨.one, rfl⟩)),
          .pushedOut none, .deleted true, .deleted false] := by
  obtain ⟨start, hstart, h⟩ := trace_eq_scan .ask (show 0 < 2 by decide)
  refine ⟨by decide, start, hstart, h _, ?_⟩
  cases hstart
  decide +kernel

end Ladder
end MarketMinutes
