import Mathlib.Data.List.DropRight
import MarketMinutes.Proofs.Book.Contents
import MarketMinutes.Proofs.Book.Invariant

/-!
# Levels written one after another

Where nothing is deleted, a level that was pushed out does not come back: each
later write only raises what it takes to stay. So writing one level after
another, the worst pushed out each time, leaves the best levels of what all
writes alone would leave. What these leave at a price depends on the writes to
that price, in their order, and on no others.
-/

namespace MarketMinutes

/-! ## The best levels -/

namespace Levels

/-- The best levels of a side, no more than `n`, of levels by rising price. -/
def best (side : Side) (n : Nat) (levels : List Level) : List Level :=
  match side with
  | .bid => levels.rtake n
  | .ask => levels.take n

variable {s : Side} {n : Nat} {levels : List Level}

theorem best_of_length_le (h : levels.length ≤ n) : best s n levels = levels := by
  cases s with
  | bid => rw [best, List.rtake, Nat.sub_eq_zero_of_le h, List.drop_zero]
  | ask => exact List.take_of_length_le h

theorem length_best_le : (best s n levels).length ≤ n := by
  cases s with
  | bid =>
    rw [best, List.rtake, List.length_drop]
    omega
  | ask => exact List.length_take_le n levels

theorem best_sublist : (best s n levels).Sublist levels := by
  cases s with
  | bid => exact List.drop_sublist ..
  | ask => exact List.take_sublist ..

theorem rtake_cons_of_le {l : Level} {ls : List Level} (h : n ≤ ls.length) : (l :: ls).rtake n = ls.rtake n := by
  rw [List.rtake, List.rtake, List.length_cons, Nat.succ_sub h, List.drop_succ_cons]

theorem take_write (new : Level) (n : Nat) (levels : List Level) :
    (write new (levels.take n)).take n = (write new levels).take n := by
  -- No order is needed at this end: a write does not look behind its place.
  induction levels generalizing n with
  | nil => rw [List.take_nil]
  | cons l ls ih =>
    cases n with
    | zero => rw [List.take_zero, List.take_zero]
    | succ n =>
      rw [List.take_succ_cons, write, write]
      split
      · have hcut : (l :: ls.take n).take n = (l :: ls).take n := by
          rw [← List.take_succ_cons, List.take_take, min_eq_left n.le_succ]
        rw [List.take_succ_cons, List.take_succ_cons, hcut]
      · rw [List.take_succ_cons, List.take_succ_cons, List.take_take, min_self]
      · rw [List.take_succ_cons, List.take_succ_cons, ih]

theorem rtake_write (h : Rising levels) (new : Level) (n : Nat) :
    (write new (levels.rtake n)).rtake n = (write new levels).rtake n := by
  induction levels with
  | nil => rw [List.rtake_nil]
  | cons l ls ih =>
    obtain ⟨hl, hls⟩ := List.pairwise_cons.mp h
    rcases Nat.lt_or_ge ls.length n with hn | hn
    · have hall : (l :: ls).rtake n = l :: ls := best_of_length_le (s := .bid) hn
      rw [hall]
    -- The lowest level is not among the best. What is written at it or below comes in front of all others.
    rw [rtake_cons_of_le hn, ih hls, write]
    split
    next hc =>
      have hnew := Decimal.compare_eq_lt_iff.mp hc
      rw [write_of_lt fun x hx => hnew.trans (hl x hx), rtake_cons_of_le hn,
        rtake_cons_of_le (Nat.le_succ_of_le hn), rtake_cons_of_le hn]
    next hc =>
      have hnew := Decimal.compare_eq_eq_iff.mp hc
      rw [write_of_lt fun x hx => hnew ▸ hl x hx, rtake_cons_of_le hn, rtake_cons_of_le hn]
    next => rw [rtake_cons_of_le (hn.trans (length_le_length_write ..))]

theorem best_write (h : Rising levels) (new : Level) :
    best s n (write new (best s n levels)) = best s n (write new levels) := by
  cases s with
  | bid => exact rtake_write h new n
  | ask => exact take_write new n levels

def writeAll (new levels : List Level) : List Level :=
  new.foldl (fun ls x => write x ls) levels

theorem rising_writeAll (h : Rising levels) (new : List Level) : Rising (writeAll new levels) := by
  induction new generalizing levels with
  | nil => exact h
  | cons x xs ih => exact ih (rising_write h x)

theorem best_writeAll (h : Rising levels) (new : List Level) :
    best s n (writeAll new (best s n levels)) = best s n (writeAll new levels) := by
  induction new generalizing levels with
  | nil => exact best_of_length_le length_best_le
  | cons x xs ih =>
    have hbest : Rising (best s n levels) := h.sublist best_sublist
    -- In between it may be cut and not cut: the writes to come do not see the difference.
    calc best s n (writeAll xs (write x (best s n levels)))
      _ = best s n (writeAll xs (best s n (write x (best s n levels)))) := (ih (rising_write hbest x)).symm
      _ = best s n (writeAll xs (best s n (write x levels))) := by rw [best_write h]
      _ = best s n (writeAll xs (write x levels)) := ih (rising_write h x)

end Levels

def Change.level (c : Change) : Level :=
  ⟨c.price, c.volume⟩

namespace Ladder
open Levels

/-- A side with no more levels than its depth allows, the best of those there. -/
def cut (l : Ladder) : Ladder :=
  { l with rising := best l.side l.maxDepth l.rising }

/-- A side with the levels of changes written, before anything is pushed out. -/
def writtenAll (l : Ladder) (changes : List Change) : Ladder :=
  { l with rising := writeAll (changes.map Change.level) l.rising }

variable {l : Ladder}

theorem Sound.cut_eq (h : l.Sound) : l.cut = l :=
  congrArg (Ladder.mk l.side l.maxDepth) (best_of_length_le h.length_le)

theorem fromBest_cut (l : Ladder) : l.cut.fromBest = l.fromBest.take l.maxDepth := by
  unfold fromBest cut best
  cases l.side with
  | bid => rw [List.rtake_eq_reverse_take_reverse, List.reverse_reverse]
  | ask => rfl

theorem cut_writtenAll (h : Rising l.rising) (changes : List Change) :
    (l.cut.writtenAll changes).cut = (l.writtenAll changes).cut :=
  congrArg (Ladder.mk l.side l.maxDepth) (best_writeAll h _)

theorem upsert_eq_cut (h : l.Sound) (p : Price) {v : Volume} (hv : v.isZero = false) :
    (l.upsert p v).1 = (l.written p v).cut := by
  by_cases hlt : l.maxDepth < (l.written p v).length
  · have hle : (l.written p v).length ≤ l.maxDepth + 1 :=
      (length_write_le ..).trans (Nat.succ_le_succ h.length_le)
    have hlen : (write ⟨p, v⟩ l.rising).length = l.maxDepth + 1 := le_antisymm hle hlt
    rw [upsert_of_lt hv hlt]
    refine congrArg (Ladder.mk l.side l.maxDepth) ?_
    unfold best written
    cases l.side with
    | bid => simp only [List.rtake, hlen, Nat.add_sub_cancel_left]
    | ask => simp only [List.dropLast_eq_take, hlen, Nat.add_sub_cancel]
  · have hsound : (l.upsert p v).1.Sound := h.upsert p v
    rw [upsert_of_le hv (not_lt.mp hlt)] at hsound ⊢
    exact hsound.cut_eq.symm

/-- To push out the worst level after each write, or all that are too many after the last, is the same. -/
theorem make_eq_cut (h : l.Sound) {changes : List Change} (hpos : ∀ c ∈ changes, c.volume.isZero = false) :
    (l.make changes).1 = (l.writtenAll changes).cut := by
  induction changes generalizing l with
  | nil => exact h.cut_eq.symm
  | cons c cs ih =>
    obtain ⟨hc, hcs⟩ := List.forall_mem_cons.mp hpos
    have hnext : (l.upsert c.price c.volume).1 = (l.written c.price c.volume).cut := upsert_eq_cut h c.price hc
    calc ((l.upsert c.price c.volume).1.make cs).1
      _ = ((l.upsert c.price c.volume).1.writtenAll cs).cut := ih (h.upsert c.price c.volume) hcs
      _ = ((l.written c.price c.volume).cut.writtenAll cs).cut := by rw [hnext]
      _ = ((l.written c.price c.volume).writtenAll cs).cut := cut_writtenAll (rising_write h.rising _) cs

end Ladder

/-! ## What is written at a price -/

/-- A level as it is stored over the one at its price, if there is one. -/
def Level.over (new : Level) : Option Level → Level
  | none => new
  | some old => { old with volume := new.volume }

namespace Levels

/-- What levels written one after another at one price leave there. -/
def stack (new : List Level) (old : Option Level) : Option Level :=
  new.foldl (fun old x => some (x.over old)) old

theorem stack_some (new : List Level) (old : Level) :
    stack new (some old) = some { old with volume := (new.getLast?.map (·.volume)).getD old.volume } := by
  induction new generalizing old with
  | nil => rfl
  | cons x xs ih =>
    refine (ih { old with volume := x.volume }).trans ?_
    rw [List.getLast?_cons]
    cases xs.getLast? <;> rfl

theorem stack_concat (new : List Level) (x : Level) (old : Option Level) :
    stack (new ++ [x]) old = some (x.over (stack new old)) := by
  rw [stack, List.foldl_append]
  rfl

theorem volume_over (new : Level) (old : Option Level) : (new.over old).volume = new.volume := by
  cases old <;> rfl

theorem volume_stack (new : List Level) (old : Option Level) :
    (stack new old).map (·.volume) = (new.getLast?.map (·.volume)).or (old.map (·.volume)) := by
  rcases List.eq_nil_or_concat new with rfl | ⟨xs, x, rfl⟩
  · rfl
  · rw [List.concat_eq_append, stack_concat, List.getLast?_concat, Option.map_some, volume_over]
    rfl

theorem stack_twice (new : List Level) (old : Option Level) : stack new (stack new old) = stack new old := by
  rcases List.eq_nil_or_concat new with rfl | ⟨xs, x, rfl⟩
  · rfl
  · rw [List.concat_eq_append, stack_concat xs x old, stack_some, List.getLast?_concat, Option.map_some, Option.getD_some,
      ← volume_over x (stack xs old)]

variable {levels xs ys : List Level} {p : Price}

theorem find?_cons_of_same {l : Level} (h : l.price.number = p.number) (ls : List Level) :
    find? p (l :: ls) = some l :=
  List.find?_cons_of_pos (Decimal.sameNumber_iff.mpr h)

theorem find?_cons_of_ne {l : Level} (h : l.price.number ≠ p.number) (ls : List Level) :
    find? p (l :: ls) = find? p ls :=
  List.find?_cons_of_neg (mt Decimal.sameNumber_iff.mp h)

theorem find?_eq_none_of_lt (h : ∀ x ∈ levels, p.number < x.price.number) : find? p levels = none :=
  List.find?_eq_none.mpr fun x hx hp => (h x hx).ne' (Decimal.sameNumber_iff.mp hp)

theorem find?_write_of_same (h : Rising levels) {new : Level} (hp : new.price.number = p.number) :
    find? p (write new levels) = some (new.over (find? p levels)) := by
  induction levels with
  | nil => exact find?_cons_of_same hp []
  | cons l ls ih =>
    obtain ⟨hl, hls⟩ := List.pairwise_cons.mp h
    rw [write]
    split
    next hc =>
      have hn : p.number < l.price.number := hp ▸ Decimal.compare_eq_lt_iff.mp hc
      have hnone : find? p (l :: ls) = none :=
        find?_eq_none_of_lt (List.forall_mem_cons.mpr ⟨hn, fun x hx => hn.trans (hl x hx)⟩)
      rw [find?_cons_of_same hp, hnone]
      rfl
    next hc =>
      have hn : l.price.number = p.number := (Decimal.compare_eq_eq_iff.mp hc).symm.trans hp
      rw [find?_cons_of_same hn]
      exact find?_cons_of_same (l := { l with volume := new.volume }) hn ls
    next hc =>
      have hn : l.price.number ≠ p.number := hp ▸ (Decimal.compare_eq_gt_iff.mp hc).ne
      rw [find?_cons_of_ne hn, find?_cons_of_ne hn, ih hls]

theorem find?_write_of_ne {new : Level} (hp : new.price.number ≠ p.number) (levels : List Level) :
    find? p (write new levels) = find? p levels := by
  induction levels with
  | nil => exact find?_cons_of_ne hp []
  | cons l ls ih =>
    rw [write]
    split
    next => exact find?_cons_of_ne hp _
    next hc =>
      have hn : l.price.number ≠ p.number := Decimal.compare_eq_eq_iff.mp hc ▸ hp
      rw [find?_cons_of_ne hn]
      exact find?_cons_of_ne (l := { l with volume := new.volume }) hn ls
    next =>
      by_cases hn : l.price.number = p.number
      · rw [find?_cons_of_same hn, find?_cons_of_same hn]
      · rw [find?_cons_of_ne hn, find?_cons_of_ne hn, ih]

theorem find?_writeAll (h : Rising levels) (new : List Level) (p : Price) :
    find? p (writeAll new levels) = stack (new.filter (·.price.sameNumber p)) (find? p levels) := by
  induction new generalizing levels with
  | nil => rfl
  | cons x xs ih =>
    refine (ih (rising_write h x)).trans ?_
    by_cases hp : x.price.number = p.number
    · have hsame := Decimal.sameNumber_iff.mpr hp
      rw [List.filter_cons, if_pos hsame, find?_write_of_same h hp]
      rfl
    · have hsame := mt Decimal.sameNumber_iff.mp hp
      rw [List.filter_cons, if_neg hsame, find?_write_of_ne hp]

/-- Levels by rising price are known from what is found at each price. -/
theorem Rising.ext (hx : Rising xs) (hy : Rising ys) (h : ∀ p, find? p xs = find? p ys) : xs = ys := by
  refine eq_of_rising_key (fun l : Level => l.price.number) hx hy fun l => ?_
  have hxl := find?_eq_some_iff hx (p := l.price) (x := l)
  have hyl := find?_eq_some_iff hy (p := l.price) (x := l)
  rw [and_iff_left rfl] at hxl hyl
  rw [← hxl, h, hyl]

theorem holds_iff_find? (h : Rising levels) {v : Volume} :
    Holds levels p.number v ↔ (find? p levels).map (·.volume) = some v := by
  simp only [Option.map_eq_some_iff, find?_eq_some_iff h, and_assoc]
  rfl

theorem writeAll_twice (h : Rising levels) (new : List Level) :
    writeAll new (writeAll new levels) = writeAll new levels := by
  have hnew := rising_writeAll h new
  refine (rising_writeAll hnew new).ext hnew fun p => ?_
  rw [find?_writeAll hnew, find?_writeAll h, stack_twice]

theorem writeAll_congr (h : Rising levels)
    (hxy : ∀ p : Price, xs.filter (·.price.sameNumber p) = ys.filter (·.price.sameNumber p)) :
    writeAll xs levels = writeAll ys levels := by
  refine (rising_writeAll h xs).ext (rising_writeAll h ys) fun p => ?_
  rw [find?_writeAll h, find?_writeAll h, hxy]

end Levels

namespace Ladder
open Levels

variable {l : Ladder}

theorem writtenAll_twice (h : Rising l.rising) (changes : List Change) :
    (l.writtenAll changes).writtenAll changes = l.writtenAll changes :=
  congrArg (Ladder.mk l.side l.maxDepth) (writeAll_twice h _)

theorem make_twice (h : l.Sound) {changes : List Change} (hpos : ∀ c ∈ changes, c.volume.isZero = false) :
    ((l.make changes).1.make changes).1 = (l.make changes).1 := by
  have hwritten : Rising (l.writtenAll changes).rising := rising_writeAll h.rising _
  rw [make_eq_cut (h.make changes) hpos, make_eq_cut h hpos, cut_writtenAll hwritten, writtenAll_twice h.rising]

/-- Changes are free to move past those at other prices. -/
theorem make_congr (h : l.Sound) {changes changes' : List Change} (hpos : ∀ c ∈ changes, c.volume.isZero = false)
    (hpos' : ∀ c ∈ changes', c.volume.isZero = false)
    (heq : ∀ p : Price, (changes.map Change.level).filter (·.price.sameNumber p) =
      (changes'.map Change.level).filter (·.price.sameNumber p)) :
    (l.make changes).1 = (l.make changes').1 := by
  rw [make_eq_cut h hpos, make_eq_cut h hpos', writtenAll, writtenAll, writeAll_congr h.rising heq]

end Ladder

end MarketMinutes
