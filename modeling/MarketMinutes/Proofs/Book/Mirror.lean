import MarketMinutes.Proofs.Book.LinearScan
import MarketMinutes.Proofs.Book.Writes

/-!
# Sides mirrored

Negating every price turns the order of levels around, so a side becomes one of
the other kind, with its best end where the best end was. What the other side
does with a negated price is what this one does with the price, mirrored.
-/

namespace MarketMinutes

namespace Side

def opposite : Side → Side
  | bid => ask
  | ask => bid

theorem rank_opposite (s : Side) (q : ℚ) : s.opposite.rank (-q) = s.rank q := by
  cases s with
  | bid => exact neg_neg q
  | ask => rfl

theorem better_opposite (s : Side) {a b a' b' : Decimal} (ha : a'.number = -a.number) (hb : b'.number = -b.number) :
    s.opposite.better a' b' = s.better a b := by
  rw [Bool.eq_iff_iff, better_iff, better_iff, ha, hb, rank_opposite, rank_opposite]

end Side

/-- A level at the negated price. -/
def Level.mirrored (l : Level) : Level :=
  { l with price := l.price.neg }

theorem Level.number_mirrored (l : Level) : l.mirrored.price.number = -l.price.number :=
  l.price.number_neg

theorem Level.mirrored_over (new : Level) (old : Option Level) :
    new.mirrored.over (old.map mirrored) = (new.over old).mirrored := by
  cases old <;> rfl

/-! ## Levels by rising price -/

namespace Levels

def mirrored (levels : List Level) : List Level :=
  (levels.map Level.mirrored).reverse

theorem mem_mirrored {levels : List Level} {x : Level} : x ∈ mirrored levels ↔ ∃ y ∈ levels, y.mirrored = x := by
  rw [mirrored, List.mem_reverse, List.mem_map]

variable {levels : List Level}

theorem rising_mirrored (h : Rising levels) : Rising (mirrored levels) := by
  refine List.pairwise_reverse.mpr (List.pairwise_map.mpr (h.imp fun hxy => ?_))
  rw [Level.number_mirrored, Level.number_mirrored]
  exact neg_lt_neg hxy

theorem find?_mirrored (h : Rising levels) (p : Price) :
    find? p.neg (mirrored levels) = (find? p levels).map Level.mirrored := by
  refine Option.ext fun x => ?_
  rw [find?_eq_some_iff (rising_mirrored h), mem_mirrored, Option.map_eq_some_iff]
  constructor
  · rintro ⟨⟨y, hy, rfl⟩, hp⟩
    rw [Level.number_mirrored, Decimal.number_neg, neg_inj] at hp
    exact ⟨y, (find?_eq_some_iff h).mpr ⟨hy, hp⟩, rfl⟩
  · rintro ⟨y, hy, rfl⟩
    obtain ⟨hy, hp⟩ := (find?_eq_some_iff h).mp hy
    refine ⟨⟨y, hy, rfl⟩, ?_⟩
    rw [Level.number_mirrored, Decimal.number_neg, hp]

theorem write_mirrored (h : Rising levels) (new : Level) :
    write new.mirrored (mirrored levels) = mirrored (write new levels) := by
  have hmirrored := rising_mirrored h
  refine (rising_write hmirrored _).ext (rising_mirrored (rising_write h new)) fun q => ?_
  -- Every price is the mirror of one.
  rw [← Decimal.neg_involutive q]
  generalize q.neg = p
  rw [find?_mirrored (rising_write h new)]
  by_cases hp : new.price.number = p.number
  · have hmirror : new.mirrored.price.number = p.neg.number := by
      rw [Level.number_mirrored, Decimal.number_neg, hp]
    rw [find?_write_of_same hmirrored hmirror, find?_write_of_same h hp, find?_mirrored h, Level.mirrored_over]
    rfl
  · have hmirror : new.mirrored.price.number ≠ p.neg.number := by
      rw [Level.number_mirrored, Decimal.number_neg]
      exact mt neg_inj.mp hp
    rw [find?_write_of_ne hmirror, find?_write_of_ne hp, find?_mirrored h]

theorem erase_mirrored (p : Price) (levels : List Level) :
    erase p.neg (mirrored levels) = mirrored (erase p levels) := by
  unfold erase mirrored
  rw [List.filter_reverse, List.filter_map]
  refine congrArg (fun kept => (kept.map Level.mirrored).reverse) (List.filter_congr fun x _ => ?_)
  exact congrArg (!·) (Decimal.sameNumber_neg x.price p)

end Levels

/-! ## Sides -/

namespace Ladder
open Levels

def mirrored (l : Ladder) : Ladder :=
  ⟨l.side.opposite, l.maxDepth, Levels.mirrored l.rising⟩

theorem levels_mirrored (l : Ladder) : l.mirrored.levels = l.levels.map Level.mirrored := by
  unfold mirrored levels
  cases l.side with
  | bid => exact List.reverse_reverse _
  | ask => exact List.map_reverse.symm

theorem fromBest_mirrored (l : Ladder) : l.mirrored.fromBest = l.fromBest.map Level.mirrored := by
  rw [fromBest_eq_reverse, fromBest_eq_reverse, levels_mirrored, List.map_reverse]

theorem best?_mirrored (l : Ladder) : l.mirrored.best? = l.best?.map Level.mirrored := by
  rw [best?_eq_getLast?, best?_eq_getLast?, levels_mirrored, List.getLast?_map]

theorem worst?_mirrored (l : Ladder) : l.mirrored.worst? = l.worst?.map Level.mirrored := by
  rw [worst?_eq_head?, worst?_eq_head?, levels_mirrored, List.head?_map]

theorem length_mirrored (l : Ladder) : l.mirrored.length = l.length := by
  rw [← length_levels, levels_mirrored, List.length_map, length_levels]

theorem dropWorst_mirrored (l : Ladder) : l.mirrored.dropWorst = l.dropWorst.mirrored := by
  unfold mirrored dropWorst Levels.mirrored
  cases l.side with
  | bid => simp only [Side.opposite, List.drop_one, List.dropLast_reverse, List.map_tail]
  | ask => simp only [Side.opposite, List.drop_one, List.tail_reverse, List.map_dropLast]

theorem erase_mirrored (l : Ladder) (p : Price) : l.mirrored.erase p.neg = (l.erase p).mirrored :=
  congrArg (Ladder.mk l.side.opposite l.maxDepth) (Levels.erase_mirrored p l.rising)

variable {l : Ladder}

theorem volume?_mirrored (h : Rising l.rising) (p : Price) : l.mirrored.volume? p.neg = l.volume? p := by
  rw [volume?, mirrored, find?_mirrored h, Option.map_map]
  rfl

theorem delete_mirrored (h : Rising l.rising) (p : Price) :
    l.mirrored.delete p.neg = ((l.delete p).1.mirrored, (l.delete p).2) := by
  rw [delete, erase_mirrored, volume?_mirrored h]
  rfl

theorem written_mirrored (h : Rising l.rising) (p : Price) (v : Volume) :
    l.mirrored.written p.neg v = (l.written p v).mirrored :=
  congrArg (Ladder.mk l.side.opposite l.maxDepth) (write_mirrored h ⟨p, v⟩)

theorem upsert_mirrored (h : Rising l.rising) (p : Price) (v : Volume) :
    l.mirrored.upsert p.neg v = ((l.upsert p v).1.mirrored, (l.upsert p v).2.map Level.mirrored) := by
  cases hv : v.isZero with
  | true =>
    rw [upsert_of_zero _ _ hv, upsert_of_zero _ _ hv, erase_mirrored]
    rfl
  | false =>
    have hwritten := written_mirrored h p v
    have hlength : (l.mirrored.written p.neg v).length = (l.written p v).length := by rw [hwritten, length_mirrored]
    by_cases hlt : l.maxDepth < (l.written p v).length
    · have hlt' : l.mirrored.maxDepth < (l.mirrored.written p.neg v).length := hlt.trans_eq hlength.symm
      rw [upsert_of_lt hv hlt, upsert_of_lt hv hlt', hwritten, dropWorst_mirrored, worst?_mirrored]
    · have hle := not_lt.mp hlt
      have hle' : (l.mirrored.written p.neg v).length ≤ l.mirrored.maxDepth := hlength.trans_le hle
      rw [upsert_of_le hv hle, upsert_of_le hv hle', hwritten]
      rfl

end Ladder

/-! ## Step by step -/

def Step.mirrored : Step → Step
  | .upsert p v => .upsert p.neg v
  | .delete p => .delete p.neg

namespace Ladder
open Levels

def through (l : Ladder) (steps : List Step) : Ladder :=
  steps.foldl (fun l s => (l.step s).1) l

variable {l : Ladder}

theorem Sound.step (h : l.Sound) (s : Step) : (l.step s).1.Sound := by
  cases s with
  | upsert p v => exact h.upsert p v
  | delete p => exact h.erase p

theorem Sound.through (h : l.Sound) (steps : List Step) : (l.through steps).Sound := by
  induction steps generalizing l with
  | nil => exact h
  | cons s ss ih => exact ih (h.step s)

theorem step_mirrored (h : Rising l.rising) (s : Step) : (l.mirrored.step s.mirrored).1 = (l.step s).1.mirrored := by
  cases s with
  | upsert p v => exact congrArg Prod.fst (upsert_mirrored h p v)
  | delete p => exact congrArg Prod.fst (delete_mirrored h p)

theorem through_mirrored (h : l.Sound) (steps : List Step) :
    l.mirrored.through (steps.map Step.mirrored) = (l.through steps).mirrored := by
  induction steps generalizing l with
  | nil => rfl
  | cons s ss ih =>
    have hrest := ih (h.step s)
    rwa [← step_mirrored h.rising] at hrest

end Ladder
end MarketMinutes
