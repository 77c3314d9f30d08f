import Mathlib.Data.List.Sort
import MarketMinutes.Proofs.Book.Ladder

/-!
# What a side holds

A side read as a partial map from numbers to volumes. Writing, erasing and
dropping the worst level each change this map at one number, and the length by
at most one.
-/

namespace MarketMinutes

/-! ## Better and worse numbers -/

/-- How good a number is on a side: the higher the better. -/
def Side.rank : Side → ℚ → ℚ
  | bid, q => q
  | ask, q => -q

theorem Side.rank_inj {s : Side} {a b : ℚ} (h : s.rank a = s.rank b) : a = b := by
  cases s with
  | bid => exact h
  | ask => exact neg_injective h

theorem Side.better_iff {s : Side} {a b : Decimal} : s.better a b = true ↔ s.rank b.number < s.rank a.number := by
  cases s with
  | bid => exact Decimal.isLT_iff
  | ask => exact Decimal.isLT_iff.trans neg_lt_neg_iff.symm

namespace Levels

def Holds (levels : List Level) (q : ℚ) (v : Volume) : Prop :=
  ∃ x ∈ levels, x.price.number = q ∧ x.volume = v

def Has (levels : List Level) (q : ℚ) : Prop :=
  ∃ x ∈ levels, x.price.number = q

theorem Holds.has {levels : List Level} {q : ℚ} {v : Volume} (h : Holds levels q v) : Has levels q := by
  obtain ⟨x, hx, hq, -⟩ := h
  exact ⟨x, hx, hq⟩

theorem holds_cons_iff {l : Level} {ls : List Level} {q : ℚ} {v : Volume} :
    Holds (l :: ls) q v ↔ (l.price.number = q ∧ l.volume = v) ∨ Holds ls q v := by
  simp [Holds]

theorem has_cons_iff {l : Level} {ls : List Level} {q : ℚ} :
    Has (l :: ls) q ↔ l.price.number = q ∨ Has ls q := by
  simp [Has]

theorem Rising.not_has {l : Level} {ls : List Level} (h : Rising (l :: ls)) {q : ℚ}
    (hq : q ≤ l.price.number) : ¬ Has ls q := by
  rintro ⟨x, hx, rfl⟩
  exact absurd ((List.pairwise_cons.mp h).1 x hx) (not_lt.mpr hq)

/-! ## Writing and erasing -/

theorem holds_write_iff {levels : List Level} (h : Rising levels) {new : Level} {q : ℚ} {v : Volume} :
    Holds (write new levels) q v ↔
      if q = new.price.number then v = new.volume else Holds levels q v := by
  induction levels with
  | nil =>
    by_cases hq : q = new.price.number
    · simp [write, Holds, hq, eq_comm]
    · simp [write, Holds, hq, Ne.symm hq]
  | cons l ls ih =>
    have hls : Rising ls := (List.pairwise_cons.mp h).2
    rw [write]
    split
    next hc =>
      have hn := Decimal.compare_eq_lt_iff.mp hc
      rw [holds_cons_iff]
      by_cases hq : q = new.price.number
      · have hl : ¬ Holds (l :: ls) q v := by
          intro hx
          rcases has_cons_iff.mp hx.has with hl | hx
          · exact absurd (hl.trans hq) hn.ne'
          · exact h.not_has (hq ▸ hn.le) hx
        simp [hq, hq ▸ hl, eq_comm]
      · simp [hq, Ne.symm hq]
    next hc =>
      have hn := Decimal.compare_eq_eq_iff.mp hc
      rw [holds_cons_iff, holds_cons_iff]
      by_cases hq : q = new.price.number
      · have hl : ¬ Holds ls l.price.number v := fun hx => h.not_has le_rfl hx.has
        simp [hq, hl, hn, eq_comm]
      · have hl : l.price.number ≠ q := fun hl => hq (hl.symm.trans hn.symm)
        simp [hq, hl]
    next hc =>
      have hn := Decimal.compare_eq_gt_iff.mp hc
      rw [holds_cons_iff, holds_cons_iff, ih hls]
      by_cases hq : q = new.price.number
      · simp [hq, hn.ne]
      · simp [hq]

theorem length_write_of_has {levels : List Level} (h : Rising levels) {new : Level}
    (hn : Has levels new.price.number) : (write new levels).length = levels.length := by
  induction levels with
  | nil => simp [Has] at hn
  | cons l ls ih =>
    rw [write]
    split
    next hc =>
      have hlt := Decimal.compare_eq_lt_iff.mp hc
      rcases has_cons_iff.mp hn with hl | hx
      · exact absurd hl hlt.ne'
      · exact absurd hx (h.not_has hlt.le)
    · rfl
    next hc =>
      have hgt := Decimal.compare_eq_gt_iff.mp hc
      have hx : Has ls new.price.number := (has_cons_iff.mp hn).resolve_left hgt.ne
      rw [List.length_cons, List.length_cons, ih (List.pairwise_cons.mp h).2 hx]

theorem length_write_of_not_has {levels : List Level} {new : Level} (hn : ¬ Has levels new.price.number) :
    (write new levels).length = levels.length + 1 := by
  induction levels with
  | nil => rfl
  | cons l ls ih =>
    rw [has_cons_iff, not_or] at hn
    rw [write]
    split
    · rfl
    next hc => exact absurd (Decimal.compare_eq_eq_iff.mp hc).symm hn.1
    · rw [List.length_cons, List.length_cons, ih hn.2]

theorem holds_erase_iff {levels : List Level} {p : Price} {q : ℚ} {v : Volume} :
    Holds (erase p levels) q v ↔ q ≠ p.number ∧ Holds levels q v := by
  constructor
  · rintro ⟨x, hx, rfl, rfl⟩
    obtain ⟨hx, hp⟩ := List.mem_filter.mp hx
    rw [Bool.not_eq_true', ← Bool.not_eq_true, Decimal.sameNumber_iff] at hp
    exact ⟨hp, x, hx, rfl, rfl⟩
  · rintro ⟨hq, x, hx, rfl, rfl⟩
    refine ⟨x, List.mem_filter.mpr ⟨hx, ?_⟩, rfl, rfl⟩
    rw [Bool.not_eq_true', ← Bool.not_eq_true, Decimal.sameNumber_iff]
    exact hq

theorem erase_of_not_has {levels : List Level} {p : Price} (h : ¬ Has levels p.number) :
    erase p levels = levels := by
  refine List.filter_eq_self.mpr fun x hx => ?_
  rw [Bool.not_eq_true', ← Bool.not_eq_true, Decimal.sameNumber_iff]
  exact fun hp => h ⟨x, hx, hp⟩

theorem length_erase_of_has {levels : List Level} (h : Rising levels) {p : Price}
    (hp : Has levels p.number) : (erase p levels).length + 1 = levels.length := by
  induction levels with
  | nil => simp [Has] at hp
  | cons l ls ih =>
    by_cases hl : l.price.number = p.number
    · have hx : ¬ Has ls p.number := h.not_has hl.ge
      have he : erase p (l :: ls) = erase p ls := by
        unfold erase
        rw [List.filter_cons_of_neg]
        simpa using hl
      rw [he, erase_of_not_has hx, List.length_cons]
    · have hx : Has ls p.number := (has_cons_iff.mp hp).resolve_left hl
      have he : erase p (l :: ls) = l :: erase p ls := by
        unfold erase
        rw [List.filter_cons_of_pos]
        rw [Bool.not_eq_true', ← Bool.not_eq_true, Decimal.sameNumber_iff]
        exact hl
      rw [he, List.length_cons, List.length_cons, ih (List.pairwise_cons.mp h).2 hx]

end Levels

/-! ## The worst level -/

namespace Ladder
open Levels

theorem isSome_volume?_iff {l : Ladder} {p : Price} : (l.volume? p).isSome = true ↔ Has l.rising p.number := by
  rw [volume?, Option.isSome_map, find?, List.find?_isSome]
  simp only [Decimal.sameNumber_iff]
  rfl

theorem volume?_eq_none_iff {l : Ladder} {p : Price} : l.volume? p = none ↔ ¬ Has l.rising p.number := by
  rw [← isSome_volume?_iff, Option.not_isSome_iff_eq_none]

theorem holds_levels_iff {l : Ladder} {q : ℚ} {v : Volume} : Holds l.levels q v ↔ Holds l.rising q v := by
  simp only [Holds, mem_levels]

/-- The worst level comes first or last by number; the others rank above it. -/
theorem worst_cases {l : Ladder} (hr : Rising l.rising) (hl : l.rising ≠ []) :
    ∃ w, l.worst? = some w ∧ (l.rising = w :: l.dropWorst.rising ∨ l.rising = l.dropWorst.rising ++ [w]) ∧
      ∀ x ∈ l.dropWorst.rising, l.side.rank w.price.number < l.side.rank x.price.number := by
  cases hs : l.side with
  | bid =>
    obtain ⟨w, ls, hw⟩ := List.exists_cons_of_ne_nil hl
    have hd : l.dropWorst.rising = ls := by simp [dropWorst, hs, hw]
    rw [hw] at hr
    refine ⟨w, by simp [worst?, hs, hw], .inl (by rw [hd, hw]), fun x hx => ?_⟩
    rw [hd] at hx
    exact (List.pairwise_cons.mp hr).1 x hx
  | ask =>
    obtain ⟨ls, w, hw⟩ := (List.eq_nil_or_concat l.rising).resolve_left hl
    rw [List.concat_eq_append] at hw
    have hd : l.dropWorst.rising = ls := by simp [dropWorst, hs, hw]
    rw [hw] at hr
    refine ⟨w, by simp [worst?, hs, hw], .inr (by rw [hd, hw]), fun x hx => ?_⟩
    rw [hd] at hx
    exact neg_lt_neg ((List.pairwise_append.mp hr).2.2 x hx w (List.mem_singleton_self w))

theorem worst_spec {l : Ladder} (hr : Rising l.rising) (hl : l.rising ≠ []) :
    ∃ w, l.worst? = some w ∧ w ∈ l.rising ∧
      (∀ x ∈ l.rising, l.side.rank w.price.number ≤ l.side.rank x.price.number) ∧
      ∀ q v, Holds l.dropWorst.rising q v ↔ q ≠ w.price.number ∧ Holds l.rising q v := by
  obtain ⟨w, hw, hsplit, hd⟩ := worst_cases hr hl
  have hmem : ∀ x, x ∈ l.rising ↔ x = w ∨ x ∈ l.dropWorst.rising := by
    intro x
    rcases hsplit with h | h
    · rw [h, List.mem_cons]
    · rw [h, List.mem_append, List.mem_singleton, or_comm]
  refine ⟨w, hw, (hmem w).mpr (.inl rfl), fun x hx => ?_, fun q v => ⟨?_, ?_⟩⟩
  · rcases (hmem x).mp hx with rfl | hx
    · exact le_refl _
    · exact (hd x hx).le
  · rintro ⟨x, hx, rfl, rfl⟩
    exact ⟨fun h => absurd (hd x hx) (h ▸ lt_irrefl _), x, (hmem x).mpr (.inr hx), rfl, rfl⟩
  · rintro ⟨hq, x, hx, rfl, rfl⟩
    rcases (hmem x).mp hx with rfl | hx
    · exact absurd rfl hq
    · exact ⟨x, hx, rfl, rfl⟩

/-! ## One change -/

/-- A side with a level written, before anything is pushed out. -/
def written (l : Ladder) (p : Price) (v : Volume) : Ladder :=
  { l with rising := write ⟨p, v⟩ l.rising }

theorem upsert_of_zero (l : Ladder) (p : Price) {v : Volume} (hv : v.isZero = true) :
    l.upsert p v = (l.erase p, none) := by
  rw [upsert, if_pos hv]

theorem upsert_of_le {l : Ladder} {p : Price} {v : Volume} (hv : v.isZero = false)
    (h : (l.written p v).length ≤ l.maxDepth) : l.upsert p v = (l.written p v, none) := by
  have hlt : ¬ l.maxDepth < (l.written p v).length := not_lt.mpr h
  simp only [written] at hlt
  simp [upsert, hv, hlt, written]

theorem upsert_of_lt {l : Ladder} {p : Price} {v : Volume} (hv : v.isZero = false)
    (h : l.maxDepth < (l.written p v).length) :
    l.upsert p v = ((l.written p v).dropWorst, (l.written p v).worst?) := by
  simp only [written] at h
  simp [upsert, hv, h, written]

theorem length_written_of_has {l : Ladder} (h : l.Sound) {p : Price} {v : Volume} (hp : Has l.rising p.number) :
    (l.written p v).length = l.length :=
  length_write_of_has h.rising hp

theorem length_written_of_not_has {l : Ladder} {p : Price} {v : Volume} (hp : ¬ Has l.rising p.number) :
    (l.written p v).length = l.length + 1 :=
  length_write_of_not_has hp

end Ladder

/-! ## Levels from best to worst -/

/-- Lists that rise strictly by one key are equal if they have the same members. -/
theorem eq_of_rising_key {α : Type} (key : α → ℚ) {xs ys : List α} (hx : xs.Pairwise fun a b => key a < key b)
    (hy : ys.Pairwise fun a b => key a < key b) (h : ∀ a, a ∈ xs ↔ a ∈ ys) : xs = ys := by
  have hirrefl : Std.Irrefl fun a b => key a < key b := ⟨fun a => lt_irrefl (key a)⟩
  have hantisymm : Std.Antisymm fun a b => key a < key b := ⟨fun a b hab hba => absurd hba (not_lt.mpr hab.le)⟩
  exact List.Pairwise.eq_of_mem_iff hx hy h

namespace Levels

/-- Every level is strictly better than those behind it. -/
def Falls (side : Side) (levels : List Level) : Prop :=
  levels.Pairwise fun x y => side.rank y.price.number < side.rank x.price.number

end Levels

namespace Ladder

theorem fromBest_falls {l : Ladder} (h : Levels.Rising l.rising) : Levels.Falls l.side l.fromBest := by
  unfold Levels.Falls fromBest
  cases l.side with
  | bid => exact List.pairwise_reverse.mpr h
  | ask => exact h.imp neg_lt_neg

theorem mem_fromBest {l : Ladder} {x : Level} : x ∈ l.fromBest ↔ x ∈ l.rising := by
  rw [fromBest_eq_reverse, List.mem_reverse, mem_levels]

theorem length_fromBest (l : Ladder) : l.fromBest.length = l.length := by
  rw [fromBest_eq_reverse, List.length_reverse, length_levels]

theorem best?_eq_none_iff {l : Ladder} : l.best? = none ↔ l.isEmpty = true := by
  rw [best?_eq_getLast?, List.getLast?_eq_none_iff, isEmpty_iff]

theorem fromBest_ne_nil {l : Ladder} {x : Level} (h : l.best? = some x) : l.fromBest ≠ [] := by
  intro hnil
  rw [best?_eq_getLast?, ← List.head?_reverse, ← fromBest_eq_reverse, hnil] at h
  cases h

theorem exists_best? {l : Ladder} (h : l.isEmpty = false) : ∃ x, l.best? = some x := by
  rw [← Bool.not_eq_true, ← best?_eq_none_iff] at h
  exact Option.ne_none_iff_exists'.mp h

end Ladder

end MarketMinutes
