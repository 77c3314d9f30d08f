import MarketMinutes.Book.Ladder
import MarketMinutes.Proofs.Decimal.Number

/-!
# Sides in order

A side is sound if its levels rise strictly by number, hold volumes above
zero, and are no more than its depth allows. Writing and erasing levels keep
a side sound. On a sound side a price is found exactly where its number is.
-/

namespace MarketMinutes

theorem Volume.number_nonneg (v : Volume) : 0 ≤ v.value.number := by
  have h := v.nonnegative
  rw [← Bool.not_eq_true, Decimal.isNegative_iff] at h
  exact not_lt.mp h

theorem Volume.value_injective : Function.Injective Volume.value := by
  rintro ⟨v, hv⟩ ⟨v', hv'⟩ h
  cases h
  rfl

theorem Volume.isZero_iff {v : Volume} : v.isZero = true ↔ v.value.number = 0 :=
  Decimal.isZero_iff

theorem Volume.number_pos {v : Volume} (h : v.isZero = false) : 0 < v.value.number := by
  rw [← Bool.not_eq_true, Volume.isZero_iff] at h
  exact lt_of_le_of_ne v.number_nonneg (Ne.symm h)

namespace Levels

/-- Prices rise strictly, so no two stand for one number. -/
def Rising (levels : List Level) : Prop :=
  levels.Pairwise fun x y => x.price.number < y.price.number

theorem Rising.eq_of_number {levels : List Level} (h : Rising levels) {x y : Level} (hx : x ∈ levels)
    (hy : y ∈ levels) (hxy : x.price.number = y.price.number) : x = y := by
  induction levels with
  | nil => cases hx
  | cons l ls ih =>
    obtain ⟨hl, hls⟩ := List.pairwise_cons.mp h
    rcases List.mem_cons.mp hx with rfl | hx' <;> rcases List.mem_cons.mp hy with rfl | hy'
    · rfl
    · exact absurd hxy (hl y hy').ne
    · exact absurd hxy (hl x hx').ne'
    · exact ih hls hx' hy'

theorem number_of_find?_eq_some {levels : List Level} {p : Price} {x : Level} (h : find? p levels = some x) :
    x.price.number = p.number := by
  unfold find? at h
  have hp := List.find?_some h
  exact Decimal.sameNumber_iff.mp hp

theorem find?_eq_some_iff {levels : List Level} (h : Rising levels) {p : Price} {x : Level} :
    find? p levels = some x ↔ x ∈ levels ∧ x.price.number = p.number := by
  constructor
  · intro hf
    exact ⟨List.mem_of_find?_eq_some hf, number_of_find?_eq_some hf⟩
  · rintro ⟨hx, hp⟩
    cases hf : find? p levels with
    | none =>
      have := List.find?_eq_none.mp hf x hx
      exact absurd (Decimal.sameNumber_iff.mpr hp) this
    | some y =>
      have hy := number_of_find?_eq_some hf
      rw [h.eq_of_number (List.mem_of_find?_eq_some hf) hx (hy.trans hp.symm)]

/-! ## Writing -/

/-- A level behind a write is an old one, or has the number and the volume written. -/
theorem mem_of_mem_write {new x : Level} {levels : List Level} (h : x ∈ write new levels) :
    x ∈ levels ∨ (x.price.number = new.price.number ∧ x.volume = new.volume) := by
  induction levels with
  | nil =>
    rw [write, List.mem_singleton] at h
    exact .inr ⟨by rw [h], by rw [h]⟩
  | cons l ls ih =>
    rw [write] at h
    split at h
    · rcases List.mem_cons.mp h with rfl | h
      · exact .inr ⟨rfl, rfl⟩
      · exact .inl h
    next hc =>
      rcases List.mem_cons.mp h with rfl | h
      · exact .inr ⟨(Decimal.compare_eq_eq_iff.mp hc).symm, rfl⟩
      · exact .inl (List.mem_cons_of_mem _ h)
    · rcases List.mem_cons.mp h with rfl | h
      · exact .inl (List.mem_cons_self ..)
      · exact (ih h).imp_left (List.mem_cons_of_mem _)

theorem rising_write {levels : List Level} (h : Rising levels) (new : Level) : Rising (write new levels) := by
  induction levels with
  | nil => exact List.pairwise_singleton ..
  | cons l ls ih =>
    obtain ⟨hl, hls⟩ := List.pairwise_cons.mp h
    rw [write]
    split
    next hc =>
      have hn := Decimal.compare_eq_lt_iff.mp hc
      refine List.pairwise_cons.mpr ⟨fun x hx => ?_, h⟩
      rcases List.mem_cons.mp hx with rfl | hx
      · exact hn
      · exact hn.trans (hl x hx)
    · exact List.pairwise_cons.mpr ⟨hl, hls⟩
    next hc =>
      refine List.pairwise_cons.mpr ⟨fun x hx => ?_, ih hls⟩
      rcases mem_of_mem_write hx with hx | ⟨hx, -⟩
      · exact hl x hx
      · exact hx ▸ Decimal.compare_eq_gt_iff.mp hc

theorem write_of_lt {new : Level} {levels : List Level} (h : ∀ x ∈ levels, new.price.number < x.price.number) :
    write new levels = new :: levels := by
  cases levels with
  | nil => rfl
  | cons l ls => rw [write, Decimal.compare_eq_lt_iff.mpr (h l (List.mem_cons_self ..))]

theorem length_le_length_write (new : Level) (levels : List Level) : levels.length ≤ (write new levels).length := by
  induction levels with
  | nil => exact Nat.zero_le _
  | cons l ls ih =>
    rw [write]
    split
    · exact Nat.le_succ _
    · exact Nat.le_refl _
    · exact Nat.succ_le_succ ih

theorem length_write_le (new : Level) (levels : List Level) : (write new levels).length ≤ levels.length + 1 := by
  induction levels with
  | nil => exact Nat.le_refl _
  | cons l ls ih =>
    rw [write]
    split
    · exact Nat.le_refl _
    · exact Nat.le_succ _
    · exact Nat.succ_le_succ ih

end Levels

namespace Ladder

/-! ## Views -/

theorem mem_levels {l : Ladder} {x : Level} : x ∈ l.levels ↔ x ∈ l.rising := by
  unfold levels
  split <;> simp

@[simp] theorem length_levels (l : Ladder) : l.levels.length = l.length := by
  unfold levels length
  split <;> simp

theorem fromBest_eq_reverse (l : Ladder) : l.fromBest = l.levels.reverse := by
  unfold fromBest levels
  split <;> simp

theorem best?_eq_getLast? (l : Ladder) : l.best? = l.levels.getLast? := by
  unfold best? levels
  split <;> simp

theorem worst?_eq_head? (l : Ladder) : l.worst? = l.levels.head? := by
  unfold worst? levels
  split <;> simp

theorem isEmpty_iff {l : Ladder} : l.isEmpty = true ↔ l.levels = [] := by
  rw [isEmpty, List.isEmpty_iff, ← List.length_eq_zero_iff, ← List.length_eq_zero_iff, length_levels, length]

/-! ## Sound sides -/

structure Sound (l : Ladder) : Prop where
  length_le : l.length ≤ l.maxDepth
  rising : Levels.Rising l.rising
  positive : ∀ x ∈ l.rising, 0 < x.volume.value.number

theorem empty_sound (side : Side) (maxDepth : Nat) : (empty side maxDepth).Sound :=
  ⟨Nat.zero_le _, .nil, fun _ h => nomatch h⟩

theorem Sound.of_sublist {l : Ladder} {levels : List Level} (hr : Levels.Rising l.rising)
    (hp : ∀ x ∈ l.rising, 0 < x.volume.value.number) (hs : levels.Sublist l.rising)
    (hl : levels.length ≤ l.maxDepth) : Sound { l with rising := levels } :=
  ⟨hl, hr.sublist hs, fun x hx => hp x (hs.subset hx)⟩

theorem Sound.erase {l : Ladder} (h : l.Sound) (p : Price) : (l.erase p).Sound :=
  .of_sublist h.rising h.positive List.filter_sublist ((List.length_filter_le ..).trans h.length_le)

theorem dropWorst_sublist (l : Ladder) : l.dropWorst.rising.Sublist l.rising := by
  unfold dropWorst
  split
  · exact List.drop_sublist ..
  · exact List.dropLast_sublist ..

theorem length_dropWorst (l : Ladder) : l.dropWorst.length = l.length - 1 := by
  unfold dropWorst length
  split <;> simp

theorem Sound.upsert {l : Ladder} (h : l.Sound) (p : Price) (v : Volume) : (l.upsert p v).1.Sound := by
  cases hv : v.isZero with
  | true =>
    simp only [Ladder.upsert, hv, if_true]
    exact h.erase p
  | false =>
    have hr := Levels.rising_write h.rising ⟨p, v⟩
    have hp : ∀ x ∈ Levels.write ⟨p, v⟩ l.rising, 0 < x.volume.value.number := by
      intro x hx
      rcases Levels.mem_of_mem_write hx with hx | ⟨-, hx⟩
      · exact h.positive x hx
      · exact hx ▸ Volume.number_pos hv
    simp only [Ladder.upsert, hv, Bool.false_eq_true, if_false]
    split
    next hlt =>
      let full : Ladder := { l with rising := Levels.write ⟨p, v⟩ l.rising }
      refine Sound.of_sublist (l := full) hr hp (dropWorst_sublist full) ?_
      have hle : full.length ≤ l.maxDepth + 1 :=
        (Levels.length_write_le ..).trans (Nat.succ_le_succ h.length_le)
      calc full.dropWorst.length
        _ = full.length - 1 := length_dropWorst full
        _ ≤ l.maxDepth := Nat.sub_le_of_le_add hle
    next hle => exact ⟨Nat.not_lt.mp hle, hr, hp⟩

@[simp] theorem upsert_side (l : Ladder) (p : Price) (v : Volume) : (l.upsert p v).1.side = l.side := by
  unfold upsert
  split
  · rfl
  · dsimp only
    split <;> rfl

@[simp] theorem upsert_maxDepth (l : Ladder) (p : Price) (v : Volume) :
    (l.upsert p v).1.maxDepth = l.maxDepth := by
  unfold upsert
  split
  · rfl
  · dsimp only
    split <;> rfl

/-- The volume at a price is that of the one level with its number. -/
theorem Sound.volume?_eq_some_iff {l : Ladder} (h : l.Sound) {p : Price} {v : Volume} :
    l.volume? p = some v ↔ ∃ x ∈ l.levels, x.price.number = p.number ∧ x.volume = v := by
  simp only [volume?, Option.map_eq_some_iff, Levels.find?_eq_some_iff h.rising, mem_levels, and_assoc]

end Ladder
end MarketMinutes
