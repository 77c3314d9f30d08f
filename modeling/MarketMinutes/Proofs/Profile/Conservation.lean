import MarketMinutes.Proofs.Profile.Partition

/-!
# Volume in buckets

The buckets of a side are summed from its best level on, its total volume by
rising price. Where no sum of the volumes needs rounding, both are the exact
sum. Where some do, the two may differ, and one of them may be missing.
-/

namespace MarketMinutes

namespace Levels
variable {levels more : List Level} {s : Nat}

/-- The volumes of levels, summed without rounding. -/
def volume (levels : List Level) : ℚ :=
  (levels.map (·.volume.value.number)).sum

@[simp] theorem volume_append (levels more : List Level) : volume (levels ++ more) = volume levels + volume more := by
  simp [volume]

theorem volume_nonneg (levels : List Level) : 0 ≤ volume levels :=
  List.sum_nonneg (List.forall_mem_map.mpr fun x _ => x.volume.number_nonneg)

theorem volume_of_perm (hp : levels.Perm more) : volume levels = volume more :=
  (hp.map _).sum_eq

/-- Volumes that no sum rounds: natural numbers of one unit, fewer in all than a mantissa holds. -/
structure Addable (s : Nat) (levels : List Level) : Prop where
  scale_le : s ≤ 28
  whole : ∀ x ∈ levels, x.volume.value.IsWhole s
  room : volume levels * 10 ^ s < Decimal.bound

namespace Addable

theorem of_append (h : Addable s (levels ++ more)) : Addable s levels ∧ Addable s more := by
  obtain ⟨hs, hwhole, hroom⟩ := h
  obtain ⟨hlevels, hmore⟩ := List.forall_mem_append.mp hwhole
  rw [volume_append, add_mul] at hroom
  have hl : 0 ≤ volume levels * 10 ^ s := mul_nonneg (volume_nonneg levels) (by positivity)
  have hm : 0 ≤ volume more * 10 ^ s := mul_nonneg (volume_nonneg more) (by positivity)
  exact ⟨⟨hs, hlevels, by linarith⟩, hs, hmore, by linarith⟩

theorem sum (h : Addable s levels) :
    ∃ t, Profile.volume? levels = some t ∧ t.number = volume levels ∧ t.IsWhole s := by
  have hnumbers : ((levels.map (·.volume.value)).map Decimal.number).sum = volume levels := by
    rw [List.map_map]
    rfl
  have hsum := Decimal.sum?_exact h.scale_le (List.forall_mem_map.mpr h.whole) (by rw [hnumbers]; exact h.room)
  rwa [hnumbers] at hsum

theorem of_perm (h : Addable s levels) (hp : levels.Perm more) : Addable s more where
  scale_le := h.scale_le
  whole x hx := h.whole x (hp.mem_iff.mpr hx)
  room := by
    rw [← volume_of_perm hp]
    exact h.room

end Addable
end Levels

theorem Ladder.levels_perm_rising (l : Ladder) : l.levels.Perm l.rising := by
  unfold levels
  split
  · exact .refl _
  · exact List.reverse_perm _

theorem Ladder.levels_perm_fromBest (l : Ladder) : l.levels.Perm l.fromBest := by
  rw [fromBest_eq_reverse]
  exact (List.reverse_perm _).symm

namespace Profile
open Levels (Addable)

section
variable {side : Side} {w : Decimal} {levels : List Level} {runs : List (List Level)} {bs : List Decimal} {s : Nat}

/-- Each bucket of levels that no sum rounds is the exact sum of its run. -/
theorem sum_buckets (h : List.Forall₂ (IsRun side w) runs bs) (hadd : Addable s runs.flatten) :
    (∀ b ∈ bs, b.IsWhole s) ∧ (bs.map Decimal.number).sum = Levels.volume runs.flatten := by
  induction h with
  | nil => exact ⟨List.forall_mem_nil _, rfl⟩
  | @cons run b runs bs hrun _ ih =>
    rw [List.flatten_cons] at hadd ⊢
    obtain ⟨hfirst, hrest⟩ := hadd.of_append
    obtain ⟨hwhole, hnumber⟩ := ih hrest
    obtain ⟨anchor, taken, limit, -, -, -, hsum⟩ := hrun
    obtain ⟨t, ht, htnumber, htwhole⟩ := hfirst.sum
    rw [ht, Option.some.injEq] at hsum
    subst hsum
    exact ⟨List.forall_mem_cons.mpr ⟨htwhole, hwhole⟩,
      by rw [List.map_cons, List.sum_cons, htnumber, hnumber, Levels.volume_append]⟩

theorem Partitions.sum (h : Partitions side w levels runs bs) (hadd : Addable s levels) :
    ∃ t, Decimal.sum? bs = some t ∧ t.number = Levels.volume levels := by
  rw [← h.covers] at hadd ⊢
  obtain ⟨hwhole, hnumber⟩ := sum_buckets h.sums hadd
  obtain ⟨t, ht, htnumber, -⟩ := Decimal.sum?_exact hadd.scale_le hwhole (by rw [hnumber]; exact hadd.room)
  exact ⟨t, ht, htnumber.trans hnumber⟩

end

/-- A profile of any book keeps the volume of a side if no sum of its volumes is rounded: the buckets and the levels
have one total, and that is exact. -/
theorem buckets_conserve_volume {depth : Nat} (hd : 0 < depth) :
    ∃ start, Book.new depth = .ok start ∧ ∀ calls (interval : Interval) p,
      ofBook interval (start.after calls) = .ok p → ∀ side s, Addable s ((start.after calls).side side).levels →
        ∃ t t', Decimal.sum? (p.side side) = some t ∧ ((start.after calls).side side).totalVolume? = some t' ∧
          t.number = t'.number ∧ t'.number = Levels.volume ((start.after calls).side side).levels := by
  refine ⟨Book.empty depth, if_neg hd.ne', fun calls interval p hp side s hadd => ?_⟩
  obtain ⟨-, w, -, -, hparts⟩ := parts_of_ofBook hp
  obtain ⟨runs, hruns⟩ := hparts side
  let l := ((Book.empty depth).after calls).side side
  have hbest := l.levels_perm_fromBest
  have hrising := l.levels_perm_rising
  obtain ⟨t, ht, hnumber⟩ := hruns.sum (hadd.of_perm hbest)
  obtain ⟨t', ht', hnumber', -⟩ := (hadd.of_perm hrising).sum
  rw [← Levels.volume_of_perm hbest] at hnumber
  rw [← Levels.volume_of_perm hrising] at hnumber'
  exact ⟨t, t', ht, ht', hnumber.trans hnumber'.symm, hnumber'⟩

/-- A bucket of three and one of four hold the seven of the bids. -/
theorem buckets_conserve_volume_at_boundary :
    let calls := [Call.updates [⟨[("99.5", "1"), ("98.6", "2"), ("98.5", "4")], [("100.5", "8")]⟩]]
    let interval : Interval := ⟨⟨false, 1, 2, by decide, by decide⟩, rfl⟩
    0 < 3 ∧ ∃ start p, Book.new 3 = .ok start ∧ ofBook interval (start.after calls) = .ok p ∧
      Addable 0 (start.after calls).bids.levels ∧ p.bids.length = 2 ∧
      ∃ t t', Decimal.sum? p.bids = some t ∧ (start.after calls).bids.totalVolume? = some t' ∧
        t.number = t'.number ∧ t'.number = Levels.volume (start.after calls).bids.levels := by
  intro calls interval
  obtain ⟨start, hs, h⟩ := buckets_conserve_volume (show 0 < 3 by decide)
  cases hs
  have hp : ofBook interval ((Book.empty 3).after calls) = .ok
      ⟨[⟨false, 3, 0, by decide, by decide⟩, ⟨false, 4, 0, by decide, by decide⟩], [⟨false, 8, 0, by decide, by decide⟩]⟩ := by
    decide +kernel
  have hadd : Addable 0 ((Book.empty 3).after calls).bids.levels := by
    have hlevels : ((Book.empty 3).after calls).bids.levels =
        [⟨⟨false, 985, 1, by decide, by decide⟩, ⟨⟨false, 4, 0, by decide, by decide⟩, rfl⟩⟩,
          ⟨⟨false, 986, 1, by decide, by decide⟩, ⟨⟨false, 2, 0, by decide, by decide⟩, rfl⟩⟩,
          ⟨⟨false, 995, 1, by decide, by decide⟩, ⟨⟨false, 1, 0, by decide, by decide⟩, rfl⟩⟩] := by
      decide +kernel
    rw [hlevels]
    refine ⟨by decide, ?_, ?_⟩
    · simp only [List.forall_mem_cons]
      exact ⟨⟨4, by simp [Decimal.number, Decimal.signed]⟩, ⟨2, by simp [Decimal.number, Decimal.signed]⟩,
        ⟨1, by simp [Decimal.number, Decimal.signed]⟩, List.forall_mem_nil _⟩
    · norm_num [Levels.volume, Decimal.number, Decimal.signed, Decimal.bound]
  exact ⟨by decide, _, _, rfl, hp, hadd, rfl, h calls interval _ hp .bid 0 hadd⟩

/-- Bids whose sums are rounded. From the best one on the small volumes are lost one by one; by rising price they add
up first. So in one book the total is larger than the only bucket, in another it is missing. -/
theorem rounded_buckets_lose_volume :
    let interval : Interval := ⟨⟨false, 1, 2, by decide, by decide⟩, rfl⟩
    let calls volume small := [Call.updates [⟨[("100", volume), ("99.9", small), ("99.8", small)], [("101", "1")]⟩]]
    ∃ start, Book.new 3 = .ok start ∧
      (let b := start.after (calls "9" "0.0000000000000000000000000004")
        ∃ p t t', ofBook interval b = .ok p ∧ Decimal.sum? p.bids = some t ∧ b.bids.totalVolume? = some t' ∧
          t.number ≠ t'.number) ∧
      let b := start.after (calls "79228162514264337593543950335" "0.4")
        ∃ p t, ofBook interval b = .ok p ∧ Decimal.sum? p.bids = some t ∧ b.bids.totalVolume? = none := by
  intro interval calls
  refine ⟨Book.empty 3, rfl, ?_, ?_⟩
  · have hp : ofBook interval ((Book.empty 3).after (calls "9" "0.0000000000000000000000000004")) = .ok
        ⟨[⟨false, 9000000000000000000000000000, 27, by decide, by decide⟩], [.one]⟩ := by
      decide +kernel
    refine ⟨_, ⟨false, 9000000000000000000000000000, 27, by decide, by decide⟩,
      ⟨false, 9000000000000000000000000001, 27, by decide, by decide⟩, hp, by decide +kernel, by decide +kernel, ?_⟩
    rw [Ne, ← Decimal.sameNumber_iff]
    decide +kernel
  · have hp : ofBook interval ((Book.empty 3).after (calls "79228162514264337593543950335" "0.4")) = .ok
        ⟨[⟨false, 79228162514264337593543950335, 0, by decide, by decide⟩], [.one]⟩ := by
      decide +kernel
    exact ⟨_, ⟨false, 79228162514264337593543950335, 0, by decide, by decide⟩, hp, by decide +kernel, by decide +kernel⟩

end Profile
end MarketMinutes
