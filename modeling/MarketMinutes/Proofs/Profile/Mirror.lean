import MarketMinutes.Proofs.Book.Mirror
import MarketMinutes.Proofs.Profile.Buckets

/-!
# Buckets mirrored

Where a bucket ends is the same distance away on either side, toward worse
prices. Rounding does not see the sign, so the boundaries at negated prices are
the negated boundaries, or missing where those are, and mirrored levels fall
into the same buckets.
-/

namespace MarketMinutes

theorem Side.away_opposite (s : Side) (q distance : ℚ) : s.opposite.away (-q) distance = -s.away q distance := by
  cases s with
  | bid => exact (neg_sub q distance).symm ▸ neg_add_eq_sub q distance
  | ask => exact (neg_add' q distance).symm

namespace Profile

variable (side : Side) (width : Decimal)

theorem boundary_mirrored (anchor : Price) :
    Option.Rel (fun limit limit' => limit'.number = -limit.number) (boundary? side anchor width)
      (boundary? side.opposite anchor.neg width) := by
  refine (boundary?_computes side anchor width).neg ?_
  rw [← Side.away_opposite, ← Decimal.number_neg]
  exact boundary?_computes side.opposite anchor.neg width

/-- What goes on from the boundaries alike is alike: they are both missing, or both there. -/
theorem bind_boundary_mirrored {α : Type} (anchor : Price) {f g : Decimal → Except Overflow α}
    (h : ∀ limit limit' : Decimal, limit'.number = -limit.number → g limit' = f limit) :
    (boundary side.opposite anchor.neg width >>= g) = (boundary side anchor width >>= f) := by
  have hrel := boundary_mirrored side width anchor
  unfold boundary
  generalize boundary? side anchor width = limit? at hrel ⊢
  generalize boundary? side.opposite anchor.neg width = limit?' at hrel ⊢
  cases hrel with
  | none => rfl
  | some hlimit => exact h _ _ hlimit

theorem bucketsFrom_mirrored {limit limit' : Decimal} (hlimit : limit'.number = -limit.number) (volume : Decimal)
    (levels : List Level) :
    bucketsFrom side.opposite width limit' volume (levels.map Level.mirrored) =
      bucketsFrom side width limit volume levels := by
  induction levels generalizing limit limit' volume with
  | nil => rfl
  | cons l ls ih =>
    have hbetter : side.opposite.better l.mirrored.price limit' = side.better l.price limit :=
      side.better_opposite l.number_mirrored hlimit
    rw [List.map_cons, bucketsFrom, bucketsFrom, hbetter]
    split
    · exact congrArg (Overflow.bucketVolume.require (volume.add? l.volume.value) >>= ·) (funext fun _ => ih hlimit _)
    · refine bind_boundary_mirrored side width l.price fun next next' hnext => ?_
      rw [ih hnext]
      rfl

theorem buckets_mirrored (levels : List Level) :
    buckets side.opposite width (levels.map Level.mirrored) = buckets side width levels := by
  cases levels with
  | nil => rfl
  | cons l ls =>
    exact bind_boundary_mirrored side width l.price fun _ _ hlimit =>
      bucketsFrom_mirrored side width hlimit l.volume.value ls

end Profile

/-- A side of either kind does with negated prices what the other does with the prices, step by step, with the same
answers. Its levels, in either order, its best and its worst are the mirrored ones, and so mirrored levels have the same
buckets, whatever the width, or fail with the same error. -/
theorem sides_mirror {depth : Nat} (hd : 0 < depth) (side : Side) :
    ∃ start mirror, Ladder.new side depth = .ok start ∧ Ladder.new side.opposite depth = .ok mirror ∧
      (∀ steps,
        let l := start.through steps
        let m := mirror.through (steps.map Step.mirrored)
        m.levels = l.levels.map Level.mirrored ∧ m.fromBest = l.fromBest.map Level.mirrored ∧
        m.best? = l.best?.map Level.mirrored ∧ m.worst? = l.worst?.map Level.mirrored ∧
        ∀ p, m.volume? p.neg = l.volume? p ∧ (m.delete p.neg).2 = (l.delete p).2 ∧
          ∀ v, (m.upsert p.neg v).2 = (l.upsert p v).2.map Level.mirrored) ∧
      ∀ width levels,
        Profile.buckets side.opposite width (levels.map Level.mirrored) = Profile.buckets side width levels := by
  refine ⟨.empty side depth, .empty side.opposite depth, if_neg hd.ne', if_neg hd.ne', fun steps => ?_,
    Profile.buckets_mirrored side⟩
  intro l m
  have hsound : l.Sound := (Ladder.empty_sound side depth).through steps
  have hm : m = l.mirrored := Ladder.through_mirrored (Ladder.empty_sound side depth) steps
  rw [hm]
  refine ⟨l.levels_mirrored, l.fromBest_mirrored, l.best?_mirrored, l.worst?_mirrored, fun p => ?_⟩
  refine ⟨Ladder.volume?_mirrored hsound.rising p, ?_, fun v => ?_⟩
  · rw [Ladder.delete_mirrored hsound.rising]
  · rw [Ladder.upsert_mirrored hsound.rising]

/-- At a depth of one the bid at 2 pushes out that at 1, and the ask at -2 that at -1. -/
theorem sides_mirror_at_depth_one :
    0 < 1 ∧ ∃ start mirror, Ladder.new .bid 1 = .ok start ∧ Ladder.new .ask 1 = .ok mirror ∧
      let v : Volume := ⟨.one, rfl⟩
      let l := start.through [.upsert .one v]
      let m := mirror.through [.upsert Decimal.one.neg v]
      (m.upsert Decimal.two.neg v).2 = (l.upsert .two v).2.map Level.mirrored ∧
        (l.upsert .two v).2 = some ⟨.one, v⟩ ∧ (m.upsert Decimal.two.neg v).2 = some ⟨Decimal.one.neg, v⟩ := by
  obtain ⟨start, mirror, hstart, hmirror, h, -⟩ := sides_mirror (show 0 < 1 by decide) .bid
  have hanswers := (h [.upsert .one ⟨.one, rfl⟩]).2.2.2.2 .two
  refine ⟨by decide, start, mirror, hstart, hmirror, hanswers.2.2 ⟨.one, rfl⟩, ?_⟩
  cases hstart
  cases hmirror
  decide

end MarketMinutes
