import MarketMinutes.Proofs.Book.MidPrice
import MarketMinutes.Proofs.Profile.Buckets

/-!
# The profile of a book

The profile of a book cuts either side into runs of levels. There is at least
one bucket on a side and none is empty; where the width is not above zero, no
level joins another. A book has no profile exactly where a side is empty, or
the midpoint, the width, a boundary or a sum is missing.
-/

namespace MarketMinutes

namespace Profile
open Decimal (OutOfRange)
open Book (midPrice?_of_best best?_of_midPrice?)
variable {side : Side} {width : Decimal} {levels run : List Level} {runs : List (List Level)} {bucket : Decimal}
  {bs : List Decimal}

/-! ## Boundaries -/

theorem rank_mono {x y : ℚ} {a b : Decimal} (ha : Decimal.Rounds x a) (hb : Decimal.Rounds y b)
    (h : side.rank x ≤ side.rank y) : side.rank a.number ≤ side.rank b.number := by
  cases side with
  | bid => exact ha.mono hb h
  | ask => exact neg_le_neg (hb.mono ha (neg_le_neg_iff.mp h))

/-- The farther off a boundary lies by its exact number, the worse it is. -/
theorem rank_boundary_mono {p q : Price} {w u t r : Decimal} (ht : boundary? side p w = some t)
    (hr : boundary? side q u = some r) (h : side.rank q.number - u.number ≤ side.rank p.number - w.number) :
    side.rank r.number ≤ side.rank t.number :=
  rank_mono ((boundary?_computes ..).rounds hr) ((boundary?_computes ..).rounds ht)
    (by rwa [Side.rank_away, Side.rank_away])

/-- Without a width above zero the boundary is no worse than the anchor. -/
theorem rank_le_boundary {p : Price} {w t : Decimal} (ht : boundary? side p w = some t) (hw : w.number ≤ 0) :
    side.rank p.number ≤ side.rank t.number :=
  rank_mono (.self p) ((boundary?_computes ..).rounds ht) (by rw [Side.rank_away]; linarith)

/-! ## Runs of a sound side -/

theorem IsRun.bucket_pos (h : IsRun side width run bucket) (hpos : ∀ x ∈ run, 0 < x.volume.value.number) :
    0 < bucket.number := by
  obtain ⟨anchor, taken, limit, rfl, -, -, hsum⟩ := h
  obtain ⟨hanchor, htaken⟩ := List.forall_mem_cons.mp hpos
  rw [volume?_cons] at hsum
  exact hanchor.trans_le (Decimal.le_of_foldlM_add? (List.forall_mem_map.mpr fun x hx => (htaken x hx).le) hsum)

theorem IsRun.length_eq_one (h : IsRun side width run bucket) (hfalls : Levels.Falls side run) (hw : width.number ≤ 0) :
    run.length = 1 := by
  obtain ⟨anchor, taken, limit, rfl, hlimit, htaken, -⟩ := h
  cases taken with
  | nil => rfl
  | cons x taken =>
    have hx : side.rank limit.number < side.rank x.price.number := Side.better_iff.mp (htaken x (List.mem_cons_self ..))
    have hworse := (List.pairwise_cons.mp hfalls).1 x (List.mem_cons_self ..)
    exact absurd (rank_le_boundary hlimit hw) (not_le.mpr (hx.trans hworse))

theorem Partitions.falls (h : Partitions side width levels runs bs) (hfalls : Levels.Falls side levels) :
    ∀ run ∈ runs, Levels.Falls side run := by
  rw [← h.covers, Levels.Falls, List.pairwise_flatten] at hfalls
  exact hfalls.1

theorem Partitions.length_eq (h : Partitions side width levels runs bs) : levels.length = (runs.map List.length).sum := by
  rw [← h.covers, List.length_flatten]

theorem Partitions.length_le (h : Partitions side width levels runs bs) : bs.length ≤ levels.length := by
  have hone : ∀ n ∈ runs.map List.length, 1 ≤ n :=
    List.forall_mem_map.mpr fun run hrun => List.length_pos_of_ne_nil (h.ne_nil run hrun)
  have hle := List.length_le_sum_of_one_le _ hone
  rwa [List.length_map, h.sums.length_eq, ← h.length_eq] at hle

theorem Partitions.length_pos (h : Partitions side width levels runs bs) (hne : levels ≠ []) : 1 ≤ bs.length := by
  rw [← h.sums.length_eq]
  refine List.length_pos_of_ne_nil fun hruns => hne ?_
  rw [← h.covers, hruns]
  rfl

theorem Partitions.length_eq_one (h : Partitions side width levels runs bs) (hfalls : Levels.Falls side levels)
    (hw : width.number ≤ 0) : ∀ run ∈ runs, run.length = 1 := by
  have hruns := (List.forall₂_and_left _ _).mp
    (h.sums.imp fun run bucket hrun => ⟨fun hf => hrun.length_eq_one hf hw, hrun⟩)
  exact fun run hrun => hruns.1 run hrun (h.falls hfalls run hrun)

theorem Partitions.length_of_nonpos (h : Partitions side width levels runs bs) (hfalls : Levels.Falls side levels)
    (hw : width.number ≤ 0) : bs.length = levels.length := by
  have hone : runs.map List.length = runs.map fun _ => 1 := List.map_congr_left (h.length_eq_one hfalls hw)
  rw [h.length_eq, hone, ← h.sums.length_eq]
  simp

theorem Partitions.buckets_pos (h : Partitions side width levels runs bs)
    (hpos : ∀ x ∈ levels, 0 < x.volume.value.number) : ∀ bucket ∈ bs, 0 < bucket.number := by
  obtain ⟨rfl, hsums, -⟩ := h
  induction hsums with
  | nil => exact List.forall_mem_nil _
  | cons hrun hruns ih =>
    rw [List.flatten_cons, List.forall_mem_append] at hpos
    exact List.forall_mem_cons.mpr ⟨hrun.bucket_pos hpos.1, ih hpos.2⟩

/-! ## Books with a profile and without -/

/-- Why a book has no profile: for each error what brings it about. -/
def FailsFor (interval : Interval) (b : Book) : ProfileError → Prop
  | .emptySide .bid => b.bids.isEmpty = true
  | .emptySide .ask => b.bids.isEmpty = false ∧ b.asks.isEmpty = true
  | .overflow .midpoint => b.bids.isEmpty = false ∧ b.asks.isEmpty = false ∧ b.midPrice? = none
  | .overflow .bucketWidth => ∃ mid, b.midPrice? = some mid ∧ OutOfRange (interval.value.number * mid.number)
  | .overflow error => ∃ mid w, b.midPrice? = some mid ∧ interval.value.mul? mid = some w ∧
      (Breaks .bid w b.bids.fromBest error ∨
        (∃ runs bs, Partitions .bid w b.bids.fromBest runs bs) ∧ Breaks .ask w b.asks.fromBest error)

theorem Breaks.error_cases {error : Overflow} (h : Breaks side width levels error) :
    error = .bucketBoundary ∨ error = .bucketVolume := by
  obtain ⟨runs, rest, -, -, -, hfails⟩ := h
  cases hfails with
  | boundary => exact .inl rfl
  | volume => exact .inr rfl

theorem width_of_none {interval : Interval} {bid ask : Price} (h : bid.middle? ask = none) :
    Profile.width interval bid ask = .error .midpoint := by
  rw [Profile.width, h]
  rfl

theorem width_of_some {interval : Interval} {bid ask : Price} {mid : Decimal} (h : bid.middle? ask = some mid) :
    Profile.width interval bid ask = Overflow.bucketWidth.require (interval.value.mul? mid) := by
  rw [Profile.width, h]
  rfl

section
variable {interval : Interval} {bids asks : Ladder} {bid ask : Price} {w : Decimal}

theorem ofSides_of_breaks {error : Overflow} (hw : Profile.width interval bid ask = .ok w)
    (h : Breaks .bid w bids.fromBest error ∨
      (∃ runs bs, Partitions .bid w bids.fromBest runs bs) ∧ Breaks .ask w asks.fromBest error) :
    ofSides interval bids asks bid ask = .error error := by
  rw [ofSides, hw]
  rcases h with hbids | ⟨⟨runs, bs, hbids⟩, hasks⟩
  · simp only [bind, Except.bind, buckets_of_breaks hbids]
  · simp only [bind, Except.bind, buckets_of_partitions hbids, buckets_of_breaks hasks]

/-- With a width either side is cut into runs, or a run fails, on the bid side first. -/
theorem ofSides_cases (hw : Profile.width interval bid ask = .ok w) (bids asks : Ladder) :
    (∃ error, Breaks .bid w bids.fromBest error ∨
      (∃ runs bs, Partitions .bid w bids.fromBest runs bs) ∧ Breaks .ask w asks.fromBest error) ∨
      ∃ p, ofSides interval bids asks bid ask = .ok p ∧ (∃ runs, Partitions .bid w bids.fromBest runs p.bids) ∧
        ∃ runs, Partitions .ask w asks.fromBest runs p.asks := by
  rcases exists_runs .bid w bids.fromBest with ⟨runs, bs, hbids⟩ | ⟨error, hbids⟩
  · rcases exists_runs .ask w asks.fromBest with ⟨runs', bs', hasks⟩ | ⟨error, hasks⟩
    · refine .inr ⟨⟨bs, bs'⟩, ?_, ⟨runs, hbids⟩, runs', hasks⟩
      rw [ofSides, hw]
      simp only [bind, Except.bind, buckets_of_partitions hbids, buckets_of_partitions hasks]
    · exact .inl ⟨error, .inr ⟨⟨runs, bs, hbids⟩, hasks⟩⟩
  · exact .inl ⟨error, .inl hbids⟩

end

section
variable {interval : Interval} {b : Book} {mid : Decimal}

theorem ofBook_of_best {bid ask : Level} (hbid : b.bids.best? = some bid) (hask : b.asks.best? = some ask) :
    ofBook interval b = (ofSides interval b.bids b.asks bid.price ask.price).mapError .overflow := by
  rw [ofBook, hbid, hask]

theorem ofBook_of_failsFor {error : ProfileError} (h : FailsFor interval b error) :
    ofBook interval b = .error error := by
  match error, h with
  | .emptySide .bid, h => rw [ofBook, Ladder.best?_eq_none_iff.mpr h]
  | .emptySide .ask, ⟨hbids, hasks⟩ =>
    obtain ⟨bid, hbid⟩ := Ladder.exists_best? hbids
    rw [ofBook, hbid, Ladder.best?_eq_none_iff.mpr hasks]
  | .overflow .midpoint, ⟨hbids, hasks, hmid⟩ =>
    obtain ⟨bid, hbid⟩ := Ladder.exists_best? hbids
    obtain ⟨ask, hask⟩ := Ladder.exists_best? hasks
    rw [midPrice?_of_best hbid hask] at hmid
    rw [ofBook_of_best hbid hask, ofSides, width_of_none hmid]
    rfl
  | .overflow .bucketWidth, ⟨mid, hmid, hw⟩ =>
    obtain ⟨bid, ask, hbid, hask, hmid⟩ := best?_of_midPrice? hmid
    rw [ofBook_of_best hbid hask, ofSides, width_of_some hmid, (Decimal.mul?_computes ..).eq_none_iff.mpr hw]
    rfl
  | .overflow .bucketBoundary, ⟨mid, w, hmid, hw, h⟩
  | .overflow .bucketVolume, ⟨mid, w, hmid, hw, h⟩ =>
    obtain ⟨bid, ask, hbid, hask, hmid⟩ := best?_of_midPrice? hmid
    rw [ofBook_of_best hbid hask, ofSides_of_breaks _ h]
    · rfl
    · rw [width_of_some hmid, hw]
      rfl

theorem failsFor_of_breaks {w : Decimal} {error : Overflow}
    (hmid : b.midPrice? = some mid) (hw : interval.value.mul? mid = some w)
    (h : Breaks .bid w b.bids.fromBest error ∨
      (∃ runs bs, Partitions .bid w b.bids.fromBest runs bs) ∧ Breaks .ask w b.asks.fromBest error) :
    FailsFor interval b (.overflow error) := by
  have herror : error = .bucketBoundary ∨ error = .bucketVolume := by
    rcases h with h | ⟨-, h⟩
    · exact h.error_cases
    · exact h.error_cases
  rcases herror with rfl | rfl <;> exact ⟨mid, w, hmid, hw, h⟩

/-- A book fails for a reason, or it has a profile that cuts both sides into runs. -/
theorem ofBook_cases (interval : Interval) (b : Book) :
    (∃ error, FailsFor interval b error) ∨
      ∃ p mid w, ofBook interval b = .ok p ∧ b.midPrice? = some mid ∧ interval.value.mul? mid = some w ∧
        ∀ s, ∃ runs, Partitions s w (b.side s).fromBest runs (p.side s) := by
  cases hbids : b.bids.isEmpty with
  | true => exact .inl ⟨.emptySide .bid, hbids⟩
  | false =>
  cases hasks : b.asks.isEmpty with
  | true => exact .inl ⟨.emptySide .ask, hbids, hasks⟩
  | false =>
  cases hmid : b.midPrice? with
  | none => exact .inl ⟨.overflow .midpoint, hbids, hasks, hmid⟩
  | some mid =>
  cases hw : interval.value.mul? mid with
  | none => exact .inl ⟨.overflow .bucketWidth, mid, hmid, (Decimal.mul?_computes ..).eq_none_iff.mp hw⟩
  | some w =>
    obtain ⟨bid, ask, hbid, hask, hmiddle⟩ := best?_of_midPrice? hmid
    have hwidth : Profile.width interval bid.price ask.price = .ok w := by
      rw [width_of_some hmiddle, hw]
      rfl
    rcases ofSides_cases hwidth b.bids b.asks with ⟨error, hbreaks⟩ | ⟨p, hp, hpbids, hpasks⟩
    · exact .inl ⟨.overflow error, failsFor_of_breaks hmid hw hbreaks⟩
    · refine .inr ⟨p, mid, w, by rw [ofBook_of_best hbid hask, hp]; rfl, rfl, hw, fun s => ?_⟩
      cases s with
      | bid => exact hpbids
      | ask => exact hpasks

theorem ofBook_eq_error_iff {error : ProfileError} : ofBook interval b = .error error ↔ FailsFor interval b error := by
  constructor
  · intro h
    rcases ofBook_cases interval b with ⟨error', hfails⟩ | ⟨p, mid, w, hp, -⟩
    · rw [ofBook_of_failsFor hfails] at h
      cases h
      exact hfails
    · rw [hp] at h
      cases h
  · exact ofBook_of_failsFor

/-- What a profile is made of: the midpoint, the width, and the runs of either side. -/
theorem parts_of_ofBook {p : Profile} (h : ofBook interval b = .ok p) :
    ∃ mid w, b.midPrice? = some mid ∧ interval.value.mul? mid = some w ∧
      ∀ s, ∃ runs, Partitions s w (b.side s).fromBest runs (p.side s) := by
  rcases ofBook_cases interval b with ⟨error, hfails⟩ | ⟨p', mid, w, hp, hparts⟩
  · rw [ofBook_of_failsFor hfails] at h
    cases h
  · rw [hp] at h
    cases h
    exact ⟨mid, w, hparts⟩

end

/-- Whatever calls a book has had, a profile of it cuts the levels of either side, from the best on, into runs: each
is an anchor with the levels strictly better than its boundary, and its bucket is the sum of their volumes. So a side
has a bucket at least and no more than it has levels, all above zero, and one for each level if the width is not above
zero. A book has no profile exactly for the reasons named, and no midpoint exactly where its best prices sum to a number
out of range. -/
theorem profile_partitions_sides {depth : Nat} (hd : 0 < depth) :
    ∃ start, Book.new depth = .ok start ∧ ∀ calls (interval : Interval),
      (∀ p, ofBook interval (start.after calls) = .ok p →
        ∃ mid w, (start.after calls).midPrice? = some mid ∧ interval.value.mul? mid = some w ∧
          ∀ s, (∃ runs, Partitions s w ((start.after calls).side s).fromBest runs (p.side s)) ∧
            1 ≤ (p.side s).length ∧ (p.side s).length ≤ ((start.after calls).side s).length ∧
            (∀ bucket ∈ p.side s, 0 < bucket.number) ∧
            (w.number ≤ 0 → (p.side s).length = ((start.after calls).side s).length)) ∧
      (∀ error, ofBook interval (start.after calls) = .error error ↔ FailsFor interval (start.after calls) error) ∧
      ∀ bid ask, (start.after calls).bids.best? = some bid → (start.after calls).asks.best? = some ask →
        ((start.after calls).midPrice? = none ↔ OutOfRange (bid.price.number + ask.price.number)) := by
  refine ⟨Book.empty depth, if_neg hd.ne', fun calls interval => ⟨fun p hp => ?_, fun error => ofBook_eq_error_iff,
    fun bid ask hbid hask => ?_⟩⟩
  · have hsound := (Book.empty_sound depth).after calls
    obtain ⟨mid, w, hmid, hw, hparts⟩ := parts_of_ofBook hp
    refine ⟨mid, w, hmid, hw, fun s => ?_⟩
    obtain ⟨runs, hruns⟩ := hparts s
    have hside := hsound.sound s
    have hfalls := Ladder.fromBest_falls hside.rising
    rw [hsound.side_eq s] at hfalls
    have hlength := Ladder.length_fromBest (((Book.empty depth).after calls).side s)
    refine ⟨⟨runs, hruns⟩, hruns.length_pos ?_, hlength ▸ hruns.length_le, ?_, fun h0 => ?_⟩
    · obtain ⟨bid, ask, hbid, hask, -⟩ := best?_of_midPrice? hmid
      cases s with
      | bid => exact Ladder.fromBest_ne_nil hbid
      | ask => exact Ladder.fromBest_ne_nil hask
    · exact hruns.buckets_pos fun x hx => hside.positive x (Ladder.mem_fromBest.mp hx)
    · exact hlength ▸ hruns.length_of_nonpos hfalls h0
  · rw [midPrice?_of_best hbid hask, Decimal.middle?_eq_none_iff]

/-- At a width of one the bid at 98.5 lies on the boundary of the bucket at 99.5. -/
theorem profile_partitions_sides_at_boundary :
    0 < 3 ∧ ∃ start, Book.new 3 = .ok start ∧
      let calls := [Call.updates [⟨[("99.5", "1"), ("98.6", "2"), ("98.5", "4")], [("100.5", "8")]⟩]]
      let interval : Interval := ⟨⟨false, 1, 2, by decide, by decide⟩, rfl⟩
      ofBook interval start = .error (.emptySide .bid) ∧
        ∃ p runs w, ofBook interval (start.after calls) = .ok p ∧ p.bids.map (·.text) = [['3'], ['4']] ∧
          Partitions .bid w (start.after calls).bids.fromBest runs p.bids := by
  obtain ⟨start, hs, h⟩ := profile_partitions_sides (show 0 < 3 by decide)
  refine ⟨by decide, start, hs, ?_⟩
  intro calls interval
  cases hs
  have hp : ofBook interval ((Book.empty 3).after calls) = .ok
      ⟨[⟨false, 3, 0, by decide, by decide⟩, ⟨false, 4, 0, by decide, by decide⟩], [⟨false, 8, 0, by decide, by decide⟩]⟩ := by
    decide +kernel
  obtain ⟨mid, w, -, -, hsides⟩ := (h calls interval).1 _ hp
  obtain ⟨⟨runs, hruns⟩, -⟩ := hsides .bid
  exact ⟨((h [] interval).2.1 (.emptySide .bid)).mpr rfl, _, runs, w, hp, by decide +kernel, hruns⟩

end Profile
end MarketMinutes
