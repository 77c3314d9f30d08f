import MarketMinutes.Proofs.Profile.Partition

/-!
# Wider buckets

The levels of one side are cut with two widths. The anchors drift apart after
the first bucket, but what the wider cut leaves over is always the end of what
the narrower one leaves over: a later anchor has its boundary farther off, so
the level that stops a wide run lies in no narrow run that began before it.
-/

namespace MarketMinutes.Profile

section
variable {side : Side} {w u : Decimal} {levels : List Level} {runs wide : List (List Level)} {bs cs : List Decimal}

theorem better_of_wider {anchor later l : Level} {limit limit' : Decimal}
    (hlimit : boundary? side anchor.price w = some limit) (hlimit' : boundary? side later.price u = some limit')
    (hlater : side.rank later.price.number ≤ side.rank anchor.price.number) (hw : w.number ≤ u.number)
    (h : side.better l.price limit = true) : side.better l.price limit' = true := by
  rw [Side.better_iff] at *
  exact (rank_boundary_mono hlimit hlimit' (by linarith)).trans_lt h

/-- A run of the wider cut that begins no earlier ends no earlier. -/
theorem suffix_of_wider_run {run rest run' rest' : List Level} {bucket bucket' : Decimal}
    (hrun : IsRun side w run bucket) (hrun' : IsRun side u run' bucket') (hstop : rest' = [] ∨ Stops side u run' rest')
    (hfalls : Levels.Falls side run) (hwider : w.number ≤ 0 ∨ w.number ≤ u.number)
    (hs : run' ++ rest' <:+ run ++ rest) : rest' <:+ rest := by
  rcases List.suffix_or_suffix_of_suffix ((List.suffix_append run' rest').trans hs) (List.suffix_append run rest) with
    h | ⟨ending, rfl⟩
  · exact h
  cases ending with
  | nil => exact List.suffix_refl _
  | cons l ending =>
    -- The wide run stops at a level inside the narrow one.
    exfalso
    obtain ⟨before, hbefore⟩ := hs
    have hsplit : run = before ++ (run' ++ l :: ending) := by
      rw [← List.append_left_inj rest, ← hbefore]
      simp
    have hone := hrun.length_eq_one hfalls
    obtain ⟨anchor, taken, limit, rfl, hlimit, htaken, -⟩ := hrun
    obtain ⟨later, taken', limit', rfl, hlimit', -, -⟩ := hrun'
    have hworse := (hstop.resolve_left (by simp)).not_better hlimit'
    obtain ⟨hl, hlater⟩ : l ∈ taken ∧ (later = anchor ∨ later ∈ taken) := by
      cases before with
      | nil =>
        obtain ⟨rfl, rfl⟩ := List.cons.inj hsplit
        simp
      | cons x before =>
        obtain ⟨-, rfl⟩ := List.cons.inj hsplit
        simp
    rcases hwider with hw | hw
    · have hpos := List.length_pos_of_mem hl
      have hlen := hone hw
      rw [List.length_cons] at hlen
      omega
    · have hrank : side.rank later.price.number ≤ side.rank anchor.price.number := by
        rcases hlater with rfl | hmem
        · exact le_rfl
        · exact ((List.pairwise_cons.mp hfalls).1 later hmem).le
      rw [better_of_wider hlimit hlimit' hrank hw (htaken l hl)] at hworse
      cases hworse

/-- What is left over after as many buckets is, for the wider cut, the end of what it is for the narrower. -/
theorem suffix_of_wider {levels' : List Level} (h : Partitions side w levels runs bs)
    (h' : Partitions side u levels' wide cs) (hfalls : Levels.Falls side levels)
    (hwider : w.number ≤ 0 ∨ w.number ≤ u.number) (hs : levels' <:+ levels) (n : Nat) :
    (wide.drop n).flatten <:+ (runs.drop n).flatten := by
  induction n generalizing levels levels' runs wide bs cs with
  | zero => rwa [List.drop_zero, List.drop_zero, h.covers, h'.covers]
  | succ n ih =>
    cases wide with
    | nil => exact List.nil_suffix
    | cons run' wide =>
      obtain ⟨rfl, ⟨bucket', hrun'⟩, hstop, cs, hwide⟩ := h'.uncons
      cases runs with
      | nil =>
        -- A narrow cut with no run left has no levels left.
        rw [← h.covers, List.flatten_nil, List.suffix_nil, List.append_eq_nil_iff] at hs
        exact absurd hs.1 hrun'.ne_nil
      | cons run runs =>
        obtain ⟨rfl, ⟨bucket, hrun⟩, -, bs, hruns⟩ := h.uncons
        have hparts := List.pairwise_append.mp hfalls
        exact ih hruns hwide hparts.2.1 (suffix_of_wider_run hrun hrun' hstop hparts.1 hwider hs)

theorem length_take_add_drop (runs : List (List Level)) (n : Nat) :
    (runs.take n).flatten.length + (runs.drop n).flatten.length = runs.flatten.length := by
  rw [← List.length_append, ← List.flatten_append, List.take_append_drop]

theorem covered_le_of_wider (h : Partitions side w levels runs bs) (h' : Partitions side u levels wide cs)
    (hfalls : Levels.Falls side levels) (hwider : w.number ≤ 0 ∨ w.number ≤ u.number) (n : Nat) :
    (runs.take n).flatten.length ≤ (wide.take n).flatten.length := by
  have hleft := (suffix_of_wider h h' hfalls hwider (List.suffix_refl _) n).length_le
  have hruns := length_take_add_drop runs n
  have hwide := length_take_add_drop wide n
  rw [h.covers] at hruns
  rw [h'.covers] at hwide
  omega

theorem length_le_of_wider (h : Partitions side w levels runs bs) (h' : Partitions side u levels wide cs)
    (hfalls : Levels.Falls side levels) (hwider : w.number ≤ 0 ∨ w.number ≤ u.number) : cs.length ≤ bs.length := by
  have hleft := suffix_of_wider h h' hfalls hwider (List.suffix_refl _) runs.length
  rw [List.drop_length, List.flatten_nil, List.suffix_nil, List.flatten_eq_nil_iff] at hleft
  have hnil : wide.drop runs.length = [] :=
    List.eq_nil_iff_forall_not_mem.mpr fun run hrun => h'.ne_nil run (List.mem_of_mem_drop hrun) (hleft run hrun)
  rw [← h.sums.length_eq, ← h'.sums.length_eq]
  exact List.drop_eq_nil_iff.mp hnil

end

/-! ## Wider intervals -/

theorem interval_pos (i : Interval) : 0 < i.value.number := by
  have h := i.positive
  rwa [Decimal.isLT_iff, Decimal.number_zero] at h

/-- The wider interval has the wider buckets, unless the midpoint is not above zero. -/
theorem width_mono {i j : Interval} {mid w u : Decimal} (hij : i.value.number ≤ j.value.number)
    (hw : i.value.mul? mid = some w) (hu : j.value.mul? mid = some u) : w.number ≤ 0 ∨ w.number ≤ u.number := by
  have hwr := (Decimal.mul?_computes i.value mid).rounds hw
  have hur := (Decimal.mul?_computes j.value mid).rounds hu
  rcases le_total mid.number 0 with hmid | hmid
  · exact .inl (hwr.nonpos (mul_nonpos_of_nonneg_of_nonpos (interval_pos i).le hmid))
  · exact .inr (hwr.mono hur (mul_le_mul_of_nonneg_right hij hmid))

/-- After any calls, with any two intervals that a book has a profile for: as many buckets from the best price on cover
no fewer levels under the wider interval, and there are no more of them. -/
theorem wider_interval_covers_more {depth : Nat} (hd : 0 < depth) :
    ∃ start, Book.new depth = .ok start ∧ ∀ calls (i j : Interval) p q, i.value.number ≤ j.value.number →
      ofBook i (start.after calls) = .ok p → ofBook j (start.after calls) = .ok q →
      ∃ mid w u, (start.after calls).midPrice? = some mid ∧ i.value.mul? mid = some w ∧ j.value.mul? mid = some u ∧
        ∀ s, let levels := ((start.after calls).side s).fromBest
          (∃ runs, Partitions s w levels runs (p.side s)) ∧ (∃ wide, Partitions s u levels wide (q.side s)) ∧
          (∀ runs wide, Partitions s w levels runs (p.side s) → Partitions s u levels wide (q.side s) →
            ∀ n, (runs.take n).flatten.length ≤ (wide.take n).flatten.length) ∧
          (q.side s).length ≤ (p.side s).length := by
  refine ⟨Book.empty depth, if_neg hd.ne', fun calls i j p q hij hp hq => ?_⟩
  have hsound := (Book.empty_sound depth).after calls
  obtain ⟨mid, w, hmid, hw, hruns⟩ := parts_of_ofBook hp
  obtain ⟨mid', u, hmid', hu, hwide⟩ := parts_of_ofBook hq
  rw [hmid, Option.some.injEq] at hmid'
  subst hmid'
  have hwider := width_mono hij hw hu
  refine ⟨mid, w, u, hmid, hw, hu, fun s => ?_⟩
  have hfalls := Ladder.fromBest_falls (hsound.sound s).rising
  rw [hsound.side_eq s] at hfalls
  obtain ⟨runs, hruns⟩ := hruns s
  obtain ⟨wide, hwide⟩ := hwide s
  exact ⟨⟨runs, hruns⟩, ⟨wide, hwide⟩, fun runs wide h h' => covered_le_of_wider h h' hfalls hwider,
    length_le_of_wider hruns hwide hfalls hwider⟩

/-- Under one per cent the bid at 98.5 begins a bucket, under two it joins the first. -/
theorem wider_interval_covers_more_at_boundary :
    let calls := [Call.updates [⟨[("99.5", "1"), ("98.6", "2"), ("98.5", "4")], [("100.5", "8")]⟩]]
    let i : Interval := ⟨⟨false, 1, 2, by decide, by decide⟩, rfl⟩
    let j : Interval := ⟨⟨false, 2, 2, by decide, by decide⟩, rfl⟩
    0 < 3 ∧ i.value.number ≤ j.value.number ∧ ∃ start p q, Book.new 3 = .ok start ∧
      ofBook i (start.after calls) = .ok p ∧ ofBook j (start.after calls) = .ok q ∧
        q.bids.length ≤ p.bids.length ∧ p.bids.length = 2 ∧ q.bids.length = 1 := by
  intro calls i j
  have hij : i.value.number ≤ j.value.number := Decimal.isLE_iff.mp rfl
  obtain ⟨start, hs, h⟩ := wider_interval_covers_more (show 0 < 3 by decide)
  cases hs
  have hp : ofBook i ((Book.empty 3).after calls) = .ok
      ⟨[⟨false, 3, 0, by decide, by decide⟩, ⟨false, 4, 0, by decide, by decide⟩], [⟨false, 8, 0, by decide, by decide⟩]⟩ := by
    decide +kernel
  have hq : ofBook j ((Book.empty 3).after calls) = .ok
      ⟨[⟨false, 7, 0, by decide, by decide⟩], [⟨false, 8, 0, by decide, by decide⟩]⟩ := by
    decide +kernel
  obtain ⟨mid, w, u, -, -, -, hsides⟩ := h calls i j _ _ hij hp hq
  exact ⟨by decide, hij, _, _, _, rfl, hp, hq, (hsides .bid).2.2.2, rfl, rfl⟩

end MarketMinutes.Profile
