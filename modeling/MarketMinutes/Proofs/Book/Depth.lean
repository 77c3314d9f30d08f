import MarketMinutes.Proofs.Book.Contents
import MarketMinutes.Proofs.Book.Invariant

/-!
# Books of different depth

The same calls are made to a shallow book and to a deep one. That the shallow
side holds only what the deep one holds is not kept by a write alone: it takes
the bound on how many levels more the deep side has, by which a full deep side
faces a full shallow one. A side as deep as there are changes pushes nothing
out and is the side without bound.
-/

namespace MarketMinutes

/-! ## A shallow side within a deep one -/

namespace Ladder
open Levels

structure Within (shallow deep : Ladder) (gap : Nat) : Prop where
  side_eq : shallow.side = deep.side
  depth_eq : deep.maxDepth = shallow.maxDepth + gap
  holds : ∀ q v, Holds shallow.rising q v → Holds deep.rising q v
  length_le : deep.length ≤ shallow.length + gap

variable {shallow deep : Ladder} {gap : Nat}

theorem Within.has (h : shallow.Within deep gap) {q : ℚ} (hq : Has shallow.rising q) : Has deep.rising q := by
  obtain ⟨x, hx, rfl⟩ := hq
  exact (h.holds _ _ ⟨x, hx, rfl, rfl⟩).has

theorem Within.erase (h : shallow.Within deep gap) (hs : shallow.Sound) (hd : deep.Sound) (p : Price) :
    (shallow.erase p).Within (deep.erase p) gap := by
  refine ⟨h.side_eq, h.depth_eq, fun q v hq => ?_, ?_⟩
  · obtain ⟨hne, hq⟩ := holds_erase_iff.mp hq
    exact holds_erase_iff.mpr ⟨hne, h.holds q v hq⟩
  · have hlen := h.length_le
    unfold length Ladder.erase at *
    by_cases hp : Has shallow.rising p.number
    · have hls := length_erase_of_has hs.rising hp
      have hld := length_erase_of_has hd.rising (h.has hp)
      dsimp only
      omega
    · have hle : (Levels.erase p deep.rising).length ≤ deep.rising.length := List.length_filter_le ..
      dsimp only
      rw [erase_of_not_has hp]
      omega

theorem Within.holds_written (h : shallow.Within deep gap) (hs : shallow.Sound) (hd : deep.Sound) (p : Price)
    (v : Volume) (q : ℚ) (u : Volume) (hq : Holds (shallow.written p v).rising q u) :
    Holds (deep.written p v).rising q u := by
  unfold written at *
  rw [holds_write_iff hs.rising] at hq
  rw [holds_write_iff hd.rising]
  by_cases hp : q = p.number
  · rw [if_pos hp] at hq ⊢
    exact hq
  · rw [if_neg hp] at hq ⊢
    exact h.holds q u hq

/-- The worst level of the deep side is not among those that a shallow side keeps without its own worst. -/
theorem holds_dropWorst_of_holds {l m : Ladder} (hside : l.side = m.side) (hl : Rising l.rising) (hm : Rising m.rising)
    (hne : l.rising ≠ []) (h : ∀ q v, Holds l.rising q v → Holds m.rising q v) (q : ℚ) (v : Volume)
    (hq : Holds l.dropWorst.rising q v) : Holds m.dropWorst.rising q v := by
  have hne' : m.rising ≠ [] := by
    obtain ⟨x, ls, hx⟩ := List.exists_cons_of_ne_nil hne
    obtain ⟨y, hy, -⟩ := h _ _ ⟨x, by simp [hx], rfl, rfl⟩
    exact List.ne_nil_of_mem hy
  obtain ⟨w, -, hw, hworst, hd⟩ := worst_spec hl hne
  obtain ⟨w', -, -, hworst', hd'⟩ := worst_spec hm hne'
  obtain ⟨hqw, hq⟩ := (hd q v).mp hq
  refine (hd' q v).mpr ⟨fun hqw' => hqw ?_, h q v hq⟩
  -- the worst of the larger side, if it is on the smaller one, is the worst there too
  obtain ⟨y, hy, hyw, -⟩ := h _ _ ⟨w, hw, rfl, rfl⟩
  obtain ⟨x, hx, hxq, -⟩ := hq
  have h1 : m.side.rank w'.price.number ≤ m.side.rank w.price.number := hyw ▸ hworst' y hy
  have h2 : l.side.rank w.price.number ≤ l.side.rank q := hxq ▸ hworst x hx
  rw [hqw', hside] at h2
  exact hqw'.trans (Side.rank_inj (le_antisymm h1 h2))

/-- One change keeps the shallow side within the deep one, and what the deep side pushes out comes with a level
that the shallow one pushes out. -/
theorem Within.upsert (h : shallow.Within deep gap) (hs : shallow.Sound) (hd : deep.Sound) (hpos : 0 < shallow.maxDepth)
    (p : Price) (v : Volume) :
    (shallow.upsert p v).1.Within (deep.upsert p v).1 gap ∧
      ((deep.upsert p v).2.isSome → (shallow.upsert p v).2.isSome) := by
  cases hv : v.isZero with
  | true =>
    rw [upsert_of_zero _ _ hv, upsert_of_zero _ _ hv]
    exact ⟨h.erase hs hd p, fun hn => nomatch hn⟩
  | false =>
    have hw := h.holds_written hs hd p v
    have hrs : Rising (shallow.written p v).rising := rising_write hs.rising _
    have hrd : Rising (deep.written p v).rising := rising_write hd.rising _
    have hlen := h.length_le
    have hdepth := h.depth_eq
    have hls := hs.length_le
    have hld := hd.length_le
    -- how much longer either side gets by the write
    have hgrow : (shallow.written p v).length = shallow.length ∧ (deep.written p v).length = deep.length ∨
        (shallow.written p v).length = shallow.length + 1 ∧ (deep.written p v).length ≤ deep.length + 1 := by
      by_cases hp : Has shallow.rising p.number
      · exact .inl ⟨length_written_of_has hs hp, length_written_of_has hd (h.has hp)⟩
      · exact .inr ⟨length_written_of_not_has hp, length_write_le ..⟩
    by_cases hfs : shallow.maxDepth < (shallow.written p v).length
    · have hne : (shallow.written p v).rising ≠ [] := List.ne_nil_of_length_pos (Nat.zero_lt_of_lt hfs)
      obtain ⟨w, hws, -⟩ := worst_spec hrs hne
      have hds := length_dropWorst (shallow.written p v)
      by_cases hfd : deep.maxDepth < (deep.written p v).length
      · rw [upsert_of_lt hv hfs, upsert_of_lt hv hfd]
        have hdd := length_dropWorst (deep.written p v)
        refine ⟨⟨h.side_eq, h.depth_eq, ?_, by dsimp only; omega⟩, fun _ => by simp [hws]⟩
        exact holds_dropWorst_of_holds h.side_eq hrs hrd hne hw
      · rw [upsert_of_lt hv hfs, upsert_of_le hv (not_lt.mp hfd)]
        refine ⟨⟨h.side_eq, h.depth_eq, fun q u hq => hw q u ?_, by dsimp only; omega⟩, fun hn => nomatch hn⟩
        obtain ⟨x, hx, hxq⟩ := hq
        exact ⟨x, (dropWorst_sublist _).subset hx, hxq⟩
    · -- a deep side that overflows has the shallow one full
      have hfd : ¬ deep.maxDepth < (deep.written p v).length := by omega
      rw [upsert_of_le hv (not_lt.mp hfs), upsert_of_le hv (not_lt.mp hfd)]
      exact ⟨⟨h.side_eq, h.depth_eq, hw, by dsimp only; omega⟩, fun hn => nomatch hn⟩

theorem Within.make (h : shallow.Within deep gap) (hs : shallow.Sound) (hd : deep.Sound) (hpos : 0 < shallow.maxDepth)
    (changes : List Change) :
    (shallow.make changes).1.Within (deep.make changes).1 gap ∧ (deep.make changes).2 ≤ (shallow.make changes).2 := by
  induction changes generalizing shallow deep with
  | nil => exact ⟨h, Nat.le_refl _⟩
  | cons c cs ih =>
    obtain ⟨hw, hout⟩ := h.upsert hs hd hpos c.price c.volume
    obtain ⟨hm, hn⟩ := ih hw (hs.upsert ..) (hd.upsert ..) (by rwa [upsert_maxDepth])
    refine ⟨hm, ?_⟩
    simp only [Ladder.make]
    by_cases ho : (deep.upsert c.price c.volume).2.isSome
    · rw [if_pos ho, if_pos (hout ho)]
      exact Nat.add_le_add_right hn 1
    · rw [if_neg ho]
      exact hn.trans (Nat.le_add_right ..)

end Ladder

/-! ## A side without bound -/

def Levels.set (levels : List Level) (c : Change) : List Level :=
  if c.volume.isZero then Levels.erase c.price levels else Levels.write ⟨c.price, c.volume⟩ levels

/-- The levels that changes leave where nothing is pushed out. -/
def Levels.unbounded (changes : List Change) : List Level :=
  changes.foldl Levels.set []

namespace Ladder

theorem make_of_room {l : Ladder} {changes : List Change} (h : l.length + changes.length ≤ l.maxDepth) :
    l.make changes = ({ l with rising := changes.foldl Levels.set l.rising }, 0) := by
  induction changes generalizing l with
  | nil => rfl
  | cons c cs ih =>
    rw [List.length_cons] at h
    have hu : l.upsert c.price c.volume = ({ l with rising := Levels.set l.rising c }, none) := by
      cases hv : c.volume.isZero with
      | true => rw [upsert_of_zero _ _ hv, Levels.set, if_pos hv, Ladder.erase]
      | false =>
        have hle : (l.written c.price c.volume).length ≤ l.length + 1 := Levels.length_write_le ..
        rw [upsert_of_le hv (by omega), Levels.set, if_neg (Bool.not_eq_true _ ▸ hv), written]
    have hlen : (Levels.set l.rising c).length ≤ l.length + 1 := by
      unfold Levels.set
      split
      · exact (List.length_filter_le ..).trans (Nat.le_succ _)
      · exact Levels.length_write_le ..
    have hroom : (Levels.set l.rising c).length + cs.length ≤ l.maxDepth := by omega
    have hm := ih (l := { l with rising := Levels.set l.rising c }) hroom
    simp only [make, hu, hm]
    rfl

end Ladder

namespace Book

theorem empty_within {d₁ d₂ : Nat} (h : d₁ ≤ d₂) (s : Side) :
    ((empty d₁).side s).Within ((empty d₂).side s) (d₂ - d₁) := by
  have hr : ∀ d, ((empty d).side s).rising = [] := fun d => by cases s <;> rfl
  refine ⟨by cases s <;> rfl, ?_, fun q v hq => ?_, ?_⟩
  · rw [(empty_sound d₁).depth_eq, (empty_sound d₂).depth_eq, Nat.add_sub_cancel' h]
  · rw [hr] at hq ⊢
    exact hq
  · rw [Ladder.length, Ladder.length, hr, hr]
    exact Nat.zero_le _

/-- After any calls a shallow book shows only levels of a deep one, lacks no more of them than its depth is less,
and has pushed out at least as many. With more depth than changes the deep book is the one without bound. -/
theorem shallow_within_deep {d₁ d₂ : Nat} (hd : 0 < d₁) (h : d₁ ≤ d₂) :
    ∃ shallow deep, Book.new d₁ = .ok shallow ∧ Book.new d₂ = .ok deep ∧ ∀ calls,
      (∀ s, (∀ x ∈ ((shallow.after calls).side s).levels, ∃ y ∈ ((deep.after calls).side s).levels,
          y.price.number = x.price.number ∧ y.volume = x.volume) ∧
        ((deep.after calls).side s).length ≤ ((shallow.after calls).side s).length + (d₂ - d₁)) ∧
      (deep.after calls).levelsEvicted ≤ (shallow.after calls).levelsEvicted ∧
      ((calls.flatMap Call.changes).length < d₂ → (deep.after calls).levelsEvicted = 0 ∧
        ∀ s, ((deep.after calls).side s).rising =
          Levels.unbounded ((calls.flatMap Call.changes).filter (·.side = s))) := by
  refine ⟨empty d₁, empty d₂, if_neg hd.ne', if_neg (hd.trans_le h).ne', fun calls => ?_⟩
  obtain ⟨hss, hes⟩ := after_spec (empty d₁) calls
  obtain ⟨hsd, hed⟩ := after_spec (empty d₂) calls
  have hw := fun s => (empty_within h s).make ((empty_sound d₁).sound s) ((empty_sound d₂).sound s)
    (by rwa [(empty_sound d₁).depth_eq]) ((calls.flatMap Call.changes).filter (·.side = s))
  refine ⟨fun s => ⟨fun x hx => ?_, ?_⟩, ?_, fun hroom => ?_⟩
  · rw [Ladder.mem_levels, hss] at hx
    obtain ⟨y, hy, hyx⟩ := (hw s).1.holds _ _ ⟨x, hx, rfl, rfl⟩
    exact ⟨y, by rwa [Ladder.mem_levels, hsd], hyx⟩
  · rw [hsd, hss]
    exact (hw s).1.length_le
  · have hb := (hw .bid).2
    have ha := (hw .ask).2
    have h0 : (empty d₁).levelsEvicted = (empty d₂).levelsEvicted := rfl
    rw [hed, hes, h0]
    omega
  · have hfits : ∀ s, ((empty d₂).side s).length + ((calls.flatMap Call.changes).filter (·.side = s)).length ≤
        ((empty d₂).side s).maxDepth := fun s => by
      have hle : ((calls.flatMap Call.changes).filter (·.side = s)).length ≤ (calls.flatMap Call.changes).length :=
        List.length_filter_le ..
      have hz : ((empty d₂).side s).length = 0 := by cases s <;> rfl
      rw [(empty_sound d₂).depth_eq, hz]
      omega
    have hm := fun s => Ladder.make_of_room (hfits s)
    refine ⟨by rw [hed, hm, hm]; rfl, fun s => ?_⟩
    rw [hsd, hm]
    cases s <;> rfl

/-- The shallow book pushes out the level at 1, so it stays empty once the level at 2 is deleted. -/
theorem shallow_within_deep_after_delete :
    0 < 1 ∧ 1 ≤ 2 ∧ ∃ shallow deep, Book.new 1 = .ok shallow ∧ Book.new 2 = .ok deep ∧
      let calls := [.operations [⟨.bid, .one, .one⟩, ⟨.bid, .two, .two⟩], .operations [⟨.bid, .two, .zero⟩]]
      ((deep.after calls).side .bid).length ≤ ((shallow.after calls).side .bid).length + 1 ∧
        (deep.after calls).levelsEvicted ≤ (shallow.after calls).levelsEvicted ∧
        (shallow.after calls).bids.levels = [] ∧ (deep.after calls).bids.levels.map (·.price) = [.one] ∧
        (shallow.after calls).levelsEvicted = 1 := by
  obtain ⟨shallow, deep, hs, hd, h⟩ := shallow_within_deep (show 0 < 1 by decide) (show 1 ≤ 2 by decide)
  refine ⟨by decide, by decide, shallow, deep, hs, hd, ((h _).1 .bid).2, (h _).2.1, ?_⟩
  cases hs
  cases hd
  decide

end Book
end MarketMinutes
