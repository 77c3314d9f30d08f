import MarketMinutes.Book.Profile
import MarketMinutes.Proofs.Book.Contents
import MarketMinutes.Proofs.Decimal.Arithmetic

/-!
# Buckets as runs of levels

The levels of a side, from best to worst, fall into runs, one for each bucket.
A run begins with its anchor, goes on while levels are strictly better than its
boundary, and ends before the first that is not. So the buckets of a list of
levels are known once its first run is, and where they fail it is at the first
run whose boundary or sum is missing.
-/

namespace MarketMinutes

/-- The number that lies a distance away from another, on the side of worse numbers. -/
def Side.away : Side → ℚ → ℚ → ℚ
  | bid, q, distance => q - distance
  | ask, q, distance => q + distance

@[simp] theorem Side.rank_away (s : Side) (q distance : ℚ) : s.rank (s.away q distance) = s.rank q - distance := by
  cases s with
  | bid => rfl
  | ask => exact neg_add' q distance

namespace Profile
open Decimal (OutOfRange)

theorem boundary?_computes (side : Side) (anchor : Price) (width : Decimal) :
    Decimal.Computes (boundary? side anchor width) (side.away anchor.number width.number) := by
  cases side with
  | bid => exact Decimal.sub?_computes anchor width
  | ask => exact Decimal.add?_computes anchor width

/-! ## Runs -/

/-- The volumes of levels, summed from left to right. -/
def volume? (levels : List Level) : Option Decimal :=
  Decimal.sum? (levels.map (·.volume.value))

/-- A run of levels that makes up one bucket: all behind its anchor are strictly better than its boundary. -/
def IsRun (side : Side) (width : Decimal) (run : List Level) (bucket : Decimal) : Prop :=
  ∃ anchor taken limit, run = anchor :: taken ∧ boundary? side anchor.price width = some limit ∧
    (∀ x ∈ taken, side.better x.price limit = true) ∧ volume? run = some bucket

/-- The first of the levels that come next is not better than the boundary of the run. -/
def Stops (side : Side) (width : Decimal) (run next : List Level) : Prop :=
  ∃ anchor limit first, run.head? = some anchor ∧ boundary? side anchor.price width = some limit ∧
    next.head? = some first ∧ side.better first.price limit = false

/-- Levels cut into runs, each as long as it can be, and the buckets of these. -/
structure Partitions (side : Side) (width : Decimal) (levels : List Level) (runs : List (List Level))
    (buckets : List Decimal) : Prop where
  covers : runs.flatten = levels
  sums : List.Forall₂ (IsRun side width) runs buckets
  stops : runs.IsChain (Stops side width)

/-- What the first run of some levels fails for. -/
inductive Fails (side : Side) (width : Decimal) : List Level → Overflow → Prop
  | boundary {anchor : Level} {rest : List Level} (h : OutOfRange (side.away anchor.price.number width.number)) :
    Fails side width (anchor :: rest) .bucketBoundary
  | volume {anchor l : Level} {taken rest : List Level} {limit sum : Decimal}
    (hlimit : boundary? side anchor.price width = some limit)
    (htaken : ∀ x ∈ taken ++ [l], side.better x.price limit = true)
    (hsum : volume? (anchor :: taken) = some sum) (h : OutOfRange (sum.number + l.volume.value.number)) :
    Fails side width (anchor :: (taken ++ l :: rest)) .bucketVolume

/-- Levels with runs in front of one that fails. -/
def Breaks (side : Side) (width : Decimal) (levels : List Level) (error : Overflow) : Prop :=
  ∃ runs rest, levels = runs.flatten ++ rest ∧ (∀ run ∈ runs, ∃ bucket, IsRun side width run bucket) ∧
    (runs ++ [rest]).IsChain (Stops side width) ∧ Fails side width rest error

section
variable {side : Side} {width limit : Decimal}

theorem IsRun.ne_nil {run : List Level} {bucket : Decimal} (h : IsRun side width run bucket) : run ≠ [] := by
  obtain ⟨anchor, taken, limit, rfl, -⟩ := h
  exact List.cons_ne_nil _ _

theorem Fails.ne_nil {levels : List Level} {error : Overflow} (h : Fails side width levels error) : levels ≠ [] := by
  cases h <;> exact List.cons_ne_nil _ _

theorem Partitions.ne_nil {levels : List Level} {runs : List (List Level)} {bs : List Decimal}
    (h : Partitions side width levels runs bs) : ∀ run ∈ runs, run ≠ [] :=
  ((List.forall₂_and_left _ _).mp (h.sums.imp fun _ _ hrun => ⟨hrun.ne_nil, hrun⟩)).1

theorem Stops.append {run next : List Level} (h : Stops side width run next) (more : List Level) :
    Stops side width run (next ++ more) := by
  obtain ⟨anchor, limit, first, hrun, hlimit, hnext, hfirst⟩ := h
  exact ⟨anchor, limit, first, hrun, hlimit, by rw [List.head?_append, hnext]; rfl, hfirst⟩

/-- A run has only one anchor, and so one boundary. -/
theorem Stops.not_better {anchor first : Level} {taken more : List Level}
    (h : Stops side width (anchor :: taken) (first :: more)) (hlimit : boundary? side anchor.price width = some limit) :
    side.better first.price limit = false := by
  obtain ⟨anchor', limit', first', hanchor, hlimit', hfirst, hbetter⟩ := h
  cases hanchor
  cases hfirst
  rw [hlimit, Option.some.injEq] at hlimit'
  rw [hlimit']
  exact hbetter

/-! ## One run -/

theorem volume?_cons (l : Level) (ls : List Level) :
    volume? (l :: ls) = (ls.map (·.volume.value)).foldlM Decimal.add? l.volume.value := by
  rw [volume?, Decimal.sum?, List.map_cons, List.foldlM_cons, Decimal.zero_add?]
  rfl

theorem bucketsFrom_append {sum total : Decimal} {taken : List Level}
    (htaken : ∀ x ∈ taken, side.better x.price limit = true)
    (hsum : (taken.map (·.volume.value)).foldlM Decimal.add? sum = some total) (rest : List Level) :
    bucketsFrom side width limit sum (taken ++ rest) = bucketsFrom side width limit total rest := by
  induction taken generalizing sum with
  | nil =>
    cases hsum
    rfl
  | cons l ls ih =>
    obtain ⟨hl, hls⟩ := List.forall_mem_cons.mp htaken
    rw [List.map_cons, List.foldlM_cons, Option.bind_eq_bind, Option.bind_eq_some_iff] at hsum
    obtain ⟨next, hnext, hsum⟩ := hsum
    rw [List.cons_append, bucketsFrom, if_pos hl, hnext]
    exact ih hls hsum

theorem bucketsFrom_stops {sum : Decimal} {rest : List Level}
    (h : ∀ first ∈ rest.head?, side.better first.price limit = false) :
    bucketsFrom side width limit sum rest = (buckets side width rest).map (sum :: ·) := by
  cases rest with
  | nil => rfl
  | cons l ls =>
    have hl := h l rfl
    rw [bucketsFrom, hl, if_neg Bool.false_ne_true, buckets]
    cases boundary side l.price width with
    | error e => rfl
    | ok next => rfl

theorem buckets_cons {anchor : Level} (h : boundary? side anchor.price width = some limit) (ls : List Level) :
    buckets side width (anchor :: ls) = bucketsFrom side width limit anchor.volume.value ls := by
  rw [buckets, boundary, h]
  rfl

theorem buckets_append {run rest : List Level} {bucket : Decimal} (hrun : IsRun side width run bucket)
    (hrest : rest = [] ∨ Stops side width run rest) :
    buckets side width (run ++ rest) = (buckets side width rest).map (bucket :: ·) := by
  obtain ⟨anchor, taken, limit, rfl, hlimit, htaken, hsum⟩ := hrun
  rw [volume?_cons] at hsum
  rw [List.cons_append, buckets_cons hlimit, bucketsFrom_append htaken hsum]
  apply bucketsFrom_stops
  intro first hfirst
  cases rest with
  | nil => cases hfirst
  | cons next more =>
    cases hfirst
    exact (hrest.resolve_left (List.cons_ne_nil _ _)).not_better hlimit

/-- What a run takes of the levels behind its anchor: all, or up to one that stops it or that its sum has no room for. -/
theorem taken_cases (side : Side) (limit sum : Decimal) (ls : List Level) :
    ∃ taken rest total, ls = taken ++ rest ∧ (∀ x ∈ taken, side.better x.price limit = true) ∧
      (taken.map (·.volume.value)).foldlM Decimal.add? sum = some total ∧
      ((∀ first ∈ rest.head?, side.better first.price limit = false) ∨
        ∃ l more, rest = l :: more ∧ side.better l.price limit = true ∧
          OutOfRange (total.number + l.volume.value.number)) := by
  induction ls generalizing sum with
  | nil => exact ⟨[], [], sum, rfl, List.forall_mem_nil _, rfl, .inl fun _ h => nomatch h⟩
  | cons l ls ih =>
    cases hl : side.better l.price limit with
    | false =>
      refine ⟨[], l :: ls, sum, rfl, List.forall_mem_nil _, rfl, .inl fun first hfirst => ?_⟩
      cases hfirst
      exact hl
    | true =>
      cases hsum : sum.add? l.volume.value with
      | none =>
        have hout := (Decimal.add?_computes ..).eq_none_iff.mp hsum
        exact ⟨[], l :: ls, sum, rfl, List.forall_mem_nil _, rfl, .inr ⟨l, ls, rfl, hl, hout⟩⟩
      | some next =>
        obtain ⟨taken, rest, total, rfl, htaken, htotal, hrest⟩ := ih next
        refine ⟨l :: taken, rest, total, rfl, List.forall_mem_cons.mpr ⟨hl, htaken⟩, ?_, hrest⟩
        rw [List.map_cons, List.foldlM_cons, hsum]
        exact htotal

theorem first_run (side : Side) (width : Decimal) (anchor : Level) (ls : List Level) :
    (∃ error, Fails side width (anchor :: ls) error) ∨
      ∃ run rest bucket, anchor :: ls = run ++ rest ∧ IsRun side width run bucket ∧
        (rest = [] ∨ Stops side width run rest) := by
  cases hlimit : boundary? side anchor.price width with
  | none => exact .inl ⟨_, .boundary ((boundary?_computes ..).eq_none_iff.mp hlimit)⟩
  | some limit =>
    obtain ⟨taken, rest, total, rfl, htaken, htotal, hrest⟩ := taken_cases side limit anchor.volume.value ls
    have hsum : volume? (anchor :: taken) = some total := by rwa [volume?_cons]
    rcases hrest with hstop | ⟨l, more, rfl, hl, hout⟩
    · refine .inr ⟨anchor :: taken, rest, total, rfl, ⟨anchor, taken, limit, rfl, hlimit, htaken, hsum⟩, ?_⟩
      cases rest with
      | nil => exact .inl rfl
      | cons first more => exact .inr ⟨anchor, limit, first, rfl, hlimit, rfl, hstop first rfl⟩
    · refine .inl ⟨_, .volume hlimit ?_ hsum hout⟩
      exact List.forall_mem_append.mpr ⟨htaken, List.forall_mem_singleton.mpr hl⟩

theorem buckets_of_fails {levels : List Level} {error : Overflow} (h : Fails side width levels error) :
    buckets side width levels = .error error := by
  cases h with
  | boundary h =>
    rw [buckets, boundary, (boundary?_computes ..).eq_none_iff.mpr h]
    rfl
  | @volume anchor l taken rest limit sum hlimit htaken hsum h =>
    obtain ⟨htaken, hl⟩ := List.forall_mem_append.mp htaken
    rw [volume?_cons] at hsum
    rw [buckets_cons hlimit, bucketsFrom_append htaken hsum, bucketsFrom, if_pos (List.forall_mem_singleton.mp hl),
      (Decimal.add?_computes ..).eq_none_iff.mpr h]
    rfl

/-! ## All runs -/

theorem Partitions.nil : Partitions side width [] [] [] :=
  ⟨rfl, .nil, .nil⟩

/-- A run that stops for the next one stops for all that is behind it. -/
theorem stops_flatten {run : List Level} {runs : List (List Level)}
    (h : (run :: runs).IsChain (Stops side width)) : runs.flatten = [] ∨ Stops side width run runs.flatten := by
  cases runs with
  | nil => exact .inl rfl
  | cons next runs => exact .inr ((List.isChain_cons_cons.mp h).1.append _)

theorem Partitions.uncons {levels run : List Level} {runs : List (List Level)} {bs : List Decimal}
    (h : Partitions side width levels (run :: runs) bs) :
    levels = run ++ runs.flatten ∧ (∃ bucket, IsRun side width run bucket) ∧
      (runs.flatten = [] ∨ Stops side width run runs.flatten) ∧
      ∃ cs, Partitions side width runs.flatten runs cs := by
  obtain ⟨rfl, hsums, hstops⟩ := h
  cases hsums with
  | cons hrun hruns => exact ⟨rfl, ⟨_, hrun⟩, stops_flatten hstops, _, rfl, hruns, hstops.tail⟩

theorem isChain_cons {run : List Level} {runs : List (List Level)} (hne : ∀ next ∈ runs, next ≠ [])
    (hnext : runs.flatten = [] ∨ Stops side width run runs.flatten) (h : runs.IsChain (Stops side width)) :
    (run :: runs).IsChain (Stops side width) := by
  cases runs with
  | nil => exact .singleton run
  | cons next runs =>
    obtain ⟨first, ls, rfl⟩ := List.exists_cons_of_ne_nil (hne next (List.mem_cons_self ..))
    refine List.isChain_cons_cons.mpr ⟨?_, h⟩
    obtain ⟨anchor, limit, first', hrun, hlimit, hfirst, hbetter⟩ := hnext.resolve_left (by simp)
    exact ⟨anchor, limit, first', hrun, hlimit, hfirst, hbetter⟩

theorem buckets_of_partitions {levels : List Level} {runs : List (List Level)} {bs : List Decimal}
    (h : Partitions side width levels runs bs) : buckets side width levels = .ok bs := by
  obtain ⟨rfl, hsums, hstops⟩ := h
  induction hsums with
  | nil => rfl
  | @cons run bucket runs bs hrun hruns ih =>
    rw [List.flatten_cons, buckets_append hrun (stops_flatten hstops), ih hstops.tail]
    rfl

theorem buckets_of_breaks {levels : List Level} {error : Overflow} (h : Breaks side width levels error) :
    buckets side width levels = .error error := by
  obtain ⟨runs, rest, rfl, hruns, hstops, hfails⟩ := h
  induction runs with
  | nil => exact buckets_of_fails hfails
  | cons run runs ih =>
    obtain ⟨⟨bucket, hrun⟩, hruns⟩ := List.forall_mem_cons.mp hruns
    rw [List.cons_append] at hstops
    have hnext := stops_flatten hstops
    rw [List.flatten_append, List.flatten_singleton] at hnext
    rw [List.flatten_cons, List.append_assoc, buckets_append hrun hnext, ih hruns hstops.tail]
    rfl

/-- Any levels fall into runs, or do so up to a run that fails. -/
theorem exists_runs (side : Side) (width : Decimal) (levels : List Level) :
    (∃ runs bs, Partitions side width levels runs bs) ∨ ∃ error, Breaks side width levels error := by
  induction hn : levels.length using Nat.strong_induction_on generalizing levels with
  | _ n ih =>
    cases levels with
    | nil => exact .inl ⟨[], [], .nil⟩
    | cons anchor ls =>
      rcases first_run side width anchor ls with ⟨error, hfails⟩ | ⟨run, rest, bucket, hsplit, hrun, hrest⟩
      · exact .inr ⟨error, [], _, rfl, List.forall_mem_nil _, .singleton _, hfails⟩
      have hlt : rest.length < n := by
        have hpos := List.length_pos_of_ne_nil hrun.ne_nil
        rw [← hn, hsplit, List.length_append]
        omega
      rw [hsplit]
      rcases ih rest.length hlt rest rfl with ⟨runs, bs, hparts⟩ | ⟨error, runs, last, rfl, hruns, hstops, hfails⟩
      · left
        refine ⟨run :: runs, bucket :: bs, by rw [List.flatten_cons, hparts.covers], .cons hrun hparts.sums, ?_⟩
        exact isChain_cons hparts.ne_nil (hparts.covers ▸ hrest) hparts.stops
      · right
        refine ⟨error, run :: runs, last, by simp, List.forall_mem_cons.mpr ⟨⟨bucket, hrun⟩, hruns⟩, ?_, hfails⟩
        have hne : ∀ next ∈ runs ++ [last], next ≠ [] := by
          refine List.forall_mem_append.mpr ⟨fun next hnext => ?_, List.forall_mem_singleton.mpr hfails.ne_nil⟩
          obtain ⟨bucket, hnext⟩ := hruns next hnext
          exact hnext.ne_nil
        have hnext : (runs ++ [last]).flatten = [] ∨ Stops side width run (runs ++ [last]).flatten := by
          rwa [List.flatten_append, List.flatten_singleton]
        exact isChain_cons hne hnext hstops

end

end Profile
end MarketMinutes
