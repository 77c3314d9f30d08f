import Mathlib.Data.List.Forall2
import MarketMinutes.Book.Basic
import MarketMinutes.Proofs.Book.Ladder
import MarketMinutes.Proofs.Decimal.Texts

/-!
# Batches checked and made

A batch is rejected exactly if one of its parts has a fault, and then for the
first part that has one. An accepted batch holds one change for each part;
either side takes its own changes in their order and no others.
-/

namespace MarketMinutes

/-! ## Faults -/

def Operation.fault? (o : Operation) : Option Fault :=
  if o.volume.number < 0 then some (.negativeVolume o.volume o.price) else none

/-- The fault of a line, if it has one; its price counts before its volume. -/
def Entry.fault? (e : Entry) : Option Fault :=
  match Decimal.parse? e.price, Decimal.parse? e.volume with
  | none, _ => some (.badPrice e.side (.unreadable e.price))
  | some _, none => some (.badVolume e.side (.unreadable e.volume))
  | some _, some v => if v.number < 0 then some (.badVolume e.side (.negativeVolume v)) else none

def Change.operation (c : Change) : Operation :=
  ⟨c.side, c.price, c.volume.value⟩

theorem Change.operation_injective : Function.Injective Change.operation := by
  rintro ⟨s, p, v, hv⟩ ⟨s', p', v', hv'⟩ h
  cases h
  rfl

/-- A line as an operation, if both of its texts are numbers. -/
def Entry.operation? (e : Entry) : Option Operation :=
  match Decimal.parse? e.price, Decimal.parse? e.volume with
  | some price, some volume => some ⟨e.side, price, volume⟩
  | _, _ => none

/-- A rejection names the first part that has a fault, by its place from zero. -/
def IsFirstFault (fault? : α → Option Fault) (xs : List α) (r : Rejection) : Prop :=
  ∃ before x after, xs = before ++ x :: after ∧ (∀ y ∈ before, fault? y = none) ∧
    fault? x = some r.fault ∧ before.length = r.index

theorem exists_isFirstFault_iff {fault? : α → Option Fault} {xs : List α} :
    (∃ r, IsFirstFault fault? xs r) ↔ ∃ x ∈ xs, fault? x ≠ none := by
  constructor
  · rintro ⟨r, before, x, after, rfl, -, hx, -⟩
    exact ⟨x, by simp, by simp [hx]⟩
  · rintro ⟨x, hx, hf⟩
    cases h : xs.find? (fault? · |>.isSome) with
    | none => exact absurd (Option.ne_none_iff_isSome.mp hf) (List.find?_eq_none.mp h x hx)
    | some y =>
      obtain ⟨hy, before, after, hxs, hb⟩ := List.find?_eq_some_iff_append.mp h
      obtain ⟨f, hf⟩ := Option.isSome_iff_exists.mp hy
      exact ⟨⟨before.length, f⟩, before, y, after, hxs, fun z hz => by simpa using hb z hz, hf, rfl⟩

theorem Operation.fault?_ne_none_iff {o : Operation} : o.fault? ≠ none ↔ o.volume.number < 0 := by
  simp [fault?]

theorem Entry.fault?_ne_none_iff {e : Entry} :
    e.fault? ≠ none ↔ Decimal.parse? e.price = none ∨ Decimal.parse? e.volume = none ∨
      ∃ v, Decimal.parse? e.volume = some v ∧ v.number < 0 := by
  cases hp : Decimal.parse? e.price <;> cases hv : Decimal.parse? e.volume <;> simp [fault?, hp, hv]

/-- An operation without a fault becomes a change of its own numbers. -/
theorem Operation.check_cases (o : Operation) :
    (∃ f, o.fault? = some f ∧ o.check = .error f) ∨
      ∃ c, o.fault? = none ∧ o.check = .ok c ∧ c.operation = o := by
  by_cases h : o.volume.number < 0
  · exact .inl ⟨_, if_pos h, by simp [check, Volume.ofDecimal?_of_neg h]⟩
  · obtain ⟨v, hv, hd⟩ := Volume.ofDecimal?_of_nonneg h
    exact .inr ⟨⟨o.side, o.price, v⟩, if_neg h, by simp [check, hv], by simp [Change.operation, hd]⟩

/-- A line without a fault becomes a change of the numbers it spells. -/
theorem Entry.check_cases (e : Entry) :
    (∃ f, e.fault? = some f ∧ e.check = .error f) ∨
      ∃ c, e.fault? = none ∧ e.check = .ok c ∧ e.operation? = some c.operation := by
  cases hp : Decimal.parse? e.price with
  | none =>
    exact .inl ⟨.badPrice e.side (.unreadable e.price), by simp [fault?, hp],
      by simp [check, Decimal.ofText, hp]⟩
  | some p =>
    cases hv : Decimal.parse? e.volume with
    | none =>
      have hc : Volume.ofText e.volume = .error (.unreadable e.volume) := by
        simp [Volume.ofText, Decimal.ofText, hv, bind, Except.bind]
      exact .inl ⟨.badVolume e.side (.unreadable e.volume), by simp [fault?, hp, hv],
        by simp [check, Decimal.ofText, hp, hc]⟩
    | some d =>
      have hd : Volume.ofText e.volume = Volume.ofDecimal d := by
        simp [Volume.ofText, Decimal.ofText, hv, bind, Except.bind]
      by_cases h : d.number < 0
      · have hc : Volume.ofText e.volume = .error (.negativeVolume d) := by
          simp [hd, Volume.ofDecimal, Volume.ofDecimal?_of_neg h]
        exact .inl ⟨.badVolume e.side (.negativeVolume d), by simp [fault?, hp, hv, h],
          by simp [check, Decimal.ofText, hp, hc]⟩
      · obtain ⟨v, ho, rfl⟩ := Volume.ofDecimal?_of_nonneg h
        have hc : Volume.ofText e.volume = .ok v := by simp [hd, Volume.ofDecimal, ho]
        exact .inr ⟨⟨e.side, p, v⟩, by simp [fault?, hp, hv, h], by simp [check, Decimal.ofText, hp, hc],
          by simp [operation?, hp, hv, Change.operation]⟩

/-! ## Checking a batch -/

theorem checkFrom_cons_of_error {check : α → Except Fault Change} {x : α} {f : Fault}
    (h : check x = .error f) (index : Nat) (xs : List α) :
    checkFrom check index (x :: xs) = .error ⟨index, f⟩ := by
  simp only [checkFrom, h]

theorem checkFrom_cons_of_ok {check : α → Except Fault Change} {x : α} {c : Change}
    (h : check x = .ok c) (index : Nat) (xs : List α) :
    checkFrom check index (x :: xs) = (checkFrom check (index + 1) xs).map (c :: ·) := by
  simp only [checkFrom, h]
  cases checkFrom check (index + 1) xs <;> rfl

section
variable {check : α → Except Fault Change} {fault? : α → Option Fault} {made : α → Change → Prop}
variable (hc : ∀ x, (∃ f, fault? x = some f ∧ check x = .error f) ∨
  ∃ c, fault? x = none ∧ check x = .ok c ∧ made x c)
include hc

/-- Checking rejects a batch for its first fault, and for nothing else. -/
theorem checkFrom_eq_error_iff {index : Nat} {xs : List α} {r : Rejection} :
    checkFrom check index xs = .error r ↔ ∃ before x after, xs = before ++ x :: after ∧
      (∀ y ∈ before, fault? y = none) ∧ fault? x = some r.fault ∧ index + before.length = r.index := by
  induction xs generalizing index with
  | nil => simp [checkFrom]
  | cons x xs ih =>
    simp only [List.cons_eq_append_iff]
    rcases hc x with ⟨f, hf, hx⟩ | ⟨c, hf, hx, -⟩
    · rw [checkFrom_cons_of_error hx]
      constructor
      · intro h
        cases h
        exact ⟨[], x, xs, .inl ⟨rfl, rfl⟩, List.forall_mem_nil _, hf, rfl⟩
      · rintro ⟨before, y, after, ⟨rfl, h⟩ | ⟨tail, rfl, -⟩, hb, hy, hi⟩
        · obtain ⟨rfl, -⟩ := List.cons.inj h
          rw [hf, Option.some.injEq] at hy
          rw [hy]
          exact congrArg (fun i => Except.error (Rejection.mk i r.fault)) hi
        · simp [hb x (List.mem_cons_self ..)] at hf
    · have hm : (checkFrom check (index + 1) xs).map (c :: ·) = .error r ↔
          checkFrom check (index + 1) xs = .error r := by
        cases checkFrom check (index + 1) xs <;> simp [Except.map]
      rw [checkFrom_cons_of_ok hx, hm, ih]
      constructor
      · rintro ⟨before, y, after, rfl, hb, hy, hi⟩
        refine ⟨x :: before, y, after, .inr ⟨before, rfl, rfl⟩, List.forall_mem_cons.mpr ⟨hf, hb⟩, hy, ?_⟩
        rw [← hi, List.length_cons]
        omega
      · rintro ⟨before, y, after, ⟨rfl, h⟩ | ⟨tail, rfl, rfl⟩, hb, hy, hi⟩
        · obtain ⟨rfl, -⟩ := List.cons.inj h
          simp [hf] at hy
        · refine ⟨tail, y, after, rfl, (List.forall_mem_cons.mp hb).2, hy, ?_⟩
          rw [← hi, List.length_cons]
          omega

theorem checkFrom_of_ok {index : Nat} {xs : List α} {cs : List Change}
    (h : checkFrom check index xs = .ok cs) : List.Forall₂ made xs cs := by
  induction xs generalizing index cs with
  | nil =>
    cases h
    exact .nil
  | cons x xs ih =>
    rcases hc x with ⟨f, -, hx⟩ | ⟨c, -, hx, hm⟩
    · rw [checkFrom_cons_of_error hx] at h
      cases h
    · rw [checkFrom_cons_of_ok hx] at h
      cases hr : checkFrom check (index + 1) xs with
      | error r => rw [hr] at h; cases h
      | ok cs' =>
        rw [hr] at h
        cases h
        exact .cons hm (ih hr)

end

theorem checkOperations_eq_error_iff {batch : List Operation} {r : Rejection} :
    checkOperations batch = .error r ↔ IsFirstFault Operation.fault? batch r := by
  unfold checkOperations IsFirstFault
  simp only [checkFrom_eq_error_iff Operation.check_cases, Nat.zero_add]

theorem checkUpdates_eq_error_iff {updates : List Update} {r : Rejection} :
    checkUpdates updates = .error r ↔ IsFirstFault Entry.fault? (updates.flatMap Update.entries) r := by
  unfold checkUpdates IsFirstFault
  simp only [checkFrom_eq_error_iff Entry.check_cases, Nat.zero_add]

theorem map_operation_of_checkOperations {batch : List Operation} {changes : List Change}
    (h : checkOperations batch = .ok changes) : changes.map Change.operation = batch := by
  have hm := checkFrom_of_ok Operation.check_cases h
  rw [← List.forall₂_eq_eq_eq, List.forall₂_map_left_iff]
  exact hm.flip

theorem map_operation_of_checkUpdates {updates : List Update} {changes : List Change}
    (h : checkUpdates updates = .ok changes) :
    (updates.flatMap Update.entries).map Entry.operation? = changes.map (some ·.operation) := by
  have hm := checkFrom_of_ok Entry.check_cases h
  rw [← List.forall₂_eq_eq_eq, List.forall₂_map_left_iff, List.forall₂_map_right_iff]
  exact hm

/-! ## Making changes -/

/-- A side after changes of its own, made in their order, and how many levels they pushed out. -/
def Ladder.make (l : Ladder) : List Change → Ladder × Nat
  | [] => (l, 0)
  | c :: cs =>
    let (next, out) := l.upsert c.price c.volume
    let (last, n) := next.make cs
    (last, n + if out.isSome then 1 else 0)

namespace Book

@[simp] theorem side_withSide_self (b : Book) (s : Side) (l : Ladder) : (b.withSide s l).side s = l := by
  cases s <;> rfl

theorem side_withSide_of_ne (b : Book) {s t : Side} (h : t ≠ s) (l : Ladder) :
    (b.withSide s l).side t = b.side t := by
  cases s <;> cases t <;> first | rfl | exact absurd rfl h

/-- A change is made on its own side alone; it counts the level it pushes out. -/
theorem applyChange_spec (b : Book) (c : Change) :
    (∀ s, (b.applyChange c).side s =
      if s = c.side then ((b.side s).upsert c.price c.volume).1 else b.side s) ∧
    (b.applyChange c).levelsEvicted =
      b.levelsEvicted + (if ((b.side c.side).upsert c.price c.volume).2.isSome then 1 else 0) ∧
    (b.applyChange c).batchesApplied = b.batchesApplied := by
  have hs : ∀ s, (b.applyChange c).side s =
      (b.withSide c.side ((b.side c.side).upsert c.price c.volume).1).side s := by
    intro s
    unfold applyChange
    dsimp only
    split <;> cases s <;> rfl
  refine ⟨fun s => ?_, ?_, ?_⟩
  · rw [hs]
    by_cases h : s = c.side
    · rw [h, side_withSide_self, if_pos rfl]
    · rw [side_withSide_of_ne b h, if_neg h]
  all_goals
    unfold applyChange withSide
    dsimp only
    split <;> cases c.side <;> rfl

theorem foldl_applyChange_spec (changes : List Change) (b : Book) :
    (∀ s, (changes.foldl applyChange b).side s =
      ((b.side s).make (changes.filter (·.side = s))).1) ∧
    (changes.foldl applyChange b).levelsEvicted = b.levelsEvicted +
      ((b.side .bid).make (changes.filter (·.side = .bid))).2 +
      ((b.side .ask).make (changes.filter (·.side = .ask))).2 ∧
    (changes.foldl applyChange b).batchesApplied = b.batchesApplied := by
  induction changes generalizing b with
  | nil => exact ⟨fun _ => rfl, rfl, rfl⟩
  | cons c cs ih =>
    obtain ⟨hs, he, hb⟩ := applyChange_spec b c
    obtain ⟨ihs, ihe, ihb⟩ := ih (b.applyChange c)
    rw [List.foldl_cons]
    refine ⟨fun s => ?_, ?_, ihb.trans hb⟩
    · rw [ihs, hs]
      by_cases h : c.side = s
      · simp [h, Ladder.make]
      · simp [h, Ne.symm h]
    · rw [ihe, he, hs, hs]
      cases h : c.side <;> simp [h, Ladder.make] <;> omega

end Book
end MarketMinutes
