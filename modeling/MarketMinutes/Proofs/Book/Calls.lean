import MarketMinutes.Proofs.Book.Batch

/-!
# Calls to a book

A book is handed batches of either form, one after another. A batch that is
rejected leaves no trace: the book and all later answers are as if it had not
been there. One that is accepted has been made in full.
-/

namespace MarketMinutes

/-- A batch as it is handed to a book. -/
inductive Call where
  | operations (batch : List Operation)
  | updates (updates : List Update)

/-- The changes that a call makes; none if it is rejected. -/
def Call.changes : Call → List Change
  | .operations batch => (checkOperations batch).toOption.getD []
  | .updates us => (checkUpdates us).toOption.getD []

theorem Ladder.make_append (l : Ladder) (xs ys : List Change) :
    l.make (xs ++ ys) = (((l.make xs).1.make ys).1, (l.make xs).2 + ((l.make xs).1.make ys).2) := by
  induction xs generalizing l with
  | nil => simp [make]
  | cons c cs ih =>
    simp only [List.cons_append, make, ih]
    rw [Nat.add_right_comm]

namespace Book

/-- The book after a call, and the answer: for updates, how many changes were made. -/
def receive (b : Book) : Call → Book × Except Rejection (Option Nat)
  | .operations batch =>
    let (next, taken) := b.takeOperations batch
    (next, taken.map fun _ => none)
  | .updates updates =>
    let (next, taken) := b.takeUpdates updates
    (next, taken.map some)

def after (b : Book) (calls : List Call) : Book :=
  calls.foldl (fun b call => (b.receive call).1) b

def answers (b : Book) : List Call → List (Except Rejection (Option Nat))
  | [] => []
  | call :: calls => (b.receive call).2 :: (b.receive call).1.answers calls

/-- A book with changes made in their order, as one batch. -/
structure Makes (b : Book) (changes : List Change) (next : Book) : Prop where
  sides : ∀ s, next.side s = ((b.side s).make (changes.filter (·.side = s))).1
  evicted : next.levelsEvicted = b.levelsEvicted +
    ((b.side .bid).make (changes.filter (·.side = .bid))).2 +
    ((b.side .ask).make (changes.filter (·.side = .ask))).2
  batches : next.batchesApplied = b.batchesApplied + 1

theorem makes_applyChanges (b : Book) (changes : List Change) : b.Makes changes (b.applyChanges changes) := by
  obtain ⟨hs, he, hb⟩ := foldl_applyChange_spec changes b
  refine ⟨fun s => ?_, he, congrArg (· + 1) hb⟩
  rw [← hs]
  cases s <;> rfl

/-! ## Rejected and accepted batches -/

section
variable {b next : Book} {batch : List Operation} {updates : List Update} {changes : List Change} {r : Rejection}

theorem takeOperations_of_error (h : checkOperations batch = .error r) : b.takeOperations batch = (b, .error r) := by
  rw [takeOperations, h]

theorem takeOperations_of_ok (h : checkOperations batch = .ok changes) :
    b.takeOperations batch = (b.applyChanges changes, .ok ()) := by
  rw [takeOperations, h]

theorem takeUpdates_of_error (h : checkUpdates updates = .error r) : b.takeUpdates updates = (b, .error r) := by
  rw [takeUpdates, h]

theorem takeUpdates_of_ok (h : checkUpdates updates = .ok changes) :
    b.takeUpdates updates = (b.applyChanges changes, .ok changes.length) := by
  rw [takeUpdates, h]

theorem receive_operations_of_error (h : checkOperations batch = .error r) :
    b.receive (.operations batch) = (b, .error r) := by
  rw [receive, takeOperations_of_error h]
  rfl

theorem receive_operations_of_ok (h : checkOperations batch = .ok changes) :
    b.receive (.operations batch) = (b.applyChanges changes, .ok none) := by
  rw [receive, takeOperations_of_ok h]
  rfl

theorem receive_updates_of_error (h : checkUpdates updates = .error r) :
    b.receive (.updates updates) = (b, .error r) := by
  rw [receive, takeUpdates_of_error h]
  rfl

theorem receive_updates_of_ok (h : checkUpdates updates = .ok changes) :
    b.receive (.updates updates) = (b.applyChanges changes, .ok (some changes.length)) := by
  rw [receive, takeUpdates_of_ok h]
  rfl

theorem apply_eq (b : Book) (batch : List Operation) : b.apply batch = (checkOperations batch).map b.applyChanges := by
  cases h : checkOperations batch with
  | error r =>
    rw [apply, takeOperations_of_error h]
    rfl
  | ok changes =>
    rw [apply, takeOperations_of_ok h]
    rfl

theorem applyUpdates_eq (b : Book) (updates : List Update) :
    b.applyUpdates updates = (checkUpdates updates).map fun changes => (b.applyChanges changes, changes.length) := by
  cases h : checkUpdates updates with
  | error r =>
    rw [applyUpdates, takeUpdates_of_error h]
    rfl
  | ok changes =>
    rw [applyUpdates, takeUpdates_of_ok h]
    rfl

theorem apply_eq_error_iff : b.apply batch = .error r ↔ IsFirstFault Operation.fault? batch r := by
  rw [← checkOperations_eq_error_iff, apply_eq]
  cases checkOperations batch <;> simp [Except.map]

theorem applyUpdates_eq_error_iff :
    b.applyUpdates updates = .error r ↔ IsFirstFault Entry.fault? (updates.flatMap Update.entries) r := by
  rw [← checkUpdates_eq_error_iff, applyUpdates_eq]
  cases checkUpdates updates <;> simp [Except.map]

theorem makes_of_apply (h : b.apply batch = .ok next) :
    ∃ changes, changes.map Change.operation = batch ∧ b.Makes changes next := by
  rw [apply_eq] at h
  cases hc : checkOperations batch with
  | error r => rw [hc] at h; cases h
  | ok changes =>
    rw [hc] at h
    cases h
    exact ⟨changes, map_operation_of_checkOperations hc, makes_applyChanges b changes⟩

theorem makes_of_applyUpdates {n : Nat} (h : b.applyUpdates updates = .ok (next, n)) :
    ∃ changes, (updates.flatMap Update.entries).map Entry.operation? = changes.map (some ·.operation) ∧
      b.Makes changes next ∧ n = changes.length := by
  rw [applyUpdates_eq] at h
  cases hc : checkUpdates updates with
  | error r => rw [hc] at h; cases h
  | ok changes =>
    rw [hc] at h
    cases h
    exact ⟨changes, map_operation_of_checkUpdates hc, makes_applyChanges b changes, rfl⟩

end

/-- A call is rejected, makes no changes and leaves the book as it was, or is accepted with its changes made. -/
theorem receive_cases (b : Book) (call : Call) :
    (∃ r, b.receive call = (b, .error r) ∧ call.changes = []) ∨
      ∃ n, b.receive call = (b.applyChanges call.changes, .ok n) := by
  cases call with
  | operations batch =>
    cases h : checkOperations batch with
    | error r => exact .inl ⟨r, receive_operations_of_error h, by rw [Call.changes, h]; rfl⟩
    | ok changes =>
      rw [Call.changes, h]
      exact .inr ⟨none, receive_operations_of_ok h⟩
  | updates updates =>
    cases h : checkUpdates updates with
    | error r => exact .inl ⟨r, receive_updates_of_error h, by rw [Call.changes, h]; rfl⟩
    | ok changes =>
      rw [Call.changes, h]
      exact .inr ⟨some changes.length, receive_updates_of_ok h⟩

theorem receive_of_error {b : Book} {call : Call} {r : Rejection} (h : (b.receive call).2 = .error r) :
    (b.receive call).1 = b := by
  rcases receive_cases b call with ⟨r', hr, -⟩ | ⟨n, hn⟩
  · rw [hr]
  · rw [hn] at h
    cases h

/-! ## Whole histories -/

theorem receive_spec (b : Book) (call : Call) :
    (∀ s, (b.receive call).1.side s = ((b.side s).make (call.changes.filter (·.side = s))).1) ∧
    (b.receive call).1.levelsEvicted = b.levelsEvicted +
      ((b.side .bid).make (call.changes.filter (·.side = .bid))).2 +
      ((b.side .ask).make (call.changes.filter (·.side = .ask))).2 := by
  rcases receive_cases b call with ⟨r, hb, hc⟩ | ⟨n, hb⟩
  · rw [hb, hc]
    exact ⟨fun _ => rfl, rfl⟩
  · have hm := makes_applyChanges b call.changes
    rw [hb]
    exact ⟨hm.sides, hm.evicted⟩

/-- After any calls either side has made its own changes of all of them, in their order. -/
theorem after_spec (b : Book) (calls : List Call) :
    (∀ s, (b.after calls).side s =
      ((b.side s).make ((calls.flatMap Call.changes).filter (·.side = s))).1) ∧
    (b.after calls).levelsEvicted = b.levelsEvicted +
      ((b.side .bid).make ((calls.flatMap Call.changes).filter (·.side = .bid))).2 +
      ((b.side .ask).make ((calls.flatMap Call.changes).filter (·.side = .ask))).2 := by
  induction calls generalizing b with
  | nil => exact ⟨fun _ => rfl, rfl⟩
  | cons call calls ih =>
    obtain ⟨hs, he⟩ := receive_spec b call
    obtain ⟨ihs, ihe⟩ := ih (b.receive call).1
    have ha : b.after (call :: calls) = (b.receive call).1.after calls := rfl
    simp only [ha, List.flatMap_cons, List.filter_append, Ladder.make_append]
    refine ⟨fun s => by rw [ihs, hs], ?_⟩
    rw [ihe, he, hs, hs]
    omega

end Book
end MarketMinutes
