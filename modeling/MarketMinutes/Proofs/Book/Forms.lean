import MarketMinutes.Proofs.Book.Calls

/-!
# One batch in two forms

Updates whose texts are all numbers spell a list of operations. Handed to a
book as updates or as these operations, the batch is accepted in both forms or
in none: line by line the checks find the same changes, or a fault in the same
place.
-/

namespace MarketMinutes

theorem Entry.exists_operation? {e : Entry} (h : (Decimal.parse? e.price).isSome ∧ (Decimal.parse? e.volume).isSome) :
    ∃ o, e.operation? = some o := by
  obtain ⟨p, hp⟩ := Option.isSome_iff_exists.mp h.1
  obtain ⟨v, hv⟩ := Option.isSome_iff_exists.mp h.2
  exact ⟨⟨e.side, p, v⟩, by simp only [operation?, hp, hv]⟩

/-- Lines whose texts are all numbers spell an operation each. -/
theorem map_operation?_eq {entries : List Entry}
    (h : ∀ e ∈ entries, (Decimal.parse? e.price).isSome ∧ (Decimal.parse? e.volume).isSome) :
    entries.map Entry.operation? = (entries.filterMap Entry.operation?).map some := by
  rw [List.map_filterMap_some_eq_filter_map_isSome, eq_comm, List.filter_eq_self]
  intro o ho
  obtain ⟨e, he, rfl⟩ := List.mem_map.mp ho
  obtain ⟨o, ho⟩ := Entry.exists_operation? (h e he)
  rw [ho]
  rfl

theorem Entry.parse?_of_operation? {e : Entry} {o : Operation} (h : e.operation? = some o) :
    e.side = o.side ∧ Decimal.parse? e.price = some o.price ∧ Decimal.parse? e.volume = some o.volume := by
  unfold operation? at h
  split at h
  next p v hp hv =>
    cases h
    exact ⟨rfl, hp, hv⟩
  next => cases h

/-- A line and the operation that it spells make one change, or both have a volume below zero. -/
theorem Entry.check_of_operation? {e : Entry} {o : Operation} (h : e.operation? = some o) :
    (∃ c, e.check = .ok c ∧ o.check = .ok c) ∨
      (e.check = .error (.badVolume o.side (.negativeVolume o.volume)) ∧
        o.check = .error (.negativeVolume o.volume o.price)) := by
  obtain ⟨hside, hprice, hvolume⟩ := parse?_of_operation? h
  cases hv : Volume.ofDecimal? o.volume with
  | none =>
    exact .inr ⟨by simp [check, Volume.ofText, Volume.ofDecimal, Decimal.ofText, hprice, hvolume, hv, hside, bind, Except.bind],
      by simp [Operation.check, hv]⟩
  | some v =>
    exact .inl ⟨⟨o.side, o.price, v⟩,
      by simp [check, Volume.ofText, Volume.ofDecimal, Decimal.ofText, hprice, hvolume, hv, hside, bind, Except.bind],
      by simp [Operation.check, hv]⟩

theorem checkFrom_of_operation? {entries : List Entry} {ops : List Operation}
    (h : List.Forall₂ (fun e o => e.operation? = some o) entries ops) (index : Nat) :
    (∃ changes, checkFrom Entry.check index entries = .ok changes ∧ checkFrom Operation.check index ops = .ok changes ∧
        changes.length = ops.length) ∨
      ∃ i o, ops[i]? = some o ∧
        checkFrom Entry.check index entries = .error ⟨index + i, .badVolume o.side (.negativeVolume o.volume)⟩ ∧
        checkFrom Operation.check index ops = .error ⟨index + i, .negativeVolume o.volume o.price⟩ := by
  induction h generalizing index with
  | nil => exact .inl ⟨[], rfl, rfl, rfl⟩
  | @cons e o entries ops heo _ ih =>
    rcases Entry.check_of_operation? heo with ⟨c, he, ho⟩ | ⟨he, ho⟩
    · rw [checkFrom_cons_of_ok he, checkFrom_cons_of_ok ho]
      rcases ih (index + 1) with ⟨changes, hes, hos, hlen⟩ | ⟨i, o', ho', hes, hos⟩
      · rw [hes, hos]
        exact .inl ⟨c :: changes, rfl, rfl, congrArg (· + 1) hlen⟩
      · rw [hes, hos]
        refine .inr ⟨i + 1, o', ho', ?_⟩
        rw [Nat.add_right_comm]
        exact ⟨rfl, rfl⟩
    · rw [checkFrom_cons_of_error he, checkFrom_cons_of_error ho]
      exact .inr ⟨0, o, rfl, rfl, rfl⟩

namespace Book

/-- Updates in which every text is a number spell operations, and a book takes both forms or none. It is the same book
after either, and the updates count as many changes as there are operations; or both are rejected at the same place, for
the volume of one operation, and leave the book as it was. -/
theorem forms_agree (b : Book) {updates : List Update}
    (h : ∀ e ∈ updates.flatMap Update.entries, (Decimal.parse? e.price).isSome ∧ (Decimal.parse? e.volume).isSome) :
    ∃ ops : List Operation, (updates.flatMap Update.entries).map Entry.operation? = ops.map some ∧
      ((∃ next, b.applyUpdates updates = .ok (next, ops.length) ∧ b.apply ops = .ok next) ∨
        ∃ i o, ops[i]? = some o ∧
          b.applyUpdates updates = .error ⟨i, .badVolume o.side (.negativeVolume o.volume)⟩ ∧
          b.apply ops = .error ⟨i, .negativeVolume o.volume o.price⟩ ∧
          (b.receive (.updates updates)).1 = b ∧ (b.receive (.operations ops)).1 = b) := by
  obtain ⟨ops, hspelled⟩ : ∃ ops : List Operation, (updates.flatMap Update.entries).map Entry.operation? = ops.map some :=
    ⟨_, map_operation?_eq h⟩
  refine ⟨ops, hspelled, ?_⟩
  rw [← List.forall₂_eq_eq_eq, List.forall₂_map_left_iff, List.forall₂_map_right_iff] at hspelled
  rcases checkFrom_of_operation? hspelled 0 with ⟨changes, hes, hos, hlen⟩ | ⟨i, o, ho, hes, hos⟩
  · have hupdates : checkUpdates updates = .ok changes := hes
    have hbatch : checkOperations ops = .ok changes := hos
    refine .inl ⟨b.applyChanges changes, ?_, by rw [apply_eq, hbatch]; rfl⟩
    rw [applyUpdates_eq, hupdates, ← hlen]
    rfl
  · rw [Nat.zero_add] at hes hos
    have hupdates : checkUpdates updates = .error ⟨i, .badVolume o.side (.negativeVolume o.volume)⟩ := hes
    have hbatch : checkOperations ops = .error ⟨i, .negativeVolume o.volume o.price⟩ := hos
    refine .inr ⟨i, o, ho, ?_, ?_, ?_, ?_⟩
    · rw [applyUpdates_eq, hupdates]
      rfl
    · rw [apply_eq, hbatch]
      rfl
    · rw [receive_updates_of_error hupdates]
    · rw [receive_operations_of_error hbatch]

/-- Scientific writing, a signed zero and blanks are fine; both forms are rejected for the volume of the third line. -/
theorem forms_agree_on_negative_volume :
    let b := Book.empty 2
    let updates : List Update := [⟨[("1e2", "5")], [("101", "-0.0")]⟩, ⟨[(" 99.5 ", "-3")], []⟩]
    (∀ e ∈ updates.flatMap Update.entries, (Decimal.parse? e.price).isSome ∧ (Decimal.parse? e.volume).isSome) ∧
      ∃ ops : List Operation, (updates.flatMap Update.entries).map Entry.operation? = ops.map some ∧
        ∃ r r', b.applyUpdates updates = .error r ∧ b.apply ops = .error r' ∧ r.index = 2 ∧ r'.index = 2 := by
  intro b updates
  have h : ∀ e ∈ updates.flatMap Update.entries, (Decimal.parse? e.price).isSome ∧ (Decimal.parse? e.volume).isSome := by
    decide +kernel
  have hrejected : b.applyUpdates updates =
      .error ⟨2, .badVolume .bid (.negativeVolume ⟨true, 3, 0, by decide, by decide⟩)⟩ := by
    decide +kernel
  obtain ⟨ops, hops, ⟨next, hnext, -⟩ | ⟨i, o, -, hupdates, hbatch, -, -⟩⟩ := forms_agree b h
  · rw [hrejected] at hnext
    cases hnext
  · have hindex : i = 2 := by
      rw [hrejected, Except.error.injEq, Rejection.mk.injEq] at hupdates
      exact hupdates.1.symm
    exact ⟨h, ops, hops, _, _, hupdates, hbatch, hindex, hindex⟩

end Book
end MarketMinutes
