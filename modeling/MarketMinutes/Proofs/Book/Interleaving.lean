import MarketMinutes.Proofs.Book.Forms
import MarketMinutes.Proofs.Book.Scales

/-!
# Changes of two sides interleaved

A call is accepted if all its parts are operations with volumes not below
zero, and then makes a change for each. Either side makes its own changes in
their order. So it does not matter how the changes of the two sides lie between
one another, nor where the calls cut them.
-/

namespace MarketMinutes

/-! ## Accepted calls -/

theorem Operation.exists_change? {o : Operation} (h : 0 ≤ o.volume.number) :
    ∃ c, o.change? = some c ∧ c.operation = o := by
  obtain ⟨v, hv, hvalue⟩ := Volume.ofDecimal?_of_nonneg (not_lt.mpr h)
  refine ⟨⟨o.side, o.price, v⟩, by rw [change?, hv, Option.map_some], ?_⟩
  simp only [Change.operation, hvalue]

theorem Call.exists_changes? {call : Call} {ops : List Operation} (hparts : call.parts = ops.map some)
    (hvalid : ∀ o ∈ ops, 0 ≤ o.volume.number) :
    ∃ changes, call.changes? = some changes ∧ changes.map Change.operation = ops := by
  rw [changes?, hparts, List.mapM_map]
  clear hparts
  induction ops with
  | nil => exact ⟨[], rfl, rfl⟩
  | cons o os ih =>
    obtain ⟨ho, hos⟩ := List.forall_mem_cons.mp hvalid
    obtain ⟨c, hc, hoperation⟩ := Operation.exists_change? ho
    obtain ⟨changes, hchanges, hmap⟩ := ih hos
    refine ⟨c :: changes, ?_, by rw [List.map_cons, hoperation, hmap]⟩
    rw [List.mapM_cons, Function.comp_apply, Option.bind_some, hc, hchanges]
    rfl

theorem eq_ok_of_toOption {ε α : Type} {x : Except ε α} {a : α} (h : x.toOption = some a) : x = .ok a := by
  cases x with
  | error e => cases h
  | ok b =>
    cases h
    rfl

/-- Calls of operations with volumes not below zero, however they cut them, make a change for each. -/
theorem Call.changes_of_valid {calls : List Call} {ops : List Operation} (hparts : calls.flatMap Call.parts = ops.map some)
    (hvalid : ∀ o ∈ ops, 0 ≤ o.volume.number) :
    (calls.flatMap Call.changes).map Change.operation = ops ∧ ∀ call ∈ calls, ∃ changes, call.changes? = some changes := by
  induction calls generalizing ops with
  | nil =>
    have hops : ops = [] := List.map_eq_nil_iff.mp hparts.symm
    exact ⟨hops.symm, List.forall_mem_nil _⟩
  | cons call calls ih =>
    rw [List.flatMap_cons] at hparts
    obtain ⟨first, rest, rfl, hfirst, hrest⟩ := List.map_eq_append_iff.mp hparts.symm
    obtain ⟨hvalid₁, hvalid₂⟩ := List.forall_mem_append.mp hvalid
    obtain ⟨changes, hchanges, hmap⟩ := Call.exists_changes? hfirst.symm hvalid₁
    obtain ⟨ihmap, ihall⟩ := ih hrest.symm hvalid₂
    refine ⟨?_, List.forall_mem_cons.mpr ⟨⟨changes, hchanges⟩, ihall⟩⟩
    rw [List.flatMap_cons, List.map_append, ihmap, Call.changes_eq, hchanges, Option.getD_some, hmap]

/-! ## The changes of one side -/

theorem filter_side_of_entries {entries : List Entry} {changes : List Change}
    (h : entries.map Entry.operation? = changes.map (some ·.operation)) (s : Side) :
    (entries.filter (·.side = s)).map Entry.operation? = (changes.filter (·.side = s)).map (some ·.operation) := by
  rw [← List.forall₂_eq_eq_eq, List.forall₂_map_left_iff, List.forall₂_map_right_iff] at h ⊢
  refine List.rel_filter (fun e c hec => ?_) h
  have hside : e.side = c.side := (Entry.parse?_of_operation? hec).1
  simp only [hside]

theorem filter_map_operation (s : Side) (changes : List Change) :
    (changes.map Change.operation).filter (·.side = s) = (changes.filter (·.side = s)).map Change.operation :=
  List.filter_map

theorem filter_side_eq {changes changes' : List Change} {s : Side}
    (h : (changes.map Change.operation).filter (·.side = s) = (changes'.map Change.operation).filter (·.side = s)) :
    changes.filter (·.side = s) = changes'.filter (·.side = s) := by
  rw [filter_map_operation, filter_map_operation] at h
  exact List.map_injective_iff.mpr Change.operation_injective h

theorem mem_of_filter_side_eq {α : Type} {side : α → Side} {xs ys : List α}
    (h : ∀ s, xs.filter (side · = s) = ys.filter (side · = s)) {x : α} : x ∈ xs ↔ x ∈ ys := by
  have hmem : ∀ zs : List α, x ∈ zs ↔ x ∈ zs.filter (side · = side x) := by simp
  rw [hmem xs, hmem ys, h]

/-- Its bids and its asks as updates of their own, those of one side first. -/
def Update.apart (u : Update) : Side → List Update
  | .bid => [⟨u.bids, []⟩, ⟨[], u.asks⟩]
  | .ask => [⟨[], u.asks⟩, ⟨u.bids, []⟩]

theorem Update.filter_apart (u : Update) (first s : Side) :
    ((u.apart first).flatMap Update.entries).filter (·.side = s) = u.entries.filter (·.side = s) := by
  cases first <;> cases s <;> simp [apart, entries, List.filter_map, Function.comp_def]

theorem Update.filter_flatMap_apart (updates : List Update) (first : Update → Side) (s : Side) :
    ((updates.flatMap fun u => u.apart (first u)).flatMap Update.entries).filter (·.side = s) =
      (updates.flatMap Update.entries).filter (·.side = s) := by
  rw [List.flatMap_assoc, List.filter_flatMap, List.filter_flatMap]
  simp only [Update.filter_apart]

namespace Book

/-- A call whose parts are all changes is accepted and makes them. -/
theorem receive_of_changes? (b : Book) {call : Call} {changes : List Change} (h : call.changes? = some changes) :
    ∃ n, b.receive call = (b.applyChanges changes, .ok n) := by
  cases call with
  | operations batch =>
    have hc : checkOperations batch = .ok changes := eq_ok_of_toOption (Call.changes?_operations batch ▸ h)
    exact ⟨none, receive_operations_of_ok hc⟩
  | updates us =>
    have hc : checkUpdates us = .ok changes := eq_ok_of_toOption (Call.changes?_updates us ▸ h)
    exact ⟨some changes.length, receive_updates_of_ok hc⟩

theorem ok_of_mem_answers {b : Book} {calls : List Call} (h : ∀ call ∈ calls, ∃ changes, call.changes? = some changes) :
    ∀ answer ∈ b.answers calls, ∃ n, answer = .ok n := by
  induction calls generalizing b with
  | nil => exact List.forall_mem_nil _
  | cons call calls ih =>
    obtain ⟨⟨changes, hchanges⟩, hcalls⟩ := List.forall_mem_cons.mp h
    obtain ⟨n, hn⟩ := b.receive_of_changes? hchanges
    rw [answers, hn]
    exact List.forall_mem_cons.mpr ⟨⟨n, rfl⟩, ih hcalls⟩

theorem ext_sides {b b' : Book} (hs : ∀ s, b.side s = b'.side s) (he : b.levelsEvicted = b'.levelsEvicted)
    (hn : b.batchesApplied = b'.batchesApplied) : b = b' := by
  obtain ⟨bids, asks, batches, evicted⟩ := b
  obtain ⟨bids', asks', batches', evicted'⟩ := b'
  cases hs .bid
  cases hs .ask
  cases he
  cases hn
  rfl

theorem Makes.unique {b next next' : Book} {changes changes' : List Change} (h : b.Makes changes next)
    (h' : b.Makes changes' next') (heq : ∀ s, changes.filter (·.side = s) = changes'.filter (·.side = s)) : next = next' := by
  refine ext_sides (fun s => ?_) ?_ ?_
  · rw [h.sides, h'.sides, heq]
  · rw [h.evicted, h'.evicted, heq, heq]
  · rw [h.batches, h'.batches]

theorem after_congr (b : Book) {calls calls' : List Call}
    (h : ∀ s, (calls.flatMap Call.changes).filter (·.side = s) = (calls'.flatMap Call.changes).filter (·.side = s)) :
    (∀ s, (b.after calls).side s = (b.after calls').side s) ∧
      (b.after calls).levelsEvicted = (b.after calls').levelsEvicted := by
  obtain ⟨hs, he⟩ := b.after_spec calls
  obtain ⟨hs', he'⟩ := b.after_spec calls'
  refine ⟨fun s => ?_, ?_⟩
  · rw [hs, hs', h]
  · rw [he, he', h, h]

/-- Updates with the same lines on either side, in the same order, are both taken or both rejected. -/
theorem receive_updates_congr (b : Book) {us us' : List Update}
    (h : ∀ s, (us.flatMap Update.entries).filter (·.side = s) = (us'.flatMap Update.entries).filter (·.side = s)) :
    (b.receive (.updates us)).1 = (b.receive (.updates us')).1 := by
  have hfault : (∃ r, checkUpdates us = .error r) ↔ ∃ r, checkUpdates us' = .error r := by
    simp only [checkUpdates_eq_error_iff, exists_isFirstFault_iff, mem_of_filter_side_eq h]
  cases hu : checkUpdates us with
  | error r =>
    obtain ⟨r', hu'⟩ := hfault.mp ⟨r, hu⟩
    rw [receive_updates_of_error hu, receive_updates_of_error hu']
  | ok changes =>
    cases hu' : checkUpdates us' with
    | error r =>
      obtain ⟨r', hr'⟩ := hfault.mpr ⟨r, hu'⟩
      rw [hu] at hr'
      cases hr'
    | ok changes' =>
      rw [receive_updates_of_ok hu, receive_updates_of_ok hu']
      refine (makes_applyChanges b changes).unique (makes_applyChanges b changes') fun s => ?_
      have hside := filter_side_of_entries (map_operation_of_checkUpdates hu) s
      rw [h, filter_side_of_entries (map_operation_of_checkUpdates hu') s] at hside
      have hinjective : Function.Injective fun c : Change => some c.operation :=
        (Option.some_injective _).comp Change.operation_injective
      exact (List.map_injective_iff.mpr hinjective hside).symm

/-- Operations with volumes not below zero are all accepted, however calls of either form cut them. What they leave on a
side depends on that side's operations alone, in their order, and so does how many levels they push out. So the bids
and the asks of any update may as well come as two updates, either of them first. -/
theorem sides_do_not_interact {depth : Nat} (hd : 0 < depth) :
    ∃ start, Book.new depth = .ok start ∧ ∀ history,
      let b := start.after history
      (∀ (calls calls' : List Call) (ops ops' : List Operation), calls.flatMap Call.parts = ops.map some →
        calls'.flatMap Call.parts = ops'.map some → (∀ o ∈ ops, 0 ≤ o.volume.number) →
        (∀ s, ops.filter (·.side = s) = ops'.filter (·.side = s)) →
          (∀ answer ∈ b.answers calls ++ b.answers calls', ∃ n, answer = .ok n) ∧
          (b.after calls).bids = (b.after calls').bids ∧ (b.after calls).asks = (b.after calls').asks ∧
          (b.after calls).levelsEvicted = (b.after calls').levelsEvicted) ∧
      ∀ (updates : List Update) (first : Update → Side),
        (b.receive (.updates (updates.flatMap fun u => u.apart (first u)))).1 = (b.receive (.updates updates)).1 := by
  refine ⟨empty depth, if_neg hd.ne', fun history => ?_⟩
  intro b
  refine ⟨?_, fun updates first => b.receive_updates_congr (Update.filter_flatMap_apart updates first)⟩
  intro calls calls' ops ops' hparts hparts' hvalid hsides
  have hvalid' : ∀ o ∈ ops', 0 ≤ o.volume.number := fun o ho => hvalid o ((mem_of_filter_side_eq hsides).mpr ho)
  obtain ⟨hmap, hall⟩ := Call.changes_of_valid hparts hvalid
  obtain ⟨hmap', hall'⟩ := Call.changes_of_valid hparts' hvalid'
  have hchanges : ∀ s, (calls.flatMap Call.changes).filter (·.side = s) = (calls'.flatMap Call.changes).filter (·.side = s) :=
    fun s => filter_side_eq (by rw [hmap, hmap', hsides])
  obtain ⟨hside, hevicted⟩ := b.after_congr hchanges
  exact ⟨List.forall_mem_append.mpr ⟨ok_of_mem_answers hall, ok_of_mem_answers hall'⟩, hside .bid, hside .ask, hevicted⟩

/-- The bid at 1 is pushed out at once and the one at 2 deleted later, be the ask in between or in front, in one batch or
two. -/
theorem sides_do_not_interact_past_depth :
    0 < 1 ∧ ∃ start, Book.new 1 = .ok start ∧
      let b := start.after [.operations [⟨.bid, .two, .one⟩]]
      let ops : List Operation := [⟨.bid, .one, .one⟩, ⟨.ask, .two, .one⟩, ⟨.bid, .two, .zero⟩]
      let ops' : List Operation := [⟨.ask, .two, .one⟩, ⟨.bid, .one, .one⟩, ⟨.bid, .two, .zero⟩]
      let calls := [.operations ops]
      let calls' := [.updates [⟨[], [("2", "1")]⟩, ⟨[("1", "1")], []⟩], .operations [⟨.bid, .two, .zero⟩]]
      calls.flatMap Call.parts = ops.map some ∧ calls'.flatMap Call.parts = ops'.map some ∧
        (∀ o ∈ ops, 0 ≤ o.volume.number) ∧ (∀ s, ops.filter (·.side = s) = ops'.filter (·.side = s)) ∧
        (b.after calls).bids = (b.after calls').bids ∧ (b.after calls).asks = (b.after calls').asks ∧
        (b.after calls).levelsEvicted = (b.after calls').levelsEvicted ∧ (b.after calls).levelsEvicted = 1 := by
  obtain ⟨start, hstart, h⟩ := sides_do_not_interact (show 0 < 1 by decide)
  refine ⟨by decide, start, hstart, ?_⟩
  intro b ops ops' calls calls'
  have hparts : calls.flatMap Call.parts = ops.map some := rfl
  have hparts' : calls'.flatMap Call.parts = ops'.map some := by decide +kernel
  have hvalid : ∀ o ∈ ops, 0 ≤ o.volume.number := by decide +kernel
  have hsides : ∀ s, ops.filter (·.side = s) = ops'.filter (·.side = s) := fun s => by cases s <;> decide
  obtain ⟨-, hbids, hasks, hevicted⟩ := (h _).1 calls calls' ops ops' hparts hparts' hvalid hsides
  refine ⟨hparts, hparts', hvalid, hsides, hbids, hasks, hevicted, ?_⟩
  cases hstart
  decide

end Book
end MarketMinutes
