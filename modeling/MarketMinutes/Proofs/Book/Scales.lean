import MarketMinutes.Proofs.Book.Contents
import MarketMinutes.Proofs.Book.Digest
import MarketMinutes.Proofs.Book.Invariant

/-!
# Books that differ in scales

Two books take calls whose operations have the same numbers, at whatever
scales. A level keeps the scale its price was first written with, so the two
need not hold the same levels. But what a call does depends on numbers alone,
so level by level they have the same numbers, and one checksum.
-/

namespace MarketMinutes

/-! ## Operations and calls -/

structure Operation.Same (o o' : Operation) : Prop where
  side : o.side = o'.side
  price : o.price.number = o'.price.number
  volume : o.volume.number = o'.volume.number

def Change.Same (c c' : Change) : Prop :=
  c.operation.Same c'.operation

/-- The operations of a call in their order, none for a line with a text that is no number. -/
def Call.parts : Call → List (Option Operation)
  | .operations batch => batch.map some
  | .updates us => (us.flatMap Update.entries).map Entry.operation?

/-- Calls of either form that correspond operation by operation. -/
def Call.Same (call call' : Call) : Prop :=
  List.Forall₂ (Option.Rel Operation.Same) call.parts call'.parts

/-! ## Changes -/

def Operation.change? (o : Operation) : Option Change :=
  (Volume.ofDecimal? o.volume).map (⟨o.side, o.price, ·⟩)

theorem Operation.toOption_check (o : Operation) : o.check.toOption = o.change? := by
  unfold check change?
  cases Volume.ofDecimal? o.volume <;> rfl

theorem Entry.toOption_check (e : Entry) : e.check.toOption = e.operation?.bind Operation.change? := by
  cases hp : Decimal.parse? e.price with
  | none => simp [check, operation?, Decimal.ofText, hp, Except.toOption]
  | some price =>
    cases hv : Decimal.parse? e.volume with
    | none => simp [check, operation?, Volume.ofText, Decimal.ofText, hp, hv, bind, Except.bind, Except.toOption]
    | some volume =>
      cases ho : Volume.ofDecimal? volume <;>
        simp [check, operation?, Operation.change?, Volume.ofText, Volume.ofDecimal, Decimal.ofText, hp, hv, ho, bind,
          Except.bind, Except.toOption]

theorem toOption_checkFrom (check : α → Except Fault Change) (index : Nat) (xs : List α) :
    (checkFrom check index xs).toOption = xs.mapM fun x => (check x).toOption := by
  induction xs generalizing index with
  | nil => rfl
  | cons x xs ih =>
    rw [List.mapM_cons, ← ih (index + 1)]
    cases hx : check x with
    | error f =>
      rw [checkFrom_cons_of_error hx]
      rfl
    | ok c =>
      rw [checkFrom_cons_of_ok hx]
      cases checkFrom check (index + 1) xs <;> rfl

/-- The changes of the parts, if each of them is one. -/
def Call.changes? (call : Call) : Option (List Change) :=
  call.parts.mapM fun part : Option Operation => part.bind Operation.change?

theorem Call.changes?_operations (batch : List Operation) :
    (Call.operations batch).changes? = (checkOperations batch).toOption := by
  simp only [changes?, parts, checkOperations, toOption_checkFrom, Operation.toOption_check, List.mapM_map]
  rfl

theorem Call.changes?_updates (us : List Update) : (Call.updates us).changes? = (checkUpdates us).toOption := by
  simp only [changes?, parts, checkUpdates, toOption_checkFrom, Entry.toOption_check, List.mapM_map]
  rfl

theorem Call.changes_eq (call : Call) : call.changes = call.changes?.getD [] := by
  cases call with
  | operations batch => rw [changes?_operations, changes]
  | updates us => rw [changes?_updates, changes]

theorem Operation.Same.change? {o o' : Operation} (h : o.Same o') : Option.Rel Change.Same o.change? o'.change? := by
  unfold Operation.change?
  by_cases hneg : o.volume.number < 0
  · rw [Volume.ofDecimal?_of_neg hneg, Volume.ofDecimal?_of_neg (h.volume ▸ hneg)]
    exact .none
  · obtain ⟨v, hv, hvalue⟩ := Volume.ofDecimal?_of_nonneg hneg
    obtain ⟨v', hv', hvalue'⟩ := Volume.ofDecimal?_of_nonneg (h.volume ▸ hneg)
    rw [hv, hv']
    refine .some ⟨h.side, h.price, ?_⟩
    show v.value.number = v'.value.number
    rw [hvalue, hvalue', h.volume]

/-- A loop that stops at the first part without a result keeps a correspondence of the parts. -/
theorem mapM_rel {r : α → β → Prop} {r' : γ → δ → Prop} {f : α → Option γ} {g : β → Option δ}
    (hfg : ∀ x y, r x y → Option.Rel r' (f x) (g y)) {xs : List α} {ys : List β} (h : List.Forall₂ r xs ys) :
    Option.Rel (List.Forall₂ r') (xs.mapM f) (ys.mapM g) := by
  induction h with
  | nil => exact .some .nil
  | @cons x y xs ys hxy _ ih =>
    rw [List.mapM_cons, List.mapM_cons]
    have hfirst := hfg x y hxy
    generalize f x = z, g y = z' at hfirst
    generalize xs.mapM f = zs, ys.mapM g = zs' at ih
    cases hfirst with
    | none => exact .none
    | some hz =>
      cases ih with
      | none => exact .none
      | some hzs => exact .some (.cons hz hzs)

theorem Call.Same.changes {call call' : Call} (h : call.Same call') :
    List.Forall₂ Change.Same call.changes call'.changes := by
  have hparts : ∀ part part' : Option Operation, Option.Rel Operation.Same part part' →
      Option.Rel Change.Same (part.bind Operation.change?) (part'.bind Operation.change?) := by
    intro part part' hpart
    cases hpart with
    | none => exact .none
    | some ho => exact ho.change?
  have hchanges : Option.Rel (List.Forall₂ Change.Same) call.changes? call'.changes? := mapM_rel hparts h
  rw [changes_eq, changes_eq]
  generalize call.changes? = cs, call'.changes? = cs' at hchanges
  cases hchanges with
  | none => exact .nil
  | some hcs => exact hcs

/-! ## Levels -/

namespace Levels
variable {ls ls' : List Level}

theorem write_same {new new' : Level} (hnew : new.Same new') (h : List.Forall₂ Level.Same ls ls') :
    List.Forall₂ Level.Same (write new ls) (write new' ls') := by
  induction h with
  | nil => exact .cons hnew .nil
  | @cons l l' ls ls' hl hls ih =>
    rw [write, write, Decimal.compare_congr hnew.1 hl.1]
    cases new'.price.compare l'.price with
    | lt => exact .cons hnew (.cons hl hls)
    | eq => exact .cons ⟨hl.1, hnew.2⟩ hls
    | gt => exact .cons hl ih

theorem erase_same {p p' : Price} (hp : p.number = p'.number) (h : List.Forall₂ Level.Same ls ls') :
    List.Forall₂ Level.Same (erase p ls) (erase p' ls') := by
  refine List.rel_filter (fun l l' hl => ?_) h
  have hsame : l.price.sameNumber p = l'.price.sameNumber p' :=
    congrArg (· == .eq) (Decimal.compare_congr hl.1 hp)
  simp only [hsame]

end Levels

/-! ## Sides and books -/

structure Ladder.Same (l l' : Ladder) : Prop where
  side : l.side = l'.side
  maxDepth : l.maxDepth = l'.maxDepth
  rising : List.Forall₂ Level.Same l.rising l'.rising

namespace Ladder.Same
variable {l l' : Ladder}

theorem length_eq (h : l.Same l') : l.length = l'.length :=
  h.rising.length_eq

theorem levels (h : l.Same l') : List.Forall₂ Level.Same l.levels l'.levels := by
  unfold Ladder.levels
  rw [h.side]
  split
  · exact h.rising
  · exact List.rel_reverse h.rising

theorem dropWorst (h : l.Same l') : l.dropWorst.Same l'.dropWorst := by
  refine ⟨h.side, h.maxDepth, ?_⟩
  unfold Ladder.dropWorst
  rw [h.side]
  split
  · exact List.forall₂_drop 1 h.rising
  · rw [List.dropLast_eq_take, List.dropLast_eq_take, h.rising.length_eq]
    exact List.forall₂_take _ h.rising

theorem upsert (h : l.Same l') {p p' : Price} (hp : p.number = p'.number) {v v' : Volume}
    (hv : v.value.number = v'.value.number) : (l.upsert p v).1.Same (l'.upsert p' v').1 := by
  have hzero : v.isZero = v'.isZero := by
    rw [Bool.eq_iff_iff, Volume.isZero_iff, Volume.isZero_iff, hv]
  have hfull : (l.written p v).Same (l'.written p' v') :=
    ⟨h.side, h.maxDepth, Levels.write_same ⟨hp, hv⟩ h.rising⟩
  cases hz : v'.isZero with
  | true =>
    rw [upsert_of_zero _ _ (hzero.trans hz), upsert_of_zero _ _ hz]
    exact ⟨h.side, h.maxDepth, Levels.erase_same hp h.rising⟩
  | false =>
    by_cases hlt : l'.maxDepth < (l'.written p' v').length
    · rw [upsert_of_lt (hzero.trans hz) (by rwa [h.maxDepth, hfull.length_eq]), upsert_of_lt hz hlt]
      exact hfull.dropWorst
    · rw [upsert_of_le (hzero.trans hz) (by rwa [h.maxDepth, hfull.length_eq, ← not_lt]),
        upsert_of_le hz (not_lt.mp hlt)]
      exact hfull

/-- Corresponding changes keep two sides the same by number. -/
theorem make (h : l.Same l') {cs cs' : List Change} (hcs : List.Forall₂ Change.Same cs cs') :
    (l.make cs).1.Same (l'.make cs').1 := by
  induction hcs generalizing l l' with
  | nil => exact h
  | cons hc _ ih => exact ih (h.upsert hc.price hc.volume)

end Ladder.Same

namespace Book

def Same (b b' : Book) : Prop :=
  ∀ s, (b.side s).Same (b'.side s)

namespace Same
variable {b b' : Book}

theorem receive (h : b.Same b') {call call' : Call} (hcall : call.Same call') :
    (b.receive call).1.Same (b'.receive call').1 := by
  intro s
  rw [(receive_spec b call).1 s, (receive_spec b' call').1 s]
  refine (h s).make (List.rel_filter (fun c c' hc => ?_) hcall.changes)
  have hside : c.side = c'.side := hc.side
  simp only [hside]

theorem after (h : b.Same b') {calls calls' : List Call} (hcalls : List.Forall₂ Call.Same calls calls') :
    (b.after calls).Same (b'.after calls') := by
  induction hcalls generalizing b b' with
  | nil => exact h
  | cons hcall _ ih => exact ih (h.receive hcall)

theorem checksum_eq (h : b.Same b') : (Snapshot.ofBook b).checksum = (Snapshot.ofBook b').checksum :=
  congrArg Sha256.hex ((Checksum.stream_eq_iff ..).mpr ⟨(h .bid).levels, (h .ask).levels⟩)

end Same
end Book
end MarketMinutes
