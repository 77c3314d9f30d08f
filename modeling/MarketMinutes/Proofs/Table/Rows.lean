import Mathlib.Data.List.Induction
import MarketMinutes.Table

/-!
# What the rows of a table hold

Every record is put in the row of its minute, where it takes the place of the
one of its kind. So once all are in, a row holds of each kind the last record
of its minute, and the rows are those of the minutes that have a record, from
the first to the last of them.
-/

namespace MarketMinutes
namespace Table

/-! ## Last records -/

def lastOf? (records : List Record) (minute : Int64) (kind : Kind) : Option Record :=
  (records.filter fun r => r.minute = minute ∧ r.kind = kind).getLast?

theorem isSome_lastOf?_iff {records : List Record} {minute : Int64} {kind : Kind} :
    (lastOf? records minute kind).isSome = true ↔ ∃ r ∈ records, r.minute = minute ∧ r.kind = kind := by
  simp [lastOf?]

theorem kind_of_lastOf? {records : List Record} {minute : Int64} {kind : Kind} {r : Record}
    (h : lastOf? records minute kind = some r) : r.kind = kind := by
  have hmem := (List.mem_filter.mp (List.mem_of_getLast? h)).2
  exact (of_decide_eq_true hmem).2

theorem lastOf?_append (xs ys : List Record) (minute : Int64) (kind : Kind) :
    lastOf? (xs ++ ys) minute kind = (lastOf? ys minute kind).or (lastOf? xs minute kind) := by
  unfold lastOf?
  rw [List.filter_append, List.getLast?_append]

theorem lastOf?_concat (records : List Record) (r : Record) (minute : Int64) (kind : Kind) :
    lastOf? (records ++ [r]) minute kind =
      if r.minute = minute ∧ r.kind = kind then some r else lastOf? records minute kind := by
  rw [lastOf?_append]
  by_cases h : r.minute = minute ∧ r.kind = kind
  · simp [lastOf?, h]
  · simp [lastOf?, h]

/-! ## One row -/

namespace Row

def record? (row : Row) : Kind → Option Record
  | .quotes => row.quotes.map .quotes
  | .trades => row.trades.map .trades
  | .book => row.book.map .book

theorem record?_set (row : Row) (r : Record) (kind : Kind) :
    (row.set r).record? kind = if r.kind = kind then some r else row.record? kind := by
  cases r <;> cases kind <;> rfl

end Row

/-! ## All rows -/

namespace Rows

def Rising (rows : Rows) : Prop :=
  rows.keys.Pairwise (· < ·)

variable {rows : Rows}

theorem mem_keys_add_iff {r : Record} {minute : Int} :
    minute ∈ (rows.add r).keys ↔ minute = r.minute.toInt ∨ minute ∈ rows.keys := by
  fun_induction add rows r with
  | case1 => simp [keys]
  | case2 m row rows hlt => simp [keys]
  | case3 row rows hlt => simp [keys]
  | case4 m row rows hlt hne ih =>
    simp only [keys, List.map_cons, List.mem_cons] at ih ⊢
    rw [ih]
    exact or_left_comm

theorem Rising.add (h : rows.Rising) (r : Record) : (rows.add r).Rising := by
  fun_induction Rows.add rows r with
  | case1 => exact List.pairwise_singleton ..
  | case2 m row rows hlt =>
    refine List.pairwise_cons.mpr ⟨fun k hk => ?_, h⟩
    rcases List.mem_cons.mp hk with rfl | hk
    · exact hlt
    · exact Int.lt_trans hlt ((List.pairwise_cons.mp h).1 k hk)
  | case3 => exact h
  | case4 m row rows hlt hne ih =>
    obtain ⟨hm, hrows⟩ := List.pairwise_cons.mp h
    refine List.pairwise_cons.mpr ⟨fun k hk => ?_, ih hrows⟩
    rcases mem_keys_add_iff.mp hk with rfl | hk
    · omega
    · exact hm k hk

theorem row_cons (minute : Int) (row : Row) (rows : Rows) (m : Int) :
    Rows.row ((minute, row) :: rows) m = if m = minute then row else rows.row m := by
  by_cases h : m = minute
  · simp [Rows.row, h]
  · have hne : (m == minute) = false := beq_false_of_ne h
    rw [if_neg h, Rows.row, List.lookup_cons, hne]
    rfl

theorem row_of_not_mem {m : Int} (h : m ∉ rows.keys) : rows.row m = {} := by
  induction rows with
  | nil => rfl
  | cons entry rows ih =>
    obtain ⟨hne, hrows⟩ := not_or.mp (mt List.mem_cons.mpr h)
    rw [row_cons, if_neg hne, ih hrows]

/-- A record changes its own row alone. -/
theorem Rising.row_add (h : rows.Rising) (r : Record) (m : Int) :
    (rows.add r).row m = if m = r.minute.toInt then (rows.row m).set r else rows.row m := by
  fun_induction Rows.add rows r with
  | case1 => exact row_cons ..
  | case2 minute row rows hlt =>
    -- The minute of the record comes before all the others.
    have hnew : r.minute.toInt ∉ keys ((minute, row) :: rows) := by
      intro hmem
      rcases List.mem_cons.mp hmem with heq | hmem
      · omega
      · have hm := (List.pairwise_cons.mp h).1 _ hmem
        omega
    rw [row_cons]
    by_cases hm : m = r.minute.toInt
    · rw [if_pos hm, if_pos hm, hm, row_of_not_mem hnew]
    · rw [if_neg hm, if_neg hm]
  | case3 row rows hlt =>
    rw [row_cons, row_cons]
    by_cases hm : m = r.minute.toInt
    · rw [if_pos hm, if_pos hm, if_pos hm]
    · rw [if_neg hm, if_neg hm, if_neg hm]
  | case4 minute row rows hlt hne ih =>
    rw [row_cons, row_cons, ih (List.pairwise_cons.mp h).2]
    by_cases hm : m = minute
    · rw [if_pos hm, if_pos hm, if_neg (by omega)]
    · rw [if_neg hm, if_neg hm]

/-! ## The rows of some records -/

theorem ofRecords_concat (records : List Record) (r : Record) :
    ofRecords (records ++ [r]) = (ofRecords records).add r := by
  rw [ofRecords, List.foldl_append]
  rfl

theorem rising_ofRecords (records : List Record) : (ofRecords records).Rising := by
  induction records using List.reverseRecOn with
  | nil => exact List.Pairwise.nil
  | append_singleton records r ih =>
    rw [ofRecords_concat]
    exact ih.add r

theorem mem_keys_ofRecords_iff {records : List Record} {m : Int} :
    m ∈ (ofRecords records).keys ↔ ∃ r ∈ records, r.minute.toInt = m := by
  induction records using List.reverseRecOn with
  | nil => simp [ofRecords, keys]
  | append_singleton records r ih =>
    rw [ofRecords_concat, mem_keys_add_iff, ih]
    constructor
    · rintro (rfl | ⟨x, hx, hm⟩)
      · exact ⟨r, by simp, rfl⟩
      · exact ⟨x, by simp [hx], hm⟩
    · rintro ⟨x, hx, hm⟩
      rcases List.mem_append.mp hx with hx | hx
      · exact .inr ⟨x, hx, hm⟩
      · exact .inl (List.mem_singleton.mp hx ▸ hm.symm)

/-- A row holds of each kind the last record of its minute. -/
theorem record?_ofRecords (records : List Record) (minute : Int64) (kind : Kind) :
    ((ofRecords records).row minute.toInt).record? kind = lastOf? records minute kind := by
  induction records using List.reverseRecOn with
  | nil => cases kind <;> rfl
  | append_singleton records r ih =>
    rw [ofRecords_concat, (rising_ofRecords records).row_add, lastOf?_concat]
    by_cases hm : r.minute = minute
    · rw [if_pos (congrArg Int64.toInt hm.symm), Row.record?_set, ih]
      simp only [hm, true_and]
    · have hne : minute.toInt ≠ r.minute.toInt := fun h => hm (Int64.toInt_inj.mp h.symm)
      rw [if_neg hne, if_neg (fun h => hm h.1), ih]

/-! ## The minutes of the rows -/

theorem Rising.head_le (h : rows.Rising) {first : Int} (hfirst : rows.keys.head? = some first) :
    ∀ m ∈ rows.keys, first ≤ m := by
  obtain ⟨behind, hkeys⟩ := List.head?_eq_some_iff.mp hfirst
  rw [Rising, hkeys] at h
  rw [hkeys]
  exact List.forall_mem_cons.mpr ⟨Int.le_refl first, fun m hm => Int.le_of_lt ((List.pairwise_cons.mp h).1 m hm)⟩

theorem Rising.le_last (h : rows.Rising) {last : Int} (hlast : rows.keys.getLast? = some last) :
    ∀ m ∈ rows.keys, m ≤ last := by
  obtain ⟨front, hkeys⟩ := List.getLast?_eq_some_iff.mp hlast
  rw [Rising, hkeys] at h
  rw [hkeys]
  intro m hm
  rcases List.mem_append.mp hm with hm | hm
  · exact Int.le_of_lt ((List.pairwise_append.mp h).2.2 m hm last (List.mem_singleton_self last))
  · exact Int.le_of_eq (List.mem_singleton.mp hm)

end Rows

/-- The minutes of records go from the first through `n` of them, no further; without records there are none. -/
def Spans (records : List Record) (first : Int) (n : Nat) : Prop :=
  (records = [] ∧ n = 0) ∨ ∃ r ∈ records, ∃ r' ∈ records, r.minute.toInt = first ∧ r'.minute.toInt = first + n - 1 ∧
    ∀ x ∈ records, first ≤ x.minute.toInt ∧ x.minute.toInt ≤ first + n - 1

namespace Rows

theorem exists_minutes (records : List Record) :
    ∃ first n, Spans records first n ∧
      (ofRecords records).minutes = (List.range n).map fun (i : Nat) => first + (i : Int) := by
  have hrising := rising_ofRecords records
  unfold minutes
  cases hkeys : (ofRecords records).keys with
  | nil =>
    have hnil : records = [] := by
      refine List.eq_nil_iff_forall_not_mem.mpr fun r hr => ?_
      have hmem := mem_keys_ofRecords_iff.mpr ⟨r, hr, rfl⟩
      rw [hkeys] at hmem
      cases hmem
    exact ⟨0, 0, .inl ⟨hnil, rfl⟩, rfl⟩
  | cons first behind =>
    obtain ⟨last, hlast⟩ : ∃ last, (first :: behind).getLast? = some last := ⟨_, List.getLast?_cons⟩
    rw [← hkeys] at hlast ⊢
    have hfirst : (ofRecords records).keys.head? = some first := by rw [hkeys, List.head?_cons]
    have hlow := hrising.head_le hfirst
    have hhigh := hrising.le_last hlast
    obtain ⟨r, hr, hrfirst⟩ := mem_keys_ofRecords_iff.mp (List.mem_of_head? hfirst)
    obtain ⟨r', hr', hrlast⟩ := mem_keys_ofRecords_iff.mp (List.mem_of_getLast? hlast)
    have hle : first ≤ last := hlow last (List.mem_of_getLast? hlast)
    have hend : first + ((last - first + 1).toNat : Int) - 1 = last := by omega
    simp only [hfirst, hlast]
    refine ⟨first, (last - first + 1).toNat, .inr ⟨r, hr, r', hr', hrfirst, hrlast.trans hend.symm, ?_⟩, rfl⟩
    intro x hx
    have hmem := mem_keys_ofRecords_iff.mpr ⟨x, hx, rfl⟩
    rw [hend]
    exact ⟨hlow _ hmem, hhigh _ hmem⟩

/-- Every minute between two records is one that a record may have. -/
theorem exists_minute {records : List Record} {m : Int} (h : m ∈ (ofRecords records).minutes) :
    ∃ minute : Int64, minute.toInt = m := by
  obtain ⟨first, n, hspans, hminutes⟩ := exists_minutes records
  rw [hminutes] at h
  obtain ⟨i, hi, rfl⟩ := List.mem_map.mp h
  rw [List.mem_range] at hi
  rcases hspans with ⟨-, rfl⟩ | ⟨r, -, r', -, rfl, hlast, -⟩
  · cases hi
  · have hlow := r.minute.le_toInt
    have hhigh := r'.minute.toInt_lt
    refine ⟨Int64.ofInt (r.minute.toInt + i), Int64.toInt_ofInt_of_le ?_ ?_⟩
    · omega
    · omega

end Rows
end Table
end MarketMinutes
