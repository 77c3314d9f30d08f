import MarketMinutes.Json.Parts
import MarketMinutes.Proofs.Decimal.Reader
import MarketMinutes.Proofs.Json.RoundTrip

/-!
# Values read back

What a value is written as is taken in whole and gives the value again, each
part of a structure under its name.
-/

namespace MarketMinutes
namespace Json

/-- A tree that reads back from its text and may lie inside so many brackets. -/
structure Fits (depth : Nat) (j : Json) : Prop where
  proper : j.Proper
  sound : j.sound depth = true

/-! ## Plain values -/

theorem fits_ofString (depth : Nat) (s : String) : (ofString s).Fits depth :=
  ⟨trivial, by cases depth <;> rfl⟩

theorem fits_bool (depth : Nat) (b : Bool) : (bool b).Fits depth :=
  ⟨trivial, by cases depth <;> rfl⟩

theorem fits_null (depth : Nat) : null.Fits depth :=
  ⟨trivial, by cases depth <;> rfl⟩

theorem integer?_ofInt {n : Int} (hlow : -2 ^ 63 ≤ n) (hhigh : n < 2 ^ 64) : (Numeral.ofInt n).integer? = some n := by
  have hvalue : Digits.value (Numeral.ofInt n).whole = n.natAbs := Digits.value_ofNat _
  have hplain : ((Numeral.ofInt n).fraction.isEmpty && (Numeral.ofInt n).exponent.isNone) = true := rfl
  unfold Numeral.integer?
  rw [if_pos hplain]
  simp only [hvalue]
  by_cases hn : n < 0
  · have hneg : (Numeral.ofInt n).negative = true := decide_eq_true hn
    have hle : n.natAbs ≤ Nat.pow 2 63 := by
      rw [Nat.pow_eq]
      omega
    simp only [hneg, Bool.not_true, Bool.false_and, Bool.false_eq_true, if_false]
    rw [if_pos (by simp [hle, hn.ne]), show -(n.natAbs : Int) = n by omega]
  · have hneg : (Numeral.ofInt n).negative = false := decide_eq_false hn
    have hlt : n.natAbs < Nat.pow 2 64 := by
      rw [Nat.pow_eq]
      omega
    rw [if_pos (by simp [hneg, hlt]), show (n.natAbs : Int) = n by omega]

theorem fits_ofInt {n : Int} (hlow : -2 ^ 63 ≤ n) (hhigh : n < 2 ^ 64) (depth : Nat) : (ofInt n).Fits depth := by
  refine ⟨Numeral.proper_ofInt n, ?_⟩
  have h : (Numeral.ofInt n).number?.isSome = true := by simp [Numeral.number?, integer?_ofInt hlow hhigh]
  cases depth <;> exact h

theorem ofNat_eq_ofInt (n : Nat) : ofNat n = ofInt n := by
  simp [ofNat, ofInt, Numeral.ofNat, Numeral.ofInt]

theorem fits_ofInt64 (depth : Nat) (n : Int64) : (ofInt64 n).Fits depth := by
  have hlow := n.le_toInt
  have hhigh := n.toInt_lt
  exact fits_ofInt (by omega) (by omega) depth

theorem fits_ofNat (depth : Nat) {n : Nat} (h : n < 2 ^ 64) : (ofNat n).Fits depth := by
  rw [ofNat_eq_ofInt]
  exact fits_ofInt (by omega) (by omega) depth

theorem fits_ofUInt64 (depth : Nat) (n : UInt64) : (ofUInt64 n).Fits depth :=
  fits_ofNat depth n.toNat_lt

theorem int64?_ofInt64 (n : Int64) : (ofInt64 n).int64? = some n := by
  have hlow := n.le_toInt
  have hhigh := n.toInt_lt
  have h : (ofInt64 n).integer? = some n.toInt := integer?_ofInt (by omega) (by omega)
  have hlt : n.toInt < (Nat.pow 2 63 : Nat) := by
    rw [Nat.pow_eq]
    omega
  rw [int64?, h, Option.bind_eq_bind, Option.bind_some, if_pos hlt, Int64.ofInt_toInt]

theorem nat64?_ofNat {n : Nat} (h : n < 2 ^ 64) : (ofNat n).nat64? = some n := by
  have hinteger : (ofNat n).integer? = some (n : Int) := by
    rw [ofNat_eq_ofInt]
    exact integer?_ofInt (by omega) (by omega)
  rw [nat64?, hinteger, Option.bind_eq_bind, Option.bind_some, if_pos (Int.natCast_nonneg _), Int.toNat_natCast]

theorem uint64?_ofUInt64 (n : UInt64) : (ofUInt64 n).uint64? = some n := by
  rw [uint64?, ofUInt64, nat64?_ofNat n.toNat_lt, Option.map_some, UInt64.ofNat_toNat]

/-! ## Lists -/

theorem fits_array {depth : Nat} {items : List Json} (h : ∀ j ∈ items, j.Fits depth) : (array items).Fits (depth + 1) := by
  suffices hs : ProperItems items ∧ soundItems depth items = true from ⟨hs.1, hs.2⟩
  induction items with
  | nil => exact ⟨trivial, rfl⟩
  | cons j js ih =>
    obtain ⟨hj, hjs⟩ := List.forall_mem_cons.mp h
    obtain ⟨hproper, hsound⟩ := ih hjs
    refine ⟨⟨hj.proper, hproper⟩, ?_⟩
    rw [soundItems, hj.sound, hsound]
    rfl

theorem fits_ofList {depth : Nat} {write : α → Json} (h : ∀ x, (write x).Fits depth) (xs : List α) :
    (ofList write xs).Fits (depth + 1) :=
  fits_array (List.forall_mem_map.mpr fun x _ => h x)

theorem fits_ofOption {depth : Nat} {write : α → Json} (h : ∀ x, (write x).Fits depth) (x : Option α) :
    (ofOption write x).Fits depth := by
  cases x with
  | none => exact fits_null depth
  | some x => exact h x

theorem list?_ofList {read : Json → Option β} {write : α → Json} {f : α → β} (h : ∀ x, read (write x) = some (f x))
    (xs : List α) : list? read (ofList write xs) = some (xs.map f) := by
  show (xs.map write).mapM read = some (xs.map f)
  induction xs with
  | nil => rfl
  | cons x xs ih =>
    rw [List.map_cons, List.mapM_cons, h, ih]
    rfl

/-! ## Structures -/

theorem fits_record {depth : Nat} {members : List (String × Json)} (h : ∀ m ∈ members, m.2.Fits depth) :
    (record members).Fits (depth + 1) := by
  suffices hs : ProperMembers (members.map fun m => (some m.1, m.2)) ∧
      soundMembers depth (members.map fun m => (some m.1, m.2)) = true from ⟨hs.1, hs.2⟩
  induction members with
  | nil => exact ⟨trivial, rfl⟩
  | cons m ms ih =>
    obtain ⟨hm, hms⟩ := List.forall_mem_cons.mp h
    obtain ⟨hproper, hsound⟩ := ih hms
    refine ⟨⟨hm.proper, hproper⟩, ?_⟩
    rw [List.map_cons, soundMembers, hm.sound, hsound]
    rfl

end Json

/-- A value that may be left out reads back, unless it is itself written as null. -/
theorem Part.optional?_ofOption {read : Json → Option β} {write : α → Json} {f : α → β}
    (h : ∀ x, read (write x) = some (f x)) (hnull : ∀ x, write x ≠ .null) (x : Option α) :
    (Part.given (.ofOption write x)).optional? read = some (x.map f) := by
  cases x with
  | none => rfl
  | some x =>
    have hgiven : (Part.given (write x)).optional? read = (read (write x)).map some := by
      unfold optional?
      split
      next heq => exact absurd (Part.given.inj heq) (hnull x)
      next heq => cases heq; rfl
      next heq => cases heq
      next heq => cases heq
    rw [Json.ofOption, hgiven, h]
    rfl

namespace Decimal

theorem fits_toJson (depth : Nat) (d : Decimal) : d.toJson.Fits depth :=
  Json.fits_ofString depth _

theorem ofJson?_toJson (d : Decimal) : ofJson? d.toJson = some d.unsigned := by
  show read? (String.ofList d.text).toList = _
  rw [String.toList_ofList, read?_text]

end Decimal
end MarketMinutes
