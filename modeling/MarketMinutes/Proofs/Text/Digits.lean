import Mathlib.Tactic.IntervalCases
import MarketMinutes.Text.Digits

/-!
# Digits and their numbers

The digits of a number spell it again, and the first of several is no zero.
-/

namespace MarketMinutes.Digits

theorem ofNatOnto_eq (n : Nat) (rest : List Nat) : ofNatOnto n rest = ofNat n ++ rest := by
  unfold ofNat
  induction n using Nat.strong_induction_on generalizing rest with
  | _ n ih =>
    by_cases h : n < 10
    · rw [ofNatOnto, if_pos h, ofNatOnto, if_pos h]
      rfl
    · have hstep : ∀ rest, ofNatOnto n rest = ofNatOnto (n / 10) (n % 10 :: rest) := fun rest => by
        rw [ofNatOnto, if_neg h]
      rw [hstep, hstep [], ih (n / 10) (by omega), ih (n / 10) (by omega) [n % 10], List.append_assoc]
      rfl

theorem ofNat_of_lt {n : Nat} (h : n < 10) : ofNat n = [n] := by
  rw [ofNat, ofNatOnto, if_pos h]

theorem ofNat_of_ge {n : Nat} (h : 10 ≤ n) : ofNat n = ofNat (n / 10) ++ [n % 10] := by
  rw [ofNat, ofNatOnto, if_neg (by omega), ofNatOnto_eq]

theorem ofNat_ne_nil (n : Nat) : ofNat n ≠ [] := by
  by_cases h : n < 10
  · simp [ofNat_of_lt h]
  · simp [ofNat_of_ge (Nat.not_lt.mp h)]

theorem lt_of_mem_ofNat {n d : Nat} (hd : d ∈ ofNat n) : d < 10 := by
  induction n using Nat.strong_induction_on with
  | _ n ih =>
    by_cases h : n < 10
    · rw [ofNat_of_lt h, List.mem_singleton] at hd
      omega
    · rw [ofNat_of_ge (Nat.not_lt.mp h), List.mem_append, List.mem_singleton] at hd
      rcases hd with hd | rfl
      · exact ih (n / 10) (by omega) hd
      · exact Nat.mod_lt n (by decide)

theorem head?_ofNat_ne_zero {n : Nat} (h : n ≠ 0) : (ofNat n).head? ≠ some 0 := by
  induction n using Nat.strong_induction_on with
  | _ n ih =>
    by_cases hn : n < 10
    · simpa [ofNat_of_lt hn] using h
    · obtain ⟨d, ds, hds⟩ := List.exists_cons_of_ne_nil (ofNat_ne_nil (n / 10))
      have hd := ih (n / 10) (by omega) (by omega)
      rw [ofNat_of_ge (Nat.not_lt.mp hn), hds]
      rwa [hds] at hd

/-! ## Values -/

theorem valueFrom_cons (read d : Nat) (ds : List Nat) :
    valueFrom read (d :: ds) = valueFrom (10 * read + d) ds := rfl

theorem valueFrom_append (read : Nat) (xs ys : List Nat) :
    valueFrom read (xs ++ ys) = valueFrom (valueFrom read xs) ys :=
  List.foldl_append ..

theorem valueFrom_zeros (k : Nat) (ds : List Nat) : valueFrom 0 (List.replicate k 0 ++ ds) = valueFrom 0 ds := by
  induction k with
  | zero => rfl
  | succ k ih => rw [List.replicate_succ, List.cons_append, valueFrom_cons, ih]

theorem value_ofNat (n : Nat) : value (ofNat n) = n := by
  induction n using Nat.strong_induction_on with
  | _ n ih =>
    by_cases h : n < 10
    · rw [ofNat_of_lt h]
      exact Nat.zero_add n
    · have hv := ih (n / 10) (by omega)
      unfold value at hv ⊢
      rw [ofNat_of_ge (Nat.not_lt.mp h), valueFrom_append, hv, valueFrom_cons]
      exact Nat.div_add_mod n 10

/-! ## Characters -/

theorem ofChar?_toChar {d : Nat} (h : d < 10) : ofChar? (toChar d) = some d := by
  interval_cases d <;> rfl

theorem eq_toChar {c : Char} {d : Nat} (h : ofChar? c = some d) : d < 10 ∧ c = toChar d := by
  unfold ofChar? at h
  split at h
  next hc =>
    have hlow : 0x30 ≤ c.toNat := hc.1
    have hhigh : c.toNat ≤ 0x39 := hc.2
    cases h
    refine ⟨by omega, ?_⟩
    rw [toChar, Nat.add_sub_cancel' hlow, Char.ofNat_toNat]
  · cases h

/-- The digits of a padded number. -/
def paddedDigits (width n : Nat) : List Nat :=
  List.replicate (width - (ofNat n).length) 0 ++ ofNat n

theorem padded_eq (width n : Nat) : padded width n = (paddedDigits width n).map toChar := by
  simp only [padded, text, paddedDigits, List.length_map, List.map_append, List.map_replicate]
  rfl

theorem le_length_paddedDigits (width n : Nat) : width ≤ (paddedDigits width n).length := by
  simp only [paddedDigits, List.length_append, List.length_replicate]
  omega

theorem lt_of_mem_paddedDigits {width n d : Nat} (hd : d ∈ paddedDigits width n) : d < 10 := by
  rcases List.mem_append.mp hd with hd | hd
  · rw [(List.mem_replicate.mp hd).2]
    decide
  · exact lt_of_mem_ofNat hd

theorem value_paddedDigits (width n : Nat) : value (paddedDigits width n) = n := by
  rw [value, paddedDigits, valueFrom_zeros]
  exact value_ofNat n

end MarketMinutes.Digits
