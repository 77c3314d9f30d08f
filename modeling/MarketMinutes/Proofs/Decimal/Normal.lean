import Mathlib.Tactic.Ring
import MarketMinutes.Proofs.Decimal.Reader

/-!
# Normal forms

`normalize` keeps the number and picks one decimal for each: two decimals have
one normal form exactly if they stand for one number. Normal forms differ in
writing where they differ at all.
-/

namespace MarketMinutes.Decimal

/-! ## Zeros at the end -/

theorem stripZeros_spec (m s : Nat) :
    m * 10 ^ (stripZeros m s).2 = (stripZeros m s).1 * 10 ^ s ∧
      ((stripZeros m s).2 = 0 ∨ (stripZeros m s).1 % 10 ≠ 0) := by
  induction s generalizing m with
  | zero => exact ⟨rfl, .inl rfl⟩
  | succ s ih =>
    unfold stripZeros
    by_cases h : m % 10 = 0
    · rw [if_pos h]
      obtain ⟨hvalue, hend⟩ := ih (m / 10)
      refine ⟨?_, hend⟩
      have hm : m = 10 * (m / 10) := by omega
      calc m * 10 ^ (stripZeros (m / 10) s).2
        _ = 10 * (m / 10 * 10 ^ (stripZeros (m / 10) s).2) := by rw [← Nat.mul_assoc, ← hm]
        _ = 10 * ((stripZeros (m / 10) s).1 * 10 ^ s) := by rw [hvalue]
        _ = (stripZeros (m / 10) s).1 * 10 ^ (s + 1) := by rw [Nat.pow_succ]; ring
    · rw [if_neg h]
      exact ⟨rfl, .inr h⟩

/-! ## One form for a number -/

/-- No zero could be cut off, and a zero is plain 0. -/
structure IsNormal (d : Decimal) : Prop where
  shortest : d.scale = 0 ∨ d.mantissa % 10 ≠ 0
  plain : d.mantissa = 0 → d = zero

theorem number_eq_iff {a b : Decimal} : a.number = b.number ↔ a.signed * 10 ^ b.scale = b.signed * 10 ^ a.scale := by
  unfold number
  rw [div_eq_div_iff (by positivity) (by positivity)]
  norm_cast

theorem natAbs_signed (d : Decimal) : d.signed.natAbs = d.mantissa := by
  unfold signed
  split <;> omega

theorem number_normalize (d : Decimal) : d.normalize.number = d.number := by
  unfold normalize
  by_cases hz : d.isZero = true
  · rw [if_pos hz, number_zero, isZero_iff.mp hz]
  · rw [if_neg hz, number_eq_iff]
    have hvalue := (stripZeros_spec d.mantissa d.scale).1
    unfold signed
    cases d.negative with
    | false =>
      simp only [Bool.false_eq_true, if_false]
      exact_mod_cast hvalue.symm
    | true =>
      simp only [if_true, neg_mul, neg_inj]
      exact_mod_cast hvalue.symm

theorem isNormal_normalize (d : Decimal) : d.normalize.IsNormal := by
  unfold normalize
  by_cases hz : d.isZero = true
  · rw [if_pos hz]
    exact ⟨.inl rfl, fun _ => rfl⟩
  · rw [if_neg hz]
    obtain ⟨hvalue, hend⟩ := stripZeros_spec d.mantissa d.scale
    refine ⟨hend, fun h => ?_⟩
    -- A mantissa that becomes zero was zero before.
    have hm : (stripZeros d.mantissa d.scale).1 = 0 := h
    rw [hm, Nat.zero_mul] at hvalue
    have : d.mantissa = 0 := by simpa using hvalue
    simp [isZero, this] at hz

theorem IsNormal.scale_le {a b : Decimal} (hb : b.IsNormal) (h : a.number = b.number) : b.scale ≤ a.scale := by
  rw [number_eq_iff] at h
  by_contra hlt
  -- Otherwise the longer mantissa would end in a zero.
  obtain ⟨k, hk⟩ : ∃ k, b.scale = a.scale + (k + 1) := ⟨b.scale - a.scale - 1, by omega⟩
  have hsigned : a.signed * 10 ^ (k + 1) = b.signed := by
    have hpos : (10 : Int) ^ a.scale ≠ 0 := by positivity
    refine mul_right_cancel₀ hpos ?_
    rw [← h, hk, pow_add]
    ring
  have hmantissa : a.mantissa * 10 ^ (k + 1) = b.mantissa := by
    rw [← natAbs_signed a, ← natAbs_signed b, ← hsigned, Int.natAbs_mul, Int.natAbs_pow]
    rfl
  rcases hb.shortest with hs | hm
  · omega
  · apply hm
    rw [← hmantissa, Nat.pow_succ, ← Nat.mul_assoc]
    exact Nat.mul_mod_left _ 10

theorem IsNormal.eq {a b : Decimal} (ha : a.IsNormal) (hb : b.IsNormal) (h : a.number = b.number) : a = b := by
  have hscale : a.scale = b.scale := Nat.le_antisymm (ha.scale_le h.symm) (hb.scale_le h)
  rw [number_eq_iff, hscale] at h
  have hsigned : a.signed = b.signed := mul_right_cancel₀ (by positivity) h
  have hmantissa : a.mantissa = b.mantissa := by rw [← natAbs_signed, hsigned, natAbs_signed]
  by_cases hz : a.mantissa = 0
  · rw [ha.plain hz, hb.plain (hmantissa ▸ hz)]
  · have hnegative : a.negative = b.negative := by
      unfold signed at hsigned
      cases ha : a.negative <;> cases hb : b.negative <;> simp only [ha, hb] at hsigned ⊢ <;> simp at hsigned <;> omega
    cases a
    cases b
    simp_all

theorem normalize_eq_iff {a b : Decimal} : a.normalize = b.normalize ↔ a.number = b.number := by
  constructor
  · intro h
    rw [← number_normalize a, h, number_normalize]
  · intro h
    apply (isNormal_normalize a).eq (isNormal_normalize b)
    rw [number_normalize, number_normalize, h]

@[simp] theorem normalize_unsigned (d : Decimal) : d.unsigned.normalize = d.normalize :=
  normalize_eq_iff.mpr d.number_unsigned

/-! ## Normal forms in writing -/

theorem IsNormal.unsigned {d : Decimal} (h : d.IsNormal) : d.unsigned = d := by
  by_cases hz : d.mantissa = 0
  · rw [h.plain hz]
    rfl
  · apply unsigned_of_negative
    simp [isNegative, isZero, hz]

theorem normalize_text_eq_iff {a b : Decimal} : a.normalize.text = b.normalize.text ↔ a.number = b.number := by
  rw [← normalize_eq_iff]
  constructor
  · intro h
    have hread := congrArg read? h
    rw [read?_text, read?_text, (isNormal_normalize a).unsigned, (isNormal_normalize b).unsigned] at hread
    exact Option.some.inj hread
  · intro h
    rw [h]

theorem mem_text {d : Decimal} {c : Char} (h : c ∈ d.text) : c = '-' ∨ c = '.' ∨ ∃ k < 10, c = Digits.toChar k := by
  have hdigit : ∀ {c : Char}, c ∈ Digits.padded (d.scale + 1) d.mantissa → ∃ k < 10, c = Digits.toChar k := by
    intro c hc
    rw [Digits.padded_eq] at hc
    obtain ⟨k, hk, rfl⟩ := List.mem_map.mp hc
    exact ⟨k, Digits.lt_of_mem_paddedDigits hk, rfl⟩
  unfold text at h
  rcases List.mem_append.mp h with hsign | hbody
  · left
    cases hn : d.negative <;> simp [hn] at hsign
    exact hsign
  · right
    unfold pointed at hbody
    split at hbody
    · exact .inr (hdigit hbody)
    · rcases List.mem_append.mp hbody with hc | hc
      · exact .inr (hdigit (List.mem_of_mem_take hc))
      · rcases List.mem_cons.mp hc with rfl | hc
        · exact .inl rfl
        · exact .inr (hdigit (List.mem_of_mem_drop hc))

/-- A minus sign has a digit behind it. -/
theorem text_head (d : Decimal) :
    ∃ k cs, k < 10 ∧ (d.text = Digits.toChar k :: cs ∨ d.text = '-' :: Digits.toChar k :: cs) := by
  obtain ⟨k, cs, -, hbody, hk, -⟩ := scan_body d false
  refine ⟨k, cs, hk, ?_⟩
  unfold text
  rw [hbody]
  cases d.negative with
  | false => exact .inl rfl
  | true => exact .inr rfl

end MarketMinutes.Decimal
