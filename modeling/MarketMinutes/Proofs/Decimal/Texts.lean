import MarketMinutes.Proofs.Decimal.Normal
import MarketMinutes.Proofs.Text.Blank
import MarketMinutes.Volume

/-!
# Prices and volumes from their texts

A decimal in writing holds no blank, so with any blanks around it it is read as
a price of the same number and scale. As a volume it is read likewise, or
refused as it stands if it is below zero.
-/

namespace MarketMinutes
namespace Decimal

theorem not_blank_of_mem_text {d : Decimal} {c : Char} (h : c ∈ d.text) : Text.isBlank c = false := by
  rcases mem_text h with rfl | rfl | ⟨k, hk, rfl⟩
  · decide
  · decide
  · interval_cases k <;> decide

theorem parse?_spaced (d : Decimal) {before after : String} (hb : Text.allBlank before = true)
    (ha : Text.allBlank after = true) : parse? (before ++ toString d ++ after) = some d.unsigned := by
  have htext : (toString d).toList = d.text := String.toList_ofList
  unfold parse?
  rw [String.toList_append, String.toList_append, htext, Text.trim_append_blank (List.all_eq_true.mp ha),
    Text.trim_blank_append (List.all_eq_true.mp hb), Text.trim_of_not_blank fun c hc => not_blank_of_mem_text hc,
    read?_text]

theorem parse?_toString (d : Decimal) : parse? (toString d) = some d.unsigned := by
  have h : parse? ("" ++ toString d ++ "") = some d.unsigned := d.parse?_spaced rfl rfl
  rwa [String.empty_append, String.append_empty] at h

end Decimal

/-! ## Volumes -/

theorem Volume.ofDecimal?_of_neg {d : Decimal} (h : d.number < 0) : Volume.ofDecimal? d = none := by
  simp [Volume.ofDecimal?, Decimal.isNegative_iff.mpr h]

theorem Volume.ofDecimal?_of_nonneg {d : Decimal} (h : ¬ d.number < 0) :
    ∃ v, Volume.ofDecimal? d = some v ∧ v.value = d := by
  have hd : d.isNegative = false := by
    rw [← Bool.not_eq_true, Decimal.isNegative_iff]
    exact h
  exact ⟨⟨d, hd⟩, by simp [Volume.ofDecimal?, hd], rfl⟩

/-- Read from its text with any blanks around it, a decimal keeps its number and its scale, as a price and, unless it is
below zero, as a volume. -/
theorem Decimal.texts_keep_number (d : Decimal) (before after : String) (hb : Text.allBlank before = true)
    (ha : Text.allBlank after = true) :
    let text := before ++ toString d ++ after
    (∃ p : Price, Decimal.ofText text = .ok p ∧ p.number = d.number ∧ p.scale = d.scale) ∧
    (0 ≤ d.number → ∃ v, Volume.ofText text = .ok v ∧ v.value.number = d.number ∧ v.value.scale = d.scale) ∧
    (d.number < 0 → Volume.ofText text = .error (.negativeVolume d)) := by
  intro text
  have hread : Decimal.ofText text = .ok d.unsigned := by
    unfold Decimal.ofText
    rw [d.parse?_spaced hb ha]
  have hvolume : Volume.ofText text = Volume.ofDecimal d.unsigned := by
    unfold Volume.ofText
    rw [hread]
    rfl
  rw [hvolume]
  refine ⟨⟨d.unsigned, hread, d.number_unsigned, rfl⟩, ?_, ?_⟩
  · intro hd
    rw [← d.number_unsigned] at hd
    obtain ⟨v, hv, hvalue⟩ := Volume.ofDecimal?_of_nonneg (not_lt.mpr hd)
    refine ⟨v, ?_, ?_, ?_⟩
    · unfold Volume.ofDecimal
      rw [hv]
    · rw [hvalue, d.number_unsigned]
    · rw [hvalue]
      rfl
  · intro hd
    rw [unsigned_of_ne_zero hd.ne]
    unfold Volume.ofDecimal
    rw [Volume.ofDecimal?_of_neg hd]

/-- The longest mantissa at the largest scale, below zero, and a zero with a sign. -/
theorem Decimal.texts_keep_number_of_longest :
    let longest : Decimal := ⟨true, 79228162514264337593543950335, 28, by decide, by decide⟩
    let nothing : Decimal := ⟨true, 0, 28, by decide, by decide⟩
    let before := "\u3000\t"
    let after := "\n\u0085"
    Text.allBlank before = true ∧ Text.allBlank after = true ∧
      (∃ p : Price, Decimal.ofText (before ++ toString longest ++ after) = .ok p ∧
        p.number = longest.number ∧ p.scale = 28) ∧
      longest.number < 0 ∧ Volume.ofText (before ++ toString longest ++ after) = .error (.negativeVolume longest) ∧
      0 ≤ nothing.number ∧ ∃ v, Volume.ofText (before ++ toString nothing ++ after) = .ok v ∧
        v.value.number = nothing.number ∧ v.value.scale = 28 := by
  intro longest nothing before after
  have hb : Text.allBlank before = true := by decide
  have ha : Text.allBlank after = true := by decide
  have hneg : longest.number < 0 := isNegative_iff.mp rfl
  have hzero : 0 ≤ nothing.number := (isZero_iff.mp rfl).ge
  obtain ⟨hprice, -, hrefused⟩ := texts_keep_number longest before after hb ha
  obtain ⟨-, hvolume, -⟩ := texts_keep_number nothing before after hb ha
  exact ⟨hb, ha, hprice, hneg, hrefused hneg, hzero, hvolume hzero⟩

end MarketMinutes
