import MarketMinutes.JsonLines

/-!
# What a line holds

A line is no text, or a text of nothing but blanks, or it spells a text that
may be read as a value.
-/

namespace MarketMinutes

namespace Bytes

def isText (line : Bytes) : Bool :=
  (text? line).isSome

/-- A text of nothing but blanks. -/
def isBlank (line : Bytes) : Bool :=
  (text? line).any Text.allBlank

/-- The line is this text, and not all of it is blank. -/
def Spells (line : Bytes) (s : String) : Prop :=
  text? line = some s ∧ Text.allBlank s = false

variable {line : Bytes} {s s' : String}

theorem Spells.isText (h : line.Spells s) : line.isText = true := by
  rw [Bytes.isText, h.1, Option.isSome_some]

theorem Spells.not_blank (h : line.Spells s) : line.isBlank = false := by
  rw [isBlank, h.1, Option.any_some, h.2]

theorem Spells.unique (h : line.Spells s) (h' : line.Spells s') : s = s' :=
  Option.some.inj (h.1.symm.trans h'.1)

theorem isText_of_isBlank (h : line.isBlank = true) : line.isText = true :=
  Option.isSome_of_any h

theorem not_blank_of_not_text (h : line.isText = false) : line.isBlank = false :=
  Bool.eq_false_iff.mpr fun hb => Bool.eq_false_iff.mp h (isText_of_isBlank hb)

theorem text_cases (line : Bytes) : line.isText = false ∨ line.isBlank = true ∨ ∃ s, line.Spells s := by
  cases ht : text? line with
  | none => exact .inl (by simp [isText, ht])
  | some s =>
    cases hs : Text.allBlank s with
    | true => exact .inr (.inl (by simp [isBlank, ht, hs]))
    | false => exact .inr (.inr ⟨s, ht, hs⟩)

end Bytes

namespace LineContent

variable {α : Type} {parse : String → Option α} {line : Bytes}

theorem ofLine_of_not_text (h : line.isText = false) : ofLine parse line = .notText := by
  have hnone : Bytes.text? line = none := by simpa [Bytes.isText] using h
  simp [ofLine, hnone]

theorem ofLine_of_blank (h : line.isBlank = true) : ofLine parse line = .blank := by
  obtain ⟨s, ht, hs⟩ := (Option.any_eq_true _ _).mp h
  simp [ofLine, ht, hs]

theorem ofLine_of_spells {s : String} (h : line.Spells s) : ofLine parse line = (parse s).elim .garbled .value := by
  unfold ofLine
  simp only [h.1, h.2, Bool.false_eq_true, if_false]
  cases parse s <;> rfl

end LineContent
end MarketMinutes
