import Mathlib.Data.List.TakeWhile
import MarketMinutes.Text.Blank

/-!
# Text between blanks

Blanks on either side of a text are cut off with those that it has at its own
ends, and a text without blanks is left as it is.
-/

namespace MarketMinutes.Text
variable {before cs after : List Char}

theorem trim_blank_append (h : ∀ c ∈ before, isBlank c = true) (cs : List Char) : trim (before ++ cs) = trim cs := by
  unfold trim
  rw [List.dropWhile_append_of_pos h]

theorem trim_append_blank (h : ∀ c ∈ after, isBlank c = true) (cs : List Char) : trim (cs ++ after) = trim cs := by
  unfold trim
  rw [List.dropWhile_append]
  by_cases hcs : (cs.dropWhile isBlank).isEmpty = true
  · rw [if_pos hcs, List.dropWhile_eq_nil_iff.mpr h, List.isEmpty_iff.mp hcs]
  · have hreverse : ∀ c ∈ after.reverse, isBlank c = true := fun c hc => h c (List.mem_reverse.mp hc)
    rw [if_neg hcs, List.reverse_append, List.dropWhile_append_of_pos hreverse]

theorem trim_of_not_blank (h : ∀ c ∈ cs, isBlank c = false) : trim cs = cs := by
  have hkeep : ∀ {ds : List Char}, (∀ c ∈ ds, isBlank c = false) → ds.dropWhile isBlank = ds := by
    intro ds hds
    refine List.dropWhile_eq_self_iff.mpr fun hpos => ?_
    rw [hds _ (List.getElem_mem hpos)]
    exact Bool.false_ne_true
  unfold trim
  rw [hkeep h, hkeep fun c hc => h c (List.mem_reverse.mp hc), List.reverse_reverse]

end MarketMinutes.Text
