import Mathlib.Data.List.DropRight
import MarketMinutes.Proofs.Text.Lines

/-!
# Where lines end

Bytes fall into lines in one way only. Behind a newline a new line begins, so
what has an end is not touched by what is added; without an end the last line
goes on with it.
-/

namespace MarketMinutes.Bytes

/-- The bytes are these lines with an end behind each, a newline or a carriage return and a newline. Only the last
line may stand without an end, unless it is empty. -/
inductive FallsInto : Bytes → List Bytes → Prop
  | nil : FallsInto [] []
  | unended {line : Bytes} : line ≠ [] → newline ∉ line → FallsInto line [line]
  | ended {line rest : Bytes} {lines : List Bytes} : newline ∉ line → line.getLast? ≠ some carriageReturn →
    FallsInto rest lines → FallsInto (line ++ newline :: rest) (line :: lines)
  | returned {line rest : Bytes} {lines : List Bytes} : newline ∉ line →
    FallsInto rest lines → FallsInto (line ++ carriageReturn :: newline :: rest) (line :: lines)

theorem FallsInto.eq_lines {bytes : Bytes} {ls : List Bytes} (h : FallsInto bytes ls) : ls = bytes.lines := by
  induction h with
  | nil => exact lines_nil.symm
  | unended hne hl => exact (lines_of_not_mem hne hl).symm
  | @ended line rest ls hl hr _ ih =>
    have hkept : dropReturn line = line := if_neg hr
    rw [lines_append hl, hkept, ih]
  | @returned line rest ls hl _ ih =>
    have hl' : newline ∉ line ++ [carriageReturn] := by simpa [hl] using show newline ≠ carriageReturn by decide
    have hcut : dropReturn (line ++ [carriageReturn]) = line := by simp [dropReturn]
    have hsplit : line ++ carriageReturn :: newline :: rest = (line ++ [carriageReturn]) ++ newline :: rest := by simp
    rw [hsplit, lines_append hl', hcut, ih]

theorem fallsInto_lines (bytes : Bytes) : FallsInto bytes bytes.lines := by
  induction hn : bytes.length using Nat.strong_induction_on generalizing bytes with
  | _ n ih =>
    rcases line_cases bytes with rfl | ⟨hne, hl⟩ | ⟨line, rest, hl, rfl⟩
    · rw [lines_nil]
      exact .nil
    · rw [lines_of_not_mem hne hl]
      exact .unended hne hl
    · have hrest := ih rest.length (by rw [← hn]; simp; omega) rest rfl
      rw [lines_append hl]
      by_cases hr : line.getLast? = some carriageReturn
      · obtain ⟨front, rfl⟩ := List.getLast?_eq_some_iff.mp hr
        have hfront : newline ∉ front := fun h => hl (List.mem_append_left _ h)
        have hcut : dropReturn (front ++ [carriageReturn]) = front := by simp [dropReturn]
        rw [hcut, List.append_assoc, List.singleton_append]
        exact .returned hfront hrest
      · have hkept : dropReturn line = line := if_neg hr
        rw [hkept]
        exact .ended hl hr hrest

/-! ## Bytes behind a newline -/

theorem lines_ended_append (front back : Bytes) :
    (front ++ newline :: back).lines = (front ++ [newline]).lines ++ back.lines := by
  induction hn : front.length using Nat.strong_induction_on generalizing front with
  | _ n ih =>
    rcases line_cases front with rfl | ⟨-, hl⟩ | ⟨line, rest, hl, rfl⟩
    · rw [lines_append List.not_mem_nil, lines_append List.not_mem_nil, lines_nil, List.singleton_append]
    · rw [lines_append hl, lines_append hl, lines_nil, List.singleton_append]
    · have hrest := ih rest.length (by rw [← hn]; simp; omega) rest rfl
      rw [List.append_assoc, List.append_assoc, List.cons_append, List.cons_append, lines_append hl, lines_append hl,
        hrest, List.cons_append]

/-- What stands behind the last newline. -/
def openEnd (bytes : Bytes) : Bytes :=
  bytes.rtakeWhile (· != newline)

theorem newline_not_mem_openEnd (bytes : Bytes) : newline ∉ bytes.openEnd := by
  intro h
  simpa using List.mem_rtakeWhile_imp h

/-- Lines that have ended, and what stands behind them. Whatever is added goes to the latter. -/
theorem exists_ended (bytes : Bytes) :
    ∃ ended, bytes = ended ++ bytes.openEnd ∧ ∀ more : Bytes, (ended ++ more).lines = ended.lines ++ more.lines := by
  refine ⟨bytes.rdropWhile (· != newline), List.rdropWhile_append_rtakeWhile.symm, fun more => ?_⟩
  by_cases hnil : bytes.rdropWhile (· != newline) = []
  · rw [hnil, lines_nil]
    rfl
  · have hlast := List.rdropWhile_last_not _ _ hnil
    have hend : (bytes.rdropWhile (· != newline)).getLast hnil = newline := by simpa using hlast
    rw [← List.dropLast_append_getLast hnil, hend, List.append_assoc, List.singleton_append, lines_ended_append]

theorem lines_openEnd (bytes : Bytes) : bytes.openEnd.lines = if bytes.openEnd = [] then [] else [bytes.openEnd] := by
  split
  next h => rw [h, lines_nil]
  next h => exact lines_of_not_mem h (newline_not_mem_openEnd bytes)

end MarketMinutes.Bytes
