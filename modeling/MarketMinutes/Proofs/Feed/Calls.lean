import MarketMinutes.Proofs.Aggregation.Arrivals
import MarketMinutes.Proofs.Text.Contents
import MarketMinutes.Proofs.Text.LineEnds

/-!
# A feed asked again and again

A feed may be asked any number of times. Every line that is not blank is an
arrival once, in the order of the lines, whatever the lines around it hold;
after the last of them there is nothing any more.
-/

namespace MarketMinutes

namespace Arrival

/-- What a line that is not blank comes to: its document, or that it has none, or that it is no text. -/
inductive OfLine (line : Bytes) : Arrival → Prop
  | document {s : String} {d : Document} : line.Spells s → Document.parse? s = some d → OfLine line (.ok d)
  | garbled {s : String} (number : Nat) : line.Spells s → Document.parse? s = none →
    OfLine line (.error (.garbled number))
  | notText : line.isText = false → OfLine line (.error .notText)

theorem OfLine.not_blank {line : Bytes} {a : Arrival} (h : OfLine line a) : line.isBlank = false := by
  cases h with
  | document hs _ => exact hs.not_blank
  | garbled _ hs _ => exact hs.not_blank
  | notText ht => exact Bytes.not_blank_of_not_text ht

theorem OfLine.isText {line : Bytes} {a : Arrival} (h : OfLine line a) (ha : a ≠ .error .notText) :
    line.isText = true := by
  cases h with
  | document hs _ => exact hs.isText
  | garbled _ hs _ => exact hs.isText
  | notText _ => exact absurd rfl ha

/-- An arrival behind so many more lines. -/
def behind (counted : Nat) : Arrival → Arrival
  | .error (.garbled number) => .error (.garbled (counted + number))
  | a => a

/-- An arrival with no number of a line. -/
def unnumbered : Arrival → Arrival
  | .error (.garbled _) => .error (.garbled 0)
  | a => a

@[simp] theorem unnumbered_behind (counted : Nat) (a : Arrival) : (a.behind counted).unnumbered = a.unnumbered := by
  rcases a with (_ | _ | number) | d <;> rfl

/-! ## Arrivals line by line -/

section
variable {line : Bytes} (counted : Nat) (lines : List Bytes)

theorem ofLines_of_not_text (h : line.isText = false) :
    ofLines counted (line :: lines) = .error .notText :: ofLines counted lines := by
  rw [ofLines, LineContent.ofLine_of_not_text h]

theorem ofLines_of_blank (h : line.isBlank = true) : ofLines counted (line :: lines) = ofLines (counted + 1) lines := by
  rw [ofLines, LineContent.ofLine_of_blank h]

theorem ofLines_of_spells {s : String} (h : line.Spells s) :
    ofLines counted (line :: lines) =
      (Document.parse? s).elim (.error (.garbled (counted + 1))) .ok :: ofLines (counted + 1) lines := by
  rw [ofLines, LineContent.ofLine_of_spells h]
  cases Document.parse? s <;> rfl

end

theorem ofLine_of_spells {line : Bytes} {s : String} (h : line.Spells s) (number : Nat) :
    OfLine line ((Document.parse? s).elim (.error (.garbled number)) .ok) := by
  cases hp : Document.parse? s with
  | none => exact .garbled number h hp
  | some d => exact .document h hp

theorem forall₂_ofLines (counted : Nat) (lines : List Bytes) :
    List.Forall₂ OfLine (lines.filter (!·.isBlank)) (ofLines counted lines) := by
  induction lines generalizing counted with
  | nil => exact .nil
  | cons line lines ih =>
    rcases line.text_cases with h | h | ⟨s, h⟩
    · rw [ofLines_of_not_text _ _ h, List.filter_cons_of_pos (by simp [Bytes.not_blank_of_not_text h])]
      exact .cons (.notText h) (ih counted)
    · rw [ofLines_of_blank _ _ h, List.filter_cons_of_neg (by simp [h])]
      exact ih (counted + 1)
    · rw [ofLines_of_spells _ _ h, List.filter_cons_of_pos (by simp [h.not_blank])]
      exact .cons (ofLine_of_spells h _) (ih (counted + 1))

/-- Only lines of text are counted. -/
theorem ofLines_append (counted : Nat) (xs ys : List Bytes) :
    ofLines counted (xs ++ ys) = ofLines counted xs ++ ofLines (counted + xs.countP Bytes.isText) ys := by
  induction xs generalizing counted with
  | nil => rfl
  | cons x xs ih =>
    rw [List.cons_append]
    rcases x.text_cases with h | h | ⟨s, h⟩
    · rw [ofLines_of_not_text _ _ h, ofLines_of_not_text _ _ h, List.countP_cons_of_neg (by simp [h]), ih,
        List.cons_append]
    · rw [ofLines_of_blank _ _ h, ofLines_of_blank _ _ h, List.countP_cons_of_pos (Bytes.isText_of_isBlank h), ih,
        Nat.add_right_comm, Nat.add_assoc]
    · rw [ofLines_of_spells _ _ h, ofLines_of_spells _ _ h, List.countP_cons_of_pos h.isText, ih, List.cons_append,
        Nat.add_right_comm, Nat.add_assoc]

theorem ofLines_add (before counted : Nat) (lines : List Bytes) :
    ofLines (before + counted) lines = (ofLines counted lines).map (behind before) := by
  induction lines generalizing counted with
  | nil => rfl
  | cons line lines ih =>
    rcases line.text_cases with h | h | ⟨s, h⟩
    · rw [ofLines_of_not_text _ _ h, ofLines_of_not_text _ _ h, ih]
      rfl
    · rw [ofLines_of_blank _ _ h, ofLines_of_blank _ _ h, Nat.add_assoc, ih]
    · rw [ofLines_of_spells _ _ h, ofLines_of_spells _ _ h, Nat.add_assoc, ih]
      cases Document.parse? s <;> rfl

end Arrival

namespace LineFeed

/-! ## Calls -/

/-- The feed after it has been asked so many times. -/
def after (f : LineFeed) : Nat → LineFeed
  | 0 => f
  | n + 1 => f.next.2.after n

/-- What the feed gives when it has been asked so many times before. -/
def call (f : LineFeed) (n : Nat) : Option Arrival :=
  (f.after n).next.1

theorem call_zero (f : LineFeed) : f.call 0 = f.next.1 := rfl

theorem call_succ (f : LineFeed) (n : Nat) : f.call (n + 1) = f.next.2.call n := rfl

theorem next_of_none {f f' : LineFeed} (h : f.next = (none, f')) : f'.next = (none, f') := by
  fun_induction next f with
  | case1 f hr =>
    obtain ⟨-, rfl⟩ := Prod.mk.inj h
    rw [next, dif_pos hr]
  | case2 => cases (Prod.mk.inj h).1
  | case3 f hr hc hlt ih => exact ih h
  | case4 => cases (Prod.mk.inj h).1
  | case5 => cases (Prod.mk.inj h).1

/-- The calls give the arrivals one after another, and then nothing, however often the feed is asked. -/
theorem call_eq (f : LineFeed) (n : Nat) : f.call n = f.arrivals[n]? := by
  induction n generalizing f with
  | zero =>
    rcases h : f.next with ⟨_ | a, f'⟩
    · rw [call_zero, h, arrivals_of_next_none h, List.getElem?_nil]
    · rw [call_zero, h, arrivals_of_next_some h, List.getElem?_cons_zero]
  | succ n ih =>
    rcases h : f.next with ⟨_ | a, f'⟩
    · rw [call_succ, h, ih, arrivals_of_next_none h, arrivals_of_next_none (next_of_none h)]
      rfl
    · rw [call_succ, h, ih, arrivals_of_next_some h, List.getElem?_cons_succ]

/-- Asked again and again, a feed gives one arrival for each line that is not blank, in the order of the lines the
bytes fall into, and after that nothing, however often it is asked. So behind bytes that end in a newline the feed
gives what it would give without them; only the numbers of lines go up by the lines counted before. -/
theorem calls_give_line_by_line (bytes : Bytes) :
    (∀ n, (ofBytes bytes).call n = (ofBytes bytes).arrivals[n]?) ∧
      (∃ lines, bytes.FallsInto lines ∧ (∀ others, bytes.FallsInto others → others = lines) ∧
        List.Forall₂ Arrival.OfLine (lines.filter (!·.isBlank)) (ofBytes bytes).arrivals) ∧
      ∀ more : Bytes,
        let first := (ofBytes (bytes ++ [Bytes.newline])).arrivals
        let both := (ofBytes (bytes ++ [Bytes.newline] ++ more)).arrivals
        let counted := (bytes ++ [Bytes.newline]).lines.countP Bytes.isText
        both = first ++ (ofBytes more).arrivals.map (Arrival.behind counted) ∧
          both.map Arrival.unnumbered =
            first.map Arrival.unnumbered ++ (ofBytes more).arrivals.map Arrival.unnumbered := by
  refine ⟨call_eq _, ⟨bytes.lines, bytes.fallsInto_lines, fun _ => Bytes.FallsInto.eq_lines, ?_⟩, ?_⟩
  · rw [arrivals_ofBytes]
    exact Arrival.forall₂_ofLines 0 bytes.lines
  · intro more first both counted
    have hboth : both = first ++ (ofBytes more).arrivals.map (Arrival.behind counted) := by
      simp only [both, first, counted, arrivals_ofBytes, List.append_assoc, List.singleton_append,
        Bytes.lines_ended_append bytes more, Arrival.ofLines_append]
      rw [Nat.add_comm, Arrival.ofLines_add]
    refine ⟨hboth, ?_⟩
    rw [hboth, List.map_append, List.map_map]
    simp only [Function.comp_def, Arrival.unnumbered_behind]

end LineFeed
end MarketMinutes
