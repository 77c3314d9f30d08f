import MarketMinutes.Proofs.Feed.Calls

/-!
# Numbers of lines

The number of a line is how many lines have been counted when it is read. A
blank line is counted, a line that is no text is not, so behind such lines the
numbers fall short of where the lines stand.
-/

namespace MarketMinutes.LineFeed

/-! ## One call -/

section
variable {f : LineFeed} (hr : f.rest ≠ [])
include hr

theorem lines_rest : f.rest.lines = (Bytes.splitLine f.rest).1 :: f.skip.rest.lines := by
  rw [Bytes.lines, dif_neg hr]
  rfl

theorem next_of_not_text (h : (Bytes.splitLine f.rest).1.isText = false) :
    f.next = (some (.error .notText), f.pass) := by
  rw [next, dif_neg hr, LineContent.ofLine_of_not_text h]

theorem next_of_blank (h : (Bytes.splitLine f.rest).1.isBlank = true) : f.next = f.skip.next := by
  rw [next, dif_neg hr, LineContent.ofLine_of_blank h]

theorem next_of_spells {s : String} (h : (Bytes.splitLine f.rest).1.Spells s) :
    f.next = (some ((Document.parse? s).elim (.error (.garbled (f.line + 1))) .ok), f.skip) := by
  rw [next, dif_neg hr, LineContent.ofLine_of_spells h]
  cases Document.parse? s <;> rfl

end

/-- A call passes over blank lines and takes one line behind them. It counts those of them that are text, and a
failure names the last that has been counted. -/
theorem next_some {f f' : LineFeed} {a : Arrival} (h : f.next = (some a, f')) :
    ∃ blanks line, f.rest.lines = blanks ++ line :: f'.rest.lines ∧ (∀ b ∈ blanks, b.isBlank = true) ∧
      Arrival.OfLine line a ∧ f'.line = f.line + (blanks ++ [line]).countP Bytes.isText ∧
      ∀ number, a = .error (.garbled number) → number = f'.line := by
  induction hn : f.rest.length using Nat.strong_induction_on generalizing f with
  | _ n ih =>
    by_cases hr : f.rest = []
    · rw [next, dif_pos hr] at h
      cases (Prod.mk.inj h).1
    have hlines := lines_rest hr
    rcases (Bytes.splitLine f.rest).1.text_cases with ht | hb | ⟨s, hs⟩
    · rw [next_of_not_text hr ht] at h
      obtain ⟨ha, rfl⟩ := Prod.mk.inj h
      cases ha
      exact ⟨[], _, hlines, by simp, .notText ht, by simp [pass, ht], fun number hn => by cases hn⟩
    · rw [next_of_blank hr hb] at h
      obtain ⟨blanks, line, hrest, hblanks, ha, hline, hnumber⟩ :=
        ih f.skip.rest.length (by rw [← hn]; exact Bytes.length_splitLine_lt hr) h rfl
      refine ⟨(Bytes.splitLine f.rest).1 :: blanks, line, by rw [hlines, hrest, List.cons_append],
        List.forall_mem_cons.mpr ⟨hb, hblanks⟩, ha, ?_, hnumber⟩
      rw [hline, List.cons_append, List.countP_cons_of_pos (Bytes.isText_of_isBlank hb)]
      simp only [skip]
      omega
    · rw [next_of_spells hr hs] at h
      obtain ⟨ha, rfl⟩ := Prod.mk.inj h
      cases Option.some.inj ha
      refine ⟨[], _, hlines, by simp, Arrival.ofLine_of_spells hs _, by simp [skip, hs.isText], fun number hn => ?_⟩
      cases hp : Document.parse? s with
      | none =>
        rw [hp] at hn
        cases hn
        rfl
      | some d =>
        rw [hp] at hn
        cases hn

/-! ## Many calls -/

/-- What has been asked for before an arrival are the lines before its line that are not blank. -/
theorem call_some {f : LineFeed} {n : Nat} {a : Arrival} (h : f.call n = some a) :
    ∃ before line behind, f.rest.lines = before ++ line :: behind ∧ before.countP (!·.isBlank) = n ∧
      Arrival.OfLine line a ∧ (f.after (n + 1)).line = f.line + (before ++ [line]).countP Bytes.isText ∧
      ∀ number, a = .error (.garbled number) → number = (f.after (n + 1)).line := by
  have hnone : ∀ {blanks : List Bytes}, (∀ b ∈ blanks, b.isBlank = true) → blanks.countP (!·.isBlank) = 0 := by
    intro blanks hblanks
    rw [List.countP_eq_zero]
    intro b hb
    simp [hblanks b hb]
  induction n generalizing f with
  | zero =>
    rw [call_zero] at h
    obtain ⟨blanks, line, hlines, hblanks, hline⟩ := next_some (Prod.ext h rfl)
    exact ⟨blanks, line, _, hlines, hnone hblanks, hline⟩
  | succ n ih =>
    rcases hnext : f.next with ⟨_ | first, f'⟩
    · rw [call_succ, hnext, call_eq, arrivals_of_next_none (next_of_none hnext)] at h
      cases h
    · obtain ⟨blanks, firstLine, hlines, hblanks, hfirst, hcounted, -⟩ := next_some hnext
      rw [call_succ, hnext] at h
      obtain ⟨before, line, behind, hrest, hn, ha, hline, hnumber⟩ := ih h
      have hafter : f.after (n + 1 + 1) = f'.after (n + 1) := by simp only [after, hnext]
      rw [hafter]
      refine ⟨blanks ++ firstLine :: before, line, behind, ?_, ?_, ha, ?_, hnumber⟩
      · rw [hlines, hrest, List.append_assoc, List.cons_append]
      · rw [List.countP_append, hnone hblanks, List.countP_cons_of_pos (by simp [hfirst.not_blank]), hn, Nat.zero_add]
      · rw [hline, hcounted]
        simp only [List.countP_append, List.countP_cons, List.countP_nil]
        omega

/-- The number that a feed gives with a document, or with a line that is no document, falls short of where the line
stands by the lines before it that are no text. It is right if there are none of these, and only then. -/
theorem numbers_skip_lines_without_text (bytes : Bytes) {n : Nat} {a : Arrival} (h : (ofBytes bytes).call n = some a)
    (ha : a ≠ .error .notText) :
    ∃ before line behind, bytes.FallsInto (before ++ line :: behind) ∧ before.countP (!·.isBlank) = n ∧
      Arrival.OfLine line a ∧
      let number := ((ofBytes bytes).after (n + 1)).line
      (∀ k, a = .error (.garbled k) → k = number) ∧
        number + before.countP (!·.isText) = before.length + 1 ∧
        (number = before.length + 1 ↔ ∀ b ∈ before, b.isText = true) := by
  obtain ⟨before, line, behind, hlines, hn, hline, hcounted, hnumber⟩ := call_some h
  have hfalls := bytes.fallsInto_lines
  rw [show bytes.lines = before ++ line :: behind from hlines] at hfalls
  have hstart : (ofBytes bytes).line = 0 := rfl
  have hsplit := List.length_eq_countP_add_countP Bytes.isText (l := before)
  simp only [Bool.not_eq_true, Bool.decide_eq_false] at hsplit
  have htotal : ((ofBytes bytes).after (n + 1)).line = before.countP Bytes.isText + 1 := by
    rw [hcounted, hstart, List.countP_append, List.countP_singleton, if_pos (hline.isText ha)]
    omega
  refine ⟨before, line, behind, hfalls, hn, hline, hnumber, by omega, ?_⟩
  rw [htotal, Nat.add_right_cancel_iff, List.countP_eq_length]

/-- A blank line, a line that is no text, and a third line that is called the second. -/
theorem numbers_skip_lines_without_text_behind_one :
    let bytes : Bytes := [0x20, 0x0A, 0xFF, 0x0A, 0x7B]
    (ofBytes bytes).call 1 = some (.error (.garbled 2)) ∧
      ∃ before line behind, bytes.FallsInto (before ++ line :: behind) ∧ Arrival.OfLine line (.error (.garbled 2)) ∧
        2 + before.countP (!·.isText) = before.length + 1 := by
  intro bytes
  have hcall : (ofBytes bytes).call 1 = some (.error (.garbled 2)) := by decide +kernel
  obtain ⟨before, line, behind, hfalls, -, hline, hnumber, hposition, -⟩ :=
    numbers_skip_lines_without_text bytes hcall (by decide)
  rw [← hnumber 2 rfl] at hposition
  exact ⟨hcall, before, line, behind, hfalls, hline, hposition⟩

/-- The second of two lines is called the first, because the first is no text. -/
theorem number_is_not_position :
    ¬ ∀ (bytes : Bytes) (n : Nat) (a : Arrival), (ofBytes bytes).call n = some a → a ≠ .error .notText →
      ∃ before line behind, bytes.FallsInto (before ++ line :: behind) ∧ before.countP (!·.isBlank) = n ∧
        Arrival.OfLine line a ∧ ((ofBytes bytes).after (n + 1)).line = before.length + 1 := by
  intro h
  obtain ⟨before, line, behind, hfalls, hn, -, hnumber⟩ :=
    h [0xFF, 0x0A, 0x7B] 1 (.error (.garbled 1)) (by decide +kernel) (by decide)
  have hline : ((ofBytes [0xFF, 0x0A, 0x7B]).after 2).line = 1 := by decide +kernel
  rw [hline] at hnumber
  -- Nothing stands before the line, so it is not the second that is not blank.
  have hbefore : before = [] := List.eq_nil_of_length_eq_zero (by omega)
  rw [hbefore, List.countP_nil] at hn
  cases hn

end MarketMinutes.LineFeed
