import Mathlib.Tactic.IntervalCases
import MarketMinutes.Json.Parser
import MarketMinutes.Json.Printer
import MarketMinutes.Proofs.Text.Digits

/-!
# String literals read back

Every text comes back from its literal, whatever characters it holds; and a
literal is written without control characters.
-/

namespace MarketMinutes.Json

def escaped (c : Char) : List Char :=
  (escape? c).getD [c]

/-- What is read of one character as it is written. -/
def spell (c : Char) : Spelled :=
  if c.toNat < 0x20 ∧ c ∉ ['\x08', '\x0c', '\n', '\r', '\t'] then .unit c.toNat else .char c

/-! ## Writing -/

theorem flatten_run (run : List Char) :
    (if run.isEmpty then [] else [run.reverse]).flatten = run.reverse := by
  cases run <;> simp

theorem bodyPieces_flatten (run cs : List Char) :
    (bodyPieces run cs).flatten = run.reverse ++ cs.flatMap escaped := by
  induction cs generalizing run with
  | nil =>
    rw [List.flatMap_nil, List.append_nil]
    exact flatten_run run
  | cons c cs ih =>
    cases he : escape? c with
    | none =>
      have hc : escaped c = [c] := by simp [escaped, he]
      simp only [bodyPieces, he, ih, List.flatMap_cons, hc, List.reverse_cons, List.append_assoc]
    | some e =>
      have hc : escaped c = e := by simp [escaped, he]
      simp only [bodyPieces, he, List.flatten_append, flatten_run, List.flatten_cons, ih, List.flatMap_cons, hc,
        List.reverse_nil, List.nil_append]

/-- A character as it is written: a short escape, a control character by its number, or itself. -/
theorem escape_cases (c : Char) :
    (∃ e, escaped c = ['\\', e] ∧ e ≠ 'u' ∧ 0x20 ≤ e.toNat ∧ shortEscape? e = some c ∧ spell c = .char c) ∨
    (∃ a b, escaped c = ['\\', 'u', '0', '0', a, b] ∧ 0x20 ≤ a.toNat ∧ 0x20 ≤ b.toNat ∧
      hexUnit? '0' '0' a b = some c.toNat ∧ spell c = .unit c.toNat ∧ c.toNat < 0x20) ∨
    (escaped c = [c] ∧ c ≠ '"' ∧ c ≠ '\\' ∧ 0x20 ≤ c.toNat ∧ spell c = .char c) := by
  by_cases hq : c = '"'
  · subst hq
    exact .inl ⟨'"', rfl, by decide, by decide, rfl, rfl⟩
  by_cases hb : c = '\\'
  · subst hb
    exact .inl ⟨'\\', rfl, by decide, by decide, rfl, rfl⟩
  by_cases hc : c.toNat < 0x20
  · obtain ⟨n, hn, rfl⟩ : ∃ n, n < 0x20 ∧ c = Char.ofNat n := ⟨c.toNat, hc, (Char.ofNat_toNat c).symm⟩
    clear hq hb hc
    interval_cases n
    all_goals first
      | exact .inr (.inl ⟨_, _, rfl, by decide, by decide, rfl, rfl, by decide⟩)
      | exact .inl ⟨_, rfl, by decide, by decide, rfl, rfl⟩
  · have hne : ∀ d : Char, d.toNat < 0x20 → c ≠ d := fun d hd h => hc (h ▸ hd)
    have hnone : escape? c = none := by
      unfold escape?
      rw [if_neg hq, if_neg hb, if_neg (hne _ (by decide)), if_neg (hne _ (by decide)), if_neg (hne _ (by decide)),
        if_neg (hne _ (by decide)), if_neg (hne _ (by decide)), if_neg hc]
    refine .inr (.inr ⟨by simp [escaped, hnone], hq, hb, Nat.not_lt.mp hc, ?_⟩)
    exact if_neg fun h => hc h.1

theorem printable_escaped {c d : Char} (h : d ∈ escaped c) : 0x20 ≤ d.toNat := by
  rcases escape_cases c with ⟨e, he, -, hlow, -⟩ | ⟨a, b, he, ha, hb, -⟩ | ⟨he, -, -, hlow, -⟩
  · rw [he] at h
    simp only [List.mem_cons, List.not_mem_nil, or_false] at h
    rcases h with rfl | rfl
    · decide
    · exact hlow
  · rw [he] at h
    simp only [List.mem_cons, List.not_mem_nil, or_false] at h
    rcases h with rfl | rfl | rfl | rfl | rfl | rfl
    · decide
    · decide
    · decide
    · decide
    · exact ha
    · exact hb
  · rw [he, List.mem_singleton] at h
    rw [h]
    exact hlow

/-! ## Reading -/

theorem body?_short {e c : Char} (hu : e ≠ 'u') (h : shortEscape? e = some c) (cs : List Char) :
    body? ('\\' :: e :: cs) = (body? cs).bind fun (us, left) => some (.char c :: us, left) := by
  rw [body?.eq_def]
  split
  next heq => cases heq
  next heq => cases heq
  next heq =>
    cases heq
    exact absurd rfl hu
  next heq =>
    cases heq
    rw [h]
    rfl
  next hshort heq =>
    cases heq
    exact absurd rfl (hshort _ _ rfl)

theorem body?_plain {c : Char} (hq : c ≠ '"') (hb : c ≠ '\\') (hlow : 0x20 ≤ c.toNat) (cs : List Char) :
    body? (c :: cs) = (body? cs).bind fun (us, left) => some (.char c :: us, left) := by
  rw [body?.eq_def]
  split
  next heq => cases heq
  next heq => exact absurd (List.cons.inj heq).1 hq
  next heq => exact absurd (List.cons.inj heq).1 hb
  next heq => exact absurd (List.cons.inj heq).1 hb
  next heq =>
    cases heq
    have hplain : (c.toNat < 0x20 || c == '\\') = false := by
      rw [Bool.or_eq_false_iff, decide_eq_false_iff_not, beq_eq_false_iff_ne]
      exact ⟨by omega, hb⟩
    rw [if_neg (Bool.eq_false_iff.mp hplain)]
    rfl

theorem body?_escaped (cs rest : List Char) : body? (cs.flatMap escaped ++ '"' :: rest) = some (cs.map spell, rest) := by
  induction cs with
  | nil => rfl
  | cons c cs ih =>
    rw [List.flatMap_cons, List.append_assoc, List.map_cons]
    rcases escape_cases c with ⟨e, he, hu, -, hshort, hs⟩ | ⟨a, b, he, -, -, hunit, hs, -⟩ | ⟨he, hq, hb, hlow, hs⟩
    · rw [he, hs]
      simp only [List.cons_append, List.nil_append, body?_short hu hshort, ih, Option.bind_some]
    · rw [he, hs]
      simp [body?, hunit, ih]
    · rw [he, hs]
      simp only [List.cons_append, List.nil_append, body?_plain hq hb hlow, ih, Option.bind_some]

theorem spelled?_unit {n : Nat} (hn : n < 0xD800) (us : List Spelled) :
    spelled? (.unit n :: us) = (spelled? us).map (Char.ofNat n :: ·) := by
  have hhigh : isHighSurrogate n = false := by
    simp only [isHighSurrogate, Bool.and_eq_false_iff, decide_eq_false_iff_not]
    omega
  have hlow : isLowSurrogate n = false := by
    simp only [isLowSurrogate, Bool.and_eq_false_iff, decide_eq_false_iff_not]
    omega
  cases us with
  | nil => simp [spelled?, hhigh, hlow]
  | cons u us => cases u <;> simp [spelled?, hhigh, hlow]

theorem spelled?_spell (cs : List Char) : spelled? (cs.map spell) = some cs := by
  induction cs with
  | nil => rfl
  | cons c cs ih =>
    rw [List.map_cons]
    rcases escape_cases c with ⟨e, -, -, -, -, hs⟩ | ⟨a, b, -, -, -, -, hs, hc⟩ | ⟨-, -, -, -, hs⟩
    · rw [hs, spelled?, ih]
      rfl
    · rw [hs, spelled?_unit (Nat.lt_trans hc (by decide)), ih, Char.ofNat_toNat]
      rfl
    · rw [hs, spelled?, ih]
      rfl

/-- A literal spells what it was written for, and is written without control characters. -/
theorem literalPieces_spec (l : Literal) :
    ∃ body, (literalPieces l).flatten = '"' :: body ∧ (∀ rest, literal? (body ++ rest) = some (l, rest)) ∧
      ∀ c ∈ body, 0x20 ≤ c.toNat := by
  cases l with
  | none => exact ⟨"\\ud800\"".toList, rfl, fun rest => rfl, by simp⟩
  | some s =>
    refine ⟨s.toList.flatMap escaped ++ ['"'], ?_, fun rest => ?_, fun c hc => ?_⟩
    · simp [literalPieces, bodyPieces_flatten]
    · rw [List.append_assoc, List.singleton_append]
      simp only [literal?, body?_escaped, Option.bind_eq_bind, Option.bind_some, spelled?_spell, Option.map_some,
        String.ofList_toList]
    · rcases List.mem_append.mp hc with hc | hc
      · obtain ⟨d, -, hd⟩ := List.mem_flatMap.mp hc
        exact printable_escaped hd
      · rw [List.mem_singleton.mp hc]
        decide

end MarketMinutes.Json
