import Mathlib.Data.List.DropRight
import MarketMinutes.Proofs.Json.RoundTrip

/-!
# Texts that do not end behind their value

An object that begins behind a value leaves the reading of the value as it was,
and then is too much. Only gaps may stand in front of a value; a blank that is
none of them is where reading fails.
-/

namespace MarketMinutes.Json

/-! ## A brace behind what is read -/

section
variable {cs left : List Char} (tail : List Char)

theorem append_ne_cons {c : Char} (hc : c ≠ '\x7b') (h : ∀ rest, cs ≠ c :: rest) (rest : List Char) :
    cs ++ '\x7b' :: tail ≠ c :: rest := by
  cases cs with
  | nil => exact fun heq => hc (List.cons.inj heq).1.symm
  | cons c' cs => exact fun heq => h cs (by rw [(List.cons.inj heq).1])

theorem skipGaps_append (cs : List Char) : skipGaps (cs ++ '\x7b' :: tail) = skipGaps cs ++ '\x7b' :: tail := by
  unfold skipGaps
  rw [List.dropWhile_append]
  split
  next h =>
    rw [List.isEmpty_iff.mp h]
    rfl
  next => rfl

theorem digits_append_brace (cs : List Char) :
    digits (cs ++ '\x7b' :: tail) = ((digits cs).1, (digits cs).2 ++ '\x7b' :: tail) := by
  induction cs with
  | nil => rfl
  | cons c cs ih =>
    rw [List.cons_append, digits, digits]
    cases Digits.ofChar? c with
    | none => rfl
    | some d => simp only [ih]

theorem fraction?_append {ds : List Nat} (h : fraction? cs = some (ds, left)) :
    fraction? (cs ++ '\x7b' :: tail) = some (ds, left ++ '\x7b' :: tail) := by
  unfold fraction? at h
  split at h
  next cs =>
    rw [List.cons_append, fraction?, digits_append_brace]
    rcases hds : digits cs with ⟨_ | ⟨d, ds⟩, rest⟩
    · rw [hds] at h
      cases h
    · rw [hds] at h
      cases h
      rfl
  next hpoint =>
    cases h
    unfold fraction?
    split
    next heq => exact absurd heq (append_ne_cons tail (by decide) hpoint _)
    next => rfl

/-- The sign behind the mark of an exponent, and what follows it. -/
def exponentSign : List Char → Bool × List Char
  | '-' :: cs => (true, cs)
  | '+' :: cs => (false, cs)
  | cs => (false, cs)

theorem exponent?_mark {c : Char} (hc : c = 'e' ∨ c = 'E') (cs : List Char) :
    exponent? (c :: cs) =
      match digits (exponentSign cs).2 with
      | ([], _) => none
      | (ds, left) => some (some (if (exponentSign cs).1 then -(Digits.value ds : Int) else Digits.value ds), left) := by
  simp only [exponent?, if_pos hc]
  rfl

theorem exponentSign_append (cs : List Char) :
    exponentSign (cs ++ '\x7b' :: tail) = ((exponentSign cs).1, (exponentSign cs).2 ++ '\x7b' :: tail) := by
  rw [exponentSign.eq_def cs]
  split
  next => rfl
  next => rfl
  next hminus hplus =>
    unfold exponentSign
    split
    next heq => exact absurd heq (append_ne_cons tail (by decide) hminus _)
    next heq => exact absurd heq (append_ne_cons tail (by decide) hplus _)
    next => rfl

theorem exponent?_append {e : Option Int} (h : exponent? cs = some (e, left)) :
    exponent? (cs ++ '\x7b' :: tail) = some (e, left ++ '\x7b' :: tail) := by
  cases cs with
  | nil =>
    cases h
    rfl
  | cons c cs =>
    by_cases hc : c = 'e' ∨ c = 'E'
    · rw [exponent?_mark hc] at h
      rw [List.cons_append, exponent?_mark hc, exponentSign_append, digits_append_brace]
      rcases hds : digits (exponentSign cs).2 with ⟨_ | ⟨d, ds⟩, rest⟩
      · rw [hds] at h
        cases h
      · rw [hds] at h
        cases h
        rfl
    · simp only [List.cons_append, exponent?, if_neg hc] at h ⊢
      cases h
      rfl

theorem magnitude?_append {negative : Bool} {x : Numeral} (h : magnitude? negative cs = some (x, left)) :
    magnitude? negative (cs ++ '\x7b' :: tail) = some (x, left ++ '\x7b' :: tail) := by
  unfold magnitude? at h ⊢
  rw [digits_append_brace]
  rcases hds : digits cs with ⟨whole, rest⟩
  simp only [hds] at h ⊢
  split at h
  next => cases h
  next hwhole =>
    rw [if_neg hwhole]
    simp only [Option.bind_eq_bind, Option.bind_eq_some_iff, Prod.exists] at h ⊢
    obtain ⟨fraction, rest, hf, e, left', he, heq⟩ := h
    cases heq
    exact ⟨fraction, _, fraction?_append tail hf, e, _, exponent?_append tail he, rfl⟩

theorem numeral?_append {x : Numeral} (h : numeral? cs = some (x, left)) :
    numeral? (cs ++ '\x7b' :: tail) = some (x, left ++ '\x7b' :: tail) := by
  cases cs with
  | nil => cases h
  | cons c cs =>
    by_cases hc : c = '-'
    · subst hc
      exact magnitude?_append tail h
    · rw [numeral?_of_ne hc] at h
      rw [List.cons_append, numeral?_of_ne hc]
      exact magnitude?_append tail h

theorem numeral?_head {x : Numeral} (h : numeral? cs = some (x, left)) :
    ∃ c cs', cs = c :: cs' ∧ (c = '-' ∨ ∃ d, d < 10 ∧ c = Digits.toChar d) := by
  cases cs with
  | nil => cases h
  | cons c cs =>
    refine ⟨c, cs, rfl, ?_⟩
    by_cases hc : c = '-'
    · exact .inl hc
    · rw [numeral?_of_ne hc, magnitude?, digits] at h
      cases hd : Digits.ofChar? c with
      | none =>
        rw [hd] at h
        cases h
      | some d => exact .inr ⟨d, Digits.eq_toChar hd⟩

theorem body?_append {us : List Spelled} (h : body? cs = some (us, left)) :
    body? (cs ++ '\x7b' :: tail) = some (us, left ++ '\x7b' :: tail) := by
  fun_induction body? cs generalizing us left with
  | case1 => cases h
  | case2 =>
    cases h
    rfl
  | case3 a b c d cs ih =>
    simp only [Option.bind_eq_bind, Option.bind_eq_some_iff, Prod.exists] at h
    obtain ⟨n, hn, rest, left', hrest, heq⟩ := h
    cases heq
    simp only [List.cons_append, body?, hn, ih hrest]
    rfl
  | case4 e cs _ ih =>
    simp only [Option.bind_eq_bind, Option.bind_eq_some_iff, Prod.exists] at h
    obtain ⟨c, hc, rest, left', hrest, heq⟩ := h
    cases heq
    have hu : e ≠ 'u' := by
      rintro rfl
      cases hc
    rw [List.cons_append, List.cons_append, body?_short hu hc, ih hrest]
    rfl
  | case5 => cases h
  | case6 c cs hq _ _ hc ih =>
    simp only [Option.bind_eq_bind, Option.bind_eq_some_iff, Prod.exists] at h
    obtain ⟨rest, left', hrest, heq⟩ := h
    cases heq
    have hlow : ¬ c.toNat < 0x20 := fun hlow => hc (by simp [hlow])
    have hb : c ≠ '\\' := fun hb => hc (by simp [hb])
    rw [List.cons_append, body?_plain hq hb (Nat.not_lt.mp hlow), ih hrest]
    rfl

theorem literal?_append {l : Literal} (h : literal? cs = some (l, left)) :
    literal? (cs ++ '\x7b' :: tail) = some (l, left ++ '\x7b' :: tail) := by
  unfold literal? at h ⊢
  simp only [Option.bind_eq_bind, Option.bind_eq_some_iff, Prod.exists] at h ⊢
  obtain ⟨us, left', hbody, heq⟩ := h
  cases heq
  exact ⟨us, _, body?_append tail hbody, rfl⟩

end

/-! ## Values -/

theorem value?_skipGaps (fuel : Nat) (cs : List Char) : value? fuel (skipGaps cs) = value? fuel cs := by
  have hskip : skipGaps (skipGaps cs) = skipGaps cs := List.dropWhile_idempotent ..
  cases fuel with
  | zero => rfl
  | succ fuel => rw [value?, value?, hskip]

theorem value?_bracket (fuel : Nat) (cs : List Char) :
    value? (fuel + 1) ('[' :: cs) =
      match skipGaps cs with
      | ']' :: left => some (.array [], left)
      | _ => (items? fuel cs).map fun (js, left) => (.array js, left) :=
  rfl

theorem value?_brace (fuel : Nat) (cs : List Char) :
    value? (fuel + 1) ('\x7b' :: cs) =
      match skipGaps cs with
      | '\x7d' :: left => some (.object [], left)
      | _ => (members? fuel cs).map fun (ms, left) => (.object ms, left) :=
  rfl

-- The reading of the longer text has at least as much to go on with.
mutual
theorem value?_append {fuel fuel' : Nat} (hf : fuel ≤ fuel') {cs left : List Char} {j : Json}
    (h : value? fuel cs = some (j, left)) (tail : List Char) :
    value? fuel' (cs ++ '\x7b' :: tail) = some (j, left ++ '\x7b' :: tail) := by
  match fuel, fuel', hf with
  | 0, _, _ => cases h
  | fuel + 1, fuel' + 1, hf =>
    have hf := Nat.le_of_succ_le_succ hf
    rw [← value?_skipGaps, skipGaps_append]
    rw [value?] at h
    split at h
    next rest hcs =>
      cases h
      rw [hcs]
      rfl
    next rest hcs =>
      cases h
      rw [hcs]
      rfl
    next rest hcs =>
      cases h
      rw [hcs]
      rfl
    next rest hcs =>
      obtain ⟨⟨l, left'⟩, hl, heq⟩ := Option.map_eq_some_iff.mp h
      cases heq
      rw [hcs]
      exact congrArg (Option.map _) (literal?_append tail hl)
    next rest hcs =>
      rw [hcs, List.cons_append, value?_bracket, skipGaps_append]
      split at h
      next hclose =>
        cases h
        rw [hclose]
        rfl
      next hclose =>
        obtain ⟨⟨js, left'⟩, hjs, heq⟩ := Option.map_eq_some_iff.mp h
        cases heq
        split
        next heq => exact absurd heq (append_ne_cons tail (by decide) hclose _)
        next => exact congrArg (Option.map _) (items?_append hf hjs tail)
    next rest hcs =>
      rw [hcs, List.cons_append, value?_brace, skipGaps_append]
      split at h
      next hclose =>
        cases h
        rw [hclose]
        rfl
      next hclose =>
        obtain ⟨⟨ms, left'⟩, hms, heq⟩ := Option.map_eq_some_iff.mp h
        cases heq
        split
        next heq => exact absurd heq (append_ne_cons tail (by decide) hclose _)
        next => exact congrArg (Option.map _) (members?_append hf hms tail)
    next =>
      obtain ⟨⟨x, left'⟩, hx, heq⟩ := Option.map_eq_some_iff.mp h
      cases heq
      obtain ⟨c, rest, hcs, hc⟩ := numeral?_head hx
      rw [hcs] at hx ⊢
      rw [List.cons_append, value?_numeral hc, ← List.cons_append, numeral?_append tail hx]
      rfl

theorem items?_append {fuel fuel' : Nat} (hf : fuel ≤ fuel') {cs left : List Char} {js : List Json}
    (h : items? fuel cs = some (js, left)) (tail : List Char) :
    items? fuel' (cs ++ '\x7b' :: tail) = some (js, left ++ '\x7b' :: tail) := by
  match fuel, fuel', hf with
  | 0, _, _ => cases h
  | fuel + 1, fuel' + 1, hf =>
    have hf := Nat.le_of_succ_le_succ hf
    rw [items?] at h ⊢
    simp only [Option.bind_eq_bind, Option.bind_eq_some_iff, Prod.exists] at h ⊢
    obtain ⟨j, mid, hj, h⟩ := h
    refine ⟨j, _, value?_append hf hj tail, ?_⟩
    rw [skipGaps_append]
    split at h
    next rest hmid =>
      obtain ⟨⟨js, left'⟩, hjs, heq⟩ := Option.bind_eq_some_iff.mp h
      cases heq
      rw [hmid]
      exact Option.bind_eq_some_iff.mpr ⟨_, items?_append hf hjs tail, rfl⟩
    next hmid =>
      cases h
      rw [hmid]
      rfl
    next => cases h

theorem members?_append {fuel fuel' : Nat} (hf : fuel ≤ fuel') {cs left : List Char} {ms : List (Literal × Json)}
    (h : members? fuel cs = some (ms, left)) (tail : List Char) :
    members? fuel' (cs ++ '\x7b' :: tail) = some (ms, left ++ '\x7b' :: tail) := by
  match fuel, fuel', hf with
  | 0, _, _ => cases h
  | fuel + 1, fuel' + 1, hf =>
    have hf := Nat.le_of_succ_le_succ hf
    rw [members?] at h ⊢
    rw [skipGaps_append]
    split at h
    next rest hcs =>
      rw [hcs]
      simp only [List.cons_append, Option.bind_eq_bind, Option.bind_eq_some_iff, Prod.exists] at h ⊢
      obtain ⟨name, mid, hname, h⟩ := h
      refine ⟨name, _, literal?_append tail hname, ?_⟩
      rw [skipGaps_append]
      split at h
      next rest hmid =>
        rw [hmid]
        simp only [List.cons_append, Option.bind_eq_some_iff, Prod.exists] at h ⊢
        obtain ⟨j, mid, hj, h⟩ := h
        refine ⟨j, _, value?_append hf hj tail, ?_⟩
        rw [skipGaps_append]
        split at h
        next rest hmid =>
          obtain ⟨⟨ms, left'⟩, hms, heq⟩ := Option.bind_eq_some_iff.mp h
          cases heq
          rw [hmid]
          exact Option.bind_eq_some_iff.mpr ⟨_, members?_append hf hms tail, rfl⟩
        next hmid =>
          cases h
          rw [hmid]
          rfl
        next => cases h
      next => cases h
    next => cases h
end

theorem isBlank_of_isGap {c : Char} (h : isGap c = true) : Text.isBlank c = true := by
  simp only [isGap, Bool.or_eq_true, beq_iff_eq] at h
  obtain ((rfl | rfl) | rfl) | rfl := h <;> rfl

/-- A blank that JSON does not know is no beginning of a value. -/
theorem value?_blank {c : Char} (hb : Text.isBlank c = true) (hg : isGap c = false) (fuel : Nat) (cs : List Char) :
    value? fuel (c :: cs) = none := by
  cases fuel with
  | zero => rfl
  | succ fuel =>
    have hne : ∀ {c' : Char} {rest : List Char}, Text.isBlank c' = false → c :: cs = c' :: rest → False := by
      intro c' rest hc' heq
      rw [← (List.cons.inj heq).1, hb] at hc'
      cases hc'
    rw [value?, skipGaps_cons hg]
    split
    next heq => exact (hne rfl heq).elim
    next heq => exact (hne rfl heq).elim
    next heq => exact (hne rfl heq).elim
    next heq => exact (hne rfl heq).elim
    next heq => exact (hne rfl heq).elim
    next heq => exact (hne rfl heq).elim
    next =>
      cases hx : numeral? (c :: cs) with
      | none => rfl
      | some x =>
        obtain ⟨c', rest, heq, rfl | ⟨d, hd, rfl⟩⟩ := numeral?_head hx
        · exact (hne rfl heq).elim
        · exact (hne (by interval_cases d <;> rfl) heq).elim

/-! ## Texts -/

theorem parse?_append_brace {s : String} {j : Json} (h : parse? s = some j) (tail : List Char) :
    parse? (s ++ String.ofList ('\x7b' :: tail)) = none := by
  unfold parse? at h ⊢
  simp only [String.toList_append, String.toList_ofList] at h ⊢
  split at h
  next j' left hvalue =>
    have hfuel : s.toList.length + 1 ≤ (s.toList ++ '\x7b' :: tail).length + 1 := by simp
    rw [value?_append hfuel hvalue tail]
    simp only [skipGaps_append]
    exact if_neg (by simp)
  next => cases h

theorem parse?_gaps_append {s : String} (hs : s.toList.all isGap = true) {j : Json} (h : j.Proper) :
    parse? (s ++ j.render) = some j := by
  have hskip : skipGaps (s.toList ++ j.text) = skipGaps j.text := by
    have hnil : s.toList.dropWhile isGap = [] := List.dropWhile_eq_nil_iff.mpr (List.all_eq_true.mp hs)
    unfold skipGaps
    rw [List.dropWhile_append, hnil]
    rfl
  have hvalue := value?_text j h ((s.toList ++ j.text).length + 1) (by simp; omega) .nil
  rw [List.append_nil, ← value?_skipGaps, ← hskip, value?_skipGaps] at hvalue
  simp only [parse?, render, String.toList_append, String.toList_ofList, hvalue]
  rfl

theorem parse?_blank_append {s : String} (hb : Text.allBlank s = true) (hs : s.toList.all isGap = false) (t : String) :
    parse? (s ++ t) = none := by
  cases hskip : s.toList.dropWhile isGap with
  | nil =>
    have hall : s.toList.all isGap = true := List.all_eq_true.mpr (List.dropWhile_eq_nil_iff.mp hskip)
    cases hall.symm.trans hs
  | cons c cs =>
    have hmem : c ∈ s.toList := (List.dropWhile_suffix isGap).mem (hskip ▸ List.mem_cons_self ..)
    have hg : isGap c = false := by simpa [hskip] using List.head?_dropWhile_not isGap s.toList
    have happend : skipGaps (s.toList ++ t.toList) = c :: (cs ++ t.toList) := by
      unfold skipGaps
      rw [List.dropWhile_append, hskip]
      rfl
    unfold parse?
    simp only [String.toList_append]
    rw [← value?_skipGaps, happend, value?_blank (List.all_eq_true.mp hb c hmem) hg]

end MarketMinutes.Json
