import Mathlib.Tactic.IntervalCases
import MarketMinutes.Json.Parser
import MarketMinutes.Json.Printer
import MarketMinutes.Proofs.Text.Digits

/-!
# Numbers read back

A number comes back from its text where what follows the text does not go on
with it; in a text of JSON nothing does.
-/

namespace MarketMinutes

/-- A number as JSON can write it: digits only, and no zero in front of others. -/
structure Numeral.Proper (n : Numeral) : Prop where
  whole_ne : n.whole ≠ []
  whole_lt : ∀ d ∈ n.whole, d < 10
  no_zero : 1 < n.whole.length → n.whole.head? ≠ some 0
  fraction_lt : ∀ d ∈ n.fraction, d < 10

namespace Numeral

theorem proper_ofNat (n : Nat) : (ofNat n).Proper where
  whole_ne := Digits.ofNat_ne_nil n
  whole_lt := fun _ hd => Digits.lt_of_mem_ofNat hd
  no_zero := fun hl => by
    refine Digits.head?_ofNat_ne_zero fun h0 => ?_
    have hzero : (ofNat 0).whole = [0] := Digits.ofNat_of_lt (by decide)
    rw [h0, hzero] at hl
    exact absurd hl (by decide)
  fraction_lt := fun _ hd => nomatch hd

theorem proper_ofInt (n : Int) : (ofInt n).Proper :=
  { proper_ofNat n.natAbs with }

theorem text_head {n : Numeral} (h : n.Proper) :
    ∃ c cs, n.text = c :: cs ∧ (c = '-' ∨ ∃ d, d < 10 ∧ c = Digits.toChar d) := by
  obtain ⟨d, ds, hd⟩ := List.exists_cons_of_ne_nil h.whole_ne
  have hlt : d < 10 := h.whole_lt d (hd ▸ List.mem_cons_self ..)
  unfold text
  rw [hd]
  cases n.negative with
  | true => exact ⟨_, _, rfl, .inl rfl⟩
  | false => exact ⟨_, _, rfl, .inr ⟨d, hlt, rfl⟩⟩

theorem printable_text {n : Numeral} (h : n.Proper) : ∀ c ∈ n.text, 0x20 ≤ c.toNat := by
  have hdigits : ∀ {ds : List Nat}, (∀ d ∈ ds, d < 10) → ∀ c ∈ ds.map Digits.toChar, 0x20 ≤ c.toNat := by
    intro ds hds c hc
    obtain ⟨d, hd, rfl⟩ := List.mem_map.mp hc
    have hlt := hds d hd
    interval_cases d <;> decide
  unfold text
  simp only [List.forall_mem_append]
  refine ⟨⟨⟨?_, hdigits h.whole_lt⟩, ?_⟩, ?_⟩
  · cases n.negative <;> simp
  · cases hf : n.fraction with
    | nil => simp
    | cons d ds => exact List.forall_mem_cons.mpr ⟨by decide, hdigits (hf ▸ h.fraction_lt)⟩
  · cases n.exponent with
    | none => simp
    | some e =>
      refine List.forall_mem_cons.mpr ⟨by decide, List.forall_mem_append.mpr ⟨?_, ?_⟩⟩
      · by_cases he : e < 0 <;> simp [he]
      · exact hdigits fun _ hd => Digits.lt_of_mem_ofNat hd

end Numeral

namespace Json

/-- What may follow a value: the end, or a comma or bracket after it. -/
inductive Closed : List Char → Prop where
  | nil : Closed []
  | comma (cs : List Char) : Closed (',' :: cs)
  | bracket (cs : List Char) : Closed (']' :: cs)
  | brace (cs : List Char) : Closed ('\x7d' :: cs)

theorem digits_closed {rest : List Char} (h : Closed rest) : digits rest = ([], rest) := by
  cases h <;> rfl

theorem digits_append {ds : List Nat} (h : ∀ d ∈ ds, d < 10) {rest : List Char} (hrest : digits rest = ([], rest)) :
    digits (ds.map Digits.toChar ++ rest) = (ds, rest) := by
  induction ds with
  | nil => exact hrest
  | cons d ds ih =>
    obtain ⟨hd, hds⟩ := List.forall_mem_cons.mp h
    simp only [List.map_cons, List.cons_append, digits, Digits.ofChar?_toChar hd, ih hds]

def exponentText : Option Int → List Char
  | none => []
  | some e => 'e' :: Digits.intText e

def fractionText (ds : List Nat) : List Char :=
  if ds.isEmpty then [] else '.' :: ds.map Digits.toChar

theorem exponent?_digit {d : Nat} (h : d < 10) (cs : List Char) :
    exponent? ('e' :: Digits.toChar d :: cs) =
      match digits (Digits.toChar d :: cs) with
      | ([], _) => none
      | (ds, left) => some (some (Digits.value ds : Int), left) := by
  interval_cases d <;> rfl

theorem exponent?_text (e : Option Int) {rest : List Char} (h : Closed rest) :
    exponent? (exponentText e ++ rest) = some (e, rest) := by
  cases e with
  | none => cases h <;> rfl
  | some e =>
    have hlow : ∀ d ∈ Digits.ofNat e.natAbs, d < 10 := fun _ hd => Digits.lt_of_mem_ofNat hd
    have hds := digits_append hlow (digits_closed h)
    have hvalue := Digits.value_ofNat e.natAbs
    obtain ⟨d, ds, hd⟩ := List.exists_cons_of_ne_nil (Digits.ofNat_ne_nil e.natAbs)
    have hlt : d < 10 := Digits.lt_of_mem_ofNat (hd ▸ List.mem_cons_self ..)
    rw [hd] at hds hvalue
    by_cases he : e < 0
    · have htext : exponentText (some e) ++ rest = 'e' :: '-' :: ((d :: ds).map Digits.toChar ++ rest) := by
        simp [exponentText, Digits.intText, Digits.text, he, hd]
      rw [htext]
      simp only [exponent?, true_or, if_true, hds, hvalue]
      rw [show -(e.natAbs : Int) = e by omega]
    · have htext : exponentText (some e) ++ rest = 'e' :: ((d :: ds).map Digits.toChar ++ rest) := by
        simp [exponentText, Digits.intText, Digits.text, he, hd]
      rw [htext, List.map_cons, List.cons_append, exponent?_digit hlt, ← List.cons_append, ← List.map_cons, hds]
      simp only [hvalue]
      rw [show (e.natAbs : Int) = e by omega]

theorem fraction?_text {ds : List Nat} (h : ∀ d ∈ ds, d < 10) (e : Option Int) {rest : List Char} (hr : Closed rest) :
    fraction? (fractionText ds ++ (exponentText e ++ rest)) = some (ds, exponentText e ++ rest) := by
  have hdigits : digits (exponentText e ++ rest) = ([], exponentText e ++ rest) := by
    cases e with
    | none => exact digits_closed hr
    | some e => rfl
  cases ds with
  | nil =>
    cases e with
    | none => cases hr <;> rfl
    | some e => rfl
  | cons d ds =>
    have hds := digits_append h hdigits
    simp only [fractionText, List.isEmpty_cons, Bool.false_eq_true, if_false, List.cons_append, fraction?, hds]

/-- The rest of a number behind its sign. -/
def magnitude? (negative : Bool) (cs : List Char) : Option (Numeral × List Char) :=
  let (whole, cs) := digits cs
  if whole.isEmpty || (1 < whole.length && whole.head? == some 0) then none
  else do
    let (fraction, cs) ← fraction? cs
    let (exponent, cs) ← exponent? cs
    some (⟨negative, whole, fraction, exponent⟩, cs)

theorem numeral?_minus (cs : List Char) : numeral? ('-' :: cs) = magnitude? true cs := rfl

theorem numeral?_of_ne {c : Char} (h : c ≠ '-') (cs : List Char) : numeral? (c :: cs) = magnitude? false (c :: cs) := by
  unfold numeral?
  split
  next negative rest heq =>
    split at heq
    next hsign => exact absurd (List.cons.inj hsign).1 h
    next =>
      cases heq
      rfl

theorem numeral?_text {n : Numeral} (h : n.Proper) {rest : List Char} (hr : Closed rest) :
    numeral? (n.text ++ rest) = some (n, rest) := by
  have htail : digits (fractionText n.fraction ++ (exponentText n.exponent ++ rest)) =
      ([], fractionText n.fraction ++ (exponentText n.exponent ++ rest)) := by
    cases hf : n.fraction with
    | cons d ds => rfl
    | nil =>
      cases n.exponent with
      | none => exact digits_closed hr
      | some e => rfl
  have hwhole := digits_append h.whole_lt htail
  have hfraction := fraction?_text h.fraction_lt n.exponent hr
  have hexponent := exponent?_text n.exponent hr
  obtain ⟨d, ds, hd⟩ := List.exists_cons_of_ne_nil h.whole_ne
  have hlt : d < 10 := h.whole_lt d (hd ▸ List.mem_cons_self ..)
  have hlead : (n.whole.isEmpty || (1 < n.whole.length && n.whole.head? == some 0)) = false := by
    simpa [h.whole_ne] using h.no_zero
  have htext : n.text ++ rest = (if n.negative then ['-'] else []) ++ (n.whole.map Digits.toChar ++
      (fractionText n.fraction ++ (exponentText n.exponent ++ rest))) := by
    simp only [Numeral.text, fractionText, List.append_assoc]
    cases n.exponent <;> rfl
  have hmagnitude : magnitude? n.negative (n.whole.map Digits.toChar ++
      (fractionText n.fraction ++ (exponentText n.exponent ++ rest))) = some (n, rest) := by
    simp only [magnitude?, hwhole, hlead, Bool.false_eq_true, if_false, hfraction, hexponent, Option.bind_eq_bind,
      Option.bind_some]
  rw [htext]
  cases hn : n.negative with
  | true =>
    rw [hn] at hmagnitude
    exact (numeral?_minus _).trans hmagnitude
  | false =>
    rw [hn, hd, List.map_cons, List.cons_append] at hmagnitude
    rw [hd, List.map_cons, List.cons_append]
    have hsign : Digits.toChar d ≠ '-' := by interval_cases d <;> decide
    exact (numeral?_of_ne hsign _).trans hmagnitude

end Json
end MarketMinutes
