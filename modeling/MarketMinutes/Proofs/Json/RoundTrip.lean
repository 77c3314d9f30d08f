import MarketMinutes.JsonLines
import MarketMinutes.Proofs.Json.Literal
import MarketMinutes.Proofs.Json.Numeral
import MarketMinutes.Proofs.Text.Lines

/-!
# Trees read back

Every tree comes back from its text, with its numbers digit by digit, its
texts, the order of its members and names that come twice. The text is one
line without control characters.
-/

namespace MarketMinutes.Json

mutual
/-- All numbers are such as JSON can write. -/
def Proper : Json → Prop
  | .null => True
  | .bool _ => True
  | .number n => n.Proper
  | .string _ => True
  | .array items => ProperItems items
  | .object members => ProperMembers members

def ProperItems : List Json → Prop
  | [] => True
  | j :: js => j.Proper ∧ ProperItems js

def ProperMembers : List (Literal × Json) → Prop
  | [] => True
  | (_, j) :: ms => j.Proper ∧ ProperMembers ms
end

def itemsText (js : List Json) : List Char :=
  (itemPieces js).flatten

def membersText (ms : List (Literal × Json)) : List Char :=
  (memberPieces ms).flatten

def literalText (l : Literal) : List Char :=
  (literalPieces l).flatten

theorem text_array (js : List Json) : (array js).text = '[' :: (itemsText js ++ [']']) := by
  simp [text, pieces, itemsText]

theorem text_object (ms : List (Literal × Json)) : (object ms).text = '\x7b' :: (membersText ms ++ ['\x7d']) := by
  simp [text, pieces, membersText]

theorem itemsText_cons (j : Json) (js : List Json) :
    itemsText (j :: js) = j.text ++ if js.isEmpty then [] else ',' :: itemsText js := by
  cases js <;> simp [itemsText, itemPieces, text]

theorem membersText_cons (l : Literal) (j : Json) (ms : List (Literal × Json)) :
    membersText ((l, j) :: ms) =
      literalText l ++ ':' :: (j.text ++ if ms.isEmpty then [] else ',' :: membersText ms) := by
  cases ms <;> simp [membersText, memberPieces, literalText, text]

theorem skipGaps_cons {c : Char} (h : isGap c = false) (cs : List Char) : skipGaps (c :: cs) = c :: cs :=
  List.dropWhile_cons_of_neg (by simp [h])

/-- The first character of a value is no blank, and none that ends an array. -/
theorem text_head {j : Json} (h : j.Proper) :
    ∃ c cs, j.text = c :: cs ∧ Text.isBlank c = false ∧ isGap c = false ∧ c ≠ ']' := by
  cases j with
  | null => exact ⟨'n', _, rfl, rfl, rfl, by decide⟩
  | bool b => cases b <;> exact ⟨_, _, rfl, rfl, rfl, by decide⟩
  | number n =>
    obtain ⟨c, cs, htext, hc⟩ := Numeral.text_head h
    refine ⟨c, cs, ?_, ?_⟩
    · simp [text, pieces, htext]
    · rcases hc with rfl | ⟨d, hd, rfl⟩
      · exact ⟨rfl, rfl, by decide⟩
      · interval_cases d <;> exact ⟨rfl, rfl, by decide⟩
  | string l =>
    obtain ⟨body, hbody, -⟩ := literalPieces_spec l
    exact ⟨'"', body, by simp [text, pieces, hbody], rfl, rfl, by decide⟩
  | array js => exact ⟨_, _, text_array js, rfl, rfl, by decide⟩
  | object ms => exact ⟨_, _, text_object ms, rfl, rfl, by decide⟩

theorem itemsText_head {j : Json} (h : j.Proper) (js : List Json) :
    ∃ c cs, itemsText (j :: js) = c :: cs ∧ isGap c = false ∧ c ≠ ']' := by
  obtain ⟨c, cs, htext, -, hg, hc⟩ := text_head h
  exact ⟨c, _, by rw [itemsText_cons, htext, List.cons_append], hg, hc⟩

theorem membersText_head (m : Literal × Json) (ms : List (Literal × Json)) :
    ∃ cs, membersText (m :: ms) = '"' :: cs := by
  obtain ⟨body, hbody, -⟩ := literalPieces_spec m.1
  exact ⟨_, by rw [membersText_cons, literalText, hbody, List.cons_append]⟩

/-- Every other form of a value has a first character of its own. -/
theorem value?_numeral {c : Char} (hc : c = '-' ∨ ∃ d, d < 10 ∧ c = Digits.toChar d) (fuel : Nat) (cs : List Char) :
    value? (fuel + 1) (c :: cs) = (numeral? (c :: cs)).map (Prod.map number id) := by
  rcases hc with rfl | ⟨d, hd, rfl⟩
  · rfl
  · interval_cases d <;> rfl

theorem value?_number {n : Numeral} (h : n.Proper) (fuel : Nat) {rest : List Char} (hr : Closed rest) :
    value? (fuel + 1) (n.text ++ rest) = some (.number n, rest) := by
  have hn := numeral?_text h hr
  obtain ⟨c, cs, htext, hc⟩ := Numeral.text_head h
  rw [htext, List.cons_append] at hn ⊢
  rw [value?_numeral hc, hn]
  rfl

theorem value?_string (l : Literal) (fuel : Nat) (rest : List Char) :
    value? (fuel + 1) ((string l).text ++ rest) = some (.string l, rest) := by
  obtain ⟨body, hbody, hl, -⟩ := literalPieces_spec l
  have htext : (string l).text ++ rest = '"' :: (body ++ rest) := by
    simp [text, pieces, hbody]
  have hstep : value? (fuel + 1) ('"' :: (body ++ rest)) =
      (literal? (body ++ rest)).map (Prod.map string id) := rfl
  rw [htext, hstep, hl]
  rfl

theorem value?_array {fuel : Nat} {c : Char} {cs : List Char} (hg : isGap c = false) (hc : c ≠ ']') :
    value? (fuel + 1) ('[' :: c :: cs) = (items? fuel (c :: cs)).map (Prod.map array id) := by
  unfold value?
  simp only [show skipGaps ('[' :: c :: cs) = '[' :: c :: cs from rfl, skipGaps_cons hg]
  split
  next heq => exact absurd (List.cons.inj heq).1 hc
  next => rfl

theorem value?_object (fuel : Nat) (cs : List Char) :
    value? (fuel + 1) ('\x7b' :: '"' :: cs) = (members? fuel ('"' :: cs)).map (Prod.map object id) :=
  rfl

theorem items?_last {fuel : Nat} {j : Json} {cs left : List Char} (hj : value? fuel cs = some (j, ']' :: left)) :
    items? (fuel + 1) cs = some ([j], left) := by
  rw [items?, hj]
  rfl

theorem items?_more {fuel : Nat} {j : Json} {js : List Json} {cs rest left : List Char}
    (hj : value? fuel cs = some (j, ',' :: rest)) (hjs : items? fuel rest = some (js, left)) :
    items? (fuel + 1) cs = some (j :: js, left) := by
  rw [items?, hj]
  show (items? fuel rest).bind _ = _
  rw [hjs]
  rfl

theorem members?_last {fuel : Nat} {l : Literal} {j : Json} {cs left : List Char}
    (hj : value? fuel cs = some (j, '\x7d' :: left)) :
    members? (fuel + 1) (literalText l ++ ':' :: cs) = some ([(l, j)], left) := by
  obtain ⟨body, hbody, hl, -⟩ := literalPieces_spec l
  rw [literalText, hbody, List.cons_append, members?]
  show (literal? (body ++ ':' :: cs)).bind _ = _
  rw [hl]
  show (value? fuel cs).bind _ = _
  rw [hj]
  rfl

theorem members?_more {fuel : Nat} {l : Literal} {j : Json} {ms : List (Literal × Json)} {cs rest left : List Char}
    (hj : value? fuel cs = some (j, ',' :: rest)) (hms : members? fuel rest = some (ms, left)) :
    members? (fuel + 1) (literalText l ++ ':' :: cs) = some ((l, j) :: ms, left) := by
  obtain ⟨body, hbody, hl, -⟩ := literalPieces_spec l
  rw [literalText, hbody, List.cons_append, members?]
  show (literal? (body ++ ':' :: cs)).bind _ = _
  rw [hl]
  show (value? fuel cs).bind _ = _
  rw [hj]
  show (members? fuel rest).bind _ = _
  rw [hms]
  rfl

-- Each call below a bracket has one less to go on, and has the text without that bracket.
mutual
theorem value?_text (j : Json) (h : j.Proper) (fuel : Nat) (hf : j.text.length ≤ fuel) {rest : List Char}
    (hr : Closed rest) : value? fuel (j.text ++ rest) = some (j, rest) := by
  obtain ⟨c, cs, htext, -⟩ := text_head h
  obtain ⟨fuel, rfl⟩ : ∃ n, fuel = n + 1 := Nat.exists_eq_succ_of_ne_zero (by rw [htext] at hf; simp at hf; omega)
  cases j with
  | null => rfl
  | bool b => cases b <;> rfl
  | number n =>
    have htext : (number n).text = n.text := by simp [text, pieces]
    rw [htext]
    exact value?_number h fuel hr
  | string l => exact value?_string l fuel rest
  | array js =>
    rw [text_array] at hf ⊢
    cases js with
    | nil => rfl
    | cons j js =>
      have hitems := items?_text (j :: js) h (List.cons_ne_nil j js) fuel (by simp at hf; omega) rest
      obtain ⟨c, cs, hhead, hg, hc⟩ := itemsText_head h.1 js
      rw [hhead, List.cons_append] at hitems
      rw [hhead, List.cons_append, List.cons_append, List.cons_append, List.append_assoc, List.singleton_append,
        value?_array hg hc, hitems]
      rfl
  | object ms =>
    rw [text_object] at hf ⊢
    cases ms with
    | nil => rfl
    | cons m ms =>
      have hmembers := members?_text (m :: ms) h (List.cons_ne_nil m ms) fuel (by simp at hf; omega) rest
      obtain ⟨cs, hhead⟩ := membersText_head m ms
      rw [hhead, List.cons_append] at hmembers
      rw [hhead, List.cons_append, List.cons_append, List.cons_append, List.append_assoc, List.singleton_append,
        value?_object, hmembers]
      rfl

theorem items?_text (js : List Json) (h : ProperItems js) (hne : js ≠ []) (fuel : Nat)
    (hf : (itemsText js).length + 1 ≤ fuel) (rest : List Char) :
    items? fuel (itemsText js ++ ']' :: rest) = some (js, rest) := by
  obtain ⟨fuel, rfl⟩ : ∃ n, fuel = n + 1 := Nat.exists_eq_succ_of_ne_zero (by omega)
  match js, hne with
  | [j], _ =>
    have hj := value?_text j h.1 fuel (by rw [itemsText_cons] at hf; simp at hf; omega) (.bracket rest)
    have htext : itemsText [j] ++ ']' :: rest = j.text ++ ']' :: rest := by simp [itemsText_cons]
    rw [htext]
    exact items?_last hj
  | j :: k :: js, _ =>
    have hj := value?_text j h.1 fuel (by rw [itemsText_cons] at hf; simp at hf; omega)
      (.comma (itemsText (k :: js) ++ ']' :: rest))
    have hjs := items?_text (k :: js) h.2 (List.cons_ne_nil k js) fuel
      (by rw [itemsText_cons] at hf; simp at hf; omega) rest
    have htext : itemsText (j :: k :: js) ++ ']' :: rest = j.text ++ ',' :: (itemsText (k :: js) ++ ']' :: rest) := by
      rw [itemsText_cons]
      simp
    rw [htext]
    exact items?_more hj hjs

theorem members?_text (ms : List (Literal × Json)) (h : ProperMembers ms) (hne : ms ≠ []) (fuel : Nat)
    (hf : (membersText ms).length + 1 ≤ fuel) (rest : List Char) :
    members? fuel (membersText ms ++ '\x7d' :: rest) = some (ms, rest) := by
  obtain ⟨fuel, rfl⟩ : ∃ n, fuel = n + 1 := Nat.exists_eq_succ_of_ne_zero (by omega)
  match ms, hne with
  | [(l, j)], _ =>
    have hj := value?_text j h.1 fuel (by rw [membersText_cons] at hf; simp at hf; omega) (.brace rest)
    have htext : membersText [(l, j)] ++ '\x7d' :: rest = literalText l ++ ':' :: (j.text ++ '\x7d' :: rest) := by
      simp [membersText_cons]
    rw [htext]
    exact members?_last hj
  | (l, j) :: m :: ms, _ =>
    have hj := value?_text j h.1 fuel (by rw [membersText_cons] at hf; simp at hf; omega)
      (.comma (membersText (m :: ms) ++ '\x7d' :: rest))
    have hms := members?_text (m :: ms) h.2 (List.cons_ne_nil m ms) fuel
      (by rw [membersText_cons] at hf; simp at hf; omega) rest
    have htext : membersText ((l, j) :: m :: ms) ++ '\x7d' :: rest =
        literalText l ++ ':' :: (j.text ++ ',' :: (membersText (m :: ms) ++ '\x7d' :: rest)) := by
      rw [membersText_cons]
      simp
    rw [htext]
    exact members?_more hj hms
end

theorem parse?_render {j : Json} (h : j.Proper) : parse? j.render = some j := by
  have hj := value?_text j h (j.text.length + 1) (Nat.le_succ _) .nil
  rw [List.append_nil] at hj
  simp only [parse?, render, String.toList_ofList, hj]
  rfl

/-! ## One line -/

mutual
theorem printable_text (j : Json) (h : j.Proper) : ∀ c ∈ j.text, 0x20 ≤ c.toNat := by
  cases j with
  | null => simp [text, pieces]
  | bool b => cases b <;> simp [text, pieces]
  | number n =>
    have htext : (number n).text = n.text := by simp [text, pieces]
    rw [htext]
    exact Numeral.printable_text h
  | string l =>
    obtain ⟨body, hbody, -, hprintable⟩ := literalPieces_spec l
    have htext : (string l).text = '"' :: body := by simp [text, pieces, hbody]
    rw [htext]
    exact List.forall_mem_cons.mpr ⟨by decide, hprintable⟩
  | array js =>
    rw [text_array]
    exact List.forall_mem_cons.mpr ⟨by decide, List.forall_mem_append.mpr ⟨printable_itemsText js h, by simp⟩⟩
  | object ms =>
    rw [text_object]
    exact List.forall_mem_cons.mpr ⟨by decide, List.forall_mem_append.mpr ⟨printable_membersText ms h, by simp⟩⟩

theorem printable_itemsText (js : List Json) (h : ProperItems js) : ∀ c ∈ itemsText js, 0x20 ≤ c.toNat := by
  match js with
  | [] => exact fun c hc => nomatch hc
  | j :: js =>
    rw [itemsText_cons]
    refine List.forall_mem_append.mpr ⟨printable_text j h.1, ?_⟩
    split
    · exact fun c hc => nomatch hc
    · exact List.forall_mem_cons.mpr ⟨by decide, printable_itemsText js h.2⟩

theorem printable_membersText (ms : List (Literal × Json)) (h : ProperMembers ms) :
    ∀ c ∈ membersText ms, 0x20 ≤ c.toNat := by
  match ms with
  | [] => exact fun c hc => nomatch hc
  | (l, j) :: ms =>
    obtain ⟨body, hbody, -, hprintable⟩ := literalPieces_spec l
    rw [membersText_cons, literalText, hbody]
    refine List.forall_mem_append.mpr ⟨List.forall_mem_cons.mpr ⟨by decide, hprintable⟩,
      List.forall_mem_cons.mpr ⟨by decide, List.forall_mem_append.mpr ⟨printable_text j h.1, ?_⟩⟩⟩
    split
    · exact fun c hc => nomatch hc
    · exact List.forall_mem_cons.mpr ⟨by decide, printable_membersText ms h.2⟩
end

theorem not_blank_render {j : Json} (h : j.Proper) : Text.allBlank j.render = false := by
  obtain ⟨c, cs, htext, hblank, -⟩ := text_head h
  simp [Text.allBlank, render, htext, hblank]

theorem newline_not_mem_render {j : Json} (h : j.Proper) : Bytes.newline ∉ Bytes.ofText j.render :=
  Bytes.newline_not_mem_ofText fun hc => absurd (printable_text j h _ hc) (by decide)

theorem carriageReturn_not_mem_render {j : Json} (h : j.Proper) : Bytes.carriageReturn ∉ Bytes.ofText j.render :=
  Bytes.carriageReturn_not_mem_ofText fun hc => absurd (printable_text j h _ hc) (by decide)

theorem ofText_render_ne_nil {j : Json} (h : j.Proper) : Bytes.ofText j.render ≠ [] := by
  obtain ⟨c, cs, htext, -⟩ := text_head h
  rw [render, htext]
  exact fun hnil => List.cons_ne_nil c cs (Bytes.ofText_eq_nil_iff.mp hnil)

/-- The line of a tree holds what the tree is read as. -/
theorem ofLine_render {j : Json} (h : j.Proper) {parse : String → Option α} {a : α} (ha : parse j.render = some a) :
    LineContent.ofLine parse (Bytes.ofText j.render) = .value a := by
  unfold LineContent.ofLine
  simp only [Bytes.text?_ofText, not_blank_render h, ha]
  rfl

end MarketMinutes.Json
