import Mathlib.Data.List.TakeWhile
import MarketMinutes.Text.Lines

/-!
# Texts as bytes, and bytes as lines

A text is the bytes of its characters one after another, and a byte below 0x80
is always a character of its own. So a text without a newline is free of
newline bytes, and lines put behind one another fall apart into the same lines.
-/

namespace MarketMinutes.Bytes

/-! ## Bytes of a text -/

theorem ofText_ofList (cs : List Char) : ofText (String.ofList cs) = cs.flatMap String.utf8EncodeChar := by
  unfold ofText
  rw [String.toUTF8_eq_toByteArray, String.toByteArray_ofList, List.utf8Encode]
  simp

theorem ofText_append (xs ys : List Char) :
    ofText (String.ofList (xs ++ ys)) = ofText (String.ofList xs) ++ ofText (String.ofList ys) := by
  rw [ofText_ofList, ofText_ofList, ofText_ofList, List.flatMap_append]

theorem ofText_flatten (xss : List (List Char)) :
    ofText (String.ofList xss.flatten) = (xss.map fun xs => ofText (String.ofList xs)).flatten := by
  induction xss with
  | nil => exact ofText_ofList []
  | cons xs xss ih => rw [List.flatten_cons, ofText_append, ih, List.map_cons, List.flatten_cons]

theorem ofText_eq_nil_iff {cs : List Char} : ofText (String.ofList cs) = [] ↔ cs = [] := by
  rw [ofText_ofList, List.flatMap_eq_nil_iff]
  constructor
  · intro h
    cases cs with
    | nil => rfl
    | cons c cs =>
      have hc := congrArg List.length (h c (List.mem_cons_self ..))
      have hpos := c.utf8Size_pos
      rw [String.length_utf8EncodeChar, List.length_nil] at hc
      omega
  · rintro rfl c hc
    cases hc

theorem text?_ofText (s : String) : text? (ofText s) = some s := by
  have hb : (⟨(ofText s).toArray⟩ : ByteArray) = s.toByteArray := by
    simp [ofText, String.toUTF8_eq_toByteArray]
  unfold text? String.fromUTF8?
  rw [hb, dif_pos s.isValidUTF8]
  rfl

theorem eq_ofText {bytes : Bytes} {s : String} (h : text? bytes = some s) : bytes = ofText s := by
  unfold text? String.fromUTF8? at h
  split at h
  next hvalid =>
    cases h
    rfl
  next => cases h

theorem text?_append {xs ys : Bytes} {s t : String} (hs : text? xs = some s) (ht : text? ys = some t) :
    text? (xs ++ ys) = some (s ++ t) := by
  have happend : ofText (s ++ t) = ofText s ++ ofText t := by
    rw [← String.ofList_toList (s := s), ← String.ofList_toList (s := t), ← String.ofList_append, ofText_append]
  rw [eq_ofText hs, eq_ofText ht, ← happend, text?_ofText]

/-- The bytes of longer characters all have their high bit set. -/
theorem mem_utf8EncodeChar_iff {b : UInt8} (hb : b.toNat < 0x80) {c : Char} :
    b ∈ String.utf8EncodeChar c ↔ c.toNat = b.toNat := by
  have hc : c.val.toNat < 0x110000 := by
    rcases c.valid with h | ⟨-, h⟩ <;> exact Nat.lt_of_lt_of_le h (by decide)
  have hb' : ∀ n, b = UInt8.ofNat n ↔ b.toNat = n % 256 := fun n => by
    rw [← UInt8.toNat_inj, UInt8.toNat_ofNat']
  simp only [String.utf8EncodeChar, Char.toNat]
  split
  · rw [List.mem_singleton, hb']
    omega
  split
  · simp only [List.mem_cons, List.not_mem_nil, or_false, hb']
    omega
  split
  · simp only [List.mem_cons, List.not_mem_nil, or_false, hb']
    omega
  · simp only [List.mem_cons, List.not_mem_nil, or_false, hb']
    omega

theorem newline_not_mem_ofText {cs : List Char} (h : '\n' ∉ cs) : newline ∉ ofText (String.ofList cs) := by
  rw [ofText_ofList, List.mem_flatMap]
  rintro ⟨c, hc, hb⟩
  have hn : c.toNat = ('\n').toNat := (mem_utf8EncodeChar_iff (by decide)).mp hb
  exact h (Char.toNat_inj.mp hn ▸ hc)

theorem carriageReturn_not_mem_ofText {cs : List Char} (h : '\r' ∉ cs) :
    carriageReturn ∉ ofText (String.ofList cs) := by
  rw [ofText_ofList, List.mem_flatMap]
  rintro ⟨c, hc, hb⟩
  have hn : c.toNat = ('\r').toNat := (mem_utf8EncodeChar_iff (by decide)).mp hb
  exact h (Char.toNat_inj.mp hn ▸ hc)

/-! ## Lines -/

theorem dropReturn_of_not_mem {line : Bytes} (h : carriageReturn ∉ line) : dropReturn line = line := by
  unfold dropReturn
  rw [if_neg]
  exact fun hl => h (List.mem_of_getLast? hl)

theorem splitLine_append {line : Bytes} (h : newline ∉ line) (rest : Bytes) :
    splitLine (line ++ newline :: rest) = (dropReturn line, rest) := by
  have hp : ∀ b ∈ line, (b != newline) = true := fun b hb => by
    rw [bne_iff_ne]
    exact fun hn => h (hn ▸ hb)
  have hd : (line ++ newline :: rest).dropWhile (· != newline) = newline :: rest := by
    rw [List.dropWhile_append_of_pos hp, List.dropWhile_cons_of_neg (by simp)]
  have ht : (line ++ newline :: rest).takeWhile (· != newline) = line := by
    rw [List.takeWhile_append_of_pos hp, List.takeWhile_cons_of_neg (by simp), List.append_nil]
  unfold splitLine
  rw [hd, ht]

theorem splitLine_of_not_mem {line : Bytes} (h : newline ∉ line) : splitLine line = (line, []) := by
  have hd : line.dropWhile (· != newline) = [] := by
    rw [List.dropWhile_eq_nil_iff]
    intro b hb
    rw [bne_iff_ne]
    exact fun hn => h (hn ▸ hb)
  unfold splitLine
  rw [hd]

theorem line_cases (bytes : Bytes) :
    bytes = [] ∨ (bytes ≠ [] ∧ newline ∉ bytes) ∨ ∃ line rest, newline ∉ line ∧ bytes = line ++ newline :: rest := by
  by_cases hn : newline ∈ bytes
  · obtain ⟨line, rest, hb, hl⟩ := List.eq_append_cons_of_mem hn
    exact .inr (.inr ⟨line, rest, hl, hb⟩)
  · by_cases hb : bytes = []
    · exact .inl hb
    · exact .inr (.inl ⟨hb, hn⟩)

@[simp] theorem lines_nil : lines [] = [] := by
  unfold lines
  rw [dif_pos rfl]

theorem lines_append {line : Bytes} (h : newline ∉ line) (rest : Bytes) :
    lines (line ++ newline :: rest) = dropReturn line :: lines rest := by
  rw [lines, dif_neg (by simp)]
  simp only [splitLine_append h]

theorem lines_of_not_mem {line : Bytes} (hl : line ≠ []) (h : newline ∉ line) : lines line = [line] := by
  rw [lines, dif_neg hl]
  simp only [splitLine_of_not_mem h, lines_nil]

theorem lines_flatMap {α : Type} {line : α → Bytes} {xs : List α}
    (h : ∀ x ∈ xs, newline ∉ line x ∧ carriageReturn ∉ line x) :
    lines (xs.flatMap fun x => line x ++ [newline]) = xs.map line := by
  induction xs with
  | nil => simp
  | cons x xs ih =>
    obtain ⟨⟨hn, hr⟩, hxs⟩ := List.forall_mem_cons.mp h
    rw [List.flatMap_cons, List.append_assoc, List.singleton_append, lines_append hn, dropReturn_of_not_mem hr,
      ih hxs, List.map_cons]

theorem lines_intercalate {α : Type} {line : α → Bytes} {xs : List α} (hne : xs ≠ [])
    (h : ∀ x ∈ xs, line x ≠ [] ∧ newline ∉ line x ∧ carriageReturn ∉ line x) (ended : Bool) :
    lines ([newline].intercalate (xs.map line) ++ if ended then [newline] else []) = xs.map line := by
  induction xs with
  | nil => exact absurd rfl hne
  | cons x xs ih =>
    obtain ⟨⟨hx, hn, hr⟩, hxs⟩ := List.forall_mem_cons.mp h
    cases xs with
    | nil =>
      rw [List.map_singleton, List.intercalate_singleton]
      cases ended with
      | false => rw [if_neg Bool.false_ne_true, List.append_nil, lines_of_not_mem hx hn]
      | true => rw [if_pos rfl, lines_append hn, lines_nil, dropReturn_of_not_mem hr]
    | cons y ys =>
      have hrest := ih (List.cons_ne_nil y ys) hxs
      rw [List.map_cons] at hrest
      rw [List.map_cons, List.map_cons, List.intercalate_cons_cons, List.append_assoc, List.append_assoc,
        List.singleton_append, lines_append hn, dropReturn_of_not_mem hr, hrest]

theorem take_line (line rest : Bytes) :
    (line ++ newline :: rest).take ((line ++ newline :: rest).length - rest.length) = line ++ [newline] := by
  rw [List.append_cons, List.length_append, Nat.add_sub_cancel, List.take_left]

/-! ## Lines taken out -/

/-- The bytes without the lines that are picked, each taken out with its end. -/
def withoutLines (pick : Bytes → Bool) (bytes : Bytes) : Bytes :=
  if h : bytes = [] then []
  else
    have := length_splitLine_lt h
    let rest := (splitLine bytes).2
    (if pick (splitLine bytes).1 then [] else bytes.take (bytes.length - rest.length)) ++ withoutLines pick rest
termination_by bytes.length

theorem lines_withoutLines (pick : Bytes → Bool) (bytes : Bytes) :
    lines (withoutLines pick bytes) = (lines bytes).filter (!pick ·) := by
  induction hn : bytes.length using Nat.strong_induction_on generalizing bytes with
  | _ n ih =>
    rcases line_cases bytes with rfl | ⟨hb, hl⟩ | ⟨line, rest, hl, rfl⟩
    · rw [withoutLines, dif_pos rfl, lines_nil, List.filter_nil]
    · have hnil : withoutLines pick [] = [] := by rw [withoutLines, dif_pos rfl]
      rw [withoutLines, dif_neg hb]
      simp only [splitLine_of_not_mem hl, hnil, List.append_nil, List.length_nil, Nat.sub_zero, List.take_length]
      rw [lines_of_not_mem hb hl]
      by_cases hp : pick bytes
      · simp [hp]
      · simp [hp, lines_of_not_mem hb hl]
    · have hne : line ++ newline :: rest ≠ [] := by simp
      have hrest := ih rest.length (by rw [← hn]; simp; omega) rest rfl
      rw [withoutLines, dif_neg hne]
      simp only [splitLine_append hl, take_line]
      rw [lines_append hl]
      by_cases hp : pick (dropReturn line)
      · simp [hp, hrest]
      · simp [hp, lines_append hl, hrest]

/-! ## The first lines -/

end MarketMinutes.Bytes
