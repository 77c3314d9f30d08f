import MarketMinutes.Decimal.Reader
import MarketMinutes.Proofs.Decimal.Number
import MarketMinutes.Proofs.Text.Digits

/-!
# Decimals read back

Where no digit is one too many, a reader takes character after character and
neither rounds nor gives up. So a decimal in writing is read as itself, except
that a zero comes back without its sign.
-/

namespace MarketMinutes.Decimal

/-- The decimal with no sign on a zero. -/
def unsigned (d : Decimal) : Decimal :=
  { d with negative := d.isNegative }

/-! ## Plain texts -/

namespace Reading

/-- One more character of a plain text: a digit, or else the point. -/
def take (r : Reading) (c : Char) : Reading :=
  match Digits.ofChar? c with
  | some d => r.push d
  | none => { r with pastPoint := true }

/-- Digits, and a point if none was read. -/
def Plain (r : Reading) : List Char → Prop
  | [] => True
  | c :: cs => ((Digits.ofChar? c).isSome ∨ c = '.' ∧ r.pastPoint = false) ∧ (r.take c).Plain cs

theorem take_of_digit {c : Char} {d : Nat} (h : Digits.ofChar? c = some d) (r : Reading) : r.take c = r.push d := by
  simp only [take, h]

theorem take_point (r : Reading) : r.take '.' = { r with pastPoint := true } := rfl

theorem mantissa_le_take (r : Reading) (c : Char) : r.mantissa ≤ (r.take c).mantissa := by
  unfold take
  cases Digits.ofChar? c with
  | none => exact Nat.le_refl _
  | some d =>
    simp only [push]
    omega

theorem mantissa_le_foldl (r : Reading) (cs : List Char) : r.mantissa ≤ (cs.foldl take r).mantissa := by
  induction cs generalizing r with
  | nil => exact Nat.le_refl _
  | cons c cs ih => exact Nat.le_trans (mantissa_le_take r c) (ih _)

theorem scale_le_take (r : Reading) (c : Char) : r.scale ≤ (r.take c).scale := by
  unfold take
  cases Digits.ofChar? c with
  | none => exact Nat.le_refl _
  | some d =>
    simp only [push]
    split <;> omega

theorem scale_le_foldl (r : Reading) (cs : List Char) : r.scale ≤ (cs.foldl take r).scale := by
  induction cs generalizing r with
  | nil => exact Nat.le_refl _
  | cons c cs ih => exact Nat.le_trans (scale_le_take r c) (ih _)

/-- A full reading has come to the end of a text that fits. -/
theorem eq_nil_of_full {r : Reading} (hf : r.full = true) {cs : List Char} (hp : r.Plain cs)
    (hs : (cs.foldl take r).scale ≤ maxScale) : cs = [] := by
  simp only [full, Bool.and_eq_true, decide_eq_true_eq] at hf
  cases cs with
  | nil => rfl
  | cons c cs =>
    rcases hp.1 with hc | ⟨-, hc⟩
    · obtain ⟨d, hd⟩ := Option.isSome_iff_exists.mp hc
      have hpush : (r.push d).scale = r.scale + 1 := by simp [push, hf.1]
      have hle := scale_le_foldl (r.push d) cs
      rw [List.foldl_cons, take_of_digit hd] at hs
      omega
    · rw [hf.1] at hc
      cases hc

theorem wide_eq {r : Reading} {cs : List Char} (hp : r.Plain cs) (hm : (cs.foldl take r).mantissa < bound)
    (hs : (cs.foldl take r).scale ≤ maxScale) : r.wide cs = some (cs.foldl take r) := by
  induction cs generalizing r with
  | nil => rfl
  | cons c cs ih =>
    rw [List.foldl_cons] at hm hs ⊢
    have hrest := ih hp.2 hm hs
    rcases hp.1 with hc | ⟨rfl, hpoint⟩
    · obtain ⟨d, hd⟩ := Option.isSome_iff_exists.mp hc
      have hnext := hp.2
      rw [take_of_digit hd] at hm hs hrest hnext ⊢
      have hbound : ¬ bound ≤ (r.push d).mantissa := Nat.not_le.mpr (Nat.lt_of_le_of_lt (mantissa_le_foldl _ cs) hm)
      simp only [wide, hd, if_neg hbound]
      -- At full scale the rest is not read; but then there is none.
      by_cases hf : (r.push d).full = true
      · rw [if_pos hf, eq_nil_of_full hf hnext hs]
        rfl
      · rw [if_neg hf, hrest]
    · rw [take_point] at hrest ⊢
      have hd : Digits.ofChar? '.' = none := rfl
      simp only [wide, hd, hpoint]
      exact hrest

theorem scan_eq {r : Reading} {cs : List Char} (hp : r.Plain cs) (hm : (cs.foldl take r).mantissa < bound)
    (hs : (cs.foldl take r).scale ≤ maxScale) (hd : (cs.foldl take r).anyDigit = true) (long : Bool) :
    r.scan long cs = some (cs.foldl take r) := by
  induction cs generalizing r with
  | nil => exact if_pos hd
  | cons c cs ih =>
    rw [List.foldl_cons] at hm hs hd ⊢
    have hrest := ih hp.2 hm hs hd
    rcases hp.1 with hc | ⟨rfl, hpoint⟩
    · obtain ⟨d, hc⟩ := Option.isSome_iff_exists.mp hc
      have hnext := hp.2
      rw [take_of_digit hc] at hm hs hrest hnext ⊢
      have hend : ¬ (long && !cs.isEmpty && (r.push d).full) = true := fun h => by
        simp only [Bool.and_eq_true, Bool.not_eq_true', List.isEmpty_eq_false_iff] at h
        exact h.1.2 (eq_nil_of_full h.2 hnext hs)
      simp only [scan, hc, if_neg hend]
      split
      · exact wide_eq hnext hm hs
      · exact hrest
    · rw [take_point] at hrest ⊢
      have hc : Digits.ofChar? '.' = none := rfl
      simp only [scan, hc, hpoint]
      exact hrest

/-! ## Runs of digits -/

def pushAll (r : Reading) (ds : List Nat) : Reading :=
  { mantissa := Digits.valueFrom r.mantissa ds
    scale := if r.pastPoint then r.scale + ds.length else r.scale
    pastPoint := r.pastPoint
    anyDigit := r.anyDigit || !ds.isEmpty }

theorem pushAll_push (r : Reading) (d : Nat) (ds : List Nat) : (r.push d).pushAll ds = r.pushAll (d :: ds) := by
  cases hp : r.pastPoint <;> simp [pushAll, push, hp, Digits.valueFrom_cons, Nat.add_assoc, Nat.add_comm 1]

theorem pushAll_nil (r : Reading) : r.pushAll [] = r := by
  cases r
  simp [pushAll, Digits.valueFrom]

theorem foldl_digits {ds : List Nat} (h : ∀ d ∈ ds, d < 10) (r : Reading) (cs : List Char) :
    (ds.map Digits.toChar ++ cs).foldl take r = cs.foldl take (r.pushAll ds) := by
  induction ds generalizing r with
  | nil => rw [pushAll_nil, List.map_nil, List.nil_append]
  | cons d ds ih =>
    obtain ⟨hd, hds⟩ := List.forall_mem_cons.mp h
    rw [List.map_cons, List.cons_append, List.foldl_cons, take_of_digit (Digits.ofChar?_toChar hd), ih hds, pushAll_push]

theorem plain_digits {ds : List Nat} (h : ∀ d ∈ ds, d < 10) {r : Reading} {cs : List Char}
    (hcs : (r.pushAll ds).Plain cs) : r.Plain (ds.map Digits.toChar ++ cs) := by
  induction ds generalizing r with
  | nil => rwa [pushAll_nil] at hcs
  | cons d ds ih =>
    obtain ⟨hd, hds⟩ := List.forall_mem_cons.mp h
    have hc := Digits.ofChar?_toChar hd
    refine ⟨.inl (Option.isSome_of_eq_some hc), ?_⟩
    rw [take_of_digit hc]
    exact ih hds (by rwa [pushAll_push])

theorem scan_digits {ds : List Nat} (h : ∀ d ∈ ds, d < 10) (hne : ds ≠ []) (hv : Digits.value ds < bound) (long : Bool) :
    start.scan long (ds.map Digits.toChar) = some (start.pushAll ds) := by
  have hfold := foldl_digits h start []
  have hplain : start.Plain (ds.map Digits.toChar ++ []) := plain_digits h trivial
  rw [List.append_nil] at hfold hplain
  refine (scan_eq hplain ?_ ?_ ?_ long).trans (congrArg some hfold)
  · rw [hfold]
    exact hv
  · rw [hfold]
    exact Nat.zero_le _
  · rw [hfold]
    simp [pushAll, hne]

theorem scan_pointed {ws fs : List Nat} (hws : ∀ d ∈ ws, d < 10) (hfs : ∀ d ∈ fs, d < 10) (hne : ws ≠ [])
    (hv : Digits.value (ws ++ fs) < bound) (hl : fs.length ≤ maxScale) (long : Bool) :
    ∃ r, start.scan long (ws.map Digits.toChar ++ '.' :: fs.map Digits.toChar) = some r ∧
      r.mantissa = Digits.value (ws ++ fs) ∧ r.scale = fs.length := by
  let r : Reading := { start.pushAll ws with pastPoint := true }
  have hfold : (ws.map Digits.toChar ++ '.' :: fs.map Digits.toChar).foldl take start = r.pushAll fs := by
    have h := foldl_digits hfs r []
    rw [List.append_nil] at h
    rw [foldl_digits hws, List.foldl_cons, take_point]
    exact h
  have hplain : start.Plain (ws.map Digits.toChar ++ '.' :: fs.map Digits.toChar) := by
    have h : r.Plain (fs.map Digits.toChar ++ []) := plain_digits hfs trivial
    rw [List.append_nil] at h
    exact plain_digits hws ⟨.inr ⟨rfl, rfl⟩, h⟩
  have hm : (r.pushAll fs).mantissa = Digits.value (ws ++ fs) := (Digits.valueFrom_append 0 ws fs).symm
  have hs : (r.pushAll fs).scale = fs.length := Nat.zero_add _
  refine ⟨r.pushAll fs, (scan_eq hplain ?_ ?_ ?_ long).trans (congrArg some hfold), hm, hs⟩
  · rwa [hfold, hm]
  · rwa [hfold, hs]
  · rw [hfold]
    simp [r, pushAll, hne]

end Reading

/-! ## Whole decimals -/

theorem splitSign_of_digit {c : Char} {d : Nat} (h : Digits.ofChar? c = some d) (cs : List Char) :
    splitSign (c :: cs) = (false, c :: cs) := by
  have hminus : c ≠ '-' := fun hc => by rw [hc] at h; cases h
  have hplus : c ≠ '+' := fun hc => by rw [hc] at h; cases h
  unfold splitSign
  split
  next heq => exact absurd (List.cons.inj heq).1 hminus
  next heq => exact absurd (List.cons.inj heq).1 hplus
  next => rfl

theorem pointed_append (ws : List Nat) {fs : List Nat} (h : fs ≠ []) :
    pointed ((ws ++ fs).map Digits.toChar) fs.length = ws.map Digits.toChar ++ '.' :: fs.map Digits.toChar := by
  have hlength : (ws.map Digits.toChar ++ fs.map Digits.toChar).length - fs.length = (ws.map Digits.toChar).length := by
    simp
  unfold pointed
  rw [if_neg (fun h' => h (List.length_eq_zero_iff.mp h')), List.map_append]
  simp only [hlength, List.take_left, List.drop_left]

/-- The digits of a decimal begin with a digit and are read as its mantissa and scale. -/
theorem scan_body (d : Decimal) (long : Bool) :
    ∃ c cs r, pointed (Digits.padded (d.scale + 1) d.mantissa) d.scale = Digits.toChar c :: cs ∧ c < 10 ∧
      Reading.start.scan long (Digits.toChar c :: cs) = some r ∧ r.mantissa = d.mantissa ∧ r.scale = d.scale := by
  have hlength := Digits.le_length_paddedDigits (d.scale + 1) d.mantissa
  have hlt : ∀ k ∈ Digits.paddedDigits (d.scale + 1) d.mantissa, k < 10 := fun k hk => Digits.lt_of_mem_paddedDigits hk
  have hvalue := Digits.value_paddedDigits (d.scale + 1) d.mantissa
  rw [Digits.padded_eq]
  generalize Digits.paddedDigits (d.scale + 1) d.mantissa = ds at hlength hlt hvalue
  have hbound : Digits.value ds < bound := hvalue ▸ d.mantissa_lt
  by_cases hs : d.scale = 0
  · obtain ⟨k, ks, rfl⟩ := List.exists_cons_of_length_pos (show 0 < ds.length by omega)
    have hbody : pointed ((k :: ks).map Digits.toChar) d.scale = Digits.toChar k :: ks.map Digits.toChar := if_pos hs
    exact ⟨k, _, _, hbody, hlt k (List.mem_cons_self ..), Reading.scan_digits hlt (List.cons_ne_nil k ks) hbound long,
      hvalue, hs.symm⟩
  · obtain ⟨ws, fs, rfl, hfs⟩ : ∃ ws fs, ds = ws ++ fs ∧ fs.length = d.scale := by
      refine ⟨_, _, (List.take_append_drop (ds.length - d.scale) ds).symm, ?_⟩
      rw [List.length_drop]
      omega
    rw [List.length_append] at hlength
    obtain ⟨k, ks, rfl⟩ := List.exists_cons_of_length_pos (show 0 < ws.length by omega)
    obtain ⟨hws, hfs'⟩ := List.forall_mem_append.mp hlt
    obtain ⟨r, hr, hm, hrs⟩ := Reading.scan_pointed hws hfs' (List.cons_ne_nil k ks) hbound (hfs ▸ d.scale_le) long
    have hne : fs ≠ [] := fun h => hs (by rw [← hfs, h, List.length_nil])
    have hbody := pointed_append (k :: ks) hne
    rw [hfs] at hbody
    exact ⟨k, _, r, hbody, hws k (List.mem_cons_self ..), hr, hm.trans hvalue, hrs.trans hfs⟩

theorem read?_text (d : Decimal) : read? d.text = some d.unsigned := by
  have hparts : ofSigned? d.negative d.mantissa d.scale = some d.unsigned := by
    unfold ofSigned? ofParts?
    rw [dif_pos ⟨d.mantissa_lt, d.scale_le⟩]
    rfl
  obtain ⟨c, cs, r, hbody, hc, hscan, hm, hs⟩ := scan_body d (Reading.longText ≤ d.text.length)
  have hsplit : splitSign d.text = (d.negative, Digits.toChar c :: cs) := by
    unfold text
    rw [hbody]
    cases d.negative with
    | false => exact splitSign_of_digit (Digits.ofChar?_toChar hc) cs
    | true => rfl
  have hplain : ofPlain? d.text = some d.unsigned := by
    simp only [ofPlain?, hsplit, hscan, hm, hs, hparts]
  rw [read?, hplain, Option.some_or]

/-! ## The sign of a zero -/

theorem unsigned_of_negative {d : Decimal} (h : d.negative = d.isNegative) : d.unsigned = d := by
  unfold unsigned
  rw [← h]

theorem unsigned_of_not_zero {d : Decimal} (h : ¬ d.isZero = true) : d.unsigned = d := by
  apply unsigned_of_negative
  rw [Bool.not_eq_true] at h
  simp [isNegative, h]

theorem unsigned_of_ne_zero {d : Decimal} (h : d.number ≠ 0) : d.unsigned = d :=
  unsigned_of_not_zero (isZero_iff.not.mpr h)

@[simp] theorem isZero_unsigned (d : Decimal) : d.unsigned.isZero = d.isZero := rfl

@[simp] theorem isNegative_unsigned (d : Decimal) : d.unsigned.isNegative = d.isNegative := by
  simp [unsigned, isNegative, isZero]

@[simp] theorem signed_unsigned (d : Decimal) : d.unsigned.signed = d.signed := by
  simp only [signed, unsigned, isNegative, isZero]
  by_cases hz : d.mantissa = 0
  · simp [hz]
  · simp [hz]

@[simp] theorem number_unsigned (d : Decimal) : d.unsigned.number = d.number := by
  simp only [number, signed_unsigned]
  rfl

end MarketMinutes.Decimal
