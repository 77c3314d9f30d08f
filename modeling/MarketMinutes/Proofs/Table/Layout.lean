import MarketMinutes.Proofs.Decimal.Texts
import MarketMinutes.Proofs.Table.LastRecords

/-!
# Lines and fields of a table

A minute is written with a sign and digits, a number with a point besides. So
no field holds a newline, a comma or a quotation mark: a table falls apart into
its lines at the newlines and a line into its fields at the commas, and a cell
that is not empty reads back as the number it was written for.
-/

namespace MarketMinutes
namespace Table

/-! ## Characters of a field -/

/-- The characters that minutes and numbers are written with. -/
def IsNumeral (c : Char) : Prop :=
  c = '-' ∨ c = '.' ∨ ∃ k < 10, c = Digits.toChar k

/-- A field with one of these would need quotation marks around it. -/
def special : List Char :=
  [',', '"', '\n', '\r']

theorem IsNumeral.not_special {c : Char} (h : IsNumeral c) : c ∉ special := by
  rcases h with rfl | rfl | ⟨k, hk, rfl⟩
  · decide
  · decide
  · interval_cases k <;> decide

theorem isNumeral_of_mem_intText {n : Int} {c : Char} (h : c ∈ Digits.intText n) : IsNumeral c := by
  rcases List.mem_append.mp h with h | h
  · left
    split at h
    · exact List.mem_singleton.mp h
    · cases h
  · obtain ⟨k, hk, rfl⟩ := List.mem_map.mp h
    exact .inr (.inr ⟨k, Digits.lt_of_mem_ofNat hk, rfl⟩)

theorem isNumeral_of_mem_cell {d : Option Decimal} {c : Char} (h : c ∈ cell d) : IsNumeral c := by
  cases d with
  | none => cases h
  | some d => exact Decimal.mem_text h

/-! ## Cells -/

/-- A cell is empty where there is no number; any other reads back as its number. -/
inductive Denotes : List Char → Option Decimal → Prop
  | empty : Denotes [] none
  | number {cell : List Char} {d e : Decimal} (hread : Decimal.parse? (String.ofList cell) = some e)
    (hnumber : e.number = d.number) : Denotes cell (some d)

theorem denotes_cell (d : Option Decimal) : Denotes (cell d) d := by
  cases d with
  | none => exact .empty
  | some d =>
    have hnumber : d.normalize.unsigned.number = d.number := by rw [Decimal.number_unsigned, Decimal.number_normalize]
    exact .number d.normalize.parse?_toString hnumber

/-- A minute reads back as a whole number without a point. -/
theorem denotes_intText (minute : Int64) :
    ∃ d : Decimal, Denotes (Digits.intText minute.toInt) (some d) ∧ d.number = minute.toInt := by
  have hlow := minute.le_toInt
  have hhigh := minute.toInt_lt
  have hbound : minute.toInt.natAbs < Nat.pow 2 96 := by norm_num; omega
  let d : Decimal := ⟨minute.toInt < 0, minute.toInt.natAbs, 0, hbound, Nat.zero_le _⟩
  have htext : d.text = Digits.intText minute.toInt := by
    have hlength : 1 - (Digits.text minute.toInt.natAbs).length = 0 := by
      have hpos := List.length_pos_iff.mpr (Digits.ofNat_ne_nil minute.toInt.natAbs)
      rw [Digits.text, List.length_map]
      omega
    simp only [Decimal.text, Decimal.pointed, Digits.padded, Digits.intText, d, decide_eq_true_eq, Nat.zero_add,
      hlength, List.replicate_zero, List.nil_append, if_true]
  have hnumber : d.number = minute.toInt := by
    have hsigned : d.signed = minute.toInt := by
      simp only [Decimal.signed, d, decide_eq_true_eq]
      split <;> omega
    rw [Decimal.number, hsigned, pow_zero, div_one]
  have hread : Decimal.parse? (String.ofList (Digits.intText minute.toInt)) = some d.unsigned :=
    htext ▸ d.parse?_toString
  exact ⟨d, .number hread d.number_unsigned, hnumber⟩

theorem Denotes.ne_nil_iff {cell : List Char} {d : Option Decimal} (h : Denotes cell d) :
    cell ≠ [] ↔ d.isSome = true := by
  cases h with
  | empty => simp
  | number hread =>
    refine iff_of_true ?_ rfl
    rintro rfl
    cases hread

/-! ## Fields -/

/-- The fields of the line of a minute. -/
def fields (nearBuckets : Nat) (records : List Record) (minute : Int64) : List (List Char) :=
  Digits.intText minute.toInt :: (values nearBuckets (lastOf? records minute)).map cell

/-- A line that has, between its commas, its minute and the numbers of the last records of the minute. -/
structure IsLineOf (nearBuckets : Nat) (records : List Record) (minute : Int64) (line : List Char) : Prop where
  length : (line.splitOn ',').length = 17
  plain : ∀ field ∈ line.splitOn ',', ∀ c ∈ field, c ∉ special
  leads : ∃ d : Decimal, (line.splitOn ',').head? = some (Digits.intText minute.toInt) ∧
    Denotes (Digits.intText minute.toInt) (some d) ∧ d.number = minute.toInt
  reads : List.Forall₂ Denotes (line.splitOn ',').tail (values nearBuckets (lastOf? records minute))
  quotes : ∀ field ∈ (line.splitOn ',').tail.take 4,
    field ≠ [] ↔ ∃ r ∈ records, r.minute = minute ∧ r.kind = .quotes

variable {nearBuckets : Nat} {records : List Record} {minute : Int64}

theorem length_candleNumbers (c : Option Candle) : (candleNumbers c).length = 4 := by
  cases c <;> rfl

theorem length_numbers (nearBuckets : Nat) (r : Record) : (numbers nearBuckets r).length = width r.kind := by
  cases r with
  | quotes r => rfl
  | trades r =>
    rw [numbers, List.length_append, length_candleNumbers]
    rfl
  | book r => rfl

theorem length_elim_numbers (nearBuckets : Nat) (records : List Record) (minute : Int64) (kind : Kind) :
    ((lastOf? records minute kind).elim (List.replicate (width kind) none) (numbers nearBuckets)).length = width kind := by
  cases h : lastOf? records minute kind with
  | none => exact List.length_replicate
  | some r => rw [Option.elim_some, length_numbers, kind_of_lastOf? h]

theorem length_values (nearBuckets : Nat) (records : List Record) (minute : Int64) :
    (values nearBuckets (lastOf? records minute)).length = 16 := by
  simp only [values, Kind.all, List.flatMap_cons, List.flatMap_nil, List.length_append, length_elim_numbers]
  rfl

theorem quotes_of_mem {field : List Char}
    (h : field ∈ ((values nearBuckets (lastOf? records minute)).map cell).take 4) :
    field ≠ [] ↔ ∃ r ∈ records, r.minute = minute ∧ r.kind = .quotes := by
  have hfour : (values nearBuckets (lastOf? records minute)).take 4 =
      (lastOf? records minute .quotes).elim (List.replicate 4 none) (numbers nearBuckets) :=
    List.take_left' (length_elim_numbers nearBuckets records minute .quotes)
  rw [← List.map_take, hfour] at h
  obtain ⟨d, hd, rfl⟩ := List.mem_map.mp h
  rw [(denotes_cell d).ne_nil_iff, ← isSome_lastOf?_iff]
  cases hlast : lastOf? records minute .quotes with
  | none =>
    rw [hlast] at hd
    rw [List.eq_of_mem_replicate hd]
    rfl
  | some r =>
    rw [hlast] at hd
    have hkind := kind_of_lastOf? hlast
    cases r with
    | quotes r =>
      simp only [Option.elim_some, numbers, candleNumbers, List.mem_cons, List.not_mem_nil, or_false] at hd
      rcases hd with rfl | rfl | rfl | rfl <;> exact Iff.rfl
    | trades r => cases hkind
    | book r => cases hkind

theorem isNumeral_of_mem_fields {field : List Char} (h : field ∈ fields nearBuckets records minute) :
    ∀ c ∈ field, IsNumeral c := by
  intro c hc
  rcases List.mem_cons.mp h with rfl | h
  · exact isNumeral_of_mem_intText hc
  · obtain ⟨d, -, rfl⟩ := List.mem_map.mp h
    exact isNumeral_of_mem_cell hc

theorem isLineOf_fields (nearBuckets : Nat) (records : List Record) (minute : Int64) :
    IsLineOf nearBuckets records minute ([','].intercalate (fields nearBuckets records minute)) := by
  have hplain : ∀ field ∈ fields nearBuckets records minute, ∀ c ∈ field, c ∉ special :=
    fun field hfield c hc => (isNumeral_of_mem_fields hfield c hc).not_special
  have hsplit : ([','].intercalate (fields nearBuckets records minute)).splitOn ',' =
      fields nearBuckets records minute := by
    refine List.splitOn_intercalate ',' (fun field hfield hc => ?_) (List.cons_ne_nil _ _)
    exact hplain field hfield ',' hc (by decide)
  constructor
  all_goals rw [hsplit]
  · rw [fields, List.length_cons, List.length_map, length_values]
  · exact hplain
  · obtain ⟨d, hd, hnumber⟩ := denotes_intText minute
    exact ⟨d, rfl, hd, hnumber⟩
  · rw [fields, List.tail_cons, List.forall₂_map_left_iff, List.forall₂_same]
    exact fun d _ => denotes_cell d
  · intro field hfield
    rw [fields, List.tail_cons] at hfield
    exact quotes_of_mem hfield

/-! ## Lines -/

/-- Lines that are each ended by a newline are found again, with nothing behind the last. -/
theorem splitOn_flatMap {lines : List (List Char)} (h : ∀ line ∈ lines, '\n' ∉ line) :
    (lines.flatMap (· ++ ['\n'])).splitOn '\n' = lines ++ [[]] := by
  induction lines with
  | nil => exact List.splitOn_nil '\n'
  | cons line lines ih =>
    obtain ⟨hline, hlines⟩ := List.forall_mem_cons.mp h
    rw [List.flatMap_cons, List.append_assoc, List.singleton_append, List.splitOn_append_cons_self,
      List.splitOn_eq_singleton hline, ih hlines]
    rfl

theorem newline_not_mem_intercalate {fields : List (List Char)} (h : ∀ field ∈ fields, '\n' ∉ field) :
    '\n' ∉ [','].intercalate fields := by
  induction fields with
  | nil => exact List.not_mem_nil
  | cons field fields ih =>
    obtain ⟨hfield, hfields⟩ := List.forall_mem_cons.mp h
    cases fields with
    | nil => rwa [List.intercalate_singleton]
    | cons next fields =>
      rw [List.intercalate_cons_cons, List.mem_append, List.mem_append, not_or, not_or]
      exact ⟨⟨hfield, by decide⟩, ih hfields⟩

/-- Minute after minute one row more is counted and one line more is written. -/
theorem foldl_writeRow (nearBuckets : Nat) (rows : Rows) (ms : List Int) (w : Written) :
    ms.foldl (writeRow nearBuckets rows) w =
      ⟨w.rows + ms.length,
        w.text ++ String.ofList (ms.flatMap fun m => line (Digits.intText m :: (rows.row m).cells nearBuckets))⟩ := by
  induction ms generalizing w with
  | nil => simp
  | cons m ms ih =>
    rw [List.foldl_cons, ih, List.flatMap_cons, String.ofList_append, List.length_cons, ← String.append_assoc]
    simp only [writeRow, Nat.add_comm, Nat.add_left_comm]

/-- The lines behind the header. -/
def rowLines (nearBuckets : Nat) (records : List Record) : List (List Char) :=
  let rows := Rows.ofRecords records
  rows.minutes.map fun m => [','].intercalate (Digits.intText m :: (rows.row m).cells nearBuckets)

theorem splitOn_write (nearBuckets : Nat) (records : List Record) :
    (write nearBuckets records).text.toList.splitOn '\n' =
      [','].intercalate (header.map String.toList) :: rowLines nearBuckets records ++ [[]] := by
  have htext : (write nearBuckets records).text.toList =
      ([','].intercalate (header.map String.toList) :: rowLines nearBuckets records).flatMap (· ++ ['\n']) := by
    rw [write, foldl_writeRow, ← String.ofList_append, String.toList_ofList, List.flatMap_cons, rowLines,
      List.flatMap_map]
    rfl
  rw [htext, splitOn_flatMap]
  refine List.forall_mem_cons.mpr ⟨newline_not_mem_intercalate (by decide), List.forall_mem_map.mpr fun m hm => ?_⟩
  obtain ⟨minute, rfl⟩ := Rows.exists_minute hm
  rw [row_cells]
  refine newline_not_mem_intercalate fun field (hfield : field ∈ fields nearBuckets records minute) hc => ?_
  exact (isNumeral_of_mem_fields hfield '\n' hc).not_special (by decide)

/-- A table has one line for each minute from the first record to the last behind its header, each with the minute and
sixteen cells. A cell is empty where the last record of its kind has no number for it; any other reads back as that
number. -/
theorem export_writes_line_per_minute (nearBuckets : Nat) (records : List Record) :
    ∃ first n text lines, «export» nearBuckets records none = .ok (n, text) ∧ Spans records first n ∧
      text.toList.splitOn '\n' = [','].intercalate (header.map String.toList) :: lines ++ [[]] ∧ lines.length = n ∧
      ∀ (j : Nat) (line : List Char), lines[j]? = some line →
        ∃ minute : Int64, minute.toInt = first + j ∧ IsLineOf nearBuckets records minute line := by
  obtain ⟨first, n, hspans, hminutes⟩ := Rows.exists_minutes records
  have hlength : (Rows.ofRecords records).minutes.length = n := by rw [hminutes, List.length_map, List.length_range]
  have hrows : (write nearBuckets records).rows = n := by rw [write, foldl_writeRow, hlength, Nat.zero_add]
  refine ⟨first, n, (write nearBuckets records).text, rowLines nearBuckets records, ?_, hspans, ?_, ?_, ?_⟩
  · exact congrArg (fun k => Except.ok (k, (write nearBuckets records).text)) hrows
  · exact splitOn_write nearBuckets records
  · rw [rowLines, List.length_map, hlength]
  · intro j line hline
    rw [rowLines, List.getElem?_map, Option.map_eq_some_iff] at hline
    obtain ⟨m, hm, rfl⟩ := hline
    obtain ⟨minute, rfl⟩ := Rows.exists_minute (List.mem_of_getElem? hm)
    rw [row_cells]
    refine ⟨minute, ?_, isLineOf_fields nearBuckets records minute⟩
    rw [hminutes, List.getElem?_map, Option.map_eq_some_iff] at hm
    obtain ⟨i, hi, hminute⟩ := hm
    obtain ⟨_, rfl⟩ := List.getElem?_eq_some_iff.mp hi
    rw [← hminute, List.getElem_range]

/-- The second quotes of the first minute and no trades' prices on one side; a minute without records; and asks
whose sum leaves the range. -/
theorem export_writes_line_per_minute_with_gap :
    let largest : Decimal := ⟨false, 2 ^ 96 - 1, 0, by decide, by decide⟩
    let records : List Record :=
      [.quotes ⟨-1, none, .ofPrice .two, .ofPrice .two, .ofPrice .two⟩, .book ⟨1, none, [.two], [largest, largest], "x"⟩,
        .trades ⟨-1, none, .one, .zero, some .two, none, none, 1⟩,
        .quotes ⟨-1, none, .ofPrice .one, .ofPrice .one, ⟨.one, .two, .one, .two⟩⟩,
        .book ⟨-1, none, [], [.one, .two, .two], "y"⟩]
    let names := ["minute_utc", "BookOpenMid", "BookHighMid", "BookLowMid", "BookCloseMid", "TradeOpen", "TradeHigh",
      "TradeLow", "TradeClose", "SellVolume", "BuyVolume", "PriceWeightedSellVolume", "PriceWeightedBuyVolume",
      "BookAskVolume1Pctg", "BookBidVolume1Pctg", "BookAskVolume5Pctg", "BookBidVolume5Pctg"]
    let lines : List (List Char) :=
      ["-1,1,2,1,2,,,,,1,0,2,,1,,3,0", "0,,,,,,,,,,,,,,,,", "1,,,,,,,,,,,,,79228162514264337593543950335,2,,2"].map
        String.toList
    ∃ text, «export» 2 records none = .ok (3, text) ∧ Spans records (-1) 3 ∧
      text.toList.splitOn '\n' = [','].intercalate (names.map String.toList) :: lines ++ [[]] ∧
      ∀ (j : Nat) (line : List Char), lines[j]? = some line →
        ∃ minute : Int64, minute.toInt = -1 + j ∧ IsLineOf 2 records minute line := by
  intro largest records names lines
  obtain ⟨first, n, text, lines', hexport, hspans, hsplit, -, hlines⟩ := export_writes_line_per_minute 2 records
  have hrows : (write 2 records).rows = 3 := by decide +kernel
  have hnames : header = names := rfl
  have hwritten : rowLines 2 records = lines := by decide +kernel
  have hall : ∀ r ∈ records, r.minute.toInt = -1 ∨ r.minute.toInt = 1 := by decide +kernel
  obtain ⟨rfl, rfl⟩ : n = 3 ∧ text = (write 2 records).text := by
    cases hexport
    exact ⟨hrows, rfl⟩
  obtain rfl : lines' = lines := by
    rw [splitOn_write, hwritten] at hsplit
    exact (List.append_cancel_right (List.cons.inj hsplit).2).symm
  obtain rfl : first = -1 := by
    rcases hspans with ⟨hnil, -⟩ | ⟨r, hr, -, -, hfirst, -, hbounds⟩
    · exact absurd hnil (List.cons_ne_nil _ _)
    · have hlow := (hbounds records[0] (List.getElem_mem _)).1
      have hminute : records[0].minute.toInt = -1 := rfl
      rcases hall r hr with h | h <;> omega
  rw [hnames] at hsplit
  exact ⟨_, hexport, hspans, hsplit, hlines⟩

end Table
end MarketMinutes
