import Mathlib.Data.List.Sort
import MarketMinutes.Proofs.Decimal.Normal
import MarketMinutes.Proofs.Storage.History
import MarketMinutes.Proofs.Table.Rows
import MarketMinutes.Proofs.Window.Unsigned

/-!
# Tables and the last records

A row is read off the last record of each kind, and the sign of a zero is not
written. So the table of some records is that of any others with the same last
ones: of the same records many times over, or loaded from a collection, where
they lie kind after kind.
-/

namespace MarketMinutes
namespace Record

@[simp] theorem minute_unsigned (r : Record) : r.unsigned.minute = r.minute := by
  cases r <;> rfl

@[simp] theorem unsigned_unsigned (r : Record) : r.unsigned.unsigned = r.unsigned := by
  cases r <;> simp [unsigned, Function.comp_def]

end Record

namespace Table

/-! ## Records with the same last ones -/

theorem lastOf?_replicate (n : Nat) (records : List Record) (minute : Int64) (kind : Kind) :
    lastOf? (List.replicate (n + 1) records).flatten minute kind = lastOf? records minute kind := by
  induction n with
  | zero => simp
  | succ n ih => rw [List.replicate_succ, List.flatten_cons, lastOf?_append, ih, Option.or_self]

theorem lastOf?_loaded (records : List Record) (minute : Int64) (kind : Kind) :
    lastOf? (Session.loaded records) minute kind = (lastOf? records minute kind).map Record.unsigned := by
  have hsplit : ∀ rs : List Record,
      lastOf? rs minute kind = ((rs.filter (·.kind = kind)).filter (·.minute = minute)).getLast? := by
    intro rs
    simp only [lastOf?, List.filter_filter, Bool.decide_and]
  have hminute : (fun r : Record => decide (r.minute = minute)) ∘ Record.unsigned = fun r => decide (r.minute = minute) :=
    funext fun r => by rw [Function.comp, Record.minute_unsigned]
  rw [hsplit, hsplit, Session.filter_loaded, List.filter_map, hminute, List.getLast?_map]

/-- The last records are the same for every minute and kind, but for the signs of zeros. -/
def SameLast (xs ys : List Record) : Prop :=
  ∀ minute kind, (lastOf? xs minute kind).map Record.unsigned = (lastOf? ys minute kind).map Record.unsigned

theorem SameLast.loaded (records : List Record) : SameLast (Session.loaded records) records := by
  intro minute kind
  rw [lastOf?_loaded, Option.map_map]
  exact Option.map_congr fun r _ => r.unsigned_unsigned

/-! ## The numbers of a minute -/

def candleNumbers : Option Candle → List (Option Decimal)
  | none => [none, none, none, none]
  | some c => [some c.opening, some c.high, some c.low, some c.closing]

/-- What a record has for the columns of its kind. The first buckets are added up from zero as long as they stay in
range. -/
def numbers (nearBuckets : Nat) : Record → List (Option Decimal)
  | .quotes r => candleNumbers (some r.mid)
  | .trades r => candleNumbers r.candle ++ [some r.sellVolume, some r.buyVolume, r.sellPrice, r.buyPrice]
  | .book r =>
    [r.asks[0]?, r.bids[0]?, (r.asks.take nearBuckets).foldlM Decimal.add? .zero,
      (r.bids.take nearBuckets).foldlM Decimal.add? .zero]

/-- How many columns a kind has. -/
def width : Kind → Nat
  | .quotes => 4
  | .trades => 8
  | .book => 4

/-- The numbers of a minute, kind after kind, from the last record that there is of each. -/
def values (nearBuckets : Nat) (last : Kind → Option Record) : List (Option Decimal) :=
  Kind.all.flatMap fun kind => (last kind).elim (List.replicate (width kind) none) (numbers nearBuckets)

theorem candleCells_eq (c : Option Candle) : candleCells c = (candleNumbers c).map cell := by
  cases c <;> rfl

theorem Row.cells_eq (nearBuckets : Nat) (row : Row) :
    row.cells nearBuckets = (values nearBuckets row.record?).map cell := by
  have hquotes : quoteCells row.quotes =
      ((row.record? .quotes).elim (List.replicate (width .quotes) none) (numbers nearBuckets)).map cell := by
    cases h : row.quotes <;> simp [record?, h] <;> rfl
  have htrades : tradeCells row.trades =
      ((row.record? .trades).elim (List.replicate (width .trades) none) (numbers nearBuckets)).map cell := by
    cases h : row.trades with
    | none => simp [record?, h]; rfl
    | some r => simp [record?, h, tradeCells, candleCells_eq, numbers]
  have hbook : bookCells nearBuckets row.book =
      ((row.record? .book).elim (List.replicate (width .book) none) (numbers nearBuckets)).map cell := by
    cases h : row.book with
    | none => simp [record?, h]; rfl
    | some r => simp [record?, h, bookCells, numbers, near?, Decimal.sum?, List.head?_eq_getElem?]
  rw [Row.cells, hquotes, htrades, hbook, values]
  simp only [Kind.all, List.flatMap_cons, List.flatMap_nil, List.append_nil, List.map_append, List.append_assoc]

theorem row_cells (nearBuckets : Nat) (records : List Record) (minute : Int64) :
    ((Rows.ofRecords records).row minute.toInt).cells nearBuckets =
      (values nearBuckets (lastOf? records minute)).map cell := by
  have hlast : ((Rows.ofRecords records).row minute.toInt).record? = lastOf? records minute :=
    funext fun kind => Rows.record?_ofRecords records minute kind
  rw [Row.cells_eq, hlast]

/-! ## Signs of zeros -/

theorem foldlM_add?_unsigned (ds : List Decimal) (d : Decimal) :
    (ds.map Decimal.unsigned).foldlM Decimal.add? d.unsigned = (ds.foldlM Decimal.add? d).map Decimal.unsigned := by
  induction ds generalizing d with
  | nil => rfl
  | cons e ds ih =>
    rw [List.map_cons, List.foldlM_cons, List.foldlM_cons, Decimal.add?_unsigned]
    cases d.add? e with
    | none => rfl
    | some sum => exact ih sum

theorem numbers_unsigned (nearBuckets : Nat) (r : Record) :
    numbers nearBuckets r.unsigned = (numbers nearBuckets r).map (Option.map Decimal.unsigned) := by
  cases r with
  | quotes r => rfl
  | trades r => cases h : r.candle <;> simp [Record.unsigned, numbers, candleNumbers, h, Candle.unsigned]
  | book r =>
    have hsum : ∀ buckets : List Decimal, ((buckets.map Decimal.unsigned).take nearBuckets).foldlM Decimal.add? .zero =
        ((buckets.take nearBuckets).foldlM Decimal.add? .zero).map Decimal.unsigned := by
      intro buckets
      rw [← List.map_take]
      exact foldlM_add?_unsigned _ Decimal.zero
    simp [Record.unsigned, numbers, hsum]

theorem cell_unsigned (d : Option Decimal) : cell (d.map Decimal.unsigned) = cell d := by
  cases d with
  | none => rfl
  | some d => rw [Option.map_some, cell, cell, Decimal.normalize_unsigned]

theorem map_cell_values_unsigned (nearBuckets : Nat) (last : Kind → Option Record) :
    (values nearBuckets fun kind => (last kind).map Record.unsigned).map cell = (values nearBuckets last).map cell := by
  unfold values
  rw [List.map_flatMap, List.map_flatMap]
  refine List.flatMap_congr fun kind _ => ?_
  dsimp only
  cases last kind with
  | none => rfl
  | some r =>
    rw [Option.map_some, Option.elim_some, Option.elim_some, numbers_unsigned, List.map_map]
    exact List.map_congr_left fun d _ => cell_unsigned d

/-! ## Tables of the same last records -/

namespace SameLast

variable {xs ys : List Record}

theorem of_eq (h : ∀ minute kind, lastOf? xs minute kind = lastOf? ys minute kind) : SameLast xs ys := by
  intro minute kind
  rw [h]

theorem trans {zs : List Record} (h : SameLast xs ys) (h' : SameLast ys zs) : SameLast xs zs := by
  intro minute kind
  exact (h minute kind).trans (h' minute kind)

theorem mem_keys_iff (h : SameLast xs ys) (m : Int) : m ∈ (Rows.ofRecords xs).keys ↔ m ∈ (Rows.ofRecords ys).keys := by
  have hcovered : ∀ rs : List Record, m ∈ (Rows.ofRecords rs).keys ↔
      ∃ minute kind, minute.toInt = m ∧ (lastOf? rs minute kind).isSome = true := by
    intro rs
    simp only [isSome_lastOf?_iff, Rows.mem_keys_ofRecords_iff]
    constructor
    · rintro ⟨r, hr, hm⟩
      exact ⟨r.minute, r.kind, hm, r, hr, rfl, rfl⟩
    · rintro ⟨-, -, hm, r, hr, rfl, rfl⟩
      exact ⟨r, hr, hm⟩
  have hsome : ∀ minute kind, (lastOf? xs minute kind).isSome = (lastOf? ys minute kind).isSome := by
    intro minute kind
    rw [← Option.isSome_map, h, Option.isSome_map]
  simp only [hcovered, hsome]

theorem minutes (h : SameLast xs ys) : (Rows.ofRecords xs).minutes = (Rows.ofRecords ys).minutes := by
  have hkeys : (Rows.ofRecords xs).keys = (Rows.ofRecords ys).keys :=
    List.Pairwise.eq_of_mem_iff (Rows.rising_ofRecords xs) (Rows.rising_ofRecords ys) h.mem_keys_iff
  unfold Rows.minutes
  rw [hkeys]

theorem cells (h : SameLast xs ys) (nearBuckets : Nat) (minute : Int64) :
    ((Rows.ofRecords xs).row minute.toInt).cells nearBuckets =
      ((Rows.ofRecords ys).row minute.toInt).cells nearBuckets := by
  rw [row_cells, row_cells, ← map_cell_values_unsigned, ← map_cell_values_unsigned nearBuckets (lastOf? ys minute)]
  simp only [h minute]

theorem write (h : SameLast xs ys) (nearBuckets : Nat) : write nearBuckets xs = write nearBuckets ys := by
  unfold Table.write
  dsimp only
  rw [h.minutes]
  refine List.foldl_ext _ _ _ fun w m hm => ?_
  obtain ⟨minute, rfl⟩ := Rows.exists_minute hm
  rw [writeRow, writeRow, h.cells]

theorem «export» (h : SameLast xs ys) (nearBuckets : Nat) (refusal : Option String) :
    «export» nearBuckets xs refusal = «export» nearBuckets ys refusal := by
  unfold Table.export
  rw [h.write]

end SameLast

/-- The table of some records, and how it fails to be written, is that of any others with the same last record of
every minute and kind. So it is the table of what is loaded from a store that was opened anew, written the records
and closed. -/
theorem export_reads_last_records :
    (∀ xs ys : List Record, (∀ minute kind, lastOf? xs minute kind = lastOf? ys minute kind) →
      ∀ nearBuckets refusal, «export» nearBuckets xs refusal = «export» nearBuckets ys refusal) ∧
    ∀ {t t' : FileTree} {directory collection : String} {drop : Bool} {s : Store},
      Store.open t directory collection drop = (t', .ok s) → (drop = true ∨ Collection.Fresh t directory collection) →
      ∀ rs : List Record,
        let ts := rs.foldl (fun ts r => ts.2.write ts.1 r) (t', s)
        ∃ records, Collection.load (ts.2.close ts.1) directory collection = .ok records ∧
          ∀ nearBuckets refusal, «export» nearBuckets records refusal = «export» nearBuckets rs refusal := by
  refine ⟨fun xs ys h => (SameLast.of_eq h).export, ?_⟩
  intro t t' directory collection drop s hopen hfresh rs
  obtain ⟨made, place, husable⟩ := Collection.Usable.of_open hopen
  have hfresh' : drop = true ∨ ∀ kind, made.lookup? (Collection.path directory collection kind) = none :=
    hfresh.imp_right husable.lookup?_of_fresh
  obtain ⟨s', hopen', -, hleft⟩ := husable.writable.close_of_writes drop
  rw [← husable.open_eq, hopen] at hopen'
  cases hopen'
  have hclose := (hleft rs).1
  simp only [husable.writable.opening_eq_nil hfresh', List.nil_append] at hclose
  refine ⟨Session.loaded rs, ?_, (SameLast.loaded rs).export⟩
  exact (congrArg (Collection.load · directory collection) hclose).trans (Session.load_putKinds husable.writable rs)

/-- A record of a book before quotes and a later one behind them, and the same without the first. -/
theorem export_reads_last_records_of_overwritten :
    let b : Record := .book ⟨1, none, [.one], [.one], "x"⟩
    let q : Record := .quotes ⟨1, none, .ofPrice .one, .ofPrice .two, .ofPrice .one⟩
    let b' : Record := .book ⟨1, none, [.two], [], "y"⟩
    (∀ minute kind, lastOf? [b, q, b'] minute kind = lastOf? [b', q] minute kind) ∧
      «export» 5 [b, q, b'] none = «export» 5 [b', q] none ∧
      Collection.Fresh Session.emptyDirectory "d" "c" ∧
      ∃ t' s, Store.open Session.emptyDirectory "d" "c" false = (t', .ok s) ∧
        let ts := [b, q, b'].foldl (fun ts r => ts.2.write ts.1 r) (t', s)
        ∃ records, Collection.load (ts.2.close ts.1) "d" "c" = .ok records ∧
          «export» 5 records none = «export» 5 [b, q, b'] none := by
  intro b q b'
  have hlast : ∀ minute kind, lastOf? [b, q, b'] minute kind = lastOf? [b', q] minute kind := by
    intro minute kind
    by_cases hm : (1 : Int64) = minute
    · subst hm
      cases kind <;> rfl
    · simp [lastOf?, b, q, b', Record.minute, hm]
  have hfresh : Collection.Fresh Session.emptyDirectory "d" "c" := by
    intro kind
    rw [Session.emptyDirectory_writable.makeDirectories]
    exact Session.emptyDirectory_fresh kind
  obtain ⟨hexport, hstore⟩ := export_reads_last_records
  obtain ⟨s, hopen, -⟩ := Session.emptyDirectory_writable.open false
  obtain ⟨records, hload, hrecords⟩ := hstore hopen (.inr hfresh) [b, q, b']
  exact ⟨hlast, hexport _ _ hlast 5 none, hfresh, _, s, hopen, records, hload, hrecords 5 none⟩

end Table
end MarketMinutes
