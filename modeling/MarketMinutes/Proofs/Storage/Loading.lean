import Mathlib.Data.List.Forall2
import MarketMinutes.Proofs.Storage.FileTree
import MarketMinutes.Proofs.Text.Contents
import MarketMinutes.Proofs.Text.LineEnds
import MarketMinutes.Storage.Collection

/-!
# Loading a collection

A collection is read line by line, file after file. Each line that is not blank
is a record of the kind of its file, or has a fault; the first that has one is
all that is known of the collection.
-/

namespace MarketMinutes.Collection

/-! ## The lines of a collection -/

/-- A line in the file of a kind, with its number there. -/
structure Line where
  kind : Kind
  number : Nat
  bytes : Bytes

namespace Line

def isBlank (l : Line) : Bool :=
  l.bytes.isBlank

/-- The line is a record of its file's kind. -/
def Holds (l : Line) (r : Record) : Prop :=
  ∃ s, l.bytes.Spells s ∧ Record.parse? s = some r ∧ r.kind = l.kind

def Good (l : Line) : Prop :=
  l.isBlank = true ∨ ∃ r, l.Holds r

/-- What there is to say against a line, with the path to the file of each kind. -/
inductive Fault (path : Kind → String) (l : Line) : LoadError → Prop
  | notText : l.bytes.isText = false → Fault path l .notText
  | garbled {s : String} : l.bytes.Spells s → Record.parse? s = none →
    Fault path l (.corrupt (path l.kind) l.number .garbled)
  | misfiled {s : String} {r : Record} : l.bytes.Spells s → Record.parse? s = some r → r.kind ≠ l.kind →
    Fault path l (.corrupt (path l.kind) l.number (.misfiled r.kind l.kind))

variable {path : Kind → String} {l : Line} {r r' : Record} {e e' : LoadError}

theorem Holds.not_blank (h : l.Holds r) : l.isBlank = false := by
  obtain ⟨s, hs, -⟩ := h
  exact hs.not_blank

theorem Holds.unique (h : l.Holds r) (h' : l.Holds r') : r = r' := by
  obtain ⟨s, hs, hr, -⟩ := h
  obtain ⟨s', hs', hr', -⟩ := h'
  cases hs.unique hs'
  exact Option.some.inj (hr.symm.trans hr')

theorem Fault.not_good (h : l.Fault path e) : ¬ l.Good := by
  rintro (hb | ⟨r, s, hs, hr, hk⟩)
  · cases h with
    | notText ht => exact Bool.eq_false_iff.mp (Bytes.not_blank_of_not_text ht) hb
    | garbled hs _ => exact Bool.eq_false_iff.mp hs.not_blank hb
    | misfiled hs _ _ => exact Bool.eq_false_iff.mp hs.not_blank hb
  · cases h with
    | notText ht => exact Bool.eq_false_iff.mp ht hs.isText
    | garbled hs' hnone =>
      cases hs.unique hs'
      cases hr.symm.trans hnone
    | misfiled hs' hr' hk' =>
      cases hs.unique hs'
      cases hr.symm.trans hr'
      exact hk' hk

theorem Fault.unique (h : l.Fault path e) (h' : l.Fault path e') : e = e' := by
  cases h with
  | notText ht =>
    cases h' with
    | notText => rfl
    | garbled hs _ => exact absurd hs.isText (Bool.eq_false_iff.mp ht)
    | misfiled hs _ _ => exact absurd hs.isText (Bool.eq_false_iff.mp ht)
  | garbled hs hnone =>
    cases h' with
    | notText ht => exact absurd hs.isText (Bool.eq_false_iff.mp ht)
    | garbled => rfl
    | misfiled hs' hr' _ =>
      cases hs.unique hs'
      cases hnone.symm.trans hr'
  | misfiled hs hr _ =>
    cases h' with
    | notText ht => exact absurd hs.isText (Bool.eq_false_iff.mp ht)
    | garbled hs' hnone =>
      cases hs.unique hs'
      cases hr.symm.trans hnone
    | misfiled hs' hr' _ =>
      cases hs.unique hs'
      cases hr.symm.trans hr'
      rfl

end Line

/-- The lines of the file of a kind, counted from a number. -/
def fileLines (kind : Kind) : Nat → List Bytes → List Line
  | _, [] => []
  | number, bytes :: rest => ⟨kind, number, bytes⟩ :: fileLines kind (number + 1) rest

/-- All lines of a collection, file after file in the order of kinds, those of each file counted from one. -/
def allLines (lines : Kind → List Bytes) : List Line :=
  Kind.all.flatMap fun kind => fileLines kind 1 (lines kind)

theorem fileLines_append (kind : Kind) (number : Nat) (xs ys : List Bytes) :
    fileLines kind number (xs ++ ys) = fileLines kind number xs ++ fileLines kind (number + xs.length) ys := by
  induction xs generalizing number with
  | nil => rfl
  | cons x xs ih =>
    rw [List.cons_append, fileLines, fileLines, ih, List.cons_append, List.length_cons, Nat.add_right_comm, Nat.add_assoc]

theorem kind_of_mem_fileLines {kind : Kind} {number : Nat} {lines : List Bytes} {l : Line}
    (h : l ∈ fileLines kind number lines) : l.kind = kind := by
  induction lines generalizing number with
  | nil => cases h
  | cons bytes rest ih =>
    rcases List.mem_cons.mp h with rfl | h
    · rfl
    · exact ih h

/-! ## Reading lines -/

/-- What reading comes to: the records of all lines that are not blank, or the fault of the first that has one. -/
def Reads (path : Kind → String) (ls : List Line) : Except LoadError (List Record) → Prop
  | .ok records => (∀ l ∈ ls, l.Good) ∧ List.Forall₂ Line.Holds (ls.filter (!·.isBlank)) records
  | .error e => ∃ before l behind, ls = before ++ l :: behind ∧ (∀ b ∈ before, b.Good) ∧ l.Fault path e

namespace Reads

variable {path : Kind → String} {l : Line} {ls ls' : List Line} {r : Record} {e : LoadError}
  {result result' : Except LoadError (List Record)}

theorem nil : Reads path [] (.ok []) :=
  ⟨by simp, .nil⟩

theorem fault (h : l.Fault path e) (ls : List Line) : Reads path (l :: ls) (.error e) :=
  ⟨[], l, ls, rfl, by simp, h⟩

/-- One reading behind another, which it goes on with unless that has met a fault. -/
theorem append (h : Reads path ls result) (h' : Reads path ls' result') :
    Reads path (ls ++ ls') (result.bind fun rs => result'.map (rs ++ ·)) := by
  cases result with
  | error e =>
    obtain ⟨before, l, behind, rfl, hgood, hfault⟩ := h
    exact ⟨before, l, behind ++ ls', by rw [List.append_assoc, List.cons_append], hgood, hfault⟩
  | ok records =>
    cases result' with
    | error e =>
      obtain ⟨before, l, behind, rfl, hgood, hfault⟩ := h'
      exact ⟨ls ++ before, l, behind, by rw [List.append_assoc],
        List.forall_mem_append.mpr ⟨h.1, hgood⟩, hfault⟩
    | ok records' =>
      refine ⟨List.forall_mem_append.mpr ⟨h.1, h'.1⟩, ?_⟩
      rw [List.filter_append]
      exact List.rel_append h.2 h'.2

theorem blank (hb : l.isBlank = true) (h : Reads path ls result) : Reads path (l :: ls) result := by
  have hl : Reads path [l] (.ok []) := by
    refine ⟨List.forall_mem_singleton.mpr (.inl hb), ?_⟩
    rw [List.filter_cons_of_neg (by simp [hb])]
    exact .nil
  have happend := hl.append h
  cases result <;> exact happend

theorem record (hr : l.Holds r) (h : Reads path ls result) : Reads path (l :: ls) (result.map (r :: ·)) := by
  have hl : Reads path [l] (.ok [r]) := by
    refine ⟨List.forall_mem_singleton.mpr (.inr ⟨r, hr⟩), ?_⟩
    rw [List.filter_cons_of_pos (by simp [hr.not_blank])]
    exact .cons hr .nil
  exact hl.append h

theorem ok_iff (h : Reads path ls result) : (∃ records, result = .ok records) ↔ ∀ l ∈ ls, l.Good := by
  cases result with
  | ok records => exact iff_of_true ⟨records, rfl⟩ h.1
  | error e =>
    obtain ⟨before, l, behind, rfl, -, hfault⟩ := h
    exact iff_of_false (by rintro ⟨records, ⟨⟩⟩) fun hgood => hfault.not_good (hgood l (by simp))

/-- The good lines in front of two faults are the same. -/
theorem fault_unique {before before' behind behind' : List Line} {l l' : Line} {e e' : LoadError}
    (heq : before ++ l :: behind = before' ++ l' :: behind') (hgood : ∀ b ∈ before, b.Good)
    (hgood' : ∀ b ∈ before', b.Good) (hl : l.Fault path e) (hl' : l'.Fault path e') : e = e' := by
  induction before generalizing before' with
  | nil =>
    cases before' with
    | nil =>
      cases (List.cons.inj heq).1
      exact hl.unique hl'
    | cons b before' =>
      cases (List.cons.inj heq).1
      exact absurd (hgood' _ (List.mem_cons_self ..)) hl.not_good
  | cons b before ih =>
    cases before' with
    | nil =>
      cases (List.cons.inj heq).1
      exact absurd (hgood _ (List.mem_cons_self ..)) hl'.not_good
    | cons b' before' =>
      exact ih (List.cons.inj heq).2 (List.forall_mem_cons.mp hgood).2 (List.forall_mem_cons.mp hgood').2

theorem unique (h : Reads path ls result) (h' : Reads path ls result') : result = result' := by
  cases result with
  | error e =>
    obtain ⟨before, l, behind, rfl, hgood, hl⟩ := h
    cases result' with
    | error e' =>
      obtain ⟨before', l', behind', heq, hgood', hl'⟩ := h'
      rw [fault_unique heq hgood hgood' hl hl']
    | ok records => exact absurd (h'.1 l (by simp)) hl.not_good
  | ok records =>
    cases result' with
    | error e =>
      obtain ⟨before, l, behind, rfl, -, hl⟩ := h'
      exact absurd (h.1 l (by simp)) hl.not_good
    | ok records' =>
      rw [List.right_unique_forall₂' (fun _ _ _ hr hr' => hr.unique hr') h.2 h'.2]

theorem kind_eq {kind : Kind} {number : Nat} {lines : List Bytes} {records : List Record}
    (h : Reads path (fileLines kind number lines) (.ok records)) : ∀ r ∈ records, r.kind = kind := by
  have hls : ∀ l ∈ (fileLines kind number lines).filter (!·.isBlank), l.kind = kind :=
    fun l hl => kind_of_mem_fileLines (List.mem_filter.mp hl).1
  obtain ⟨-, hrecords⟩ := h
  generalize (fileLines kind number lines).filter (!·.isBlank) = ls at hls hrecords
  induction hrecords with
  | nil => simp
  | cons hr _ ih =>
    obtain ⟨s, -, -, hk⟩ := hr
    obtain ⟨hl, hls⟩ := List.forall_mem_cons.mp hls
    exact List.forall_mem_cons.mpr ⟨hk.trans hl, ih hls⟩

theorem of_append {records : List Record} (h : Reads path (ls ++ ls') (.ok records)) :
    ∃ front back, records = front ++ back ∧ Reads path ls (.ok front) ∧ Reads path ls' (.ok back) := by
  obtain ⟨hgood, hrecords⟩ := h
  rw [List.filter_append] at hrecords
  obtain ⟨hls, hls'⟩ := List.forall_mem_append.mp hgood
  have hfront := (List.forall₂_take_append _ _ _ hrecords.flip).flip
  have hback := (List.forall₂_drop_append _ _ _ hrecords.flip).flip
  exact ⟨_, _, (List.take_append_drop _ records).symm, ⟨hls, hfront⟩, hls', hback⟩

end Reads

theorem reads_readLines (path : Kind → String) (kind : Kind) (number : Nat) (lines : List Bytes) :
    Reads path (fileLines kind number lines) (readLines (path kind) kind number lines) := by
  induction lines generalizing number with
  | nil => exact .nil
  | cons line lines ih =>
    rw [fileLines, readLines]
    rcases line.text_cases with h | h | ⟨s, h⟩
    · rw [LineContent.ofLine_of_not_text h]
      exact .fault (.notText h) _
    · rw [LineContent.ofLine_of_blank h]
      exact .blank h (ih _)
    · rw [LineContent.ofLine_of_spells h]
      cases hr : Record.parse? s with
      | none => exact .fault (.garbled h hr) _
      | some r =>
        by_cases hk : r.kind = kind
        · simp only [Option.elim_some, if_pos hk]
          exact .record ⟨s, h, hr, hk⟩ (ih _)
        · simp only [Option.elim_some, if_neg hk]
          exact .fault (.misfiled h hr hk) _

/-! ## Reading files -/

section
variable {f : Kind → Except LoadError (List Record)}

theorem flatten_mapM_cons (f : Kind → Except LoadError (List Record)) (kind : Kind) (kinds : List Kind) :
    ((kind :: kinds).mapM f).map List.flatten =
      (f kind).bind fun rs => ((kinds.mapM f).map List.flatten).map (rs ++ ·) := by
  rw [List.mapM_cons]
  cases f kind with
  | error e => rfl
  | ok rs => cases kinds.mapM f <;> rfl

theorem exists_ok_of_flatten_mapM {kinds : List Kind} {loaded : List Record}
    (h : (kinds.mapM f).map List.flatten = .ok loaded) : ∀ kind ∈ kinds, ∃ records, f kind = .ok records := by
  induction kinds generalizing loaded with
  | nil => simp
  | cons kind kinds ih =>
    rw [flatten_mapM_cons] at h
    cases hk : f kind with
    | error e =>
      rw [hk] at h
      cases h
    | ok records =>
      rw [hk] at h
      refine List.forall_mem_cons.mpr ⟨⟨records, hk⟩, ?_⟩
      cases hrest : (kinds.mapM f).map List.flatten with
      | error e =>
        rw [hrest] at h
        cases h
      | ok rest => exact ih hrest

end

section
variable {t : FileTree} {directory collection : String}

theorem load_eq (t : FileTree) (directory collection : String) :
    load t directory collection = (Kind.all.mapM (loadKind t directory collection)).map List.flatten := by
  unfold load
  cases Kind.all.mapM (loadKind t directory collection) <;> rfl

theorem load_of_ok {records : Kind → List Record}
    (h : ∀ kind, loadKind t directory collection kind = .ok (records kind)) :
    load t directory collection = .ok (Kind.all.flatMap records) := by
  rw [load_eq]
  induction Kind.all with
  | nil => rfl
  | cons kind kinds ih =>
    rw [flatten_mapM_cons, h, ih]
    rfl

theorem exists_of_load {loaded : List Record} (h : load t directory collection = .ok loaded) :
    ∃ records : Kind → List Record, (∀ kind, loadKind t directory collection kind = .ok (records kind)) ∧
      loaded = Kind.all.flatMap records := by
  have hkinds : ∀ kind, ∃ records, loadKind t directory collection kind = .ok records := by
    rw [load_eq] at h
    exact fun kind => exists_ok_of_flatten_mapM h kind (by cases kind <;> decide)
  obtain ⟨records, hrecords⟩ := Classical.skolem.mp hkinds
  exact ⟨records, hrecords, Except.ok.inj (h.symm.trans (load_of_ok hrecords))⟩

/-- A fault in one file keeps those behind it from being read. -/
theorem load_of_first_error {before behind : List Kind} {kind : Kind} {e : LoadError}
    (hall : Kind.all = before ++ kind :: behind)
    (hok : ∀ k ∈ before, ∃ records, loadKind t directory collection k = .ok records)
    (herror : loadKind t directory collection kind = .error e) : load t directory collection = .error e := by
  rw [load_eq, hall]
  clear hall
  induction before with
  | nil =>
    rw [List.nil_append, flatten_mapM_cons, herror]
    rfl
  | cons k before ih =>
    obtain ⟨⟨records, hk⟩, hbefore⟩ := List.forall_mem_cons.mp hok
    rw [List.cons_append, flatten_mapM_cons, hk, ih hbefore]
    rfl

/-- What the files of a collection hold, of the kinds that have one. -/
def HasFiles (t : FileTree) (directory collection : String) (contents : Kind → Option Bytes) : Prop :=
  ∀ kind, t.lookup? (path directory collection kind) = (contents kind).map .file

variable {contents : Kind → Option Bytes}

theorem hasFiles_of_content? {place : Kind → Location}
    (hplaces : ∀ kind, t.writable (path directory collection kind) = .ok (place kind))
    (hc : ∀ kind, t.content? (place kind) = contents kind) : HasFiles t directory collection contents :=
  fun kind => by rw [FileTree.lookup?_of_writable (hplaces kind), hc]

theorem reads_loadKind (h : HasFiles t directory collection contents) (kind : Kind) :
    Reads (path directory collection) (fileLines kind 1 ((contents kind).getD []).lines)
      (loadKind t directory collection kind) := by
  unfold loadKind
  simp only [h kind]
  cases contents kind with
  | none =>
    rw [Option.getD_none, Bytes.lines_nil]
    exact .nil
  | some content => exact reads_readLines ..

theorem reads_load (h : HasFiles t directory collection contents) :
    Reads (path directory collection) (allLines fun kind => ((contents kind).getD []).lines)
      (load t directory collection) := by
  rw [load_eq, allLines]
  induction Kind.all with
  | nil => exact .nil
  | cons kind kinds ih =>
    rw [flatten_mapM_cons, List.flatMap_cons]
    exact (reads_loadKind h kind).append ih

end

/-- Every line that is not blank is one of the records loaded, file after file, or else the first of all lines that
has a fault is named. Lines are counted with the blank ones, no byte of a file is outside of them, and it falls into
them in no other way. -/
theorem load_reads_line_by_line {t : FileTree} {directory collection : String} {contents : Kind → Option Bytes}
    (h : HasFiles t directory collection contents) :
    ∃ lines : Kind → List Bytes, (∀ kind, ((contents kind).getD []).FallsInto (lines kind)) ∧
      (∀ kind others, ((contents kind).getD []).FallsInto others → others = lines kind) ∧
      let ls := allLines lines
      let loaded := load t directory collection
      ((∃ records, loaded = .ok records) ↔ ∀ l ∈ ls, l.Good) ∧
        (∀ records, loaded = .ok records → List.Forall₂ Line.Holds (ls.filter (!·.isBlank)) records) ∧
        ∀ e, loaded = .error e → ∃ before l behind, ls = before ++ l :: behind ∧ (∀ b ∈ before, b.Good) ∧
          l.Fault (path directory collection) e := by
  have hreads := reads_load h
  refine ⟨fun kind => ((contents kind).getD []).lines, fun kind => Bytes.fallsInto_lines _,
    fun kind others => Bytes.FallsInto.eq_lines, hreads.ok_iff, fun records hok => ?_, fun e herror => ?_⟩
  · rw [hok] at hreads
    exact hreads.2
  · rw [herror] at hreads
    exact hreads

/-- No file of quotes, a record of a book behind a blank line among the trades, and a book that is no text. -/
theorem load_reads_line_by_line_to_misfiled :
    let r : Record := .book ⟨1, none, [], [.one], "x"⟩
    let contents : Kind → Option Bytes
      | .quotes => none
      | .trades => some (Bytes.newline :: Bytes.ofText r.toJson.render)
      | .book => some [0xFF]
    let place : Kind → Location := fun kind => ["d", "c_" ++ kind.title ++ "Minutes.jsonl"]
    let t : FileTree := ⟨[["d"]], Kind.all.filterMap fun kind => (contents kind).map (place kind, ·), []⟩
    let e : LoadError := .corrupt "d/c_TradeTickerMinutes.jsonl" 2 (.misfiled .book .trades)
    HasFiles t "d" "c" contents ∧ load t "d" "c" = .error e ∧
      ∃ lines : Kind → List Bytes, (∀ kind, ((contents kind).getD []).FallsInto (lines kind)) ∧
        ∃ before l behind, allLines lines = before ++ l :: behind ∧ (∀ b ∈ before, b.Good) ∧
          l.Fault (path "d" "c") e := by
  intro r contents place t e
  have hplaces : ∀ kind, t.writable (path "d" "c" kind) = .ok (place kind) := by
    intro kind
    cases kind <;> decide +kernel
  have h : HasFiles t "d" "c" contents := hasFiles_of_content? hplaces fun kind => by cases kind <;> decide +kernel
  have herror : load t "d" "c" = .error e := by decide +kernel
  obtain ⟨lines, hfalls, -, -, -, hfault⟩ := load_reads_line_by_line h
  exact ⟨h, herror, lines, hfalls, hfault e herror⟩

end MarketMinutes.Collection
