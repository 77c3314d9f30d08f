import MarketMinutes.Proofs.Json.Documents
import MarketMinutes.Proofs.Storage.Collection
import MarketMinutes.Proofs.Storage.Directories
import MarketMinutes.Proofs.Storage.Loading
import MarketMinutes.Proofs.Storage.Refill
import MarketMinutes.Proofs.Storage.Writer
import MarketMinutes.Storage.Store

/-!
# Stores and their files

A store makes a text for each kind of record, to which every record of the
kind is added as a line. Closing brings the texts to the files, and what is
loaded from them are the records again, kind after kind.
-/

namespace MarketMinutes

/-! ## Records as lines -/

def Record.line (r : Record) : Bytes :=
  Bytes.ofText r.toJson.render

def Collection.text (records : List Record) : Bytes :=
  records.flatMap fun r => r.line ++ [Bytes.newline]

theorem Collection.text_append (xs ys : List Record) : text (xs ++ ys) = text xs ++ text ys :=
  List.flatMap_append

theorem Store.linePieces_flatten (r : Record) : (linePieces r).flatten = r.line ++ [Bytes.newline] := by
  have hend : Bytes.ofText (String.ofList ['\n']) = [Bytes.newline] := by decide
  rw [linePieces, ← Bytes.ofText_flatten, List.flatten_append, Bytes.ofText_append]
  exact congrArg _ hend

/-! ## Texts that a store makes -/

namespace Store

/-- Each writer of the store makes the text of its kind, in the place of the kind. -/
structure Brings (s : Store) (t : FileTree) (place : Kind → Location) (text : Kind → Bytes) : Prop where
  location : ∀ kind, (s.writer kind).location = place kind
  brings : ∀ kind, (s.writer kind).Brings t (text kind)

@[simp] theorem writer_withWriter_self (s : Store) (kind : Kind) (w : Writer) :
    (s.withWriter kind w).writer kind = w := by
  cases kind <;> rfl

theorem writer_withWriter_of_ne {kind kind' : Kind} (h : kind' ≠ kind) (s : Store) (w : Writer) :
    (s.withWriter kind w).writer kind' = s.writer kind' := by
  cases kind <;> cases kind' <;> first | rfl | exact absurd rfl h

variable {s : Store} {t : FileTree} {place : Kind → Location} {text : Kind → Bytes}

def added (text : Kind → Bytes) (kind : Kind) (piece : Bytes) (kind' : Kind) : Bytes :=
  if kind' = kind then text kind' ++ piece else text kind'

theorem Brings.withWriter (h : s.Brings t place text) (hplace : Function.Injective place) {kind : Kind}
    {tw : FileTree × Writer} {piece : Bytes} (hl : (s.writer kind).Leads t tw (text kind ++ piece)) :
    (s.withWriter kind tw.2).Brings tw.1 place (added text kind piece) where
  location := fun kind' => by
    by_cases hk : kind' = kind
    · subst hk
      rw [writer_withWriter_self, hl.location, h.location]
    · rw [writer_withWriter_of_ne hk, h.location]
  brings := fun kind' => by
    by_cases hk : kind' = kind
    · subst hk
      rw [writer_withWriter_self, added, if_pos rfl]
      exact hl.brings
    · have hne : (s.writer kind').location ≠ (s.writer kind).location := by
        rw [h.location, h.location]
        exact fun heq => hk (hplace heq)
      rw [writer_withWriter_of_ne hk, added, if_neg hk]
      exact (h.brings kind').elsewhere hl.changed hne

theorem Brings.refilled (h : s.Brings t place text) {kind : Kind} {tw : FileTree × Writer} {text' : Bytes}
    (hl : (s.writer kind).Leads t tw text') : t.Refilled place tw.1 := by
  have hc := hl.changed
  rw [h.location] at hc
  exact hc.refilled

theorem Brings.write (h : s.Brings t place text) (hplace : Function.Injective place) (r : Record) :
    t.Refilled place (s.write t r).1 ∧ (s.write t r).2.recordsWritten = s.recordsWritten + 1 ∧
      (s.write t r).2.Brings (s.write t r).1 place (added text r.kind (r.line ++ [Bytes.newline])) := by
  have hl := (h.brings r.kind).pushAll (linePieces r)
  rw [linePieces_flatten] at hl
  have hw := h.withWriter hplace hl
  exact ⟨h.refilled hl, rfl, hw.location, hw.brings⟩

theorem added_nil (text : Kind → Bytes) (kind : Kind) : added text kind [] = text := by
  funext kind'
  simp [added]

theorem added_line (text : Kind → Bytes) (r : Record) (rs : List Record) (kind : Kind) :
    added text r.kind (r.line ++ [Bytes.newline]) kind ++ Collection.text (rs.filter (·.kind = kind)) =
      text kind ++ Collection.text ((r :: rs).filter (·.kind = kind)) := by
  by_cases hk : kind = r.kind
  · subst hk
    simp [added, Collection.text]
  · simp [added, hk, Ne.symm hk]

theorem Brings.writeAll (h : s.Brings t place text) (hplace : Function.Injective place) (rs : List Record) :
    let ts := rs.foldl (fun ts r => ts.2.write ts.1 r) (t, s)
    t.Refilled place ts.1 ∧ ts.2.recordsWritten = s.recordsWritten + rs.length ∧
      ts.2.Brings ts.1 place fun kind => text kind ++ Collection.text (rs.filter (·.kind = kind)) := by
  induction rs generalizing s t text with
  | nil =>
    refine ⟨.rfl, rfl, ?_⟩
    simpa [Collection.text] using h
  | cons r rs ih =>
    obtain ⟨hput, hcount, hbrings⟩ := h.write hplace r
    obtain ⟨hput', hcount', hbrings'⟩ := ih hbrings
    simp only [added_line] at hbrings'
    refine ⟨hput.trans hput', ?_, hbrings'⟩
    rw [List.foldl_cons, hcount', hcount, List.length_cons]
    omega

/-! ## Flushing -/

theorem Brings.flushKind (h : s.Brings t place text) (hplace : Function.Injective place) (kind : Kind) :
    let ts := flushKind (t, s) kind
    t.Refilled place ts.1 ∧ ts.2.recordsWritten = s.recordsWritten ∧ ts.2.Brings ts.1 place text ∧
      (ts.2.writer kind).pending = [] ∧ ∀ kind', kind' ≠ kind → ts.2.writer kind' = s.writer kind' := by
  obtain ⟨hl, hpending⟩ := (h.brings kind).flush
  rw [← List.append_nil (text kind)] at hl
  have hw := h.withWriter hplace hl
  rw [added_nil] at hw
  refine ⟨h.refilled hl, by cases kind <;> rfl, hw, ?_, fun kind' hk => writer_withWriter_of_ne hk ..⟩
  rw [Store.flushKind, writer_withWriter_self]
  exact hpending

theorem Brings.flush (h : s.Brings t place text) (hplace : Function.Injective place) :
    let ts := s.flush t
    t.Refilled place ts.1 ∧ ts.2.recordsWritten = s.recordsWritten ∧ ts.2.Brings ts.1 place text ∧
      ∀ kind, ts.1.content? (place kind) = some (text kind) := by
  obtain ⟨hput, hcount, hbrings, hquotes, -⟩ := h.flushKind hplace .quotes
  obtain ⟨hput', hcount', hbrings', htrades, hkept'⟩ := hbrings.flushKind hplace .trades
  obtain ⟨hput'', hcount'', hbrings'', hbook, hkept''⟩ := hbrings'.flushKind hplace .book
  have hflush : s.flush t = Store.flushKind (Store.flushKind (Store.flushKind (t, s) .quotes) .trades) .book := rfl
  rw [hflush]
  refine ⟨hput.trans (hput'.trans hput''), hcount''.trans (hcount'.trans hcount), hbrings'', fun kind => ?_⟩
  rw [← hbrings''.location kind]
  refine (hbrings''.brings kind).content ?_
  cases kind with
  | quotes =>
    rw [hkept'' _ (by decide), hkept' _ (by decide)]
    exact hquotes
  | trades =>
    rw [hkept'' _ (by decide)]
    exact htrades
  | book => exact hbook

/-- A tree whose files were opened is left with the text of each kind in its place. -/
theorem Brings.close (h : s.Brings t place text) (hplace : Function.Injective place) {base : FileTree}
    {old : Kind → Bytes} (ht : FileTree.Refilled place (base.putKinds place old) t) :
    s.close t = base.putKinds place text := by
  obtain ⟨hput, -, -, hcontent⟩ := h.flush hplace
  exact (ht.trans hput).eq_putKinds hplace hcontent

end Store

/-! ## Opening -/

namespace Collection

/-- A directory that is there, with a place for the file of every kind. -/
structure Writable (t : FileTree) (directory collection : String) (place : Kind → Location) : Prop where
  found : directory = "" ∨ t.lookup? directory = some .directory
  places : ∀ kind, t.writable (path directory collection kind) = .ok (place kind)

variable {t t' : FileTree} {directory collection : String} {place : Kind → Location}

theorem Writable.sameWays (h : Writable t directory collection place) (hw : t.SameWays t') :
    Writable t' directory collection place where
  found := h.found.imp_right hw.lookup?_directory
  places := fun kind => hw.writable (h.places kind)

theorem Writable.injective (h : Writable t directory collection place) : Function.Injective place := by
  intro kind kind' heq
  have h' := h.places kind'
  rw [← heq] at h'
  exact kind_eq_of_place (h.places kind) h'

theorem Writable.content?_eq_none (h : Writable t directory collection place) {kind : Kind}
    (hfresh : t.lookup? (path directory collection kind) = none) : t.content? (place kind) = none := by
  have hlookup := FileTree.lookup?_of_writable (h.places kind)
  rw [hfresh] at hlookup
  exact Option.map_eq_none_iff.mp hlookup.symm

theorem Writable.makeDirectories (h : Writable t directory collection place) :
    t.makeDirectories directory = (t, .ok ()) := by
  rcases h.found with hd | hd
  · exact if_pos hd
  · exact FileTree.makeDirectories_of_lookup? hd

/-- What a session begins with: nothing, or what the file of a kind held. -/
def opening (t : FileTree) (place : Kind → Location) (drop : Bool) (kind : Kind) : Bytes :=
  Writer.opening t (place kind) drop

theorem Writable.opening_eq_nil (h : Writable t directory collection place) {drop : Bool}
    (hfresh : drop = true ∨ ∀ kind, t.lookup? (path directory collection kind) = none) (kind : Kind) :
    opening t place drop kind = [] := by
  rcases hfresh with rfl | hfresh
  · rfl
  · unfold opening Writer.opening
    rw [h.content?_eq_none (hfresh kind)]
    exact ite_self _

theorem Writable.open (h : Writable t directory collection place) (drop : Bool) :
    ∃ s, Store.open t directory collection drop = (t.putKinds place (opening t place drop), .ok s) ∧
      s.recordsWritten = 0 ∧ s.Brings (t.putKinds place (opening t place drop)) place (opening t place drop) := by
  have hne : ∀ {kind kind' : Kind}, kind ≠ kind' → place kind ≠ place kind' := fun hk => h.injective.ne hk
  have hkept : ∀ {t : FileTree} {kind kind' : Kind} {content : Bytes}, kind ≠ kind' →
      Writer.opening (t.put (place kind') content) (place kind) drop = Writer.opening t (place kind) drop := by
    intro t kind kind' content hk
    unfold Writer.opening
    rw [FileTree.content?_put_of_ne (hne hk)]
  obtain ⟨quotes, hopen₁, hl₁, hb₁⟩ := Writer.open_of_writable (h.places .quotes) drop
  have h₁ := h.sameWays (.put t (place .quotes) (Writer.opening t (place .quotes) drop))
  obtain ⟨trades, hopen₂, hl₂, hb₂⟩ := Writer.open_of_writable (h₁.places .trades) drop
  rw [hkept (by decide)] at hopen₂ hb₂
  have h₂ := h₁.sameWays (.put _ (place .trades) (Writer.opening t (place .trades) drop))
  obtain ⟨book, hopen₃, hl₃, hb₃⟩ := Writer.open_of_writable (h₂.places .book) drop
  rw [hkept (by decide), hkept (by decide)] at hopen₃ hb₃
  refine ⟨⟨quotes, trades, book, 0⟩, ?_, rfl, ?_, ?_⟩
  · simp only [Store.open, h.makeDirectories, hopen₁, hopen₂, hopen₃]
    rfl
  · intro kind
    cases kind with
    | quotes => exact hl₁
    | trades => exact hl₂
    | book => exact hl₃
  · intro kind
    have hlocation : ∀ {w : Writer} {kind kind' : Kind}, w.location = place kind → kind ≠ kind' →
        w.location ≠ place kind' := by
      intro w kind kind' hl hk
      rw [hl]
      exact hne hk
    cases kind with
    | quotes =>
      exact (hb₁.elsewhere (.put ..) (hlocation hl₁ (by decide))).elsewhere (.put ..) (hlocation hl₁ (by decide))
    | trades => exact hb₂.elsewhere (.put ..) (hlocation hl₂ (by decide))
    | book => exact hb₃

/-- What a store was opened for, written to and closed leaves; to flush it before changes nothing. -/
theorem Writable.close_of_writes (h : Writable t directory collection place) (drop : Bool) :
    ∃ s, Store.open t directory collection drop = (t.putKinds place (opening t place drop), .ok s) ∧
      (∀ kind, (s.writer kind).location = place kind) ∧ ∀ rs : List Record,
        let left := t.putKinds place fun kind => opening t place drop kind ++ text (rs.filter (·.kind = kind))
        let ts := rs.foldl (fun ts r => ts.2.write ts.1 r) (t.putKinds place (opening t place drop), s)
        ts.2.close ts.1 = left ∧ (ts.2.flush ts.1).2.close (ts.2.flush ts.1).1 = left := by
  obtain ⟨s, hopen, -, hbrings⟩ := h.open drop
  refine ⟨s, hopen, hbrings.location, ?_⟩
  intro rs
  obtain ⟨hput, -, hwritten⟩ := hbrings.writeAll h.injective rs
  obtain ⟨hflush, -, hflushed, -⟩ := hwritten.flush h.injective
  exact ⟨hwritten.close h.injective hput, hflushed.close h.injective (hput.trans hflush)⟩

/-- Directories that can be made, and places for the files in them. -/
structure Usable (t : FileTree) (directory collection : String) (made : FileTree) (place : Kind → Location) : Prop where
  making : t.makeDirectories directory = (made, .ok ())
  places : ∀ kind, made.writable (path directory collection kind) = .ok (place kind)

/-- No file of the collection is there, even once its directory has been made. -/
def Fresh (t : FileTree) (directory collection : String) : Prop :=
  ∀ kind, (t.makeDirectories directory).1.lookup? (path directory collection kind) = none

namespace Usable

variable {made : FileTree}

theorem writable (h : Usable t directory collection made place) : Writable made directory collection place :=
  ⟨FileTree.lookup?_of_makeDirectories h.making, h.places⟩

theorem furnished (h : Usable t directory collection made place) : t.Furnished made := by
  have hf := t.makeDirectories_furnished directory
  rwa [h.making] at hf

theorem open_eq (h : Usable t directory collection made place) (drop : Bool) :
    Store.open t directory collection drop = Store.open made directory collection drop := by
  simp only [Store.open, h.making, h.writable.makeDirectories]

section
variable (h : Usable t directory collection made place) {q : Location} (hq : ∀ kind, place kind ≠ q)
include h hq

theorem entry?_putKinds (hentry : (t.entry? q).isSome = true) (text : Kind → Bytes) :
    FileTree.entry? (made.putKinds place text) q = t.entry? q := by
  have hmade : FileTree.entry? (made.putKinds place text) q = made.entry? q :=
    FileTree.SameWays.entry?_eq (.putKinds ..) (FileTree.content?_putKinds_of_ne hq ..)
  exact hmade.trans (h.furnished.entry?_eq hentry)

theorem find?_putKinds {path : String} (hfind : t.find? path = some q) (text : Kind → Bytes) :
    (made.putKinds place text).find? path = some q := by
  have hentry := FileTree.isSome_entry?_of_find? hfind
  have hgrows : t.Grows (made.putKinds place text) :=
    h.furnished.toGrows.trans (FileTree.SameWays.putKinds ..).grows
  apply hgrows.find? hfind
  rwa [h.entry?_putKinds hq hentry]

theorem lookup?_putKinds {path : String} (hfind : t.find? path = some q) (text : Kind → Bytes) :
    (made.putKinds place text).lookup? path = t.lookup? path := by
  unfold FileTree.lookup?
  rw [h.find?_putKinds hq hfind, hfind, Option.bind_some, Option.bind_some,
    h.entry?_putKinds hq (FileTree.isSome_entry?_of_find? hfind)]

end

theorem lookup?_of_fresh (h : Usable t directory collection made place) (hfresh : Fresh t directory collection)
    (kind : Kind) : made.lookup? (path directory collection kind) = none := by
  have hkind := hfresh kind
  rwa [h.making] at hkind

/-- Where no file of the collection is, what is there is apart from its files. -/
theorem apart_of_fresh (h : Usable t directory collection made place) (hfresh : Fresh t directory collection)
    {q : Location} (hentry : (t.entry? q).isSome = true) (kind : Kind) : place kind ≠ q := by
  rintro rfl
  have hnone : made.entry? (place kind) = none := by
    rw [FileTree.entry?_of_not_directory (FileTree.locate_of_writable (h.places kind)).2,
      h.writable.content?_eq_none (h.lookup?_of_fresh hfresh kind), Option.map_none]
  rw [← h.furnished.entry?_eq hentry, hnone] at hentry
  cases hentry

theorem of_open {t' : FileTree} {s : Store} {drop : Bool} (h : Store.open t directory collection drop = (t', .ok s)) :
    ∃ made place, Usable t directory collection made place := by
  rcases hmade : t.makeDirectories directory with ⟨made, e | _⟩
  · simp [Store.open, hmade] at h
  cases hopen₁ : Writer.open made (path directory collection .quotes) drop with
  | error e => simp [Store.open, hmade, hopen₁] at h
  | ok quotes =>
    obtain ⟨q, hq, hways₁⟩ := Writer.writable_of_open hopen₁
    cases hopen₂ : Writer.open quotes.1 (path directory collection .trades) drop with
    | error e => simp [Store.open, hmade, hopen₁, hopen₂] at h
    | ok trades =>
      obtain ⟨tr, htr, hways₂⟩ := Writer.writable_of_open hopen₂
      cases hopen₃ : Writer.open trades.1 (path directory collection .book) drop with
      | error e => simp [Store.open, hmade, hopen₁, hopen₂, hopen₃] at h
      | ok book =>
        obtain ⟨b, hb, -⟩ := Writer.writable_of_open hopen₃
        have hplaces : ∀ kind, ∃ place, made.writable (path directory collection kind) = .ok place := by
          intro kind
          cases kind with
          | quotes => exact ⟨q, hq⟩
          | trades => exact ⟨tr, hways₁.symm.writable htr⟩
          | book => exact ⟨b, (hways₁.trans hways₂).symm.writable hb⟩
        obtain ⟨place, hplace⟩ := Classical.skolem.mp hplaces
        exact ⟨made, place, hmade, hplace⟩

end Usable

/-! ## Loading -/

theorem holds_line (r : Record) (number : Nat) : Line.Holds ⟨r.kind, number, r.line⟩ r.unsigned :=
  ⟨_, ⟨Bytes.text?_ofText _, Json.not_blank_render (r.fits_toJson 0).proper⟩, r.parse?_render, r.kind_unsigned⟩

theorem reads_lines (path : Kind → String) (kind : Kind) (number : Nat) {records : List Record}
    (h : ∀ r ∈ records, r.kind = kind) :
    Reads path (fileLines kind number (records.map Record.line)) (.ok (records.map Record.unsigned)) := by
  induction records generalizing number with
  | nil => exact .nil
  | cons r rs ih =>
    obtain ⟨rfl, hrs⟩ := List.forall_mem_cons.mp h
    exact .record (holds_line r number) (ih (number + 1) hrs)

theorem lines_text (records : List Record) : (text records).lines = records.map Record.line :=
  Bytes.lines_flatMap fun r _ =>
    ⟨Json.newline_not_mem_render (r.fits_toJson 0).proper, Json.carriageReturn_not_mem_render (r.fits_toJson 0).proper⟩

theorem load_of_content (h : Writable t directory collection place) {records : Kind → List Record}
    (hkind : ∀ kind, ∀ r ∈ records kind, r.kind = kind)
    (hc : ∀ kind, (t.content? (place kind)).getD [] = text (records kind)) :
    load t directory collection = .ok (Kind.all.flatMap fun kind => (records kind).map Record.unsigned) := by
  have hfiles : HasFiles t directory collection fun kind => t.content? (place kind) :=
    hasFiles_of_content? h.places fun _ => rfl
  refine load_of_ok fun kind => ?_
  have hreads := reads_loadKind hfiles kind
  rw [hc, lines_text] at hreads
  exact hreads.unique (reads_lines _ kind 1 (hkind kind))

theorem filter_flatMap_all {records : Kind → List Record} (h : ∀ kind, ∀ r ∈ records kind, r.kind = kind) (kind : Kind) :
    (Kind.all.flatMap records).filter (·.kind = kind) = records kind := by
  have hpart : ∀ k, (records k).filter (·.kind = kind) = if k = kind then records k else [] := by
    intro k
    split
    next hk => exact List.filter_eq_self.mpr fun r hr => decide_eq_true ((h k r hr).trans hk)
    next hk => exact List.filter_eq_nil_iff.mpr fun r hr heq => hk ((h k r hr).symm.trans (of_decide_eq_true heq))
  rw [List.filter_flatMap]
  simp only [hpart]
  cases kind <;> simp [Kind.all]

end Collection
end MarketMinutes
