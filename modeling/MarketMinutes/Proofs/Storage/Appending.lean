import MarketMinutes.Proofs.Json.Trailing
import MarketMinutes.Proofs.Storage.History
import MarketMinutes.Proofs.Storage.Loading
import MarketMinutes.Proofs.Storage.Store

/-!
# Appending to files of any shape

What a store appends goes right behind the bytes of a file. If these end in a
newline, every record becomes a line of its own. A last line without an end is
read all the same, but once the first record has been appended it is no record
any more.
-/

namespace MarketMinutes

/-! ## Lines run together -/

namespace Record

theorem exists_render (r : Record) : ∃ tail, r.toJson.render = String.ofList ('\x7b' :: tail) :=
  ⟨_, congrArg String.ofList (Json.text_object _)⟩

theorem line_ne_nil (r : Record) : r.line ≠ [] :=
  Json.ofText_render_ne_nil (r.fits_toJson 0).proper

variable {s : String}

theorem parse?_gaps_append (hs : s.toList.all Json.isGap = true) (r : Record) :
    parse? (s ++ r.toJson.render) = some r.unsigned := by
  rw [parse?, Json.parse?_gaps_append hs (r.fits_toJson 0).proper]
  exact r.ofJson?_toJson

theorem parse?_blank_append (hb : Text.allBlank s = true) (hs : s.toList.all Json.isGap = false) (r : Record) :
    parse? (s ++ r.toJson.render) = none := by
  rw [parse?, Json.parse?_blank_append hb hs]
  rfl

theorem parse?_record_append {r' : Record} (hs : parse? s = some r') (r : Record) :
    parse? (s ++ r.toJson.render) = none := by
  obtain ⟨j, hj, -⟩ := Option.bind_eq_some_iff.mp hs
  obtain ⟨tail, htail⟩ := r.exists_render
  rw [parse?, htail, Json.parse?_append_brace hj]
  rfl

/-- A record's line is not blank, whatever text runs into it. -/
theorem spells_append {bytes : Bytes} (hs : Bytes.text? bytes = some s) (r : Record) :
    (bytes ++ r.line).Spells (s ++ r.toJson.render) := by
  refine ⟨Bytes.text?_append hs (Bytes.text?_ofText _), ?_⟩
  have hrender := Json.not_blank_render (r.fits_toJson 0).proper
  rw [Text.allBlank] at hrender ⊢
  rw [String.toList_append, List.all_append, hrender, Bool.and_false]

end Record

namespace Bytes

/-- Behind the last newline is nothing that a record behind it could not stand: nothing at all, or gaps of JSON. -/
def endsClear (bytes : Bytes) : Bool :=
  (text? bytes.openEnd).any fun s => s.toList.all Json.isGap

theorem openEnd_ne_nil {bytes : Bytes} (h : bytes.endsClear = false) : bytes.openEnd ≠ [] := by
  intro hnil
  rw [endsClear, hnil] at h
  cases h

theorem blank_openEnd {bytes : Bytes} (h : bytes.endsClear = true) :
    ∀ line ∈ bytes.openEnd.lines, line.isBlank = true := by
  obtain ⟨s, hs, hgaps⟩ := (Option.any_eq_true _ _).mp h
  have hall : Text.allBlank s = true :=
    List.all_eq_true.mpr fun c hc => Json.isBlank_of_isGap (List.all_eq_true.mp hgaps c hc)
  have hblank : bytes.openEnd.isBlank = true := (Option.any_eq_true _ _).mpr ⟨s, hs, hall⟩
  rw [lines_openEnd]
  split
  next => simp
  next => simpa using hblank

/-- The first record that is appended goes on with what stands behind the last newline. -/
theorem exists_lines_append_text (bytes : Bytes) : ∃ ended : Bytes, bytes.lines = ended.lines ++ bytes.openEnd.lines ∧
    ∀ (r : Record) (rs : List Record), (bytes ++ Collection.text (r :: rs)).lines =
      ended.lines ++ (bytes.openEnd ++ r.line) :: rs.map Record.line := by
  obtain ⟨ended, hbytes, hlines⟩ := bytes.exists_ended
  refine ⟨ended, ?_, fun r rs => ?_⟩
  · rw [← hlines, ← hbytes]
  · have htext : bytes ++ Collection.text (r :: rs) =
        ended ++ ((bytes.openEnd ++ r.line) ++ newline :: Collection.text rs) := by
      conv => lhs; rw [hbytes]
      simp [Collection.text]
    have hnewline : newline ∉ bytes.openEnd ++ r.line := by
      rw [List.mem_append, not_or]
      exact ⟨bytes.newline_not_mem_openEnd, Json.newline_not_mem_render (r.fits_toJson 0).proper⟩
    have hkept : dropReturn (bytes.openEnd ++ r.line) = bytes.openEnd ++ r.line := by
      refine if_neg fun hlast => ?_
      rw [List.getLast?_append_of_ne_nil _ r.line_ne_nil] at hlast
      exact Json.carriageReturn_not_mem_render (r.fits_toJson 0).proper (List.mem_of_getLast? hlast)
    rw [htext, hlines, lines_append hnewline, hkept, Collection.lines_text]

end Bytes

namespace Collection

/-! ## Reading what was appended -/

section
variable {path : Kind → String} {kind : Kind} {bytes : Bytes} {old added : List Record}

theorem reads_of_blank {number : Nat} {lines : List Bytes} (h : ∀ line ∈ lines, line.isBlank = true) :
    Reads path (fileLines kind number lines) (.ok []) := by
  induction lines generalizing number with
  | nil => exact .nil
  | cons line lines ih =>
    obtain ⟨hline, hlines⟩ := List.forall_mem_cons.mp h
    exact .blank hline (ih hlines)

theorem reads_append_clear (h : Reads path (fileLines kind 1 bytes.lines) (.ok old)) (hclear : bytes.endsClear = true)
    (hadded : ∀ r ∈ added, r.kind = kind) :
    Reads path (fileLines kind 1 (bytes ++ text added).lines) (.ok (old ++ added.map Record.unsigned)) := by
  obtain ⟨s, hs, hgaps⟩ := (Option.any_eq_true _ _).mp hclear
  cases added with
  | nil => simpa [text] using h
  | cons r rs =>
    obtain ⟨ended, hlines, happend⟩ := bytes.exists_lines_append_text
    rw [hlines, fileLines_append] at h
    obtain ⟨front, back, rfl, hfront, hback⟩ := h.of_append
    -- What stood behind the last newline was no record, so none is lost when the first of the new ones joins it.
    cases hback.unique (reads_of_blank (Bytes.blank_openEnd hclear))
    obtain ⟨hr, hrs⟩ := List.forall_mem_cons.mp hadded
    have hrest := reads_lines path kind (1 + ended.lines.length + 1) hrs
    have hline : Line.Holds ⟨kind, 1 + ended.lines.length, bytes.openEnd ++ r.line⟩ r.unsigned :=
      ⟨_, r.spells_append hs, r.parse?_gaps_append hgaps, by rw [Record.kind_unsigned, hr]⟩
    rw [happend, fileLines_append, List.append_nil]
    exact hfront.append (hrest.record hline)

theorem reads_append_unclear (h : Reads path (fileLines kind 1 bytes.lines) (.ok old)) (hclear : bytes.endsClear = false)
    (r : Record) (rs : List Record) :
    Reads path (fileLines kind 1 (bytes ++ text (r :: rs)).lines)
      (.error (.corrupt (path kind) bytes.lines.length .garbled)) := by
  obtain ⟨ended, hlines, happend⟩ := bytes.exists_lines_append_text
  have hopen : bytes.openEnd.lines = [bytes.openEnd] := by
    rw [Bytes.lines_openEnd, if_neg (Bytes.openEnd_ne_nil hclear)]
  rw [hopen] at hlines
  rw [hlines, fileLines_append] at h
  obtain ⟨front, back, -, hfront, hback⟩ := h.of_append
  have hfault : Line.Fault path ⟨kind, 1 + ended.lines.length, bytes.openEnd ++ r.line⟩
      (.corrupt (path kind) (1 + ended.lines.length) .garbled) := by
    rcases hback.1 _ (List.mem_singleton_self _) with hb | ⟨r', s, hs, hr', -⟩
    · -- The line was blank, but with a blank that JSON does not know, so it may not stand in front of a record.
      obtain ⟨s, hs, hblank⟩ := (Option.any_eq_true _ _).mp hb
      have hgaps := (Option.any_eq_false _ _).mp hclear s hs
      exact .garbled (r.spells_append hs) (r.parse?_blank_append hblank hgaps)
    · exact .garbled (r.spells_append hs.1) (Record.parse?_record_append hr' r)
  rw [happend, fileLines_append, hlines, List.length_append, List.length_singleton, Nat.add_comm _ 1]
  exact hfront.append (.fault hfault _)

end

/-! ## Opening and writing -/

/-- Records of this kind are appended to a file in which more than gaps stand behind the last newline. -/
def RunsOn (contents : Kind → Option Bytes) (added : List Record) (kind : Kind) : Prop :=
  (∃ r ∈ added, r.kind = kind) ∧ ((contents kind).getD []).endsClear = false

instance (contents : Kind → Option Bytes) (added : List Record) (kind : Kind) :
    Decidable (RunsOn contents added kind) :=
  inferInstanceAs (Decidable (_ ∧ _))

section
variable {t made : FileTree} {directory collection : String} {place : Kind → Location}
  {contents : Kind → Option Bytes} {old : List Record}

theorem HasFiles.content?_eq (h : HasFiles t directory collection contents) (hw : Writable t directory collection place)
    (kind : Kind) : t.content? (place kind) = contents kind := by
  have hlookup := FileTree.lookup?_of_writable (hw.places kind)
  rw [h kind] at hlookup
  exact (Option.map_injective (fun _ _ heq => FileTree.Entry.file.inj heq) hlookup).symm

theorem loadKind_of_load (h : HasFiles t directory collection contents) (hload : load t directory collection = .ok old)
    (kind : Kind) : loadKind t directory collection kind = .ok (old.filter (·.kind = kind)) := by
  obtain ⟨records, hrecords, rfl⟩ := exists_of_load hload
  have hkind : ∀ kind, ∀ r ∈ records kind, r.kind = kind := by
    intro kind
    have hreads := reads_loadKind h kind
    rw [hrecords] at hreads
    exact hreads.kind_eq
  rw [filter_flatMap_all hkind, hrecords]

section
variable {added : List Record} {kind : Kind} (hfiles : HasFiles t directory collection fun kind =>
    some ((contents kind).getD [] ++ text (added.filter (·.kind = kind))))
  (hold : Reads (path directory collection) (fileLines kind 1 ((contents kind).getD []).lines) (.ok old))
include hfiles hold

theorem loadKind_of_not_runsOn (hruns : ¬ RunsOn contents added kind) :
    loadKind t directory collection kind = .ok (old ++ (added.filter (·.kind = kind)).map Record.unsigned) := by
  have hnew := reads_loadKind hfiles kind
  cases hclear : ((contents kind).getD []).endsClear with
  | true =>
    exact hnew.unique (reads_append_clear hold hclear fun r hr => of_decide_eq_true (List.mem_filter.mp hr).2)
  | false =>
    have hnone : added.filter (·.kind = kind) = [] :=
      List.filter_eq_nil_iff.mpr fun r hr hk => hruns ⟨⟨r, hr, of_decide_eq_true hk⟩, hclear⟩
    have hsame : (contents kind).getD [] ++ text [] = (contents kind).getD [] := List.append_nil _
    rw [hnone, Option.getD_some, hsame] at hnew
    rw [hnone, List.map_nil, List.append_nil]
    exact hnew.unique hold

theorem loadKind_of_runsOn (hruns : RunsOn contents added kind) :
    loadKind t directory collection kind =
      .error (.corrupt (path directory collection kind) ((contents kind).getD []).lines.length .garbled) := by
  obtain ⟨⟨r, hr, hk⟩, hclear⟩ := hruns
  obtain ⟨first, rest, hadded⟩ : ∃ first rest, added.filter (·.kind = kind) = first :: rest :=
    List.exists_cons_of_ne_nil (List.ne_nil_of_mem (List.mem_filter.mpr ⟨hr, decide_eq_true hk⟩))
  have hnew := reads_loadKind hfiles kind
  rw [hadded] at hnew
  exact hnew.unique (reads_append_unclear hold hclear first rest)

end

/-- The files that are left once records have been appended to what was there. -/
theorem Usable.exists_open (h : Usable t directory collection made place)
    (hafter : HasFiles made directory collection contents) :
    ∃ t' s, Store.open t directory collection false = (t', .ok s) ∧ ∀ added : List Record,
      let ts := added.foldl (fun ts r => ts.2.write ts.1 r) (t', s)
      HasFiles (ts.2.close ts.1) directory collection fun kind =>
        some ((contents kind).getD [] ++ text (added.filter (·.kind = kind))) := by
  obtain ⟨s, hopen, -, hclose⟩ := h.writable.close_of_writes false
  refine ⟨_, s, (h.open_eq false).trans hopen, fun added => ?_⟩
  have hways := h.writable.sameWays (.putKinds made place fun kind =>
    opening made place false kind ++ text (added.filter (·.kind = kind)))
  have hopening : ∀ kind, opening made place false kind = (contents kind).getD [] := by
    intro kind
    rw [← hafter.content?_eq h.writable]
    rfl
  simp only [(hclose added).1]
  refine hasFiles_of_content? hways.places fun kind => ?_
  rw [FileTree.content?_putKinds h.writable.injective, hopening]

/-- A collection that can be loaded is opened with what it holds, written to and closed. Then it holds the records
it held and behind them, kind by kind, those that were written, with no sign on a zero, unless one of these was put
behind a last line without an end. In the first file where that is so, the line is no record any more. -/
theorem appends_unless_running_on (h : Usable t directory collection made place)
    (hbefore : HasFiles t directory collection contents) (hafter : HasFiles made directory collection contents)
    (hload : load t directory collection = .ok old) (added : List Record) :
    ∃ t' s, Store.open t directory collection false = (t', .ok s) ∧
      let ts := added.foldl (fun ts r => ts.2.write ts.1 r) (t', s)
      let left := ts.2.close ts.1
      ((∀ kind, ¬ RunsOn contents added kind) → load left directory collection = .ok (Kind.all.flatMap fun kind =>
        old.filter (·.kind = kind) ++ (added.filter (·.kind = kind)).map Record.unsigned)) ∧
      ∀ before kind behind, Kind.all = before ++ kind :: behind → (∀ k ∈ before, ¬ RunsOn contents added k) →
        RunsOn contents added kind → load left directory collection =
          .error (.corrupt (path directory collection kind) ((contents kind).getD []).lines.length .garbled) := by
  obtain ⟨t', s, hopen, hfiles⟩ := h.exists_open hafter
  have hold : ∀ kind, Reads (path directory collection) (fileLines kind 1 ((contents kind).getD []).lines)
      (.ok (old.filter (·.kind = kind))) := by
    intro kind
    rw [← loadKind_of_load hbefore hload]
    exact reads_loadKind hbefore kind
  refine ⟨t', s, hopen, fun hruns => ?_, fun before kind behind hall hbehind hruns => ?_⟩
  · exact load_of_ok fun kind => loadKind_of_not_runsOn (hfiles added) (hold kind) (hruns kind)
  · refine load_of_first_error hall (fun k hk => ?_) (loadKind_of_runsOn (hfiles added) (hold kind) hruns)
    exact ⟨_, loadKind_of_not_runsOn (hfiles added) (hold k) (hbehind k hk)⟩

end

/-- A file of one book whose line has no end: quotes can be appended beside it, but no book behind it. -/
theorem appends_unless_running_on_beside_and_behind :
    let b : Record := .book ⟨1, none, [], [.one], "x"⟩
    let q : Record := .quotes ⟨2, none, .ofPrice .one, .ofPrice .two, .ofPrice .zero⟩
    let t : FileTree := ⟨[["d"]], [(Session.placeIn .book, b.line)], []⟩
    let contents : Kind → Option Bytes := fun kind => if kind = .book then some b.line else none
    Usable t "d" "c" t Session.placeIn ∧ HasFiles t "d" "c" contents ∧ load t "d" "c" = .ok [b] ∧
      ∃ t' s, Store.open t "d" "c" false = (t', .ok s) ∧
        let close := fun added : List Record =>
          let ts := added.foldl (fun ts r => ts.2.write ts.1 r) (t', s)
          ts.2.close ts.1
        load (close [q]) "d" "c" = .ok [q, b] ∧
          load (close [q, b]) "d" "c" = .error (.corrupt "d/c_OrderBookMinutes.jsonl" 1 .garbled) := by
  intro b q t contents
  have h : Usable t "d" "c" t Session.placeIn :=
    ⟨rfl, fun kind => by cases kind <;> decide +kernel⟩
  have hfiles : HasFiles t "d" "c" contents := hasFiles_of_content? h.places fun kind => by cases kind <;> decide +kernel
  have hload : load t "d" "c" = .ok [b] := by decide +kernel
  obtain ⟨t', s, hopen, hclear, -⟩ := appends_unless_running_on h hfiles hfiles hload [q]
  obtain ⟨t'', s', hopen', -, hruns⟩ := appends_unless_running_on h hfiles hfiles hload [q, b]
  obtain ⟨rfl, hs⟩ := Prod.mk.inj (hopen.symm.trans hopen')
  obtain rfl := Except.ok.inj hs
  have hbeside := hclear fun kind => by cases kind <;> decide +kernel
  have hbehind := hruns [.quotes, .trades] .book [] rfl (by decide +kernel) (by decide +kernel)
  have hpath : path "d" "c" .book = "d/c_OrderBookMinutes.jsonl" := by decide +kernel
  have hnumber : ((contents .book).getD []).lines.length = 1 := by decide +kernel
  rw [hpath, hnumber] at hbehind
  exact ⟨h, hfiles, hload, t', s, hopen, hbeside, hbehind⟩

/-- Behind a line without an end, not even the record of that line can be loaded any more. -/
theorem appends_spoil_unended_line :
    ¬ ∀ (t made : FileTree) (directory collection : String) (place : Kind → Location) (contents : Kind → Option Bytes)
      (old added : List Record), Usable t directory collection made place → HasFiles t directory collection contents →
      HasFiles made directory collection contents → load t directory collection = .ok old →
      ∃ t' s, Store.open t directory collection false = (t', .ok s) ∧
        let ts := added.foldl (fun ts r => ts.2.write ts.1 r) (t', s)
        ∃ records, load (ts.2.close ts.1) directory collection = .ok records := by
  intro h
  let b : Record := .book ⟨1, none, [], [.one], "x"⟩
  let t : FileTree := ⟨[["d"]], [(Session.placeIn .book, b.line)], []⟩
  have husable : Usable t "d" "c" t Session.placeIn :=
    ⟨rfl, fun kind => by cases kind <;> decide +kernel⟩
  have hfiles := hasFiles_of_content? husable.places fun _ => rfl
  have hload : load t "d" "c" = .ok [b] := by decide +kernel
  obtain ⟨t', s, hopen, records, hleft⟩ := h t t "d" "c" Session.placeIn _ [b] [b] husable hfiles hfiles hload
  obtain ⟨t'', s', hopen', happended⟩ := husable.exists_open hfiles
  obtain ⟨rfl, hs⟩ := Prod.mk.inj (hopen.symm.trans hopen')
  obtain rfl := Except.ok.inj hs
  have hold := reads_loadKind hfiles .book
  rw [loadKind_of_load hfiles hload] at hold
  obtain ⟨kinds, hkinds, -⟩ := exists_of_load hleft
  cases (hkinds .book).symm.trans (loadKind_of_runsOn (happended [b]) hold (by decide +kernel))

end Collection
end MarketMinutes
