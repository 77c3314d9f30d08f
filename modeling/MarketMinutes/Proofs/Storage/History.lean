import MarketMinutes.Proofs.Storage.Store
import MarketMinutes.Storage.Session

/-!
# Histories of a collection

A collection is visited any number of times: opened, written to, flushed in
between, and closed. After that it holds the records written since the last
visit that dropped what was there, and they are what is loaded from it.
-/

namespace MarketMinutes

inductive Deed where
  | write (records : List Record)
  | flush

/-- One time that a collection is opened, used and closed. -/
structure Visit where
  drop : Bool
  deeds : List Deed

def Deed.records : Deed → List Record
  | write records => records
  | flush => []

namespace Visit

def records (v : Visit) : List Record :=
  v.deeds.flatMap Deed.records

def onto (before : List Record) (v : Visit) : List Record :=
  if v.drop then v.records else before ++ v.records

/-- The records written since the last visit that dropped what was there. -/
def kept (vs : List Visit) : List Record :=
  vs.foldl onto []

end Visit

namespace Session

def perform (s : Session) : Deed → Session
  | .write records => (s.write records).1
  | .flush => s.flush

/-- The session after a visit, and how many records its store has written, or why it was not opened. -/
def visit (s : Session) (v : Visit) : Session × Except PathError (Option Nat) :=
  match s.open v.drop with
  | (s, .error e) => (s, .error e)
  | (s, .ok ()) =>
    let s := v.deeds.foldl perform s
    (s.close, .ok (s.store.map (·.recordsWritten)))

def visits (s : Session) : List Visit → Session × List (Except PathError (Option Nat))
  | [] => (s, [])
  | v :: vs =>
    let (s, count) := s.visit v
    let (s, counts) := s.visits vs
    (s, count :: counts)

def bytes (s : Session) (kind : Kind) : Bytes :=
  match s.tree.lookup? (s.path kind) with
  | some (.file content) => content
  | _ => []

/-- No store is open, and the files hold these records. -/
structure Holds (s : Session) (place : Kind → Location) (records : List Record) : Prop where
  closed : s.store = none
  writable : Collection.Writable s.tree s.directory s.collection place
  content : ∀ kind, (s.tree.content? (place kind)).getD [] = Collection.text (records.filter (·.kind = kind))

/-- A store is open, has written these records and makes these texts. -/
structure Makes (s : Session) (place : Kind → Location) (text : Kind → Bytes) (written : List Record) : Prop where
  writable : Collection.Writable s.tree s.directory s.collection place
  store : ∃ store, s.store = some store ∧ store.recordsWritten = written.length ∧
    store.Brings s.tree place fun kind => text kind ++ Collection.text (written.filter (·.kind = kind))

variable {s : Session} {place : Kind → Location} {text : Kind → Bytes} {records written : List Record}

theorem Makes.write (h : s.Makes place text written) (rs : List Record) :
    (s.perform (.write rs)).Makes place text (written ++ rs) := by
  obtain ⟨store, hs, hcount, hbrings⟩ := h.store
  obtain ⟨hput, hcount', hbrings'⟩ := hbrings.writeAll h.writable.injective rs
  have hperform : s.perform (.write rs) =
      { s with
        tree := (rs.foldl (fun ts r => ts.2.write ts.1 r) (s.tree, store)).1
        store := some (rs.foldl (fun ts r => ts.2.write ts.1 r) (s.tree, store)).2 } := by
    simp only [perform, Session.write, hs]
  rw [hperform]
  refine ⟨h.writable.sameWays hput.sameWays, _, rfl, ?_, ?_⟩
  · rw [hcount', hcount, List.length_append]
  · simp only [List.filter_append, Collection.text_append, ← List.append_assoc]
    exact hbrings'

theorem Makes.flush (h : s.Makes place text written) : (s.perform .flush).Makes place text written := by
  obtain ⟨store, hs, hcount, hbrings⟩ := h.store
  obtain ⟨hput, hcount', hbrings', -⟩ := hbrings.flush h.writable.injective
  have hperform : s.perform .flush = { s with tree := (store.flush s.tree).1, store := some (store.flush s.tree).2 } := by
    simp only [perform, Session.flush, hs]
  rw [hperform]
  exact ⟨h.writable.sameWays hput.sameWays, _, rfl, hcount'.trans hcount, hbrings'⟩

theorem Makes.perform (h : s.Makes place text written) (deed : Deed) :
    (s.perform deed).Makes place text (written ++ deed.records) := by
  cases deed with
  | write rs => exact h.write rs
  | flush =>
    rw [Deed.records, List.append_nil]
    exact h.flush

theorem Makes.performAll (h : s.Makes place text written) (deeds : List Deed) :
    (deeds.foldl Session.perform s).Makes place text (written ++ deeds.flatMap Deed.records) := by
  induction deeds generalizing s written with
  | nil =>
    rw [List.flatMap_nil, List.append_nil]
    exact h
  | cons deed deeds ih =>
    rw [List.foldl_cons, List.flatMap_cons, ← List.append_assoc]
    exact ih (h.perform deed)

theorem Holds.open (h : s.Holds place records) (drop : Bool) :
    ∃ s', s.open drop = (s', .ok ()) ∧
      s'.Makes place (fun kind => if drop then [] else Collection.text (records.filter (·.kind = kind))) [] := by
  obtain ⟨store, hopen, hcount, hbrings⟩ := h.writable.open drop
  have hclose : s.close = s := by simp only [close, h.closed]
  let t := s.tree.putKinds place (Collection.opening s.tree place drop)
  refine ⟨{ s with tree := t, store := some store }, ?_, h.writable.sameWays (.putKinds ..), store, rfl, hcount, ?_⟩
  · simp only [Session.open, hclose, hopen, t]
  · have htext : Collection.opening s.tree place drop =
        fun kind => (if drop then [] else Collection.text (records.filter (·.kind = kind))) ++ Collection.text [] := by
      funext kind
      rw [Collection.opening, Writer.opening, h.content]
      exact (List.append_nil _).symm
    have hbrings' : store.Brings t place (Collection.opening s.tree place drop) := hbrings
    rw [htext] at hbrings'
    exact hbrings'

theorem Makes.close (h : s.Makes place text written)
    (ht : ∀ kind, text kind ++ Collection.text (written.filter (·.kind = kind)) =
      Collection.text (records.filter (·.kind = kind))) : s.close.Holds place records := by
  obtain ⟨store, hs, -, hbrings⟩ := h.store
  obtain ⟨hput, -, -, hcontent⟩ := hbrings.flush h.writable.injective
  have hclose : s.close = { s with tree := (store.flush s.tree).1, store := none } := by
    simp only [Session.close, hs, Store.close]
  rw [hclose]
  refine ⟨rfl, h.writable.sameWays hput.sameWays, fun kind => ?_⟩
  rw [hcontent, Option.getD_some, ht]

theorem Holds.visit (h : s.Holds place records) (v : Visit) :
    ∃ s', s.visit v = (s', .ok (some v.records.length)) ∧ s'.Holds place (Visit.onto records v) := by
  obtain ⟨s', hopen, hmakes⟩ := h.open v.drop
  have hdone := hmakes.performAll v.deeds
  rw [List.nil_append] at hdone
  obtain ⟨store, hs, hcount, -⟩ := hdone.store
  refine ⟨(v.deeds.foldl Session.perform s').close, ?_, hdone.close fun kind => ?_⟩
  · simp only [Session.visit, hopen, hs, Option.map_some, hcount, Visit.records]
  · cases hd : v.drop with
    | true => simp [Visit.onto, hd, Visit.records]
    | false => simp [Visit.onto, hd, Visit.records, Collection.text_append]

theorem Holds.visits (h : s.Holds place records) (vs : List Visit) :
    ∃ s', s.visits vs = (s', vs.map fun v => .ok (some v.records.length)) ∧
      s'.Holds place (vs.foldl Visit.onto records) := by
  induction vs generalizing s records with
  | nil => exact ⟨s, rfl, h⟩
  | cons v vs ih =>
    obtain ⟨s', hvisit, h'⟩ := h.visit v
    obtain ⟨s'', hvisits, h''⟩ := ih h'
    exact ⟨s'', by simp only [Session.visits, hvisit, hvisits, List.map_cons], h''⟩

/-! ## What is loaded -/

/-- The records of a collection as they are loaded from it. -/
def loaded (records : List Record) : List Record :=
  Kind.all.flatMap fun kind => (records.filter (·.kind = kind)).map Record.unsigned

theorem load_putKinds {t : FileTree} {directory collection : String}
    (h : Collection.Writable t directory collection place) (records : List Record) :
    Collection.load (t.putKinds place fun kind => Collection.text (records.filter (·.kind = kind))) directory collection =
      .ok (loaded records) := by
  refine Collection.load_of_content (h.sameWays (.putKinds ..)) (fun kind r hr => ?_) fun kind => ?_
  · simpa using (List.mem_filter.mp hr).2
  · rw [FileTree.content?_putKinds h.injective]
    rfl

theorem Holds.load (h : s.Holds place records) : s.load = .ok (loaded records) := by
  refine Collection.load_of_content h.writable (fun kind r hr => ?_) h.content
  simpa using (List.mem_filter.mp hr).2

theorem Holds.bytes (h : s.Holds place records) (kind : Kind) :
    s.bytes kind = Collection.text (records.filter (·.kind = kind)) := by
  have hlookup := FileTree.lookup?_of_writable (h.writable.places kind)
  unfold Session.bytes Session.path
  rw [← h.content, hlookup]
  cases s.tree.content? (place kind) with
  | none => rfl
  | some content => rfl

theorem map_unsigned_filter (records : List Record) (kind : Kind) :
    (records.filter (·.kind = kind)).map Record.unsigned = (records.map Record.unsigned).filter (·.kind = kind) := by
  have hcomp : (fun r : Record => decide (r.kind = kind)) ∘ Record.unsigned = fun r => decide (r.kind = kind) :=
    funext fun r => by rw [Function.comp, Record.kind_unsigned]
  rw [List.filter_map, hcomp]

theorem loaded_congr {xs ys : List Record} (h : xs.map Record.unsigned = ys.map Record.unsigned) :
    loaded xs = loaded ys := by
  unfold loaded
  simp only [map_unsigned_filter, h]

theorem filter_loaded (records : List Record) (kind : Kind) :
    (loaded records).filter (·.kind = kind) = (records.filter (·.kind = kind)).map Record.unsigned := by
  refine Collection.filter_flatMap_all (fun k r hr => ?_) kind
  obtain ⟨r, hmem, rfl⟩ := List.mem_map.mp hr
  exact r.kind_unsigned.trans (of_decide_eq_true (List.mem_filter.mp hmem).2)

theorem holds_of_fresh {t : FileTree} {directory collection : String}
    (h : Collection.Writable t directory collection place)
    (hfresh : ∀ kind, t.lookup? (Collection.path directory collection kind) = none) :
    (Session.mk t directory collection none).Holds place [] := by
  refine ⟨rfl, h, fun kind => ?_⟩
  rw [h.content?_eq_none (hfresh kind)]
  rfl

/-- After any visits to a directory without files of the collection, every visit has counted the records it wrote,
and what is loaded are the records written since the last visit that dropped what was there, kind after kind, each
in the order of writing and with no sign on a zero; number and scale of every decimal are kept. To write them anew
makes the same file, byte for byte, of every kind whose records had no sign on a zero. -/
theorem visits_round_trip {t : FileTree} {directory collection : String}
    (h : Collection.Writable t directory collection place)
    (hfresh : ∀ kind, t.lookup? (Collection.path directory collection kind) = none) (vs : List Visit) :
    ∃ s, (Session.mk t directory collection none).visits vs = (s, vs.map fun v => .ok (some v.records.length)) ∧
      s.load = .ok (loaded (Visit.kept vs)) ∧
      (∀ d : Decimal, d.unsigned.number = d.number ∧ d.unsigned.scale = d.scale) ∧
      ∀ kind, (∀ r ∈ Visit.kept vs, r.kind = kind → r.unsigned = r) →
        (s.visit ⟨true, [.write (loaded (Visit.kept vs))]⟩).1.bytes kind = s.bytes kind := by
  obtain ⟨s, hvisits, hs⟩ := (holds_of_fresh h hfresh).visits vs
  change s.Holds place (Visit.kept vs) at hs
  refine ⟨s, hvisits, hs.load, fun d => ⟨d.number_unsigned, rfl⟩, fun kind hsigns => ?_⟩
  obtain ⟨s', hvisit, hs'⟩ := hs.visit ⟨true, [.write (loaded (Visit.kept vs))]⟩
  have honto : Visit.onto (Visit.kept vs) ⟨true, [.write (loaded (Visit.kept vs))]⟩ = loaded (Visit.kept vs) :=
    List.append_nil _
  have hsame : ((Visit.kept vs).filter (·.kind = kind)).map Record.unsigned = (Visit.kept vs).filter (·.kind = kind) := by
    refine (List.map_congr_left fun r hr => ?_).trans (List.map_id _)
    obtain ⟨hmem, hkind⟩ := List.mem_filter.mp hr
    exact hsigns r hmem (of_decide_eq_true hkind)
  rw [hvisit, hs'.bytes, hs.bytes, honto, filter_loaded, hsame]

/-! ## In an empty directory -/

def emptyDirectory : FileTree :=
  ⟨[["d"]], [], []⟩

def placeIn (kind : Kind) : Location :=
  ["d", "c" ++ Collection.ending kind]

theorem emptyDirectory_writable : Collection.Writable emptyDirectory "d" "c" placeIn where
  found := .inr rfl
  places := fun kind => by cases kind <;> decide +kernel

theorem emptyDirectory_fresh (kind : Kind) : emptyDirectory.lookup? (Collection.path "d" "c" kind) = none := by
  cases kind <;> rfl

/-- A record of quotes after one of a book, in a visit that keeps it. -/
theorem visits_round_trip_of_two :
    Collection.Writable emptyDirectory "d" "c" placeIn ∧
      (∀ kind, emptyDirectory.lookup? (Collection.path "d" "c" kind) = none) ∧
      let b : Record := .book ⟨1, none, [.one], [], "\n"⟩
      let q : Record := .quotes ⟨2, none, .ofPrice .one, .ofPrice .two, .ofPrice .zero⟩
      let vs : List Visit := [⟨true, [.write [b]]⟩, ⟨false, [.flush, .write [q]]⟩]
      ∃ s, (Session.mk emptyDirectory "d" "c" none).visits vs = (s, [.ok (some 1), .ok (some 1)]) ∧
        s.load = .ok [q, b] ∧ ∀ kind, (s.visit ⟨true, [.write [q, b]]⟩).1.bytes kind = s.bytes kind := by
  refine ⟨emptyDirectory_writable, emptyDirectory_fresh, ?_⟩
  intro b q vs
  obtain ⟨s, hvisits, hload, -, hagain⟩ := visits_round_trip emptyDirectory_writable emptyDirectory_fresh vs
  have hloaded : loaded (Visit.kept vs) = [q, b] := by decide +kernel
  rw [hloaded] at hload hagain
  have hsigns : ∀ r ∈ Visit.kept vs, r.unsigned = r := by decide +kernel
  exact ⟨s, hvisits, hload, fun kind => hagain kind fun r hr _ => hsigns r hr⟩

/-- A zero that was written with a sign is loaded without it, so writing it anew does not make the same file. -/
theorem visits_drop_sign_of_zero :
    let b : Record := .book ⟨1, none, [⟨true, 0, 28, by decide, by decide⟩], [], "x"⟩
    ∃ s loaded, (Session.mk emptyDirectory "d" "c" none).visits [⟨true, [.write [b]]⟩] = (s, [.ok (some 1)]) ∧
      s.load = .ok loaded ∧ (s.visit ⟨true, [.write loaded]⟩).1.bytes .book ≠ s.bytes .book := by
  intro b
  obtain ⟨s, hvisits, hs⟩ := (holds_of_fresh emptyDirectory_writable emptyDirectory_fresh).visits [⟨true, [.write [b]]⟩]
  obtain ⟨s', hvisit, hs'⟩ := hs.visit ⟨true, [.write (loaded [b])]⟩
  refine ⟨s, loaded [b], hvisits, hs.load, ?_⟩
  rw [hvisit, hs'.bytes, hs.bytes]
  decide +kernel

end Session
end MarketMinutes
