import MarketMinutes.Feed
import MarketMinutes.Proofs.Text.Lines

/-!
# Lines and arrivals

The arrivals of a feed are those of its lines, one line after another. Without
its bad lines a feed gives the documents that it gave with them.
-/

namespace MarketMinutes

/-- The line is no text, or a text that is neither blank nor a document. -/
def Document.badLine (line : Bytes) : Bool :=
  match Bytes.text? line with
  | none => true
  | some text => !Text.allBlank text && (Document.parse? text).isNone

theorem Document.badLine_eq (line : Bytes) :
    badLine line =
      match LineContent.ofLine parse? line with
      | .notText => true
      | .garbled => true
      | _ => false := by
  unfold badLine LineContent.ofLine
  cases Bytes.text? line with
  | none => rfl
  | some text =>
    cases hb : Text.allBlank text <;> cases hp : parse? text <;> simp [hb, hp]

namespace Arrival

/-- What lines give, so many lines counted before them. -/
def ofLines (counted : Nat) : List Bytes → List Arrival
  | [] => []
  | line :: lines =>
    match LineContent.ofLine Document.parse? line with
    | .notText => .error .notText :: ofLines counted lines
    | .blank => ofLines (counted + 1) lines
    | .garbled => .error (.garbled (counted + 1)) :: ofLines (counted + 1) lines
    | .value d => .ok d :: ofLines (counted + 1) lines

def documents (arrivals : List Arrival) : List Document :=
  arrivals.filterMap Except.toOption

def failures (arrivals : List Arrival) : List FeedError :=
  arrivals.filterMap fun
    | .error e => some e
    | .ok _ => none

@[simp] theorem documents_ok (d : Document) (arrivals : List Arrival) :
    documents (.ok d :: arrivals) = d :: documents arrivals := rfl

@[simp] theorem documents_error (e : FeedError) (arrivals : List Arrival) :
    documents (.error e :: arrivals) = documents arrivals := rfl

@[simp] theorem failures_ok (d : Document) (arrivals : List Arrival) :
    failures (.ok d :: arrivals) = failures arrivals := rfl

@[simp] theorem failures_error (e : FeedError) (arrivals : List Arrival) :
    failures (.error e :: arrivals) = e :: failures arrivals := rfl

/-- The lines before a document do not matter to it, but for their number in a failure. -/
theorem documents_ofLines (counted counted' : Nat) (lines : List Bytes) :
    documents (ofLines counted lines) = documents (ofLines counted' (lines.filter (!Document.badLine ·))) := by
  induction lines generalizing counted counted' with
  | nil => rfl
  | cons line lines ih =>
    cases h : LineContent.ofLine Document.parse? line with
    | notText =>
      have hb : Document.badLine line = true := by rw [Document.badLine_eq, h]
      simp [ofLines, h, hb, ih counted counted']
    | blank =>
      have hb : Document.badLine line = false := by rw [Document.badLine_eq, h]
      simp [ofLines, h, hb, ih (counted + 1) (counted' + 1)]
    | garbled =>
      have hb : Document.badLine line = true := by rw [Document.badLine_eq, h]
      simp [ofLines, h, hb, ih (counted + 1) counted']
    | value d =>
      have hb : Document.badLine line = false := by rw [Document.badLine_eq, h]
      simp [ofLines, h, hb, ih (counted + 1) (counted' + 1)]

theorem length_failures_ofLines (counted : Nat) (lines : List Bytes) :
    (failures (ofLines counted lines)).length = lines.countP Document.badLine := by
  induction lines generalizing counted with
  | nil => rfl
  | cons line lines ih =>
    cases h : LineContent.ofLine Document.parse? line <;>
      simp [ofLines, h, ih, Document.badLine_eq]

theorem ofLines_of_no_badLine {lines : List Bytes} (h : ∀ line ∈ lines, Document.badLine line = false)
    (counted : Nat) : ofLines counted lines = ofDocuments (documents (ofLines counted lines)) := by
  induction lines generalizing counted with
  | nil => rfl
  | cons line lines ih =>
    obtain ⟨hline, hlines⟩ := List.forall_mem_cons.mp h
    rw [Document.badLine_eq] at hline
    cases hc : LineContent.ofLine Document.parse? line <;> rw [hc] at hline
    · cases hline
    · simpa [ofLines, hc] using ih hlines (counted + 1)
    · cases hline
    · simpa [ofLines, hc, ofDocuments] using ih hlines (counted + 1)

end Arrival

namespace LineFeed

theorem arrivals_of_next_none {f f' : LineFeed} (h : f.next = (none, f')) : f.arrivals = [] := by
  unfold arrivals
  rw [drain]
  split
  · rfl
  next h' => cases h'.symm.trans h

theorem arrivals_of_next_some {f f' : LineFeed} {a : Arrival} (h : f.next = (some a, f')) :
    f.arrivals = a :: f'.arrivals := by
  unfold arrivals
  rw [drain]
  split
  next h' => cases h'.symm.trans h
  next a₁ f₁ h' =>
    cases h'.symm.trans h
    rfl

theorem arrivals_of_next_eq {f g : LineFeed} (h : f.next = g.next) : f.arrivals = g.arrivals := by
  rcases hg : g.next with ⟨_ | a, g'⟩
  · rw [arrivals_of_next_none hg, arrivals_of_next_none (h.trans hg)]
  · rw [arrivals_of_next_some hg, arrivals_of_next_some (h.trans hg)]

theorem arrivals_eq (f : LineFeed) : f.arrivals = Arrival.ofLines f.line f.rest.lines := by
  -- One arrival may stand behind any number of blank lines, so the induction is on the bytes that are left.
  induction hn : f.rest.length using Nat.strong_induction_on generalizing f with
  | _ n ih =>
    by_cases hr : f.rest = []
    · have hnext : f.next = (none, f) := by rw [next, dif_pos hr]
      rw [arrivals_of_next_none hnext, hr, Bytes.lines_nil]
      rfl
    · have hlt := Bytes.length_splitLine_lt hr
      have hskip := ih f.skip.rest.length (by rw [← hn]; exact hlt) f.skip rfl
      have hpass := ih f.pass.rest.length (by rw [← hn]; exact hlt) f.pass rfl
      rw [Bytes.lines, dif_neg hr]
      cases hc : LineContent.ofLine Document.parse? (Bytes.splitLine f.rest).1 with
      | notText =>
        have hnext : f.next = (some (.error .notText), f.pass) := by rw [next, dif_neg hr, hc]
        simp only [arrivals_of_next_some hnext, Arrival.ofLines, hc, hpass]
        rfl
      | blank =>
        have hnext : f.next = f.skip.next := by rw [next, dif_neg hr, hc]
        simp only [arrivals_of_next_eq hnext, Arrival.ofLines, hc, hskip]
        rfl
      | garbled =>
        have hnext : f.next = (some (.error (.garbled (f.line + 1))), f.skip) := by rw [next, dif_neg hr, hc]
        simp only [arrivals_of_next_some hnext, Arrival.ofLines, hc, hskip]
        rfl
      | value d =>
        have hnext : f.next = (some (.ok d), f.skip) := by rw [next, dif_neg hr, hc]
        simp only [arrivals_of_next_some hnext, Arrival.ofLines, hc, hskip]
        rfl

theorem arrivals_ofBytes (bytes : Bytes) : (ofBytes bytes).arrivals = Arrival.ofLines 0 bytes.lines :=
  arrivals_eq (ofBytes bytes)

theorem arrivals_of_no_badLine {bytes : Bytes} (h : ∀ line ∈ bytes.lines, Document.badLine line = false) :
    (ofBytes bytes).arrivals = Arrival.ofDocuments (Arrival.documents (ofBytes bytes).arrivals) := by
  rw [arrivals_ofBytes]
  exact Arrival.ofLines_of_no_badLine h 0

/-- Without its bad lines a feed gives the documents that it gave with them. -/
theorem arrivals_withoutLines (bytes : Bytes) :
    (ofBytes (bytes.withoutLines Document.badLine)).arrivals =
      Arrival.ofDocuments (Arrival.documents (ofBytes bytes).arrivals) := by
  have hlines := Bytes.lines_withoutLines Document.badLine bytes
  have hgood : ∀ line ∈ (bytes.withoutLines Document.badLine).lines, Document.badLine line = false := by
    intro line hline
    rw [hlines] at hline
    simpa using (List.mem_filter.mp hline).2
  rw [arrivals_of_no_badLine hgood, arrivals_ofBytes, arrivals_ofBytes, hlines, ← Arrival.documents_ofLines 0 0]

end LineFeed
end MarketMinutes
