import MarketMinutes.Proofs.Storage.FileTree
import MarketMinutes.Storage.Writer

/-!
# What buffered writing brings to a file

A file and the bytes held back for it make one text. A piece is added at the
end of that text, wherever the buffer is drained meanwhile; flushing leaves
the text as it is and brings all of it to the file.
-/

namespace MarketMinutes

theorem Bytes.overwrite_length (old new : Bytes) : old.overwrite old.length new = old ++ new := by
  simp [Bytes.overwrite]

namespace Writer

/-- The file and the pieces held back for it make this text. -/
structure Brings (w : Writer) (t : FileTree) (text : Bytes) : Prop where
  split : ∃ old, t.content? w.location = some old ∧ (w.position = .atEnd ∨ w.position = .offset old.length) ∧
    text = old ++ w.pending
  size : w.size = w.pending.length

/-- The writer has gone on, and its file and it make this text now. -/
structure Leads (t : FileTree) (w : Writer) (tw : FileTree × Writer) (text : Bytes) : Prop where
  changed : t.ChangedAt w.location tw.1
  location : tw.2.location = w.location
  brings : tw.2.Brings tw.1 text

theorem Leads.trans {t : FileTree} {w : Writer} {tw tw' : FileTree × Writer} {text text' : Bytes}
    (h : Leads t w tw text) (h' : Leads tw.1 tw.2 tw' text') : Leads t w tw' text' where
  changed := h.changed.trans (h.location ▸ h'.changed)
  location := h'.location.trans h.location
  brings := h'.brings

variable {t : FileTree} {w : Writer} {text : Bytes}

theorem emit_nil (t : FileTree) (w : Writer) : w.emit t [] = (t, w) := rfl

theorem emit_atEnd {old bytes : Bytes} (hb : bytes ≠ []) (hc : t.content? w.location = some old)
    (hp : w.position = .atEnd) : w.emit t bytes = (t.put w.location (old ++ bytes), w) := by
  simp [Writer.emit, hb, hc, hp]

theorem emit_offset {old bytes : Bytes} (hb : bytes ≠ []) (hc : t.content? w.location = some old)
    (hp : w.position = .offset old.length) :
    w.emit t bytes = (t.put w.location (old ++ bytes), { w with position := .offset (old ++ bytes).length }) := by
  simp [Writer.emit, hb, hc, hp, Bytes.overwrite_length]

/-- With nothing held back, what is emitted goes to the end of the file. -/
theorem Brings.emit (h : w.Brings t text) (hw : w.pending = []) (bytes : Bytes) :
    Leads t w (w.emit t bytes) (text ++ bytes) ∧ (w.emit t bytes).2.pending = [] := by
  obtain ⟨old, hc, hp, htext⟩ := h.split
  rw [hw, List.append_nil] at htext
  subst htext
  by_cases hb : bytes = []
  · subst hb
    rw [emit_nil, List.append_nil]
    exact ⟨⟨.rfl, rfl, h⟩, hw⟩
  have hput : (t.put w.location (text ++ bytes)).content? w.location = some (text ++ bytes) := t.content?_put_self ..
  have htext : text ++ bytes = text ++ bytes ++ w.pending := by rw [hw, List.append_nil]
  rcases hp with hp | hp
  · rw [emit_atEnd hb hc hp]
    exact ⟨⟨.put .., rfl, ⟨⟨_, hput, .inl hp, htext⟩, h.size⟩⟩, hw⟩
  · rw [emit_offset hb hc hp]
    exact ⟨⟨.put .., rfl, ⟨⟨_, hput, .inr rfl, htext⟩, h.size⟩⟩, hw⟩

theorem Brings.flush (h : w.Brings t text) :
    Leads t w (w.flush t) text ∧ (w.flush t).2.pending = [] := by
  obtain ⟨old, hc, hp, rfl⟩ := h.split
  have hemptied : Brings { w with held := [], size := 0 } t old :=
    ⟨⟨old, hc, hp, (List.append_nil old).symm⟩, rfl⟩
  obtain ⟨hl, hpending⟩ := hemptied.emit rfl w.pending
  exact ⟨⟨hl.changed, hl.location, hl.brings⟩, hpending⟩

theorem Brings.hold (h : w.Brings t text) (piece : Bytes) :
    Brings { w with held := piece :: w.held, size := w.size + piece.length } t (text ++ piece) := by
  have hpending : pending { w with held := piece :: w.held, size := w.size + piece.length } = w.pending ++ piece := by
    simp [pending]
  obtain ⟨old, hc, hp, rfl⟩ := h.split
  refine ⟨⟨old, hc, hp, ?_⟩, ?_⟩
  · rw [hpending, List.append_assoc]
  · rw [hpending, List.length_append, ← h.size]

theorem Brings.push (h : w.Brings t text) (piece : Bytes) : Leads t w (push (t, w) piece) (text ++ piece) := by
  by_cases hdrain : capacity - w.size < piece.length
  · obtain ⟨hl, hpending⟩ := h.flush
    have hpush : Writer.push (t, w) piece =
        if capacity ≤ piece.length then (w.flush t).2.emit (w.flush t).1 piece
        else ((w.flush t).1, { (w.flush t).2 with
          held := piece :: (w.flush t).2.held, size := (w.flush t).2.size + piece.length }) := by
      unfold Writer.push
      rw [if_pos hdrain]
    rw [hpush]
    split
    · exact hl.trans (hl.brings.emit hpending piece).1
    · exact hl.trans ⟨.rfl, rfl, hl.brings.hold piece⟩
  · have hpush : Writer.push (t, w) piece =
        if capacity ≤ piece.length then w.emit t piece
        else (t, { w with held := piece :: w.held, size := w.size + piece.length }) := by
      unfold Writer.push
      rw [if_neg hdrain]
    rw [hpush]
    split
    next hlarge =>
      -- A piece as large as the buffer leaves no room for anything held back.
      have hpending : w.pending = [] := by
        have := h.size
        refine List.eq_nil_of_length_eq_zero ?_
        unfold capacity at hdrain hlarge
        omega
      exact (h.emit hpending piece).1
    · exact ⟨.rfl, rfl, h.hold piece⟩

theorem Brings.pushAll (h : w.Brings t text) (pieces : List Bytes) :
    Leads t w (pieces.foldl Writer.push (t, w)) (text ++ pieces.flatten) := by
  induction pieces generalizing t w text with
  | nil =>
    rw [List.flatten_nil, List.append_nil]
    exact ⟨.rfl, rfl, h⟩
  | cons piece pieces ih =>
    have hl := h.push piece
    rw [List.foldl_cons, List.flatten_cons, ← List.append_assoc]
    exact hl.trans (ih hl.brings)

theorem Brings.elsewhere (h : w.Brings t text) {t' : FileTree} {place : Location} (hc : t.ChangedAt place t')
    (hne : w.location ≠ place) : w.Brings t' text := by
  obtain ⟨old, hold, hp, htext⟩ := h.split
  exact ⟨⟨old, (hc.content _ hne).trans hold, hp, htext⟩, h.size⟩

theorem Brings.content (h : w.Brings t text) (hw : w.pending = []) : t.content? w.location = some text := by
  obtain ⟨old, hc, -, htext⟩ := h.split
  rw [htext, hw, List.append_nil, hc]

/-- What a file holds once it is opened. -/
def opening (t : FileTree) (place : Location) (drop : Bool) : Bytes :=
  if drop then [] else (t.content? place).getD []

theorem open_of_writable {path : String} {place : Location} (h : t.writable path = .ok place) (drop : Bool) :
    ∃ w, Writer.open t path drop = .ok (t.put place (opening t place drop), w) ∧ w.location = place ∧
      w.Brings (t.put place (opening t place drop)) (opening t place drop) := by
  unfold Writer.open
  rw [h]
  cases drop with
  | true =>
    refine ⟨_, rfl, rfl, ⟨[], t.content?_put_self .., .inr rfl, rfl⟩, rfl⟩
  | false =>
    refine ⟨_, rfl, rfl, ⟨_, t.content?_put_self .., .inl rfl, ?_⟩, rfl⟩
    exact (List.append_nil _).symm

theorem writable_of_open {path : String} {drop : Bool} {tw : FileTree × Writer} (h : Writer.open t path drop = .ok tw) :
    ∃ place, t.writable path = .ok place ∧ t.SameWays tw.1 := by
  cases hw : t.writable path with
  | error e =>
    unfold Writer.open at h
    rw [hw] at h
    cases h
  | ok place =>
    obtain ⟨w, hopen, -, -⟩ := open_of_writable hw drop
    cases hopen.symm.trans h
    exact ⟨place, rfl, .put ..⟩

end Writer
end MarketMinutes
