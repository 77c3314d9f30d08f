import MarketMinutes.Book.Snapshot
import MarketMinutes.Proofs.Book.Ladder
import MarketMinutes.Proofs.Decimal.Normal
import MarketMinutes.Proofs.Text.Lines

/-!
# What a checksum tells apart

The text that a checksum is taken of can be cut up again in one way only: a
price ends at the first colon, a volume at the first bar, and a side at three
minus signs, which no price begins with. So two pairs of sides have one text
exactly if their levels have the same numbers, one by one.
-/

namespace MarketMinutes

/-- Levels with the same numbers, at whatever scales. -/
def Level.Same (l l' : Level) : Prop :=
  l.price.number = l'.price.number ∧ l.volume.value.number = l'.volume.value.number

theorem Bytes.ofText_inj {cs cs' : List Char} :
    ofText (String.ofList cs) = ofText (String.ofList cs') ↔ cs = cs' := by
  constructor
  · intro h
    have htext := congrArg text? h
    rw [text?_ofText, text?_ofText] at htext
    exact String.ofList_injective (Option.some.inj htext)
  · intro h
    rw [h]

namespace Checksum

/-- The bytes that the digest is taken of. -/
def stream (bids asks : List Level) : Bytes :=
  Bytes.ofText (String.ofList (text bids asks))

/-! ## Cutting at marks -/

theorem cut_inj {α : Type} {mark : α} {xs ys : List α} (hx : mark ∉ xs) (hy : mark ∉ ys) {rest rest' : List α} :
    xs ++ mark :: rest = ys ++ mark :: rest' ↔ xs = ys ∧ rest = rest' := by
  constructor
  · intro h
    induction xs generalizing ys with
    | nil =>
      cases ys with
      | nil => exact ⟨rfl, (List.cons.inj h).2⟩
      | cons y ys => exact absurd ((List.cons.inj h).1 ▸ List.mem_cons_self ..) hy
    | cons x xs ih =>
      cases ys with
      | nil => exact absurd ((List.cons.inj h).1 ▸ List.mem_cons_self ..) hx
      | cons y ys =>
        obtain ⟨hxy, hrest⟩ := List.cons.inj h
        rw [List.mem_cons, not_or] at hx hy
        obtain ⟨hxs, hr⟩ := ih hx.2 hy.2 hrest
        exact ⟨by rw [hxy, hxs], hr⟩
  · rintro ⟨rfl, rfl⟩
    rfl

theorem colon_not_mem_text (d : Decimal) : ':' ∉ d.text := by
  intro h
  rcases Decimal.mem_text h with hc | hc | ⟨k, hk, hc⟩
  · cases hc
  · cases hc
  · interval_cases k <;> cases hc

theorem bar_not_mem_text (d : Decimal) : '|' ∉ d.text := by
  intro h
  rcases Decimal.mem_text h with hc | hc | ⟨k, hk, hc⟩
  · cases hc
  · cases hc
  · interval_cases k <;> cases hc

/-! ## Cutting up the text -/

theorem levelText_append_inj {l l' : Level} {rest rest' : List Char} :
    levelText l ++ rest = levelText l' ++ rest' ↔ l.Same l' ∧ rest = rest' := by
  have hlevel : ∀ (l : Level) rest, levelText l ++ rest =
      l.price.normalize.text ++ ':' :: (l.volume.value.normalize.text ++ '|' :: rest) := by
    intro l rest
    simp [levelText]
  rw [hlevel, hlevel, cut_inj (colon_not_mem_text _) (colon_not_mem_text _),
    cut_inj (bar_not_mem_text _) (bar_not_mem_text _), Decimal.normalize_text_eq_iff, Decimal.normalize_text_eq_iff,
    ← and_assoc]
  rfl

/-- Two minus signs are no beginning of a level. -/
theorem levelText_append_ne (l : Level) (rest rest' : List Char) : levelText l ++ rest ≠ '-' :: '-' :: rest' := by
  intro h
  obtain ⟨k, cs, hk, htext | htext⟩ := l.price.normalize.text_head
  · simp only [levelText, htext, List.cons_append] at h
    have hc := (List.cons.inj h).1
    interval_cases k <;> cases hc
  · simp only [levelText, htext, List.cons_append] at h
    have hc := (List.cons.inj (List.cons.inj h).2).1
    interval_cases k <;> cases hc

theorem sideText_append_inj (ls ls' : List Level) (rest rest' : List Char) :
    sideText ls ++ rest = sideText ls' ++ rest' ↔ List.Forall₂ Level.Same ls ls' ∧ rest = rest' := by
  have hnil : ∀ rest, sideText [] ++ rest = '-' :: '-' :: '-' :: rest := fun rest => rfl
  have hcons : ∀ (l : Level) ls rest, sideText (l :: ls) ++ rest = levelText l ++ (sideText ls ++ rest) := by
    intro l ls rest
    simp [sideText]
  induction ls generalizing ls' with
  | nil =>
    cases ls' with
    | nil =>
      rw [hnil, hnil]
      simp
    | cons l' ls' =>
      rw [hnil, hcons]
      constructor
      · intro h
        exact absurd h.symm (levelText_append_ne l' _ _)
      · rintro ⟨h, -⟩
        cases h
  | cons l ls ih =>
    cases ls' with
    | nil =>
      rw [hnil, hcons]
      constructor
      · intro h
        exact absurd h (levelText_append_ne l _ _)
      · rintro ⟨h, -⟩
        cases h
    | cons l' ls' =>
      rw [hcons, hcons, levelText_append_inj, List.forall₂_cons, and_assoc]
      exact and_congr_right fun _ => ih ls'

theorem sideText_inj (ls ls' : List Level) : sideText ls = sideText ls' ↔ List.Forall₂ Level.Same ls ls' := by
  have h := sideText_append_inj ls ls' [] []
  rwa [List.append_nil, List.append_nil, eq_self, and_true] at h

theorem stream_eq_iff (bids asks bids' asks' : List Level) :
    stream bids asks = stream bids' asks' ↔
      List.Forall₂ Level.Same bids bids' ∧ List.Forall₂ Level.Same asks asks' := by
  rw [stream, stream, Bytes.ofText_inj, text, text, sideText_append_inj, sideText_inj]

/-! ## Snapshots -/

theorem isIntact_iff (s : Snapshot) : s.isIntact = true ↔ s.checksum = Sha256.hex (stream s.bids s.asks) :=
  beq_iff_eq

/-- The digest is taken of the same bytes exactly for levels with the same numbers, side by side and one by one. So
books with the same numbers have one checksum; and what an intact snapshot is changed to under its checksum is intact
only with the same numbers, unless the digest takes the two streams of bytes to one. -/
theorem checksum_tells_numbers :
    (∀ bids asks bids' asks' : List Level,
      ofLevels bids asks = Sha256.hex (stream bids asks) ∧
        (stream bids asks = stream bids' asks' ↔
          List.Forall₂ Level.Same bids bids' ∧ List.Forall₂ Level.Same asks asks')) ∧
    (∀ b b' : Book, List.Forall₂ Level.Same b.bids.levels b'.bids.levels →
      List.Forall₂ Level.Same b.asks.levels b'.asks.levels →
      (Snapshot.ofBook b).checksum = (Snapshot.ofBook b').checksum) ∧
    ∀ s s' : Snapshot, s.isIntact = true → s'.checksum = s.checksum →
      (Sha256.hex (stream s.bids s.asks) = Sha256.hex (stream s'.bids s'.asks) →
        stream s.bids s.asks = stream s'.bids s'.asks) →
      (s'.isIntact = true ↔ List.Forall₂ Level.Same s.bids s'.bids ∧ List.Forall₂ Level.Same s.asks s'.asks) := by
  refine ⟨?_, ?_, ?_⟩
  · intro bids asks bids' asks'
    exact ⟨rfl, stream_eq_iff ..⟩
  · intro b b' hbids hasks
    have hstream : stream b.bids.levels b.asks.levels = stream b'.bids.levels b'.asks.levels := by
      rw [stream_eq_iff]
      exact ⟨hbids, hasks⟩
    exact congrArg Sha256.hex hstream
  · intro s s' hs hsum hinj
    rw [← stream_eq_iff, isIntact_iff, hsum, (isIntact_iff s).mp hs]
    constructor
    · exact hinj
    · intro h
      rw [h]

/-- A level of one at one, moved from one side to the other. -/
theorem checksum_tells_numbers_of_moved_level :
    let l : Level := ⟨.one, ⟨.one, rfl⟩⟩
    let l' : Level := ⟨⟨false, 10, 1, by decide, by decide⟩, ⟨.one, rfl⟩⟩
    let b : Book := ⟨⟨.bid, 1, [l]⟩, ⟨.ask, 1, []⟩, 0, 0⟩
    (Snapshot.ofBook b).isIntact = true ∧
      (Snapshot.ofBook { b with bids := ⟨.bid, 1, [l']⟩ }).checksum = (Snapshot.ofBook b).checksum ∧
      { Snapshot.ofBook b with bids := [l'] }.isIntact = true ∧
      { Snapshot.ofBook b with bids := [], asks := [l] }.isIntact = false := by
  intro l l' b
  obtain ⟨-, hbooks, hchanged⟩ := checksum_tells_numbers
  have hintact : (Snapshot.ofBook b).isIntact = true := beq_self_eq_true _
  have hnumber : l.Same l' := by
    constructor
    · exact Decimal.sameNumber_iff.mp rfl
    · rfl
  have hsides : List.Forall₂ Level.Same [l] [l'] := .cons hnumber .nil
  refine ⟨hintact, (hbooks b { b with bids := ⟨.bid, 1, [l']⟩ } hsides .nil).symm, ?_, ?_⟩
  · have hinj : stream [l] [] = stream [l'] [] := (stream_eq_iff ..).mpr ⟨hsides, .nil⟩
    exact (hchanged (Snapshot.ofBook b) { Snapshot.ofBook b with bids := [l'] } hintact rfl fun _ => hinj).mpr
      ⟨hsides, .nil⟩
  · have hdigests : Sha256.hex (stream [l] []) ≠ Sha256.hex (stream [] [l]) := by decide +kernel
    have hmoved := hchanged (Snapshot.ofBook b) { Snapshot.ofBook b with bids := [], asks := [l] } hintact rfl
      fun h => absurd h hdigests
    rw [Bool.eq_false_iff, Ne, hmoved]
    rintro ⟨h, -⟩
    cases h

end Checksum
end MarketMinutes
