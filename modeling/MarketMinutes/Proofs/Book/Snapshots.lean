import MarketMinutes.Proofs.Book.Scales
import MarketMinutes.Proofs.Window.Unsigned

/-!
# Snapshots read back

A snapshot comes back from its JSON text with no sign on a zero and with all
else as it was. No volume in a book is zero, so only a price of zero can lose
its sign; no digest shows it, so the snapshot is still intact.
-/

namespace MarketMinutes

namespace Volume

def unsigned (v : Volume) : Volume :=
  ⟨v.value.unsigned, v.value.isNegative_unsigned.trans v.nonnegative⟩

theorem unsigned_of_pos {v : Volume} (h : 0 < v.value.number) : v.unsigned = v := by
  unfold unsigned
  simp only [Decimal.unsigned_of_ne_zero h.ne']

theorem ofJson?_toJson (v : Volume) : ofJson? v.toJson = some v.unsigned := by
  show (Decimal.ofJson? v.value.toJson).bind ofDecimal? = _
  rw [Decimal.ofJson?_toJson, Option.bind_some]
  exact dif_pos v.unsigned.nonnegative

end Volume

namespace Level

def unsigned (l : Level) : Level :=
  ⟨l.price.unsigned, l.volume.unsigned⟩

theorem fits_toJson (depth : Nat) (l : Level) : l.toJson.Fits (depth + 1) := by
  refine Json.fits_record ?_
  simp [Decimal.fits_toJson, Volume.toJson]

theorem ofJson?_toJson (l : Level) : ofJson? l.toJson = some l.unsigned := by
  have hparts : l.toJson.parts? ["price", "volume"] = some [.given l.price.toJson, .given l.volume.toJson] := by
    simp [toJson, Json.record, Json.parts?, Json.named?]
  simp only [ofJson?, hparts, Part.required?, Decimal.ofJson?_toJson, Volume.ofJson?_toJson]
  rfl

theorem same_unsigned (l : Level) : l.unsigned.Same l :=
  ⟨l.price.number_unsigned, l.volume.value.number_unsigned⟩

/-- The volume is the same decimal; so is the price, but for the sign of a zero. -/
structure Kept (l l' : Level) : Prop where
  number : l'.price.number = l.price.number
  scale : l'.price.scale = l.price.scale
  volume : l'.volume = l.volume

theorem kept_unsigned {l : Level} (h : 0 < l.volume.value.number) : l.Kept l.unsigned :=
  ⟨l.price.number_unsigned, rfl, Volume.unsigned_of_pos h⟩

theorem forall₂_kept {levels : List Level} (h : ∀ l ∈ levels, 0 < l.volume.value.number) :
    List.Forall₂ Kept levels (levels.map unsigned) :=
  List.forall₂_map_right_iff.mpr (List.forall₂_same.mpr fun l hl => kept_unsigned (h l hl))

end Level

namespace Snapshot

def unsigned (s : Snapshot) : Snapshot :=
  { s with bids := s.bids.map Level.unsigned, asks := s.asks.map Level.unsigned }

theorem fits_toJson (depth : Nat) {s : Snapshot} (h : s.maxDepth < 2 ^ 64) : s.toJson.Fits (depth + 3) := by
  refine Json.fits_record ?_
  simp [Json.fits_ofList (Level.fits_toJson depth), Json.fits_ofNat _ h, Json.fits_ofString]

theorem ofJson?_toJson {s : Snapshot} (h : s.maxDepth < 2 ^ 64) : ofJson? s.toJson = some s.unsigned := by
  have hparts : s.toJson.parts? ["bids", "asks", "max_depth", "checksum"] =
      some [.given (.ofList Level.toJson s.bids), .given (.ofList Level.toJson s.asks), .given (.ofNat s.maxDepth),
        .given (.ofString s.checksum)] := by
    simp [toJson, Json.record, Json.parts?, Json.named?]
  simp only [ofJson?, hparts, Part.required?, Json.list?_ofList Level.ofJson?_toJson, Json.nat64?_ofNat h]
  rfl

theorem parse?_render {s : Snapshot} (h : s.maxDepth < 2 ^ 64) :
    (Json.parse? s.toJson.render).bind ofJson? = some s.unsigned := by
  rw [Json.parse?_render (fits_toJson 0 h).proper, Option.bind_some, ofJson?_toJson h]

/-- The sign of a zero does not enter the digest. -/
theorem digest_unsigned (s : Snapshot) : s.unsigned.digest = s.digest := by
  have hlevels : ∀ levels : List Level, List.Forall₂ Level.Same (levels.map Level.unsigned) levels := fun levels =>
    List.forall₂_map_left_iff.mpr (List.forall₂_same.mpr fun l _ => l.same_unsigned)
  exact congrArg Sha256.hex ((Checksum.stream_eq_iff ..).mpr ⟨hlevels s.bids, hlevels s.asks⟩)

theorem isIntact_ofBook_unsigned (b : Book) : (ofBook b).unsigned.isIntact = true := by
  rw [isIntact, beq_iff_eq, digest_unsigned]
  rfl

end Snapshot

namespace Book

theorem Sound.maxDepth_eq {depth : Nat} {b : Book} (h : b.Sound depth) : b.maxDepth = depth :=
  h.depth_eq .bid

theorem empty_same (depth : Nat) : (empty depth).Same (empty depth) := by
  intro s
  cases s <;> exact ⟨rfl, rfl, .nil⟩

/-- After any calls the JSON text of a snapshot is read as that snapshot: levels, depth and checksum, intact, with both
sides in order. And calls that correspond by number, whatever their scales, leave books with one checksum throughout. -/
theorem snapshots_read_back {depth : Nat} (hd : 0 < depth) (hmax : depth < 2 ^ 64) :
    ∃ start, Book.new depth = .ok start ∧
      (∀ calls, let b := start.after calls
        let s := Snapshot.ofBook b
        ∃ s', (Json.parse? s.toJson.render).bind Snapshot.ofJson? = some s' ∧
          List.Forall₂ Level.Kept s.bids s'.bids ∧ List.Forall₂ Level.Kept s.asks s'.asks ∧
          s.maxDepth = depth ∧ s'.maxDepth = depth ∧ s'.checksum = s.checksum ∧
          s'.isIntact = true ∧ s'.levelCount = b.bids.length + b.asks.length ∧
          (s'.bids.Pairwise fun x y => x.price.number < y.price.number) ∧
          s'.asks.Pairwise fun x y => y.price.number < x.price.number) ∧
      ∀ calls calls', List.Forall₂ Call.Same calls calls' → ∀ n,
        (Snapshot.ofBook (start.after (calls.take n))).checksum =
          (Snapshot.ofBook (start.after (calls'.take n))).checksum := by
  refine ⟨empty depth, if_neg hd.ne', fun calls => ?_, fun calls calls' hcalls n => ?_⟩
  · intro b s
    have hsound : b.Sound depth := (empty_sound depth).after calls
    have hdepth : s.maxDepth = depth := hsound.maxDepth_eq
    have hpos : ∀ side, ∀ l ∈ (b.side side).levels, 0 < l.volume.value.number := fun side l hl =>
      (hsound.sound side).positive l (Ladder.mem_levels.mp hl)
    refine ⟨s.unsigned, Snapshot.parse?_render (hdepth ▸ hmax), Level.forall₂_kept (hpos .bid),
      Level.forall₂_kept (hpos .ask), hdepth, hdepth, rfl, Snapshot.isIntact_ofBook_unsigned b, ?_, ?_, ?_⟩
    · show (b.bids.levels.map _).length + (b.asks.levels.map _).length = _
      rw [List.length_map, List.length_map, Ladder.length_levels, Ladder.length_levels]
    · refine List.pairwise_map.mpr (hsound.bids_rise.imp fun {x y} hxy => ?_)
      rwa [x.same_unsigned.1, y.same_unsigned.1]
    · refine List.pairwise_map.mpr (hsound.asks_fall.imp fun {x y} hxy => ?_)
      rwa [x.same_unsigned.1, y.same_unsigned.1]
  · exact ((empty_same depth).after (List.forall₂_take n hcalls)).checksum_eq

/-- The same two bids in other writing; the price of zero has a sign in one of them. -/
theorem snapshots_read_back_of_scales :
    let calls := [Call.updates [⟨[("1.10", "2.0"), ("-0.4e-28", "1")], []⟩]]
    let calls' := [Call.operations [⟨.bid, ⟨false, 11, 1, by decide, by decide⟩, .two⟩, ⟨.bid, .zero, .one⟩]]
    0 < 2 ^ 64 - 1 ∧ 2 ^ 64 - 1 < 2 ^ 64 ∧ List.Forall₂ Call.Same calls calls' ∧
      ∃ start, Book.new (2 ^ 64 - 1) = .ok start ∧
        let s := Snapshot.ofBook (start.after calls)
        (∃ s', (Json.parse? s.toJson.render).bind Snapshot.ofJson? = some s' ∧ s'.isIntact = true ∧
          s'.maxDepth = 2 ^ 64 - 1 ∧ s'.levelCount = 2 ∧ List.Forall₂ Level.Kept s.bids s'.bids) ∧
        s.checksum = (Snapshot.ofBook (start.after calls')).checksum ∧
        s.bids.map (·.price.text) = ["-0.0000000000000000000000000000".toList, "1.10".toList] ∧
        (start.after calls').bids.levels.map (·.price.text) = ["0".toList, "1.1".toList] := by
  intro calls calls'
  obtain ⟨start, hs, hread, hscales⟩ :=
    snapshots_read_back (show 0 < 2 ^ 64 - 1 by decide) (show 2 ^ 64 - 1 < 2 ^ 64 by decide)
  cases hs
  have hcalls : List.Forall₂ Call.Same calls calls' := by
    have hparts : (Call.updates [⟨[("1.10", "2.0"), ("-0.4e-28", "1")], []⟩]).parts =
        [some ⟨.bid, ⟨false, 110, 2, by decide, by decide⟩, ⟨false, 20, 1, by decide, by decide⟩⟩,
          some ⟨.bid, ⟨true, 0, 28, by decide, by decide⟩, .one⟩] := by
      decide +kernel
    refine .cons ?_ .nil
    rw [Call.Same, hparts]
    refine .cons (.some ⟨rfl, ?_, ?_⟩) (.cons (.some ⟨rfl, ?_, rfl⟩) .nil) <;>
      exact Decimal.sameNumber_iff.mp rfl
  obtain ⟨s', hs', hbids, -, -, hdepth, -, hintact, hcount, -⟩ := hread calls
  refine ⟨by decide, by decide, hcalls, _, rfl, ⟨s', hs', hintact, hdepth, ?_, hbids⟩, hscales calls calls' hcalls 1,
    by decide +kernel, by decide +kernel⟩
  rw [hcount]
  decide +kernel

end Book
end MarketMinutes
