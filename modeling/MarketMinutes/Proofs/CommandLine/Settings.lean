import MarketMinutes.Config
import MarketMinutes.Proofs.Aggregation.Replay
import MarketMinutes.Proofs.Json.Parts

/-!
# Settings that can be used

The check of a configuration and the setup of an aggregator refuse the same
depths and the same intervals. So what is loaded can be run, and what the
check refuses for its depth or interval could not be. A configuration that
passes the check comes back from its own text as it was.
-/

namespace MarketMinutes

/-- What a setup that is refused would be told by the check of its configuration. -/
def SetupError.problem : SetupError → ConfigProblem
  | depth => .maxDepth
  | interval value => .interval value

theorem Aggregator.new_cases (depth : Nat) (interval : Decimal) :
    (depth = 0 ∧ new depth interval = .error .depth) ∨
      (0 < depth ∧ interval.number ≤ 0 ∧ new depth interval = .error (.interval interval)) ∨
      (0 < depth ∧ 0 < interval.number ∧ ∃ a, new depth interval = .ok a) := by
  rcases Nat.eq_zero_or_pos depth with rfl | hd
  · exact .inl ⟨rfl, rfl⟩
  rcases le_or_gt interval.number 0 with hi | hi
  · have hi' : ¬ Decimal.zero.isLT interval = true := by simpa using hi
    refine .inr (.inl ⟨hd, hi, ?_⟩)
    simp [new, Book.new, Interval.ofDecimal, hd.ne', hi', bind, Except.bind]
  · obtain ⟨a, ha, -⟩ := new_of_valid hd hi
    exact .inr (.inr ⟨hd, hi, a, ha⟩)

namespace Config
variable {t t' : FileTree} {path : String} {config : Config}

/-! ## Checking -/

/-- The check finds what the setup would, after the name of the collection and before the near buckets. -/
theorem problem?_eq (c : Config) :
    c.problem? =
      if Text.allBlank c.collection then some .collection
      else
        match Aggregator.new c.maxDepth.toNat c.interval with
        | .error e => some e.problem
        | .ok _ => if c.nearBuckets = 0 then some .nearBuckets else none := by
  have hdepth : c.maxDepth = 0 ↔ c.maxDepth.toNat = 0 := UInt64.toNat_inj.symm
  have hinterval : c.interval.isLE .zero = true ↔ c.interval.number ≤ 0 := by simp
  unfold problem?
  rcases Aggregator.new_cases c.maxDepth.toNat c.interval with ⟨hd, he⟩ | ⟨hd, hi, he⟩ | ⟨hd, hi, a, ha⟩
  · rw [he, if_pos (hdepth.mpr hd)]
    rfl
  · rw [he, if_neg (hdepth.not.mpr hd.ne'), if_pos (hinterval.mpr hi)]
    rfl
  · rw [ha, if_neg (hdepth.not.mpr hd.ne'), if_neg (hinterval.not.mpr (not_le.mpr hi))]

theorem exists_aggregator (h : config.problem? = none) :
    ∃ a, Aggregator.new config.maxDepth.toNat config.interval = .ok a := by
  rw [problem?_eq] at h
  cases ha : Aggregator.new config.maxDepth.toNat config.interval with
  | error e =>
    rw [ha] at h
    split at h <;> cases h
  | ok a => exact ⟨a, rfl⟩

theorem interval_pos (h : config.problem? = none) : 0 < config.interval.number := by
  obtain ⟨a, ha⟩ := exists_aggregator h
  rcases Aggregator.new_cases config.maxDepth.toNat config.interval with ⟨-, he⟩ | ⟨-, -, he⟩ | ⟨-, hi, -⟩
  · cases ha.symm.trans he
  · cases ha.symm.trans he
  · exact hi

/-! ## Loading -/

theorem lookup?_of_load (h : load t path = .ok config) :
    ∃ content, t.lookup? path = some (.file content) ∧ ofBytes content = .ok config := by
  unfold load at h
  split at h
  next content hlookup => exact ⟨content, hlookup, h⟩
  · cases h

theorem problem?_of_load (h : load t path = .ok config) : config.problem? = none := by
  obtain ⟨content, -, hbytes⟩ := lookup?_of_load h
  unfold ofBytes at hbytes
  split at hbytes
  · cases hbytes
  split at hbytes
  · cases hbytes
  split at hbytes
  next hp =>
    cases hbytes
    exact hp
  · cases hbytes

theorem load_congr (h : t'.lookup? path = t.lookup? path) : load t' path = load t path := by
  unfold load
  rw [h]

/-! ## Reading back -/

theorem fits_toJson (depth : Nat) (c : Config) : c.toJson.Fits (depth + 1) := by
  refine Json.fits_record ?_
  simp [Json.fits_ofString, Json.fits_ofUInt64, Decimal.fits_toJson]

theorem ofJson?_toJson (c : Config) : ofJson? c.toJson = some { c with interval := c.interval.unsigned } := by
  have hparts : c.toJson.parts? ["collection", "input", "output_dir", "max_depth", "percentage_interval",
      "near_buckets", "progress_every"] =
      some [.given (.ofString c.collection), .given (.ofString c.input), .given (.ofString c.outputDirectory),
        .given (.ofUInt64 c.maxDepth), .given c.interval.toJson, .given (.ofUInt64 c.nearBuckets),
        .given (.ofUInt64 c.progressEvery)] := by
    simp [toJson, Json.record, Json.parts?, Json.named?]
  have hstring : ∀ s, Json.string? (.ofString s) = some s := fun _ => rfl
  simp only [ofJson?, hparts, Part.required?, Part.orElse?, hstring, Json.uint64?_ofUInt64, Decimal.ofJson?_toJson]
  rfl

/-- An interval that passes the check is no zero, so it has no sign to lose. -/
theorem ofBytes_render (h : config.problem? = none) : ofBytes (Bytes.ofText config.toJson.render) = .ok config := by
  have hread : (Json.parse? config.toJson.render).bind ofJson? = some config := by
    rw [Json.parse?_render (config.fits_toJson 0).proper, Option.bind_some, ofJson?_toJson,
      Decimal.unsigned_of_ne_zero (interval_pos h).ne']
  simp only [ofBytes, Bytes.text?_ofText, hread, h]

/-- An aggregator can be set up with whatever is loaded. A configuration that passes the check is loaded as it is from
its own text, and one that fails it by its depth or its interval fails the setup by the same. -/
theorem loaded_settings_serve :
    (∀ t path config, load t path = .ok config →
      ∃ a, Aggregator.new config.maxDepth.toNat config.interval = .ok a) ∧
    (∀ t path (config : Config), config.problem? = none →
      t.lookup? path = some (.file (Bytes.ofText config.toJson.render)) → load t path = .ok config) ∧
    ∀ (config : Config) p, Text.allBlank config.collection = false → config.nearBuckets ≠ 0 → config.problem? = some p →
      ∃ e, Aggregator.new config.maxDepth.toNat config.interval = .error e ∧ e.problem = p := by
  refine ⟨fun t path config h => exists_aggregator (problem?_of_load h), ?_, ?_⟩
  · intro t path config h hlookup
    unfold load
    rw [hlookup]
    exact ofBytes_render h
  · intro config p hcollection hnear h
    rw [problem?_eq, hcollection, if_neg Bool.false_ne_true] at h
    cases ha : Aggregator.new config.maxDepth.toNat config.interval with
    | error e =>
      rw [ha] at h
      exact ⟨e, rfl, Option.some.inj h⟩
    | ok a =>
      rw [ha, if_neg hnear] at h
      cases h

/-- Names that have to be escaped, the largest depth and an interval with zeros at its end; and then no depth. -/
theorem loaded_settings_serve_of_escaped :
    let interval : Decimal := ⟨false, 100, 4, by decide, by decide⟩
    let config : Config := ⟨"\"c\"\n", "\u0001é", "\\d", 18446744073709551615, interval, 1, 0⟩
    let flat : Config := { config with maxDepth := 0 }
    let t : FileTree := ⟨[], [(["config"], Bytes.ofText config.toJson.render)], []⟩
    config.problem? = none ∧ t.lookup? "config" = some (.file (Bytes.ofText config.toJson.render)) ∧
      load t "config" = .ok config ∧ (∃ a, Aggregator.new config.maxDepth.toNat config.interval = .ok a) ∧
      Text.allBlank flat.collection = false ∧ flat.nearBuckets ≠ 0 ∧ flat.problem? = some .maxDepth ∧
      ∃ e, Aggregator.new flat.maxDepth.toNat flat.interval = .error e ∧ e.problem = .maxDepth := by
  intro interval config flat t
  obtain ⟨hserve, hback, hfail⟩ := loaded_settings_serve
  have hproblem : config.problem? = none := by decide
  have hfound : ∀ content, FileTree.lookup? ⟨[], [(["config"], content)], []⟩ "config" = some (.file content) :=
    fun _ => rfl
  have hlookup : t.lookup? "config" = some (.file (Bytes.ofText config.toJson.render)) := hfound _
  have hload := hback t "config" config hproblem hlookup
  have hcollection : Text.allBlank flat.collection = false := by decide
  have hnear : flat.nearBuckets ≠ 0 := by decide
  have hdepth : flat.problem? = some .maxDepth := by decide
  exact ⟨hproblem, hlookup, hload, hserve t "config" config hload, hcollection, hnear, hdepth,
    hfail flat .maxDepth hcollection hnear hdepth⟩

end Config
end MarketMinutes
