import MarketMinutes.Storage.FileTree

/-!
# Trees under change

To put a file in place changes what is at that place and nothing else, so the
ways to all places stay as they are.
-/

namespace MarketMinutes
namespace FileTree

/-! ## Putting files -/

@[simp] theorem directories_put (t : FileTree) (place : Location) (content : Bytes) :
    (t.put place content).directories = t.directories := by
  unfold put
  split <;> rfl

@[simp] theorem here_put (t : FileTree) (place : Location) (content : Bytes) : (t.put place content).here = t.here := by
  unfold put
  split <;> rfl

def replaced (place : Location) (content : Bytes) (files : List (Location × Bytes)) : List (Location × Bytes) :=
  files.map fun f => if f.1 == place then (place, content) else f

theorem find?_replaced_self {place : Location} {files : List (Location × Bytes)}
    (h : files.any (·.1 == place) = true) (content : Bytes) :
    (replaced place content files).find? (·.1 == place) = some (place, content) := by
  induction files with
  | nil => cases h
  | cons f fs ih =>
    by_cases hf : f.1 = place
    · simp [replaced, hf]
    · have hrest : fs.any (·.1 == place) = true := by simpa [hf] using h
      simpa [replaced, hf] using ih hrest

theorem find?_replaced_of_ne {place q : Location} (h : q ≠ place) (content : Bytes) (files : List (Location × Bytes)) :
    (replaced place content files).find? (·.1 == q) = files.find? (·.1 == q) := by
  induction files with
  | nil => rfl
  | cons f fs ih =>
    by_cases hf : f.1 = place
    · simpa [replaced, hf, h.symm] using ih
    · by_cases hq : f.1 = q
      · simp [replaced, hq, h]
      · simpa [replaced, hf, hq] using ih

theorem content?_put_self (t : FileTree) (place : Location) (content : Bytes) :
    (t.put place content).content? place = some content := by
  unfold content? put
  split
  next h => exact congrArg (Option.map (·.2)) (find?_replaced_self h content)
  next h =>
    have hnone : t.files.find? (·.1 == place) = none := by
      rw [List.find?_eq_none]
      intro f hf hplace
      exact h (List.any_eq_true.mpr ⟨f, hf, hplace⟩)
    simp [List.find?_append, hnone]

theorem content?_put_of_ne {place q : Location} (h : q ≠ place) (t : FileTree) (content : Bytes) :
    (t.put place content).content? q = t.content? q := by
  unfold content? put
  split
  · exact congrArg (Option.map (·.2)) (find?_replaced_of_ne h content t.files)
  · simp [List.find?_append, h.symm]

/-! ## Putting files one after another -/

theorem any_files_iff {t : FileTree} {place : Location} :
    t.files.any (·.1 == place) = true ↔ (t.content? place).isSome = true := by
  simp [content?, List.find?_isSome]

theorem put_of_some {t : FileTree} {place : Location} (h : (t.content? place).isSome = true) (content : Bytes) :
    t.put place content = { t with files := replaced place content t.files } :=
  if_pos (any_files_iff.mpr h)

theorem put_of_none {t : FileTree} {place : Location} (h : ¬ (t.content? place).isSome = true) (content : Bytes) :
    t.put place content = { t with files := t.files ++ [(place, content)] } :=
  if_neg fun h' => h (any_files_iff.mp h')

theorem replaced_of_none {t : FileTree} {place : Location} (h : ¬ (t.content? place).isSome = true) (content : Bytes) :
    replaced place content t.files = t.files := by
  have hkeep : ∀ f ∈ t.files, (if f.1 == place then (place, content) else f) = f := by
    intro f hf
    apply if_neg
    intro hplace
    exact h (any_files_iff.mp (List.any_eq_true.mpr ⟨f, hf, hplace⟩))
  exact (List.map_congr_left hkeep).trans (List.map_id _)

theorem replaced_replaced (place : Location) (old new : Bytes) (files : List (Location × Bytes)) :
    replaced place new (replaced place old files) = replaced place new files := by
  unfold replaced
  rw [List.map_map]
  apply List.map_congr_left
  intro f _
  by_cases hf : f.1 = place
  · simp [hf]
  · simp [hf]

theorem replaced_comm {place q : Location} (h : q ≠ place) (content other : Bytes) (files : List (Location × Bytes)) :
    replaced place content (replaced q other files) = replaced q other (replaced place content files) := by
  unfold replaced
  rw [List.map_map, List.map_map]
  apply List.map_congr_left
  intro f _
  by_cases hq : f.1 = q
  · simp [hq, h]
  · by_cases hf : f.1 = place
    · simp [hf, h.symm]
    · simp [hf, hq]

theorem put_put (t : FileTree) (place : Location) (old new : Bytes) :
    (t.put place old).put place new = t.put place new := by
  have hput : ((t.put place old).content? place).isSome = true := by rw [content?_put_self, Option.isSome_some]
  rw [put_of_some hput]
  by_cases h : (t.content? place).isSome = true
  · rw [put_of_some h, put_of_some h, replaced_replaced]
  · rw [put_of_none h, put_of_none h]
    have hfiles : replaced place new (t.files ++ [(place, old)]) = t.files ++ [(place, new)] := by
      have hold : replaced place new t.files = t.files := replaced_of_none h new
      unfold replaced at hold ⊢
      rw [List.map_append, hold]
      simp
    rw [hfiles]

/-- Only a file that is there already keeps its place in the list when another is put first. -/
theorem put_comm {t : FileTree} {place q : Location} (h : q ≠ place) (hplace : (t.content? place).isSome = true)
    (content other : Bytes) : (t.put q other).put place content = (t.put place content).put q other := by
  have hput : ((t.put q other).content? place).isSome = true := by rwa [content?_put_of_ne h.symm]
  rw [put_of_some hput]
  by_cases hq : (t.content? q).isSome = true
  · have hq' : ((t.put place content).content? q).isSome = true := by rwa [content?_put_of_ne h]
    rw [put_of_some hq', put_of_some hq, put_of_some hplace, replaced_comm h]
  · have hq' : ¬ ((t.put place content).content? q).isSome = true := by rwa [content?_put_of_ne h]
    rw [put_of_none hq', put_of_none hq, put_of_some hplace]
    have hfiles : replaced place content (t.files ++ [(q, other)]) =
        replaced place content t.files ++ [(q, other)] := by
      simp [replaced, h]
    rw [hfiles]

/-! ## Ways -/

theorem walk_cons_cons_iff {t : FileTree} {base place : Location} {name next : String} {names : List String} :
    t.walk base (name :: next :: names) = .ok place ↔
      ∃ p, step base name = .ok p ∧ t.isDirectory p = true ∧ t.walk p (next :: names) = .ok place := by
  rw [walk]
  cases hs : step base name with
  | error e => simp
  | ok p =>
    by_cases hd : t.isDirectory p = true
    · have hentry : t.entry? p = some .directory := if_pos hd
      simp [hentry, hd]
    · have hentry : t.entry? p = (t.content? p).map .file := if_neg hd
      cases hc : t.content? p <;> simp [hentry, hc, hd]
  · exact fun h => by cases h

theorem entry?_of_not_directory {t : FileTree} {place : Location} (h : t.isDirectory place = false) :
    t.entry? place = (t.content? place).map .file :=
  if_neg (Bool.eq_false_iff.mp h)

theorem locate_of_directory {t : FileTree} {path : String} (h : t.lookup? path = some .directory) :
    ∃ place, t.locate path = .ok place ∧ t.isDirectory place = true := by
  unfold lookup? find? at h
  cases hl : t.locate path with
  | error e => simp [hl] at h
  | ok place =>
    refine ⟨place, rfl, ?_⟩
    by_cases hd : t.isDirectory place = true
    · exact hd
    · have hentry : t.entry? place = (t.content? place).map .file := if_neg hd
      cases hc : t.content? place <;> simp [hl, hentry, hc] at h

theorem lookup?_of_directory {t : FileTree} {path : String} {place : Location} (h : t.locate path = .ok place)
    (hd : t.isDirectory place = true) : t.lookup? path = some .directory := by
  have hentry : t.entry? place = some .directory := if_pos hd
  simp [lookup?, find?, h, hentry]

/-- What was a directory is one still, and relative paths start where they did. -/
structure Grows (t t' : FileTree) : Prop where
  kept : ∀ place, t.isDirectory place = true → t'.isDirectory place = true
  here : t'.here = t.here

namespace Grows

variable {t t' t'' : FileTree}

theorem rfl : Grows t t :=
  ⟨fun _ h => h, .refl _⟩

theorem trans (h : Grows t t') (h' : Grows t' t'') : Grows t t'' :=
  ⟨fun place hd => h'.kept place (h.kept place hd), h'.here.trans h.here⟩

theorem walk (h : Grows t t') {base place : Location} {names : List String} (hw : t.walk base names = .ok place) :
    t'.walk base names = .ok place := by
  induction names generalizing base with
  | nil => exact hw
  | cons name names ih =>
    cases names with
    | nil => exact hw
    | cons next names =>
      obtain ⟨p, hs, hd, hrest⟩ := walk_cons_cons_iff.mp hw
      exact walk_cons_cons_iff.mpr ⟨p, hs, h.kept p hd, ih hrest⟩

theorem origin (h : Grows t t') (path : String) : t'.origin path = t.origin path := by
  unfold FileTree.origin
  rw [h.here]

theorem locate (h : Grows t t') {path : String} {place : Location} (hl : t.locate path = .ok place) :
    t'.locate path = .ok place := by
  unfold FileTree.locate at hl ⊢
  cases hf : Path.fault? path with
  | some e => simp [hf] at hl
  | none =>
    simp only [hf] at hl ⊢
    rw [h.origin]
    exact h.walk hl

theorem find? (h : Grows t t') {path : String} {place : Location} (hf : t.find? path = some place)
    (hentry : (t'.entry? place).isSome = true) : t'.find? path = some place := by
  unfold FileTree.find? at hf ⊢
  cases hl : t.locate path with
  | error e => simp [hl] at hf
  | ok p =>
    simp only [hl] at hf
    split at hf
    · cases hf
      simp only [h.locate hl, hentry, if_true]
    · cases hf

end Grows

/-- The same directories, and the same place for relative paths to start. -/
structure SameWays (t t' : FileTree) : Prop where
  directories : t'.directories = t.directories
  here : t'.here = t.here

namespace SameWays

variable {t t' t'' : FileTree}

theorem rfl : SameWays t t :=
  ⟨.refl _, .refl _⟩

theorem symm (h : SameWays t t') : SameWays t' t :=
  ⟨h.directories.symm, h.here.symm⟩

theorem trans (h : SameWays t t') (h' : SameWays t' t'') : SameWays t t'' :=
  ⟨h'.directories.trans h.directories, h'.here.trans h.here⟩

theorem put (t : FileTree) (place : Location) (content : Bytes) : SameWays t (t.put place content) :=
  ⟨directories_put .., here_put ..⟩

theorem isDirectory (h : SameWays t t') (place : Location) : t'.isDirectory place = t.isDirectory place := by
  unfold FileTree.isDirectory
  rw [h.directories]

theorem entry?_eq (h : SameWays t t') {place : Location} (hc : t'.content? place = t.content? place) :
    t'.entry? place = t.entry? place := by
  unfold FileTree.entry?
  rw [h.isDirectory, hc]

theorem grows (h : SameWays t t') : Grows t t' :=
  ⟨fun place hd => (h.isDirectory place).trans hd, h.here⟩

theorem writable (h : SameWays t t') {path : String} {place : Location} (hw : t.writable path = .ok place) :
    t'.writable path = .ok place := by
  unfold FileTree.writable at hw ⊢
  cases hl : t.locate path with
  | error e => simp [hl] at hw
  | ok p =>
    simp only [hl] at hw
    simp only [h.grows.locate hl, h.isDirectory]
    exact hw

theorem lookup?_directory (h : SameWays t t') {path : String} (hl : t.lookup? path = some .directory) :
    t'.lookup? path = some .directory := by
  obtain ⟨place, hplace, hd⟩ := locate_of_directory hl
  exact lookup?_of_directory (h.grows.locate hplace) ((h.isDirectory place).trans hd)

end SameWays

/-- Nothing was done, or the file at one place was put anew. -/
def ChangedAt (place : Location) (t t' : FileTree) : Prop :=
  t' = t ∨ ∃ content, t' = t.put place content

namespace ChangedAt

variable {place : Location} {t t' t'' : FileTree}

theorem rfl : ChangedAt place t t :=
  .inl (.refl _)

theorem put (t : FileTree) (place : Location) (content : Bytes) : ChangedAt place t (t.put place content) :=
  .inr ⟨content, .refl _⟩

theorem trans (h : ChangedAt place t t') (h' : ChangedAt place t' t'') : ChangedAt place t t'' := by
  rcases h' with h' | ⟨content, h'⟩
  · rwa [h']
  · rcases h with h | ⟨old, h⟩
    · rw [h', h]
      exact .put ..
    · rw [h', h, put_put]
      exact .put ..

theorem content (h : ChangedAt place t t') (q : Location) (hq : q ≠ place) : t'.content? q = t.content? q := by
  rcases h with h | ⟨content, h⟩
  · rw [h]
  · rw [h, content?_put_of_ne hq]

end ChangedAt

/-! ## Looking up -/

theorem locate_of_writable {t : FileTree} {path : String} {place : Location} (h : t.writable path = .ok place) :
    t.locate path = .ok place ∧ t.isDirectory place = false := by
  unfold writable at h
  cases hl : t.locate path with
  | error e => simp [hl] at h
  | ok p =>
    simp only [hl] at h
    split at h
    · cases h
    next hd =>
      cases h
      exact ⟨rfl, Bool.eq_false_iff.mpr hd⟩

/-- Where a file can be written, a lookup finds the file that is there. -/
theorem lookup?_of_writable {t : FileTree} {path : String} {place : Location} (h : t.writable path = .ok place) :
    t.lookup? path = (t.content? place).map .file := by
  obtain ⟨hl, hd⟩ := locate_of_writable h
  have hentry := entry?_of_not_directory hd
  simp only [lookup?, find?, hl]
  cases hc : t.content? place <;> simp [hentry, hc]

/-! ## Directories that are there -/

theorem step_empty (base : Location) : step base "" = .ok base := rfl

theorem walk_steps {t : FileTree} {base place : Location} {names : List String} (h : t.walk base names = .ok place) :
    t.walk base (names.filter (· ≠ "")) = .ok place := by
  induction names generalizing base with
  | nil => exact h
  | cons name names ih =>
    cases names with
    | nil =>
      by_cases hn : name = ""
      · subst hn
        exact h
      · simpa [hn] using h
    | cons next names =>
      obtain ⟨p, hs, hd, hrest⟩ := walk_cons_cons_iff.mp h
      have hrest' := ih hrest
      by_cases hn : name = ""
      · subst hn
        cases (step_empty base).symm.trans hs
        exact hrest'
      · rw [List.filter_cons_of_pos (by simpa using hn)]
        cases hf : (next :: names).filter (· ≠ "") with
        | nil =>
          rw [hf] at hrest'
          cases hrest'
          exact hs
        | cons next' names' =>
          rw [hf] at hrest'
          exact walk_cons_cons_iff.mpr ⟨p, hs, hd, hrest'⟩

theorem makeDirectories_of_lookup? {t : FileTree} {path : String} (h : t.lookup? path = some .directory) :
    t.makeDirectories path = (t, .ok ()) := by
  obtain ⟨place, hl, hd⟩ := locate_of_directory h
  have hentry : t.entry? place = some .directory := if_pos hd
  cases hf : Path.fault? path with
  | some e => simp [locate, hf] at hl
  | none =>
    have hwalk : t.walk (t.origin path) (Path.names path) = .ok place := by simpa [locate, hf] using hl
    have hne : path ≠ "" := by
      rintro rfl
      cases hf
    have hmake : t.makeDirectory (t.origin path) (Path.steps path) = .ok t := by
      unfold makeDirectory Path.steps
      simp only [walk_steps hwalk, hentry]
    simp only [makeDirectories, if_neg hne, hf, Path.ancestors, makeFirst, hmake]

end FileTree
end MarketMinutes
