import MarketMinutes.Proofs.Storage.FileTree

/-!
# Directories made

To make directories puts them where nothing was, so what could be found before
is found after it. Once a directory has been made, to make it again changes
nothing.
-/

namespace MarketMinutes
namespace Path

theorem head?_names_of_relative {path : String} (hne : path ≠ "") (h : isAbsolute path = false) :
    (names path).head? ≠ some "" := by
  unfold names
  unfold isAbsolute at h
  cases hcs : path.toList with
  | nil => exact absurd (String.toList_eq_nil_iff.mp hcs) hne
  | cons c cs =>
    have hc : c ≠ '/' := by
      rintro rfl
      simp [hcs] at h
    rw [split, if_neg hc]
    cases split cs with
    | nil => simp
    | cons part parts => simp [String.ofList_eq_empty_iff]

end Path

namespace FileTree

/-! ## Trees with more directories -/

/-- The same files, and more directories where no file is. -/
structure Furnished (t t' : FileTree) : Prop extends Grows t t' where
  files : t'.files = t.files
  free : ∀ place, t'.isDirectory place = true → t.isDirectory place = true ∨ t.content? place = none

namespace Furnished

variable {t t' t'' : FileTree}

theorem content? (h : Furnished t t') (place : Location) : t'.content? place = t.content? place := by
  unfold FileTree.content?
  rw [h.files]

theorem rfl : Furnished t t :=
  ⟨.rfl, .refl _, fun _ h => .inl h⟩

theorem trans (h : Furnished t t') (h' : Furnished t' t'') : Furnished t t'' where
  toGrows := h.toGrows.trans h'.toGrows
  files := h'.files.trans h.files
  free := by
    intro place hd
    rcases h'.free place hd with hd | hc
    · exact h.free place hd
    · exact .inr ((h.content? place).symm.trans hc)

theorem entry?_eq (h : Furnished t t') {place : Location} (he : (t.entry? place).isSome = true) :
    t'.entry? place = t.entry? place := by
  unfold FileTree.entry? at he ⊢
  by_cases hd : t.isDirectory place = true
  · rw [if_pos hd, if_pos (h.kept place hd)]
  · rw [if_neg hd] at he ⊢
    have hd' : ¬ t'.isDirectory place = true := by
      intro hd'
      rcases h.free place hd' with hd'' | hc
      · exact hd hd''
      · simp [hc] at he
    rw [if_neg hd', h.content?]

end Furnished

theorem isSome_entry?_of_find? {t : FileTree} {path : String} {place : Location} (h : t.find? path = some place) :
    (t.entry? place).isSome = true := by
  unfold find? at h
  cases hl : t.locate path with
  | error e => simp [hl] at h
  | ok p =>
    simp only [hl] at h
    split at h
    next hentry =>
      cases h
      exact hentry
    · cases h

theorem lookup?_eq_file_iff {t : FileTree} {path : String} {content : Bytes} :
    t.lookup? path = some (.file content) ↔
      ∃ place, t.find? path = some place ∧ t.isDirectory place = false ∧ t.content? place = some content := by
  unfold lookup?
  rw [Option.bind_eq_some_iff]
  refine exists_congr fun place => and_congr_right fun _ => ?_
  unfold entry?
  cases hd : t.isDirectory place with
  | true => simp
  | false => simp

/-! ## Making them -/

theorem isDirectory_add_iff {t : FileTree} {place q : Location} :
    isDirectory { t with directories := t.directories ++ [place] } q = true ↔ t.isDirectory q = true ∨ q = place := by
  simp only [isDirectory, Bool.or_eq_true, List.contains_eq_mem, decide_eq_true_eq, List.mem_append, List.mem_singleton,
    or_assoc]

theorem makeDirectory_furnished {t t' : FileTree} {base : Location} {names : List String}
    (h : t.makeDirectory base names = .ok t') : Furnished t t' := by
  unfold makeDirectory at h
  cases hw : t.walk base names with
  | error e => simp [hw] at h
  | ok place =>
    simp only [hw] at h
    cases he : t.entry? place with
    | none =>
      simp only [he, Except.ok.injEq] at h
      subst h
      have hfree : t.content? place = none := by
        unfold entry? at he
        split at he
        · cases he
        · exact Option.map_eq_none_iff.mp he
      refine ⟨⟨fun q hq => isDirectory_add_iff.mpr (.inl hq), rfl⟩, rfl, fun q hq => ?_⟩
      rcases isDirectory_add_iff.mp hq with hq | rfl
      · exact .inl hq
      · exact .inr hfree
    | some entry =>
      cases entry with
      | directory =>
        simp only [he, Except.ok.injEq] at h
        rw [← h]
        exact .rfl
      | file content => simp [he] at h

theorem makeDirectory_found {t t' : FileTree} {base : Location} {names : List String}
    (h : t.makeDirectory base names = .ok t') : ∃ place, t'.walk base names = .ok place ∧ t'.isDirectory place = true := by
  have hgrows := (makeDirectory_furnished h).toGrows
  unfold makeDirectory at h
  cases hw : t.walk base names with
  | error e => simp [hw] at h
  | ok place =>
    refine ⟨place, hgrows.walk hw, ?_⟩
    simp only [hw] at h
    cases he : t.entry? place with
    | none =>
      simp only [he, Except.ok.injEq] at h
      rw [← h]
      exact isDirectory_add_iff.mpr (.inr rfl)
    | some entry =>
      cases entry with
      | directory =>
        have hd : t.isDirectory place = true := by
          unfold entry? at he
          split at he
          · assumption
          · cases hc : t.content? place <;> simp [hc] at he
        exact hgrows.kept place hd
      | file content => simp [he] at h

theorem makeFirst_furnished (t : FileTree) (base : Location) (paths : List (List String)) :
    Furnished t (t.makeFirst base paths).1 := by
  induction paths with
  | nil => exact .rfl
  | cons names above ih =>
    unfold makeFirst
    cases hm : t.makeDirectory base names with
    | ok t' => exact makeDirectory_furnished hm
    | error e =>
      cases e with
      | missing =>
        rcases hrest : t.makeFirst base above with ⟨t', e | _⟩
        · simpa [hrest] using ih
        · rw [hrest] at ih
          simp only
          cases hm' : t'.makeDirectory base names with
          | ok t'' => exact ih.trans (makeDirectory_furnished hm')
          | error e => exact ih
      | nul => exact .rfl
      | refused => exact .rfl

theorem makeFirst_found {t t' : FileTree} {base : Location} {names : List String} {above : List (List String)}
    (h : t.makeFirst base (names :: above) = (t', .ok ())) :
    ∃ place, t'.walk base names = .ok place ∧ t'.isDirectory place = true := by
  unfold makeFirst at h
  cases hm : t.makeDirectory base names with
  | ok t₁ =>
    simp only [hm, Prod.mk.injEq, and_true] at h
    subst h
    exact makeDirectory_found hm
  | error e =>
    cases e with
    | missing =>
      rcases hrest : t.makeFirst base above with ⟨t₁, e | _⟩
      · simp [hm, hrest] at h
      · simp only [hm, hrest] at h
        cases hm' : t₁.makeDirectory base names with
        | ok t₂ =>
          simp only [hm', Prod.mk.injEq, and_true] at h
          subst h
          exact makeDirectory_found hm'
        | error e => simp [hm'] at h
    | nul => simp [hm] at h
    | refused => simp [hm] at h

theorem makeDirectories_furnished (t : FileTree) (path : String) : Furnished t (t.makeDirectories path).1 := by
  unfold makeDirectories
  split
  · exact .rfl
  · cases Path.fault? path with
    | some e => exact .rfl
    | none => exact makeFirst_furnished ..

/-! ## Finding them again -/

/-- An empty name stays where it is, if that is a directory. -/
theorem walk_of_steps {t : FileTree} {base place : Location} {names : List String}
    (hw : t.walk base (names.filter (· ≠ "")) = .ok place) (hd : t.isDirectory place = true)
    (hbase : names.head? = some "" → t.isDirectory base = true) : t.walk base names = .ok place := by
  induction names generalizing base with
  | nil => exact hw
  | cons name names ih =>
    by_cases hn : name = ""
    · subst hn
      have hb := hbase rfl
      have hrest := ih hw fun _ => hb
      cases names with
      | nil => exact hrest
      | cons next names => exact walk_cons_cons_iff.mpr ⟨base, step_empty base, hb, hrest⟩
    · rw [List.filter_cons_of_pos (by simpa using hn)] at hw
      cases names with
      | nil => exact hw
      | cons next names =>
        rw [walk_cons_cons_iff]
        cases hf : (next :: names).filter (· ≠ "") with
        | nil =>
          rw [hf] at hw
          refine ⟨place, hw, hd, ih ?_ fun _ => hd⟩
          rw [hf]
          rfl
        | cons next' names' =>
          rw [hf] at hw
          obtain ⟨p, hs, hp, hrest⟩ := walk_cons_cons_iff.mp hw
          exact ⟨p, hs, hp, ih (hf ▸ hrest) fun _ => hp⟩

theorem lookup?_of_makeDirectories {t t' : FileTree} {path : String} (h : t.makeDirectories path = (t', .ok ())) :
    path = "" ∨ t'.lookup? path = some .directory := by
  by_cases hne : path = ""
  · exact .inl hne
  right
  have hgrows := (makeDirectories_furnished t path).toGrows
  rw [h] at hgrows
  unfold makeDirectories at h
  rw [if_neg hne] at h
  cases hf : Path.fault? path with
  | some e => simp [hf] at h
  | none =>
    simp only [hf] at h
    obtain ⟨place, hwalk, hd⟩ := makeFirst_found h
    have hwalk' : t'.walk (t.origin path) (Path.names path) = .ok place := by
      refine walk_of_steps hwalk hd fun hhead => ?_
      unfold origin
      cases ha : Path.isAbsolute path with
      | true => rfl
      | false => exact absurd hhead (Path.head?_names_of_relative hne ha)
    have hlocate : t'.locate path = .ok place := by
      unfold locate
      simp only [hf, hgrows.origin, hwalk']
    exact lookup?_of_directory hlocate hd

/-! ## Files put before or after -/

section
variable {t : FileTree} {q : Location} (h : (t.content? q).isSome = true) (content : Bytes)
include h

theorem entry?_put_cases (place : Location) :
    (t.entry? place = some .directory ∧ entry? (t.put q content) place = some .directory) ∨
      (∃ old new, t.entry? place = some (.file old) ∧ entry? (t.put q content) place = some (.file new)) ∨
      (t.entry? place = none ∧ entry? (t.put q content) place = none) := by
  unfold entry?
  rw [(SameWays.put t q content).isDirectory]
  by_cases hd : t.isDirectory place = true
  · exact .inl ⟨if_pos hd, if_pos hd⟩
  · simp only [if_neg hd]
    right
    by_cases hq : place = q
    · subst hq
      obtain ⟨old, hold⟩ := Option.isSome_iff_exists.mp h
      rw [hold, content?_put_self]
      exact .inl ⟨old, content, rfl, rfl⟩
    · rw [content?_put_of_ne hq]
      cases hc : t.content? place with
      | none => exact .inr ⟨rfl, rfl⟩
      | some old => exact .inl ⟨old, old, rfl, rfl⟩

theorem walk_put (base : Location) (names : List String) : (t.put q content).walk base names = t.walk base names := by
  induction names generalizing base with
  | nil => rfl
  | cons name names ih =>
    cases names with
    | nil => rfl
    | cons next names =>
      rw [walk, walk]
      · cases step base name with
        | error e => rfl
        | ok place =>
          rcases entry?_put_cases h content place with ⟨he, he'⟩ | ⟨old, new, he, he'⟩ | ⟨he, he'⟩
          · simp only [he, he', ih]
          · simp only [he, he']
          · simp only [he, he']
      · exact fun h => by cases h
      · exact fun h => by cases h

theorem find?_put (path : String) : (t.put q content).find? path = t.find? path := by
  have hlocate : (t.put q content).locate path = t.locate path := by
    unfold locate
    rw [(SameWays.put t q content).grows.origin]
    cases Path.fault? path with
    | some e => rfl
    | none => exact walk_put h ..
  unfold find?
  rw [hlocate]
  cases t.locate path with
  | error e => rfl
  | ok place =>
    rcases entry?_put_cases h content place with ⟨he, he'⟩ | ⟨old, new, he, he'⟩ | ⟨he, he'⟩
    · simp only [he, he']
    · simp only [he, he', Option.isSome_some]
    · simp only [he, he']

theorem lookup?_put {path : String} (hne : t.find? path ≠ some q) : (t.put q content).lookup? path = t.lookup? path := by
  unfold lookup?
  rw [find?_put h]
  cases hfind : t.find? path with
  | none => rfl
  | some place =>
    have hplace : place ≠ q := by
      rintro rfl
      exact hne hfind
    exact SameWays.entry?_eq (.put t q content) (content?_put_of_ne hplace ..)

theorem makeDirectory_put (base : Location) (names : List String) :
    (t.put q content).makeDirectory base names = (t.makeDirectory base names).map (·.put q content) := by
  unfold makeDirectory
  rw [walk_put h]
  cases t.walk base names with
  | error e => rfl
  | ok place =>
    rcases entry?_put_cases h content place with ⟨he, he'⟩ | ⟨old, new, he, he'⟩ | ⟨he, he'⟩
    · simp only [he, he']
      rfl
    · simp only [he, he']
      rfl
    · simp only [he, he']
      rw [put_of_some h]
      have h' : (content? { t with directories := t.directories ++ [place] } q).isSome = true := h
      exact congrArg Except.ok (put_of_some h' content).symm

end

theorem makeFirst_put {t : FileTree} {q : Location} (h : (t.content? q).isSome = true) (content : Bytes) (base : Location)
    (paths : List (List String)) :
    (t.put q content).makeFirst base paths = ((t.makeFirst base paths).1.put q content, (t.makeFirst base paths).2) := by
  induction paths with
  | nil => rfl
  | cons names above ih =>
    unfold makeFirst
    rw [makeDirectory_put h, ih]
    cases hm : t.makeDirectory base names with
    | ok t' => rfl
    | error e =>
      cases e with
      | missing =>
        have hkept := (makeFirst_furnished t base above).content? q
        rcases hrest : t.makeFirst base above with ⟨t', e | _⟩
        · rfl
        · rw [hrest] at hkept
          simp only [Except.map]
          rw [makeDirectory_put (hkept ▸ h)]
          cases t'.makeDirectory base names <;> rfl
      | nul => rfl
      | refused => rfl

theorem makeDirectories_put {t : FileTree} {q : Location} (h : (t.content? q).isSome = true) (content : Bytes)
    (path : String) :
    (t.put q content).makeDirectories path =
      ((t.makeDirectories path).1.put q content, (t.makeDirectories path).2) := by
  unfold makeDirectories
  split
  · rfl
  · cases Path.fault? path with
    | some e => rfl
    | none =>
      simp only [(SameWays.put t q content).grows.origin]
      exact makeFirst_put h ..

end FileTree
end MarketMinutes
