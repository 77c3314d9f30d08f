import MarketMinutes.Proofs.Storage.FileTree
import MarketMinutes.Storage.Collection

/-!
# The files of a collection

The files of a collection end in names of their own, so they never lie in one
place.
-/

namespace MarketMinutes

/-! ## Last names -/

namespace Path

theorem split_of_not_mem {cs : List Char} (h : '/' ∉ cs) : split cs = [cs] := by
  induction cs with
  | nil => rfl
  | cons c cs ih =>
    rw [List.mem_cons, not_or] at h
    rw [split, if_neg (Ne.symm h.1), ih h.2]

/-- What holds no slash goes to the last part. -/
theorem split_append (xs : List Char) :
    ∃ front last, ∀ ys, '/' ∉ ys → split (xs ++ ys) = front ++ [last ++ ys] := by
  induction xs with
  | nil => exact ⟨[], [], fun ys h => split_of_not_mem h⟩
  | cons c cs ih =>
    obtain ⟨front, last, hsplit⟩ := ih
    by_cases hc : c = '/'
    · refine ⟨[] :: front, last, fun ys h => ?_⟩
      rw [List.cons_append, split, if_pos hc, hsplit ys h, List.cons_append]
    · cases front with
      | nil =>
        refine ⟨[], c :: last, fun ys h => ?_⟩
        rw [List.cons_append, split, if_neg hc, hsplit ys h]
        rfl
      | cons part front =>
        refine ⟨(c :: part) :: front, last, fun ys h => ?_⟩
        rw [List.cons_append, split, if_neg hc, hsplit ys h]
        rfl

theorem names_append (path : String) :
    ∃ front last, ∀ ending : String, '/' ∉ ending.toList → names (path ++ ending) = front ++ [last ++ ending] := by
  obtain ⟨front, last, hsplit⟩ := split_append path.toList
  refine ⟨front.map String.ofList, String.ofList last, fun ending h => ?_⟩
  rw [names, String.toList_append, hsplit _ h, List.map_append, List.map_singleton, String.ofList_append,
    String.ofList_toList]

end Path

namespace FileTree

theorem getLast?_of_walk {t : FileTree} {base place : Location} {front : List String} {name : String}
    (h : t.walk base (front ++ [name]) = .ok place) (hn : 2 < name.length) : place.getLast? = some name := by
  induction front generalizing base with
  | nil =>
    have hs : step base name = .ok place := h
    unfold step at hs
    split at hs
    · cases hs
    · cases hs
      have hempty : ¬ (name = "" ∨ name = ".") := by
        rintro (rfl | rfl) <;> exact absurd hn (by decide)
      have hup : ¬ name = ".." := by
        rintro rfl
        exact absurd hn (by decide)
      rw [enter, if_neg hempty, if_neg hup, List.getLast?_concat]
  | cons first front ih =>
    obtain ⟨next, names, hnames⟩ := List.exists_cons_of_ne_nil (show front ++ [name] ≠ [] by simp)
    rw [List.cons_append, hnames] at h
    obtain ⟨p, -, -, hrest⟩ := walk_cons_cons_iff.mp h
    rw [← hnames] at hrest
    exact ih hrest

end FileTree

namespace Collection

def ending (kind : Kind) : String :=
  "_" ++ kind.title ++ "Minutes.jsonl"

theorem length_ending_ne {kind kind' : Kind} (h : kind ≠ kind') : (ending kind).length ≠ (ending kind').length := by
  cases kind <;> cases kind' <;> first | exact absurd rfl h | decide

theorem path_eq (directory collection : String) :
    ∃ start, ∀ kind, path directory collection kind = start ++ ending kind := by
  have hname : ∀ kind : Kind, collection ++ "_" ++ kind.title ++ "Minutes.jsonl" = collection ++ ending kind :=
    fun kind => by simp only [ending, String.append_assoc]
  have habsolute : ∀ kind, Path.isAbsolute (collection ++ ending kind) = Path.isAbsolute collection := fun kind => by
    unfold Path.isAbsolute
    rw [String.toList_append]
    cases collection.toList with
    | nil => cases kind <;> decide
    | cons c cs => rfl
  unfold path
  by_cases ha : Path.isAbsolute collection = true
  · refine ⟨collection, fun kind => ?_⟩
    rw [hname, Path.join, habsolute, if_pos ha]
  by_cases hd : directory = "" ∨ directory.toList.getLast? = some '/'
  · refine ⟨directory ++ collection, fun kind => ?_⟩
    rw [hname, Path.join, habsolute, if_neg ha, if_pos hd, String.append_assoc]
  · refine ⟨directory ++ "/" ++ collection, fun kind => ?_⟩
    rw [hname, Path.join, habsolute, if_neg ha, if_neg hd]
    simp only [String.append_assoc]

/-- Files of two kinds never lie in one place. -/
theorem kind_eq_of_place {t : FileTree} {directory collection : String} {kind kind' : Kind} {place : Location}
    (h : t.writable (path directory collection kind) = .ok place)
    (h' : t.writable (path directory collection kind') = .ok place) : kind = kind' := by
  obtain ⟨start, hpath⟩ := path_eq directory collection
  obtain ⟨front, last, hnames⟩ := Path.names_append start
  have hlast : ∀ k, t.writable (path directory collection k) = .ok place → place.getLast? = some (last ++ ending k) := by
    intro k hk
    have hl := (FileTree.locate_of_writable hk).1
    have hlong : 2 < (last ++ ending k).length := by
      have : 2 < (ending k).length := by cases k <;> decide
      rw [String.length_append]
      omega
    have hslash : '/' ∉ (ending k).toList := by cases k <;> decide
    unfold FileTree.locate at hl
    cases hf : Path.fault? (path directory collection k) with
    | some e => simp [hf] at hl
    | none =>
      simp only [hf] at hl
      rw [hpath, hnames _ hslash] at hl
      exact FileTree.getLast?_of_walk hl hlong
  refine Decidable.byContradiction fun hne => ?_
  have heq : last ++ ending kind = last ++ ending kind' := Option.some.inj ((hlast kind h).symm.trans (hlast kind' h'))
  have hlength := congrArg String.length heq
  rw [String.length_append, String.length_append] at hlength
  exact length_ending_ne hne (by omega)

end Collection
end MarketMinutes
