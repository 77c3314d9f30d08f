import Mathlib.Logic.Function.Basic
import MarketMinutes.Document
import MarketMinutes.Proofs.Storage.FileTree

/-!
# Files of three kinds, put anew

However often the files of a collection are put, the tree is the one before
the first time with the last text of each kind in its place.
-/

namespace MarketMinutes.FileTree

/-- The tree with a file in the place of every kind. -/
def putKinds (t : FileTree) (place : Kind → Location) (text : Kind → Bytes) : FileTree :=
  Kind.all.foldl (fun t kind => t.put (place kind) (text kind)) t

variable {t : FileTree} {place : Kind → Location}

theorem putKinds_eq (t : FileTree) (place : Kind → Location) (text : Kind → Bytes) :
    t.putKinds place text =
      ((t.put (place .quotes) (text .quotes)).put (place .trades) (text .trades)).put (place .book) (text .book) := rfl

theorem SameWays.putKinds (t : FileTree) (place : Kind → Location) (text : Kind → Bytes) :
    SameWays t (t.putKinds place text) :=
  (SameWays.put ..).trans ((SameWays.put ..).trans (.put ..))

theorem content?_putKinds_of_ne {q : Location} (hq : ∀ kind, place kind ≠ q) (t : FileTree) (text : Kind → Bytes) :
    (t.putKinds place text).content? q = t.content? q := by
  rw [putKinds_eq, content?_put_of_ne (hq _).symm, content?_put_of_ne (hq _).symm, content?_put_of_ne (hq _).symm]

theorem content?_putKinds (hplace : Function.Injective place) (t : FileTree) (text : Kind → Bytes) (kind : Kind) :
    (t.putKinds place text).content? (place kind) = some (text kind) := by
  have hne : ∀ {k k' : Kind}, k ≠ k' → place k ≠ place k' := fun h => hplace.ne h
  rw [putKinds_eq]
  cases kind with
  | quotes => rw [content?_put_of_ne (hne (by decide)), content?_put_of_ne (hne (by decide)), content?_put_self]
  | trades => rw [content?_put_of_ne (hne (by decide)), content?_put_self]
  | book => rw [content?_put_self]

theorem put_putKinds (hplace : Function.Injective place) (t : FileTree) (text : Kind → Bytes) (kind : Kind)
    (content : Bytes) :
    (t.putKinds place text).put (place kind) content = t.putKinds place (Function.update text kind content) := by
  have hne : ∀ {k k' : Kind}, k ≠ k' → place k ≠ place k' := fun h => hplace.ne h
  have hself : ∀ (t : FileTree) q c, ((t.put q c).content? q).isSome = true := by
    intro t q c
    rw [content?_put_self, Option.isSome_some]
  have hkept : ∀ {t : FileTree} {q q' : Location} c, q ≠ q' → (t.content? q).isSome = true →
      ((t.put q' c).content? q).isSome = true := by
    intro t q q' c hq h
    rwa [content?_put_of_ne hq]
  rw [putKinds_eq, putKinds_eq]
  cases kind with
  | quotes =>
    rw [put_comm (hne (by decide)) (hkept _ (hne (by decide)) (hself ..)), put_comm (hne (by decide)) (hself ..),
      put_put]
    rfl
  | trades =>
    rw [put_comm (hne (by decide)) (hself ..), put_put]
    rfl
  | book =>
    rw [put_put]
    rfl

theorem putKinds_putKinds (hplace : Function.Injective place) (t : FileTree) (old new : Kind → Bytes) :
    (t.putKinds place old).putKinds place new = t.putKinds place new := by
  rw [putKinds_eq (t.putKinds place old), put_putKinds hplace, put_putKinds hplace, put_putKinds hplace]
  congr 1
  funext kind
  cases kind <;> rfl

/-- Files of the kinds have been put, any number of times. -/
inductive Refilled (place : Kind → Location) (t : FileTree) : FileTree → Prop
  | rfl : Refilled place t t
  | put {t' : FileTree} (kind : Kind) (content : Bytes) :
    Refilled place t t' → Refilled place t (t'.put (place kind) content)

theorem ChangedAt.refilled {t' : FileTree} {kind : Kind} (h : ChangedAt (place kind) t t') : Refilled place t t' := by
  rcases h with h | ⟨content, h⟩
  · rw [h]
    exact .rfl
  · rw [h]
    exact .put kind content .rfl

namespace Refilled

variable {t' t'' : FileTree}

theorem trans (h : Refilled place t t') (h' : Refilled place t' t'') : Refilled place t t'' := by
  induction h' with
  | rfl => exact h
  | put kind content _ ih => exact ih.put kind content

theorem sameWays (h : Refilled place t t') : SameWays t t' := by
  induction h with
  | rfl => exact .rfl
  | put kind content _ ih => exact ih.trans (.put ..)

theorem exists_putKinds (hplace : Function.Injective place) {old : Kind → Bytes}
    (h : Refilled place (t.putKinds place old) t') : ∃ text, t' = t.putKinds place text := by
  induction h with
  | rfl => exact ⟨old, .refl _⟩
  | put kind content _ ih =>
    obtain ⟨text, ih⟩ := ih
    exact ⟨_, by rw [ih, put_putKinds hplace]⟩

/-- Where a file of every kind was in place, the texts in place now make the tree. -/
theorem eq_putKinds (hplace : Function.Injective place) {old text : Kind → Bytes}
    (h : Refilled place (t.putKinds place old) t') (hc : ∀ kind, t'.content? (place kind) = some (text kind)) :
    t' = t.putKinds place text := by
  obtain ⟨text', rfl⟩ := h.exists_putKinds hplace
  congr 1
  funext kind
  have hkind := hc kind
  rw [content?_putKinds hplace] at hkind
  exact Option.some.inj hkind

end Refilled
end MarketMinutes.FileTree
