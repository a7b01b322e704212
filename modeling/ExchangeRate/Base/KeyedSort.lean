import Mathlib.Data.List.Nodup
import Mathlib.Data.List.Sort

/-!
# Sorting rows by a key

A *collation* is a linear order on keys, given as a Boolean comparison: it is total,
transitive and antisymmetric. `Collation.sortBy` sorts a list of rows by their keys.

Everything here is about rows with pairwise distinct keys. Their order is then
strict (`Collation.ascending_sortBy`), and a strictly ascending list is determined by
its members (`Collation.Ascending.eq_of_mem_iff`). So the sorted list does not depend
on the order in which the rows were stored (`Collation.sortBy_eq_of_perm`), and a
selection can be made before or after sorting (`Collation.sortBy_filter`).
-/

/-- A linear order on keys, as a Boolean comparison. -/
structure Collation (κ : Type*) where
  /-- The first key does not come after the second. -/
  le : κ → κ → Bool
  total : ∀ a b, le a b = true ∨ le b a = true
  trans : ∀ a b c, le a b = true → le b c = true → le a c = true
  antisymm : ∀ a b, le a b = true → le b a = true → a = b

namespace Collation

variable {κ α β : Type*} (C : Collation κ)

/-! ### The strict order -/

/-- The first key comes before the second. -/
def Before (a b : κ) : Prop := C.le a b = true ∧ C.le b a = false

/-- **Strictly ascending** by a key. -/
def Ascending (key : α → κ) (l : List α) : Prop := l.Pairwise fun a b => C.Before (key a) (key b)

/-- Sort by a key. -/
def sortBy (key : α → κ) (l : List α) : List α := l.insertionSort fun a b => C.le (key a) (key b)

variable {C} {key : α → κ} {l l' : List α}

theorem Before.asymm {a b : κ} (h : C.Before a b) : ¬C.Before b a := by
  rintro ⟨hle, -⟩
  have hnot := h.2
  rw [hle] at hnot
  cases hnot

theorem before_of_le_of_ne {a b : κ} (h : C.le a b = true) (hne : a ≠ b) : C.Before a b := by
  refine ⟨h, ?_⟩
  rw [Bool.eq_false_iff]
  intro hback
  exact hne (C.antisymm a b h hback)

theorem Before.ne {a b : κ} (h : C.Before a b) : a ≠ b := by
  rintro rfl
  exact h.asymm h

/-- No key occurs twice in a strictly ascending list. -/
theorem Ascending.nodup_map (h : C.Ascending key l) : (l.map key).Nodup :=
  List.pairwise_map.mpr (List.Pairwise.imp Before.ne h)

theorem Ascending.nodup (h : C.Ascending key l) : l.Nodup := List.Nodup.of_map key h.nodup_map

/-- A part of a strictly ascending list is strictly ascending. -/
theorem Ascending.sublist (h : C.Ascending key l) (hsub : l'.Sublist l) : C.Ascending key l' :=
  List.Pairwise.sublist hsub h

/-- **A strictly ascending list is determined by its members.** -/
theorem Ascending.eq_of_mem_iff (h : C.Ascending key l) (h' : C.Ascending key l')
    (hmem : ∀ a, a ∈ l ↔ a ∈ l') : l = l' := by
  have hperm : l.Perm l' := (List.perm_ext_iff_of_nodup h.nodup h'.nodup).mpr hmem
  refine hperm.eq_of_pairwise ?_ h h'
  intro a b _ _ hab hba
  exact absurd hba hab.asymm

/-! ### The sorted list -/

theorem perm_sortBy (key : α → κ) (l : List α) : (C.sortBy key l).Perm l :=
  List.perm_insertionSort _ l

@[simp] theorem mem_sortBy {a : α} : a ∈ C.sortBy key l ↔ a ∈ l :=
  (perm_sortBy key l).mem_iff

/-- **Rows with distinct keys are sorted into a strictly ascending list.** -/
theorem ascending_sortBy (h : (l.map key).Nodup) : C.Ascending key (C.sortBy key l) := by
  have : Std.Total fun a b : α => C.le (key a) (key b) = true :=
    ⟨fun a b => C.total (key a) (key b)⟩
  have : IsTrans α fun a b : α => C.le (key a) (key b) = true :=
    ⟨fun a b c => C.trans (key a) (key b) (key c)⟩
  have hle : (C.sortBy key l).Pairwise fun a b => C.le (key a) (key b) = true :=
    List.pairwise_insertionSort _ l
  have hne : (C.sortBy key l).Pairwise fun a b => key a ≠ key b :=
    List.pairwise_map.mp (((perm_sortBy key l).map key).nodup_iff.mpr h)
  exact (hle.and hne).imp fun hab => before_of_le_of_ne hab.1 hab.2

/-- **The order in which the rows are stored does not matter.** -/
theorem sortBy_eq_of_perm (h : (l.map key).Nodup) (hperm : l.Perm l') :
    C.sortBy key l = C.sortBy key l' := by
  have h' : (l'.map key).Nodup := (hperm.map key).nodup_iff.mp h
  refine (ascending_sortBy h).eq_of_mem_iff (ascending_sortBy h') fun a => ?_
  rw [mem_sortBy, mem_sortBy, hperm.mem_iff]

/-- **A selection can be made before or after sorting.** -/
theorem sortBy_filter (h : (l.map key).Nodup) (p : α → Bool) :
    C.sortBy key (l.filter p) = (C.sortBy key l).filter p := by
  have hfilter : ((l.filter p).map key).Nodup := h.sublist (List.filter_sublist.map key)
  have hsub : ((C.sortBy key l).filter p).Sublist (C.sortBy key l) := List.filter_sublist
  refine (ascending_sortBy hfilter).eq_of_mem_iff ((ascending_sortBy h).sublist hsub) fun a => ?_
  rw [mem_sortBy, List.mem_filter, List.mem_filter, mem_sortBy]

/-- Sorting rows and looking at a part of each is sorting these parts, when the key can be
read off the part. -/
theorem map_sortBy (f : β → α) (key : α → κ) (m : List β) :
    (C.sortBy (key ∘ f) m).map f = C.sortBy key (m.map f) :=
  List.map_insertionSort _ _ f m fun _ _ _ _ => Iff.rfl

end Collation
