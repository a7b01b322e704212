import Mathlib.Data.List.Nodup

/-!
# Dictionaries as enumerations

A dictionary in the order in which one process enumerates it: a list of entries
with pairwise distinct keys. Two enumerations of one dictionary are permutations
of each other.
-/

/-- Looking a key up in a list of pairs with distinct keys finds the pair it belongs to. -/
theorem List.lookup_eq_some_iff_mem {κ ν : Type*} [BEq κ] [LawfulBEq κ] {l : List (κ × ν)}
    (h : (l.map Prod.fst).Nodup) {k : κ} {a : ν} : l.lookup k = some a ↔ (k, a) ∈ l := by
  induction l with
  | nil => simp
  | cons r l ih =>
    obtain ⟨j, b⟩ := r
    rw [List.map_cons, List.nodup_cons] at h
    rw [List.lookup_cons]
    by_cases hkj : k = j
    · subst hkj
      have hnot : (k, a) ∉ l := fun hmem => h.1 (List.mem_map.mpr ⟨(k, a), hmem, rfl⟩)
      simp [hnot, eq_comm]
    · rw [beq_false_of_ne hkj, ih h.2]
      simp [hkj]

/-- The value at the first element with a given key, as a lookup among the pairs of keys and
values. -/
theorem List.map_find?_eq_lookup {α κ ν : Type*} [DecidableEq κ] (key : α → κ) (value : α → ν)
    (l : List α) (k : κ) :
    (l.find? fun a => key a = k).map value = (l.map fun a => (key a, value a)).lookup k := by
  induction l with
  | nil => rfl
  | cons a l ih =>
    rw [List.map_cons, List.lookup_cons]
    by_cases ha : key a = k
    · rw [List.find?_cons_of_pos (by simpa using ha), ← ha, beq_self_eq_true]
      rfl
    · rw [List.find?_cons_of_neg (by simpa using ha), beq_false_of_ne (Ne.symm ha), ih]

/-- Among elements with distinct keys, the key of one of them selects it alone. -/
theorem List.filter_key_eq_singleton {α κ : Type*} [DecidableEq κ] {key : α → κ} {l : List α}
    (h : (l.map key).Nodup) {a : α} (ha : a ∈ l) : (l.filter fun b => key b = key a) = [a] := by
  induction l with
  | nil => cases ha
  | cons b l ih =>
    rw [List.map_cons, List.nodup_cons] at h
    rcases List.mem_cons.mp ha with rfl | hmem
    · have hrest : l.filter (fun b => key b = key a) = [] := by
        rw [List.filter_eq_nil_iff]
        intro c hc heq
        rw [decide_eq_true_eq] at heq
        exact h.1 (heq ▸ List.mem_map_of_mem hc)
      rw [List.filter_cons_of_pos (by simp), hrest]
    · have hne : key b ≠ key a := fun heq => h.1 (heq ▸ List.mem_map_of_mem hmem)
      rw [List.filter_cons_of_neg (by simpa using hne), ih h.2 hmem]

/-- A dictionary, as an enumeration of its entries: no key occurs twice. -/
structure Dictionary (κ ν : Type*) where
  /-- The entries, in the order of the enumeration. -/
  entries : List (κ × ν)
  /-- No key occurs twice. -/
  nodup : (entries.map Prod.fst).Nodup
  deriving DecidableEq

namespace Dictionary

variable {κ ν : Type*}

/-- The keys, in the order of the enumeration. -/
def keys (d : Dictionary κ ν) : List κ := d.entries.map Prod.fst

/-- The empty dictionary. -/
def empty : Dictionary κ ν := ⟨[], List.nodup_nil⟩

section Lookup

variable [DecidableEq κ]

/-- The value under a key. -/
def lookup (d : Dictionary κ ν) (k : κ) : Option ν := d.entries.lookup k

theorem lookup_eq_some_iff {d : Dictionary κ ν} {k : κ} {a : ν} :
    d.lookup k = some a ↔ (k, a) ∈ d.entries :=
  List.lookup_eq_some_iff_mem d.nodup

theorem mem_keys_iff {d : Dictionary κ ν} {k : κ} : k ∈ d.keys ↔ ∃ a, d.lookup k = some a := by
  simp [keys, lookup_eq_some_iff]

/-- Build a dictionary from a list of pairs, the last pair of a key being the one that
counts. -/
def ofList : List (κ × ν) → Dictionary κ ν
  | [] => empty
  | (k, v) :: l =>
    if h : k ∈ (ofList l).keys then ofList l
    else ⟨(k, v) :: (ofList l).entries, List.nodup_cons.mpr ⟨h, (ofList l).nodup⟩⟩

end Lookup

end Dictionary
