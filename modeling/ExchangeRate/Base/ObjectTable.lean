import Mathlib.Data.List.Range
import Mathlib.Data.List.Pairwise
import ExchangeRate.Base.Dictionary

/-!
# Object tables

The table of an object database: its rows in the order they were inserted, each
under a key the database gives it. A key is never given twice, not even after its
row has been deleted, so a key names one object for ever, and an accessor that
holds the key of a deleted row can be recognized. Both facts are fields of the
structure: the keys increase along the rows, and all of them are below the counter
the next key is taken from, which `ObjectTable.clear` leaves where it is.

A list-valued property of another object holds keys of the table;
`ObjectTable.resolve` reads such a list back.
-/

/-- A table of objects in insertion order, with keys that are never reused. -/
structure ObjectTable (α : Type*) where
  /-- The rows, earliest inserted first, each under its key. -/
  rows : List (ℕ × α)
  /-- The key the next row will get. -/
  next : ℕ
  /-- Keys increase along the rows. -/
  increasing : (rows.map Prod.fst).Pairwise (· < ·)
  /-- Every key in use is below the counter. -/
  below : ∀ k ∈ rows.map Prod.fst, k < next
  deriving DecidableEq

namespace ObjectTable

variable {α : Type*}

/-! ### Reading a table -/

/-- The keys of the rows, in insertion order. -/
def keys (t : ObjectTable α) : List ℕ := t.rows.map Prod.fst

/-- The objects of the table, in insertion order. -/
def objects (t : ObjectTable α) : List α := t.rows.map Prod.snd

/-- The earliest inserted object that is still there. -/
def first (t : ObjectTable α) : Option α := t.objects.head?

/-- The object under a key, when its row has not been deleted. -/
def get (t : ObjectTable α) (k : ℕ) : Option α := t.rows.lookup k

/-- The objects under a list of keys; the keys of deleted rows are passed over. -/
def resolve (t : ObjectTable α) (ks : List ℕ) : List α := ks.filterMap t.get

theorem keys_nodup (t : ObjectTable α) : t.keys.Nodup :=
  t.increasing.imp fun h => h.ne

theorem lt_next_of_mem_keys {t : ObjectTable α} {k : ℕ} (h : k ∈ t.keys) : k < t.next :=
  t.below k h

theorem get_eq_some_iff {t : ObjectTable α} {k : ℕ} {a : α} :
    t.get k = some a ↔ (k, a) ∈ t.rows :=
  List.lookup_eq_some_iff_mem t.keys_nodup

/-- A key reads back exactly when it is the key of a row. -/
theorem exists_get_iff {t : ObjectTable α} {k : ℕ} : (∃ a, t.get k = some a) ↔ k ∈ t.keys := by
  simp [get_eq_some_iff, keys]

theorem get_eq_none_iff {t : ObjectTable α} {k : ℕ} : t.get k = none ↔ k ∉ t.keys := by
  rw [← exists_get_iff, Option.eq_none_iff_forall_ne_some, not_exists]

/-- Reading all the keys of a table reads all its objects, in order. -/
theorem resolve_keys (t : ObjectTable α) : t.resolve t.keys = t.objects := by
  have h : ∀ r ∈ t.rows, t.get r.1 = some r.2 := fun r hr => get_eq_some_iff.mpr hr
  rw [resolve, keys, List.filterMap_map, objects, ← List.filterMap_eq_map]
  exact List.filterMap_congr h

@[simp] theorem resolve_nil (t : ObjectTable α) : t.resolve [] = [] := rfl

theorem first_eq_some_of_objects {t : ObjectTable α} {a : α} {l : List α}
    (h : t.objects = a :: l) : t.first = some a := by
  rw [first, h, List.head?_cons]

theorem first_eq_none_iff {t : ObjectTable α} : t.first = none ↔ t.objects = [] :=
  List.head?_eq_none_iff

/-! ### Inserting, deleting and rewriting rows -/

/-- The empty table. -/
def empty : ObjectTable α where
  rows := []
  next := 0
  increasing := List.Pairwise.nil
  below := by simp

/-- The keys a list of objects gets when it is inserted. -/
def freshKeys (t : ObjectTable α) (l : List α) : List ℕ := List.range' t.next l.length

theorem map_fst_zip_freshKeys (t : ObjectTable α) (l : List α) :
    ((t.freshKeys l).zip l).map Prod.fst = t.freshKeys l :=
  List.map_fst_zip (by simp [freshKeys])

theorem map_snd_zip_freshKeys (t : ObjectTable α) (l : List α) :
    ((t.freshKeys l).zip l).map Prod.snd = l :=
  List.map_snd_zip (by simp [freshKeys])

theorem mem_freshKeys {t : ObjectTable α} {l : List α} {k : ℕ} :
    k ∈ t.freshKeys l ↔ t.next ≤ k ∧ k < t.next + l.length :=
  List.mem_range'_1

/-- Insert objects one after the other at the end of the table. -/
def insertAll (t : ObjectTable α) (l : List α) : ObjectTable α where
  rows := t.rows ++ (t.freshKeys l).zip l
  next := t.next + l.length
  increasing := by
    rw [List.map_append, map_fst_zip_freshKeys, List.pairwise_append]
    refine ⟨t.increasing, List.pairwise_lt_range', fun a ha b hb => ?_⟩
    exact lt_of_lt_of_le (t.below a ha) (mem_freshKeys.mp hb).1
  below := by
    rw [List.map_append, map_fst_zip_freshKeys]
    intro k hk
    rcases List.mem_append.mp hk with h | h
    · exact Nat.lt_add_right _ (t.below k h)
    · exact (mem_freshKeys.mp h).2

/-- Insert one object at the end of the table. -/
def insert (t : ObjectTable α) (a : α) : ObjectTable α := t.insertAll [a]

/-- Delete all rows. The counter stays, so the keys of the deleted rows are not given
again. -/
def clear (t : ObjectTable α) : ObjectTable α where
  rows := []
  next := t.next
  increasing := List.Pairwise.nil
  below := by simp

/-- Rewrite every object in place. -/
def mapObjects (t : ObjectTable α) (f : α → α) : ObjectTable α where
  rows := t.rows.map fun r => (r.1, f r.2)
  next := t.next
  increasing := by simpa [Function.comp_def] using t.increasing
  below := by simpa [Function.comp_def] using t.below

theorem map_fst_modifyHead (rows : List (ℕ × α)) (f : α → α) :
    (rows.modifyHead fun r => (r.1, f r.2)).map Prod.fst = rows.map Prod.fst := by
  cases rows <;> rfl

theorem map_snd_modifyHead (rows : List (ℕ × α)) (f : α → α) :
    (rows.modifyHead fun r => (r.1, f r.2)).map Prod.snd = (rows.map Prod.snd).modifyHead f := by
  cases rows <;> rfl

/-- Rewrite the first object in place, if there is one. -/
def modifyFirst (t : ObjectTable α) (f : α → α) : ObjectTable α where
  rows := t.rows.modifyHead fun r => (r.1, f r.2)
  next := t.next
  increasing := by
    rw [map_fst_modifyHead]
    exact t.increasing
  below := by
    rw [map_fst_modifyHead]
    exact t.below

@[simp] theorem objects_empty : (empty : ObjectTable α).objects = [] := rfl

@[simp] theorem objects_insertAll (t : ObjectTable α) (l : List α) :
    (t.insertAll l).objects = t.objects ++ l := by
  simp [objects, insertAll, map_snd_zip_freshKeys]

@[simp] theorem keys_insertAll (t : ObjectTable α) (l : List α) :
    (t.insertAll l).keys = t.keys ++ t.freshKeys l := by
  simp [keys, insertAll, map_fst_zip_freshKeys]

@[simp] theorem next_insertAll (t : ObjectTable α) (l : List α) :
    (t.insertAll l).next = t.next + l.length := rfl

@[simp] theorem objects_insert (t : ObjectTable α) (a : α) :
    (t.insert a).objects = t.objects ++ [a] := objects_insertAll t [a]

@[simp] theorem keys_insert (t : ObjectTable α) (a : α) :
    (t.insert a).keys = t.keys ++ [t.next] := keys_insertAll t [a]

@[simp] theorem objects_clear (t : ObjectTable α) : t.clear.objects = [] := rfl

@[simp] theorem keys_clear (t : ObjectTable α) : t.clear.keys = [] := rfl

@[simp] theorem next_clear (t : ObjectTable α) : t.clear.next = t.next := rfl

@[simp] theorem freshKeys_clear (t : ObjectTable α) (l : List α) :
    t.clear.freshKeys l = t.freshKeys l := rfl

@[simp] theorem objects_mapObjects (t : ObjectTable α) (f : α → α) :
    (t.mapObjects f).objects = t.objects.map f := by
  simp [objects, mapObjects, Function.comp_def]

/-- Rewriting in place only sees the objects that are there. -/
theorem mapObjects_congr {t : ObjectTable α} {f g : α → α} (h : ∀ a ∈ t.objects, f a = g a) :
    t.mapObjects f = t.mapObjects g := by
  have hrows : (t.rows.map fun r => (r.1, f r.2)) = t.rows.map fun r => (r.1, g r.2) :=
    List.map_congr_left fun r hr => by rw [h r.2 (List.mem_map_of_mem hr)]
  simp only [mapObjects, hrows]

@[simp] theorem objects_modifyFirst (t : ObjectTable α) (f : α → α) :
    (t.modifyFirst f).objects = t.objects.modifyHead f := map_snd_modifyHead t.rows f

/-! ### Reading back what was inserted -/

/-- **The fresh keys read back the inserted objects**, each once and in order. -/
theorem resolve_freshKeys (t : ObjectTable α) (l : List α) :
    (t.insertAll l).resolve (t.freshKeys l) = l := by
  have h : ∀ r ∈ (t.freshKeys l).zip l, (t.insertAll l).get r.1 = some r.2 :=
    fun r hr => get_eq_some_iff.mpr (List.mem_append_right _ hr)
  calc (t.insertAll l).resolve (t.freshKeys l)
      = ((t.freshKeys l).zip l).filterMap fun r => (t.insertAll l).get r.1 := by
        rw [← Function.comp_def, ← List.filterMap_map, map_fst_zip_freshKeys, resolve]
    _ = ((t.freshKeys l).zip l).filterMap (some ∘ Prod.snd) := List.filterMap_congr h
    _ = l := by rw [List.filterMap_eq_map, map_snd_zip_freshKeys]

theorem get_insert_next (t : ObjectTable α) (a : α) : (t.insert a).get t.next = some a :=
  get_eq_some_iff.mpr (List.mem_append_right _ (by simp [freshKeys]))

/-- **The keys of deleted rows stay dead**: after all rows are deleted and others
inserted, no key of before is in use. -/
theorem notMem_keys_insertAll_clear {t : ObjectTable α} {l : List α} {k : ℕ} (hk : k < t.next) :
    k ∉ (t.clear.insertAll l).keys := by
  rw [keys_insertAll, keys_clear, List.nil_append, freshKeys_clear, mem_freshKeys]
  omega

/-! ### Keys held outside the table -/

/-- **Keys that somebody holds.** They were taken when the table had been replaced `taken`
times, and it has been replaced `now` times: they are alive when no replacement came
between, and dead when one did. -/
structure Held (t : ObjectTable α) (now : ℕ) (ks : List ℕ) (taken : ℕ) : Prop where
  le : taken ≤ now
  below : ∀ k ∈ ks, k < t.next
  alive : taken = now → ∀ k ∈ ks, k ∈ t.keys
  dead : taken < now → ∀ k ∈ ks, k ∉ t.keys

namespace Held

variable {t : ObjectTable α} {now taken : ℕ} {ks : List ℕ}

/-- The keys of a table, taken now. -/
theorem of_keys (t : ObjectTable α) (now : ℕ) : t.Held now t.keys now :=
  ⟨le_refl now, fun _ => lt_next_of_mem_keys, fun _ _ hk => hk, fun h => absurd h (lt_irrefl now)⟩

theorem of_subset (h : t.Held now ks taken) {ks' : List ℕ} (hsub : ∀ k ∈ ks', k ∈ ks) :
    t.Held now ks' taken :=
  ⟨h.le, fun k hk => h.below k (hsub k hk), fun heq k hk => h.alive heq k (hsub k hk),
    fun hlt k hk => h.dead hlt k (hsub k hk)⟩

/-- A replacement kills every key that is held, and no later one revives it. -/
theorem replace (h : t.Held now ks taken) (l : List α) :
    (t.clear.insertAll l).Held (now + 1) ks taken := by
  have hle := h.le
  refine ⟨by omega, fun k hk => ?_, fun heq => by omega, fun _ k hk => ?_⟩
  · have := h.below k hk
    rw [next_insertAll, next_clear]
    omega
  · exact notMem_keys_insertAll_clear (h.below k hk)

/-- What is held finds nothing after a replacement. -/
theorem get_replace (h : t.Held now ks taken) (l : List α) {k : ℕ} (hk : k ∈ ks) :
    (t.clear.insertAll l).get k = none :=
  get_eq_none_iff.mpr (notMem_keys_insertAll_clear (h.below k hk))

/-- **Whether a key is alive can be read off the two counts.** -/
theorem mem_keys_iff (h : t.Held now ks taken) {k : ℕ} (hk : k ∈ ks) :
    k ∈ t.keys ↔ taken = now := by
  have hle := h.le
  constructor
  · intro hmem
    by_contra hne
    exact h.dead (by omega) k hk hmem
  · intro heq
    exact h.alive heq k hk

end Held

end ObjectTable
