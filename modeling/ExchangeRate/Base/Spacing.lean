import Mathlib.Algebra.Order.Group.Defs
import Mathlib.Data.List.Basic
import Mathlib.Algebra.Order.Monoid.NatCast
import Mathlib.Tactic.Abel

/-!
# Points that keep a distance

A list of points each of which is at least `w` after all the points before it. A
stretch of `n` times `w` then holds at most `n` of them, wherever it begins
(`Spaced.length_filter_le`).
-/

variable {α : Type*} [AddCommGroup α] [LinearOrder α] {w a t : α} {l : List α}

/-- **The points are at least `w` apart**, in the order of the list. -/
def Spaced (w : α) (l : List α) : Prop := l.Pairwise fun t t' => t + w ≤ t'

namespace Spaced

theorem nil : Spaced w ([] : List α) := List.Pairwise.nil

variable [IsOrderedAddMonoid α]

/-- A point that keeps the distance from the last one keeps it from all. -/
theorem concat (h : Spaced w l) (hw : 0 ≤ w) (hlast : ∀ t', l.getLast? = some t' → t' + w ≤ t) :
    Spaced w (l ++ [t]) := by
  refine List.pairwise_append.mpr ⟨h, List.pairwise_singleton _ _, fun a ha b hb => ?_⟩
  rw [List.mem_singleton] at hb
  subst hb
  obtain ⟨l', t', rfl⟩ := (List.eq_nil_or_concat' l).resolve_left (List.ne_nil_of_mem ha)
  have hle := hlast t' (by simp)
  rw [List.mem_append, List.mem_singleton] at ha
  rcases ha with ha | rfl
  · have hbefore := (List.pairwise_append.mp h).2.2 a ha t' (List.mem_singleton_self t')
    exact hbefore.trans ((le_add_of_nonneg_right hw).trans hle)
  · exact hle

/-- From a point on, there is room for one point in each stretch of length `w`. -/
theorem length_le (h : Spaced w l) (n : ℕ) (hfrom : ∀ t ∈ l, a ≤ t)
    (hto : ∀ t ∈ l, t < a + n • w) : l.length ≤ n := by
  induction l generalizing a n with
  | nil => exact Nat.zero_le n
  | cons t l ih =>
    have hat := hfrom t List.mem_cons_self
    have hta := hto t List.mem_cons_self
    obtain ⟨hfirst, hrest⟩ := List.pairwise_cons.mp h
    cases n with
    | zero =>
      rw [zero_nsmul, add_zero] at hta
      exact absurd hat (not_le.mpr hta)
    | succ n =>
      -- the points after the first begin a stretch later
      have hstretch : a + (n + 1) • w = a + w + n • w := by
        rw [succ_nsmul]
        abel
      refine Nat.succ_le_succ (ih hrest n (a := a + w) (fun t' ht' => ?_) fun t' ht' => ?_)
      · exact (add_le_add_left hat w).trans (hfirst t' ht')
      · rw [← hstretch]
        exact hto t' (List.mem_cons_of_mem _ ht')

/-- **A stretch of `n` times the distance holds at most `n` points**, wherever it begins. -/
theorem length_filter_le (h : Spaced w l) (a : α) (n : ℕ) :
    (l.filter fun t => a ≤ t ∧ t < a + n • w).length ≤ n := by
  have hspaced : Spaced w (l.filter fun t => a ≤ t ∧ t < a + n • w) := List.Pairwise.filter _ h
  refine hspaced.length_le n (a := a) (fun t ht => ?_) fun t ht => ?_
  · exact (of_decide_eq_true (List.mem_filter.mp ht).2).1
  · exact (of_decide_eq_true (List.mem_filter.mp ht).2).2

end Spaced
