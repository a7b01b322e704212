import Mathlib.Algebra.Field.Basic
import Mathlib.Data.Set.Basic

/-!
# Systems of rates

A *system of rates* gives for any two goods how much of the second one of the first is
exchanged for. It is *coherent* on a set of goods when nothing can be won by
exchanging: a good for itself is exchanged one to one, and a detour through a third
good comes to the direct rate. Then no chain of exchanges wins anything
(`RateSystem.Coherent.chain_eq`), and the way back is the inverse
(`RateSystem.Coherent.inverse`).

Goods that are all quoted against one unit give a coherent system, on the goods whose
quote is not zero (`RateSystem.coherent_cross`).
-/

namespace RateSystem

variable {κ M K : Type*}

section Coherent

variable [Monoid M]

/-- **A coherent system of rates** on a set of goods. -/
structure Coherent (r : κ → κ → M) (S : Set κ) : Prop where
  self : ∀ a ∈ S, r a a = 1
  triangle : ∀ a ∈ S, ∀ b ∈ S, ∀ c ∈ S, r a b * r b c = r a c

/-- The rate of a chain of exchanges: start with `a`, and exchange for one good after the
other. -/
def chain (r : κ → κ → M) : κ → List κ → M
  | _, [] => 1
  | a, b :: l => r a b * chain r b l

variable {r : κ → κ → M} {S : Set κ}

theorem Coherent.inverse (h : Coherent r S) {a b : κ} (ha : a ∈ S) (hb : b ∈ S) :
    r a b * r b a = 1 := by
  rw [h.triangle a ha b hb a ha, h.self a ha]

/-- **No chain wins anything**: its rate is the rate from its first good to its last. -/
theorem Coherent.chain_eq (h : Coherent r S) {a : κ} {l : List κ} (hl : ∀ b ∈ a :: l, b ∈ S) :
    chain r a l = r a (l.getLastD a) := by
  induction l generalizing a with
  | nil => exact (h.self a (hl a List.mem_cons_self)).symm
  | cons b l ih =>
    have hrest : ∀ c ∈ b :: l, c ∈ S := fun c hc => hl c (List.mem_cons_of_mem a hc)
    rw [chain, ih hrest, List.getLastD_cons]
    exact h.triangle a (hl a List.mem_cons_self) b (hrest b List.mem_cons_self) _
      (hrest _ List.getLastD_mem_cons)

end Coherent

variable [Field K]

/-- The cross rate of two goods, of which one unit is worth `q a` and `q b`. -/
def cross (q : κ → K) (a b : κ) : K := q b / q a

/-- **Cross rates are coherent** on the goods whose quote is not zero. -/
theorem coherent_cross {q : κ → K} {S : Set κ} (h : ∀ a ∈ S, q a ≠ 0) :
    Coherent (cross q) S where
  self a ha := div_self (h a ha)
  triangle a ha b hb c hc := by
    have hb' := h b hb
    rw [cross, cross, cross, mul_comm]
    exact div_mul_div_cancel₀ hb'

end RateSystem
