import Mathlib.Data.List.Forall2
import Mathlib.Logic.Function.Basic

/-!
# Banks of registers, and stores that refine them

A *register bank* is what a store looks like from outside when each of its operations
concerns one register: the operation replaces the value of that register by a
function of it, and leaves every other register alone. Operations on different
registers of a bank commute (`RegisterBank.apply_comm`), by construction.

A store *refines* a bank (`RegisterBank.RefinedBy`) when, from every good state, each
operation succeeds, leads to a good state, and is seen from outside as the
operation of the bank. One step of this is enough for whole sequences
(`RegisterBank.RefinedBy.run`), and lets two neighbouring operations on different
registers be exchanged without changing what is seen
(`RegisterBank.RefinedBy.run_swap`).

Two stores can also be run side by side, on operations that correspond to each other:
a relation between their states that corresponding operations keep holds after both
runs (`RegisterBank.run_related`).
-/

/-- Registers of types `ρ i`, and operations that each concern one of them. -/
structure RegisterBank {ι : Type*} (ρ : ι → Type*) (ε : Type*) where
  /-- The register an operation concerns. -/
  register : ε → ι
  /-- What the operation does to it. -/
  act : (e : ε) → ρ (register e) → ρ (register e)

namespace RegisterBank

variable {ι : Type*} [DecidableEq ι] {ρ : ι → Type*} {ε : Type*} (B : RegisterBank ρ ε)

/-- An operation rewrites its register and no other. -/
def apply (r : (i : ι) → ρ i) (e : ε) : (i : ι) → ρ i :=
  Function.update r (B.register e) (B.act e (r (B.register e)))

theorem apply_self (r : (i : ι) → ρ i) (e : ε) :
    B.apply r e (B.register e) = B.act e (r (B.register e)) :=
  Function.update_self ..

theorem apply_of_ne {r : (i : ι) → ρ i} {e : ε} {i : ι} (h : i ≠ B.register e) :
    B.apply r e i = r i :=
  Function.update_of_ne h ..

/-- What the operation does is determined by its register and by the others being left
alone. -/
theorem eq_apply {r r' : (i : ι) → ρ i} {e : ε}
    (hself : r' (B.register e) = B.act e (r (B.register e)))
    (hother : ∀ i, i ≠ B.register e → r' i = r i) : r' = B.apply r e := by
  funext i
  by_cases hi : i = B.register e
  · subst hi
    rw [hself, apply_self]
  · rw [hother i hi, B.apply_of_ne hi]

/-- **Operations on different registers commute.** -/
theorem apply_comm {a b : ε} (h : B.register a ≠ B.register b) (r : (i : ι) → ρ i) :
    B.apply (B.apply r a) b = B.apply (B.apply r b) a := by
  have hb : B.apply r a (B.register b) = r (B.register b) := B.apply_of_ne (Ne.symm h)
  have ha : B.apply r b (B.register a) = r (B.register a) := B.apply_of_ne h
  rw [apply, hb, apply, apply, ha, apply]
  exact Function.update_comm h _ _ _

/-! ### Running a store -/

variable {σ τ : Type*}

/-- Run operations one after the other; the first that fails ends the run. -/
def run (step : σ → ε → Except τ σ) : σ → List ε → Except τ σ
  | s, [] => .ok s
  | s, e :: es =>
    match step s e with
    | .ok s' => run step s' es
    | .error t => .error t

theorem run_cons_of_ok {step : σ → ε → Except τ σ} {s s' : σ} {e : ε} (h : step s e = .ok s')
    (es : List ε) : run step s (e :: es) = run step s' es := by
  rw [run, h]

/-- **Two runs on corresponding operations**: when related states and corresponding operations
lead to related states, corresponding sequences of operations do. -/
theorem run_related {σ' ε' : Type*} {step : σ → ε → Except τ σ} {step' : σ' → ε' → Except τ σ'}
    {R : σ → σ' → Prop} {S : ε → ε' → Prop}
    (hstep : ∀ s s' e e', R s s' → S e e' →
      ∃ t t', step s e = .ok t ∧ step' s' e' = .ok t' ∧ R t t')
    {es : List ε} {es' : List ε'} (hes : List.Forall₂ S es es') {s : σ} {s' : σ'} (hs : R s s') :
    ∃ t t', run step s es = .ok t ∧ run step' s' es' = .ok t' ∧ R t t' := by
  induction hes generalizing s s' with
  | nil => exact ⟨s, s', rfl, rfl, hs⟩
  | cons he _ ih =>
    obtain ⟨u, u', hu, hu', hrel⟩ := hstep s s' _ _ hs he
    obtain ⟨t, t', ht, ht', hend⟩ := ih hrel
    exact ⟨t, t', by rw [run_cons_of_ok hu, ht], by rw [run_cons_of_ok hu', ht'], hend⟩

/-- **A store refines a bank**: from a good state every operation succeeds, keeps the state
good and is seen as the operation of the bank. -/
structure RefinedBy (step : σ → ε → Except τ σ) (good : σ → Prop) (view : σ → (i : ι) → ρ i) :
    Prop where
  step_ok : ∀ s e, good s → ∃ s', step s e = .ok s' ∧ good s' ∧ view s' = B.apply (view s) e

variable {B} {step : σ → ε → Except τ σ} {good : σ → Prop} {view : σ → (i : ι) → ρ i}

/-- **A sequence of operations is seen as the fold of the operations of the bank.** -/
theorem RefinedBy.run (h : B.RefinedBy step good view) {s : σ} (hs : good s) (es : List ε) :
    ∃ s', RegisterBank.run step s es = .ok s' ∧ good s' ∧ view s' = es.foldl B.apply (view s) := by
  induction es generalizing s with
  | nil => exact ⟨s, rfl, hs, rfl⟩
  | cons e es ih =>
    obtain ⟨s₁, hstep, hs₁, hview⟩ := h.step_ok s e hs
    obtain ⟨s', hrun, hs', hview'⟩ := ih hs₁
    exact ⟨s', by rw [run_cons_of_ok hstep, hrun], hs', by rw [hview', hview, List.foldl_cons]⟩

/-- **Neighbouring operations on different registers can be exchanged** without changing what
is seen in the end. -/
theorem RefinedBy.run_swap (h : B.RefinedBy step good view) {s : σ} (hs : good s) {a b : ε}
    (hab : B.register a ≠ B.register b) (before after : List ε) :
    ∃ s₁ s₂, RegisterBank.run step s (before ++ a :: b :: after) = .ok s₁ ∧
      RegisterBank.run step s (before ++ b :: a :: after) = .ok s₂ ∧ view s₁ = view s₂ := by
  obtain ⟨s₁, hrun₁, -, hview₁⟩ := h.run hs (before ++ a :: b :: after)
  obtain ⟨s₂, hrun₂, -, hview₂⟩ := h.run hs (before ++ b :: a :: after)
  refine ⟨s₁, s₂, hrun₁, hrun₂, ?_⟩
  rw [hview₁, hview₂]
  simp only [List.foldl_append, List.foldl_cons, B.apply_comm hab]

end RegisterBank
