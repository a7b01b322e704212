import Mathlib.Data.List.Basic
import Mathlib.Data.List.Infix

/-!
# Partial step machines and their runs

A *step machine* is an initial state and a partial step function: `step s e` is
the state the event `e` leads to, or `none` when `e` cannot happen in `s`. A run
is the list of its events, since the states are computed from it, so a fact about
runs is an induction over that list from the right.

Two shapes of statement occur again and again, and both are set up here for a
history-dependent invariant – one that sees the events so far as well as the
state:

* a property of **every state of a run** (`StepMachine.Always`), which is what an
  invariant gives (`StepMachine.Reaches.invariant`);
* a property of **every step of a run** (`StepMachine.EveryStep`), which is what a
  schedule or an environment is asked to respect.

`StepMachine.always_iff_everyStep` relates the two: when steps meeting the
condition keep the property, and a step that does not meet it breaks the property
at once, a run has the property in all its states exactly when all its steps meet
the condition.
-/

/-- A partial deterministic machine: an initial state, and the state an event
leads to when it can happen. -/
structure StepMachine (σ ε : Type*) where
  /-- The state every run starts from. -/
  init : σ
  /-- The state after an event, or `none` when the event cannot happen. -/
  step : σ → ε → Option σ

namespace StepMachine

variable {σ ε : Type*} (M : StepMachine σ ε)

/-! ### Running a list of events -/

/-- The state reached from `s` by a list of events. -/
def exec : σ → List ε → Option σ
  | s, [] => some s
  | s, e :: es => (M.step s e).bind fun s' => exec s' es

/-- **The run `es` reaches `s`**: the events happen one after the other from the
initial state, and lead to `s`. -/
def Reaches (es : List ε) (s : σ) : Prop := M.exec M.init es = some s

variable {M}

@[simp] theorem exec_nil (s : σ) : M.exec s [] = some s := rfl

@[simp] theorem exec_cons (s : σ) (e : ε) (es : List ε) :
    M.exec s (e :: es) = (M.step s e).bind fun s' => M.exec s' es := rfl

theorem exec_of_step {s s' : σ} {e : ε} (h : M.step s e = some s') (es : List ε) :
    M.exec s (e :: es) = M.exec s' es := by
  rw [exec_cons, h, Option.bind_some]

theorem exec_append (s : σ) (es es' : List ε) :
    M.exec s (es ++ es') = (M.exec s es).bind fun s' => M.exec s' es' := by
  induction es generalizing s with
  | nil => rfl
  | cons e es ih =>
    rw [List.cons_append, exec_cons, exec_cons, Option.bind_assoc]
    exact congrArg _ (funext fun s' => ih s')

theorem reaches_nil {s : σ} : M.Reaches [] s ↔ s = M.init := by
  rw [Reaches, exec_nil, Option.some.injEq, eq_comm]

/-- A run and its continuation. -/
theorem reaches_append {es es' : List ε} {s' : σ} :
    M.Reaches (es ++ es') s' ↔ ∃ s, M.Reaches es s ∧ M.exec s es' = some s' := by
  rw [Reaches, exec_append, Option.bind_eq_some_iff]
  rfl

/-- A run and its last step. -/
theorem reaches_concat {es : List ε} {e : ε} {s' : σ} :
    M.Reaches (es ++ [e]) s' ↔ ∃ s, M.Reaches es s ∧ M.step s e = some s' := by
  simp only [reaches_append, exec_cons, exec_nil, Option.bind_fun_some]

/-- A run determines the state it reaches. -/
theorem Reaches.unique {es : List ε} {s s' : σ} (h : M.Reaches es s) (h' : M.Reaches es s') :
    s = s' :=
  Option.some.inj (h.symm.trans h')

/-- Every prefix of a run is a run. -/
theorem Reaches.initial {pre es : List ε} {s : σ} (h : M.Reaches es s) (hpre : pre <+: es) :
    ∃ s', M.Reaches pre s' := by
  obtain ⟨post, rfl⟩ := hpre
  obtain ⟨s', hs', -⟩ := reaches_append.mp h
  exact ⟨s', hs'⟩

/-! ### Invariants -/

/-- **The invariant rule**, for a property of the events so far and the state: it
holds of the empty run, and every step keeps it. -/
theorem Reaches.invariant {I : List ε → σ → Prop} (h₀ : I [] M.init)
    (hstep : ∀ es s e s', M.Reaches es s → I es s → M.step s e = some s' → I (es ++ [e]) s')
    {es : List ε} {s : σ} (h : M.Reaches es s) : I es s := by
  induction es using List.reverseRecOn generalizing s with
  | nil => rwa [reaches_nil.mp h]
  | append_singleton es e ih =>
    obtain ⟨s₁, h₁, hs⟩ := reaches_concat.mp h
    exact hstep es s₁ e s h₁ (ih h₁) hs

/-! ### Properties of all states and of all steps of a run -/

variable (M) in
/-- The property holds in every state the run passes through. -/
def Always (es : List ε) (P : List ε → σ → Prop) : Prop :=
  ∀ pre, pre <+: es → ∀ s, M.Reaches pre s → P pre s

variable (M) in
/-- The condition holds of every step of the run: of the events before it, the state
before it, and the event itself. -/
def EveryStep (es : List ε) (C : List ε → σ → ε → Prop) : Prop :=
  ∀ pre e, pre ++ [e] <+: es → ∀ s, M.Reaches pre s → C pre s e

theorem EveryStep.initial {C : List ε → σ → ε → Prop} {pre es : List ε}
    (h : M.EveryStep es C) (hpre : pre <+: es) : M.EveryStep pre C :=
  fun p e hp => h p e (hp.trans hpre)

theorem EveryStep.last {C : List ε → σ → ε → Prop} {es : List ε} {e : ε} {s : σ}
    (h : M.EveryStep (es ++ [e]) C) (hs : M.Reaches es s) : C es s e :=
  h es e List.prefix_rfl s hs

theorem everyStep_nil {C : List ε → σ → ε → Prop} : M.EveryStep [] C :=
  fun pre e hpre => absurd (List.prefix_nil.mp hpre) (by simp)

/-- The condition on the steps of a run with one step more. -/
theorem EveryStep.concat {C : List ε → σ → ε → Prop} {es : List ε} {e : ε} (h : M.EveryStep es C)
    (hlast : ∀ s, M.Reaches es s → C es s e) : M.EveryStep (es ++ [e]) C := by
  intro pre e' hpre s hs
  rcases List.prefix_concat_iff.mp hpre with heq | hpre
  · obtain ⟨rfl, rfl⟩ := List.append_singleton_inj.mp heq
    exact hlast s hs
  · exact h pre e' hpre s hs

/-- **The invariant rule under a condition**: the run's steps all meet `C`, and the
steps that meet `C` keep `I`. -/
theorem Reaches.invariant_of_everyStep {I : List ε → σ → Prop} {C : List ε → σ → ε → Prop}
    (h₀ : I [] M.init)
    (hstep : ∀ es s e s', M.Reaches es s → I es s → C es s e → M.step s e = some s' →
      I (es ++ [e]) s')
    {es : List ε} {s : σ} (h : M.Reaches es s) (hC : M.EveryStep es C) : I es s := by
  induction es using List.reverseRecOn generalizing s with
  | nil => rwa [reaches_nil.mp h]
  | append_singleton es e ih =>
    obtain ⟨s₁, h₁, hs⟩ := reaches_concat.mp h
    exact hstep es s₁ e s h₁ (ih h₁ (hC.initial (List.prefix_append es [e]))) (hC.last h₁) hs

/-- **Exactly the runs whose steps meet the condition keep the property.** Steps that
meet `C` keep an invariant that gives `P`; a step that does not meet `C` leads to a
state without `P`. -/
theorem always_iff_everyStep {P I : List ε → σ → Prop} {C : List ε → σ → ε → Prop}
    (h₀ : I [] M.init)
    (hstep : ∀ es s e s', M.Reaches es s → I es s → C es s e → M.step s e = some s' →
      I (es ++ [e]) s')
    (hI : ∀ es s, M.Reaches es s → I es s → P es s)
    (hbreak : ∀ es s e s', M.Reaches es s → ¬C es s e → M.step s e = some s' →
      ¬P (es ++ [e]) s')
    {es : List ε} {s : σ} (h : M.Reaches es s) : M.Always es P ↔ M.EveryStep es C := by
  constructor
  · intro hP pre e hpre s₁ h₁
    by_contra hC
    obtain ⟨s₂, h₂⟩ := h.initial hpre
    obtain ⟨s₁', h₁', hs⟩ := reaches_concat.mp h₂
    rw [h₁'.unique h₁] at hs
    exact hbreak pre s₁ e s₂ h₁ hC hs (hP (pre ++ [e]) hpre s₂ h₂)
  · intro hC pre hpre s₁ h₁
    exact hI pre s₁ h₁ (h₁.invariant_of_everyStep h₀ hstep (hC.initial hpre))

/-- **A list of events is a run when each of them happens in its turn.** -/
theorem exists_reaches_iff_everyStep {es : List ε} :
    (∃ s, M.Reaches es s) ↔ M.EveryStep es fun _ s e => (M.step s e).isSome = true := by
  constructor
  · rintro ⟨s, h⟩ pre e hpre s₁ h₁
    obtain ⟨s₂, h₂⟩ := h.initial hpre
    obtain ⟨s₁', h₁', hs⟩ := reaches_concat.mp h₂
    rw [h₁.unique h₁', hs]
    rfl
  · intro hstep
    induction es using List.reverseRecOn with
    | nil => exact ⟨M.init, rfl⟩
    | append_singleton es e ih =>
      obtain ⟨s, h⟩ := ih (hstep.initial (List.prefix_append es [e]))
      obtain ⟨s', hs⟩ := Option.isSome_iff_exists.mp (hstep.last h)
      exact ⟨s', reaches_concat.mpr ⟨s, h, hs⟩⟩

/-! ### Checking a run -/

variable (M) in
/-- Check a condition on the steps of a run, as far as the run goes; `pre` is what has happened
so far, and `s` the state it led to. -/
def checkSteps (c : List ε → σ → ε → Bool) : List ε → σ → List ε → Bool
  | _, _, [] => true
  | pre, s, e :: es => c pre s e && (M.step s e).all fun s' => checkSteps c (pre ++ [e]) s' es

/-- A condition that has been checked holds of every step from there. -/
theorem checkSteps_append {c : List ε → σ → ε → Bool} {s s' : σ} {before pre es : List ε} {e : ε}
    (h : M.checkSteps c before s es = true) (hpre : pre ++ [e] <+: es)
    (hs : M.exec s pre = some s') : c (before ++ pre) s' e = true := by
  induction pre generalizing before s es with
  | nil =>
    obtain ⟨post, rfl⟩ := hpre
    rw [exec_nil, Option.some.injEq] at hs
    rw [List.nil_append, List.singleton_append, checkSteps, Bool.and_eq_true] at h
    rw [List.append_nil, ← hs]
    exact h.1
  | cons e' pre ih =>
    obtain ⟨post, rfl⟩ := hpre
    rw [exec_cons, Option.bind_eq_some_iff] at hs
    obtain ⟨t, ht, hrest⟩ := hs
    rw [List.cons_append, List.cons_append, checkSteps, Bool.and_eq_true, ht, Option.all_some] at h
    rw [List.append_cons]
    exact ih h.2 (List.prefix_append _ _) hrest

/-- **A check of the steps establishes the condition on them.** -/
theorem everyStep_of_checkSteps {C : List ε → σ → ε → Prop} {c : List ε → σ → ε → Bool}
    {es : List ε} (hC : ∀ pre s e, c pre s e = true → C pre s e)
    (h : M.checkSteps c [] M.init es = true) : M.EveryStep es C :=
  fun pre e hpre s hs => hC pre s e (checkSteps_append h hpre hs)

end StepMachine
