import ExchangeRate.Base.StepMachine

/-!
# Comparing the runs of step machines

Three ways of setting runs side by side.

* **Simulation** (`StepMachine.Reaches.simulate`): another machine answers every step
  with a list of its own events. The relation that is kept sees both lists of events
  and both states, so it can speak of what has been done so far as well as of where
  this has led to.
* **Lockstep** (`StepMachine.exec_lockstep`): two machines run the same events, and every
  step keeps a relation between their states, whatever led to the two.
* **Unwinding** (`StepMachine.Unwinding`): a view of the state that the hidden events
  leave alone, and that all the other events read and write by themselves, as long as
  each step meets a condition. Then the hidden events of such a run can be left out
  without changing what is seen (`StepMachine.Unwinding.exec_filter`).
-/

namespace StepMachine

variable {σ ε τ δ ω : Type*} {M : StepMachine σ ε} {N : StepMachine τ δ}

/-! ### Simulation -/

/-- **The simulation rule**, for the runs of `M` whose steps meet a condition: when each such
step is answered by some events of `N`, the run is answered by a run of `N`. -/
theorem Reaches.simulate {I : List ε → σ → List δ → τ → Prop} {C : List ε → σ → ε → Prop}
    (h₀ : I [] M.init [] N.init)
    (hstep : ∀ es s ds t e s', M.Reaches es s → N.Reaches ds t → I es s ds t → C es s e →
      M.step s e = some s' → ∃ ds' t', N.exec t ds' = some t' ∧ I (es ++ [e]) s' (ds ++ ds') t')
    {es : List ε} {s : σ} (h : M.Reaches es s) (hC : M.EveryStep es C) :
    ∃ ds t, N.Reaches ds t ∧ I es s ds t := by
  refine h.invariant_of_everyStep (I := fun es s => ∃ ds t, N.Reaches ds t ∧ I es s ds t)
    ⟨[], N.init, reaches_nil.mpr rfl, h₀⟩ (fun es s e s' hs hI hc hse => ?_) hC
  obtain ⟨ds, t, ht, hI⟩ := hI
  obtain ⟨ds', t', hexec, hI'⟩ := hstep es s ds t e s' hs ht hI hc hse
  exact ⟨ds ++ ds', t', reaches_append.mpr ⟨t, ht, hexec⟩, hI'⟩

/-! ### Lockstep -/

/-- **The lockstep rule**: a relation that the events of a list keep, between states that the two
machines can reach, is kept by the list. -/
theorem exec_lockstep {N : StepMachine τ ε} {R : σ → τ → Prop} {fs : List ε}
    (hstep : ∀ es ds s t e s', M.Reaches es s → N.Reaches ds t → R s t → e ∈ fs →
      M.step s e = some s' → ∃ t', N.step t e = some t' ∧ R s' t')
    {es ds : List ε} {s s' : σ} {t : τ} (hs : M.Reaches es s) (ht : N.Reaches ds t) (hR : R s t)
    (hexec : M.exec s fs = some s') : ∃ t', N.exec t fs = some t' ∧ R s' t' := by
  induction fs generalizing es ds s t with
  | nil =>
    rw [exec_nil, Option.some.injEq] at hexec
    exact ⟨t, rfl, hexec ▸ hR⟩
  | cons e fs ih =>
    rw [exec_cons, Option.bind_eq_some_iff] at hexec
    obtain ⟨s₁, hs₁, hrest⟩ := hexec
    obtain ⟨t₁, ht₁, hR₁⟩ := hstep es ds s t e s₁ hs ht hR List.mem_cons_self hs₁
    rw [exec_of_step ht₁]
    refine ih (fun es ds s t e' s' hs ht hR he' => ?_) (reaches_concat.mpr ⟨s, hs, hs₁⟩)
      (reaches_concat.mpr ⟨t, ht, ht₁⟩) hR₁ hrest
    exact hstep es ds s t e' s' hs ht hR (List.mem_cons_of_mem e he')

/-! ### Unwinding -/

variable (M) in
/-- The condition holds of every step of the run that starts in `s`: of the state before it, and
the event itself. -/
def EveryStepFrom (s : σ) (es : List ε) (A : σ → ε → Prop) : Prop :=
  ∀ pre e, pre ++ [e] <+: es → ∀ s', M.exec s pre = some s' → A s' e

theorem EveryStepFrom.head {A : σ → ε → Prop} {s : σ} {e : ε} {es : List ε}
    (h : M.EveryStepFrom s (e :: es) A) : A s e :=
  h [] e (List.prefix_append [e] es) s rfl

theorem EveryStepFrom.tail {A : σ → ε → Prop} {s s' : σ} {e : ε} {es : List ε}
    (h : M.EveryStepFrom s (e :: es) A) (hstep : M.step s e = some s') :
    M.EveryStepFrom s' es A := by
  intro pre e' hpre t ht
  refine h (e :: pre) e' (List.prefix_cons_inj e |>.mpr hpre) t ?_
  rw [exec_of_step hstep, ht]

/-- A check of the steps establishes the condition on them. -/
theorem everyStepFrom_of_checkSteps {A : σ → ε → Prop} {c : List ε → σ → ε → Bool} {s : σ}
    {before es : List ε} (hA : ∀ pre s e, c pre s e = true → A s e)
    (h : M.checkSteps c before s es = true) : M.EveryStepFrom s es A :=
  fun _ _ hpre _ hs => hA _ _ _ (checkSteps_append h hpre hs)

/-- **A view that hidden events leave alone**, for runs whose steps meet the condition `A`: a
hidden event changes nothing of it, and every other event happens and changes it the same way in
all states that look the same. -/
structure Unwinding (M : StepMachine σ ε) (view : σ → ω) (visible : ε → Bool)
    (A : σ → ε → Prop) : Prop where
  hidden : ∀ s e s', A s e → visible e = false → M.step s e = some s' → view s' = view s
  shown : ∀ s t e s', A s e → visible e = true → view s = view t → M.step s e = some s' →
    ∃ t', M.step t e = some t' ∧ view s' = view t'

namespace Unwinding

variable {view : σ → ω} {visible : ε → Bool} {A : σ → ε → Prop} {es es' : List ε} {s t s' : σ}

/-- **The hidden events of a run can be left out**: what is left is a run, which ends in a state
that looks the same. -/
theorem exec_filter (h : M.Unwinding view visible A) (hA : M.EveryStepFrom s es A)
    (hview : view s = view t) (hexec : M.exec s es = some s') :
    ∃ t', M.exec t (es.filter visible) = some t' ∧ view s' = view t' := by
  induction es generalizing s t with
  | nil =>
    rw [exec_nil, Option.some.injEq] at hexec
    exact ⟨t, rfl, by rw [← hexec, hview]⟩
  | cons e es ih =>
    rw [exec_cons, Option.bind_eq_some_iff] at hexec
    obtain ⟨s₁, hs₁, hrest⟩ := hexec
    have hAes := hA.tail hs₁
    cases hvisible : visible e with
    | false =>
      rw [List.filter_cons_of_neg (by simp [hvisible])]
      have hsame := h.hidden s e s₁ hA.head hvisible hs₁
      exact ih hAes (hsame.trans hview) hrest
    | true =>
      obtain ⟨t₁, ht₁, hsame⟩ := h.shown s t e s₁ hA.head hvisible hview hs₁
      rw [List.filter_cons_of_pos hvisible, exec_cons, ht₁, Option.bind_some]
      exact ih hAes hsame hrest

/-- **Runs with the same visible events look the same.** -/
theorem view_eq_of_filter_eq (h : M.Unwinding view visible A) (hA : M.EveryStepFrom s es A)
    (hA' : M.EveryStepFrom t es' A) (hsame : es.filter visible = es'.filter visible)
    (hview : view s = view t) {s₁ t₁ : σ} (hs : M.exec s es = some s₁)
    (ht : M.exec t es' = some t₁) : view s₁ = view t₁ := by
  obtain ⟨u, hu, hsu⟩ := h.exec_filter hA hview hs
  obtain ⟨u', hu', htu⟩ := h.exec_filter hA' (t := t) rfl ht
  rw [hsame, hu', Option.some.injEq] at hu
  rw [hsu, htu, hu]

end Unwinding

end StepMachine
