import ExchangeRate.Base.StepMachine

/-!
# Stretches of a run that come to rest

A machine *settles* under a kind of event when each such event lowers a rank by one
and leaves alone where the machine will come to rest, and when some such event can
happen as long as the rank is positive. Then the order in which these events happen
does not matter: every complete sequence of them has the same length and ends in the
same state (`StepMachine.Settling.stuck_iff`, `StepMachine.Settling.eq_rest`).

No commutation of single steps is asked for. What two orders have in common is said
once, by the state of rest as a function of the state, and each step is compared with
that.
-/

namespace StepMachine

variable {σ ε : Type*} {M : StepMachine σ ε}

/-- **The machine settles** under the events of `E`, from the states of `I`: each lowers the
rank by one and keeps the state of rest, and one of them can happen until the rank is zero. -/
structure Settling (M : StepMachine σ ε) (I : σ → Prop) (E : ε → Prop) (rank : σ → ℕ)
    (rest : σ → σ) : Prop where
  step : ∀ s e s', I s → E e → M.step s e = some s' →
    I s' ∧ rank s' + 1 = rank s ∧ rest s' = rest s
  progress : ∀ s, I s → 0 < rank s → ∃ e s', E e ∧ M.step s e = some s'
  rest_eq : ∀ s, I s → rank s = 0 → rest s = s

namespace Settling

variable {I : σ → Prop} {E : ε → Prop} {rank : σ → ℕ} {rest : σ → σ} {s t : σ} {es : List ε}

/-- What a sequence of events has done so far. -/
theorem exec (h : M.Settling I E rank rest) (hs : I s) (hE : ∀ e ∈ es, E e)
    (hexec : M.exec s es = some t) : I t ∧ es.length + rank t = rank s ∧ rest t = rest s := by
  induction es generalizing s with
  | nil =>
    rw [exec_nil, Option.some.injEq] at hexec
    subst hexec
    exact ⟨hs, Nat.zero_add _, rfl⟩
  | cons e es ih =>
    rw [exec_cons, Option.bind_eq_some_iff] at hexec
    obtain ⟨s₁, hs₁, hrest⟩ := hexec
    obtain ⟨hI, hrank, hsame⟩ := h.step s e s₁ hs (hE e List.mem_cons_self) hs₁
    obtain ⟨hI', hrank', hsame'⟩ := ih hI (fun e he => hE e (List.mem_cons_of_mem _ he)) hrest
    refine ⟨hI', ?_, hsame'.trans hsame⟩
    rw [List.length_cons]
    omega

theorem length_le (h : M.Settling I E rank rest) (hs : I s) (hE : ∀ e ∈ es, E e)
    (hexec : M.exec s es = some t) : es.length ≤ rank s := by
  have hrank := (h.exec hs hE hexec).2.1
  omega

/-- **The machine is stuck when the sequence is as long as the rank**, and not before. -/
theorem stuck_iff (h : M.Settling I E rank rest) (hs : I s) (hE : ∀ e ∈ es, E e)
    (hexec : M.exec s es = some t) :
    (∀ e, E e → M.step t e = none) ↔ es.length = rank s := by
  obtain ⟨hI, hrank, -⟩ := h.exec hs hE hexec
  constructor
  · intro hstuck
    by_contra hne
    obtain ⟨e, t', he, ht'⟩ := h.progress t hI (by omega)
    rw [hstuck e he] at ht'
    cases ht'
  · intro hlength e he
    cases hstep : M.step t e with
    | none => rfl
    | some t' =>
      have hlower := (h.step t e t' hI he hstep).2.1
      omega

/-- **All complete sequences end in the state of rest.** -/
theorem eq_rest (h : M.Settling I E rank rest) (hs : I s) (hE : ∀ e ∈ es, E e)
    (hexec : M.exec s es = some t) (hlength : es.length = rank s) : t = rest s := by
  obtain ⟨hI, hrank, hsame⟩ := h.exec hs hE hexec
  rw [← hsame, h.rest_eq t hI (by omega)]

/-- There is a complete sequence. -/
theorem exists_exec_rest (h : M.Settling I E rank rest) (hs : I s) :
    ∃ es, (∀ e ∈ es, E e) ∧ es.length = rank s ∧ M.exec s es = some (rest s) := by
  induction hn : rank s generalizing s with
  | zero => exact ⟨[], nofun, rfl, by rw [exec_nil, h.rest_eq s hs hn]⟩
  | succ n ih =>
    obtain ⟨e, s₁, he, hs₁⟩ := h.progress s hs (by omega)
    obtain ⟨hI, hrank, hsame⟩ := h.step s e s₁ hs he hs₁
    obtain ⟨es, hes, hlength, hexec⟩ := ih hI (by omega)
    refine ⟨e :: es, List.forall_mem_cons.mpr ⟨he, hes⟩, by rw [List.length_cons, hlength], ?_⟩
    rw [exec_cons, hs₁, Option.bind_some, hexec, hsame]

end Settling

end StepMachine
