import ExchangeRate.Rows

/-!
# What stops the process

Three things could stop the process: a body that does not decode, a row that has been
deleted, and an object whose primary key is taken. The last one never happens; the
other two happen exactly on the bodies that do not decode and on the reads through an
array that is out of date (`ExchangeRate.trap_iff`). So of all the schedules of what
can happen, those that run to their end are the ones without such a body and such a
read (`ExchangeRate.survives_iff`).
-/

namespace ExchangeRate

variable {P : Platform} {es : List AppEvent} {s s' : App} {e : AppEvent}

/-- The body that an event brings decodes. -/
def AppEvent.Decodes (P : Platform) : AppEvent → Prop
  | .currencyListCompletion (some data) _ => (CurrencyListResponse.decode P data).isSome = true
  | .rateCompletion (some data) _ => (RateListResponse.decode P data).isSome = true
  | _ => True

instance (P : Platform) (e : AppEvent) : Decidable (e.Decodes P) := by
  unfold AppEvent.Decodes
  split <;> infer_instance

theorem trap_eq_some_iff {trap : Trap} :
    s.trap P e = some trap ↔ s.attempt P e = some (.error trap) := by
  refine ⟨App.attempt_of_trap, fun h => ?_⟩
  rw [App.trap, h]

/-! ### The traps of the events -/

/-- A cell is read through the array, so it can only find a deleted row. -/
theorem eq_deletedObject_of_cell {k : ObjKey} {trap : Trap} (h : s.cellForRowAt k = .error trap) :
    trap = .deletedObject := by
  rcases s.main.read_managed_cases k with ⟨-, c, hread⟩ | ⟨-, hread⟩
  · simp [App.cellForRowAt, hread] at h
  · simpa [App.cellForRowAt, hread] using h.symm

/-- And so can a tap, in either of the two versions. -/
theorem eq_deletedObject_of_select {l : ListScreen} {k : ObjKey} {trap : Trap}
    (h : s.didSelectRowAt l k = .error trap) : trap = .deletedObject := by
  rcases s.main.read_managed_cases k with ⟨-, c, hread⟩ | ⟨-, hread⟩
  · cases hfirst : s.realm.userPreferenceData.first with
    | none => simp [App.didSelectRowAt, hread, saveSelectedItem, hfirst] at h
    | some u =>
      rcases s.realm.read_managed_cases k with ⟨-, c', hread'⟩ | ⟨-, hread'⟩
      · simp [App.didSelectRowAt, hread, saveSelectedItem, hfirst, hread'] at h
      · simpa [App.didSelectRowAt, hread, saveSelectedItem, hfirst, hread'] using h.symm
  · simpa [App.didSelectRowAt, hread] using h.symm

/-- **What stops the process is the body of the event, or a read through the array.** -/
theorem attempt_error_cases {trap : Trap} (h : s.attempt P e = some (.error trap)) :
    trap = .decoding ∧ ¬e.Decodes P ∨ trap = .deletedObject ∧ e.Decodes P := by
  cases e with
  | currencyListCompletion data now =>
    rw [App.attempt, Option.ite_none_right_eq_some, Option.some.injEq,
      completed_eq_error_iff] at h
    cases data with
    | none => cases h.2
    | some data =>
      obtain ⟨rfl, hdec⟩ := currencyListCompletion_eq_error_iff.mp h.2
      exact Or.inl ⟨rfl, by simp [AppEvent.Decodes, hdec]⟩
  | rateCompletion data now =>
    rw [App.attempt, Option.ite_none_right_eq_some, Option.some.injEq,
      completed_eq_error_iff] at h
    cases data with
    | none => cases h.2
    | some data =>
      obtain ⟨rfl, hdec⟩ := rateCompletion_eq_error_iff.mp h.2
      exact Or.inl ⟨rfl, by simp [AppEvent.Decodes, hdec]⟩
  | cellForRowAt row =>
    obtain ⟨l, -, h⟩ := Option.bind_eq_some_iff.mp h
    obtain ⟨k, -, hcell⟩ := Option.map_eq_some_iff.mp h
    exact Or.inr ⟨eq_deletedObject_of_cell hcell, trivial⟩
  | tapRow row =>
    obtain ⟨l, -, h⟩ := Option.bind_eq_some_iff.mp h
    obtain ⟨-, h⟩ := Option.ite_none_left_eq_some.mp h
    obtain ⟨k, -, hselect⟩ := Option.map_eq_some_iff.mp h
    exact Or.inr ⟨eq_deletedObject_of_select hselect, trivial⟩
  | _ => simp [App.attempt, Option.bind_eq_some_iff] at h

/-- A body that does not decode stops the process. -/
theorem attempt_of_not_decodes (hcan : (s.attempt P e).isSome = true) (hnot : ¬e.Decodes P) :
    s.attempt P e = some (.error .decoding) := by
  cases e with
  | currencyListCompletion data now =>
    rw [App.attempt] at hcan ⊢
    split at hcan
    · rename_i htask
      cases data with
      | none => exact absurd trivial hnot
      | some data =>
        have hdec : CurrencyListResponse.decode P data = none := by
          simpa [AppEvent.Decodes] using hnot
        rw [if_pos htask, completed_eq_error_iff.mpr
          (currencyListCompletion_eq_error_iff.mpr ⟨rfl, hdec⟩)]
    · cases hcan
  | rateCompletion data now =>
    rw [App.attempt] at hcan ⊢
    split at hcan
    · rename_i htask
      cases data with
      | none => exact absurd trivial hnot
      | some data =>
        have hdec : RateListResponse.decode P data = none := by
          simpa [AppEvent.Decodes] using hnot
        rw [if_pos htask, completed_eq_error_iff.mpr
          (rateCompletion_eq_error_iff.mpr ⟨rfl, hdec⟩)]
    · cases hcan
  | _ => exact absurd trivial hnot

/-! ### Exactly these -/

/-- **What stops the process**, in any state of a run: of the events that can happen, those whose
body does not decode and those that read the array when it is out of date, and no primary key is
ever taken. -/
theorem trap_iff (h : (App.machine P).Reaches es s) (hcan : (s.attempt P e).isSome = true) :
    (s.trap P e = some .decoding ↔ ¬e.Decodes P) ∧
      (s.trap P e = some .deletedObject ↔ ¬(rowMarks es).Fresh e) ∧
      s.trap P e ≠ some .duplicatePrimaryKey := by
  refine ⟨?_, ?_, fun htrap => ?_⟩
  · rw [trap_eq_some_iff]
    refine ⟨fun htrap => ?_, attempt_of_not_decodes hcan⟩
    rcases attempt_error_cases htrap with ⟨-, hnot⟩ | ⟨hne, -⟩
    · exact hnot
    · cases hne
  · rw [trap_eq_some_iff, ← readsLiveRows_iff h hcan, App.ReadsLiveRows, not_not]
  · rcases attempt_error_cases (trap_eq_some_iff.mp htrap) with ⟨hne, -⟩ | ⟨hne, -⟩
    · cases hne
    · cases hne

/-- An event that can happen lets the process go on exactly when its body decodes and its read is
up to date. -/
theorem isSome_step_iff (h : (App.machine P).Reaches es s)
    (hcan : (s.attempt P e).isSome = true) :
    (s.step P e).isSome = true ↔ e.Decodes P ∧ (rowMarks es).Fresh e := by
  obtain ⟨hdecoding, hdeleted, -⟩ := trap_iff h hcan
  obtain ⟨result, hresult⟩ := Option.isSome_iff_exists.mp hcan
  rcases result with trap | s'
  · have htrap := trap_eq_some_iff.mpr hresult
    have hnone : s.step P e = none := by rw [App.step, hresult]
    rw [hnone]
    refine iff_of_false nofun fun hgood => ?_
    rcases attempt_error_cases hresult with ⟨rfl, hnot⟩ | ⟨rfl, -⟩
    · exact hnot hgood.1
    · exact hdeleted.mp htrap hgood.2
  · have hnone : s.trap P e = none := by rw [App.trap, hresult]
    rw [hnone] at hdecoding hdeleted
    rw [App.step_eq_some_iff.mpr hresult]
    refine iff_of_true rfl ⟨?_, ?_⟩
    · by_contra hnot
      cases hdecoding.mpr hnot
    · by_contra hnot
      cases hdeleted.mpr hnot

/-- **The schedules that run to their end** are those in which every body decodes and every read
of the array finds it up to date; and no schedule ever meets a primary key that is taken. -/
theorem survives_iff
    (hcan : (App.machine P).EveryStep es fun _ s e => (s.attempt P e).isSome = true) :
    ((∃ s, (App.machine P).Reaches es s) ↔
      (App.machine P).EveryStep es fun pre _ e => e.Decodes P ∧ (rowMarks pre).Fresh e) ∧
    (App.machine P).EveryStep es fun _ s e => s.trap P e ≠ some .duplicatePrimaryKey := by
  refine ⟨?_, fun pre e hpre s hs => (trap_iff hs (hcan pre e hpre s hs)).2.2⟩
  rw [StepMachine.exists_reaches_iff_everyStep]
  constructor
  · intro hstep pre e hpre s hs
    exact (isSome_step_iff hs (hcan pre e hpre s hs)).mp (hstep pre e hpre s hs)
  · intro hsafe pre e hpre s hs
    exact (isSome_step_iff hs (hcan pre e hpre s hs)).mpr (hsafe pre e hpre s hs)

/-- A relaunch hours later whose lists both arrive before the list screen is opened. -/
def patientVisit : List AppEvent :=
  App.firstLaunch ++ [.launch 10000, .finishViewDidLoad 10000, .viewWillAppear,
    .rateCompletion rateBody 10001, .currencyListCompletion currencyListBody 10002, .runMainBlock,
    .refresh, .tapCurrencyButton true, .cellForRowAt 0, .tapRow 1]

/-- It runs to its end. -/
theorem survives_patientVisit : ∃ s, (App.machine Platform.sample).Reaches patientVisit s := by
  have hcan : (App.machine Platform.sample).EveryStep patientVisit
      fun _ s e => (s.attempt Platform.sample e).isSome = true :=
    StepMachine.everyStep_of_checkSteps
      (c := fun _ s e => (s.attempt Platform.sample e).isSome) (fun _ _ _ hc => hc)
      (by decide +kernel)
  exact (survives_iff hcan).1.mpr (StepMachine.everyStep_of_checkSteps
    (c := fun pre _ e => decide (e.Decodes Platform.sample ∧ (rowMarks pre).Fresh e))
    (fun _ _ _ hc => of_decide_eq_true hc) (by decide +kernel))

end ExchangeRate
