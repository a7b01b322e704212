import ExchangeRate.Versions

/-!
# The rows the list screen reads

The list screen keeps an array of row accessors, loaded when it opens and at each
search. A save of currencies deletes every row, and nobody loads the array again. So a
read through it finds its row exactly when no save came between the version the array
was loaded from and the version the row is looked up in
(`ExchangeRate.liveRows_iff`): the version of the main thread for a cell, and the
newest one for a tap, which opens a write block.

The indicator does not keep the user out: in `ExchangeRate.staleVisit` the rates are
answered first, which hides the indicator, and the currencies arrive while the list is
open.
-/

namespace ExchangeRate

variable {P : Platform} {es : List AppEvent} {s s' : App} {e : AppEvent}

/-- **The event reads no deleted row.** -/
def App.ReadsLiveRows (P : Platform) (s : App) (e : AppEvent) : Prop :=
  s.attempt P e ≠ some (.error .deletedObject)

/-- The marks of an event that reads the array are level. -/
def RowMarks.Fresh (m : RowMarks) : AppEvent → Prop
  | .cellForRowAt _ => m.list = m.main
  | .tapRow _ => m.list = m.committed
  | _ => True

instance (m : RowMarks) (e : AppEvent) : Decidable (m.Fresh e) := by
  unfold RowMarks.Fresh
  split <;> infer_instance

/-! ### What stops a handler -/

/-- A completion handler traps on a body that does not decode, and otherwise returns. -/
theorem completed_eq_error_iff {url : URL} {result : Except Trap (Realm × List TopOutput)}
    {trap : Trap} : s.completed P url result = .error trap ↔ result = .error trap := by
  rcases result with trap' | ⟨realm, outputs⟩
  · simp [App.completed]
  · exact iff_of_false nofun nofun

theorem currencyListCompletion_eq_error_iff {data : Data} {now : Date} {realm : Realm}
    {trap : Trap} : currencyListCompletion P (some data) now realm = .error trap ↔
      trap = .decoding ∧ CurrencyListResponse.decode P data = none := by
  rcases currencyListCompletion_cases P data now realm with ⟨hdec, hc⟩ |
    ⟨response, realm', hdec, hc, -⟩
  · simp [hc, hdec, eq_comm]
  · simp [hc, hdec]

theorem rateCompletion_eq_error_iff {data : Data} {now : Date} {realm : Realm} {trap : Trap} :
    rateCompletion P (some data) now realm = .error trap ↔
      trap = .decoding ∧ RateListResponse.decode P data = none := by
  rcases rateCompletion_cases P data now realm with ⟨hdec, hc⟩ | ⟨response, realm', hdec, hc, -⟩
  · simp [hc, hdec, eq_comm]
  · simp [hc, hdec]

/-- A cell traps exactly when its row is gone from the version of the main thread. -/
theorem cellForRowAt_eq_error_iff {k : ObjKey} :
    s.cellForRowAt k = .error .deletedObject ↔ k ∉ s.main.currency.keys := by
  rcases s.main.read_managed_cases k with ⟨hmem, c, hread⟩ | ⟨hnot, hread⟩
  · simp [App.cellForRowAt, hread, hmem]
  · simp [App.cellForRowAt, hread, hnot]

/-- A tap traps exactly when its row is gone from one of the two versions. -/
theorem didSelectRowAt_eq_error_iff {l : ListScreen} {k : ObjKey} {u : UserPreferenceData}
    (hu : s.realm.userPreferenceData.objects = [u]) :
    s.didSelectRowAt l k = .error .deletedObject ↔
      k ∉ s.main.currency.keys ∨ k ∉ s.realm.currency.keys := by
  have hfirst := ObjectTable.first_eq_some_of_objects hu
  rcases s.main.read_managed_cases k with ⟨hmem, c, hread⟩ | ⟨hnot, hread⟩
  · rcases s.realm.read_managed_cases k with ⟨hmem', c', hread'⟩ | ⟨hnot', hread'⟩
    · simp [App.didSelectRowAt, saveSelectedItem, hfirst, hread, hread', hmem, hmem']
    · simp [App.didSelectRowAt, saveSelectedItem, hfirst, hread, hread', hnot']
  · simp [App.didSelectRowAt, hread, hnot]

/-! ### Exactly the fresh reads succeed -/

/-- **An event that can happen reads no deleted row exactly when its marks are level.** -/
theorem readsLiveRows_iff (h : (App.machine P).Reaches es s)
    (hcan : (s.attempt P e).isSome = true) :
    s.ReadsLiveRows P e ↔ (rowMarks es).Fresh e := by
  have hheld := rowsHeld_of_reaches h
  cases e with
  | cellForRowAt row =>
    obtain ⟨r, hr⟩ := Option.isSome_iff_exists.mp hcan
    simp only [App.attempt, Option.bind_eq_some_iff, Option.map_eq_some_iff] at hr
    obtain ⟨l, hlist, k, hrow, rfl⟩ := hr
    have hk : k ∈ l.currencies := List.mem_of_getElem? hrow
    have hreads : s.ReadsLiveRows P (.cellForRowAt row) ↔
        s.cellForRowAt k ≠ .error .deletedObject := by
      simp [App.ReadsLiveRows, App.attempt, hlist, hrow]
    rw [hreads, ne_eq, cellForRowAt_eq_error_iff, not_not]
    exact (hheld.list l hlist).2.mem_keys_iff hk
  | tapRow row =>
    obtain ⟨r, hr⟩ := Option.isSome_iff_exists.mp hcan
    simp only [App.attempt, Option.bind_eq_some_iff, Option.ite_none_left_eq_some,
      Option.map_eq_some_iff] at hr
    obtain ⟨l, hlist, hnot, k, hrow, rfl⟩ := hr
    have hk : k ∈ l.currencies := List.mem_of_getElem? hrow
    have hreads : s.ReadsLiveRows P (.tapRow row) ↔
        s.didSelectRowAt l k ≠ .error .deletedObject := by
      simp [App.ReadsLiveRows, App.attempt, hlist, hrow, hnot]
    obtain ⟨u, hu⟩ := (preferencesKept_of_reaches h (launched_of_list h hlist)).single
    obtain ⟨hnewest, hmain⟩ := hheld.list l hlist
    rw [hreads, ne_eq, didSelectRowAt_eq_error_iff hu, hmain.mem_keys_iff hk,
      hnewest.mem_keys_iff hk, not_or, not_not, not_not]
    -- a mark that is level with the newest version is level with the main thread's
    have hle := hmain.le
    have hle' := hheld.main.le
    constructor
    · exact fun hlevel => hlevel.2
    · intro (hlevel : (rowMarks es).list = (rowMarks es).committed)
      exact ⟨by omega, hlevel⟩
  | currencyListCompletion data now =>
    refine iff_of_true (fun htrap => ?_) trivial
    rw [App.attempt, Option.ite_none_right_eq_some, Option.some.injEq,
      completed_eq_error_iff] at htrap
    cases data with
    | none => cases htrap.2
    | some data => cases (currencyListCompletion_eq_error_iff.mp htrap.2).1
  | rateCompletion data now =>
    refine iff_of_true (fun htrap => ?_) trivial
    rw [App.attempt, Option.ite_none_right_eq_some, Option.some.injEq,
      completed_eq_error_iff] at htrap
    cases data with
    | none => cases htrap.2
    | some data => cases (rateCompletion_eq_error_iff.mp htrap.2).1
  | _ =>
    exact iff_of_true (by simp [App.ReadsLiveRows, App.attempt, Option.bind_eq_some_iff]) trivial

/-- **In a schedule of events that can happen, exactly when the marks are level at every read
no read finds a deleted row.** -/
theorem liveRows_iff
    (hcan : (App.machine P).EveryStep es fun _ s e => (s.attempt P e).isSome = true) :
    (App.machine P).EveryStep es (fun _ s e => s.ReadsLiveRows P e) ↔
      (App.machine P).EveryStep es fun pre _ e => (rowMarks pre).Fresh e := by
  constructor
  · intro hlive pre e hpre s hs
    exact (readsLiveRows_iff hs (hcan pre e hpre s hs)).mp (hlive pre e hpre s hs)
  · intro hfresh pre e hpre s hs
    exact (readsLiveRows_iff hs (hcan pre e hpre s hs)).mpr (hfresh pre e hpre s hs)

/-! ### Two visits -/

/-- A visit of the list after everything has been answered. -/
def freshVisit : List AppEvent :=
  App.firstLaunch ++ [.refresh, .tapCurrencyButton true, .cellForRowAt 0, .cellForRowAt 1, .tapRow 1,
    .beginDismiss, .finishDismiss]

/-- A second launch hours later. The rates are answered first and hide the indicator; the
currencies arrive while the list is open, and then a row scrolls into view. -/
def staleVisit : List AppEvent :=
  App.firstLaunch ++ [.launch 10000, .finishViewDidLoad 10000, .viewWillAppear,
    .rateCompletion rateBody 10001, .runMainBlock, .tapCurrencyButton true,
    .currencyListCompletion currencyListBody 10002, .refresh, .cellForRowAt 0]

theorem liveRows_freshVisit :
    (App.machine Platform.sample).EveryStep freshVisit
      fun _ s e => s.ReadsLiveRows Platform.sample e := by
  have hcan : (App.machine Platform.sample).EveryStep freshVisit
      fun _ s e => (s.attempt Platform.sample e).isSome = true :=
    StepMachine.everyStep_of_checkSteps
      (c := fun _ s e => (s.attempt Platform.sample e).isSome) (fun _ _ _ hc => hc)
      (by decide +kernel)
  refine (liveRows_iff hcan).mpr (StepMachine.everyStep_of_checkSteps
    (c := fun pre _ e => decide ((rowMarks pre).Fresh e)) (fun _ _ _ hc => of_decide_eq_true hc)
    (by decide +kernel))

/-- **A save under an open list leaves it with deleted rows**, although the user acts only
while the indicator is hidden. -/
theorem staleVisit_reads_deleted_row :
    ¬∀ es : List AppEvent, App.UserWaits Platform.sample es →
      (App.machine Platform.sample).EveryStep es
        fun _ s e => s.ReadsLiveRows Platform.sample e := by
  intro hlive
  have hwaits : App.UserWaits Platform.sample staleVisit :=
    StepMachine.everyStep_of_checkSteps (c := fun _ s e => !e.isUser || !s.hud)
      (fun _ s e hc huser => by simpa [huser] using hc) (by decide +kernel)
  have htrap : ((App.machine Platform.sample).exec App.installed staleVisit.dropLast).map
      (fun s => s.trap Platform.sample (.cellForRowAt 0)) = some (some .deletedObject) := by
    decide +kernel
  obtain ⟨s, hs, hread⟩ := Option.map_eq_some_iff.mp htrap
  exact hlive staleVisit hwaits staleVisit.dropLast (.cellForRowAt 0) List.prefix_rfl s hs
    (App.attempt_of_trap hread)

end ExchangeRate
