import ExchangeRate.Base.Simulation
import ExchangeRate.Base.Spacing
import ExchangeRate.CurrencyCache
import ExchangeRate.RateCache
import ExchangeRate.Requests

/-!
# The application as a client of the interactor

While the clock does not go back, each run of the application is a session
(`ExchangeRate.exists_session_of_reaches`): a launch is a launch, the rest of
`viewDidLoad` is a fetch of the rates, and what the user does is a call or nothing. So
what holds of every session holds of the application, whatever the order of its events.

For the requests this gives two very different schedules. The rates are requested when
the *last* save of rates is old, and so no two saves of rates are less than half an hour
apart, however often the application is launched (`ExchangeRate.length_rateSaves_le`).
The currency list is requested when the *first* save there ever was is old, which from
half an hour after it on is every launch (`ExchangeRate.launch_requests_iff`).
-/

namespace ExchangeRate

variable {P : Platform} {t₀ : Date} {es : List AppEvent} {s s' : App} {e : AppEvent}

/-! ### A run is a session -/

/-- **A state of the application and one of a session**: the store is the same, and so are the
saves so far; what the application has in flight, the session has in flight as well. -/
structure SessionOf (P : Platform) (t₀ : Date) (es : List AppEvent) (s : App)
    (ds : List SessionEvent) (t : Session) : Prop where
  realm : t.realm = s.realm
  clock : t.clock ≤ App.clockAfter t₀ es
  currencyTasks : currencyListURL ∈ s.tasks → 0 < t.currencyTasks
  rateTasks : rateURL ∈ s.tasks → 0 < t.rateTasks
  currencySaves : Session.currencySaves P ds = App.currencySaves P es
  rateSaves : Session.rateSaves P ds = App.rateSaves P es

/-- The session answers a step of the application, with some calls. -/
def SessionAnswers (P : Platform) (t₀ : Date) (es : List AppEvent) (e : AppEvent) (s' : App)
    (ds : List SessionEvent) (t : Session) : Prop :=
  ∃ ds' t', (Session.machine P t₀).exec t ds' = some t' ∧
    SessionOf P t₀ (es ++ [e]) s' (ds ++ ds') t'

/-- A request that has been answered is in flight no more, and the other one still is. -/
theorem not_mem_erase_task {tasks : List URL} (h : tasks.Nodup) (url : URL) :
    url ∉ tasks.erase url :=
  fun hurl => (h.mem_erase_iff.mp hurl).1 rfl

namespace SessionOf

variable {ds ds' : List SessionEvent} {t t' : Session}

/-- What has been saved is extended on both sides alike. -/
theorem extend (h : SessionOf P t₀ es s ds t) (hrealm : t'.realm = s'.realm)
    (hclock : t'.clock ≤ App.clockAfter t₀ (es ++ [e]))
    (hcurrency : currencyListURL ∈ s'.tasks → 0 < t'.currencyTasks)
    (hrate : rateURL ∈ s'.tasks → 0 < t'.rateTasks)
    (hsaves : Session.currencySaves P ds' = (e.currencySave P).toList)
    (hsaves' : Session.rateSaves P ds' = (e.rateSave P).toList) :
    SessionOf P t₀ (es ++ [e]) s' (ds ++ ds') t' := by
  refine ⟨hrealm, hclock, hcurrency, hrate, ?_, ?_⟩
  · rw [App.currencySaves_concat, ← h.currencySaves, ← hsaves]
    exact List.filterMap_append
  · rw [App.rateSaves_concat, ← h.rateSaves, ← hsaves']
    exact List.filterMap_append

/-- A step that leaves the store alone and starts no request is answered by no call. -/
theorem idle (h : SessionOf P t₀ es s ds t) (hin : App.InTime t₀ es e)
    (hrealm : s'.realm = s.realm) (htasks : s'.tasks ⊆ s.tasks)
    (hsave : e.currencySave P = none) (hsave' : e.rateSave P = none) :
    SessionAnswers P t₀ es e s' ds t :=
  ⟨[], t, rfl, h.extend (h.realm.trans hrealm.symm) (h.clock.trans hin.le)
    (fun hurl => h.currencyTasks (htasks hurl)) (fun hurl => h.rateTasks (htasks hurl))
    (by rw [hsave]; rfl) (by rw [hsave']; rfl)⟩

/-- A step that is answered by one call. -/
theorem answer (h : SessionOf P t₀ es s ds t) {d : SessionEvent}
    (hstep : Session.step P t d = some t') (hrealm : t'.realm = s'.realm)
    (hclock : t'.clock ≤ App.clockAfter t₀ (es ++ [e]))
    (hcurrency : currencyListURL ∈ s'.tasks → 0 < t'.currencyTasks)
    (hrate : rateURL ∈ s'.tasks → 0 < t'.rateTasks)
    (hsave : Session.currencySave P d = e.currencySave P)
    (hsave' : Session.rateSave P d = e.rateSave P) : SessionAnswers P t₀ es e s' ds t := by
  refine ⟨[d], t', ?_, h.extend hrealm hclock hcurrency hrate ?_ ?_⟩
  · rw [StepMachine.exec_cons]
    exact congrArg (Option.bind · _) hstep
  · rw [← hsave]
    cases hd : Session.currencySave P d <;> simp [Session.currencySaves, hd]
  · rw [← hsave']
    cases hd : Session.rateSave P d <;> simp [Session.rateSaves, hd]

/-- A step that writes the preferences is answered by the call that does. -/
theorem write (h : SessionOf P t₀ es s ds t) (hin : App.InTime t₀ es e) {d : SessionEvent}
    (hstep : Session.step P t d = some { t with realm := s'.realm }) (htasks : s'.tasks = s.tasks)
    (hsave : Session.currencySave P d = e.currencySave P)
    (hsave' : Session.rateSave P d = e.rateSave P) : SessionAnswers P t₀ es e s' ds t := by
  refine h.answer hstep rfl (h.clock.trans hin.le) ?_ ?_ hsave hsave'
  · rw [htasks]
    exact h.currencyTasks
  · rw [htasks]
    exact h.rateTasks

/-- A reading of the clock is not behind the session. -/
theorem le_time (h : SessionOf P t₀ es s ds t) (hin : App.InTime t₀ es e) {now : Date}
    (htime : e.time = some now) : t.clock ≤ now ∧ now ≤ App.clockAfter t₀ (es ++ [e]) := by
  refine ⟨h.clock.trans (hin now htime), ?_⟩
  rw [App.clockAfter_concat, htime, Option.getD_some]

/-- A launch is a launch. -/
theorem launch (h : SessionOf P t₀ es s ds t) {now : Date} (hin : App.InTime t₀ es (.launch now))
    (hs : (App.machine P).Reaches es s) (hstep : s.step P (.launch now) = some s') :
    SessionAnswers P t₀ es (.launch now) s' ds t := by
  obtain ⟨hnow, hclock⟩ := h.le_time hin rfl
  have hs' : (App.machine P).Reaches (es ++ [.launch now]) s' :=
    StepMachine.reaches_concat.mpr ⟨s, hs, hstep⟩
  have hkept := tasksKept_of_reaches hs'
  have htasks := tasks_launch hstep
  rw [← h.realm] at htasks
  cases App.appStep_of_step hstep with
  | launch =>
    refine h.answer (d := .launch now) (if_pos hnow) (by rw [h.realm]) hclock (fun hurl => ?_)
      (fun hurl => absurd hurl (hkept.loading rfl).1) rfl rfl
    rw [htasks] at hurl
    exact requests_pos hurl

/-- The rest of `viewDidLoad` is a fetch of the rates: both versions of the store have the same
record of rates then, so the session requests them as well. -/
theorem fetchRates (h : SessionOf P t₀ es s ds t) {now : Date}
    (hin : App.InTime t₀ es (.finishViewDidLoad now)) (hs : (App.machine P).Reaches es s)
    (hstep : s.step P (.finishViewDidLoad now) = some s') :
    SessionAnswers P t₀ es (.finishViewDidLoad now) s' ds t := by
  obtain ⟨hnow, hclock⟩ := h.le_time hin rfl
  have htasks := tasks_finishViewDidLoad hstep
  cases App.appStep_of_step hstep with
  | finishViewDidLoad now hphase =>
    obtain ⟨hnot, hsame⟩ := (tasksKept_of_reaches hs).loading hphase
    have hrequested : (fetchRateData s.main now).filterMap TopOutput.request =
        (fetchRateData t.realm now).filterMap TopOutput.request := by
      rw [filterMap_request_fetchRateData, filterMap_request_fetchRateData, hsame, h.realm]
    rw [hrequested] at htasks
    refine h.answer (step_fetchRateData hnow) h.realm hclock (fun hurl => ?_) (fun hurl => ?_)
      rfl rfl
    · rw [htasks, List.mem_append] at hurl
      refine h.currencyTasks (hurl.resolve_right fun hurl => ?_)
      rw [filterMap_request_fetchRateData, List.mem_ite_nil_right, List.mem_singleton] at hurl
      exact currencyListURL_ne_rateURL hurl.2
    · rw [htasks, List.mem_append] at hurl
      exact Nat.add_pos_right _ (requests_pos (hurl.resolve_left hnot))

/-- An answer to the request for the currency list. -/
theorem saveCurrencies (h : SessionOf P t₀ es s ds t) {data : Data} {now : Date}
    (hin : App.InTime t₀ es (.currencyListCompletion (some data) now))
    (hs : (App.machine P).Reaches es s)
    (hstep : s.step P (.currencyListCompletion (some data) now) = some s') :
    SessionAnswers P t₀ es (.currencyListCompletion (some data) now) s' ds t := by
  obtain ⟨hnow, hclock⟩ := h.le_time hin rfl
  obtain ⟨htask, response, -, hcompleted, -⟩ := currencyListCompletion_of_step hstep
  rw [← h.realm] at hcompleted
  have hcall : Session.step P t (.currencyListCompletion data now) =
      some { t with
        realm := s'.realm, clock := now, currencyTasks := t.currencyTasks - 1 } := by
    rw [Session.step, if_pos ⟨hnow, h.currencyTasks htask⟩, hcompleted]
  cases App.appStep_of_step hstep with
  | currencyListSaved =>
    refine h.answer hcall rfl hclock
      (fun hurl => absurd hurl (not_mem_erase_task (tasksKept_of_reaches hs).nodup _))
      (fun hurl => h.rateTasks (List.mem_of_mem_erase hurl)) rfl rfl

/-- An answer to the request for the rates. -/
theorem saveRates (h : SessionOf P t₀ es s ds t) {data : Data} {now : Date}
    (hin : App.InTime t₀ es (.rateCompletion (some data) now))
    (hs : (App.machine P).Reaches es s)
    (hstep : s.step P (.rateCompletion (some data) now) = some s') :
    SessionAnswers P t₀ es (.rateCompletion (some data) now) s' ds t := by
  obtain ⟨hnow, hclock⟩ := h.le_time hin rfl
  obtain ⟨htask, response, -, hcompleted, -⟩ := rateCompletion_of_step hstep
  rw [← h.realm] at hcompleted
  have hcall : Session.step P t (.rateCompletion data now) =
      some { t with realm := s'.realm, clock := now, rateTasks := t.rateTasks - 1 } := by
    rw [Session.step, if_pos ⟨hnow, h.rateTasks htask⟩, hcompleted]
  cases App.appStep_of_step hstep with
  | ratesSaved =>
    refine h.answer hcall rfl hclock (fun hurl => h.currencyTasks (List.mem_of_mem_erase hurl))
      (fun hurl => absurd hurl (not_mem_erase_task (tasksKept_of_reaches hs).nodup _)) rfl rfl

end SessionOf

/-- **While the clock does not go back, each run of the application is a session.** -/
theorem exists_session_of_reaches (h : (App.machine P).Reaches es s)
    (hclock : App.ClockForward t₀ es) : ∃ ds t, (Session.machine P t₀).Reaches ds t ∧
      SessionOf P t₀ es s ds t := by
  refine StepMachine.Reaches.simulate (M := App.machine P)
    (I := fun es s ds t => SessionOf P t₀ es s ds t) (C := fun pre _ e => App.InTime t₀ pre e)
    ⟨rfl, le_refl t₀, nofun, nofun, rfl, rfl⟩
    (fun es s ds t e s' hs _ hI hin hstep => ?_) h (App.everyStep_inTime hclock)
  have hlast := hstep
  cases App.appStep_of_step hstep with
  | launch => exact hI.launch hin hs hlast
  | finishViewDidLoad => exact hI.fetchRates hin hs hlast
  | currencyListFailed => exact hI.idle hin rfl List.erase_subset rfl rfl
  | currencyListSaved => exact hI.saveCurrencies hin hs hlast
  | rateFailed => exact hI.idle hin rfl List.erase_subset rfl rfl
  | ratesSaved => exact hI.saveRates hin hs hlast
  | tapExchange =>
    refine hI.write hin (d := .exchangeCurrency) ?_ rfl rfl rfl
    rw [Session.step, hI.realm]
  | tapRow row l hlist hnot k selectedItem hmain realm hsave =>
    refine hI.write hin (d := .saveSelectedItem (.managed k) l.isFromButton) ?_ rfl rfl rfl
    rw [Session.step, hI.realm, hsave]
  | _ => exact hI.idle hin rfl (List.Subset.refl _) rfl rfl

/-- A first launch, and a second one when half an hour has passed; all requests are answered. -/
def halfHourLater : List AppEvent :=
  App.firstLaunch ++ [.launch 1802, .finishViewDidLoad 1803, .viewWillAppear,
    .currencyListCompletion currencyListBody 1804, .rateCompletion rateBody 1805]

theorem halfHourLater_reaches : ∃ s, (App.machine Platform.sample).Reaches halfHourLater s := by
  have hrun : ((App.machine Platform.sample).exec App.installed halfHourLater).isSome = true := by
    decide +kernel
  exact Option.isSome_iff_exists.mp hrun

theorem halfHourLater_clockForward : App.ClockForward 0 halfHourLater := by decide +kernel

/-- The two launches as a session. -/
theorem exists_session_halfHourLater : ∃ s ds t,
    (Session.machine Platform.sample 0).Reaches ds t ∧
      SessionOf Platform.sample 0 halfHourLater s ds t := by
  obtain ⟨s, hs⟩ := halfHourLater_reaches
  obtain ⟨ds, t, ht, hsession⟩ := exists_session_of_reaches hs halfHourLater_clockForward
  exact ⟨s, ds, t, ht, hsession⟩

/-! ### The records of a run -/

/-- The records of currencies are those of the saves. -/
theorem currencyRecords_of_run (h : (App.machine P).Reaches es s) :
    CurrencyRecords (App.currencySaves P es) s.realm := by
  refine StepMachine.Reaches.invariant (M := App.machine P)
    (I := fun es s => CurrencyRecords (App.currencySaves P es) s.realm)
    CurrencyRecords.empty (fun es s e s' _ hI hstep => ?_) h
  rcases App.save_cases hstep with ⟨hc, -, hpref⟩ | ⟨now, response, hc, -, hsaved⟩ |
    ⟨now, response, hc, -, hsaved⟩
  · rw [App.currencySaves_concat_of_none hc]
    exact hI.congr hpref.currency hpref.currencyData
  · rw [App.currencySaves_concat, hc, Option.toList_some]
    exact hI.concat hsaved
  · rw [App.currencySaves_concat_of_none hc]
    exact hI.congr hsaved.currency hsaved.currencyData

/-- The currencies of the store are those of the last save. -/
theorem currencies_of_run (h : (App.machine P).Reaches es s) : s.realm.currency.objects =
    (App.currencySaves P es).getLast?.elim [] fun save => save.2.toCurrencies := by
  refine StepMachine.Reaches.invariant (M := App.machine P)
    (I := fun es s => s.realm.currency.objects =
      (App.currencySaves P es).getLast?.elim [] fun save => save.2.toCurrencies)
    rfl (fun es s e s' _ hI hstep => ?_) h
  rcases App.save_cases hstep with ⟨hc, -, hpref⟩ | ⟨now, response, hc, -, hsaved⟩ |
    ⟨now, response, hc, -, hsaved⟩
  · rw [App.currencySaves_concat_of_none hc, hpref.currency]
    exact hI
  · rw [App.currencySaves_concat, hc, Option.toList_some, List.getLast?_concat]
    exact hsaved.currency_objects
  · rw [App.currencySaves_concat_of_none hc, hsaved.currency]
    exact hI

/-- The store holds the last save of rates. -/
theorem rateRecords_of_run (h : (App.machine P).Reaches es s) :
    RateRecords (App.rateSaves P es).getLast? s.realm := by
  refine StepMachine.Reaches.invariant (M := App.machine P)
    (I := fun es s => RateRecords (App.rateSaves P es).getLast? s.realm)
    ⟨rfl, rfl⟩ (fun es s e s' _ hI hstep => ?_) h
  rcases App.save_cases hstep with ⟨-, hr, hpref⟩ | ⟨now, response, -, hr, hsaved⟩ |
    ⟨now, response, -, hr, hsaved⟩
  · rw [App.rateSaves_concat_of_none hr]
    exact hI.congr hpref.rate hpref.exchangeRateData
  · rw [App.rateSaves_concat_of_none hr]
    exact hI.congr hsaved.rate hsaved.exchangeRateData
  · rw [App.rateSaves_concat, hr, Option.toList_some, List.getLast?_concat]
    exact RateRecords.of_saved hsaved

/-- The date a fetch of the currency list looks at is that of the first save. -/
theorem CurrencyRecords.bind_savedAt {saves : List (Date × CurrencyListResponse)} {realm : Realm}
    (h : CurrencyRecords saves realm) :
    realm.currencyData.first.bind CurrencyData.savedAt = saves.head?.map Prod.fst := by
  have hdates := congrArg List.head? h.dates
  rw [List.head?_map, List.head?_map] at hdates
  rw [ObjectTable.first]
  cases hd : realm.currencyData.objects.head? <;> cases hs : saves.head? <;>
    simp_all

/-- The date a fetch of the rates looks at is that of the last save. -/
theorem RateRecords.bind_savedAt {last : Option (Date × RateListResponse)} {realm : Realm}
    (h : RateRecords last realm) :
    realm.exchangeRateData.first.bind ExchangeRateData.savedAt = last.map Prod.fst := by
  cases last with
  | none =>
    rw [ObjectTable.first_eq_none_iff.mpr h.1]
    rfl
  | some save =>
    rw [ObjectTable.first_eq_some_of_objects h.1]
    rfl

/-! ### What a launch requests -/

/-- A launch requests the currency list when the first record is due. -/
theorem currencyListURL_mem_tasks_iff (h : (App.machine P).Reaches es s) {now : Date}
    (hstep : s.step P (.launch now) = some s') : currencyListURL ∈ s'.tasks ↔
      Due ((App.currencySaves P es).head?.map Prod.fst) now := by
  have hsaved := (currencyRecords_of_run h).bind_savedAt
  rw [tasks_launch hstep, filterMap_request_fetchCurrencyListData, List.mem_ite_nil_right, ← hsaved]
  exact and_iff_left (List.mem_singleton_self _)

/-- The rest of `viewDidLoad` requests the rates when the one record is due. -/
theorem rateURL_mem_tasks_iff (h : (App.machine P).Reaches es s) {now : Date}
    (hstep : s.step P (.finishViewDidLoad now) = some s') : rateURL ∈ s'.tasks ↔
      Due ((App.rateSaves P es).getLast?.map Prod.fst) now := by
  have hsaved := (rateRecords_of_run h).bind_savedAt
  have hphase := (App.of_guard (App.step_eq_some_iff.mp hstep)).1
  obtain ⟨hnot, hsame⟩ := (tasksKept_of_reaches h).loading hphase
  rw [tasks_finishViewDidLoad hstep, filterMap_request_fetchRateData, List.mem_append,
    or_iff_right hnot, List.mem_ite_nil_right, hsame, hsaved]
  exact and_iff_left (List.mem_singleton_self _)

/-- **A launch requests the currency list when the first save there ever was is half an hour old,
and the rest of `viewDidLoad` requests the rates when the last save is.** -/
theorem launch_requests_iff (h : (App.machine P).Reaches es s) (now : Date) :
    (∀ s', s.step P (.launch now) = some s' → (currencyListURL ∈ s'.tasks ↔
      Due ((App.currencySaves P es).head?.map Prod.fst) now)) ∧
    ∀ s', s.step P (.finishViewDidLoad now) = some s' → (rateURL ∈ s'.tasks ↔
      Due ((App.rateSaves P es).getLast?.map Prod.fst) now) :=
  ⟨fun _ hstep => currencyListURL_mem_tasks_iff h hstep,
    fun _ hstep => rateURL_mem_tasks_iff h hstep⟩

/-- A second after both lists have been saved for the second time, a launch requests the currency
list and not the rates. -/
theorem launch_requests_halfHourLater : ∃ s s' s'',
    (App.machine Platform.sample).Reaches halfHourLater s ∧
      s.step Platform.sample (.launch 1806) = some s' ∧ currencyListURL ∈ s'.tasks ∧
      s'.step Platform.sample (.finishViewDidLoad 1806) = some s'' ∧ rateURL ∉ s''.tasks := by
  have hrun : ((App.machine Platform.sample).exec App.installed
      (halfHourLater ++ [.launch 1806] ++ [.finishViewDidLoad 1806])).isSome = true := by
    decide +kernel
  obtain ⟨s'', h''⟩ := Option.isSome_iff_exists.mp hrun
  obtain ⟨s', hs', hfinish⟩ := StepMachine.reaches_concat.mp h''
  obtain ⟨s, hs, hlaunch⟩ := StepMachine.reaches_concat.mp hs'
  refine ⟨s, s', s'', hs, hlaunch, ((launch_requests_iff hs 1806).1 s' hlaunch).mpr
    (by decide +kernel), hfinish, fun hurl => ?_⟩
  have hdue := ((launch_requests_iff hs' 1806).2 s'' hfinish).mp hurl
  revert hdue
  decide +kernel

/-! ### How often rates are saved -/

/-- **The saves of rates are half an hour apart**, and a request in flight has been started when
the last of them was half an hour old. -/
structure SavesSpaced (P : Platform) (t₀ : Date) (es : List AppEvent) (s : App) : Prop where
  spaced : Spaced 1800 ((App.rateSaves P es).map Prod.fst)
  inFlight : rateURL ∈ s.tasks →
    ∀ t, (App.rateSaves P es).getLast?.map Prod.fst = some t → t + 1800 ≤ App.clockAfter t₀ es

/-- The rates are requested in the rest of `viewDidLoad`, and nowhere else. -/
theorem rateURL_mem_tasks (hs : (App.machine P).Reaches es s) (hstep : s.step P e = some s')
    (hurl : rateURL ∈ s'.tasks) : rateURL ∈ s.tasks ∨ ∃ now, e = .finishViewDidLoad now := by
  have hkept := tasksKept_of_reaches (StepMachine.reaches_concat.mpr ⟨s, hs, hstep⟩)
  cases App.appStep_of_step hstep with
  | launch => exact absurd hurl (hkept.loading rfl).1
  | finishViewDidLoad now => exact Or.inr ⟨now, rfl⟩
  | currencyListFailed => exact Or.inl (List.mem_of_mem_erase hurl)
  | currencyListSaved => exact Or.inl (List.mem_of_mem_erase hurl)
  | rateFailed => exact Or.inl (List.mem_of_mem_erase hurl)
  | ratesSaved => exact Or.inl (List.mem_of_mem_erase hurl)
  | _ => exact Or.inl hurl

theorem savesSpaced_of_reaches (h : (App.machine P).Reaches es s)
    (hclock : App.ClockForward t₀ es) : SavesSpaced P t₀ es s := by
  refine StepMachine.Reaches.invariant_of_everyStep (M := App.machine P)
    (I := SavesSpaced P t₀) (C := fun pre _ e => App.InTime t₀ pre e)
    ⟨Spaced.nil, nofun⟩ (fun es s e s' hs hI hin hstep => ?_) h (App.everyStep_inTime hclock)
  rcases hsave : e.rateSave P with _ | ⟨now, response⟩
  · refine ⟨?_, fun hurl t ht => ?_⟩
    · rw [App.rateSaves_concat_of_none hsave]
      exact hI.spaced
    · rw [App.rateSaves_concat_of_none hsave] at ht
      rcases rateURL_mem_tasks hs hstep hurl with hbefore | ⟨now, rfl⟩
      · exact (hI.inFlight hbefore t ht).trans hin.le
      · -- requested just now, because the last save is due
        have hdue := (rateURL_mem_tasks_iff hs hstep).mp hurl t ht
        rw [App.clockAfter_concat]
        show t + 1800 ≤ now
        linarith
  · have hrate : ∃ data, e = .rateCompletion (some data) now := by
      unfold AppEvent.rateSave at hsave
      split at hsave
      · obtain ⟨r, -, hr⟩ := Option.map_eq_some_iff.mp hsave
        cases hr
        exact ⟨_, rfl⟩
      · cases hsave
    obtain ⟨data, rfl⟩ := hrate
    obtain ⟨htask, -⟩ := rateCompletion_of_step hstep
    refine ⟨?_, fun hurl => ?_⟩
    · rw [App.rateSaves_concat, hsave, Option.toList_some, List.map_append]
      refine hI.spaced.concat (by norm_num) fun t ht => ?_
      rw [List.getLast?_map] at ht
      exact (hI.inFlight htask t ht).trans (hin now rfl)
    · have hkept := tasksKept_of_reaches hs
      cases App.appStep_of_step hstep with
      | ratesSaved => exact absurd hurl (not_mem_erase_task hkept.nodup _)

/-- **However often the application is launched, in a stretch of `n` half hours rates are saved
at most `n` times.** -/
theorem length_rateSaves_le (h : (App.machine P).Reaches es s) (hclock : App.ClockForward t₀ es)
    (a : Date) (n : ℕ) :
    ((App.rateSaves P es).filter fun save => a ≤ save.1 ∧ save.1 < a + n * 1800).length ≤ n := by
  have hcount := (savesSpaced_of_reaches h hclock).spaced.length_filter_le a n
  rw [List.filter_map, List.length_map] at hcount
  simpa [nsmul_eq_mul, Function.comp_def] using hcount

/-- Two saves, and room for two in an hour. -/
theorem length_rateSaves_halfHourLater :
    ((App.rateSaves Platform.sample halfHourLater).filter
      fun save => (0 : Date) ≤ save.1 ∧ save.1 < (0 : Date) + (2 : ℕ) * 1800).length ≤ 2 := by
  obtain ⟨s, hs⟩ := halfHourLater_reaches
  exact length_rateSaves_le hs halfHourLater_clockForward 0 2

end ExchangeRate
