import ExchangeRate.Versions

/-!
# The requests of the application

A launch asks for the two lists as the records of the store tell it to: each of the two
fetches starts a request when its record is due (`ExchangeRate.Due`). So at most one
request for each list is in flight (`ExchangeRate.TasksKept`).

The saves a run commits and the readings of the clock it takes are read off its events,
and `ExchangeRate.App.save_cases` says which of the two saves a step is, if any.
-/

namespace ExchangeRate

variable {P : Platform} {t₀ : Date} {es : List AppEvent} {s s' : App} {e : AppEvent}

/-! ### What a fetch requests -/

/-- The request an output starts. -/
def TopOutput.request : TopOutput → Option URL
  | .dataTask url => some url
  | _ => none

/-- **The record is due**: there is none with a date, or it is half an hour old. -/
def Due (savedAt : Option Date) (now : Date) : Prop := ∀ t, savedAt = some t → 1800 ≤ now - t

instance (savedAt : Option Date) (now : Date) : Decidable (Due savedAt now) :=
  match savedAt with
  | none => isTrue nofun
  | some t => decidable_of_iff (1800 ≤ now - t) ⟨fun h t' ht' => by cases ht'; exact h,
    fun h => h t rfl⟩

/-- A fetch requests its address when its record is due. -/
theorem filterMap_request_fetchData {α : Type} {record : Option α} {savedAt : α → Option Date}
    {deliver : α → TopOutput} {path : String} {url : URL} (now : Date)
    (hurl : URL.ofString path = some url) (hdeliver : ∀ d, (deliver d).request = none) :
    (fetchData record savedAt deliver path now).filterMap TopOutput.request =
      if Due (record.bind savedAt) now then [url] else [] := by
  rcases record with _ | d
  · have hdue : Due ((none : Option α).bind savedAt) now := nofun
    rw [fetchData_none hurl, if_pos hdue]
    rfl
  · rw [Option.bind_some]
    rcases ht : savedAt d with _ | t
    · have hdue : Due none now := nofun
      rw [if_pos hdue]
      simp only [fetchData, ht, hurl]
      rfl
    · rw [fetchData_some hurl ht]
      by_cases hage : now - t < 1800
      · have hdue : ¬Due (some t) now := fun h => absurd (h t rfl) (not_le.mpr hage)
        rw [if_pos hage, if_neg hdue]
        simp [hdeliver]
      · have hdue : Due (some t) now := fun t' ht' => by
          cases ht'
          exact not_lt.mp hage
        rw [if_neg hage, if_pos hdue]
        rfl

/-- What is in flight after the outputs of an interactor function. -/
theorem tasks_outputs (s : App) (l : List TopOutput) :
    (s.outputs P l).tasks = s.tasks ++ l.filterMap TopOutput.request := by
  induction l generalizing s with
  | nil => exact (List.append_nil _).symm
  | cons output l ih =>
    rw [App.outputs, List.foldl_cons, ← App.outputs, ih]
    cases output with
    | dataTask url => exact List.append_assoc ..
    | _ => rfl

theorem length_filterMap_request (l : List TopOutput) :
    (l.filterMap TopOutput.request).length = requests l := by
  rw [requests, List.length_filterMap_eq_countP]
  exact List.countP_congr fun output _ => by cases output <;> simp [TopOutput.request]

/-- A fetch of the currency list requests it when the first record is due. -/
theorem filterMap_request_fetchCurrencyListData (realm : Realm) (now : Date) :
    (fetchCurrencyListData realm now).filterMap TopOutput.request =
      if Due (realm.currencyData.first.bind CurrencyData.savedAt) now then [currencyListURL]
      else [] :=
  filterMap_request_fetchData now ofString_getCurrencyListAPIPath fun _ => rfl

/-- A fetch of the rates requests them when their record is due. -/
theorem filterMap_request_fetchRateData (realm : Realm) (now : Date) :
    (fetchRateData realm now).filterMap TopOutput.request =
      if Due (realm.exchangeRateData.first.bind ExchangeRateData.savedAt) now then [rateURL]
      else [] :=
  filterMap_request_fetchData now ofString_getRateAPIPath fun _ => rfl

/-- A request that is among the outputs is counted. -/
theorem requests_pos {l : List TopOutput} {url : URL} (h : url ∈ l.filterMap TopOutput.request) :
    0 < requests l := by
  rw [← length_filterMap_request]
  exact List.length_pos_of_mem h

/-- A launch has what the fetch of the currency list requests in flight. -/
theorem tasks_launch {now : Date} (h : s.step P (.launch now) = some s') :
    s'.tasks = (fetchCurrencyListData (setDefaultUserPreferenceData s.realm) now).filterMap
      TopOutput.request := by
  have heq := App.step_eq_some_iff.mp h
  rw [← Except.ok.inj (Option.some.inj heq)]
  exact tasks_outputs _ _

/-- The rest of `viewDidLoad` adds what the fetch of the rates requests. -/
theorem tasks_finishViewDidLoad {now : Date} (h : s.step P (.finishViewDidLoad now) = some s') :
    s'.tasks = s.tasks ++ (fetchRateData s.main now).filterMap TopOutput.request := by
  have heq := App.step_eq_some_iff.mp h
  rw [← (App.of_guard heq).2]
  exact tasks_outputs _ _

theorem currencyListURL_ne_rateURL : currencyListURL ≠ rateURL := by decide

/-! ### Saves and clock readings, read off the events -/

namespace AppEvent

/-- The reading of the clock that an event comes with. -/
def time : AppEvent → Option Date
  | .launch now | .finishViewDidLoad now => some now
  | .currencyListCompletion _ now | .rateCompletion _ now => some now
  | _ => none

/-- The save of currencies an event commits. -/
def currencySave (P : Platform) : AppEvent → Option (Date × CurrencyListResponse)
  | .currencyListCompletion (some data) now =>
    (CurrencyListResponse.decode P data).map fun r => (now, r)
  | _ => none

/-- The save of rates an event commits. -/
def rateSave (P : Platform) : AppEvent → Option (Date × RateListResponse)
  | .rateCompletion (some data) now => (RateListResponse.decode P data).map fun r => (now, r)
  | _ => none

theorem currencySave_of_decode {data : Data} {response : CurrencyListResponse}
    (h : CurrencyListResponse.decode P data = some response) (now : Date) :
    currencySave P (.currencyListCompletion (some data) now) = some (now, response) := by
  rw [currencySave, h, Option.map_some]

theorem rateSave_of_decode {data : Data} {response : RateListResponse}
    (h : RateListResponse.decode P data = some response) (now : Date) :
    rateSave P (.rateCompletion (some data) now) = some (now, response) := by
  rw [rateSave, h, Option.map_some]

end AppEvent

namespace App

/-- The saves of currencies a run commits, in order. -/
def currencySaves (P : Platform) (es : List AppEvent) : List (Date × CurrencyListResponse) :=
  es.filterMap (AppEvent.currencySave P)

/-- The saves of rates a run commits, in order. -/
def rateSaves (P : Platform) (es : List AppEvent) : List (Date × RateListResponse) :=
  es.filterMap (AppEvent.rateSave P)

theorem currencySaves_concat (es : List AppEvent) (e : AppEvent) :
    currencySaves P (es ++ [e]) = currencySaves P es ++ (e.currencySave P).toList := by
  rw [currencySaves, List.filterMap_append, ← currencySaves]
  cases h : e.currencySave P <;> simp [h]

theorem rateSaves_concat (es : List AppEvent) (e : AppEvent) :
    rateSaves P (es ++ [e]) = rateSaves P es ++ (e.rateSave P).toList := by
  rw [rateSaves, List.filterMap_append, ← rateSaves]
  cases h : e.rateSave P <;> simp [h]

theorem currencySaves_concat_of_none (h : e.currencySave P = none) :
    currencySaves P (es ++ [e]) = currencySaves P es := by
  rw [currencySaves_concat, h, Option.toList_none, List.append_nil]

theorem rateSaves_concat_of_none (h : e.rateSave P = none) :
    rateSaves P (es ++ [e]) = rateSaves P es := by
  rw [rateSaves_concat, h, Option.toList_none, List.append_nil]

/-- **The clock does not go back**, from `t₀` on. -/
def ClockForward (t₀ : Date) (es : List AppEvent) : Prop :=
  (t₀ :: es.filterMap AppEvent.time).Pairwise (· ≤ ·)

instance (t₀ : Date) (es : List AppEvent) : Decidable (ClockForward t₀ es) :=
  inferInstanceAs (Decidable (List.Pairwise _ _))

/-- The last reading of the clock. -/
def clockAfter (t₀ : Date) (es : List AppEvent) : Date := (es.filterMap AppEvent.time).getLastD t₀

theorem clockAfter_concat (t₀ : Date) (es : List AppEvent) (e : AppEvent) :
    clockAfter t₀ (es ++ [e]) = e.time.getD (clockAfter t₀ es) := by
  rw [clockAfter, List.filterMap_append]
  cases h : e.time <;> simp [h, clockAfter]

/-- An event reads no clock that is behind. -/
def InTime (t₀ : Date) (es : List AppEvent) (e : AppEvent) : Prop :=
  ∀ now, e.time = some now → clockAfter t₀ es ≤ now

/-- Under a clock that does not go back every event is in time. -/
theorem everyStep_inTime (h : ClockForward t₀ es) :
    (App.machine P).EveryStep es fun pre _ e => InTime t₀ pre e := by
  rintro pre e ⟨post, rfl⟩ - - now hnow
  rw [ClockForward, List.filterMap_append, List.filterMap_append] at h
  have hlast : (t₀ :: (pre.filterMap AppEvent.time ++ [now])).Pairwise (· ≤ ·) := by
    refine h.sublist (List.Sublist.cons_cons _ ?_)
    rw [show [e].filterMap AppEvent.time = [now] by simp [hnow]]
    exact List.sublist_append_left _ _
  rw [← List.cons_append, List.pairwise_append] at hlast
  exact hlast.2.2 _ List.getLastD_mem_cons now (List.mem_singleton_self now)

theorem InTime.le (h : InTime t₀ es e) : clockAfter t₀ es ≤ clockAfter t₀ (es ++ [e]) := by
  rw [clockAfter_concat]
  cases htime : e.time with
  | none => exact le_refl _
  | some now => exact h now htime

end App

/-! ### What a step saves -/

/-- What the completion of the currency list request has done. -/
theorem currencyListCompletion_of_step {data : Data} {now : Date}
    (h : s.step P (.currencyListCompletion (some data) now) = some s') :
    currencyListURL ∈ s.tasks ∧ ∃ response,
      CurrencyListResponse.decode P data = some response ∧
      currencyListCompletion P (some data) now s.realm =
        .ok (s'.realm, [.gotCurrencyList response.toCurrencies]) ∧
      CurrenciesSaved s.realm response now s'.realm := by
  rw [App.step_eq_some_iff, App.attempt, Option.ite_none_right_eq_some] at h
  obtain ⟨htask, h⟩ := h
  refine ⟨htask, ?_⟩
  rcases currencyListCompletion_cases P data now s.realm with ⟨-, hc⟩ |
    ⟨response, realm, hdec, hc, hsaved⟩
  · rw [hc] at h
    cases h
  · have hc' := hc
    rw [hc] at h
    cases h
    exact ⟨response, hdec, hc', hsaved⟩

/-- What the completion of the rate request has done. -/
theorem rateCompletion_of_step {data : Data} {now : Date}
    (h : s.step P (.rateCompletion (some data) now) = some s') :
    rateURL ∈ s.tasks ∧ ∃ response, RateListResponse.decode P data = some response ∧
      rateCompletion P (some data) now s.realm = .ok (s'.realm, [.gotRateList []]) ∧
      RatesSaved s.realm response now s'.realm := by
  rw [App.step_eq_some_iff, App.attempt, Option.ite_none_right_eq_some] at h
  obtain ⟨htask, h⟩ := h
  refine ⟨htask, ?_⟩
  rcases rateCompletion_cases P data now s.realm with ⟨-, hc⟩ |
    ⟨response, realm, hdec, hc, hsaved⟩
  · rw [hc] at h
    cases h
  · have hc' := hc
    rw [hc] at h
    cases h
    exact ⟨response, hdec, hc', hsaved⟩

/-- **What one step does to the store.** -/
theorem App.save_cases (h : s.step P e = some s') :
    (e.currencySave P = none ∧ e.rateSave P = none ∧ OnlyPreferences s.realm s'.realm) ∨
    (∃ now response, e.currencySave P = some (now, response) ∧ e.rateSave P = none ∧
      CurrenciesSaved s.realm response now s'.realm) ∨
    (∃ now response, e.currencySave P = none ∧ e.rateSave P = some (now, response) ∧
      RatesSaved s.realm response now s'.realm) := by
  have hstep := h
  cases App.appStep_of_step h with
  | launch => exact Or.inl ⟨rfl, rfl, onlyPreferences_setDefault s.realm⟩
  | currencyListSaved data now =>
    obtain ⟨-, response, hdec, -, hsaved⟩ := currencyListCompletion_of_step hstep
    exact Or.inr (Or.inl ⟨now, response, AppEvent.currencySave_of_decode hdec now, rfl, hsaved⟩)
  | ratesSaved data now =>
    obtain ⟨-, response, hdec, -, hsaved⟩ := rateCompletion_of_step hstep
    exact Or.inr (Or.inr ⟨now, response, rfl, AppEvent.rateSave_of_decode hdec now, hsaved⟩)
  | tapExchange => exact Or.inl ⟨rfl, rfl, onlyPreferences_exchange s.realm⟩
  | tapRow row l hlist hnot k selectedItem hmain realm hsave =>
    exact Or.inl ⟨rfl, rfl, onlyPreferences_select hsave⟩
  | _ => exact Or.inl ⟨rfl, rfl, OnlyPreferences.refl⟩

/-! ### What is in flight -/

/-- **What is in flight**: each request once, and the rates are not asked for before the
currency list has been; until then both versions of the store have the same record of rates. -/
structure TasksKept (s : App) : Prop where
  nodup : s.tasks.Nodup
  known : ∀ url ∈ s.tasks, url = currencyListURL ∨ url = rateURL
  loading : s.phase = .currencyListFetched →
    rateURL ∉ s.tasks ∧ s.main.exchangeRateData = s.realm.exchangeRateData

/-- A request that has been answered is in flight no more. -/
theorem TasksKept.erase (h : TasksKept s) {url : URL} (htasks : s'.tasks = s.tasks.erase url)
    (hphase : s'.phase = s.phase) (hmain : s'.main = s.main)
    (hrealm : s.phase = .currencyListFetched →
      s'.realm.exchangeRateData = s.realm.exchangeRateData) : TasksKept s' := by
  refine ⟨?_, fun u hu => ?_, fun hp => ?_⟩
  · rw [htasks]
    exact h.nodup.erase url
  · rw [htasks] at hu
    exact h.known u (List.mem_of_mem_erase hu)
  · rw [hphase] at hp
    obtain ⟨hnot, hsame⟩ := h.loading hp
    refine ⟨fun hu => ?_, by rw [hmain, hrealm hp, hsame]⟩
    rw [htasks] at hu
    exact hnot (List.mem_of_mem_erase hu)

theorem tasksKept_of_reaches (h : (App.machine P).Reaches es s) : TasksKept s := by
  refine StepMachine.Reaches.invariant (M := App.machine P) (I := fun _ s => TasksKept s)
    ⟨List.nodup_nil, nofun, nofun⟩ (fun es s e s' _ hI hstep => ?_) h
  have hlast := hstep
  cases App.appStep_of_step hstep with
  | launch now tasks mainQueue =>
    have htasks := tasks_launch hlast
    rw [filterMap_request_fetchCurrencyListData] at htasks
    replace htasks : tasks = _ := htasks
    have hmem : ∀ url ∈ tasks, url = currencyListURL := fun url hurl => by
      rw [htasks, List.mem_ite_nil_right, List.mem_singleton] at hurl
      exact hurl.2
    refine ⟨?_, fun url hurl => Or.inl (hmem url hurl), fun _ => ⟨fun hurl => ?_, rfl⟩⟩
    · show tasks.Nodup
      rw [htasks]
      split <;> simp
    · exact currencyListURL_ne_rateURL (hmem rateURL hurl).symm
  | finishViewDidLoad now hphase tasks mainQueue =>
    have htasks := tasks_finishViewDidLoad hlast
    rw [filterMap_request_fetchRateData] at htasks
    replace htasks : s.tasks ++ tasks = s.tasks ++ _ := htasks
    rw [List.append_cancel_left_eq] at htasks
    have hmem : ∀ url ∈ tasks, url = rateURL := fun url hurl => by
      rw [htasks, List.mem_ite_nil_right, List.mem_singleton] at hurl
      exact hurl.2
    have hnodup : tasks.Nodup := by
      rw [htasks]
      split <;> simp
    obtain ⟨hnot, -⟩ := hI.loading hphase
    refine ⟨List.nodup_append.mpr ⟨hI.nodup, hnodup, fun a ha b hb hab => ?_⟩,
      fun url hurl => ?_, nofun⟩
    · rw [hab, hmem b hb] at ha
      exact hnot ha
    · exact (List.mem_append.mp hurl).elim (hI.known url) fun hurl => Or.inr (hmem url hurl)
  | viewWillAppear hphase => exact ⟨hI.nodup, hI.known, nofun⟩
  | currencyListFailed now htask => exact hI.erase rfl rfl rfl fun _ => rfl
  | currencyListSaved data now htask response realm hsaved =>
    exact hI.erase rfl rfl rfl fun _ => hsaved.exchangeRateData
  | rateFailed now htask => exact hI.erase rfl rfl rfl fun _ => rfl
  | ratesSaved data now htask response realm hsaved =>
    exact hI.erase rfl rfl rfl fun hp => absurd htask (hI.loading hp).1
  | refresh => exact ⟨hI.nodup, hI.known, fun hp => ⟨(hI.loading hp).1, rfl⟩⟩
  | tapExchange => exact ⟨hI.nodup, hI.known, fun hp => ⟨(hI.loading hp).1, rfl⟩⟩
  | tapRow => exact ⟨hI.nodup, hI.known, fun hp => ⟨(hI.loading hp).1, rfl⟩⟩
  | _ => exact ⟨hI.nodup, hI.known, hI.loading⟩

end ExchangeRate
