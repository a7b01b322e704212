import ExchangeRate.AppSession
import ExchangeRate.SideBySide

/-!
# What a launch remembers

A launch is a new process, and all that is left of the one before is the store. Of the
store it resets the preferences. So two applications that have committed the same saves
show the same after a launch, and go on showing the same, whatever was selected, typed
or in flight before: of the currencies every save counts, since each left its record,
and of the rates only the last (`ExchangeRate.relaunch_forgets`).
-/

namespace ExchangeRate

variable {P : Platform} {es ds : List AppEvent} {s s' t : App}

/-! ### Stores that hold the same saves -/

/-- A record but the last one lists nothing. -/
theorem CurrencyRecords.currencies_eq_nil {saves : List (Date × CurrencyListResponse)}
    {realm : Realm} (h : CurrencyRecords saves realm) {i : ℕ}
    (hi : i < realm.currencyData.objects.length) (hnot : i + 1 < realm.currencyData.objects.length) :
    realm.currencyData.objects[i].currencies = [] := by
  have hlt : i < realm.currencyData.objects.dropLast.length := by
    rw [List.length_dropLast]
    omega
  refine h.earlier _ ?_
  rw [← List.getElem_dropLast hlt]
  exact List.getElem_mem hlt

/-- The last record lists the currencies of the last save. -/
theorem CurrencyRecords.currenciesOf_last {saves : List (Date × CurrencyListResponse)}
    {realm : Realm} (h : CurrencyRecords saves realm) {t : Date} {response : CurrencyListResponse}
    (hlast : saves.getLast? = some (t, response)) {i : ℕ}
    (hi : i < realm.currencyData.objects.length) (hnot : ¬i + 1 < realm.currencyData.objects.length) :
    realm.currenciesOf realm.currencyData.objects[i] = response.toCurrencies := by
  obtain ⟨d, hd, hlist⟩ := h.latest t response hlast
  have hi' : realm.currencyData.objects.length - 1 = i := by omega
  rw [List.getLast?_eq_getElem?, hi', List.getElem?_eq_getElem hi, Option.some.injEq] at hd
  rw [hd]
  exact hlist

/-- The records of the same saves. -/
theorem forall₂_sameCurrencyData {saves : List (Date × CurrencyListResponse)} {realm realm' : Realm}
    (h : CurrencyRecords saves realm) (h' : CurrencyRecords saves realm') :
    List.Forall₂ (SameCurrencyData realm.currency realm'.currency) realm.currencyData.objects
      realm'.currencyData.objects := by
  have hdates := h.dates.trans h'.dates.symm
  rw [← List.forall₂_eq_eq_eq, List.forall₂_map_left_iff, List.forall₂_map_right_iff,
    List.forall₂_iff_get] at hdates
  obtain ⟨hlength, hdate⟩ := hdates
  refine List.forall₂_iff_get.mpr ⟨hlength, fun i hi hi' => ⟨hdate i hi hi', ?_⟩⟩
  by_cases hbefore : i + 1 < realm.currencyData.objects.length
  · rw [List.get_eq_getElem, List.get_eq_getElem, h.currencies_eq_nil hi hbefore,
      h'.currencies_eq_nil hi' (hlength ▸ hbefore)]
    exact .refl _
  · have hne : saves ≠ [] := by
      rintro rfl
      rw [List.length_eq_zero_iff.mpr (List.map_eq_nil_iff.mp h.dates)] at hi
      exact absurd hi (Nat.not_lt_zero i)
    have hlast := List.getLast?_eq_getLast_of_ne_nil hne
    have hlist := h.currenciesOf_last hlast hi hbefore
    have hlist' := h'.currenciesOf_last hlast hi' (hlength ▸ hbefore)
    rw [Realm.currenciesOf] at hlist hlist'
    rw [List.get_eq_getElem, List.get_eq_getElem, hlist, hlist']

/-- **Two stores that hold the same saves**, and the same preferences, have the same contents. -/
theorem sameContents_of_records {saves : List (Date × CurrencyListResponse)}
    {last : Option (Date × RateListResponse)} {realm realm' : Realm}
    (h : CurrencyRecords saves realm) (h' : CurrencyRecords saves realm')
    (hcurrency : realm.currency.objects = realm'.currency.objects)
    (hr : RateRecords last realm) (hr' : RateRecords last realm')
    (hpreferences : realm.userPreferenceData.objects = realm'.userPreferenceData.objects) :
    SameContents realm realm' := by
  refine ⟨hpreferences, .of_eq hcurrency, forall₂_sameCurrencyData h h', ?_, ?_⟩
  · cases last with
    | none => rw [hr.2, hr'.2]
    | some save => rw [hr.2, hr'.2]
  · cases last with
    | none =>
      rw [hr.1, hr'.1]
      exact .nil
    | some save =>
      rw [hr.1, hr'.1]
      refine .cons ⟨rfl, rfl, rfl, ?_⟩ .nil
      rw [ObjectTable.resolve_keys, ObjectTable.resolve_keys, hr.2, hr'.2]

/-! ### After a launch -/

/-- **A launch forgets everything but what has been fetched**: two applications that have
committed the same saves of currencies and hold the same save of rates show the same after a
launch, and from then on for ever, whatever else has happened before. -/
theorem relaunch_forgets (hs : (App.machine P).Reaches es s) (ht : (App.machine P).Reaches ds t)
    (hcurrencies : App.currencySaves P es = App.currencySaves P ds)
    (hrates : (App.rateSaves P es).getLast? = (App.rateSaves P ds).getLast?) (now : Date)
    {fs : List AppEvent} (hexec : (App.machine P).exec s (.launch now :: fs) = some s') :
    ∃ t', (App.machine P).exec t (.launch now :: fs) = some t' ∧ SameScreens s' t' := by
  have hpref := onlyPreferences_setDefault s.realm
  have hpref' := onlyPreferences_setDefault t.realm
  have hsame : SameContents (setDefaultUserPreferenceData s.realm)
      (setDefaultUserPreferenceData t.realm) := by
    refine sameContents_of_records
      ((currencyRecords_of_run hs).congr hpref.currency hpref.currencyData) ?_ ?_
      ((rateRecords_of_run hs).congr hpref.rate hpref.exchangeRateData) ?_ rfl
    · rw [hcurrencies]
      exact (currencyRecords_of_run ht).congr hpref'.currency hpref'.currencyData
    · rw [hpref.currency, hpref'.currency, currencies_of_run hs, currencies_of_run ht, hcurrencies]
    · rw [hrates]
      exact (rateRecords_of_run ht).congr hpref'.rate hpref'.exchangeRateData
  have hlaunched : Alike (s.launch P now) (t.launch P now) := alike_launch (j := P.json) hsame now
  obtain ⟨t', ht', halike⟩ := StepMachine.exec_lockstep (M := App.machine P) (N := App.machine P)
    (fun _ _ _ _ e _ hs ht halike _ hstep =>
      halike.step (j := P.json) hs ht (AppEvent.SameBody.refl P e) hstep)
    ((StepMachine.reaches_concat (e := .launch now)).mpr ⟨s, hs, rfl⟩)
    ((StepMachine.reaches_concat (e := .launch now)).mpr ⟨t, ht, rfl⟩) hlaunched hexec
  exact ⟨t', ht', halike.sameScreens⟩

/-- Another launch, before the lists are out of date. -/
def launchedSoon : List AppEvent :=
  [.launch 100, .finishViewDidLoad 100, .viewWillAppear, .runMainBlock, .editText "100"]

/-- A selection of before is forgotten, and the rates are not. -/
theorem relaunch_launchedSoon : ∃ s t s' t',
    (App.machine Platform.sample).Reaches App.firstLaunch s ∧
      (App.machine Platform.sample).Reaches selectedAfterwards t ∧
      (App.machine Platform.sample).exec s launchedSoon = some s' ∧
      (App.machine Platform.sample).exec t launchedSoon = some t' ∧
      SameScreens s' t' ∧ s'.label = "10,650" ∧ s'.fromTitle = "USD" := by
  have hrun : ((App.machine Platform.sample).exec App.installed
      (App.firstLaunch ++ launchedSoon)).map (fun s => (s.label, s.fromTitle)) =
      some ("10,650", "USD") := by decide +kernel
  have hrun' : ((App.machine Platform.sample).exec App.installed selectedAfterwards).isSome =
      true := by decide +kernel
  obtain ⟨s', hs', hvalues⟩ := Option.map_eq_some_iff.mp hrun
  obtain ⟨hlabel, htitle⟩ := Prod.mk.inj hvalues
  obtain ⟨s, hs, hexec⟩ := StepMachine.reaches_append.mp hs'
  obtain ⟨t, ht⟩ := Option.isSome_iff_exists.mp hrun'
  obtain ⟨t', ht', hsame⟩ := relaunch_forgets hs ht (by rfl) (by rfl) 100 hexec
  exact ⟨s, t, s', t', hs, ht, hexec, ht', hsame, hlabel, htitle⟩

end ExchangeRate
