import ExchangeRate.TopInteractor
import ExchangeRate.CurrencyListInteractor

/-!
# What each write block commits

One statement for each function that writes, giving the five tables after it in
terms of the five tables before. Everything later is derived from these, and no
later proof looks inside a write block again.

The preference functions touch one table, which is
`ExchangeRate.OnlyPreferences`. The two saves are described by
`ExchangeRate.CurrenciesSaved` and `ExchangeRate.RatesSaved`; they succeed on every
decodable body and from every store (`ExchangeRate.saveCurrencyData_of_decode`,
`ExchangeRate.saveRateData_of_decode`), since the block empties the table of the
class with the primary key before it adds to it, and the keys of a dictionary are
distinct.
-/

namespace ExchangeRate

variable {P : Platform} {realm realm' : Realm} {data : Data} {now : Date}

/-! ### The objects a save builds -/

theorem CurrencyListResponse.map_code_toCurrencies (response : CurrencyListResponse) :
    response.toCurrencies.map Currency.code = response.currencies.keys := by
  simp [toCurrencies, Dictionary.keys]

theorem RateListResponse.map_code_toRates (response : RateListResponse) :
    response.toRates.map Rate.code = response.quotes.keys := by
  simp [toRates, Dictionary.keys]

/-- The currencies are the entries of the dictionary, each once. -/
theorem CurrencyListResponse.map_pair_toCurrencies (response : CurrencyListResponse) :
    response.toCurrencies.map (fun c => (c.code, c.fullname)) = response.currencies.entries := by
  simp [toCurrencies, Function.comp_def]

/-- The rates are the entries of the dictionary, each once. -/
theorem RateListResponse.map_pair_toRates (response : RateListResponse) :
    response.toRates.map (fun r => (r.code, r.rate)) = response.quotes.entries := by
  simp [toRates, Function.comp_def]

/-! ### Preferences -/

/-- **Only the preferences change**: the other four tables are the same before and after. -/
structure OnlyPreferences (realm realm' : Realm) : Prop where
  currency : realm'.currency = realm.currency
  currencyData : realm'.currencyData = realm.currencyData
  rate : realm'.rate = realm.rate
  exchangeRateData : realm'.exchangeRateData = realm.exchangeRateData

theorem OnlyPreferences.refl : OnlyPreferences realm realm := ⟨.refl _, .refl _, .refl _, .refl _⟩

theorem OnlyPreferences.trans {realm'' : Realm} (h : OnlyPreferences realm realm')
    (h' : OnlyPreferences realm' realm'') : OnlyPreferences realm realm'' :=
  ⟨h'.currency.trans h.currency, h'.currencyData.trans h.currencyData, h'.rate.trans h.rate,
    h'.exchangeRateData.trans h.exchangeRateData⟩

theorem onlyPreferences_setDefault (realm : Realm) :
    OnlyPreferences realm (setDefaultUserPreferenceData realm) := ⟨rfl, rfl, rfl, rfl⟩

theorem onlyPreferences_set (realm : Realm) (fromCurrency toCUrrency : Option String) :
    OnlyPreferences realm (setUserPreferenceData realm fromCurrency toCUrrency) :=
  ⟨rfl, rfl, rfl, rfl⟩

theorem onlyPreferences_exchange (realm : Realm) :
    OnlyPreferences realm (exchangeCurrency realm).1 := by
  unfold exchangeCurrency
  cases realm.userPreferenceData.first with
  | none => exact OnlyPreferences.refl
  | some u => exact onlyPreferences_set realm _ _

theorem onlyPreferences_select {accessor : Realm.CurrencyAccessor} {isFromCurrency : Bool}
    (h : saveSelectedItem realm accessor isFromCurrency = .ok realm') :
    OnlyPreferences realm realm' := by
  unfold saveSelectedItem at h
  cases hu : realm.userPreferenceData.first with
  | none =>
    rw [hu] at h
    cases h
    exact OnlyPreferences.refl
  | some u =>
    rw [hu] at h
    cases hr : realm.read accessor with
    | error trap =>
      rw [hr] at h
      cases h
    | ok c =>
      rw [hr] at h
      cases h
      exact ⟨.refl _, .refl _, .refl _, .refl _⟩

@[simp] theorem objects_setDefault (realm : Realm) :
    (setDefaultUserPreferenceData realm).userPreferenceData.objects =
      [⟨Define.defaultFromCurrency, Define.defaultToCurrency⟩] := rfl

@[simp] theorem objects_set (realm : Realm) (fromCurrency toCUrrency : Option String) :
    (setUserPreferenceData realm fromCurrency toCUrrency).userPreferenceData.objects =
      realm.userPreferenceData.objects.modifyHead fun u =>
        ⟨fromCurrency.getD u.fromCurrency, toCUrrency.getD u.toCurrency⟩ := by
  simp [setUserPreferenceData, Realm.modifyUserPreferenceData]

/-- The swap, seen on the table: the first record has its two codes exchanged. -/
theorem objects_exchange (realm : Realm) :
    (exchangeCurrency realm).1.userPreferenceData.objects =
      realm.userPreferenceData.objects.modifyHead fun u => ⟨u.toCurrency, u.fromCurrency⟩ := by
  unfold exchangeCurrency ObjectTable.first
  cases hl : realm.userPreferenceData.objects with
  | nil => simp [hl]
  | cons u l => simp [hl]

/-- A selection whose accessor reads back a currency rewrites one side of the first record. -/
theorem saveSelectedItem_of_read {accessor : Realm.CurrencyAccessor} {c : Currency}
    (hread : realm.read accessor = .ok c) (isFromCurrency : Bool) :
    ∃ realm', saveSelectedItem realm accessor isFromCurrency = .ok realm' ∧
      realm'.userPreferenceData.objects = realm.userPreferenceData.objects.modifyHead fun u =>
        if isFromCurrency then { u with fromCurrency := c.code }
        else { u with toCurrency := c.code } := by
  unfold saveSelectedItem
  cases hl : realm.userPreferenceData.objects with
  | nil =>
    refine ⟨realm, ?_, hl⟩
    rw [ObjectTable.first_eq_none_iff.mpr hl]
  | cons u l =>
    rw [ObjectTable.first_eq_some_of_objects hl, hread]
    refine ⟨_, rfl, ?_⟩
    rw [Realm.modifyUserPreferenceData, ObjectTable.objects_modifyFirst, hl]

/-! ### The currency list -/

/-- **What `saveCurrencyData` commits**: the currencies are those of the response, under new
keys; every record of before is still there, with an empty list; and a new record comes
last, whose list holds the new currencies. -/
structure CurrenciesSaved (realm : Realm) (response : CurrencyListResponse) (now : Date)
    (realm' : Realm) : Prop where
  userPreferenceData : realm'.userPreferenceData = realm.userPreferenceData
  rate : realm'.rate = realm.rate
  exchangeRateData : realm'.exchangeRateData = realm.exchangeRateData
  currency : realm'.currency = realm.currency.clear.insertAll response.toCurrencies
  currencyData : realm'.currencyData =
    (realm.currencyData.mapObjects fun d => { d with currencies := [] }).insert
      ⟨some now, realm.currency.freshKeys response.toCurrencies⟩

theorem CurrenciesSaved.currency_objects {response : CurrencyListResponse}
    (h : CurrenciesSaved realm response now realm') :
    realm'.currency.objects = response.toCurrencies := by
  rw [h.currency, ObjectTable.objects_insertAll, ObjectTable.objects_clear, List.nil_append]

/-- A lookup by code finds the full name the response gives for the code. -/
theorem CurrenciesSaved.fullnameOf {response : CurrencyListResponse}
    (h : CurrenciesSaved realm response now realm') (code : String) :
    realm'.fullnameOf code = response.currencies.lookup code := by
  rw [Realm.fullnameOf_eq_lookup, h.currency_objects, response.map_pair_toCurrencies,
    Dictionary.lookup]

/-- The list of the new record reads back the currencies of the response. -/
theorem CurrenciesSaved.currenciesOf {response : CurrencyListResponse}
    (h : CurrenciesSaved realm response now realm') :
    realm'.currenciesOf ⟨some now, realm.currency.freshKeys response.toCurrencies⟩ =
      response.toCurrencies := by
  rw [Realm.currenciesOf, h.currency]
  exact ObjectTable.resolve_freshKeys realm.currency.clear response.toCurrencies

/-- **A decodable currency list is saved**, over every store. -/
theorem saveCurrencyData_of_decode {response : CurrencyListResponse}
    (hdec : CurrencyListResponse.decode P data = some response) (now : Date) (realm : Realm) :
    ∃ realm', saveCurrencyData P data now realm = .ok (realm', realm.currencyData.next) ∧
      CurrenciesSaved realm response now realm' := by
  -- the table is empty when the currencies are added, so only their own codes could clash
  have hnodup : ((realm.deleteCurrency.currency.objects ++ response.toCurrencies).map
      Currency.code).Nodup := by
    rw [show realm.deleteCurrency.currency.objects = [] from rfl, List.nil_append,
      response.map_code_toCurrencies]
    exact response.currencies.nodup
  obtain ⟨realm', hadd, hu, hr, he, hc, hd⟩ := Realm.addCurrencyData_of_nodup
    (d := { savedAt := some now, currencies := response.toCurrencies }) hnodup
  refine ⟨realm', ?_, hu, hr, he, hc, ?_⟩
  · simp only [saveCurrencyData, hdec, hadd]
    rfl
  · rw [hd, Realm.deleteCurrency_currencyData]
    rfl

/-- **`saveCurrencyData` traps on a body that does not decode, and on no other**; from every
store, a body that decodes is saved. -/
theorem saveCurrencyData_cases (P : Platform) (data : Data) (now : Date) (realm : Realm) :
    (CurrencyListResponse.decode P data = none ∧
      saveCurrencyData P data now realm = .error .decoding) ∨
    ∃ response realm', CurrencyListResponse.decode P data = some response ∧
      saveCurrencyData P data now realm = .ok (realm', realm.currencyData.next) ∧
      CurrenciesSaved realm response now realm' := by
  cases hdec : CurrencyListResponse.decode P data with
  | none => exact Or.inl ⟨rfl, by rw [saveCurrencyData, hdec]⟩
  | some response =>
    obtain ⟨realm', hsave, hsaved⟩ := saveCurrencyData_of_decode hdec now realm
    exact Or.inr ⟨response, realm', rfl, hsave, hsaved⟩

/-- The completion handler of the currency list request, on a body that decodes: it commits
the save and delivers the currencies of the response. -/
theorem currencyListCompletion_cases (P : Platform) (data : Data) (now : Date) (realm : Realm) :
    (CurrencyListResponse.decode P data = none ∧
      currencyListCompletion P (some data) now realm = .error .decoding) ∨
    ∃ response realm', CurrencyListResponse.decode P data = some response ∧
      currencyListCompletion P (some data) now realm =
        .ok (realm', [.gotCurrencyList response.toCurrencies]) ∧
      CurrenciesSaved realm response now realm' := by
  rcases saveCurrencyData_cases P data now realm with ⟨hdec, hsave⟩ |
    ⟨response, realm', hdec, hsave, hsaved⟩
  · exact Or.inl ⟨hdec, by rw [currencyListCompletion, hsave]⟩
  · -- what is delivered is read back through the row that was added
    refine Or.inr ⟨response, realm', hdec, ?_, hsaved⟩
    have hget : realm'.currencyData.get realm.currencyData.next =
        some ⟨some now, realm.currency.freshKeys response.toCurrencies⟩ := by
      rw [hsaved.currencyData]
      exact ObjectTable.get_insert_next _ _
    simp only [currencyListCompletion, hsave, hget, Option.elim_some, hsaved.currenciesOf]

/-! ### The rates -/

/-- **What `saveRateData` commits**: one record of rates, with the timestamp and the source
of the response, whose list holds all rates of the store – those of the response. -/
structure RatesSaved (realm : Realm) (response : RateListResponse) (now : Date)
    (realm' : Realm) : Prop where
  userPreferenceData : realm'.userPreferenceData = realm.userPreferenceData
  currency : realm'.currency = realm.currency
  currencyData : realm'.currencyData = realm.currencyData
  rate : realm'.rate = realm.rate.clear.insertAll response.toRates
  exchangeRateData : realm'.exchangeRateData = realm.exchangeRateData.clear.insert
    ⟨response.timestamp, some now, response.source, realm.rate.freshKeys response.toRates⟩

theorem RatesSaved.rate_objects {response : RateListResponse}
    (h : RatesSaved realm response now realm') : realm'.rate.objects = response.toRates := by
  rw [h.rate, ObjectTable.objects_insertAll, ObjectTable.objects_clear, List.nil_append]

theorem RatesSaved.rate_keys {response : RateListResponse}
    (h : RatesSaved realm response now realm') :
    realm'.rate.keys = realm.rate.freshKeys response.toRates := by
  rw [h.rate, ObjectTable.keys_insertAll, ObjectTable.keys_clear, List.nil_append,
    ObjectTable.freshKeys_clear]

theorem RatesSaved.exchangeRateData_objects {response : RateListResponse}
    (h : RatesSaved realm response now realm') :
    realm'.exchangeRateData.objects =
      [⟨response.timestamp, some now, response.source, realm'.rate.keys⟩] := by
  rw [h.exchangeRateData, ObjectTable.objects_insert, ObjectTable.objects_clear, List.nil_append,
    h.rate_keys]

/-- **A lookup by code finds the rate the response gives for the code.** -/
theorem RatesSaved.rateOf {response : RateListResponse}
    (h : RatesSaved realm response now realm') (code : String) :
    realm'.rateOf code = response.quotes.lookup code := by
  rw [Realm.rateOf_eq_lookup, h.rate_objects, response.map_pair_toRates, Dictionary.lookup]

/-- **A decodable list of rates is saved**, over every store. -/
theorem saveRateData_of_decode {response : RateListResponse}
    (hdec : RateListResponse.decode P data = some response) (now : Date) (realm : Realm) :
    ∃ realm', saveRateData P data now realm = .ok (realm', {}) ∧
      RatesSaved realm response now realm' := by
  have hnodup : ((realm.deleteExchangeRateData.deleteRate.rate.objects ++
      response.toRates).map Rate.code).Nodup := by
    rw [show realm.deleteExchangeRateData.deleteRate.rate.objects = [] from rfl,
      List.nil_append, response.map_code_toRates]
    exact response.quotes.nodup
  obtain ⟨realm', hadd, hu, hc, hd, hr, he⟩ := Realm.addExchangeRateData_of_nodup
    (d := { timestamp := response.timestamp, savedAt := some now, source := response.source,
            quotes := response.toRates }) hnodup
  refine ⟨realm', ?_, hu, hc, hd, hr, ?_⟩
  · simp only [saveRateData, hdec, hadd]
  · rw [he]
    rfl

theorem saveRateData_cases (P : Platform) (data : Data) (now : Date) (realm : Realm) :
    (RateListResponse.decode P data = none ∧
      saveRateData P data now realm = .error .decoding) ∨
    ∃ response realm', RateListResponse.decode P data = some response ∧
      saveRateData P data now realm = .ok (realm', {}) ∧
      RatesSaved realm response now realm' := by
  cases hdec : RateListResponse.decode P data with
  | none => exact Or.inl ⟨rfl, by rw [saveRateData, hdec]⟩
  | some response =>
    obtain ⟨realm', hsave, hsaved⟩ := saveRateData_of_decode hdec now realm
    exact Or.inr ⟨response, realm', rfl, hsave, hsaved⟩

/-- The completion handler of the rate request, on a body that decodes: it commits the save
and delivers the list of a record nobody filled. -/
theorem rateCompletion_cases (P : Platform) (data : Data) (now : Date) (realm : Realm) :
    (RateListResponse.decode P data = none ∧
      rateCompletion P (some data) now realm = .error .decoding) ∨
    ∃ response realm', RateListResponse.decode P data = some response ∧
      rateCompletion P (some data) now realm = .ok (realm', [.gotRateList []]) ∧
      RatesSaved realm response now realm' := by
  rcases saveRateData_cases P data now realm with ⟨hdec, hsave⟩ |
    ⟨response, realm', hdec, hsave, hsaved⟩
  · exact Or.inl ⟨hdec, by rw [rateCompletion, hsave]⟩
  · exact Or.inr ⟨response, realm', hdec, by rw [rateCompletion, hsave], hsaved⟩

end ExchangeRate
