import ExchangeRate.Conversion
import ExchangeRate.Search
import ExchangeRate.StoreRefinement

/-!
# The enumeration of dictionaries does not matter

Swift enumerates a dictionary in an order that changes from launch to launch, and
the two saves store rows in that order. This file runs the same calls twice, side by
side, the payloads being enumerated in one order in the one run and in another in the
other (`ExchangeRate.SameCall`).

The two stores are not equal: their rows have different keys and stand in different
orders. They have the same contents (`ExchangeRate.SameContents`), which every call
keeps, and what the application shows depends on nothing else: a search sorts by a key
that is unique, a conversion looks rates up by a key that is unique, and the arrays of
the cached paths are permutations of each other.
-/

namespace ExchangeRate

variable {P P' : Platform} {realm realm' realm₁ realm₁' : Realm}

/-- The same platform with another reader of bodies, and so another order of enumeration. -/
def Platform.withJson (P : Platform) (json : Data → Option Json) : Platform := { P with json }

/-! ### Two enumerations of one payload -/

/-- The responses differ in the order of the currencies only. -/
structure CurrencyListResponse.SameContents (response response' : CurrencyListResponse) : Prop where
  success : response.success = response'.success
  currencies : response.currencies.entries.Perm response'.currencies.entries

/-- The responses differ in the order of the quotes only. -/
structure RateListResponse.SameContents (response response' : RateListResponse) : Prop where
  success : response.success = response'.success
  timestamp : response.timestamp = response'.timestamp
  source : response.source = response'.source
  quotes : response.quotes.entries.Perm response'.quotes.entries

theorem CurrencyListResponse.SameContents.toCurrencies {response response' : CurrencyListResponse}
    (h : response.SameContents response') : response.toCurrencies.Perm response'.toCurrencies :=
  h.currencies.map _

theorem RateListResponse.SameContents.toRates {response response' : RateListResponse}
    (h : response.SameContents response') : response.toRates.Perm response'.toRates :=
  h.quotes.map _

/-- **The same call in two runs**, whose payloads are enumerated in different orders. -/
inductive SameCall : StoreOp P → StoreOp P' → Prop
  | setDefaultUserPreferenceData :
    SameCall .setDefaultUserPreferenceData .setDefaultUserPreferenceData
  | setUserPreferenceData (fromCurrency toCUrrency : Option String) :
    SameCall (.setUserPreferenceData fromCurrency toCUrrency)
      (.setUserPreferenceData fromCurrency toCUrrency)
  | saveSelectedItem (currency : Currency) (isFromCurrency : Bool) :
    SameCall (.saveSelectedItem currency isFromCurrency) (.saveSelectedItem currency isFromCurrency)
  | exchangeCurrency : SameCall .exchangeCurrency .exchangeCurrency
  | saveCurrencyData {payload : CurrencyListPayload P} {payload' : CurrencyListPayload P'}
    (h : payload.response.SameContents payload'.response) (now : Date) :
    SameCall (.saveCurrencyData payload now) (.saveCurrencyData payload' now)
  | saveRateData {payload : RateListPayload P} {payload' : RateListPayload P'}
    (h : payload.response.SameContents payload'.response) (now : Date) :
    SameCall (.saveRateData payload now) (.saveRateData payload' now)

/-! ### Stores with the same contents -/

/-- Two records of currencies, of the same time and with lists that read back the same. -/
def SameCurrencyData (t t' : ObjectTable Currency) (d d' : CurrencyData ObjKey) : Prop :=
  d.savedAt = d'.savedAt ∧ (t.resolve d.currencies).Perm (t'.resolve d'.currencies)

/-- Two records of rates, alike but for the order of their lists. -/
def SameExchangeRateData (t t' : ObjectTable Rate) (d d' : ExchangeRateData ObjKey) : Prop :=
  d.savedAt = d'.savedAt ∧ d.timestamp = d'.timestamp ∧ d.source = d'.source ∧
    (t.resolve d.quotes).Perm (t'.resolve d'.quotes)

/-- **The stores have the same contents**: the same preferences; the same currencies and the
same rates, in some order; and the same records, one by one. -/
structure SameContents (realm realm' : Realm) : Prop where
  userPreferenceData : realm.userPreferenceData.objects = realm'.userPreferenceData.objects
  currency : realm.currency.objects.Perm realm'.currency.objects
  currencyData : List.Forall₂ (SameCurrencyData realm.currency realm'.currency)
    realm.currencyData.objects realm'.currencyData.objects
  rate : realm.rate.objects.Perm realm'.rate.objects
  exchangeRateData : List.Forall₂ (SameExchangeRateData realm.rate realm'.rate)
    realm.exchangeRateData.objects realm'.exchangeRateData.objects

theorem SameContents.refl (realm : Realm) : SameContents realm realm where
  userPreferenceData := .refl _
  currency := .refl _
  currencyData := List.forall₂_same.mpr fun _ _ => ⟨.refl _, .refl _⟩
  rate := .refl _
  exchangeRateData := List.forall₂_same.mpr fun _ _ => ⟨.refl _, .refl _, .refl _, .refl _⟩

/-- Calls that touch the preferences only keep the contents the same, when they do the same to
the preferences. -/
theorem SameContents.onlyPreferences (h : SameContents realm realm')
    (hpref : OnlyPreferences realm realm₁) (hpref' : OnlyPreferences realm' realm₁')
    (hobjects : realm₁.userPreferenceData.objects = realm₁'.userPreferenceData.objects) :
    SameContents realm₁ realm₁' := by
  refine ⟨hobjects, ?_, ?_, ?_, ?_⟩
  · rw [hpref.currency, hpref'.currency]
    exact h.currency
  · rw [hpref.currency, hpref'.currency, hpref.currencyData, hpref'.currencyData]
    exact h.currencyData
  · rw [hpref.rate, hpref'.rate]
    exact h.rate
  · rw [hpref.rate, hpref'.rate, hpref.exchangeRateData, hpref'.exchangeRateData]
    exact h.exchangeRateData

/-- **A save of currencies keeps the contents the same.** -/
theorem SameContents.currenciesSaved {response response' : CurrencyListResponse} {now : Date}
    (h : SameContents realm realm') (hresponse : response.SameContents response')
    (hsaved : CurrenciesSaved realm response now realm₁)
    (hsaved' : CurrenciesSaved realm' response' now realm₁') : SameContents realm₁ realm₁' := by
  refine ⟨?_, ?_, ?_, ?_, ?_⟩
  · rw [hsaved.userPreferenceData, hsaved'.userPreferenceData]
    exact h.userPreferenceData
  · rw [hsaved.currency_objects, hsaved'.currency_objects]
    exact hresponse.toCurrencies
  · rw [hsaved.currencyData, hsaved'.currencyData]
    simp only [ObjectTable.objects_insert, ObjectTable.objects_mapObjects]
    refine List.rel_append ?_ (List.Forall₂.cons ⟨rfl, ?_⟩ List.Forall₂.nil)
    · -- the records of before have lost their lists in both stores
      rw [List.forall₂_map_left_iff, List.forall₂_map_right_iff]
      exact List.Forall₂.imp (fun d d' hd => ⟨hd.1, .refl _⟩) h.currencyData
    · have hlist := hsaved.currenciesOf
      have hlist' := hsaved'.currenciesOf
      rw [Realm.currenciesOf] at hlist hlist'
      rw [hlist, hlist']
      exact hresponse.toCurrencies
  · rw [hsaved.rate, hsaved'.rate]
    exact h.rate
  · rw [hsaved.rate, hsaved'.rate, hsaved.exchangeRateData, hsaved'.exchangeRateData]
    exact h.exchangeRateData

/-- **A save of rates keeps the contents the same.** -/
theorem SameContents.ratesSaved {response response' : RateListResponse} {now : Date}
    (h : SameContents realm realm') (hresponse : response.SameContents response')
    (hsaved : RatesSaved realm response now realm₁)
    (hsaved' : RatesSaved realm' response' now realm₁') : SameContents realm₁ realm₁' := by
  have hrate : realm₁.rate.objects.Perm realm₁'.rate.objects := by
    rw [hsaved.rate_objects, hsaved'.rate_objects]
    exact hresponse.toRates
  refine ⟨?_, ?_, ?_, hrate, ?_⟩
  · rw [hsaved.userPreferenceData, hsaved'.userPreferenceData]
    exact h.userPreferenceData
  · rw [hsaved.currency, hsaved'.currency]
    exact h.currency
  · rw [hsaved.currency, hsaved'.currency, hsaved.currencyData, hsaved'.currencyData]
    exact h.currencyData
  · rw [hsaved.exchangeRateData_objects, hsaved'.exchangeRateData_objects]
    refine List.Forall₂.cons ⟨rfl, hresponse.timestamp, hresponse.source, ?_⟩ List.Forall₂.nil
    rw [ObjectTable.resolve_keys, ObjectTable.resolve_keys]
    exact hrate

/-- **One call, in two runs**: both succeed, and the contents stay the same. -/
theorem SameContents.step (h : SameContents realm realm') {op : StoreOp P} {op' : StoreOp P'}
    (hop : SameCall op op') : ∃ realm₁ realm₁', StoreOp.step realm op = .ok realm₁ ∧
      StoreOp.step realm' op' = .ok realm₁' ∧ SameContents realm₁ realm₁' := by
  cases hop with
  | setDefaultUserPreferenceData =>
    exact ⟨_, _, rfl, rfl, h.onlyPreferences (onlyPreferences_setDefault realm)
      (onlyPreferences_setDefault realm') rfl⟩
  | setUserPreferenceData fromCurrency toCUrrency =>
    refine ⟨_, _, rfl, rfl, h.onlyPreferences (onlyPreferences_set realm _ _)
      (onlyPreferences_set realm' _ _) ?_⟩
    rw [objects_set, objects_set, h.userPreferenceData]
  | saveSelectedItem currency isFromCurrency =>
    obtain ⟨realm₁, hstep, hobjects⟩ := saveSelectedItem_of_read
      (show realm.read (.unmanaged currency) = .ok currency from rfl) isFromCurrency
    obtain ⟨realm₁', hstep', hobjects'⟩ := saveSelectedItem_of_read
      (show realm'.read (.unmanaged currency) = .ok currency from rfl) isFromCurrency
    refine ⟨realm₁, realm₁', hstep, hstep', h.onlyPreferences (onlyPreferences_select hstep)
      (onlyPreferences_select hstep') ?_⟩
    rw [hobjects, hobjects', h.userPreferenceData]
  | exchangeCurrency =>
    refine ⟨_, _, rfl, rfl, h.onlyPreferences (onlyPreferences_exchange realm)
      (onlyPreferences_exchange realm') ?_⟩
    rw [objects_exchange, objects_exchange, h.userPreferenceData]
  | saveCurrencyData hresponse now =>
    obtain ⟨realm₁, hstep, hsaved⟩ := CurrencyListPayload.step_saved _ now realm
    obtain ⟨realm₁', hstep', hsaved'⟩ := CurrencyListPayload.step_saved _ now realm'
    exact ⟨realm₁, realm₁', hstep, hstep', h.currenciesSaved hresponse hsaved hsaved'⟩
  | saveRateData hresponse now =>
    obtain ⟨realm₁, hstep, hsaved⟩ := RateListPayload.step_saved _ now realm
    obtain ⟨realm₁', hstep', hsaved'⟩ := RateListPayload.step_saved _ now realm'
    exact ⟨realm₁, realm₁', hstep, hstep', h.ratesSaved hresponse hsaved hsaved'⟩

/-! ### What the application shows of the contents -/

/-- **A search shows the same currencies in the same order.** -/
theorem SameContents.map_getCurrencyListFromDB (h : SameContents realm realm') (P : Platform)
    (w : String) :
    (getCurrencyListFromDB P realm w).map Prod.snd =
      (getCurrencyListFromDB P realm' w).map Prod.snd := by
  have hnodup : ((realm.currency.objects.filter (P.matchesWord w)).map Currency.code).Nodup :=
    realm.currency_nodup.sublist (List.filter_sublist.map Currency.code)
  rw [ExchangeRate.map_getCurrencyListFromDB, ExchangeRate.map_getCurrencyListFromDB]
  exact Collation.sortBy_eq_of_perm hnodup (h.currency.filter _)

/-- A lookup by code finds the same rate. -/
theorem SameContents.rateOf (h : SameContents realm realm') : realm.rateOf = realm'.rateOf := by
  funext code
  refine Option.ext fun rate => ?_
  rw [Realm.rateOf_eq_some_iff, Realm.rateOf_eq_some_iff, h.rate.mem_iff]

/-- **A calculation gives the same result.** -/
theorem SameContents.calcurate (h : SameContents realm realm') (amount : ℤ) :
    calcurate realm amount = calcurate realm' amount := by
  have hpref : realm.userPreferenceData.first = realm'.userPreferenceData.first := by
    rw [ObjectTable.first, ObjectTable.first, h.userPreferenceData]
  have hsource : realm.exchangeRateData.first.map ExchangeRateData.source =
      realm'.exchangeRateData.first.map ExchangeRateData.source := by
    have hrecords := h.exchangeRateData
    rw [ObjectTable.first, ObjectTable.first]
    generalize realm.exchangeRateData.objects = l at hrecords ⊢
    generalize realm'.exchangeRateData.objects = l' at hrecords ⊢
    cases hrecords with
    | nil => rfl
    | cons hd _ => rw [List.head?_cons, List.head?_cons, Option.map_some, Option.map_some, hd.2.2.1]
  exact calcurate_congr hpref hsource h.rateOf amount

/-- Two outputs that differ at most in the order of an array. -/
inductive SameOutput : TopOutput → TopOutput → Prop
  | gotCurrencyList {data data' : List Currency} (h : data.Perm data') :
    SameOutput (.gotCurrencyList data) (.gotCurrencyList data')
  | gotRateList {data data' : List Rate} (h : data.Perm data') :
    SameOutput (.gotRateList data) (.gotRateList data')
  | refl (output : TopOutput) : SameOutput output output

/-- A fetch answers alike when the records are of the same time and deliver alike. -/
theorem sameOutput_fetchData {α : Type} {R : α → α → Prop} {savedAt : α → Option Date}
    {deliver deliver' : α → TopOutput} {path : String} {now : Date} {l l' : List α}
    (hl : List.Forall₂ R l l') (hdate : ∀ d d', R d d' → savedAt d = savedAt d')
    (hdeliver : ∀ d d', R d d' → SameOutput (deliver d) (deliver' d')) :
    List.Forall₂ SameOutput (fetchData l.head? savedAt deliver path now)
      (fetchData l'.head? savedAt deliver' path now) := by
  have hrefl : ∀ outputs, List.Forall₂ SameOutput outputs outputs := fun outputs =>
    List.forall₂_same.mpr fun output _ => SameOutput.refl output
  cases hl with
  | nil => exact hrefl _
  | cons hd _ =>
    simp only [List.head?_cons, fetchData, ← hdate _ _ hd]
    split
    · split_ifs
      · exact List.Forall₂.cons (hdeliver _ _ hd) List.Forall₂.nil
      · exact hrefl _
    · exact hrefl _

theorem SameContents.fetchCurrencyListData (h : SameContents realm realm') (now : Date) :
    List.Forall₂ SameOutput (fetchCurrencyListData realm now) (fetchCurrencyListData realm' now) :=
  sameOutput_fetchData h.currencyData (fun _ _ hd => hd.1) fun _ _ hd => .gotCurrencyList hd.2

theorem SameContents.fetchRateData (h : SameContents realm realm') (now : Date) :
    List.Forall₂ SameOutput (fetchRateData realm now) (fetchRateData realm' now) :=
  sameOutput_fetchData h.exchangeRateData (fun _ _ hd => hd.1) fun _ _ hd => .gotRateList hd.2.2.2

/-! ### Two runs -/

/-- **The application shows the same over the two stores**, each read by its own platform: the
same list for every word, the same result for every pair of preferences and every amount, and
from the caches the same arrays up to order. -/
structure SameResults (P P' : Platform) (realm realm' : Realm) : Prop where
  list : ∀ w, (getCurrencyListFromDB P realm w).map Prod.snd =
    (getCurrencyListFromDB P' realm' w).map Prod.snd
  calculation : ∀ realm₁ realm₁' amount, OnlyPreferences realm realm₁ →
    OnlyPreferences realm' realm₁' →
    realm₁.userPreferenceData.objects = realm₁'.userPreferenceData.objects →
    calcurate realm₁ amount = calcurate realm₁' amount
  currencyCache : ∀ now,
    List.Forall₂ SameOutput (fetchCurrencyListData realm now) (fetchCurrencyListData realm' now)
  rateCache : ∀ now, List.Forall₂ SameOutput (fetchRateData realm now) (fetchRateData realm' now)

/-- **The order of enumeration does not matter**: over every store, every sequence of calls
succeeds in either order of enumeration, and the application then shows the same. -/
theorem enumeration_irrelevant (P : Platform) (json : Data → Option Json) (realm : Realm)
    {ops : List (StoreOp P)} {ops' : List (StoreOp (P.withJson json))}
    (hops : List.Forall₂ SameCall ops ops') :
    ∃ realm₁ realm₁', RegisterBank.run StoreOp.step realm ops = .ok realm₁ ∧
      RegisterBank.run StoreOp.step realm ops' = .ok realm₁' ∧
      SameResults P (P.withJson json) realm₁ realm₁' := by
  obtain ⟨realm₁, realm₁', hrun, hrun', h⟩ := RegisterBank.run_related (R := SameContents)
    (S := SameCall) (fun _ _ _ _ hs hop => hs.step hop) hops (SameContents.refl realm)
  exact ⟨realm₁, realm₁', hrun, hrun', h.map_getCurrencyListFromDB P,
    fun _ _ amount hpref hpref' hobjects =>
      (h.onlyPreferences hpref hpref' hobjects).calcurate amount,
    h.fetchCurrencyListData, h.fetchRateData⟩

/-! ### A run in two enumerations -/

/-- The values of the two bodies, with the entries of both dictionaries the other way round. -/
def reversedJson : Data → Option Json :=
  (Platform.us
    [(currencyListBody, .object [("success", .bool true),
      ("currencies", .object [("AFN", .string "Afghan Afghani"),
        ("AED", .string "United Arab Emirates Dirham")])]),
    (rateBody, .object [("success", .bool true), ("timestamp", .number 1588782907),
      ("source", .string "USD"),
      ("quotes", .object [("USDJPY", .number (213 / 2)), ("USDUSD", .number 1)])])]).json

/-- A payload of currencies, as it is enumerated with the bodies' own order. -/
def currencyListPayload : CurrencyListPayload Platform.sample :=
  ⟨currencyListBody, _, decode_currencyListBody⟩

/-- The same payload, the other way round. -/
def currencyListPayload' : CurrencyListPayload (Platform.sample.withJson reversedJson) where
  data := currencyListBody
  response :=
    ⟨true, [("AFN", "Afghan Afghani"), ("AED", "United Arab Emirates Dirham")], by decide⟩
  decodes := by
    rw [CurrencyListResponse.decode, Platform.withJson, reversedJson, Platform.us]
    simp only [List.lookup_cons, beq_self_eq_true]
    rfl

/-- A payload of rates. -/
def rateListPayload : RateListPayload Platform.sample := ⟨rateBody, _, decode_rateBody⟩

/-- The same payload, the other way round. -/
def rateListPayload' : RateListPayload (Platform.sample.withJson reversedJson) where
  data := rateBody
  response := ⟨true, 1588782907, "USD", [("USDJPY", 213 / 2), ("USDUSD", 1)], by decide⟩
  decodes := by
    have hne : (rateBody == currencyListBody) = false := by decide +kernel
    rw [RateListResponse.decode, Platform.withJson, reversedJson, Platform.us]
    simp only [List.lookup_cons, hne, beq_self_eq_true]
    rfl

/-- Both saves, over an empty store. -/
theorem enumeration_irrelevant_sample : ∃ realm₁ realm₁',
    RegisterBank.run StoreOp.step Realm.empty
      [.saveCurrencyData currencyListPayload 0, .saveRateData rateListPayload 1] = .ok realm₁ ∧
    RegisterBank.run StoreOp.step Realm.empty
      [.saveCurrencyData currencyListPayload' 0, .saveRateData rateListPayload' 1] = .ok realm₁' ∧
    SameResults Platform.sample (Platform.sample.withJson reversedJson) realm₁ realm₁' := by
  have hcurrencies : currencyListPayload.response.SameContents currencyListPayload'.response :=
    ⟨rfl, List.Perm.swap ..⟩
  have hrates : rateListPayload.response.SameContents rateListPayload'.response :=
    ⟨rfl, rfl, rfl, List.Perm.swap ..⟩
  exact enumeration_irrelevant Platform.sample reversedJson Realm.empty
    (.cons (.saveCurrencyData hcurrencies 0) (.cons (.saveRateData hrates 1) .nil))

end ExchangeRate
