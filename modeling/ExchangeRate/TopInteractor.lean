import ExchangeRate.Realm

/-!
# The interactor of the Top screen

`Modules/Top/Interactor/TopInteractor.swift`, function by function. A function that
writes returns the store its write block commits; what it does besides – calls of its
output, network requests it starts – is a list of `ExchangeRate.TopOutput`. The type
of a function thus says whether it writes: the fetches and `calcurate` read a store
and leave it as it is.

The two saves are close to each other and differ in two places.
`ExchangeRate.saveCurrencyData` does not delete the `CurrencyData` of before, while
`ExchangeRate.saveRateData` does delete the `ExchangeRateData` of before; and the
former returns the record it added, while the latter returns another, empty record.
-/

namespace ExchangeRate

/-- What an interactor function does besides writing. -/
inductive TopOutput where
  | gotUserPreferenceData (userPreference : UserPreferenceData)
  | gotCurrencyList (data : List Currency)
  | gotRateList (data : List Rate)
  | gotCaluculateResult (value : ℚ)
  /-- `dataTask(with: url)` is created and resumed. -/
  | dataTask (url : URL)
  deriving DecidableEq

/-! ### Preferences -/

def setDefaultUserPreferenceData (realm : Realm) : Realm :=
  realm.deleteUserPreferenceData.addUserPreferenceData
    { fromCurrency := Define.defaultFromCurrency, toCurrency := Define.defaultToCurrency }

def setUserPreferenceData (realm : Realm) (fromCurrency toCUrrency : Option String) : Realm :=
  realm.modifyUserPreferenceData fun userPreference =>
    { fromCurrency := fromCurrency.getD userPreference.fromCurrency
      toCurrency := toCUrrency.getD userPreference.toCurrency }

def getUserPreferenceData (realm : Realm) : List TopOutput :=
  match realm.userPreferenceData.first with
  | some userPreference => [.gotUserPreferenceData userPreference]
  | none => []

/-- The two arguments of the assignment are read before the block writes. -/
def exchangeCurrency (realm : Realm) : Realm × List TopOutput :=
  match realm.userPreferenceData.first with
  | some userPreference =>
    let realm' := setUserPreferenceData realm
      (some userPreference.toCurrency) (some userPreference.fromCurrency)
    (realm', getUserPreferenceData realm')
  | none => (realm, [])

/-! ### Fetching -/

/-- The shape of the two fetches: deliver the first record when it was saved less than half
an hour ago, and otherwise start a request. -/
def fetchData {α : Type} (record : Option α) (savedAt : α → Option Date)
    (deliver : α → TopOutput) (path : String) (now : Date) : List TopOutput :=
  let request : List TopOutput :=
    match URL.ofString path with
    | some url => [.dataTask url]
    | none => []
  match record with
  | some d =>
    match savedAt d with
    | some t => if now - t < 60 * 30 then [deliver d] else request
    | none => request
  | none => request

def fetchCurrencyListData (realm : Realm) (now : Date) : List TopOutput :=
  fetchData realm.currencyData.first CurrencyData.savedAt
    (fun currencyData => .gotCurrencyList (realm.currenciesOf currencyData))
    Define.getCurrencyListAPIPath now

def fetchRateData (realm : Realm) (now : Date) : List TopOutput :=
  fetchData realm.exchangeRateData.first ExchangeRateData.savedAt
    (fun exchangeRateData => .gotRateList (realm.quotesOf exchangeRateData))
    Define.getRateAPIPath now

/-! ### Saving -/

/-- The currencies `saveCurrencyData` builds, one for each entry of the dictionary. -/
def CurrencyListResponse.toCurrencies (response : CurrencyListResponse) : List Currency :=
  response.currencies.entries.map fun currencyDic =>
    { code := currencyDic.1, fullname := currencyDic.2 }

/-- The rates `saveRateData` builds, one for each entry of the dictionary. -/
def RateListResponse.toRates (response : RateListResponse) : List Rate :=
  response.quotes.entries.map fun rateDic => { code := rateDic.1, rate := rateDic.2 }

/-- `saveCurrencyData(with:)`; the record it returns is the row it added, given by its key. -/
def saveCurrencyData (P : Platform) (data : Data) (now : Date) (realm : Realm) :
    Except Trap (Realm × ObjKey) :=
  match CurrencyListResponse.decode P data with
  | none => .error .decoding
  | some currencyListResponse =>
    realm.deleteCurrency.addCurrencyData
      { savedAt := some now, currencies := currencyListResponse.toCurrencies }

/-- `saveRateData(with:)`; the record it returns is the one it created first and never
filled, not the one it added. -/
def saveRateData (P : Platform) (data : Data) (now : Date) (realm : Realm) :
    Except Trap (Realm × ExchangeRateData Rate) :=
  let exchangeRateData : ExchangeRateData Rate := {}
  match RateListResponse.decode P data with
  | none => .error .decoding
  | some rateListResponse =>
    match realm.deleteExchangeRateData.deleteRate.addExchangeRateData
      { timestamp := rateListResponse.timestamp, savedAt := some now,
        source := rateListResponse.source, quotes := rateListResponse.toRates } with
    | .error trap => .error trap
    | .ok (realm', _) => .ok (realm', exchangeRateData)

/-- The completion handler of the currency list request; `none` stands for a response
without data. -/
def currencyListCompletion (P : Platform) (data : Option Data) (now : Date) (realm : Realm) :
    Except Trap (Realm × List TopOutput) :=
  match data with
  | none => .ok (realm, [])
  | some data =>
    match saveCurrencyData P data now realm with
    | .error trap => .error trap
    | .ok (realm', k) =>
      .ok (realm', [.gotCurrencyList
        ((realm'.currencyData.get k).elim [] fun currencyData => realm'.currenciesOf currencyData)])

/-- The completion handler of the rate request. -/
def rateCompletion (P : Platform) (data : Option Data) (now : Date) (realm : Realm) :
    Except Trap (Realm × List TopOutput) :=
  match data with
  | none => .ok (realm, [])
  | some data =>
    match saveRateData P data now realm with
    | .error trap => .error trap
    | .ok (realm', exchangeRateData) => .ok (realm', [.gotRateList exchangeRateData.quotes])

/-! ### Calculating -/

/-- The `guard` of `calcurate`: the preferences, and the source of the record of rates. -/
def requiredParameters (realm : Realm) : Option (UserPreferenceData × String) :=
  match realm.userPreferenceData.first, realm.exchangeRateData.first with
  | some userPreference, some exchangeRateData => some (userPreference, exchangeRateData.source)
  | _, _ => none

/-- The values `calcurate` binds before it divides the amount by the first and multiplies by the
second, when it gets there. -/
def rateValues (realm : Realm) : Option (ℚ × ℚ) :=
  match requiredParameters realm with
  | none => none
  | some (userPreference, source) =>
    let rateFrom := realm.rateWithCode (source ++ userPreference.fromCurrency)
    let rateTo := realm.rateWithCode (source ++ userPreference.toCurrency)
    match rateFrom.map Rate.rate, rateTo.map Rate.rate with
    | some rateFromValue, some rateToValue => some (rateFromValue, rateToValue)
    | _, _ => none

/-- `calcurate(fromAmount:)`, in exact arithmetic. Without preferences or without a record of
rates there is no output; without one of the two rates the output is zero. -/
def calcurate (realm : Realm) (fromAmount : ℤ) : List TopOutput :=
  match requiredParameters realm with
  | none => []
  | some _ =>
    match rateValues realm with
    | some (rateFromValue, rateToValue) =>
      [.gotCaluculateResult (fromAmount / rateFromValue * rateToValue)]
    | none => [.gotCaluculateResult 0]

end ExchangeRate
