import ExchangeRate.Base.ObjectTable
import ExchangeRate.Models

/-!
# The database

The five tables of the application and what Realm does to them inside a write
block. Realm keeps two kinds of fact by itself, and they are fields of
`ExchangeRate.Realm`: no two rows of a class with a primary key share it, and a list
holds rows that exist, because deleting an object takes it out of every list that
holds it.

A block is one function from the store before to the store after, since it commits
as a whole or not at all. What would raise is an `ExchangeRate.Trap`.
-/

namespace ExchangeRate

/-- What stops the process. -/
inductive Trap where
  /-- `try!` on a body that does not decode. -/
  | decoding
  /-- `add` of an object whose primary key is taken. -/
  | duplicatePrimaryKey
  /-- A property of a deleted object is read. -/
  | deletedObject
  deriving DecidableEq

/-- **The store**: the tables of the five classes. -/
structure Realm where
  userPreferenceData : ObjectTable UserPreferenceData
  currency : ObjectTable Currency
  currencyData : ObjectTable (CurrencyData ObjKey)
  rate : ObjectTable Rate
  exchangeRateData : ObjectTable (ExchangeRateData ObjKey)
  /-- `code` is the primary key of `Currency`. -/
  currency_nodup : (currency.objects.map Currency.code).Nodup
  /-- `code` is the primary key of `Rate`. -/
  rate_nodup : (rate.objects.map Rate.code).Nodup
  /-- The lists of currencies hold rows that exist. -/
  currencies_live : ∀ d ∈ currencyData.objects, ∀ k ∈ d.currencies, k ∈ currency.keys
  /-- The lists of rates hold rows that exist. -/
  quotes_live : ∀ d ∈ exchangeRateData.objects, ∀ k ∈ d.quotes, k ∈ rate.keys
  deriving DecidableEq

namespace Realm

/-- The store of a first launch. -/
def empty : Realm where
  userPreferenceData := .empty
  currency := .empty
  currencyData := .empty
  rate := .empty
  exchangeRateData := .empty
  currency_nodup := List.nodup_nil
  rate_nodup := List.nodup_nil
  currencies_live := by simp
  quotes_live := by simp

/-! ### Reading -/

/-- The currencies of a row of `CurrencyData`. -/
def currenciesOf (realm : Realm) (d : CurrencyData ObjKey) : List Currency :=
  realm.currency.resolve d.currencies

/-- The rates of a row of `ExchangeRateData`. -/
def quotesOf (realm : Realm) (d : ExchangeRateData ObjKey) : List Rate :=
  realm.rate.resolve d.quotes

/-- The first row of `objects(Rate.self).filter("code == %@", code)`. -/
def rateWithCode (realm : Realm) (code : String) : Option Rate :=
  realm.rate.objects.find? fun r => r.code = code

/-- The full name stored for a code. -/
def fullnameOf (realm : Realm) (code : String) : Option String :=
  (realm.currency.objects.find? fun c => c.code = code).map Currency.fullname

/-- The rate stored for a code. -/
def rateOf (realm : Realm) (code : String) : Option ℚ :=
  (realm.rateWithCode code).map Rate.rate

theorem fullnameOf_eq_lookup (realm : Realm) (code : String) :
    realm.fullnameOf code =
      (realm.currency.objects.map fun c => (c.code, c.fullname)).lookup code :=
  List.map_find?_eq_lookup Currency.code Currency.fullname _ code

theorem rateOf_eq_lookup (realm : Realm) (code : String) :
    realm.rateOf code = (realm.rate.objects.map fun r => (r.code, r.rate)).lookup code :=
  List.map_find?_eq_lookup Rate.code Rate.rate _ code

/-- The map of the rates has an entry for each row, and no other. -/
theorem rateOf_eq_some_iff {realm : Realm} {code : String} {rate : ℚ} :
    realm.rateOf code = some rate ↔ ⟨code, rate⟩ ∈ realm.rate.objects := by
  have hnodup : ((realm.rate.objects.map fun r => (r.code, r.rate)).map Prod.fst).Nodup := by
    simpa [Function.comp_def] using realm.rate_nodup
  rw [rateOf_eq_lookup, List.lookup_eq_some_iff_mem hnodup, List.mem_map]
  constructor
  · rintro ⟨r, hr, heq⟩
    cases heq
    exact hr
  · intro h
    exact ⟨_, h, rfl⟩

/-- An accessor of a `Currency`: an object the caller built, or a row of the database. -/
inductive CurrencyAccessor where
  | unmanaged (c : Currency)
  | managed (k : ObjKey)
  deriving DecidableEq

/-- Read the properties behind an accessor; reading a deleted row raises. -/
def read (realm : Realm) : CurrencyAccessor → Except Trap Currency
  | .unmanaged c => .ok c
  | .managed k =>
    match realm.currency.get k with
    | some c => .ok c
    | none => .error .deletedObject

theorem read_of_get {realm : Realm} {k : ObjKey} {c : Currency}
    (h : realm.currency.get k = some c) : realm.read (.managed k) = .ok c := by
  rw [read, h]

theorem get_of_read {realm : Realm} {k : ObjKey} {c : Currency}
    (h : realm.read (.managed k) = .ok c) : realm.currency.get k = some c := by
  unfold read at h
  cases hget : realm.currency.get k with
  | none => simp [hget] at h
  | some c' => simpa [hget] using h

/-- A row reads back, or reading it raises because it is gone. -/
theorem read_managed_cases (realm : Realm) (k : ObjKey) :
    (k ∈ realm.currency.keys ∧ ∃ c, realm.read (.managed k) = .ok c) ∨
      (k ∉ realm.currency.keys ∧ realm.read (.managed k) = .error .deletedObject) := by
  cases hget : realm.currency.get k with
  | none => exact Or.inr ⟨ObjectTable.get_eq_none_iff.mp hget, by rw [read, hget]⟩
  | some c => exact Or.inl ⟨ObjectTable.exists_get_iff.mp ⟨c, hget⟩, c, read_of_get hget⟩

/-! ### Writing -/

/-- `delete(objects(UserPreferenceData.self))`. -/
def deleteUserPreferenceData (realm : Realm) : Realm :=
  { realm with userPreferenceData := realm.userPreferenceData.clear }

/-- `add` of a `UserPreferenceData`. -/
def addUserPreferenceData (realm : Realm) (u : UserPreferenceData) : Realm :=
  { realm with userPreferenceData := realm.userPreferenceData.insert u }

/-- Assign properties of the first `UserPreferenceData`. -/
def modifyUserPreferenceData (realm : Realm) (f : UserPreferenceData → UserPreferenceData) :
    Realm :=
  { realm with userPreferenceData := realm.userPreferenceData.modifyFirst f }

/-- `delete(objects(Currency.self))`. -/
def deleteCurrency (realm : Realm) : Realm :=
  { realm with
    currency := realm.currency.clear
    currencyData := realm.currencyData.mapObjects fun d =>
      { d with currencies := d.currencies.filter fun k => k ∉ realm.currency.keys }
    currency_nodup := List.nodup_nil
    currencies_live := by
      intro d hd k hk
      rw [ObjectTable.objects_mapObjects, List.mem_map] at hd
      obtain ⟨d', hd', rfl⟩ := hd
      rw [List.mem_filter, decide_eq_true_eq] at hk
      exact absurd (realm.currencies_live d' hd' k hk.1) hk.2 }

/-- `add` of a `CurrencyData`, which adds the currencies of its list too. -/
def addCurrencyData (realm : Realm) (d : CurrencyData Currency) : Except Trap (Realm × ObjKey) :=
  if h : ((realm.currency.objects ++ d.currencies).map Currency.code).Nodup then
    .ok ({ realm with
      currency := realm.currency.insertAll d.currencies
      currencyData := realm.currencyData.insert
        { savedAt := d.savedAt, currencies := realm.currency.freshKeys d.currencies }
      currency_nodup := by rwa [ObjectTable.objects_insertAll]
      currencies_live := by
        intro d' hd' k hk
        rw [ObjectTable.keys_insertAll, List.mem_append]
        rw [ObjectTable.objects_insert, List.mem_append, List.mem_singleton] at hd'
        rcases hd' with hd' | rfl
        · exact Or.inl (realm.currencies_live d' hd' k hk)
        · exact Or.inr hk },
      realm.currencyData.next)
  else .error .duplicatePrimaryKey

/-- `delete(objects(ExchangeRateData.self))`. -/
def deleteExchangeRateData (realm : Realm) : Realm :=
  { realm with
    exchangeRateData := realm.exchangeRateData.clear
    quotes_live := by simp }

/-- `delete(objects(Rate.self))`. -/
def deleteRate (realm : Realm) : Realm :=
  { realm with
    rate := realm.rate.clear
    exchangeRateData := realm.exchangeRateData.mapObjects fun d =>
      { d with quotes := d.quotes.filter fun k => k ∉ realm.rate.keys }
    rate_nodup := List.nodup_nil
    quotes_live := by
      intro d hd k hk
      rw [ObjectTable.objects_mapObjects, List.mem_map] at hd
      obtain ⟨d', hd', rfl⟩ := hd
      rw [List.mem_filter, decide_eq_true_eq] at hk
      exact absurd (realm.quotes_live d' hd' k hk.1) hk.2 }

/-- `add` of an `ExchangeRateData`, which adds the rates of its list too. -/
def addExchangeRateData (realm : Realm) (d : ExchangeRateData Rate) :
    Except Trap (Realm × ObjKey) :=
  if h : ((realm.rate.objects ++ d.quotes).map Rate.code).Nodup then
    .ok ({ realm with
      rate := realm.rate.insertAll d.quotes
      exchangeRateData := realm.exchangeRateData.insert
        { timestamp := d.timestamp, savedAt := d.savedAt, source := d.source,
          quotes := realm.rate.freshKeys d.quotes }
      rate_nodup := by rwa [ObjectTable.objects_insertAll]
      quotes_live := by
        intro d' hd' k hk
        rw [ObjectTable.keys_insertAll, List.mem_append]
        rw [ObjectTable.objects_insert, List.mem_append, List.mem_singleton] at hd'
        rcases hd' with hd' | rfl
        · exact Or.inl (realm.quotes_live d' hd' k hk)
        · exact Or.inr hk },
      realm.exchangeRateData.next)
  else .error .duplicatePrimaryKey

/-! ### What the blocks are made of -/

/-- An `add` succeeds exactly when the primary keys of the list are new and distinct. -/
theorem addCurrencyData_of_nodup {realm : Realm} {d : CurrencyData Currency}
    (h : ((realm.currency.objects ++ d.currencies).map Currency.code).Nodup) :
    ∃ realm', realm.addCurrencyData d = .ok (realm', realm.currencyData.next) ∧
      realm'.userPreferenceData = realm.userPreferenceData ∧ realm'.rate = realm.rate ∧
      realm'.exchangeRateData = realm.exchangeRateData ∧
      realm'.currency = realm.currency.insertAll d.currencies ∧
      realm'.currencyData =
        realm.currencyData.insert ⟨d.savedAt, realm.currency.freshKeys d.currencies⟩ :=
  ⟨_, dif_pos h, rfl, rfl, rfl, rfl, rfl⟩

theorem addExchangeRateData_of_nodup {realm : Realm} {d : ExchangeRateData Rate}
    (h : ((realm.rate.objects ++ d.quotes).map Rate.code).Nodup) :
    ∃ realm', realm.addExchangeRateData d = .ok (realm', realm.exchangeRateData.next) ∧
      realm'.userPreferenceData = realm.userPreferenceData ∧ realm'.currency = realm.currency ∧
      realm'.currencyData = realm.currencyData ∧
      realm'.rate = realm.rate.insertAll d.quotes ∧
      realm'.exchangeRateData = realm.exchangeRateData.insert
        ⟨d.timestamp, d.savedAt, d.source, realm.rate.freshKeys d.quotes⟩ :=
  ⟨_, dif_pos h, rfl, rfl, rfl, rfl, rfl⟩

/-- Deleting every currency leaves every list of currencies empty. -/
theorem deleteCurrency_currencyData (realm : Realm) :
    realm.deleteCurrency.currencyData =
      realm.currencyData.mapObjects fun d => { d with currencies := [] } := by
  have hnil : ∀ d ∈ realm.currencyData.objects,
      ({ d with currencies := d.currencies.filter fun k => k ∉ realm.currency.keys } :
        CurrencyData ObjKey) = { d with currencies := [] } := by
    intro d hd
    have hf : d.currencies.filter (fun k => k ∉ realm.currency.keys) = [] := by
      rw [List.filter_eq_nil_iff]
      intro k hk
      simpa using realm.currencies_live d hd k hk
    rw [hf]
  exact ObjectTable.mapObjects_congr hnil

end Realm

end ExchangeRate
