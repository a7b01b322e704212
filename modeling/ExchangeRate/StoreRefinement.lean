import ExchangeRate.Base.RegisterBank
import ExchangeRate.Transactions

/-!
# The store is three registers

Seen from outside the store is three registers: the pair of codes the user converts
between, when it is set; the currencies, a map from codes to full names; and the
rates, with their source and timestamp. Each operation of the two interactors that
writes concerns one of them (`ExchangeRate.registers`), and the store refines this
bank of registers (`ExchangeRate.registers_refinedBy`): every operation succeeds –
no `add` meets a primary key that is taken – and does to its register what the bank
says, as long as there is at most one record of preferences, which every operation
keeps.

A save takes its payload as a body together with the response it decodes to, so the
operations are the ones with decodable payloads. A selection takes the selected
currency; that the row it comes from is one of the database makes no difference
(`ExchangeRate.saveSelectedItem_managed`).
-/

namespace ExchangeRate

variable {P : Platform} {realm realm' : Realm}

/-! ### The registers -/

/-- The three registers. -/
inductive Register where
  | preference
  | currencies
  | rates
  deriving DecidableEq

/-- What each register holds. -/
def Register.Contents : Register → Type
  | .preference => Option (String × String)
  | .currencies => String → Option String
  | .rates => Option (String × ℤ) × (String → Option ℚ)

/-- **The store, seen from outside.** -/
def Realm.view (realm : Realm) : (i : Register) → i.Contents
  | .preference => realm.userPreferenceData.first.map fun u => (u.fromCurrency, u.toCurrency)
  | .currencies => realm.fullnameOf
  | .rates => (realm.exchangeRateData.first.map fun d => (d.source, d.timestamp), realm.rateOf)

/-! ### The operations -/

/-- A body that decodes as a currency list. -/
structure CurrencyListPayload (P : Platform) where
  data : Data
  response : CurrencyListResponse
  decodes : CurrencyListResponse.decode P data = some response

/-- A body that decodes as a list of rates. -/
structure RateListPayload (P : Platform) where
  data : Data
  response : RateListResponse
  decodes : RateListResponse.decode P data = some response

/-- A call that writes. -/
inductive StoreOp (P : Platform) where
  | setDefaultUserPreferenceData
  | setUserPreferenceData (fromCurrency toCUrrency : Option String)
  | saveSelectedItem (currency : Currency) (isFromCurrency : Bool)
  | exchangeCurrency
  | saveCurrencyData (payload : CurrencyListPayload P) (now : Date)
  | saveRateData (payload : RateListPayload P) (now : Date)

/-- What the interactors do on a call. -/
def StoreOp.step (realm : Realm) : StoreOp P → Except Trap Realm
  | .setDefaultUserPreferenceData => .ok (ExchangeRate.setDefaultUserPreferenceData realm)
  | .setUserPreferenceData fromCurrency toCUrrency =>
    .ok (ExchangeRate.setUserPreferenceData realm fromCurrency toCUrrency)
  | .saveSelectedItem currency isFromCurrency =>
    ExchangeRate.saveSelectedItem realm (.unmanaged currency) isFromCurrency
  | .exchangeCurrency => .ok (ExchangeRate.exchangeCurrency realm).1
  | .saveCurrencyData payload now =>
    (ExchangeRate.saveCurrencyData P payload.data now realm).map Prod.fst
  | .saveRateData payload now => (ExchangeRate.saveRateData P payload.data now realm).map Prod.fst

/-- A payload is saved, from every store: it decodes, and that is all a save asks for. -/
theorem CurrencyListPayload.step_saved (payload : CurrencyListPayload P) (now : Date)
    (realm : Realm) : ∃ realm', StoreOp.step realm (.saveCurrencyData payload now) = .ok realm' ∧
      CurrenciesSaved realm payload.response now realm' := by
  obtain ⟨realm', hsave, hsaved⟩ := saveCurrencyData_of_decode payload.decodes now realm
  refine ⟨realm', ?_, hsaved⟩
  rw [StoreOp.step, hsave]
  rfl

theorem RateListPayload.step_saved (payload : RateListPayload P) (now : Date) (realm : Realm) :
    ∃ realm', StoreOp.step realm (.saveRateData payload now) = .ok realm' ∧
      RatesSaved realm payload.response now realm' := by
  obtain ⟨realm', hsave, hsaved⟩ := saveRateData_of_decode payload.decodes now realm
  refine ⟨realm', ?_, hsaved⟩
  rw [StoreOp.step, hsave]
  rfl

/-- The register a call concerns. -/
def StoreOp.register : StoreOp P → Register
  | .setDefaultUserPreferenceData => .preference
  | .setUserPreferenceData _ _ => .preference
  | .saveSelectedItem _ _ => .preference
  | .exchangeCurrency => .preference
  | .saveCurrencyData _ _ => .currencies
  | .saveRateData _ _ => .rates

/-- What a call is for: the default sets the pair, a partial set, a selection and a swap
change the addressed components of a pair that is set, and a save replaces its register by
the dictionary of the payload. -/
def StoreOp.act : (op : StoreOp P) → op.register.Contents → op.register.Contents
  | .setDefaultUserPreferenceData =>
    fun (_ : Option (String × String)) => some (Define.defaultFromCurrency, Define.defaultToCurrency)
  | .setUserPreferenceData fromCurrency toCUrrency =>
    Option.map fun (p : String × String) => (fromCurrency.getD p.1, toCUrrency.getD p.2)
  | .saveSelectedItem currency isFromCurrency =>
    Option.map fun (p : String × String) =>
      if isFromCurrency then (currency.code, p.2) else (p.1, currency.code)
  | .exchangeCurrency => Option.map fun (p : String × String) => p.swap
  | .saveCurrencyData payload _ =>
    fun (_ : String → Option String) => payload.response.currencies.lookup
  | .saveRateData payload _ =>
    fun (_ : Option (String × ℤ) × (String → Option ℚ)) =>
      (some (payload.response.source, payload.response.timestamp), payload.response.quotes.lookup)

/-- **The reference**: three registers and the calls. -/
def registers (P : Platform) : RegisterBank Register.Contents (StoreOp P) where
  register := StoreOp.register
  act := StoreOp.act

/-! ### Each call does what it is for -/

/-! Each register is a function of the tables it is stored in. -/

theorem Realm.view_preference_congr
    (h : realm'.userPreferenceData = realm.userPreferenceData) :
    realm'.view .preference = realm.view .preference := by
  show Option.map _ realm'.userPreferenceData.first = Option.map _ realm.userPreferenceData.first
  rw [h]

theorem Realm.view_currencies_congr (h : realm'.currency = realm.currency) :
    realm'.view .currencies = realm.view .currencies := by
  funext code
  show realm'.fullnameOf code = realm.fullnameOf code
  rw [fullnameOf, fullnameOf, h]

theorem Realm.view_rates_congr (hr : realm'.rate = realm.rate)
    (he : realm'.exchangeRateData = realm.exchangeRateData) :
    realm'.view .rates = realm.view .rates := by
  have hrate : realm'.rateOf = realm.rateOf := by
    funext code
    rw [rateOf, rateOf, rateWithCode, rateWithCode, hr]
  show (Option.map _ realm'.exchangeRateData.first, realm'.rateOf) =
    (Option.map _ realm.exchangeRateData.first, realm.rateOf)
  rw [he, hrate]

/-- A call that only touches the preferences leaves the two other registers alone. -/
theorem OnlyPreferences.view_eq (h : OnlyPreferences realm realm') {i : Register}
    (hi : i ≠ .preference) : realm'.view i = realm.view i := by
  cases i with
  | preference => exact absurd rfl hi
  | currencies => exact Realm.view_currencies_congr h.currency
  | rates => exact Realm.view_rates_congr h.rate h.exchangeRateData

/-- The pair after the first record has been rewritten. -/
theorem view_preference_of_modifyHead {f : UserPreferenceData → UserPreferenceData}
    {g : String × String → String × String}
    (h : realm'.userPreferenceData.objects = realm.userPreferenceData.objects.modifyHead f)
    (hfg : ∀ u, ((f u).fromCurrency, (f u).toCurrency) = g (u.fromCurrency, u.toCurrency)) :
    realm'.view .preference = Option.map g (realm.view .preference) := by
  simp only [Realm.view, ObjectTable.first, h]
  cases realm.userPreferenceData.objects with
  | nil => rfl
  | cons u l => exact congrArg some (hfg u)

/-- A save of currencies leaves the two other registers alone. -/
theorem CurrenciesSaved.view_eq {response : CurrencyListResponse} {now : Date}
    (h : CurrenciesSaved realm response now realm') {i : Register} (hi : i ≠ .currencies) :
    realm'.view i = realm.view i := by
  cases i with
  | preference => exact Realm.view_preference_congr h.userPreferenceData
  | currencies => exact absurd rfl hi
  | rates => exact Realm.view_rates_congr h.rate h.exchangeRateData

/-- A save of rates leaves the two other registers alone. -/
theorem RatesSaved.view_eq {response : RateListResponse} {now : Date}
    (h : RatesSaved realm response now realm') {i : Register} (hi : i ≠ .rates) :
    realm'.view i = realm.view i := by
  cases i with
  | preference => exact Realm.view_preference_congr h.userPreferenceData
  | currencies => exact Realm.view_currencies_congr h.currency
  | rates => exact absurd rfl hi

/-- A save of rates puts the payload in place of what was there. -/
theorem RatesSaved.view_rates {response : RateListResponse} {now : Date}
    (h : RatesSaved realm response now realm') :
    realm'.view .rates =
      (some (response.source, response.timestamp), response.quotes.lookup) := by
  have hrate : realm'.rateOf = response.quotes.lookup := funext h.rateOf
  simp only [Realm.view, ObjectTable.first_eq_some_of_objects h.exchangeRateData_objects, hrate]
  rfl

/-- **One call does to its register what it is for, and leaves the others alone.** -/
theorem registers_refinedBy (P : Platform) :
    (registers P).RefinedBy StoreOp.step
      (fun realm => realm.userPreferenceData.objects.length ≤ 1) Realm.view where
  step_ok realm op hone := by
    cases op with
    | setDefaultUserPreferenceData =>
      refine ⟨_, rfl, le_refl 1, (registers P).eq_apply rfl fun i hi => ?_⟩
      exact (onlyPreferences_setDefault realm).view_eq hi
    | setUserPreferenceData fromCurrency toCUrrency =>
      have hobjects := objects_set realm fromCurrency toCUrrency
      refine ⟨_, rfl, by simpa [hobjects] using hone, (registers P).eq_apply ?_ fun i hi => ?_⟩
      · exact view_preference_of_modifyHead hobjects fun u => rfl
      · exact (onlyPreferences_set realm fromCurrency toCUrrency).view_eq hi
    | saveSelectedItem currency isFromCurrency =>
      obtain ⟨realm', hstep, hobjects⟩ :=
        saveSelectedItem_of_read (show realm.read (.unmanaged currency) = .ok currency from rfl)
          isFromCurrency
      refine ⟨realm', hstep, by simpa [hobjects] using hone,
        (registers P).eq_apply ?_ fun i hi => (onlyPreferences_select hstep).view_eq hi⟩
      refine view_preference_of_modifyHead hobjects fun u => ?_
      cases isFromCurrency <;> rfl
    | exchangeCurrency =>
      have hobjects := objects_exchange realm
      refine ⟨_, rfl, by simpa [hobjects] using hone, (registers P).eq_apply ?_ fun i hi => ?_⟩
      · exact view_preference_of_modifyHead hobjects fun u => rfl
      · exact (onlyPreferences_exchange realm).view_eq hi
    | saveCurrencyData payload now =>
      obtain ⟨realm', hstep, hsaved⟩ := payload.step_saved now realm
      exact ⟨realm', hstep, by rwa [hsaved.userPreferenceData],
        (registers P).eq_apply (funext hsaved.fullnameOf) fun i hi => hsaved.view_eq hi⟩
    | saveRateData payload now =>
      obtain ⟨realm', hstep, hsaved⟩ := payload.step_saved now realm
      exact ⟨realm', hstep, by rwa [hsaved.userPreferenceData],
        (registers P).eq_apply hsaved.view_rates fun i hi => hsaved.view_eq hi⟩

/-! ### Sequences of calls -/

/-- A selection only sees what its accessor reads: a row of the database stands for the
currency it holds. -/
theorem saveSelectedItem_managed {k : ObjKey} {c : Currency} (h : realm.currency.get k = some c)
    (isFromCurrency : Bool) :
    saveSelectedItem realm (.managed k) isFromCurrency =
      saveSelectedItem realm (.unmanaged c) isFromCurrency := by
  simp only [saveSelectedItem, Realm.read, h]

/-- **The store refines its three registers.** From an empty store every sequence of calls
succeeds, leaves at most one record of preferences, and is seen as the fold of what the calls
are for; neighbouring calls on different registers can be exchanged; and a selection does with
a row of the database what it does with the currency the row holds. -/
theorem store_refines_registers (P : Platform) :
    (∀ ops : List (StoreOp P), ∃ realm, RegisterBank.run StoreOp.step Realm.empty ops = .ok realm ∧
      realm.userPreferenceData.objects.length ≤ 1 ∧
      realm.view = ops.foldl (registers P).apply Realm.empty.view) ∧
    (∀ (before after : List (StoreOp P)) (a b : StoreOp P), a.register ≠ b.register →
      ∃ realm₁ realm₂,
        RegisterBank.run StoreOp.step Realm.empty (before ++ a :: b :: after) = .ok realm₁ ∧
        RegisterBank.run StoreOp.step Realm.empty (before ++ b :: a :: after) = .ok realm₂ ∧
        realm₁.view = realm₂.view) ∧
    (∀ (realm : Realm) (k : ObjKey) (c : Currency) (isFromCurrency : Bool),
      realm.currency.get k = some c →
        saveSelectedItem realm (.managed k) isFromCurrency =
          saveSelectedItem realm (.unmanaged c) isFromCurrency) := by
  have hempty : Realm.empty.userPreferenceData.objects.length ≤ 1 := Nat.zero_le 1
  refine ⟨fun ops => (registers_refinedBy P).run hempty ops, fun before after a b hab => ?_,
    fun realm k c isFromCurrency h => saveSelectedItem_managed h isFromCurrency⟩
  exact (registers_refinedBy P).run_swap hempty hab before after

end ExchangeRate
