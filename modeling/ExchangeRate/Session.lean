import ExchangeRate.Base.StepMachine
import ExchangeRate.Transactions

/-!
# Sessions: the interactor over any sequence of calls

The store under calls of the interactor in any order: launches, preference
operations, fetches, and completions of requests that are in flight. The clock is
read by each event that needs it and does not go back; a launch is a new process,
so no request of before is in flight after it.

`ExchangeRate.Session.step_cases` is the one place that looks at all events. A step
changes the preferences only, or commits a save of currencies, or commits a save of
rates; and which it does can be read off the event.
-/

namespace ExchangeRate

/-! ### Addresses -/

/-- The address of the currency list. -/
def currencyListURL : URL := ⟨Define.getCurrencyListAPIPath⟩

/-- The address of the rates. -/
def rateURL : URL := ⟨Define.getRateAPIPath⟩

/-- The guard on the address of the currency list never fails. -/
theorem ofString_getCurrencyListAPIPath :
    URL.ofString Define.getCurrencyListAPIPath = some currencyListURL := by decide

/-- The guard on the address of the rates never fails. -/
theorem ofString_getRateAPIPath : URL.ofString Define.getRateAPIPath = some rateURL := by decide

/-! ### The fetches -/

/-- Without a record a fetch starts a request. -/
theorem fetchData_none {α : Type} {savedAt : α → Option Date} {deliver : α → TopOutput}
    {path : String} {url : URL} {now : Date} (hurl : URL.ofString path = some url) :
    fetchData none savedAt deliver path now = [.dataTask url] := by
  simp only [fetchData, hurl]

/-- With a record that is dated, the age of the record decides. -/
theorem fetchData_some {α : Type} {savedAt : α → Option Date} {deliver : α → TopOutput}
    {path : String} {url : URL} {now t : Date} {d : α} (hurl : URL.ofString path = some url)
    (ht : savedAt d = some t) :
    fetchData (some d) savedAt deliver path now =
      if now - t < 1800 then [deliver d] else [.dataTask url] := by
  have hage : (60 * 30 : ℚ) = 1800 := by norm_num
  simp only [fetchData, hurl, ht, hage]

/-! ### The machine -/

/-- The number of requests a list of outputs starts. -/
def requests (outputs : List TopOutput) : ℕ :=
  outputs.countP fun output =>
    match output with
    | .dataTask _ => true
    | _ => false

/-- The store, the clock and the requests in flight. -/
structure Session where
  realm : Realm
  clock : Date
  currencyTasks : ℕ
  rateTasks : ℕ

/-- A call of the interactor, the completion of a request, or a launch. -/
inductive SessionEvent where
  | launch (now : Date)
  | setDefaultUserPreferenceData
  | setUserPreferenceData (fromCurrency toCUrrency : Option String)
  | exchangeCurrency
  | saveSelectedItem (currency : Realm.CurrencyAccessor) (isFromCurrency : Bool)
  | fetchCurrencyListData (now : Date)
  | fetchRateData (now : Date)
  | currencyListCompletion (data : Data) (now : Date)
  | rateCompletion (data : Data) (now : Date)

namespace Session

/-- The store after the preference part of `viewDidLoad`. -/
abbrev launched (realm : Realm) : Realm := setDefaultUserPreferenceData realm

/-- One step of a session; `none` when the clock would go back, no request is in flight, or
the process would stop. -/
def step (P : Platform) (s : Session) : SessionEvent → Option Session
  | .launch now =>
    if s.clock ≤ now then
      some { realm := launched s.realm
             clock := now
             currencyTasks := requests (ExchangeRate.fetchCurrencyListData (launched s.realm) now)
             rateTasks := requests (ExchangeRate.fetchRateData (launched s.realm) now) }
    else none
  | .setDefaultUserPreferenceData =>
    some { s with realm := ExchangeRate.setDefaultUserPreferenceData s.realm }
  | .setUserPreferenceData fromCurrency toCUrrency =>
    some { s with realm := ExchangeRate.setUserPreferenceData s.realm fromCurrency toCUrrency }
  | .exchangeCurrency => some { s with realm := (ExchangeRate.exchangeCurrency s.realm).1 }
  | .saveSelectedItem currency isFromCurrency =>
    match ExchangeRate.saveSelectedItem s.realm currency isFromCurrency with
    | .ok realm => some { s with realm }
    | .error _ => none
  | .fetchCurrencyListData now =>
    if s.clock ≤ now then
      some { s with
        clock := now
        currencyTasks :=
          s.currencyTasks + requests (ExchangeRate.fetchCurrencyListData s.realm now) }
    else none
  | .fetchRateData now =>
    if s.clock ≤ now then
      some { s with
        clock := now
        rateTasks := s.rateTasks + requests (ExchangeRate.fetchRateData s.realm now) }
    else none
  | .currencyListCompletion data now =>
    if s.clock ≤ now ∧ 0 < s.currencyTasks then
      match ExchangeRate.currencyListCompletion P (some data) now s.realm with
      | .ok (realm, _) =>
        some { s with realm, clock := now, currencyTasks := s.currencyTasks - 1 }
      | .error _ => none
    else none
  | .rateCompletion data now =>
    if s.clock ≤ now ∧ 0 < s.rateTasks then
      match ExchangeRate.rateCompletion P (some data) now s.realm with
      | .ok (realm, _) => some { s with realm, clock := now, rateTasks := s.rateTasks - 1 }
      | .error _ => none
    else none

/-- **Sessions from an empty store**, begun at the time `t₀`. -/
def machine (P : Platform) (t₀ : Date) : StepMachine Session SessionEvent where
  init := { realm := .empty, clock := t₀, currencyTasks := 0, rateTasks := 0 }
  step := step P

variable {P : Platform} {t₀ : Date} {s s' : Session} {e : SessionEvent}

/-! ### Saves, read off the events -/

/-- The save of currencies an event commits: its time and the response. -/
def currencySave (P : Platform) : SessionEvent → Option (Date × CurrencyListResponse)
  | .currencyListCompletion data now => (CurrencyListResponse.decode P data).map fun r => (now, r)
  | _ => none

/-- The save of rates an event commits. -/
def rateSave (P : Platform) : SessionEvent → Option (Date × RateListResponse)
  | .rateCompletion data now => (RateListResponse.decode P data).map fun r => (now, r)
  | _ => none

/-- The saves of currencies a run commits, in order. -/
def currencySaves (P : Platform) (es : List SessionEvent) : List (Date × CurrencyListResponse) :=
  es.filterMap (currencySave P)

/-- The saves of rates a run commits, in order. -/
def rateSaves (P : Platform) (es : List SessionEvent) : List (Date × RateListResponse) :=
  es.filterMap (rateSave P)

theorem currencySaves_concat (es : List SessionEvent) (e : SessionEvent) :
    currencySaves P (es ++ [e]) = currencySaves P es ++ (currencySave P e).toList := by
  rw [currencySaves, List.filterMap_append, ← currencySaves]
  cases h : currencySave P e <;> simp [h]

theorem rateSaves_concat (es : List SessionEvent) (e : SessionEvent) :
    rateSaves P (es ++ [e]) = rateSaves P es ++ (rateSave P e).toList := by
  rw [rateSaves, List.filterMap_append, ← rateSaves]
  cases h : rateSave P e <;> simp [h]

/-- **What one step does to the store.** -/
theorem step_cases (h : step P s e = some s') :
    (currencySave P e = none ∧ rateSave P e = none ∧ OnlyPreferences s.realm s'.realm) ∨
    (∃ now response, currencySave P e = some (now, response) ∧ rateSave P e = none ∧
      CurrenciesSaved s.realm response now s'.realm) ∨
    (∃ now response, currencySave P e = none ∧ rateSave P e = some (now, response) ∧
      RatesSaved s.realm response now s'.realm) := by
  cases e with
  | launch now =>
    simp only [step, Option.ite_none_right_eq_some, Option.some.injEq] at h
    obtain ⟨-, rfl⟩ := h
    exact Or.inl ⟨rfl, rfl, onlyPreferences_setDefault s.realm⟩
  | setDefaultUserPreferenceData =>
    simp only [step, Option.some.injEq] at h
    subst h
    exact Or.inl ⟨rfl, rfl, onlyPreferences_setDefault s.realm⟩
  | setUserPreferenceData fromCurrency toCUrrency =>
    simp only [step, Option.some.injEq] at h
    subst h
    exact Or.inl ⟨rfl, rfl, onlyPreferences_set s.realm fromCurrency toCUrrency⟩
  | exchangeCurrency =>
    simp only [step, Option.some.injEq] at h
    subst h
    exact Or.inl ⟨rfl, rfl, onlyPreferences_exchange s.realm⟩
  | saveSelectedItem currency isFromCurrency =>
    cases hsel : ExchangeRate.saveSelectedItem s.realm currency isFromCurrency with
    | error trap => simp [step, hsel] at h
    | ok realm =>
      simp only [step, hsel, Option.some.injEq] at h
      subst h
      exact Or.inl ⟨rfl, rfl, onlyPreferences_select hsel⟩
  | fetchCurrencyListData now =>
    simp only [step, Option.ite_none_right_eq_some, Option.some.injEq] at h
    obtain ⟨-, rfl⟩ := h
    exact Or.inl ⟨rfl, rfl, OnlyPreferences.refl⟩
  | fetchRateData now =>
    simp only [step, Option.ite_none_right_eq_some, Option.some.injEq] at h
    obtain ⟨-, rfl⟩ := h
    exact Or.inl ⟨rfl, rfl, OnlyPreferences.refl⟩
  | currencyListCompletion data now =>
    rcases currencyListCompletion_cases P data now s.realm with ⟨-, hc⟩ |
      ⟨response, realm, hdec, hc, hsaved⟩
    · simp [step, hc] at h
    · simp only [step, hc, Option.ite_none_right_eq_some, Option.some.injEq] at h
      obtain ⟨-, rfl⟩ := h
      exact Or.inr (Or.inl ⟨now, response, by simp [currencySave, hdec], rfl, hsaved⟩)
  | rateCompletion data now =>
    rcases rateCompletion_cases P data now s.realm with ⟨-, hc⟩ |
      ⟨response, realm, hdec, hc, hsaved⟩
    · simp [step, hc] at h
    · simp only [step, hc, Option.ite_none_right_eq_some, Option.some.injEq] at h
      obtain ⟨-, rfl⟩ := h
      exact Or.inr (Or.inr ⟨now, response, rfl, by simp [rateSave, hdec], hsaved⟩)

end Session

end ExchangeRate
