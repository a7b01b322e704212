import ExchangeRate.TopInteractor

/-!
# The conversion of an amount

What `ExchangeRate.calcurate` is for: the conversion of an amount between the stored
currencies with the stored rates, which is zero when there is no record of rates or
one of the two rates is missing. The function itself says nothing when there is no
record, so a caller that wants the zero on the screen has to see to it.
-/

namespace ExchangeRate

variable {realm : Realm}

/-- **The conversion** of an amount between the stored currencies with the stored rates. -/
def conversion (realm : Realm) (amount : ℤ) : ℚ :=
  match realm.userPreferenceData.first, realm.exchangeRateData.first with
  | some u, some d =>
    match realm.rateOf (d.source ++ u.fromCurrency), realm.rateOf (d.source ++ u.toCurrency) with
    | some rateFrom, some rateTo => amount * rateTo / rateFrom
    | _, _ => 0
  | _, _ => 0

/-! ### What a calculation looks up -/

theorem requiredParameters_of_some {u : UserPreferenceData} {d : ExchangeRateData ObjKey}
    (hu : realm.userPreferenceData.first = some u) (hd : realm.exchangeRateData.first = some d) :
    requiredParameters realm = some (u, d.source) := by
  rw [requiredParameters, hu, hd]

theorem requiredParameters_of_none
    (h : realm.userPreferenceData.first = none ∨ realm.exchangeRateData.first = none) :
    requiredParameters realm = none := by
  rcases h with h | h
  · rw [requiredParameters, h]
  · rw [requiredParameters, h]
    cases realm.userPreferenceData.first <;> rfl

/-- The two values are the rates stored for the two codes. -/
theorem rateValues_of_some {u : UserPreferenceData} {d : ExchangeRateData ObjKey}
    (hu : realm.userPreferenceData.first = some u) (hd : realm.exchangeRateData.first = some d) :
    rateValues realm = (realm.rateOf (d.source ++ u.fromCurrency)).bind fun rateFrom =>
      (realm.rateOf (d.source ++ u.toCurrency)).map fun rateTo => (rateFrom, rateTo) := by
  have hrate : ∀ code, (realm.rateWithCode code).map Rate.rate = realm.rateOf code := fun _ => rfl
  simp only [rateValues, requiredParameters_of_some hu hd, hrate]
  cases realm.rateOf (d.source ++ u.fromCurrency) with
  | none => rfl
  | some rateFrom => cases realm.rateOf (d.source ++ u.toCurrency) <;> rfl

/-- A division is reached when there are preferences, a record and both rates. -/
theorem rateValues_eq_some_iff {a b : ℚ} : rateValues realm = some (a, b) ↔
    ∃ u d, realm.userPreferenceData.first = some u ∧ realm.exchangeRateData.first = some d ∧
      realm.rateOf (d.source ++ u.fromCurrency) = some a ∧
      realm.rateOf (d.source ++ u.toCurrency) = some b := by
  rcases hu : realm.userPreferenceData.first with _ | u
  · simp [rateValues, requiredParameters_of_none (Or.inl hu)]
  · rcases hd : realm.exchangeRateData.first with _ | d
    · simp [rateValues, requiredParameters_of_none (Or.inr hd)]
    · simp [rateValues_of_some hu hd, Option.bind_eq_some_iff]

/-- The two values are what the result is calculated from. -/
theorem calcurate_of_rateValues {rateFromValue rateToValue : ℚ}
    (h : rateValues realm = some (rateFromValue, rateToValue)) (amount : ℤ) :
    calcurate realm amount = [.gotCaluculateResult (amount / rateFromValue * rateToValue)] := by
  obtain ⟨u, d, hu, hd, -⟩ := rateValues_eq_some_iff.mp h
  rw [calcurate, requiredParameters_of_some hu hd, h]

/-- With preferences and a record of rates, the conversion divides by the one value and multiplies
by the other. -/
theorem conversion_of_some {u : UserPreferenceData} {d : ExchangeRateData ObjKey}
    (hu : realm.userPreferenceData.first = some u) (hd : realm.exchangeRateData.first = some d)
    (amount : ℤ) : conversion realm amount =
      (rateValues realm).elim 0 fun values => amount / values.1 * values.2 := by
  rw [rateValues_of_some hu hd]
  simp only [conversion, hu, hd]
  cases realm.rateOf (d.source ++ u.fromCurrency) with
  | none => rfl
  | some rateFrom =>
    cases realm.rateOf (d.source ++ u.toCurrency) with
    | none => rfl
    | some rateTo => exact (div_mul_eq_mul_div _ _ _).symm

/-! ### What a calculation gives -/

/-- With preferences and a record of rates, `calcurate` gives the conversion. -/
theorem calcurate_of_some {u : UserPreferenceData} {d : ExchangeRateData ObjKey}
    (hu : realm.userPreferenceData.first = some u) (hd : realm.exchangeRateData.first = some d)
    (amount : ℤ) : calcurate realm amount = [.gotCaluculateResult (conversion realm amount)] := by
  rw [calcurate, requiredParameters_of_some hu hd, conversion_of_some hu hd]
  cases rateValues realm <;> rfl

/-- Without preferences or without a record of rates, `calcurate` says nothing. -/
theorem calcurate_of_none
    (h : realm.userPreferenceData.first = none ∨ realm.exchangeRateData.first = none)
    (amount : ℤ) : calcurate realm amount = [] := by
  rw [calcurate, requiredParameters_of_none h]

/-- **What a calculation depends on**: the preferences, the source of the record, and the
rates that lookups find. -/
theorem calcurate_congr {realm' : Realm}
    (hpref : realm.userPreferenceData.first = realm'.userPreferenceData.first)
    (hsource : realm.exchangeRateData.first.map ExchangeRateData.source =
      realm'.exchangeRateData.first.map ExchangeRateData.source)
    (hrate : realm.rateOf = realm'.rateOf) (amount : ℤ) :
    calcurate realm amount = calcurate realm' amount := by
  rcases hu' : realm'.userPreferenceData.first with _ | u
  · have hu := hpref.trans hu'
    rw [calcurate_of_none (Or.inl hu), calcurate_of_none (Or.inl hu')]
  · have hu := hpref.trans hu'
    rcases hd' : realm'.exchangeRateData.first with _ | d'
    · have hd : realm.exchangeRateData.first = none := by
        rwa [hd', Option.map_none, Option.map_eq_none_iff] at hsource
      rw [calcurate_of_none (Or.inr hd), calcurate_of_none (Or.inr hd')]
    · rw [hd', Option.map_some, Option.map_eq_some_iff] at hsource
      obtain ⟨d, hd, hs⟩ := hsource
      have hconversion : conversion realm amount = conversion realm' amount := by
        simp only [conversion, hu, hu', hd, hd', hs, hrate]
      rw [calcurate_of_some hu hd, calcurate_of_some hu' hd', hconversion]

/-- A result there is or is not, whatever the store. -/
theorem calcurate_cases (realm : Realm) (amount : ℤ) :
    calcurate realm amount = [] ∨
      calcurate realm amount = [.gotCaluculateResult (conversion realm amount)] := by
  cases hu : realm.userPreferenceData.first with
  | none => exact Or.inl (calcurate_of_none (Or.inl hu) amount)
  | some u =>
    cases hd : realm.exchangeRateData.first with
    | none => exact Or.inl (calcurate_of_none (Or.inr hd) amount)
    | some d => exact Or.inr (calcurate_of_some hu hd amount)

/-- Nothing converts to nothing. -/
@[simp] theorem conversion_zero (realm : Realm) : conversion realm 0 = 0 := by
  unfold conversion
  split
  · split
    · rw [Int.cast_zero, zero_mul, zero_div]
    · rfl
  · rfl

theorem conversion_of_no_record (h : realm.exchangeRateData.first = none) (amount : ℤ) :
    conversion realm amount = 0 := by
  unfold conversion
  rw [h]
  split
  · rename_i hd
    cases hd
  · rfl

end ExchangeRate
