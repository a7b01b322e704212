import ExchangeRate.Base.RateSystem
import ExchangeRate.Conversion
import ExchangeRate.StoreRefinement

/-!
# From the payload to the result

What a calculation gives is a function of the last payload and of the two preferred
codes, `ExchangeRate.RateListResponse.convert`: whatever the store held before the
payload was saved, nothing of it is left
(`ExchangeRate.RatesSaved.calcurate_of_preferences`). The three results of the file
are about this function.

* Where the payload quotes no zero, the rates between the quoted codes are a coherent
  system (`ExchangeRate.crossRateLaws_of_saved`).
* Nothing in the code looks at the value of a quote, so a quote of zero is decoded,
  stored and divided by; the divisor is safe exactly when the payload saved last
  quotes no code at zero (`ExchangeRate.divisionSafe_iff`).
* The source of the payload has no place of its own: it is looked up like any other
  code, so its conversions depend on the payload quoting it against itself
  (`ExchangeRate.sourceConversion_of_saved`).
-/

namespace ExchangeRate

variable {P : Platform} {realm realm' store : Realm} {response : RateListResponse} {now : Date}
  {A B C : String}

/-! ### The conversion by a payload -/

namespace RateListResponse

/-- The quote of a code against the source, if there is one. -/
def quote? (response : RateListResponse) (code : String) : Option ℚ :=
  response.quotes.lookup (response.source ++ code)

/-- The quote of a code that is quoted. -/
def quote (response : RateListResponse) (code : String) : ℚ := (response.quote? code).getD 0

/-- The codes that are quoted. -/
def quoted (response : RateListResponse) : Set String :=
  {code | response.source ++ code ∈ response.quotes.keys}

/-- **The conversion of an amount by a payload**, in the order of the two operations. -/
def convert (response : RateListResponse) (fromCurrency toCurrency : String) (amount : ℤ) : ℚ :=
  match response.quote? fromCurrency, response.quote? toCurrency with
  | some rateFrom, some rateTo => amount / rateFrom * rateTo
  | _, _ => 0

theorem quote?_of_quoted (h : A ∈ response.quoted) :
    response.quote? A = some (response.quote A) := by
  obtain ⟨a, ha⟩ := Dictionary.mem_keys_iff.mp h
  rw [quote, quote?, ha, Option.getD_some]

/-- A code that is quoted is not quoted at zero, when the payload has no zero. -/
theorem quote_ne_zero (hne : ∀ e ∈ response.quotes.entries, e.2 ≠ 0) (h : A ∈ response.quoted) :
    response.quote A ≠ 0 :=
  hne _ (Dictionary.lookup_eq_some_iff.mp (quote?_of_quoted h))

theorem convert_of_some {a b : ℚ} (ha : response.quote? A = some a)
    (hb : response.quote? B = some b) (n : ℤ) : response.convert A B n = n / a * b := by
  rw [convert, ha, hb]

theorem convert_of_none (h : response.quote? A = none ∨ response.quote? B = none) (n : ℤ) :
    response.convert A B n = 0 := by
  rcases h with h | h
  · rw [convert, h]
  · rw [convert, h]
    cases response.quote? A <;> rfl

/-- Between quoted codes, the conversion multiplies by the cross rate. -/
theorem convert_of_quoted (hA : A ∈ response.quoted) (hB : B ∈ response.quoted) (n : ℤ) :
    response.convert A B n = n * RateSystem.cross response.quote A B := by
  rw [convert_of_some (quote?_of_quoted hA) (quote?_of_quoted hB), RateSystem.cross,
    div_mul_eq_mul_div, mul_div_assoc]

theorem convert_add (A B : String) (m n : ℤ) :
    response.convert A B (m + n) = response.convert A B m + response.convert A B n := by
  unfold convert
  split
  · push_cast
    ring
  · rw [add_zero]

theorem convert_mul (A B : String) (k n : ℤ) :
    response.convert A B (k * n) = k * response.convert A B n := by
  unfold convert
  split
  · push_cast
    ring
  · rw [mul_zero]

end RateListResponse

/-! ### The calculation over a store that holds a payload -/

/-- The record of a store whose preferences have been changed since the save. -/
theorem RatesSaved.exchangeRateData_first (h : RatesSaved realm response now realm')
    (hpref : OnlyPreferences realm' store) : store.exchangeRateData.first =
      some ⟨response.timestamp, some now, response.source, realm'.rate.keys⟩ := by
  rw [hpref.exchangeRateData]
  exact ObjectTable.first_eq_some_of_objects h.exchangeRateData_objects

/-- A lookup in such a store finds the quote of the payload. -/
theorem RatesSaved.rateOf_source (h : RatesSaved realm response now realm')
    (hpref : OnlyPreferences realm' store) (code : String) :
    store.rateOf (response.source ++ code) = response.quote? code := by
  have hrate : store.rateOf (response.source ++ code) =
      realm'.rateOf (response.source ++ code) := by
    rw [Realm.rateOf, Realm.rateOf, Realm.rateWithCode, Realm.rateWithCode, hpref.rate]
  rw [hrate, h.rateOf, RateListResponse.quote?]

/-- A store in which the lookups find the quotes of a payload converts by it. -/
theorem conversion_of_quotes {d : ExchangeRateData ObjKey}
    (hu : realm.userPreferenceData.first = some ⟨A, B⟩)
    (hd : realm.exchangeRateData.first = some d) (hsource : d.source = response.source)
    (hrate : ∀ code, realm.rateOf (response.source ++ code) = response.quote? code) (n : ℤ) :
    conversion realm n = response.convert A B n := by
  rw [conversion_of_some hu hd, rateValues_of_some hu hd, hsource, hrate, hrate,
    RateListResponse.convert]
  rcases response.quote? A with _ | a
  · rfl
  · rcases response.quote? B with _ | b <;> rfl

/-- **After a save, a calculation gives the conversion by the payload**, whatever the store held
before. -/
theorem RatesSaved.calcurate_of_preferences (h : RatesSaved realm response now realm')
    (hpref : OnlyPreferences realm' store)
    (hu : store.userPreferenceData.first = some ⟨A, B⟩) (n : ℤ) :
    calcurate store n = [.gotCaluculateResult (response.convert A B n)] := by
  have hd := h.exchangeRateData_first hpref
  rw [calcurate_of_some hu hd, conversion_of_quotes hu hd rfl (h.rateOf_source hpref)]

/-! ### Cross rates -/

/-- **The rates between the quoted codes are a coherent system.** -/
theorem RateListResponse.coherent_convert (hne : ∀ e ∈ response.quotes.entries, e.2 ≠ 0) :
    RateSystem.Coherent (fun A B => response.convert A B 1) response.quoted := by
  have hcross : RateSystem.Coherent (RateSystem.cross response.quote) response.quoted :=
    RateSystem.coherent_cross fun A hA => quote_ne_zero hne hA
  have hunit {A B : String} (hA : A ∈ response.quoted) (hB : B ∈ response.quoted) :
      response.convert A B 1 = RateSystem.cross response.quote A B := by
    rw [convert_of_quoted hA hB, Int.cast_one, one_mul]
  refine ⟨fun A hA => ?_, fun A hA B hB C hC => ?_⟩
  · rw [hunit hA hA]
    exact hcross.self A hA
  · rw [hunit hA hB, hunit hB hC, hunit hA hC]
    exact hcross.triangle A hA B hB C hC

/-- **No chain of conversions wins anything**: the unit rates along it multiply to the rate from
its first code to its last. -/
theorem RateListResponse.chain_convert (hne : ∀ e ∈ response.quotes.entries, e.2 ≠ 0)
    {l : List String} (hl : ∀ code ∈ A :: l, code ∈ response.quoted) :
    RateSystem.chain (fun A B => response.convert A B 1) A l =
      response.convert A (l.getLastD A) 1 :=
  (coherent_convert hne).chain_eq hl

/-- **The laws of the stored rates**: what `calcurate` outputs for any stored preferences, and
how these outputs hang together. -/
structure CrossRateLaws (response : RateListResponse) (realm' : Realm) : Prop where
  /-- With `(A, B)` stored, `calcurate` outputs the conversion. -/
  output : ∀ store A B n, OnlyPreferences realm' store →
    store.userPreferenceData.first = some ⟨A, B⟩ →
      calcurate store n = [.gotCaluculateResult (response.convert A B n)]
  /-- A currency converts to itself at one. -/
  self : ∀ A n, A ∈ response.quoted → response.convert A A n = n
  /-- There is no arbitrage through a third currency. -/
  triangle : ∀ A B C, A ∈ response.quoted → B ∈ response.quoted → C ∈ response.quoted →
    response.convert A B 1 * response.convert B C 1 = response.convert A C 1
  /-- After an exchange the unit rate is the inverse. -/
  exchange : ∀ store A B, OnlyPreferences realm' store →
    store.userPreferenceData.first = some ⟨A, B⟩ → A ∈ response.quoted → B ∈ response.quoted →
      calcurate (exchangeCurrency store).1 1 = [.gotCaluculateResult (response.convert B A 1)] ∧
        response.convert A B 1 * response.convert B A 1 = 1
  additive : ∀ A B m n, response.convert A B (m + n) =
    response.convert A B m + response.convert A B n
  homogeneous : ∀ A B k n, response.convert A B (k * n) = k * response.convert A B n
  /-- A lookup hits one stored rate, the one of the payload. -/
  lookup : ∀ code rate, response.quote? code = some rate →
    (realm'.rate.objects.filter fun r => r.code = response.source ++ code) =
      [⟨response.source ++ code, rate⟩]

/-- The preferences after an exchange. -/
theorem first_exchange (hu : store.userPreferenceData.first = some ⟨A, B⟩) :
    (exchangeCurrency store).1.userPreferenceData.first = some ⟨B, A⟩ := by
  obtain ⟨l, hl⟩ := List.head?_eq_some_iff.mp hu
  refine ObjectTable.first_eq_some_of_objects (l := l) ?_
  rw [objects_exchange, ObjectTable.objects, ← ObjectTable.objects, hl]
  rfl

/-- **Cross rates cohere, from the payload to the result**: over every prior store a decodable
payload without a zero is saved, and the stored rates obey the laws. -/
theorem crossRateLaws_of_saved (P : Platform) {data : Data} (now : Date) (realm : Realm)
    (hdec : RateListResponse.decode P data = some response)
    (hne : ∀ e ∈ response.quotes.entries, e.2 ≠ 0) :
    ∃ realm', saveRateData P data now realm = .ok (realm', {}) ∧ CrossRateLaws response realm' := by
  obtain ⟨realm', hsave, hsaved⟩ := saveRateData_of_decode hdec now realm
  have hcoherent := RateListResponse.coherent_convert hne
  refine ⟨realm', hsave, fun store A B n hpref hu => hsaved.calcurate_of_preferences hpref hu n,
    fun A n hA => ?_, fun A B C hA hB hC => hcoherent.triangle A hA B hB C hC,
    fun store A B hpref hu hA hB => ⟨?_, hcoherent.inverse hA hB⟩,
    RateListResponse.convert_add, RateListResponse.convert_mul, fun code rate hrate => ?_⟩
  · have hself := hcoherent.self A hA
    have hmul : response.convert A A (n * 1) = n * response.convert A A 1 :=
      RateListResponse.convert_mul A A n 1
    rwa [mul_one, hself, mul_one] at hmul
  · exact hsaved.calcurate_of_preferences (hpref.trans (onlyPreferences_exchange store))
      (first_exchange hu) 1
  · have hmem : (⟨response.source ++ code, rate⟩ : Rate) ∈ realm'.rate.objects := by
      rw [← Realm.rateOf_eq_some_iff, hsaved.rateOf]
      exact hrate
    exact List.filter_key_eq_singleton realm'.rate_nodup hmem

/-- The dollar and the yen. -/
theorem crossRateLaws_sample : ∃ response realm',
    saveRateData Platform.sample rateBody 0 Realm.empty = .ok (realm', {}) ∧
      "USD" ∈ response.quoted ∧ "JPY" ∈ response.quoted ∧ CrossRateLaws response realm' := by
  obtain ⟨realm', hsave, hlaws⟩ :=
    crossRateLaws_of_saved Platform.sample 0 Realm.empty decode_rateBody (by simp)
  refine ⟨_, realm', hsave, ?_, ?_, hlaws⟩
  · show "USDUSD" ∈ ["USDUSD", "USDJPY"]
    decide
  · show "USDJPY" ∈ ["USDUSD", "USDJPY"]
    decide

/-! ### The divisor -/

/-- **No division by zero**: whatever preferences are stored and whatever the amount, where
`calcurate` divides, the divisor is not zero. -/
def DivisionSafe (realm : Realm) : Prop :=
  ∀ store amount rateFromValue rateToValue, OnlyPreferences realm store →
    rateValues store = some (rateFromValue, rateToValue) →
      calcurate store amount = [.gotCaluculateResult (amount / rateFromValue * rateToValue)] ∧
        rateFromValue ≠ 0

/-- Without a record of rates there is no division. -/
theorem divisionSafe_of_no_record (h : realm.exchangeRateData.first = none) :
    DivisionSafe realm := by
  intro store amount a b hpref hvalues
  obtain ⟨-, d, -, hd, -⟩ := rateValues_eq_some_iff.mp hvalues
  rw [hpref.exchangeRateData, h] at hd
  cases hd

/-- Any pair of codes can be stored. -/
theorem exists_preference (realm : Realm) (A B : String) : ∃ store, OnlyPreferences realm store ∧
    store.userPreferenceData.first = some ⟨A, B⟩ := by
  refine ⟨setUserPreferenceData (setDefaultUserPreferenceData realm) (some A) (some B),
    (onlyPreferences_setDefault realm).trans (onlyPreferences_set _ _ _),
    ObjectTable.first_eq_some_of_objects (l := []) ?_⟩
  rw [objects_set, objects_setDefault]
  rfl

/-- After a save the values are the quotes of the two codes. -/
theorem RatesSaved.rateValues_of_preferences (h : RatesSaved realm response now realm')
    (hpref : OnlyPreferences realm' store)
    (hu : store.userPreferenceData.first = some ⟨A, B⟩) {a b : ℚ} :
    rateValues store = some (a, b) ↔ response.quote? A = some a ∧ response.quote? B = some b := by
  rw [rateValues_eq_some_iff, ← h.rateOf_source hpref A, ← h.rateOf_source hpref B]
  constructor
  · rintro ⟨u, d, hu', hd, hfrom, hto⟩
    rw [hu, Option.some.injEq] at hu'
    rw [h.exchangeRateData_first hpref, Option.some.injEq] at hd
    subst hu' hd
    exact ⟨hfrom, hto⟩
  · rintro ⟨hfrom, hto⟩
    exact ⟨_, _, hu, h.exchangeRateData_first hpref, hfrom, hto⟩

/-- **After a save the division is safe exactly when the payload quotes no code at zero.** -/
theorem RatesSaved.divisionSafe_iff_quotes (h : RatesSaved realm response now realm') :
    DivisionSafe realm' ↔ ∀ code, response.quote? code ≠ some 0 := by
  constructor
  · intro hsafe code hzero
    obtain ⟨store, hpref, hu⟩ := exists_preference realm' code code
    have hvalues := (h.rateValues_of_preferences hpref hu).mpr ⟨hzero, hzero⟩
    exact (hsafe store 0 0 0 hpref hvalues).2 rfl
  · intro hne store amount a b hpref hvalues
    refine ⟨calcurate_of_rateValues hvalues amount, ?_⟩
    rintro rfl
    obtain ⟨⟨A, B⟩, -, hu, -⟩ := rateValues_eq_some_iff.mp hvalues
    exact hne A ((h.rateValues_of_preferences hpref hu).mp hvalues).1

/-- **When a division is safe**: over an empty store always, and after a sequence of saves
exactly when the payload saved last quotes no code at zero under its source. -/
theorem divisionSafe_iff (P : Platform) : DivisionSafe Realm.empty ∧
    ∀ (saves : List (RateListPayload P × Date)) (realm : Realm), ∃ realm',
      RegisterBank.run StoreOp.step realm (saves.map fun save => .saveRateData save.1 save.2) =
          .ok realm' ∧
        (DivisionSafe realm' ↔ saves.getLast?.elim (DivisionSafe realm) fun save =>
          ∀ code, save.1.response.quote? code ≠ some 0) := by
  refine ⟨divisionSafe_of_no_record rfl, fun saves => ?_⟩
  induction saves with
  | nil => exact fun realm => ⟨realm, rfl, Iff.rfl⟩
  | cons save saves ih =>
    intro realm
    obtain ⟨realm₁, hstep, hsaved⟩ := save.1.step_saved save.2 realm
    obtain ⟨realm', hrun, hiff⟩ := ih realm₁
    refine ⟨realm', by rw [List.map_cons, RegisterBank.run_cons_of_ok hstep, hrun], ?_⟩
    rw [hiff, List.getLast?_cons]
    -- the payload of this save counts only when it is the last
    rcases saves.getLast? with _ | last
    · exact hsaved.divisionSafe_iff_quotes
    · rfl

/-- A body with a quote of zero. -/
def zeroQuoteBody : Data :=
  ("\x7b\"success\":true,\"timestamp\":1588782907,\"source\":\"USD\"," ++
    "\"quotes\":\x7b\"USDUSD\":1,\"USDVEF\":0\x7d\x7d").toUTF8.toList

/-- The value it spells. -/
def zeroQuoteJson : Json :=
  .object [("success", .bool true), ("timestamp", .number 1588782907), ("source", .string "USD"),
    ("quotes", .object [("USDUSD", .number 1), ("USDVEF", .number 0)])]

theorem decode_zeroQuoteBody :
    RateListResponse.decode (Platform.us [(zeroQuoteBody, zeroQuoteJson)]) zeroQuoteBody =
      some ⟨true, 1588782907, "USD", [("USDUSD", 1), ("USDVEF", 0)], by decide⟩ := by
  rw [RateListResponse.decode, Platform.json_us]
  rfl

/-- **A quote of zero reaches the division**: it is decoded and saved, and `calcurate` divides
by it. -/
theorem divisionSafe_fails : ∃ realm' store,
    saveRateData (Platform.us [(zeroQuoteBody, zeroQuoteJson)]) zeroQuoteBody 0 Realm.empty =
        .ok (realm', {}) ∧
      OnlyPreferences realm' store ∧ store.userPreferenceData.first = some ⟨"VEF", "USD"⟩ ∧
      rateValues store = some (0, 1) ∧ ¬DivisionSafe realm' := by
  obtain ⟨realm', hsave, hsaved⟩ := saveRateData_of_decode decode_zeroQuoteBody 0 Realm.empty
  obtain ⟨store, hpref, hu⟩ := exists_preference realm' "VEF" "USD"
  refine ⟨realm', store, hsave, hpref, hu, (hsaved.rateValues_of_preferences hpref hu).mpr ?_, ?_⟩
  · exact ⟨by decide, by decide⟩
  · rw [hsaved.divisionSafe_iff_quotes]
    intro hne
    exact hne "VEF" (by decide)

/-! ### The source currency -/

/-- **The source currency converts by the quotes themselves**: with the source on one side, an
amount is multiplied or divided by the quote of the other side. -/
def ConvertsByQuotes (response : RateListResponse) (realm' : Realm) : Prop :=
  ∀ store X n, X ∈ response.quoted → OnlyPreferences realm' store →
    (store.userPreferenceData.first = some ⟨response.source, X⟩ →
      calcurate store n = [.gotCaluculateResult (n * response.quote X)]) ∧
    (store.userPreferenceData.first = some ⟨X, response.source⟩ →
      calcurate store n = [.gotCaluculateResult (n / response.quote X)])

/-- **What the source currency converts by**: its own quote and the quote of the other side, and
nothing comes out when the payload does not quote it. -/
structure SourceConversion (response : RateListResponse) (realm' : Realm) : Prop where
  fromSource : ∀ store X n, X ∈ response.quoted → OnlyPreferences realm' store →
    store.userPreferenceData.first = some ⟨response.source, X⟩ →
      calcurate store n = [.gotCaluculateResult
        ((response.quote? response.source).elim 0 fun r => n / r * response.quote X)]
  toSource : ∀ store X n, X ∈ response.quoted → OnlyPreferences realm' store →
    store.userPreferenceData.first = some ⟨X, response.source⟩ →
      calcurate store n = [.gotCaluculateResult
        ((response.quote? response.source).elim 0 fun r => n / response.quote X * r)]
  /-- It converts by the quotes themselves exactly when the source is quoted at one, or no code
  is quoted at all. -/
  byQuotes_iff : ConvertsByQuotes response realm' ↔
    (response.quoted.Nonempty → response.quote? response.source = some 1)

theorem convert_fromSource {X : String} (hX : X ∈ response.quoted) (n : ℤ) :
    response.convert response.source X n =
      (response.quote? response.source).elim 0 fun r => n / r * response.quote X := by
  have hquote := RateListResponse.quote?_of_quoted hX
  rcases hs : response.quote? response.source with _ | r
  · exact RateListResponse.convert_of_none (Or.inl hs) n
  · exact RateListResponse.convert_of_some hs hquote n

theorem convert_toSource {X : String} (hX : X ∈ response.quoted) (n : ℤ) :
    response.convert X response.source n =
      (response.quote? response.source).elim 0 fun r => n / response.quote X * r := by
  have hquote := RateListResponse.quote?_of_quoted hX
  rcases hs : response.quote? response.source with _ | r
  · exact RateListResponse.convert_of_none (Or.inr hs) n
  · exact RateListResponse.convert_of_some hquote hs n

/-- When the source is quoted at one, the quotes themselves are what it converts by. -/
theorem RatesSaved.convertsByQuotes (h : RatesSaved realm response now realm')
    (hone : response.quoted.Nonempty → response.quote? response.source = some 1) :
    ConvertsByQuotes response realm' := by
  intro store X n hX hpref
  have hs := hone ⟨X, hX⟩
  constructor
  · intro hu
    rw [h.calcurate_of_preferences hpref hu, convert_fromSource hX, hs, Option.elim_some, div_one]
  · intro hu
    rw [h.calcurate_of_preferences hpref hu, convert_toSource hX, hs, Option.elim_some, mul_one]

/-- **The quotes themselves are what the source converts by only when it is quoted at one.** -/
theorem RatesSaved.quote_source_of_convertsByQuotes (h : RatesSaved realm response now realm')
    (hne : ∀ e ∈ response.quotes.entries, e.2 ≠ 0) (hconverts : ConvertsByQuotes response realm')
    {X : String} (hX : X ∈ response.quoted) : response.quote? response.source = some 1 := by
  have hquote := RateListResponse.quote_ne_zero hne hX
  obtain ⟨store, hpref, hu⟩ := exists_preference realm' response.source X
  have hresult := (hconverts store X 1 hX hpref).1 hu
  rw [h.calcurate_of_preferences hpref hu, convert_fromSource hX] at hresult
  simp only [List.cons.injEq, TopOutput.gotCaluculateResult.injEq, and_true, Int.cast_one,
    one_mul] at hresult
  -- one unit of the source came to its quote of `X`, so it was divided by one
  rcases hs : response.quote? response.source with _ | r
  · rw [hs, Option.elim_none] at hresult
    exact absurd hresult.symm hquote
  · rw [hs, Option.elim_some, mul_eq_right₀ hquote, one_div, inv_eq_one] at hresult
    rw [hresult]

/-- **The source currency, from the payload to the result.** -/
theorem sourceConversion_of_saved (P : Platform) {data : Data} (now : Date) (realm : Realm)
    (hdec : RateListResponse.decode P data = some response)
    (hne : ∀ e ∈ response.quotes.entries, e.2 ≠ 0) :
    ∃ realm', saveRateData P data now realm = .ok (realm', {}) ∧
      SourceConversion response realm' := by
  obtain ⟨realm', hsave, hsaved⟩ := saveRateData_of_decode hdec now realm
  refine ⟨realm', hsave, fun store X n hX hpref hu => ?_, fun store X n hX hpref hu => ?_, ?_⟩
  · rw [hsaved.calcurate_of_preferences hpref hu, convert_fromSource hX]
  · rw [hsaved.calcurate_of_preferences hpref hu, convert_toSource hX]
  · constructor
    · rintro hconverts ⟨X, hX⟩
      exact hsaved.quote_source_of_convertsByQuotes hne hconverts hX
    · exact hsaved.convertsByQuotes

/-- The dollar is quoted at one. -/
theorem sourceConversion_sample : ∃ response realm',
    saveRateData Platform.sample rateBody 0 Realm.empty = .ok (realm', {}) ∧
      SourceConversion response realm' ∧ ConvertsByQuotes response realm' := by
  obtain ⟨realm', hsave, hsource⟩ :=
    sourceConversion_of_saved Platform.sample 0 Realm.empty decode_rateBody (by simp)
  exact ⟨_, realm', hsave, hsource, hsource.byQuotes_iff.mpr fun _ => by decide +kernel⟩

/-- A body that does not quote the source against itself. -/
def noSourceQuoteBody : Data :=
  ("\x7b\"success\":true,\"timestamp\":1588782907,\"source\":\"USD\",\"quotes\":" ++
    "\x7b\"USDAED\":3.673104,\"USDAFN\":76.2023,\"USDALL\":114.000375\x7d\x7d").toUTF8.toList

/-- The value it spells. -/
def noSourceQuoteJson : Json :=
  .object [("success", .bool true), ("timestamp", .number 1588782907), ("source", .string "USD"),
    ("quotes", .object [("USDAED", .number (3673104 / 1000000)),
      ("USDAFN", .number (762023 / 10000)), ("USDALL", .number (114000375 / 1000000))])]

theorem decode_noSourceQuoteBody :
    RateListResponse.decode (Platform.us [(noSourceQuoteBody, noSourceQuoteJson)])
        noSourceQuoteBody =
      some ⟨true, 1588782907, "USD", [("USDAED", 3673104 / 1000000), ("USDAFN", 762023 / 10000),
        ("USDALL", 114000375 / 1000000)], by decide⟩ := by
  rw [RateListResponse.decode, Platform.json_us]
  rfl

/-- **Without a quote of the source every conversion of it gives zero**: a hundred dollars are
no dirhams. -/
theorem convertsByQuotes_fails : ∃ response realm' store,
    RateListResponse.decode (Platform.us [(noSourceQuoteBody, noSourceQuoteJson)])
        noSourceQuoteBody = some response ∧
      (∀ e ∈ response.quotes.entries, e.2 ≠ 0) ∧
      saveRateData (Platform.us [(noSourceQuoteBody, noSourceQuoteJson)]) noSourceQuoteBody 0
        Realm.empty = .ok (realm', {}) ∧
      OnlyPreferences realm' store ∧ store.userPreferenceData.first = some ⟨"USD", "AED"⟩ ∧
      response.quote? "AED" = some (3673104 / 1000000) ∧
      calcurate store 100 = [.gotCaluculateResult 0] ∧ ¬ConvertsByQuotes response realm' := by
  obtain ⟨realm', hsave, hsaved⟩ := saveRateData_of_decode decode_noSourceQuoteBody 0 Realm.empty
  obtain ⟨store, hpref, hu⟩ := exists_preference realm' "USD" "AED"
  have hnonzero : ∀ e ∈ [("USDAED", (3673104 / 1000000 : ℚ)), ("USDAFN", 762023 / 10000),
      ("USDALL", 114000375 / 1000000)], e.2 ≠ 0 := by simp
  refine ⟨_, realm', store, decode_noSourceQuoteBody, hnonzero, hsave, hpref, hu,
    by decide +kernel, ?_, fun hconverts => ?_⟩
  · rw [hsaved.calcurate_of_preferences hpref hu, RateListResponse.convert_of_none (Or.inl _)]
    decide
  · have hquoted : "USDAED" ∈ ["USDAED", "USDAFN", "USDALL"] := by decide
    have hone := hsaved.quote_source_of_convertsByQuotes hnonzero hconverts (X := "AED") hquoted
    revert hone
    decide

end ExchangeRate
