import ExchangeRate.Transactions

/-!
# Which response bodies the handlers survive

Both completion handlers decode with `try!` and never look at the `success` field. So
a body is handled as a reply should be – the process goes on, and a reply that brings
nothing leaves the store alone – exactly when it decodes and says that it succeeded
(`ExchangeRate.survivesBodies_iff`). The error object of the service, which has no
`currencies` and no `quotes`, stops the process
(`ExchangeRate.errorBody_not_survived`).
-/

namespace ExchangeRate

/-- **A body is survived**: the handler returns, and unless the body is accepted – it
decodes, with `success` set – the store is what it was. -/
def SurvivesBody {ρ : Type} (decoded : Option ρ) (success : ρ → Bool)
    (handler : Realm → Except Trap (Realm × List TopOutput)) (realm : Realm) : Prop :=
  ∃ realm' outputs, handler realm = .ok (realm', outputs) ∧
    ((∀ response, decoded = some response → success response = false) → realm' = realm)

/-- The currency list handler survives the body. -/
def SurvivesCurrencyListBody (P : Platform) (data : Data) (now : Date) (realm : Realm) : Prop :=
  SurvivesBody (CurrencyListResponse.decode P data) CurrencyListResponse.success
    (currencyListCompletion P (some data) now) realm

/-- The rate handler survives the body. -/
def SurvivesRateBody (P : Platform) (data : Data) (now : Date) (realm : Realm) : Prop :=
  SurvivesBody (RateListResponse.decode P data) RateListResponse.success
    (rateCompletion P (some data) now) realm

section Handler

variable {ρ : Type} {decoded : Option ρ} {success : ρ → Bool} {realm : Realm}
  {handler : Realm → Except Trap (Realm × List TopOutput)}

/-- A handler that traps when the body does not decode, and otherwise writes whatever the
body says about its success, survives exactly the bodies that decode as successful. -/
theorem survivesBody_iff
    (hcases : (decoded = none ∧ handler realm = .error .decoding) ∨
      ∃ response realm' outputs, decoded = some response ∧
        handler realm = .ok (realm', outputs) ∧ realm' ≠ realm) :
    SurvivesBody decoded success handler realm ↔
      ∃ response, decoded = some response ∧ success response = true := by
  rcases hcases with ⟨rfl, htrap⟩ | ⟨response, realm', outputs, rfl, hok, hne⟩
  · constructor
    · rintro ⟨realm', outputs, hok, -⟩
      rw [htrap] at hok
      cases hok
    · rintro ⟨response, hdec, -⟩
      cases hdec
  · constructor
    · rintro ⟨realm₁, outputs₁, hok₁, hkeep⟩
      rw [hok] at hok₁
      cases hok₁
      -- a store that changed means that the body was accepted
      have hacc : ¬∀ r, some response = some r → success r = false := fun h => hne (hkeep h)
      refine ⟨response, rfl, ?_⟩
      by_contra hs
      refine hacc fun r hr => ?_
      cases hr
      exact Bool.eq_false_iff.mpr hs
    · rintro ⟨r, hr, hs⟩
      cases hr
      refine ⟨realm', outputs, hok, fun hunsuccessful => ?_⟩
      rw [hunsuccessful response rfl] at hs
      cases hs

end Handler

/-- A save of currencies leaves another store: it has one record more. -/
theorem CurrenciesSaved.ne {realm realm' : Realm} {response : CurrencyListResponse} {now : Date}
    (h : CurrenciesSaved realm response now realm') : realm' ≠ realm := by
  rintro rfl
  have hlen := congrArg (fun t => t.objects.length) h.currencyData
  simp at hlen

/-- A save of rates leaves another store: the record in it has a key that is new. -/
theorem RatesSaved.ne {realm realm' : Realm} {response : RateListResponse} {now : Date}
    (h : RatesSaved realm response now realm') : realm' ≠ realm := by
  rintro rfl
  have hnew : realm'.exchangeRateData.next ∈ realm'.exchangeRateData.keys := by
    have hkeys : realm'.exchangeRateData.keys = [realm'.exchangeRateData.next] := by
      conv_lhs => rw [h.exchangeRateData]
      simp
    rw [hkeys]
    exact List.mem_singleton_self _
  exact absurd (ObjectTable.lt_next_of_mem_keys hnew) (lt_irrefl _)

/-- **Exactly the bodies that decode with `success` set are survived**, by either handler and
over every store. -/
theorem survivesBodies_iff (P : Platform) (data : Data) (now : Date) (realm : Realm) :
    (SurvivesCurrencyListBody P data now realm ↔
      ∃ response, CurrencyListResponse.decode P data = some response ∧ response.success = true) ∧
    (SurvivesRateBody P data now realm ↔
      ∃ response, RateListResponse.decode P data = some response ∧ response.success = true) := by
  constructor
  · refine survivesBody_iff ?_
    rcases currencyListCompletion_cases P data now realm with h |
      ⟨response, realm', hdec, hok, hsaved⟩
    · exact Or.inl h
    · exact Or.inr ⟨response, realm', _, hdec, hok, hsaved.ne⟩
  · refine survivesBody_iff ?_
    rcases rateCompletion_cases P data now realm with h | ⟨response, realm', hdec, hok, hsaved⟩
    · exact Or.inl h
    · exact Or.inr ⟨response, realm', _, hdec, hok, hsaved.ne⟩

/-- The body the service answers a bad access key with. -/
def errorBody : Data :=
  "\x7b\"success\":false,\"error\":\x7b\"code\":101,\"type\":\"invalid_access_key\"\x7d\x7d".toUTF8.toList

/-- The value it spells. -/
def errorJson : Json :=
  .object [("success", .bool false),
    ("error", .object [("code", .number 101), ("type", .string "invalid_access_key")])]

/-- **The error object of the service is not survived**: both handlers trap on it. -/
theorem errorBody_not_survived :
    ¬∀ (data : Data) (now : Date) (realm : Realm),
      SurvivesCurrencyListBody (Platform.us [(errorBody, errorJson)]) data now realm ∧
        SurvivesRateBody (Platform.us [(errorBody, errorJson)]) data now realm := by
  intro h
  have hdec : CurrencyListResponse.decode (Platform.us [(errorBody, errorJson)]) errorBody =
      none := by
    rw [CurrencyListResponse.decode, Platform.json_us]
    rfl
  obtain ⟨realm', outputs, hok, -⟩ := (h errorBody 0 Realm.empty).1
  rw [currencyListCompletion, saveCurrencyData, hdec] at hok
  cases hok

end ExchangeRate
