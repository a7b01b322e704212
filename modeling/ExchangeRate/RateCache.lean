import ExchangeRate.Session

/-!
# The rates in the store and their cache

A save of rates deletes the record and the rates of before, so the store always holds
one payload: that of the last save, or none (`ExchangeRate.RateRecords`). The record
and the rates belong together whatever the order of events, and the record a fetch
reads is the one of the last save – which is what
`ExchangeRate.rateStoreLaw_of_reaches` states for every state a session reaches.

The rates reach the output on two paths, through the handler of the request and
through the cache. The cache delivers what is stored, but the handler delivers the list
of a record that nobody fills, so the paths agree only on a payload without quotes
(`ExchangeRate.pathsAgree_iff`).
-/

namespace ExchangeRate

open Session

variable {P : Platform} {t₀ : Date}

/-! ### The payload in the store -/

/-- **The store holds the last save**: nothing before the first one, and after it one
record whose list is the list of all rates – those of the response. -/
def RateRecords (last : Option (Date × RateListResponse)) (realm : Realm) : Prop :=
  match last with
  | none => realm.exchangeRateData.objects = [] ∧ realm.rate.objects = []
  | some (t, response) =>
    realm.exchangeRateData.objects =
        [⟨response.timestamp, some t, response.source, realm.rate.keys⟩] ∧
      realm.rate.objects = response.toRates

/-- The payload depends on two tables only. -/
theorem RateRecords.congr {last : Option (Date × RateListResponse)} {realm realm' : Realm}
    (h : RateRecords last realm) (hr : realm'.rate = realm.rate)
    (he : realm'.exchangeRateData = realm.exchangeRateData) : RateRecords last realm' := by
  cases last with
  | none => exact ⟨by rw [he]; exact h.1, by rw [hr]; exact h.2⟩
  | some save => exact ⟨by rw [he, hr]; exact h.1, by rw [hr]; exact h.2⟩

theorem RateRecords.of_saved {realm realm' : Realm} {response : RateListResponse} {now : Date}
    (h : RatesSaved realm response now realm') : RateRecords (some (now, response)) realm' :=
  ⟨h.exchangeRateData_objects, h.rate_objects⟩

/-- The store holds the last save, in every state a session reaches. -/
theorem rateRecords_of_reaches {es : List SessionEvent} {s : Session}
    (h : (Session.machine P t₀).Reaches es s) :
    RateRecords (rateSaves P es).getLast? s.realm := by
  refine StepMachine.Reaches.invariant (M := Session.machine P t₀)
    (I := fun es s => RateRecords (rateSaves P es).getLast? s.realm)
    ⟨rfl, rfl⟩ (fun es s e s' _ hI hstep => ?_) h
  rw [rateSaves_concat]
  rcases step_cases hstep with ⟨-, hr, hpref⟩ | ⟨now, response, -, hr, hsaved⟩ |
    ⟨now, response, -, hr, hsaved⟩
  · rw [hr, Option.toList_none, List.append_nil]
    exact hI.congr hpref.rate hpref.exchangeRateData
  · rw [hr, Option.toList_none, List.append_nil]
    exact hI.congr hsaved.rate hsaved.exchangeRateData
  · rw [hr, Option.toList_some, List.getLast?_concat]
    exact RateRecords.of_saved hsaved

/-! ### What a fetch answers -/

/-- A fetch leaves the store alone, and has as many more requests in flight as it starts. -/
theorem step_fetchRateData {s : Session} {now : Date} (h : s.clock ≤ now) :
    step P s (.fetchRateData now) = some
      { s with
        clock := now
        rateTasks := s.rateTasks + requests (fetchRateData s.realm now) } :=
  if_pos h

/-- After a save at `t`, its rates are delivered for half an hour, and requested later. -/
theorem fetchRateData_of_records {realm : Realm} {t : Date} {response : RateListResponse}
    (h : RateRecords (some (t, response)) realm) (now : Date) :
    fetchRateData realm now =
      if now - t < 1800 then [.gotRateList response.toRates] else [.dataTask rateURL] := by
  obtain ⟨hrecord, hrates⟩ := h
  have hquotes : realm.quotesOf
      ⟨response.timestamp, some t, response.source, realm.rate.keys⟩ = response.toRates := by
    rw [Realm.quotesOf, ObjectTable.resolve_keys, hrates]
  have hdate : ExchangeRateData.savedAt (⟨response.timestamp, some t, response.source,
      realm.rate.keys⟩ : ExchangeRateData ObjKey) = some t := rfl
  rw [fetchRateData, ObjectTable.first_eq_some_of_objects hrecord,
    fetchData_some ofString_getRateAPIPath hdate, hquotes]

/-! ### The law -/

/-- **The law of the rate store**, in a state reached by the events `es`. -/
structure RateStoreLaw (P : Platform) (es : List SessionEvent) (s : Session) : Prop where
  /-- There is at most one record. -/
  single : s.realm.exchangeRateData.objects.length ≤ 1
  /-- Its list enumerates the rates of the store, each once. -/
  enumerates : ∀ d ∈ s.realm.exchangeRateData.objects,
    d.quotes.Nodup ∧ ∀ k, k ∈ d.quotes ↔ k ∈ s.realm.rate.keys
  /-- There are no rates without a record. -/
  no_orphans : s.realm.exchangeRateData.objects = [] → s.realm.rate.objects = []
  /-- No two rates have the same code. -/
  distinct : (s.realm.rate.objects.map Rate.code).Nodup
  /-- Source, timestamp and rates come from one payload, and so does every rate that a
  lookup by code finds. -/
  one_payload : ∀ d ∈ s.realm.exchangeRateData.objects, ∃ t response,
    (t, response) ∈ rateSaves P es ∧ d.savedAt = some t ∧
      d.timestamp = response.timestamp ∧ d.source = response.source ∧
      (s.realm.rate.objects.map fun r => (r.code, r.rate)).Perm response.quotes.entries ∧
      ∀ code, s.realm.rateOf code = response.quotes.lookup code
  /-- After a save at `t`, a fetch leaves the store alone; it delivers the quotes of the saved
  payload without a request for half an hour, and starts one request later. -/
  fetch : ∀ t response now, (rateSaves P es).getLast? = some (t, response) → s.clock ≤ now →
    ∃ s', step P s (.fetchRateData now) = some s' ∧ s'.realm = s.realm ∧
      (now - t < 1800 → s'.rateTasks = s.rateTasks ∧
        ∃ data, fetchRateData s.realm now = [.gotRateList data] ∧
          (data.map fun r => (r.code, r.rate)).Perm response.quotes.entries) ∧
      (1800 ≤ now - t → s'.rateTasks = s.rateTasks + 1 ∧
        fetchRateData s.realm now = [.dataTask rateURL])

/-- The record of a store that holds a payload belongs to it. -/
theorem RateRecords.one_payload {t : Date} {response : RateListResponse} {realm : Realm}
    (h : RateRecords (some (t, response)) realm) {d : ExchangeRateData ObjKey}
    (hd : d ∈ realm.exchangeRateData.objects) :
    d.savedAt = some t ∧ d.timestamp = response.timestamp ∧ d.source = response.source ∧
      (realm.rate.objects.map fun r => (r.code, r.rate)).Perm response.quotes.entries ∧
      ∀ code, realm.rateOf code = response.quotes.lookup code := by
  rw [h.1, List.mem_singleton] at hd
  subst hd
  refine ⟨rfl, rfl, rfl, by rw [h.2, response.map_pair_toRates], fun code => ?_⟩
  rw [Realm.rateOf_eq_lookup, h.2, response.map_pair_toRates, Dictionary.lookup]

/-- **Every state a session reaches obeys the law of the rate store.** -/
theorem rateStoreLaw_of_reaches {es : List SessionEvent} {s : Session}
    (h : (Session.machine P t₀).Reaches es s) : RateStoreLaw P es s := by
  have hrecords := rateRecords_of_reaches h
  rcases hlast : (rateSaves P es).getLast? with _ | ⟨t, response⟩
  · rw [hlast] at hrecords
    obtain ⟨hnone, hrates⟩ := hrecords
    refine ⟨by simp [hnone], by simp [hnone], fun _ => hrates, s.realm.rate_nodup,
      by simp [hnone], fun t' response' now hlast' => ?_⟩
    rw [hlast] at hlast'
    cases hlast'
  · rw [hlast] at hrecords
    have hrecord := hrecords.1
    refine ⟨by simp [hrecord], fun d hd => ?_, fun hnil => ?_, s.realm.rate_nodup,
      fun d hd => ⟨t, response, List.mem_of_getLast? hlast, hrecords.one_payload hd⟩,
      fun t' response' now hlast' hclock => ?_⟩
    · rw [hrecord, List.mem_singleton] at hd
      subst hd
      exact ⟨s.realm.rate.keys_nodup, fun k => Iff.rfl⟩
    · rw [hrecord] at hnil
      cases hnil
    · rw [hlast, Option.some.injEq, Prod.mk.injEq] at hlast'
      obtain ⟨rfl, rfl⟩ := hlast'
      have hanswer := fetchRateData_of_records hrecords now
      refine ⟨_, step_fetchRateData hclock, rfl, fun hfresh => ?_, fun hstale => ?_⟩
      · rw [if_pos hfresh] at hanswer
        rw [hanswer]
        exact ⟨rfl, _, rfl, by rw [response.map_pair_toRates]⟩
      · rw [if_neg (not_lt.mpr hstale)] at hanswer
        rw [hanswer]
        exact ⟨rfl, rfl⟩

/-! ### A run -/

/-- A launch and the completion of its rate request. -/
theorem rateStoreLaw_after_launch : ∃ s, RateStoreLaw Platform.sample
    [.launch 0, .rateCompletion rateBody 1] s ∧ s.realm.rate.objects.length = 2 := by
  have h : ((Session.machine Platform.sample 0).exec (Session.machine Platform.sample 0).init
      [.launch 0, .rateCompletion rateBody 1]).map
      (fun s => s.realm.rate.objects.length) = some 2 := by decide +kernel
  rw [Option.map_eq_some_iff] at h
  obtain ⟨s, hs, htwo⟩ := h
  exact ⟨s, rateStoreLaw_of_reaches hs, htwo⟩

/-! ### The two paths to the output -/

/-- **The paths agree** on a payload: the handler of the request delivers the quotes, each once,
and a fetch at `now'` delivers the same rates from the store. -/
def PathsAgree (P : Platform) (data : Data) (response : RateListResponse) (now now' : Date)
    (realm : Realm) : Prop :=
  ∃ realm' delivered cached,
    rateCompletion P (some data) now realm = .ok (realm', [.gotRateList delivered]) ∧
      fetchRateData realm' now' = [.gotRateList cached] ∧
      (delivered.map fun r => (r.code, r.rate)).Perm response.quotes.entries ∧
      delivered.Perm cached

/-- What the two paths deliver: nothing, and the stored quotes. -/
theorem rateCompletion_then_fetch {data : Data} {response : RateListResponse} {now now' : Date}
    (hdec : RateListResponse.decode P data = some response) (hsoon : now' - now < 1800)
    (realm : Realm) : ∃ realm',
      rateCompletion P (some data) now realm = .ok (realm', [.gotRateList []]) ∧
        fetchRateData realm' now' = [.gotRateList response.toRates] := by
  obtain ⟨realm', hsave, hsaved⟩ := saveRateData_of_decode hdec now realm
  refine ⟨realm', by rw [rateCompletion, hsave], ?_⟩
  rw [fetchRateData_of_records (RateRecords.of_saved hsaved) now', if_pos hsoon]

/-- The handler delivers no rates, so the payload has none when the paths agree. -/
theorem entries_eq_nil_of_pathsAgree {data : Data} {response : RateListResponse}
    {now now' : Date} {realm : Realm} (hdec : RateListResponse.decode P data = some response)
    (hsoon : now' - now < 1800) (h : PathsAgree P data response now now' realm) :
    response.quotes.entries = [] := by
  obtain ⟨realm', delivered, cached, hok, -, hentries, -⟩ := h
  obtain ⟨realm₁, hok₁, -⟩ := rateCompletion_then_fetch hdec hsoon realm
  rw [hok] at hok₁
  cases hok₁
  rw [List.map_nil] at hentries
  exact hentries.symm.eq_nil

/-- **When the network path and the cache path agree**: on the payloads without quotes, over
every store. -/
theorem pathsAgree_iff {data : Data} {response : RateListResponse} {now now' : Date}
    (realm : Realm) (hdec : RateListResponse.decode P data = some response)
    (hsoon : now' - now < 1800) :
    PathsAgree P data response now now' realm ↔ response.quotes.entries = [] := by
  constructor
  · exact entries_eq_nil_of_pathsAgree hdec hsoon
  · intro hnil
    obtain ⟨realm', hok, hfetch⟩ := rateCompletion_then_fetch hdec hsoon realm
    have hrates : response.toRates = [] := by rw [RateListResponse.toRates, hnil, List.map_nil]
    rw [hrates] at hfetch
    exact ⟨realm', [], [], hok, hfetch, by rw [hnil, List.map_nil], .refl []⟩

/-- A body without quotes. -/
def noQuotesBody : Data :=
  ("\x7b\"success\":true,\"timestamp\":1588782907,\"source\":\"USD\"," ++
    "\"quotes\":\x7b\x7d\x7d").toUTF8.toList

/-- The value it spells. -/
def noQuotesJson : Json :=
  .object [("success", .bool true), ("timestamp", .number 1588782907), ("source", .string "USD"),
    ("quotes", .object [])]

/-- On it the paths agree. -/
theorem pathsAgree_noQuotes :
    PathsAgree (Platform.us [(noQuotesBody, noQuotesJson)]) noQuotesBody
      ⟨true, 1588782907, "USD", Dictionary.empty⟩ 0 1 Realm.empty := by
  have hdec : RateListResponse.decode (Platform.us [(noQuotesBody, noQuotesJson)]) noQuotesBody =
      some ⟨true, 1588782907, "USD", Dictionary.empty⟩ := by
    rw [RateListResponse.decode, Platform.json_us]
    rfl
  exact (pathsAgree_iff Realm.empty hdec (by norm_num)).mpr rfl

/-- **The paths disagree on the first rates an installation receives**: the handler delivers
none, and the store both. -/
theorem pathsAgree_fails : ∃ response,
    RateListResponse.decode Platform.sample rateBody = some response ∧
      response.quotes.entries = [("USDUSD", 1), ("USDJPY", 213 / 2)] ∧
      (∃ realm', rateCompletion Platform.sample (some rateBody) 0 Realm.empty =
          .ok (realm', [.gotRateList []]) ∧
        fetchRateData realm' 1 = [.gotRateList [⟨"USDUSD", 1⟩, ⟨"USDJPY", 213 / 2⟩]]) ∧
      ¬PathsAgree Platform.sample rateBody response 0 1 Realm.empty := by
  have hsoon : (1 : Date) - 0 < 1800 := by norm_num
  refine ⟨_, decode_rateBody, rfl, rateCompletion_then_fetch decode_rateBody hsoon Realm.empty,
    fun h => ?_⟩
  have hnil := entries_eq_nil_of_pathsAgree decode_rateBody hsoon h
  cases hnil

end ExchangeRate
