import ExchangeRate.Session

/-!
# The cache of the currency list

A fetch reads the *first* `CurrencyData` of the store, and a save adds one without
deleting those of before. So the records pile up, one for each save
(`ExchangeRate.CurrencyRecords`), and the one a fetch reads is the oldest: its date is
that of the first save, and its list is empty from the second save on, because the
currencies it held have been deleted.

As long as there has been one save the oldest record is also the latest, and the
cache does what it is for. `ExchangeRate.currencyCacheLaw_iff` says that it does so in
exactly the runs that commit at most one save, and
`ExchangeRate.fetchCurrencyListData_of_two_saves` says what a fetch answers in the
others.
-/

namespace ExchangeRate

open Session

variable {P : Platform} {t₀ : Date}

/-- **The law of the cache**, in a state reached by the events `es`: there is at most one
record; and after a save at `t`, a fetch leaves the store alone, and delivers the entries of
the saved dictionary without a request for half an hour, and starts one request later. -/
structure CurrencyCacheLaw (P : Platform) (es : List SessionEvent) (s : Session) : Prop where
  single : s.realm.currencyData.objects.length ≤ 1
  fetch : ∀ t response now, (currencySaves P es).getLast? = some (t, response) → s.clock ≤ now →
    ∃ s', step P s (.fetchCurrencyListData now) = some s' ∧ s'.realm = s.realm ∧
      (now - t < 1800 → s'.currencyTasks = s.currencyTasks ∧
        ∃ data, fetchCurrencyListData s.realm now = [.gotCurrencyList data] ∧
          (data.map fun c => (c.code, c.fullname)).Perm response.currencies.entries) ∧
      (1800 ≤ now - t → s'.currencyTasks = s.currencyTasks + 1 ∧
        fetchCurrencyListData s.realm now = [.dataTask currencyListURL])

/-! ### The records and the saves -/

/-- **One record for each save**, in order; the last one lists the currencies of the last
save, and the ones before it list nothing. -/
structure CurrencyRecords (saves : List (Date × CurrencyListResponse)) (realm : Realm) :
    Prop where
  dates : realm.currencyData.objects.map CurrencyData.savedAt = saves.map fun save => some save.1
  latest : ∀ t response, saves.getLast? = some (t, response) →
    ∃ d, realm.currencyData.objects.getLast? = some d ∧
      realm.currenciesOf d = response.toCurrencies
  earlier : ∀ d ∈ realm.currencyData.objects.dropLast, d.currencies = []

namespace CurrencyRecords

variable {saves : List (Date × CurrencyListResponse)} {realm realm' : Realm} {now : Date}
  {response : CurrencyListResponse}

theorem empty : CurrencyRecords [] Realm.empty :=
  ⟨rfl, by simp, by simp [Realm.empty]⟩

/-- The records depend on two tables only. -/
theorem congr (h : CurrencyRecords saves realm) (hc : realm'.currency = realm.currency)
    (hd : realm'.currencyData = realm.currencyData) : CurrencyRecords saves realm' := by
  refine ⟨by rw [hd]; exact h.dates, fun t response hlast => ?_, by rw [hd]; exact h.earlier⟩
  obtain ⟨d, hdlast, hdlist⟩ := h.latest t response hlast
  refine ⟨d, by rw [hd]; exact hdlast, ?_⟩
  rw [Realm.currenciesOf, hc]
  exact hdlist

/-- A save adds the record of the save at the end and empties the others. -/
theorem concat (h : CurrencyRecords saves realm)
    (hsaved : CurrenciesSaved realm response now realm') :
    CurrencyRecords (saves ++ [(now, response)]) realm' := by
  have hobjects : realm'.currencyData.objects =
      realm.currencyData.objects.map (fun d => { d with currencies := [] }) ++
        [⟨some now, realm.currency.freshKeys response.toCurrencies⟩] := by
    rw [hsaved.currencyData, ObjectTable.objects_insert, ObjectTable.objects_mapObjects]
  refine ⟨?_, fun t r hlast => ?_, fun d hd => ?_⟩
  · rw [hobjects, List.map_append, List.map_append, List.map_map, ← h.dates]
    rfl
  · rw [List.getLast?_concat, Option.some.injEq, Prod.mk.injEq] at hlast
    obtain ⟨rfl, rfl⟩ := hlast
    exact ⟨_, by rw [hobjects, List.getLast?_concat], hsaved.currenciesOf⟩
  · rw [hobjects, List.dropLast_concat, List.mem_map] at hd
    obtain ⟨d', -, rfl⟩ := hd
    rfl

theorem length_eq (h : CurrencyRecords saves realm) :
    realm.currencyData.objects.length = saves.length := by
  simpa using congrArg List.length h.dates

/-- The record a fetch reads carries the date of the first save. -/
theorem first_savedAt (h : CurrencyRecords saves realm) {d : CurrencyData ObjKey}
    (hd : realm.currencyData.first = some d) {save : Date × CurrencyListResponse}
    (hsave : saves.head? = some save) : d.savedAt = some save.1 := by
  have hdates := congrArg List.head? h.dates
  rw [List.head?_map, List.head?_map, hsave] at hdates
  rw [ObjectTable.first] at hd
  rw [hd] at hdates
  simpa using hdates

end CurrencyRecords

/-- The records are those of the saves, in every state a session reaches. -/
theorem currencyRecords_of_reaches {es : List SessionEvent} {s : Session}
    (h : (Session.machine P t₀).Reaches es s) : CurrencyRecords (currencySaves P es) s.realm := by
  refine StepMachine.Reaches.invariant (M := Session.machine P t₀)
    (I := fun es s => CurrencyRecords (currencySaves P es) s.realm)
    CurrencyRecords.empty (fun es s e s' _ hI hstep => ?_) h
  rw [currencySaves_concat]
  rcases step_cases hstep with ⟨hc, -, hpref⟩ | ⟨now, response, hc, -, hsaved⟩ |
    ⟨now, response, hc, -, hsaved⟩
  · rw [hc, Option.toList_none, List.append_nil]
    exact hI.congr hpref.currency hpref.currencyData
  · rw [hc, Option.toList_some]
    exact hI.concat hsaved
  · rw [hc, Option.toList_none, List.append_nil]
    exact hI.congr hsaved.currency hsaved.currencyData

/-! ### What a fetch answers -/

/-- A fetch leaves the store alone, and has as many more requests in flight as it starts. -/
theorem step_fetchCurrencyListData {s : Session} {now : Date} (h : s.clock ≤ now) :
    step P s (.fetchCurrencyListData now) = some
      { s with
        clock := now
        currencyTasks := s.currencyTasks + requests (fetchCurrencyListData s.realm now) } :=
  if_pos h

/-- **After a second save the first record answers**: until half an hour after the *first*
save every fetch delivers an empty list, and from then on every fetch starts a request,
whenever the last save was. -/
theorem fetchCurrencyListData_of_two_saves {saves : List (Date × CurrencyListResponse)}
    {realm : Realm} (h : CurrencyRecords saves realm) {t : Date} {response : CurrencyListResponse}
    {later : List (Date × CurrencyListResponse)} (hsaves : saves = (t, response) :: later)
    (hlater : later ≠ []) (now : Date) :
    fetchCurrencyListData realm now =
      if now - t < 1800 then [.gotCurrencyList []] else [.dataTask currencyListURL] := by
  subst hsaves
  have hlen : 2 ≤ realm.currencyData.objects.length := by
    rw [h.length_eq, List.length_cons]
    have := List.length_pos_of_ne_nil hlater
    omega
  -- the first record is not the last one, so its list was emptied
  rcases hobjects : realm.currencyData.objects with _ | ⟨d, _ | ⟨d', ds⟩⟩
  · simp [hobjects] at hlen
  · simp [hobjects] at hlen
  · have hfirst := ObjectTable.first_eq_some_of_objects hobjects
    have hnil : d.currencies = [] := h.earlier d (by simp [hobjects])
    have hdate := h.first_savedAt hfirst List.head?_cons
    rw [fetchCurrencyListData, hfirst, fetchData_some ofString_getCurrencyListAPIPath hdate,
      Realm.currenciesOf, hnil, ObjectTable.resolve_nil]

/-- While there has been one save, its record answers. -/
theorem fetchCurrencyListData_of_one_save {realm : Realm} {t : Date}
    {response : CurrencyListResponse} (h : CurrencyRecords [(t, response)] realm) (now : Date) :
    fetchCurrencyListData realm now =
      if now - t < 1800 then [.gotCurrencyList response.toCurrencies]
      else [.dataTask currencyListURL] := by
  obtain ⟨d, hlast, hlist⟩ := h.latest t response rfl
  have hlen := h.length_eq
  rw [List.length_singleton, List.length_eq_one_iff] at hlen
  obtain ⟨d', hobjects⟩ := hlen
  obtain rfl : d' = d := by simpa [hobjects] using hlast
  have hfirst := ObjectTable.first_eq_some_of_objects hobjects
  have hdate := h.first_savedAt hfirst List.head?_cons
  rw [fetchCurrencyListData, hfirst, fetchData_some ofString_getCurrencyListAPIPath hdate, hlist]

/-- The law holds while at most one save has been committed. -/
theorem CurrencyCacheLaw.of_records {es : List SessionEvent} {s : Session}
    (h : CurrencyRecords (currencySaves P es) s.realm) (hone : (currencySaves P es).length ≤ 1) :
    CurrencyCacheLaw P es s := by
  refine ⟨by rw [h.length_eq]; exact hone, fun t response now hlast hclock => ?_⟩
  have hsaves : currencySaves P es = [(t, response)] := by
    rcases hes : currencySaves P es with _ | ⟨save, _ | ⟨save', saves⟩⟩
    · rw [hes] at hlast
      cases hlast
    · rw [hes, List.getLast?_singleton, Option.some.injEq] at hlast
      rw [hlast]
    · rw [hes, List.length_cons, List.length_cons] at hone
      omega
  rw [hsaves] at h
  have hanswer := fetchCurrencyListData_of_one_save h now
  refine ⟨_, step_fetchCurrencyListData hclock, rfl, fun hfresh => ?_, fun hstale => ?_⟩
  · rw [if_pos hfresh] at hanswer
    rw [hanswer]
    exact ⟨rfl, _, rfl, by rw [response.map_pair_toCurrencies]⟩
  · rw [if_neg (not_lt.mpr hstale)] at hanswer
    rw [hanswer]
    exact ⟨rfl, rfl⟩

/-- **The cache keeps its law in exactly the runs that commit at most one save.** -/
theorem currencyCacheLaw_iff {es : List SessionEvent} {s : Session}
    (h : (Session.machine P t₀).Reaches es s) :
    (Session.machine P t₀).Always es (CurrencyCacheLaw P) ↔ (currencySaves P es).length ≤ 1 := by
  constructor
  · intro hlaw
    have hsingle := (hlaw es List.prefix_rfl s h).single
    rwa [(currencyRecords_of_reaches h).length_eq] at hsingle
  · -- a prefix commits no more saves than the run
    intro hone pre hpre s' hs'
    refine CurrencyCacheLaw.of_records (currencyRecords_of_reaches hs') (le_trans ?_ hone)
    exact (hpre.sublist.filterMap (currencySave P)).length_le

/-! ### A run with two saves -/

/-- A fetch and its completion, and the same once more when half an hour has passed. -/
def twoSaves : List SessionEvent :=
  [.fetchCurrencyListData 0, .currencyListCompletion currencyListBody 1,
    .fetchCurrencyListData 1801, .currencyListCompletion currencyListBody 1802]

theorem twoSaves_reaches : ∃ s, (Session.machine Platform.sample 0).Reaches twoSaves s ∧
    s.realm.currencyData.objects.length = 2 := by
  have h : ((Session.machine Platform.sample 0).exec (Session.machine Platform.sample 0).init
      twoSaves).map (fun s => s.realm.currencyData.objects.length) = some 2 := by decide +kernel
  rw [Option.map_eq_some_iff] at h
  exact h

/-- With the first save only, the law holds all along. -/
theorem currencyCacheLaw_oneSave :
    (Session.machine Platform.sample 0).Always (twoSaves.take 2)
      (CurrencyCacheLaw Platform.sample) := by
  obtain ⟨s, hs, -⟩ := twoSaves_reaches
  obtain ⟨s₁, hs₁⟩ := hs.initial (List.take_prefix 2 twoSaves)
  exact (currencyCacheLaw_iff hs₁).mpr (by decide +kernel)

/-- **The law fails after a second save**: there are two records then. -/
theorem currencyCacheLaw_fails :
    ¬∀ (es : List SessionEvent) (s : Session),
      (Session.machine Platform.sample 0).Reaches es s →
        CurrencyCacheLaw Platform.sample es s := by
  intro hlaw
  obtain ⟨s, hs, htwo⟩ := twoSaves_reaches
  have hsingle := (hlaw twoSaves s hs).single
  omega

end ExchangeRate
