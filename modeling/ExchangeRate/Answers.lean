import Mathlib.Algebra.Order.BigOperators.Group.List
import Mathlib.Data.Nat.Cast.Basic
import ExchangeRate.Base.Settling
import ExchangeRate.Indicator
import ExchangeRate.Requests

/-!
# The order in which a launch is answered

Once `viewDidLoad` has finished, the requests in flight are answered one after the
other, in any order, and the blocks this leaves on the main queue run whenever the main
thread gets to them. The order decides how long the indicator is visible, and nothing
else: with the same answers the application comes to rest in one and the same state,
after the same number of events, at most four (`ExchangeRate.answers_settle`).

The two saves write different tables, so they commute as functions on the store
(`ExchangeRate.Answers.saveRates_saveCurrencyList`); and the blocks all do the same.
-/

namespace ExchangeRate

variable {P : Platform} {es : List AppEvent} {s s' : App} {e : AppEvent}

/-- **What the requests are answered with**, and at what time. -/
structure Answers where
  data : URL → Option Data
  time : URL → Date

namespace Answers

variable (A : Answers)

/-- The completion of the currency list request. -/
def currencyListAnswer : AppEvent :=
  .currencyListCompletion (A.data currencyListURL) (A.time currencyListURL)

/-- The completion of the rate request. -/
def rateAnswer : AppEvent := .rateCompletion (A.data rateURL) (A.time rateURL)

/-- What happens without the user: the requests are answered, and blocks run. -/
def events : List AppEvent := [A.currencyListAnswer, A.rateAnswer, .runMainBlock]

/-- The bodies among the answers decode. -/
def Decodes (P : Platform) : Prop :=
  (∀ data, A.data currencyListURL = some data → (CurrencyListResponse.decode P data).isSome) ∧
    ∀ data, A.data rateURL = some data → (RateListResponse.decode P data).isSome

/-- The store a handler leaves. -/
def stored (realm : Realm) : Except Trap (Realm × List TopOutput) → Realm
  | .ok (realm', _) => realm'
  | .error _ => realm

/-- The store after the answer to the currency list request. -/
def saveCurrencyList (P : Platform) (realm : Realm) : Realm :=
  stored realm
    (currencyListCompletion P (A.data currencyListURL) (A.time currencyListURL) realm)

/-- The store after the answer to the rate request. -/
def saveRates (P : Platform) (realm : Realm) : Realm :=
  stored realm (rateCompletion P (A.data rateURL) (A.time rateURL) realm)

/-- The block an answer leaves, if it has data. -/
def block (url : URL) (b : MainBlock) : List MainBlock := if (A.data url).isSome then [b] else []

/-- How many events a request takes: its completion, and the block this leaves. -/
def cost (url : URL) : ℕ := if (A.data url).isSome then 2 else 1

end Answers

namespace App

/-- **How many events it takes to come to rest.** -/
def work (s : App) (A : Answers) : ℕ := (s.tasks.map A.cost).sum + s.mainQueue.length

/-- **The state of rest**: what is in flight has been saved, and the indicator has been hidden
unless no block was left to do so. -/
def rest (P : Platform) (A : Answers) (s : App) : App :=
  let realm := if currencyListURL ∈ s.tasks then A.saveCurrencyList P s.realm else s.realm
  { s with
    realm := if rateURL ∈ s.tasks then A.saveRates P realm else realm
    tasks := []
    mainQueue := []
    hud := s.hud && decide (s.mainQueue = [] ∧ ∀ url ∈ s.tasks, A.data url = none) }

end App

/-! ### The two saves commute -/

theorem Realm.ext_tables {realm realm' : Realm}
    (hu : realm.userPreferenceData = realm'.userPreferenceData)
    (hc : realm.currency = realm'.currency) (hd : realm.currencyData = realm'.currencyData)
    (hr : realm.rate = realm'.rate) (he : realm.exchangeRateData = realm'.exchangeRateData) :
    realm = realm' := by
  cases realm
  cases realm'
  simp only at hu hc hd hr he
  subst hu hc hd hr he
  rfl

namespace Answers

variable (A : Answers) (realm : Realm)

/-- An answer to the currency list request is saved, or leaves the store as it is whatever the
store. -/
theorem saveCurrencyList_cases (P : Platform) :
    (∀ realm, A.saveCurrencyList P realm = realm) ∨
    ∃ response, ∀ realm,
      CurrenciesSaved realm response (A.time currencyListURL) (A.saveCurrencyList P realm) := by
  unfold saveCurrencyList
  cases hdata : A.data currencyListURL with
  | none => exact Or.inl fun realm => rfl
  | some data =>
    cases hdec : CurrencyListResponse.decode P data with
    | none =>
      refine Or.inl fun realm => ?_
      simp only [currencyListCompletion, saveCurrencyData, hdec, stored]
    | some response =>
      refine Or.inr ⟨response, fun realm => ?_⟩
      obtain ⟨realm', hsave, hsaved⟩ :=
        saveCurrencyData_of_decode hdec (A.time currencyListURL) realm
      simp only [currencyListCompletion, hsave, stored]
      exact hsaved

/-- The same for the answer to the rate request. -/
theorem saveRates_cases (P : Platform) :
    (∀ realm, A.saveRates P realm = realm) ∨
    ∃ response, ∀ realm, RatesSaved realm response (A.time rateURL) (A.saveRates P realm) := by
  unfold saveRates
  cases hdata : A.data rateURL with
  | none => exact Or.inl fun realm => rfl
  | some data =>
    cases hdec : RateListResponse.decode P data with
    | none =>
      refine Or.inl fun realm => ?_
      simp only [rateCompletion, saveRateData, hdec, stored]
    | some response =>
      refine Or.inr ⟨response, fun realm => ?_⟩
      obtain ⟨realm', hsave, hsaved⟩ := saveRateData_of_decode hdec (A.time rateURL) realm
      simp only [rateCompletion, hsave, stored]
      exact hsaved

/-- **The two saves commute.** -/
theorem saveRates_saveCurrencyList (P : Platform) :
    A.saveRates P (A.saveCurrencyList P realm) = A.saveCurrencyList P (A.saveRates P realm) := by
  rcases A.saveCurrencyList_cases P with hc | ⟨response, hc⟩
  · rw [hc, hc]
  · rcases A.saveRates_cases P with hr | ⟨response', hr⟩
    · rw [hr, hr]
    · have hfirst := hc realm
      have hsecond := hr (A.saveCurrencyList P realm)
      have hfirst' := hr realm
      have hsecond' := hc (A.saveRates P realm)
      refine Realm.ext_tables ?_ ?_ ?_ ?_ ?_
      · rw [hsecond.userPreferenceData, hfirst.userPreferenceData, hsecond'.userPreferenceData,
          hfirst'.userPreferenceData]
      · rw [hsecond.currency, hfirst.currency, hsecond'.currency, hfirst'.currency]
      · rw [hsecond.currencyData, hfirst.currencyData, hsecond'.currencyData,
          hfirst'.currencyData, hfirst'.currency]
      · rw [hsecond.rate, hfirst.rate, hsecond'.rate, hfirst'.rate]
      · rw [hsecond.exchangeRateData, hfirst.exchangeRateData, hsecond'.exchangeRateData,
          hfirst'.exchangeRateData, hfirst.rate]

end Answers

/-! ### What the events do -/

section Steps

variable (A : Answers)

/-- An answer to the currency list request is saved, and leaves its block. -/
theorem step_currencyListAnswer (hdecodes : A.Decodes P) :
    s.step P A.currencyListAnswer =
      if currencyListURL ∈ s.tasks then
        some { s with
          realm := A.saveCurrencyList P s.realm
          tasks := s.tasks.erase currencyListURL
          mainQueue := s.mainQueue ++ A.block currencyListURL .gotCurrencyList }
      else none := by
  refine App.step_of_guard rfl fun _ => ?_
  unfold Answers.saveCurrencyList Answers.block
  cases hdata : A.data currencyListURL with
  | none => simp [currencyListCompletion, App.completed, Answers.stored, App.outputs]
  | some data =>
    obtain ⟨response, hdec⟩ := Option.isSome_iff_exists.mp (hdecodes.1 data hdata)
    obtain ⟨realm', hsave, -⟩ := saveCurrencyData_of_decode hdec (A.time currencyListURL) s.realm
    simp only [currencyListCompletion, hsave]
    rfl

/-- An answer to the rate request is saved, and leaves its block. -/
theorem step_rateAnswer (hdecodes : A.Decodes P) :
    s.step P A.rateAnswer =
      if rateURL ∈ s.tasks then
        some { s with
          realm := A.saveRates P s.realm
          tasks := s.tasks.erase rateURL
          mainQueue := s.mainQueue ++ A.block rateURL .gotRateList }
      else none := by
  refine App.step_of_guard rfl fun _ => ?_
  unfold Answers.saveRates Answers.block
  cases hdata : A.data rateURL with
  | none => simp [rateCompletion, App.completed, Answers.stored, App.outputs]
  | some data =>
    obtain ⟨response, hdec⟩ := Option.isSome_iff_exists.mp (hdecodes.2 data hdata)
    obtain ⟨realm', hsave, -⟩ := saveRateData_of_decode hdec (A.time rateURL) s.realm
    simp only [rateCompletion, hsave]
    rfl

/-- A block of a loaded screen hides the indicator. -/
theorem step_runMainBlock : s.step P .runMainBlock =
    if s.Loaded ∧ s.mainQueue ≠ [] then some { s with mainQueue := s.mainQueue.tail, hud := false }
    else none :=
  App.step_of_guard rfl fun _ => rfl

end Steps

/-! ### Rank and rest -/

section Rest

variable (A : Answers)

theorem forall_mem_erase_iff {tasks : List URL} {url : URL} {p : URL → Prop} (h : url ∈ tasks) :
    (∀ u ∈ tasks, p u) ↔ p url ∧ ∀ u ∈ tasks.erase url, p u := by
  have hperm := List.perm_cons_erase h
  simp only [hperm.mem_iff, List.forall_mem_cons]

theorem length_block (url : URL) (b : MainBlock) : (A.block url b).length + 1 = A.cost url := by
  unfold Answers.block Answers.cost
  split <;> rfl

theorem block_eq_nil_iff (url : URL) (b : MainBlock) : A.block url b = [] ↔ A.data url = none := by
  unfold Answers.block
  cases A.data url <;> simp

/-- An answer takes a request's place in the work that is left, but for one event. -/
theorem work_answered {url : URL} (htask : url ∈ s.tasks) (b : MainBlock) (realm : Realm) :
    { s with realm, tasks := s.tasks.erase url, mainQueue := s.mainQueue ++ A.block url b }.work A
      + 1 = s.work A := by
  have hsum := List.sum_map_erase A.cost htask
  have hlength := length_block A url b
  simp only [App.work, List.length_append]
  omega

/-- The indicator at rest is the same before and after an answer. -/
theorem hud_answered {url : URL} (htask : url ∈ s.tasks) (b : MainBlock) :
    decide (s.mainQueue ++ A.block url b = [] ∧ ∀ u ∈ s.tasks.erase url, A.data u = none) =
      decide (s.mainQueue = [] ∧ ∀ u ∈ s.tasks, A.data u = none) := by
  rw [decide_eq_decide, List.append_eq_nil_iff, block_eq_nil_iff, and_assoc,
    forall_mem_erase_iff (p := fun u => A.data u = none) htask]

theorem rest_currencyListAnswer (hkept : TasksKept s) (htask : currencyListURL ∈ s.tasks) :
    { s with
      realm := A.saveCurrencyList P s.realm
      tasks := s.tasks.erase currencyListURL
      mainQueue := s.mainQueue ++ A.block currencyListURL .gotCurrencyList }.rest P A =
    s.rest P A := by
  have hnot : currencyListURL ∉ s.tasks.erase currencyListURL := hkept.nodup.not_mem_erase
  have hother : rateURL ∈ s.tasks.erase currencyListURL ↔ rateURL ∈ s.tasks :=
    List.mem_erase_of_ne currencyListURL_ne_rateURL.symm
  simp only [App.rest, hud_answered A htask, hnot, htask, hother, if_true, if_false]

theorem rest_rateAnswer (hkept : TasksKept s) (htask : rateURL ∈ s.tasks) :
    { s with
      realm := A.saveRates P s.realm
      tasks := s.tasks.erase rateURL
      mainQueue := s.mainQueue ++ A.block rateURL .gotRateList }.rest P A =
    s.rest P A := by
  have hnot : rateURL ∉ s.tasks.erase rateURL := hkept.nodup.not_mem_erase
  have hother : currencyListURL ∈ s.tasks.erase rateURL ↔ currencyListURL ∈ s.tasks :=
    List.mem_erase_of_ne currencyListURL_ne_rateURL
  simp only [App.rest, hud_answered A htask, hnot, htask, hother, if_true, if_false]
  by_cases hcurrency : currencyListURL ∈ s.tasks
  · rw [if_pos hcurrency, if_pos hcurrency, A.saveRates_saveCurrencyList]
  · rw [if_neg hcurrency, if_neg hcurrency]

/-- **Without the user, a loaded application settles.** -/
theorem settling_answers (hdecodes : A.Decodes P) :
    (App.machine P).Settling (fun s => (∃ es, (App.machine P).Reaches es s) ∧ s.Loaded)
      (· ∈ A.events) (App.work · A) (App.rest P A) where
  step := by
    rintro s e s' ⟨⟨es, hs⟩, hloaded⟩ he hstep
    have hkept := tasksKept_of_reaches hs
    have hs' : (App.machine P).Reaches (es ++ [e]) s' :=
      StepMachine.reaches_concat.mpr ⟨s, hs, hstep⟩
    simp only [Answers.events, List.mem_cons, List.not_mem_nil, or_false] at he
    rcases he with rfl | rfl | rfl
    · replace hstep := (step_currencyListAnswer A hdecodes).symm.trans hstep
      obtain ⟨htask, heq⟩ := Option.ite_none_right_eq_some.mp hstep
      obtain rfl := Option.some.inj heq
      exact ⟨⟨⟨_, hs'⟩, hloaded⟩, work_answered A htask _ _, rest_currencyListAnswer A hkept htask⟩
    · replace hstep := (step_rateAnswer A hdecodes).symm.trans hstep
      obtain ⟨htask, heq⟩ := Option.ite_none_right_eq_some.mp hstep
      obtain rfl := Option.some.inj heq
      exact ⟨⟨⟨_, hs'⟩, hloaded⟩, work_answered A htask _ _, rest_rateAnswer A hkept htask⟩
    · replace hstep := step_runMainBlock.symm.trans hstep
      obtain ⟨⟨-, hne⟩, heq⟩ := Option.ite_none_right_eq_some.mp hstep
      obtain rfl := Option.some.inj heq
      have hpos := List.length_pos_of_ne_nil hne
      refine ⟨⟨⟨_, hs'⟩, hloaded⟩, ?_, ?_⟩
      · simp only [App.work, List.length_tail]
        omega
      · -- a block that was waiting would have hidden the indicator at rest as well
        simp only [App.rest, hne, false_and, decide_false, Bool.and_false, Bool.false_and]
  progress := by
    rintro s ⟨⟨es, hs⟩, hloaded⟩ hpos
    have hkept := tasksKept_of_reaches hs
    by_cases hqueue : s.mainQueue = []
    · have htasks : s.tasks ≠ [] := by
        rintro hnil
        rw [App.work, hqueue, hnil] at hpos
        cases hpos
      obtain ⟨url, hurl⟩ := List.exists_mem_of_ne_nil _ htasks
      rcases hkept.known url hurl with rfl | rfl
      · exact ⟨A.currencyListAnswer, _, by simp [Answers.events],
          (step_currencyListAnswer A hdecodes).trans (if_pos hurl)⟩
      · exact ⟨A.rateAnswer, _, by simp [Answers.events],
          (step_rateAnswer A hdecodes).trans (if_pos hurl)⟩
    · exact ⟨.runMainBlock, _, by simp [Answers.events],
        step_runMainBlock.trans (if_pos ⟨hloaded, hqueue⟩)⟩
  rest_eq := by
    rintro s - hzero
    have htasks : s.tasks = [] := by
      rcases hl : s.tasks with _ | ⟨url, tasks⟩
      · rfl
      · rw [App.work, hl, List.map_cons, List.sum_cons, ← length_block A url .gotRateList] at hzero
        omega
    have hqueue : s.mainQueue = [] := by
      rw [App.work] at hzero
      exact List.length_eq_zero_iff.mp (by omega)
    have hrest : s.rest P A = { s with tasks := [], mainQueue := [] } := by
      simp [App.rest, htasks, hqueue]
    rw [hrest, ← htasks, ← hqueue]

/-- A request takes at most two events, and there are at most two requests. -/
theorem work_le (h : (App.machine P).Reaches es s) : s.work A ≤ 4 := by
  have hcount := indicatorCount_of_reaches h
  have hshows := s.shows_le_two
  have hpending : s.pending ≤ 2 := by
    cases hhud : s.hud with
    | true =>
      have := hcount.visible hhud
      omega
    | false =>
      have := hcount.hidden hhud
      omega
  have hcost : ∀ c ∈ s.tasks.map A.cost, c ≤ 2 := by
    intro c hc
    obtain ⟨url, -, rfl⟩ := List.mem_map.mp hc
    unfold Answers.cost
    split <;> decide
  have hsum := List.sum_le_card_nsmul _ 2 hcost
  rw [List.length_map, nsmul_eq_mul, Nat.cast_id] at hsum
  rw [App.pending] at hpending
  rw [App.work]
  omega

end Rest

/-! ### Any order -/

/-- **In whatever order the requests are answered and the blocks run, it takes the same number of
events, at most four, and leads to the same state.** Until then something can happen, and after
that nothing can. -/
theorem answers_settle (h : (App.machine P).Reaches es s) (hloaded : s.Loaded) {A : Answers}
    (hdecodes : A.Decodes P) :
    s.work A ≤ 4 ∧
    (∃ ds, (∀ d ∈ ds, d ∈ A.events) ∧ ds.length = s.work A ∧
      (App.machine P).exec s ds = some (s.rest P A)) ∧
    ∀ ds t, (∀ d ∈ ds, d ∈ A.events) → (App.machine P).exec s ds = some t →
      ds.length ≤ s.work A ∧ ((∀ d ∈ A.events, t.step P d = none) ↔ ds.length = s.work A) ∧
        (ds.length = s.work A → t = s.rest P A) := by
  have hsettling := settling_answers (P := P) A hdecodes
  have hs : (∃ es, (App.machine P).Reaches es s) ∧ s.Loaded := ⟨⟨es, h⟩, hloaded⟩
  exact ⟨work_le A h, hsettling.exists_exec_rest hs, fun ds t hds hexec =>
    ⟨hsettling.length_le hs hds hexec, hsettling.stuck_iff hs hds hexec,
      hsettling.eq_rest hs hds hexec⟩⟩

/-- The lists of the sample, both at the time 1. -/
def sampleAnswers : Answers where
  data url := if url = currencyListURL then currencyListBody else rateBody
  time _ := 1

theorem decodes_sampleAnswers : sampleAnswers.Decodes Platform.sample := by
  refine ⟨fun data hdata => ?_, fun data hdata => ?_⟩
  · cases hdata
    decide +kernel
  · cases hdata
    decide +kernel

/-- The currencies first, each block at once. -/
def inOrder : List AppEvent :=
  [sampleAnswers.currencyListAnswer, .runMainBlock, sampleAnswers.rateAnswer, .runMainBlock]

/-- The rates first, both blocks in the end. -/
def outOfOrder : List AppEvent :=
  [sampleAnswers.rateAnswer, sampleAnswers.currencyListAnswer, .runMainBlock, .runMainBlock]

/-- The two orders lead to the same state. -/
theorem answers_settle_firstLaunch : ∃ s t : App,
    (App.machine Platform.sample).Reaches [.launch 0, .finishViewDidLoad 0, .viewWillAppear] s ∧
      (App.machine Platform.sample).exec s inOrder = some t ∧
      (App.machine Platform.sample).exec s outOfOrder = some t := by
  have hrun : ((App.machine Platform.sample).exec App.installed
      [.launch 0, .finishViewDidLoad 0, .viewWillAppear]).map (fun s => (s.shows,
        s.work sampleAnswers, ((App.machine Platform.sample).exec s inOrder).isSome,
        ((App.machine Platform.sample).exec s outOfOrder).isSome)) = some (2, 4, true, true) := by
    decide +kernel
  obtain ⟨s, hs, hvalues⟩ := Option.map_eq_some_iff.mp hrun
  simp only [Prod.mk.injEq] at hvalues
  obtain ⟨hloaded, hwork, hfirst, hsecond⟩ := hvalues
  obtain ⟨t, ht⟩ := Option.isSome_iff_exists.mp hfirst
  obtain ⟨t', ht'⟩ := Option.isSome_iff_exists.mp hsecond
  obtain ⟨-, -, hsettle⟩ := answers_settle hs hloaded decodes_sampleAnswers
  have hrest := (hsettle inOrder t (by simp [inOrder, Answers.events]) ht).2.2 hwork.symm
  have hrest' := (hsettle outOfOrder t' (by simp [outOfOrder, Answers.events]) ht').2.2 hwork.symm
  rw [hrest', ← hrest] at ht'
  exact ⟨s, t, hs, ht, ht'⟩

end ExchangeRate
