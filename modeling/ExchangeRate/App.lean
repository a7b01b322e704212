import ExchangeRate.Screens

/-!
# The application over any run

All that can happen to the running application, one event at a time: a launch over
the persisted store and the rest of `viewDidLoad`, the blocks of the main queue, the
completions of requests, refreshes of the main thread's version of the store, and
what the user does on the two screens. Nothing here depends on the indicator: that
the user acts only while it is hidden is a condition on runs
(`ExchangeRate.App.UserWaits`), and most theorems do not need it.

The two completion handlers run one at a time, on the queue of the session, and
each commits and enqueues its block in one event: between the two the main thread
can only run blocks that were enqueued before. The first refresh that a commit
brings about comes at any later time, or not at all.

`ExchangeRate.AppStep` lists what the events lead to. It is the one place that looks
at all of them (`ExchangeRate.App.appStep_of_step`), and every invariant is proved by
cases on it.
-/

namespace ExchangeRate

/-- What can happen. A completion without data is a request that failed. -/
inductive AppEvent where
  | launch (now : Date)
  | finishViewDidLoad (now : Date)
  | viewWillAppear
  | runMainBlock
  | currencyListCompletion (data : Option Data) (now : Date)
  | rateCompletion (data : Option Data) (now : Date)
  | refresh
  | editText (text : String)
  | tapExchange
  | tapCurrencyButton (isFromButton : Bool)
  | search (searchWord : String)
  | cellForRowAt (row : ℕ)
  | tapRow (row : ℕ)
  | beginDismiss
  | cancelDismiss
  | finishDismiss
  deriving DecidableEq

namespace AppEvent

/-- The events the user brings about. -/
def isUser : AppEvent → Bool
  | .editText _ | .tapExchange | .tapCurrencyButton _ | .search _ | .cellForRowAt _ | .tapRow _
  | .beginDismiss | .cancelDismiss | .finishDismiss => true
  | _ => false

end AppEvent

namespace App

/-- How many times the current process has shown the indicator: once for each fetch. -/
def shows (s : App) : ℕ :=
  match s.phase with
  | .notLaunched => 0
  | .currencyListFetched => 1
  | .viewLoaded | .appeared => 2

/-- `viewDidLoad` has finished. -/
abbrev Loaded (s : App) : Prop := s.shows = 2

/-- The Top screen is in front. -/
abbrev TopInFront (s : App) : Prop := s.phase = .appeared ∧ s.list = none

/-- What a completion handler leaves, the request being over. -/
def completed (P : Platform) (s : App) (url : URL) :
    Except Trap (Realm × List TopOutput) → Except Trap App
  | .error trap => .error trap
  | .ok (realm, l) => .ok ({ s with realm, tasks := s.tasks.erase url }.outputs P l)

/-- One event: `none` when it cannot happen in the state, a trap when it stops the process,
and the state after it otherwise. -/
def attempt (P : Platform) (s : App) : AppEvent → Option (Except Trap App)
  | .launch now => some (.ok (s.launch P now))
  | .finishViewDidLoad now =>
    if s.phase = .currencyListFetched then some (.ok (s.finishViewDidLoad P now)) else none
  | .viewWillAppear =>
    if s.phase = .viewLoaded then some (.ok { s.topViewWillAppear P with phase := .appeared })
    else none
  | .runMainBlock =>
    -- the main thread is busy until `viewDidLoad` returns
    if s.Loaded ∧ s.mainQueue ≠ [] then
      some (.ok { s with mainQueue := s.mainQueue.tail }.hideIndicator)
    else none
  | .currencyListCompletion data now =>
    if currencyListURL ∈ s.tasks then
      some (s.completed P currencyListURL (ExchangeRate.currencyListCompletion P data now s.realm))
    else none
  | .rateCompletion data now =>
    if rateURL ∈ s.tasks then
      some (s.completed P rateURL (ExchangeRate.rateCompletion P data now s.realm))
    else none
  | .refresh => if s.Loaded then some (.ok { s with main := s.realm }) else none
  | .editText text =>
    if s.TopInFront then some (.ok (s.whenFromCurrencyTextFieldChanged P text)) else none
  | .tapExchange => if s.TopInFront then some (.ok (s.exchangeButtonTapped P)) else none
  | .tapCurrencyButton isFromButton =>
    if s.TopInFront then
      some (.ok (if isFromButton then s.fromCurrencyButtonTapped P else s.toCurrencyButtonTapped P))
    else none
  | .search searchWord => s.list.map fun l => .ok (s.searchTextDidChange P l searchWord)
  | .cellForRowAt row =>
    s.list.bind fun l => (l.currencies[row]?).map fun k => s.cellForRowAt k
  | .tapRow row =>
    s.list.bind fun l =>
      if l.dismissing then none else (l.currencies[row]?).map fun k => s.didSelectRowAt l k
  | .beginDismiss =>
    s.list.bind fun l =>
      if l.dismissing then none
      else some (.ok { s.topViewWillAppear P with list := some { l with dismissing := true } })
  | .cancelDismiss =>
    s.list.bind fun l =>
      if l.dismissing then some (.ok { s with list := some { l with dismissing := false } })
      else none
  | .finishDismiss =>
    s.list.bind fun l => if l.dismissing then some (.ok { s with list := none }) else none

/-- One step: an event that happens and does not stop the process. -/
def step (P : Platform) (s : App) (e : AppEvent) : Option App :=
  match s.attempt P e with
  | some (.ok s') => some s'
  | _ => none

/-- What stops the process, when the event does. -/
def trap (P : Platform) (s : App) (e : AppEvent) : Option Trap :=
  match s.attempt P e with
  | some (.error trap) => some trap
  | _ => none

theorem attempt_of_trap {P : Platform} {s : App} {e : AppEvent} {trap : Trap}
    (h : s.trap P e = some trap) : s.attempt P e = some (.error trap) := by
  unfold App.trap at h
  split at h
  · rename_i hattempt
    rw [hattempt, Option.some.inj h]
  · cases h

/-- **The application, from an empty store.** -/
def machine (P : Platform) : StepMachine App AppEvent where
  init := installed
  step := step P

/-- A first launch whose two requests are answered before a block runs. -/
def firstLaunch : List AppEvent :=
  [.launch 0, .finishViewDidLoad 0, .viewWillAppear, .currencyListCompletion currencyListBody 1,
    .rateCompletion rateBody 2, .runMainBlock, .runMainBlock]

/-- The user acts only while the indicator is hidden. -/
def UserWaits (P : Platform) (es : List AppEvent) : Prop :=
  (machine P).EveryStep es fun _ s e => e.isUser = true → s.hud = false

end App

/-! ### What the events lead to -/

/-- **The steps**: for each event, when it happens and what it leads to. -/
inductive AppStep (P : Platform) (s : App) : AppEvent → App → Prop
  | launch (now : Date) (tasks : List URL) (mainQueue : List MainBlock)
      (hstarted : tasks.length + mainQueue.length = 1) :
      AppStep P s (.launch now)
        { realm := setDefaultUserPreferenceData s.realm
          main := setDefaultUserPreferenceData s.realm
          phase := .currencyListFetched
          tasks
          mainQueue
          hud := true
          text := ""
          label := "0"
          fromTitle := Define.defaultFromCurrency
          toTitle := Define.defaultToCurrency
          list := none }
  | finishViewDidLoad (now : Date) (hphase : s.phase = .currencyListFetched) (tasks : List URL)
      (mainQueue : List MainBlock) (hstarted : tasks.length + mainQueue.length = 1) :
      AppStep P s (.finishViewDidLoad now)
        { s with
          phase := .viewLoaded
          tasks := s.tasks ++ tasks
          mainQueue := s.mainQueue ++ mainQueue
          hud := true }
  | viewWillAppear (hphase : s.phase = .viewLoaded) :
      AppStep P s .viewWillAppear
        { s with
          phase := .appeared
          fromTitle := (s.main.storedCode true).getD s.fromTitle
          toTitle := (s.main.storedCode false).getD s.toTitle
          label := s.labelOnAppear P }
  | runMainBlock (hloaded : s.Loaded) (b : MainBlock) (mainQueue : List MainBlock)
      (hqueue : s.mainQueue = b :: mainQueue) :
      AppStep P s .runMainBlock { s with mainQueue, hud := false }
  | currencyListFailed (now : Date) (htask : currencyListURL ∈ s.tasks) :
      AppStep P s (.currencyListCompletion none now)
        { s with tasks := s.tasks.erase currencyListURL }
  | currencyListSaved (data : Data) (now : Date) (htask : currencyListURL ∈ s.tasks)
      (response : CurrencyListResponse) (realm : Realm)
      (hsaved : CurrenciesSaved s.realm response now realm) :
      AppStep P s (.currencyListCompletion (some data) now)
        { s with
          realm
          tasks := s.tasks.erase currencyListURL
          mainQueue := s.mainQueue ++ [.gotCurrencyList] }
  | rateFailed (now : Date) (htask : rateURL ∈ s.tasks) :
      AppStep P s (.rateCompletion none now) { s with tasks := s.tasks.erase rateURL }
  | ratesSaved (data : Data) (now : Date) (htask : rateURL ∈ s.tasks)
      (response : RateListResponse) (realm : Realm)
      (hsaved : RatesSaved s.realm response now realm) :
      AppStep P s (.rateCompletion (some data) now)
        { s with
          realm
          tasks := s.tasks.erase rateURL
          mainQueue := s.mainQueue ++ [.gotRateList] }
  | refresh (hloaded : s.Loaded) : AppStep P s .refresh { s with main := s.realm }
  | editText (text : String) (hfront : s.TopInFront) :
      AppStep P s (.editText text)
        { s with
          text
          label := App.labelAfter P s.label (calcurate s.main ((intOfText text).getD 0)) }
  | tapExchange (hfront : s.TopInFront) :
      AppStep P s .tapExchange
        { s with
          realm := (exchangeCurrency s.realm).1
          main := (exchangeCurrency s.realm).1
          text := ""
          label := "0"
          fromTitle := ((exchangeCurrency s.realm).1.storedCode true).getD s.fromTitle
          toTitle := ((exchangeCurrency s.realm).1.storedCode false).getD s.toTitle }
  | tapCurrencyButton (isFromButton : Bool) (hfront : s.TopInFront) :
      AppStep P s (.tapCurrencyButton isFromButton)
        (s.showCurrencyListScreen P (s.title isFromButton) isFromButton)
  | search (searchWord : String) (l : ListScreen) (hlist : s.list = some l) :
      AppStep P s (.search searchWord) (s.searchTextDidChange P l searchWord)
  | cellForRowAt (row : ℕ) : AppStep P s (.cellForRowAt row) s
  | tapRow (row : ℕ) (l : ListScreen) (hlist : s.list = some l) (hnot : l.dismissing = false)
      (k : ObjKey) (selectedItem : Currency) (hmain : s.main.currency.get k = some selectedItem)
      (realm : Realm) (hsave : saveSelectedItem s.realm (.managed k) l.isFromButton = .ok realm) :
      AppStep P s (.tapRow row)
        { s with
          realm
          main := realm
          list := some { l with selectedCurrencyCode := selectedItem.code } }
  | beginDismiss (l : ListScreen) (hlist : s.list = some l) (hnot : l.dismissing = false) :
      AppStep P s .beginDismiss
        { s with
          fromTitle := (s.main.storedCode true).getD s.fromTitle
          toTitle := (s.main.storedCode false).getD s.toTitle
          label := s.labelOnAppear P
          list := some { l with dismissing := true } }
  | cancelDismiss (l : ListScreen) (hlist : s.list = some l) (hdismissing : l.dismissing = true) :
      AppStep P s .cancelDismiss { s with list := some { l with dismissing := false } }
  | finishDismiss (l : ListScreen) (hlist : s.list = some l) (hdismissing : l.dismissing = true) :
      AppStep P s .finishDismiss { s with list := none }

namespace App

variable {P : Platform} {s s' : App} {e : AppEvent}

theorem step_eq_some_iff : s.step P e = some s' ↔ s.attempt P e = some (.ok s') := by
  unfold step
  split
  · rename_i s₁ h
    rw [h, Option.some.injEq, Option.some.injEq, Except.ok.injEq]
  · rename_i h
    constructor
    · rintro ⟨⟩
    · intro hok
      exact absurd hok (h s')

/-- An event behind a guard that does not stop the process. -/
theorem step_of_guard {c : Prop} [Decidable c] {result : Except Trap App} {t : App}
    (h : s.attempt P e = if c then some result else none) (hok : c → result = .ok t) :
    s.step P e = if c then some t else none := by
  unfold step
  by_cases hc : c
  · rw [h, if_pos hc, if_pos hc, hok hc]
  · rw [h, if_neg hc, if_neg hc]

/-- A launch starts one request or enqueues one block. -/
theorem appStep_launch (s : App) (now : Date) : AppStep P s (.launch now) (s.launch P now) := by
  rcases outputs_fetchCurrencyListData
    { s with
      realm := setDefaultUserPreferenceData s.realm
      main := setDefaultUserPreferenceData s.realm
      phase := .currencyListFetched
      tasks := []
      mainQueue := []
      hud := true
      text := ""
      label := "0"
      fromTitle := Define.defaultFromCurrency
      toTitle := Define.defaultToCurrency
      list := none } (setDefaultUserPreferenceData s.realm) now (P := P) with h | h
  · have hlaunch : s.launch P now = _ := h
    rw [hlaunch]
    exact .launch now [currencyListURL] [] rfl
  · have hlaunch : s.launch P now = _ := h
    rw [hlaunch]
    exact .launch now [] [.gotCurrencyList] rfl

/-- The rest of `viewDidLoad` starts one request more or enqueues one block more. -/
theorem appStep_finishViewDidLoad (hphase : s.phase = .currencyListFetched) (now : Date) :
    AppStep P s (.finishViewDidLoad now) (s.finishViewDidLoad P now) := by
  rcases outputs_fetchRateData { s with phase := .viewLoaded, hud := true } s.main now (P := P)
    with h | h
  · have hfinish : s.finishViewDidLoad P now = _ := h
    rw [hfinish]
    simpa using AppStep.finishViewDidLoad (P := P) now hphase [rateURL] [] rfl
  · have hfinish : s.finishViewDidLoad P now = _ := h
    rw [hfinish]
    simpa using AppStep.finishViewDidLoad (P := P) now hphase [] [.gotRateList] rfl

/-- A tap on a row that returns has read the row twice, and written the code. -/
theorem appStep_tapRow {row : ℕ} {l : ListScreen} {k : ObjKey} (hlist : s.list = some l)
    (hnot : l.dismissing = false) (h : s.didSelectRowAt l k = .ok s') :
    AppStep P s (.tapRow row) s' := by
  unfold didSelectRowAt at h
  split at h
  · cases h
  · rename_i selectedItem hread
    split at h
    · cases h
    · rename_i realm hsave
      cases h
      exact .tapRow row l hlist hnot k selectedItem (Realm.get_of_read hread) realm hsave

section Guards

variable {c : Prop} [Decidable c] {t : App}

/-- An event behind a guard. -/
theorem of_guard (h : (if c then some (.ok t) else none) = some (.ok s' : Except Trap App)) :
    c ∧ t = s' := by
  rw [Option.ite_none_right_eq_some] at h
  exact ⟨h.1, Except.ok.inj (Option.some.inj h.2)⟩

/-- An event of the list screen, while its dismissal has not begun. -/
theorem of_shown {f : ListScreen → Option (Except Trap App)}
    (h : (s.list.bind fun l => if l.dismissing then none else f l) = some (.ok s')) :
    ∃ l, s.list = some l ∧ l.dismissing = false ∧ f l = some (.ok s') := by
  obtain ⟨l, hlist, hl⟩ := Option.bind_eq_some_iff.mp h
  rw [Option.ite_none_left_eq_some] at hl
  exact ⟨l, hlist, Bool.eq_false_iff.mpr hl.1, hl.2⟩

/-- An event of the list screen, while its dismissal has begun. -/
theorem of_dismissing {f : ListScreen → App}
    (h : (s.list.bind fun l => if l.dismissing then some (.ok (f l)) else none) =
      some (.ok s' : Except Trap App)) :
    ∃ l, s.list = some l ∧ l.dismissing = true ∧ f l = s' := by
  obtain ⟨l, hlist, hl⟩ := Option.bind_eq_some_iff.mp h
  exact ⟨l, hlist, of_guard hl⟩

end Guards

/-- **Every step is one of the list.** -/
theorem appStep_of_step (h : s.step P e = some s') : AppStep P s e s' := by
  rw [step_eq_some_iff] at h
  cases e with
  | launch now =>
    cases h
    exact appStep_launch s now
  | finishViewDidLoad now =>
    obtain ⟨hphase, rfl⟩ := of_guard h
    exact appStep_finishViewDidLoad hphase now
  | viewWillAppear =>
    obtain ⟨hphase, rfl⟩ := of_guard h
    rw [topViewWillAppear_eq]
    exact .viewWillAppear hphase
  | runMainBlock =>
    obtain ⟨⟨hloaded, hne⟩, rfl⟩ := of_guard h
    obtain ⟨b, mainQueue, hqueue⟩ := List.exists_cons_of_ne_nil hne
    rw [hqueue]
    exact .runMainBlock hloaded b mainQueue hqueue
  | currencyListCompletion data now =>
    rw [attempt, Option.ite_none_right_eq_some] at h
    obtain ⟨htask, h⟩ := h
    -- without data, with a body that does not decode, or with one that is saved
    rcases data with _ | data
    · cases h
      exact .currencyListFailed now htask
    · rcases currencyListCompletion_cases P data now s.realm with ⟨-, hc⟩ |
        ⟨response, realm, -, hc, hsaved⟩
      · rw [hc] at h
        cases h
      · rw [hc] at h
        cases h
        exact .currencyListSaved data now htask response realm hsaved
  | rateCompletion data now =>
    rw [attempt, Option.ite_none_right_eq_some] at h
    obtain ⟨htask, h⟩ := h
    rcases data with _ | data
    · cases h
      exact .rateFailed now htask
    · rcases rateCompletion_cases P data now s.realm with ⟨-, hc⟩ |
        ⟨response, realm, -, hc, hsaved⟩
      · rw [hc] at h
        cases h
      · rw [hc] at h
        cases h
        exact .ratesSaved data now htask response realm hsaved
  | refresh =>
    obtain ⟨hloaded, rfl⟩ := of_guard h
    exact .refresh hloaded
  | editText text =>
    obtain ⟨hfront, rfl⟩ := of_guard h
    rw [whenFromCurrencyTextFieldChanged, outputs_calcurate]
    exact .editText text hfront
  | tapExchange =>
    obtain ⟨hfront, rfl⟩ := of_guard h
    rw [exchangeButtonTapped_eq]
    exact .tapExchange hfront
  | tapCurrencyButton isFromButton =>
    obtain ⟨hfront, rfl⟩ := of_guard h
    cases isFromButton with
    | true => exact .tapCurrencyButton true hfront
    | false => exact .tapCurrencyButton false hfront
  | search searchWord =>
    obtain ⟨l, hlist, hl⟩ := Option.map_eq_some_iff.mp h
    cases hl
    exact .search searchWord l hlist
  | cellForRowAt row =>
    obtain ⟨l, -, hl⟩ := Option.bind_eq_some_iff.mp h
    obtain ⟨k, -, hcell⟩ := Option.map_eq_some_iff.mp hl
    rcases s.main.read_managed_cases k with ⟨-, c, hread⟩ | ⟨-, hread⟩
    · rw [App.cellForRowAt, hread] at hcell
      cases hcell
      exact .cellForRowAt row
    · rw [App.cellForRowAt, hread] at hcell
      cases hcell
  | tapRow row =>
    obtain ⟨l, hlist, hnot, hl⟩ := of_shown h
    obtain ⟨k, -, hselect⟩ := Option.map_eq_some_iff.mp hl
    exact appStep_tapRow hlist hnot hselect
  | beginDismiss =>
    obtain ⟨l, hlist, hnot, hl⟩ := of_shown h
    cases hl
    rw [topViewWillAppear_eq]
    exact .beginDismiss l hlist hnot
  | cancelDismiss =>
    obtain ⟨l, hlist, hdismissing, rfl⟩ := of_dismissing h
    exact .cancelDismiss l hlist hdismissing
  | finishDismiss =>
    obtain ⟨l, hlist, hdismissing, rfl⟩ := of_dismissing h
    exact .finishDismiss l hlist hdismissing

end App

end ExchangeRate
