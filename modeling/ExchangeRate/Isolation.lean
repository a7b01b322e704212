import ExchangeRate.Base.Simulation
import ExchangeRate.Versions

/-!
# The main thread works on one version

`try! Realm()` gives the main thread the Realm it has, with the version that one is at,
as long as something retains it, and a new one at the newest version otherwise: the cache
of Realms is weak. The only rows that outlive the call that has read them are those in
the array of the list screen. So while that array has a row, and nothing refreshes the
Realm or writes to it, the main thread works on one version
(`ExchangeRate.App.advances`).

What other threads commit in the meantime, in whatever order and with whatever contents,
has no part in what the screens show: the completions of requests and the blocks they
leave can be taken out of a run without changing any title, the label, the text or the
list (`ExchangeRate.background_invisible`). The indicator is not part of this view; it is
what these blocks are for.
-/

namespace ExchangeRate

variable {P : Platform} {s s' t t' : App} {e : AppEvent}

/-- What the two screens show, and the version of the store they show it from. -/
structure OnScreen where
  main : Realm
  phase : Phase
  text : String
  label : String
  fromTitle : String
  toTitle : String
  list : Option ListScreen

def App.onScreen (s : App) : OnScreen where
  main := s.main
  phase := s.phase
  text := s.text
  label := s.label
  fromTitle := s.fromTitle
  toTitle := s.toTitle
  list := s.list

/-- The events that are no completion of a request, and no block left by one. -/
def AppEvent.isForeground : AppEvent → Bool
  | .currencyListCompletion _ _ | .rateCompletion _ _ | .runMainBlock => false
  | _ => true

/-- Something retains the Realm of the main thread: the array of the list screen has a row. -/
def App.retainsRealm (s : App) : Bool := s.list.any fun l => !l.currencies.isEmpty

/-- **The events that may take the main thread to another version of the store**: a refresh, the
write blocks, and whatever calls `try! Realm()` while nothing retains a Realm. -/
def App.advances (s : App) : AppEvent → Bool
  | .launch _ | .refresh | .tapExchange | .tapRow _ => true
  | .finishViewDidLoad _ | .viewWillAppear | .editText _ | .tapCurrencyButton _ | .search _
  | .beginDismiss => !s.retainsRealm
  | .currencyListCompletion _ _ | .rateCompletion _ _ | .runMainBlock | .cellForRowAt _
  | .cancelDismiss | .finishDismiss => false

theorem labelOnAppear_congr (h : s.onScreen = t.onScreen) :
    s.labelOnAppear P = t.labelOnAppear P := by
  simp only [App.onScreen, OnScreen.mk.injEq] at h
  obtain ⟨hmain, -, htext, hlabel, -⟩ := h
  rw [App.labelOnAppear, App.labelOnAppear, hmain, htext, hlabel]

/-- Whether an event of the foreground can happen can be seen on the screens. -/
theorem exists_step_of_onScreen (hfore : e.isForeground = true) (hkeeps : s.advances e = false)
    (h : s.onScreen = t.onScreen) (hstep : s.step P e = some s') : ∃ t', t.step P e = some t' := by
  simp only [App.onScreen, OnScreen.mk.injEq] at h
  obtain ⟨hmain, hphase, -, -, -, -, hlist⟩ := h
  simp only [App.step_eq_some_iff] at hstep ⊢
  cases e with
  | launch => cases hkeeps
  | refresh => cases hkeeps
  | tapExchange => cases hkeeps
  | tapRow => cases hkeeps
  | runMainBlock => cases hfore
  | currencyListCompletion => cases hfore
  | rateCompletion => cases hfore
  | finishViewDidLoad now =>
    have hp := (App.of_guard hstep).1
    exact ⟨_, if_pos (hphase ▸ hp)⟩
  | viewWillAppear =>
    have hp := (App.of_guard hstep).1
    exact ⟨_, if_pos (hphase ▸ hp)⟩
  | editText text =>
    have hfront := (App.of_guard hstep).1
    exact ⟨_, if_pos ⟨hphase ▸ hfront.1, hlist ▸ hfront.2⟩⟩
  | tapCurrencyButton isFromButton =>
    have hfront := (App.of_guard hstep).1
    exact ⟨_, if_pos ⟨hphase ▸ hfront.1, hlist ▸ hfront.2⟩⟩
  | search searchWord =>
    obtain ⟨l, hl, -⟩ := Option.map_eq_some_iff.mp hstep
    rw [hlist] at hl
    exact ⟨_, by rw [App.attempt, hl, Option.map_some]⟩
  | cellForRowAt row =>
    obtain ⟨l, hl, hrow⟩ := Option.bind_eq_some_iff.mp hstep
    obtain ⟨k, hk, hcell⟩ := Option.map_eq_some_iff.mp hrow
    rw [hlist] at hl
    unfold App.cellForRowAt at hcell
    split at hcell
    · cases hcell
    · rename_i c hread
      rw [hmain] at hread
      exact ⟨t, by simp [App.attempt, hl, hk, App.cellForRowAt, hread]⟩
  | beginDismiss =>
    obtain ⟨l, hl, hnot, -⟩ := App.of_shown hstep
    rw [hlist] at hl
    exact ⟨_, by rw [App.attempt, hl, Option.bind_some, hnot]; rfl⟩
  | cancelDismiss =>
    obtain ⟨l, hl, hdismissing, -⟩ := App.of_dismissing hstep
    rw [hlist] at hl
    exact ⟨_, by rw [App.attempt, hl, Option.bind_some, if_pos hdismissing]⟩
  | finishDismiss =>
    obtain ⟨l, hl, hdismissing, -⟩ := App.of_dismissing hstep
    rw [hlist] at hl
    exact ⟨_, by rw [App.attempt, hl, Option.bind_some, if_pos hdismissing]⟩

/-- What an event of the foreground does to the screens can be seen on them. -/
theorem onScreen_congr_step (hfore : e.isForeground = true) (hkeeps : s.advances e = false)
    (h : s.onScreen = t.onScreen) (hs : s.step P e = some s') (ht : t.step P e = some t') :
    s'.onScreen = t'.onScreen := by
  have hlabel := labelOnAppear_congr (P := P) h
  simp only [App.onScreen, OnScreen.mk.injEq] at h
  obtain ⟨hmain, hphase, htext, hold, hfrom, hto, hlist⟩ := h
  have happ := App.appStep_of_step ht
  cases App.appStep_of_step hs with
  | launch => cases hkeeps
  | refresh => cases hkeeps
  | tapExchange => cases hkeeps
  | tapRow => cases hkeeps
  | runMainBlock => cases hfore
  | currencyListFailed => cases hfore
  | currencyListSaved => cases hfore
  | rateFailed => cases hfore
  | ratesSaved => cases hfore
  | finishViewDidLoad =>
    cases happ
    simp only [App.onScreen, hmain, htext, hold, hfrom, hto, hlist]
  | viewWillAppear =>
    cases happ
    simp only [App.onScreen, hmain, htext, hfrom, hto, hlist, hlabel]
  | editText text =>
    cases happ
    simp only [App.onScreen, hmain, hphase, hold, hfrom, hto, hlist]
  | tapCurrencyButton isFromButton =>
    cases happ
    simp only [App.onScreen, App.showCurrencyListScreen, App.title, hmain, hphase, htext, hold,
      hfrom, hto]
  | search searchWord l hl =>
    cases happ with
    | search searchWord l' hl' =>
      obtain rfl : l = l' := Option.some.inj (hl.symm.trans (hlist.trans hl'))
      simp only [App.onScreen, App.searchTextDidChange, hmain, hphase, htext, hold, hfrom, hto]
  | cellForRowAt row =>
    cases happ
    simp only [App.onScreen, hmain, hphase, htext, hold, hfrom, hto, hlist]
  | beginDismiss l hl =>
    cases happ with
    | beginDismiss l' hl' =>
      obtain rfl : l = l' := Option.some.inj (hl.symm.trans (hlist.trans hl'))
      simp only [App.onScreen, hmain, hphase, htext, hfrom, hto, hlabel]
  | cancelDismiss l hl =>
    cases happ with
    | cancelDismiss l' hl' =>
      obtain rfl : l = l' := Option.some.inj (hl.symm.trans (hlist.trans hl'))
      simp only [App.onScreen, hmain, hphase, htext, hold, hfrom, hto]
  | finishDismiss l hl =>
    cases happ
    simp only [App.onScreen, hmain, hphase, htext, hold, hfrom, hto]

/-- A completion, or a block, changes nothing that is shown. -/
theorem onScreen_of_background (hback : e.isForeground = false) (hs : s.step P e = some s') :
    s'.onScreen = s.onScreen := by
  cases App.appStep_of_step hs with
  | runMainBlock => rfl
  | currencyListFailed => rfl
  | currencyListSaved => rfl
  | rateFailed => rfl
  | ratesSaved => rfl
  | _ => cases hback

/-- **The screens hide what other threads do**, as long as the main thread keeps its version. -/
theorem unwinding_onScreen (P : Platform) :
    (App.machine P).Unwinding App.onScreen AppEvent.isForeground
      fun s e => s.advances e = false where
  hidden _ _ _ _ hback hs := onScreen_of_background hback hs
  shown s t e s' hkeeps hfore hview hs := by
    obtain ⟨t', ht⟩ := exists_step_of_onScreen hfore hkeeps hview hs
    exact ⟨t', ht, onScreen_congr_step hfore hkeeps hview hs ht⟩

/-- **What the other threads do is invisible until the main thread moves on**: from every state,
as long as no step may take the main thread to another version, the completions and their blocks
can be left out of what happens, and whatever they are the screens end up the same. -/
theorem background_invisible (P : Platform) {s s₁ : App} {es : List AppEvent}
    (hkeeps : (App.machine P).EveryStepFrom s es fun s e => s.advances e = false)
    (hexec : (App.machine P).exec s es = some s₁) :
    (∃ t, (App.machine P).exec s (es.filter AppEvent.isForeground) = some t ∧
      t.onScreen = s₁.onScreen) ∧
    ∀ es' s₂, (App.machine P).EveryStepFrom s es' (fun s e => s.advances e = false) →
      es'.filter AppEvent.isForeground = es.filter AppEvent.isForeground →
      (App.machine P).exec s es' = some s₂ → s₂.onScreen = s₁.onScreen := by
  have hunwinding := unwinding_onScreen P
  constructor
  · obtain ⟨t, ht, hsame⟩ := hunwinding.exec_filter hkeeps rfl hexec
    exact ⟨t, ht, hsame.symm⟩
  · intro es' s₂ hkeeps' hfilter hexec'
    exact hunwinding.view_eq_of_filter_eq hkeeps' hkeeps hfilter rfl hexec' hexec

/-- A second process: the rates have been answered, which hides the indicator, and the list is
opened before the currencies arrive. -/
def listOpened : List AppEvent :=
  App.firstLaunch ++ [.launch 7200, .finishViewDidLoad 7200, .viewWillAppear,
    .rateCompletion rateBody 7201, .runMainBlock, .refresh, .tapCurrencyButton true]

/-- The currencies are replaced while the list is searched and scrolled. -/
def searchedMeanwhile : List AppEvent :=
  [.search "A", .currencyListCompletion currencyListBody 7202, .cellForRowAt 0, .runMainBlock,
    .search "AF", .cellForRowAt 0, .beginDismiss]

/-- The screens are those of a user who searches while nothing arrives. -/
theorem background_invisible_searchedMeanwhile : ∃ s s₁ t : App,
    (App.machine Platform.sample).Reaches listOpened s ∧
      (App.machine Platform.sample).exec s searchedMeanwhile = some s₁ ∧
      (App.machine Platform.sample).exec s
        [.search "A", .cellForRowAt 0, .search "AF", .cellForRowAt 0, .beginDismiss] = some t ∧
      t.onScreen = s₁.onScreen := by
  have hrun : ((App.machine Platform.sample).exec App.installed listOpened).any (fun s =>
      ((App.machine Platform.sample).exec s searchedMeanwhile).isSome &&
        (App.machine Platform.sample).checkSteps (fun _ s e => !s.advances e) [] s
          searchedMeanwhile) = true := by
    decide +kernel
  obtain ⟨s, hs, hchecks⟩ := (Option.any_eq_true _ _).mp hrun
  rw [Bool.and_eq_true] at hchecks
  obtain ⟨s₁, hexec⟩ := Option.isSome_iff_exists.mp hchecks.1
  have hkeeps := StepMachine.everyStepFrom_of_checkSteps (A := fun s e => s.advances e = false)
    (fun _ _ _ hc => by simpa using hc) hchecks.2
  obtain ⟨t, ht, hsame⟩ := (background_invisible Platform.sample hkeeps hexec).1
  exact ⟨s, s₁, t, hs, hexec, ht, hsame⟩

end ExchangeRate
