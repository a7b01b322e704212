import ExchangeRate.Base.Simulation
import ExchangeRate.Indicator
import ExchangeRate.PKHUD
import ExchangeRate.Versions

/-!
# The indicator over the Top screen

The application together with the HUD it shows on the view of the Top screen: a fetch
shows it, a block of the main queue hides it, and the container takes every touch on
the Top screen as long as it is there. A new process has a new HUD.

The application never shows the HUD while it is being hidden, so in it the HUD is the
flag it is taken for (`ExchangeRate.Overlay.flag_of_reaches`). And the touches it takes are the
ones a user who waits does not make: `ExchangeRate.App.UserWaits` holds of every run
under the HUD, and of no other (`ExchangeRate.userWaits_iff_overlay`).
-/

namespace ExchangeRate

/-- The application and its HUD. -/
structure Overlay where
  app : App
  hud : PKHUD Unit

/-- An event of the application, or the end of a hide animation. -/
inductive OverlayEvent where
  | app (e : AppEvent)
  | hideCompletes
  deriving DecidableEq

/-- The events that are touches on the Top screen. -/
def AppEvent.isTouchOnTop : AppEvent → Bool
  | .editText _ | .tapExchange | .tapCurrencyButton _ => true
  | _ => false

namespace Overlay

/-- What an event does to the HUD. -/
def hudAfter (hud : PKHUD Unit) : AppEvent → PKHUD Unit
  | .launch _ => ({} : PKHUD Unit).showOnView ()
  | .finishViewDidLoad _ => hud.showOnView ()
  | .runMainBlock => hud.hide true
  | _ => hud

/-- One event; a touch on the Top screen does not get through a visible HUD. -/
def step (P : Platform) (s : Overlay) : OverlayEvent → Option Overlay
  | .app e =>
    if e.isTouchOnTop ∧ s.hud.isVisible then none
    else (s.app.step P e).map fun app => ⟨app, hudAfter s.hud e⟩
  | .hideCompletes => (s.hud.step .complete).map fun hud => { s with hud }

/-- **The application under its HUD.** -/
def machine (P : Platform) : StepMachine Overlay OverlayEvent where
  init := ⟨App.installed, {}⟩
  step := step P

/-- The events of the application. -/
def appEvents (ds : List OverlayEvent) : List AppEvent :=
  ds.filterMap fun d =>
    match d with
    | .app e => some e
    | .hideCompletes => none

variable {P : Platform} {ds : List OverlayEvent} {s s' : Overlay} {e : AppEvent}

theorem appEvents_append (ds ds' : List OverlayEvent) :
    appEvents (ds ++ ds') = appEvents ds ++ appEvents ds' :=
  List.filterMap_append

/-- What an event of the application leads to. -/
theorem step_app (h : step P s (.app e) = some s') :
    (e.isTouchOnTop = true → s.hud.isVisible = false) ∧ s.app.step P e = some s'.app ∧
      s'.hud = hudAfter s.hud e := by
  obtain ⟨hnot, h⟩ := Option.ite_none_left_eq_some.mp h
  obtain ⟨app, happ, rfl⟩ := Option.map_eq_some_iff.mp h
  exact ⟨fun htouch => by simpa [htouch] using hnot, happ, rfl⟩

theorem step_hideCompletes (h : step P s .hideCompletes = some s') :
    0 < s.hud.container.completions ∧ s' = { s with hud := s.hud.complete } := by
  obtain ⟨hud, hhud, rfl⟩ := Option.map_eq_some_iff.mp h
  obtain ⟨hpos, heq⟩ := Option.ite_none_right_eq_some.mp hhud
  exact ⟨hpos, by rw [Option.some.inj heq]⟩

/-! ### The HUD is the flag it is taken for -/

/-- **What the HUD has to do with the application**: it is a HUD whose calls since the launch
show it in time, and the last of them was to show it exactly when the application has it visible;
the list screen is open only while it is not. -/
structure Kept (s : Overlay) : Prop where
  calls : ∃ hs, (PKHUD.machine Unit).Reaches hs s.hud ∧ PKHUD.ShownInTime hs ∧
    PKHUD.wanted hs = s.app.hud
  list : s.app.list ≠ none → s.app.hud = false

/-- The application's flag is the HUD's. -/
theorem Kept.hud_iff (h : Kept s) :
    s.app.hud = true ↔ s.hud.isVisible = true ∧ s.hud.container.completions = 0 := by
  obtain ⟨hs, hreaches, hintime, hwanted⟩ := h.calls
  rw [← hwanted]
  exact (PKHUD.isFlag_of_shownInTime hreaches hintime).symm

/-- One call more, which shows nothing that is being hidden. -/
theorem Kept.call (h : Kept s) {d : HUDEvent Unit} {hud : PKHUD Unit} {app : App}
    (hstep : s.hud.step d = some hud)
    (hintime : ∀ view, d = .showOnView view → s.hud.container.completions = 0)
    (hwanted : PKHUD.wantedAfter s.app.hud d = app.hud) (hlist : app.list ≠ none → app.hud = false) :
    Kept ⟨app, hud⟩ := by
  obtain ⟨hs, hreaches, hs_intime, hs_wanted⟩ := h.calls
  refine ⟨⟨hs ++ [d], StepMachine.reaches_concat.mpr ⟨s.hud, hreaches, hstep⟩,
    hs_intime.concat fun hud' hud'_reaches => ?_, ?_⟩, hlist⟩
  · rw [hud'_reaches.unique hreaches]
    exact hintime
  · rw [PKHUD.wanted_concat, hs_wanted, hwanted]

/-- No call, and the application keeps its flag. -/
theorem Kept.keep (h : Kept s) {app : App} (happ : app.hud = s.app.hud)
    (hlist : app.list ≠ none → app.hud = false) : Kept ⟨app, s.hud⟩ := by
  obtain ⟨hs, hreaches, hintime, hwanted⟩ := h.calls
  exact ⟨⟨hs, hreaches, hintime, hwanted.trans happ.symm⟩, hlist⟩

theorem hudAfter_of_not_calls (hud : PKHUD Unit) (he : e.callsHUD = false) :
    hudAfter hud e = hud := by
  cases e with
  | launch | finishViewDidLoad | runMainBlock => cases he
  | _ => rfl

/-- Without a call the application keeps its flag, and the list is opened only when it is down. -/
theorem Kept.other (h : Kept s) (hstep : step P s (.app e) = some s')
    (he : e.callsHUD = false) : Kept s' := by
  obtain ⟨htouch, happ, hhud⟩ := step_app hstep
  obtain ⟨app', hud'⟩ := s'
  obtain rfl : hud' = s.hud := hhud.trans (hudAfter_of_not_calls s.hud he)
  replace happ : s.app.step P e = some app' := happ
  have hdown : e.isTouchOnTop = true → s.app.hud = false := by
    intro he
    have hhidden := htouch he
    by_contra hup
    rw [Bool.not_eq_false, h.hud_iff, hhidden] at hup
    cases hup.1
  cases App.appStep_of_step happ with
  | launch | finishViewDidLoad | runMainBlock => cases he
  | tapCurrencyButton => exact h.keep rfl fun _ => hdown rfl
  | search searchWord l hlist => exact h.keep rfl fun _ => h.list (by simp [hlist])
  | tapRow row l hlist => exact h.keep rfl fun _ => h.list (by simp [hlist])
  | beginDismiss l hlist => exact h.keep rfl fun _ => h.list (by simp [hlist])
  | cancelDismiss l hlist => exact h.keep rfl fun _ => h.list (by simp [hlist])
  | finishDismiss => exact h.keep rfl fun hne => absurd rfl hne
  | _ => exact h.keep rfl h.list

/-- A launch makes a HUD and shows it. -/
theorem kept_launch (app : App) (hup : app.hud = true) (hlist : app.list = none) :
    Kept ⟨app, ({} : PKHUD Unit).showOnView ()⟩ := by
  have hintime : PKHUD.ShownInTime ([] ++ [.showOnView ()] : List (HUDEvent Unit)) := by
    refine StepMachine.EveryStep.concat PKHUD.shownInTime_nil fun hud hreaches view _ => ?_
    rw [StepMachine.reaches_nil.mp hreaches]
    rfl
  exact ⟨⟨[.showOnView ()], rfl, hintime, hup.symm⟩, fun hne => absurd hlist hne⟩

/-- What the user does on the list screen needs a list screen. -/
theorem list_of_isUser {app app' : App} (huser : e.isUser = true) (hnot : e.isTouchOnTop = false)
    (h : app.step P e = some app') : app.list ≠ none := by
  intro hnone
  rw [App.step_eq_some_iff] at h
  cases e with
  | editText | tapExchange | tapCurrencyButton => cases hnot
  | search | cellForRowAt | tapRow | beginDismiss | cancelDismiss | finishDismiss =>
    simp [App.attempt, hnone] at h
  | _ => cases huser

/-- **Under the HUD the application runs as it does with a user who waits**, and the HUD is the
application's flag. -/
theorem kept_of_reaches (h : (machine P).Reaches ds s) :
    (App.machine P).Reaches (appEvents ds) s.app ∧ App.UserWaits P (appEvents ds) ∧ Kept s := by
  refine StepMachine.Reaches.invariant (M := machine P)
    (I := fun ds s => (App.machine P).Reaches (appEvents ds) s.app ∧
      App.UserWaits P (appEvents ds) ∧ Kept s)
    ⟨rfl, StepMachine.everyStep_nil, ⟨[], rfl, PKHUD.shownInTime_nil, rfl⟩, nofun⟩
    (fun ds s d s' _ hI hstep => ?_) h
  obtain ⟨hreaches, hwaits, hkept⟩ := hI
  rw [appEvents_append]
  cases d with
  | hideCompletes =>
    obtain ⟨hpos, rfl⟩ := step_hideCompletes (P := P) hstep
    refine ⟨?_, ?_, hkept.call (d := .complete) (if_pos hpos) (by rintro _ ⟨⟩) rfl hkept.list⟩
    · rw [show appEvents [.hideCompletes] = [] from rfl, List.append_nil]
      exact hreaches
    · rw [show appEvents [.hideCompletes] = [] from rfl, List.append_nil]
      exact hwaits
  | app e =>
    replace hstep : step P s (.app e) = some s' := hstep
    obtain ⟨htouch, happ, hhud⟩ := step_app hstep
    have hreaches' := StepMachine.reaches_concat.mpr ⟨s.app, hreaches, happ⟩
    refine ⟨hreaches', StepMachine.EveryStep.concat hwaits fun app happ' huser => ?_, ?_⟩
    · rw [happ'.unique hreaches]
      cases htop : e.isTouchOnTop with
      | false => exact hkept.list (list_of_isUser huser htop happ)
      | true =>
        by_contra hup
        rw [Bool.not_eq_false, hkept.hud_iff, htouch htop] at hup
        cases hup.1
    · cases e with
      | launch now =>
        obtain ⟨app', hud'⟩ := s'
        obtain rfl : hud' = _ := hhud
        replace happ : s.app.step P (.launch now) = some app' := happ
        cases App.appStep_of_step happ
        exact kept_launch _ rfl rfl
      | finishViewDidLoad now =>
        obtain ⟨app', hud'⟩ := s'
        obtain rfl : hud' = _ := hhud
        replace happ : s.app.step P (.finishViewDidLoad now) = some app' := happ
        cases App.appStep_of_step happ with
        | finishViewDidLoad now hphase tasks mainQueue =>
          -- the indicator has been visible since the launch, so it is not being hidden
          have hup := (indicatorCount_of_reaches hreaches).loading (by rw [App.shows, hphase])
          have hclosed : s.app.list = none := by
            by_contra hopen
            rw [appeared_of_list hreaches hopen] at hphase
            cases hphase
          exact hkept.call (d := .showOnView ()) rfl (fun _ _ => (hkept.hud_iff.mp hup).2) rfl
            fun hopen => absurd hclosed hopen
      | runMainBlock =>
        obtain ⟨app', hud'⟩ := s'
        obtain rfl : hud' = _ := hhud
        replace happ : s.app.step P .runMainBlock = some app' := happ
        cases App.appStep_of_step happ
        exact hkept.call (d := .hide true) rfl (by rintro _ ⟨⟩) rfl fun _ => rfl
      | _ => exact hkept.other hstep rfl

/-- **In every state the HUD is the application's flag, hidden exactly when it is on no view.** -/
theorem flag_of_reaches (h : (machine P).Reaches ds s) :
    (s.app.hud = true ↔ s.hud.isVisible = true ∧ s.hud.container.completions = 0) ∧
      PKHUD.Kept s.hud := by
  obtain ⟨-, -, hkept⟩ := kept_of_reaches h
  obtain ⟨hs, hreaches, -, -⟩ := hkept.calls
  exact ⟨hkept.hud_iff, PKHUD.kept_of_reaches hreaches⟩

/-- A launch that is answered, up to the first block of the main queue. -/
def beingHidden : List OverlayEvent :=
  [.app (.launch 0), .app (.finishViewDidLoad 0), .app .viewWillAppear,
    .app (.currencyListCompletion currencyListBody 1), .app .runMainBlock]

/-- The HUD is being hidden, and is still there. -/
theorem flag_of_reaches_beingHidden : ∃ s, (machine Platform.sample).Reaches beingHidden s ∧
    (s.app.hud = true ↔ s.hud.isVisible = true ∧ s.hud.container.completions = 0) ∧
      PKHUD.Kept s.hud ∧ s.app.hud = false ∧ s.hud.isVisible = true := by
  have hrun : ((machine Platform.sample).exec (machine Platform.sample).init beingHidden).map
      (fun s => (s.app.hud, s.hud.isVisible)) = some (false, true) := by decide +kernel
  obtain ⟨s, hs, hvalues⟩ := Option.map_eq_some_iff.mp hrun
  obtain ⟨hdown, hvisible⟩ := Prod.mk.inj hvalues
  exact ⟨s, hs, (flag_of_reaches hs).1, (flag_of_reaches hs).2, hdown, hvisible⟩

/-! ### The runs of a user who waits -/

/-- An event starts one hide animation at most. -/
theorem completions_hudAfter_le (hud : PKHUD Unit) (h : hud.container.completions = 0)
    (e : AppEvent) : (hudAfter hud e).container.completions ≤ 1 := by
  cases e with
  | launch => exact Nat.zero_le 1
  | finishViewDidLoad =>
    rw [hudAfter, PKHUD.container_showOnView, h]
    exact Nat.zero_le 1
  | runMainBlock =>
    rw [hudAfter]
    cases hvisible : hud.isVisible with
    | false =>
      rw [PKHUD.hide_of_hidden hvisible, h]
      exact Nat.zero_le 1
    | true => rw [PKHUD.container_hide_animated hvisible, h]
  | _ => exact h.le.trans (Nat.zero_le 1)

/-- An event that gets through, and then the end of the hide animation if it has started one. -/
theorem exists_exec_app {app : App} (h : s.hud.container.completions = 0)
    (htouch : e.isTouchOnTop = true → s.hud.isVisible = false) (happ : s.app.step P e = some app) :
    ∃ ds s', (machine P).exec s ds = some s' ∧ appEvents ds = [e] ∧ s'.app = app ∧
      s'.hud.container.completions = 0 := by
  have hstep : (machine P).step s (.app e) = some ⟨app, hudAfter s.hud e⟩ := by
    show (if e.isTouchOnTop ∧ s.hud.isVisible then none else _) = _
    rw [if_neg (fun hboth => by simp [htouch hboth.1] at hboth), happ, Option.map_some]
  have hle := completions_hudAfter_le s.hud h e
  by_cases hzero : (hudAfter s.hud e).container.completions = 0
  · refine ⟨[.app e], ⟨app, hudAfter s.hud e⟩, ?_, rfl, rfl, hzero⟩
    rw [StepMachine.exec_cons, hstep]
    rfl
  · have hcompletes : (machine P).step ⟨app, hudAfter s.hud e⟩ .hideCompletes =
        some ⟨app, (hudAfter s.hud e).complete⟩ := by
      show Option.map _ (if 0 < (hudAfter s.hud e).container.completions then _ else _) = _
      rw [if_pos (Nat.pos_of_ne_zero hzero), Option.map_some]
    refine ⟨[.app e, .hideCompletes], ⟨app, (hudAfter s.hud e).complete⟩, ?_, rfl, rfl, ?_⟩
    · rw [StepMachine.exec_cons, hstep, Option.bind_some, StepMachine.exec_cons, hcompletes]
      rfl
    · show (hudAfter s.hud e).container.completions - 1 = 0
      omega

end Overlay

/-- **The HUD makes the user wait, and forbids nothing else**: the runs in which the user acts only
while the indicator is hidden are exactly those of the application under its HUD. -/
theorem userWaits_iff_overlay {P : Platform} {es : List AppEvent} {s : App}
    (h : (App.machine P).Reaches es s) : App.UserWaits P es ↔
      ∃ ds t, (Overlay.machine P).Reaches ds t ∧ t.app = s ∧ Overlay.appEvents ds = es := by
  constructor
  · intro hwaits
    refine StepMachine.Reaches.simulate (M := App.machine P) (N := Overlay.machine P)
      (I := fun es s ds t => t.app = s ∧ Overlay.appEvents ds = es ∧
        t.hud.container.completions = 0) (C := fun _ s e => e.isUser = true → s.hud = false)
      ⟨rfl, rfl, rfl⟩ (fun es s ds t e s' _ ht hI hC hstep => ?_) h hwaits |>.imp fun ds => ?_
    · obtain ⟨rfl, hevents, hnone⟩ := hI
      have hkept := (Overlay.kept_of_reaches ht).2.2
      have htouch : e.isTouchOnTop = true → t.hud.isVisible = false := by
        intro htop
        have huser : e.isUser = true := by
          cases e <;> first | rfl | cases htop
        by_contra hvisible
        rw [Bool.not_eq_false] at hvisible
        rw [hkept.hud_iff.mpr ⟨hvisible, hnone⟩] at hC
        exact absurd (hC huser) (by decide)
      obtain ⟨ds', t', hexec, hevents', happ, hnone'⟩ :=
        Overlay.exists_exec_app hnone htouch hstep
      exact ⟨ds', t', hexec, happ, by rw [Overlay.appEvents_append, hevents, hevents'], hnone'⟩
    · rintro ⟨t, ht, heq, hevents, -⟩
      exact ⟨t, ht, heq, hevents⟩
  · rintro ⟨ds, t, ht, -, rfl⟩
    exact (Overlay.kept_of_reaches ht).2.1

/-- A user who waits for the lists, and then types. -/
theorem userWaits_iff_overlay_firstLaunch : ∃ ds t,
    (Overlay.machine Platform.sample).Reaches ds t ∧
      Overlay.appEvents ds = App.firstLaunch ++ [.editText "12"] := by
  have hrun : ((App.machine Platform.sample).exec App.installed
      (App.firstLaunch ++ [.editText "12"])).isSome = true := by decide +kernel
  obtain ⟨s, hs⟩ := Option.isSome_iff_exists.mp hrun
  have hwaits : App.UserWaits Platform.sample (App.firstLaunch ++ [.editText "12"]) :=
    StepMachine.everyStep_of_checkSteps (c := fun _ s e => !e.isUser || !s.hud)
      (fun _ s e hc huser => by simpa [huser] using hc) (by decide +kernel)
  obtain ⟨ds, t, ht, -, hevents⟩ := (userWaits_iff_overlay hs).mp hwaits
  exact ⟨ds, t, ht, hevents⟩

end ExchangeRate
