import ExchangeRate.Base.StepMachine

/-!
# The indicator as it is built

The HUD that the Top screen shows and hides, from `Pods/PKHUD/PKHUD/PKHUD.swift` and
`Pods/PKHUD/PKHUD/Window.swift`. A hide is animated: the container stays over the
screen, and takes its touches, until the completion block of the animation runs.

The completion block hides the container whatever has happened since, as nothing reads
`willHide`. So a HUD that is shown again while it is being hidden goes away
nevertheless (`ExchangeRate.PKHUD.hidden_of_pending`), and the HUD is the one flag that
its calls suggest in exactly the runs in which this is not done
(`ExchangeRate.PKHUD.isFlag_iff`).
-/

namespace ExchangeRate

/-- The container of the HUD: `superview` is the view it has been added to, and `completions`
counts the completion blocks of its animations that have yet to run. -/
structure ContainerView (V : Type) where
  isHidden : Bool := true
  superview : Option V := none
  frameViewAlpha : ℕ := 1
  backgroundViewAlpha : ℕ := 0
  willHide : Bool := false
  completions : ℕ := 0
  deriving DecidableEq

namespace ContainerView

variable {V : Type} (container : ContainerView V)

def showBackground : ContainerView V := { container with backgroundViewAlpha := 1 }

def hideBackground : ContainerView V := { container with backgroundViewAlpha := 0 }

def showFrameView : ContainerView V := { container with frameViewAlpha := 1, isHidden := false }

/-- The local function `finalize` of `hideFrameView`. -/
def finalize : ContainerView V :=
  { container with isHidden := true, superview := none, willHide := false }

def hideFrameView (anim : Bool) : ContainerView V :=
  if container.isHidden then container
  else
    let container := { container with willHide := true, frameViewAlpha := 0 }
    if anim then { container.hideBackground with completions := container.completions + 1 }
    else container.finalize

end ContainerView

/-- The HUD. -/
structure PKHUD (V : Type) where
  container : ContainerView V := {}
  dimsBackground : Bool := true
  deriving DecidableEq

/-- What happens to a HUD. -/
inductive HUDEvent (V : Type) where
  | showOnView (view : V)
  | hide (animated : Bool)
  /-- The completion block of an animation runs. -/
  | complete
  deriving DecidableEq

namespace PKHUD

variable {V : Type} (hud : PKHUD V)

def isVisible : Bool := !hud.container.isHidden

def showContent : PKHUD V := { hud with container := hud.container.showFrameView }

def hide (animated : Bool) : PKHUD V :=
  { hud with container := hud.container.hideFrameView animated }

/-- The completion block of an animated hide. -/
def complete : PKHUD V :=
  { hud with
    container :=
      { hud.container.finalize with completions := hud.container.completions - 1 } }

variable [DecidableEq V]

/-- `show(onView:)`, without a grace period. -/
def showOnView (view : V) : PKHUD V :=
  let container :=
    if hud.container.superview = some view then hud.container
    else { hud.container with superview := some view, isHidden := true }
  { hud with
    container := if hud.dimsBackground then container.showBackground else container }.showContent

/-- One event; `none` when there is no completion block that could run. -/
def step : HUDEvent V → Option (PKHUD V)
  | .showOnView view => some (hud.showOnView view)
  | .hide animated => some (hud.hide animated)
  | .complete => if 0 < hud.container.completions then some hud.complete else none

/-- **A HUD that has just been made.** -/
def machine (V : Type) [DecidableEq V] : StepMachine (PKHUD V) (HUDEvent V) where
  init := {}
  step hud e := hud.step e

/-! ### What the calls do -/

theorem container_showOnView (view : V) : (hud.showOnView view).container =
    { hud.container with
      superview := some view
      isHidden := false
      frameViewAlpha := 1
      backgroundViewAlpha := if hud.dimsBackground then 1 else hud.container.backgroundViewAlpha } := by
  unfold showOnView showContent
  by_cases hsuper : hud.container.superview = some view
  · rw [if_pos hsuper]
    cases hud.dimsBackground <;>
      simp [ContainerView.showFrameView, ContainerView.showBackground, ← hsuper]
  · rw [if_neg hsuper]
    cases hud.dimsBackground <;> rfl

omit [DecidableEq V]

variable {hud}

/-- There is nothing to hide about a container that is hidden. -/
theorem hide_of_hidden (h : hud.isVisible = false) (animated : Bool) : hud.hide animated = hud := by
  have hhidden : hud.container.isHidden = true := by simpa [isVisible] using h
  rw [hide, ContainerView.hideFrameView, if_pos hhidden]

theorem container_hide_animated (h : hud.isVisible = true) : (hud.hide true).container =
    { hud.container with
      willHide := true
      frameViewAlpha := 0
      backgroundViewAlpha := 0
      completions := hud.container.completions + 1 } := by
  have hvisible : ¬hud.container.isHidden = true := by simpa [isVisible] using h
  rw [hide, ContainerView.hideFrameView, if_neg hvisible]
  rfl

theorem container_hide_now (h : hud.isVisible = true) : (hud.hide false).container =
    { hud.container with
      isHidden := true
      superview := none
      willHide := false
      frameViewAlpha := 0 } := by
  have hvisible : ¬hud.container.isHidden = true := by simpa [isVisible] using h
  rw [hide, ContainerView.hideFrameView, if_neg hvisible]
  rfl

/-! ### What holds of every HUD -/

/-- **A HUD in use**: it is hidden exactly when it is on no view, and it takes touches without
being seen, or is about to be hidden, only while an animation is running. -/
structure Kept (hud : PKHUD V) : Prop where
  superview : hud.isVisible = true ↔ hud.container.superview.isSome = true
  seen : hud.isVisible = true → hud.container.frameViewAlpha = 0 → 0 < hud.container.completions
  willHide : hud.container.willHide = true → hud.isVisible = true ∧ 0 < hud.container.completions

theorem kept_of_reaches [DecidableEq V] {es : List (HUDEvent V)} (h : (machine V).Reaches es hud) :
    Kept hud := by
  refine StepMachine.Reaches.invariant (M := machine V) (I := fun _ hud => Kept hud)
    ⟨iff_of_false nofun nofun, nofun, nofun⟩ (fun es hud e hud' _ hI hstep => ?_) h
  cases e with
  | showOnView view =>
    obtain rfl : hud.showOnView view = hud' := Option.some.inj hstep
    have hcontainer := hud.container_showOnView view
    refine ⟨?_, ?_, ?_⟩
    · simp [isVisible, hcontainer]
    · simp [hcontainer]
    · simpa [isVisible, hcontainer] using fun hwill => (hI.willHide hwill).2
  | hide animated =>
    obtain rfl : hud.hide animated = hud' := Option.some.inj hstep
    cases hvisible : hud.isVisible with
    | false =>
      rw [hide_of_hidden hvisible]
      exact hI
    | true =>
      cases animated with
      | true =>
        have hcontainer := container_hide_animated hvisible
        have hsuper := hI.superview
        simp only [isVisible] at hvisible hsuper
        exact ⟨by simpa [isVisible, hcontainer] using hsuper, by simp [hcontainer],
          by simpa [isVisible, hcontainer] using hvisible⟩
      | false =>
        have hcontainer := container_hide_now hvisible
        exact ⟨by simp [isVisible, hcontainer], by simp [isVisible, hcontainer],
          by simp [hcontainer]⟩
  | complete =>
    have hstep' : (if 0 < hud.container.completions then some hud.complete else none) = some hud' :=
      hstep
    obtain ⟨-, heq⟩ := Option.ite_none_right_eq_some.mp hstep'
    obtain rfl := Option.some.inj heq
    exact ⟨iff_of_false nofun nofun, nofun, nofun⟩

/-! ### The HUD as a flag -/

/-- Whether the last call was to show the HUD, after one event more. -/
def wantedAfter (b : Bool) : HUDEvent V → Bool
  | .showOnView _ => true
  | .hide _ => false
  | .complete => b

/-- The last call was to show the HUD. -/
def wanted (es : List (HUDEvent V)) : Bool := es.foldl wantedAfter false

/-- **The HUD is a flag**: it is visible, and not about to be hidden, exactly when the last call
was to show it. -/
def IsFlag (es : List (HUDEvent V)) (hud : PKHUD V) : Prop :=
  (hud.isVisible = true ∧ hud.container.completions = 0) ↔ wanted es = true

theorem wanted_concat (es : List (HUDEvent V)) (e : HUDEvent V) :
    wanted (es ++ [e]) = wantedAfter (wanted es) e :=
  List.foldl_concat ..

/-- **The HUD is not shown while it is being hidden.** -/
def ShownInTime (es : List (HUDEvent V)) : Prop :=
  (machine V).EveryStep es fun _ hud e =>
    ∀ view, e = .showOnView view → hud.container.completions = 0

theorem shownInTime_nil [DecidableEq V] : ShownInTime ([] : List (HUDEvent V)) :=
  StepMachine.everyStep_nil

/-- A HUD that has been hidden is hidden, or is going to be. -/
theorem not_flag_hide (hud : PKHUD V) (animated : Bool) :
    ¬((hud.hide animated).isVisible = true ∧ (hud.hide animated).container.completions = 0) := by
  rintro ⟨hvisible, hnone⟩
  cases hbefore : hud.isVisible with
  | false =>
    rw [hide_of_hidden hbefore, hbefore] at hvisible
    cases hvisible
  | true =>
    cases animated with
    | true =>
      rw [container_hide_animated hbefore] at hnone
      cases hnone
    | false =>
      rw [isVisible, container_hide_now hbefore] at hvisible
      cases hvisible

/-- A call that shows nothing that is being hidden leaves the HUD a flag. -/
theorem isFlag_of_step [DecidableEq V] {es : List (HUDEvent V)} {hud' : PKHUD V} {e : HUDEvent V}
    (hI : IsFlag es hud) (hin : ∀ view, e = .showOnView view → hud.container.completions = 0)
    (hstep : hud.step e = some hud') : IsFlag (es ++ [e]) hud' := by
  cases e with
  | showOnView view =>
    obtain rfl : hud.showOnView view = hud' := Option.some.inj hstep
    rw [IsFlag, wanted_concat, isVisible, container_showOnView]
    exact iff_of_true ⟨rfl, hin view rfl⟩ rfl
  | hide animated =>
    obtain rfl : hud.hide animated = hud' := Option.some.inj hstep
    rw [IsFlag, wanted_concat]
    exact iff_of_false (not_flag_hide hud animated) nofun
  | complete =>
    obtain ⟨hpos, heq⟩ := Option.ite_none_right_eq_some.mp hstep
    obtain rfl := Option.some.inj heq
    rw [IsFlag, wanted_concat]
    refine iff_of_false (fun h => nomatch h.1) fun hwanted => ?_
    -- an animation is running, so the last call was to hide
    exact hpos.ne' (hI.mpr hwanted).2

theorem isFlag_init [DecidableEq V] : IsFlag [] (machine V).init :=
  iff_of_false (fun h => nomatch h.1) nofun

theorem isFlag_of_shownInTime [DecidableEq V] {es : List (HUDEvent V)}
    (h : (machine V).Reaches es hud) (hin : ShownInTime es) : IsFlag es hud :=
  StepMachine.Reaches.invariant_of_everyStep (M := machine V) isFlag_init
    (fun _ _ _ _ _ hI hC hstep => isFlag_of_step hI hC hstep) h hin

/-- **The HUD is a flag in exactly the runs in which it is not shown while it is being
hidden.** -/
theorem isFlag_iff [DecidableEq V] {es : List (HUDEvent V)} (h : (machine V).Reaches es hud) :
    (machine V).Always es IsFlag ↔ ShownInTime es := by
  refine StepMachine.always_iff_everyStep (M := machine V) (P := IsFlag) (I := IsFlag) isFlag_init
    (fun es hud e hud' _ hI hC hstep => isFlag_of_step hI hC hstep)
    (fun es hud _ hI => hI) (fun es hud e hud' _ hC hstep => ?_) h
  push Not at hC
  obtain ⟨view, rfl, hrunning⟩ := hC
  obtain rfl : hud.showOnView view = hud' := Option.some.inj hstep
  rw [IsFlag, wanted_concat, container_showOnView]
  exact fun hflag => hrunning (hflag.mpr rfl).2

/-- Shown, hidden, and shown again when the animation is over. -/
def shownAfterHiding : List (HUDEvent Unit) :=
  [.showOnView (), .showOnView (), .hide true, .complete, .hide true, .showOnView ()]

theorem isFlag_shownAfterHiding : (machine Unit).Always shownAfterHiding IsFlag := by
  have hrun : ((machine Unit).exec (machine Unit).init shownAfterHiding).isSome = true := by
    decide
  obtain ⟨hud, hs⟩ := Option.isSome_iff_exists.mp hrun
  refine (isFlag_iff hs).mpr (StepMachine.everyStep_of_checkSteps
    (c := fun _ hud e => e ≠ .showOnView () ∨ hud.container.completions = 0)
    (fun _ hud e hc view he => ?_) (by decide))
  subst he
  simpa using hc

/-! ### A hide that is pending -/

/-- A call can be made at any time, and takes back no completion block. -/
theorem exists_step_of_call [DecidableEq V] (hud : PKHUD V) {e : HUDEvent V} (he : e ≠ .complete) :
    ∃ hud', (machine V).step hud e = some hud' ∧
      hud.container.completions ≤ hud'.container.completions := by
  cases e with
  | showOnView view =>
    refine ⟨hud.showOnView view, rfl, ?_⟩
    rw [container_showOnView]
  | hide animated =>
    refine ⟨hud.hide animated, rfl, ?_⟩
    cases hvisible : hud.isVisible with
    | false => rw [hide_of_hidden hvisible]
    | true =>
      cases animated with
      | true =>
        rw [container_hide_animated hvisible]
        exact Nat.le_succ _
      | false => rw [container_hide_now hvisible]
  | complete => exact absurd rfl he

/-- **A pending completion block hides the HUD**, whatever calls are made before it runs. -/
theorem hidden_of_pending [DecidableEq V] (hpending : 0 < hud.container.completions)
    {calls : List (HUDEvent V)} (hcalls : .complete ∉ calls) :
    ∃ hud', (machine V).exec hud (calls ++ [.complete]) = some hud' ∧ hud'.isVisible = false := by
  induction calls generalizing hud with
  | nil =>
    have hstep : (machine V).step hud .complete = some hud.complete := if_pos hpending
    exact ⟨hud.complete, StepMachine.exec_of_step hstep [], rfl⟩
  | cons e calls ih =>
    rw [List.mem_cons, not_or] at hcalls
    obtain ⟨hud', hstep, hle⟩ := exists_step_of_call hud (Ne.symm hcalls.1)
    rw [List.cons_append, StepMachine.exec_of_step hstep]
    exact ih (hpending.trans_le hle) hcalls.2

/-- Shown again while it is being hidden, the HUD goes away and stays away. -/
example : ∃ hud,
    (machine Unit).Reaches [.showOnView (), .hide true, .showOnView (), .complete] hud ∧
      hud.isVisible = false ∧ hud.container.completions = 0 ∧
      ¬IsFlag [.showOnView (), .hide true, .showOnView (), .complete] hud :=
  ⟨_, rfl, rfl, rfl, fun h => nomatch (h.mpr rfl).1⟩

end PKHUD

end ExchangeRate
