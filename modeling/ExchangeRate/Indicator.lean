import ExchangeRate.App

/-!
# The loading indicator

Each of the two fetches shows the indicator, and each answer hides it. The indicator
is one flag, so the first answer hides it for both: it covers the requests of a
launch exactly as long as no block of the main queue runs while a request is in
flight (`ExchangeRate.indicator_covers_iff`).

For the same reason the indicator is hidden in the end unless both requests fail, as
a request that fails enqueues nothing
(`ExchangeRate.indicator_settles_iff`). What carries this is a count
(`ExchangeRate.IndicatorCount`): the requests in flight, the blocks in the queue and
the requests that failed are as many as the fetches while the indicator is visible,
and fewer once a block has run.
-/

namespace ExchangeRate

variable {P : Platform} {es : List AppEvent} {s s' : App} {e : AppEvent}

/-- The events that show or hide the indicator. -/
def AppEvent.callsHUD : AppEvent → Bool
  | .launch _ | .finishViewDidLoad _ | .runMainBlock => true
  | _ => false

namespace App

/-- While a request of a loaded screen is in flight, the indicator is visible. -/
def Covered (s : App) : Prop := s.Loaded → s.tasks ≠ [] → s.hud = true

/-- A loaded screen with nothing in flight and an empty queue shows no indicator. -/
def Settled (s : App) : Prop := s.Loaded → s.tasks = [] → s.mainQueue = [] → s.hud = false

/-- What is still to answer or to run. -/
def pending (s : App) : ℕ := s.tasks.length + s.mainQueue.length

theorem shows_le_two (s : App) : s.shows ≤ 2 := by
  unfold shows
  split <;> decide

theorem shows_of_phase_eq {s s' : App} (h : s'.phase = s.phase) : s'.shows = s.shows := by
  rw [shows, shows, h]

theorem length_erase_task {url : URL} {tasks : List URL} (h : url ∈ tasks) :
    (tasks.erase url).length + 1 = tasks.length := by
  have hpos := List.length_pos_of_mem h
  rw [List.length_erase_of_mem h]
  omega

/-- A request that fails is pending no more, and has failed. -/
theorem pending_failed {url : URL} (h : url ∈ s.tasks) (failed : ℕ) :
    { s with tasks := s.tasks.erase url }.pending + (failed + 1) = s.pending + failed := by
  have hlength := length_erase_task h
  show (s.tasks.erase url).length + s.mainQueue.length + (failed + 1) =
    s.tasks.length + s.mainQueue.length + failed
  omega

/-- A request that is answered has its block pending in its place. -/
theorem pending_answered {url : URL} (h : url ∈ s.tasks) (b : MainBlock) (failed : ℕ) :
    (s.tasks.erase url).length + (s.mainQueue ++ [b]).length + failed = s.pending + failed := by
  have hlength := length_erase_task h
  rw [List.length_append, List.length_singleton, pending]
  omega

end App

/-- The other events leave it as it is. -/
theorem hud_of_not_calls (he : e.callsHUD = false) (hstep : s.step P e = some s') :
    s'.hud = s.hud := by
  cases App.appStep_of_step hstep with
  | launch | finishViewDidLoad | runMainBlock => cases he
  | _ => rfl

/-! ### Dismissed early -/

/-- **The indicator covers the requests in exactly the runs in which no block of the main
queue runs while a request is in flight.** -/
theorem indicator_covers_iff (h : (App.machine P).Reaches es s) :
    (App.machine P).Always es (fun _ s => s.Covered) ↔
      (App.machine P).EveryStep es fun _ s e => e = .runMainBlock → s.tasks = [] := by
  -- in the middle of `viewDidLoad` the indicator is visible whatever is in flight
  refine StepMachine.always_iff_everyStep (M := App.machine P)
    (P := fun _ s => s.Covered) (I := fun _ s => s.shows = 1 ∨ s.tasks ≠ [] → s.hud = true) ?_
    (fun es s e s' _ hI hC hstep => ?_) (fun es s _ hI _ htasks => hI (Or.inr htasks))
    (fun es s e s' _ hC hstep => ?_) h
  · rintro (h | h)
    · cases h
    · exact absurd rfl h
  · cases App.appStep_of_step hstep with
    | launch => exact fun _ => rfl
    | finishViewDidLoad => exact fun _ => rfl
    | viewWillAppear hphase =>
      rintro (h | h)
      · cases h
      · exact hI (Or.inr h)
    | runMainBlock hloaded b mainQueue hqueue =>
      -- the condition: nothing is in flight when the indicator is hidden
      have hnone := hC rfl
      rintro (h | h)
      · exact absurd (hloaded.symm.trans h) (by decide)
      · exact absurd hnone h
    | currencyListFailed now htask => exact fun _ => hI (Or.inr (List.ne_nil_of_mem htask))
    | currencyListSaved data now htask => exact fun _ => hI (Or.inr (List.ne_nil_of_mem htask))
    | rateFailed now htask => exact fun _ => hI (Or.inr (List.ne_nil_of_mem htask))
    | ratesSaved data now htask => exact fun _ => hI (Or.inr (List.ne_nil_of_mem htask))
    | _ => exact hI
  · rw [Classical.not_imp] at hC
    obtain ⟨rfl, htasks⟩ := hC
    cases App.appStep_of_step hstep with
    | runMainBlock hloaded b mainQueue hqueue =>
      intro hcovered
      exact Bool.false_ne_true (hcovered hloaded htasks)

/-- Answered in time, the requests of a launch are covered. -/
theorem indicator_covers_firstLaunch :
    (App.machine Platform.sample).Always App.firstLaunch fun _ s => s.Covered := by
  have hrun : ((App.machine Platform.sample).exec App.installed App.firstLaunch).isSome = true := by
    decide +kernel
  obtain ⟨s, hs⟩ := Option.isSome_iff_exists.mp hrun
  refine (indicator_covers_iff hs).mpr (StepMachine.everyStep_of_checkSteps
    (c := fun _ s e => e != .runMainBlock || s.tasks.isEmpty) (fun pre s e hc he => ?_)
    (by decide +kernel))
  subst he
  simpa using hc

/-- **The first answer hides the indicator for both requests.** -/
theorem indicator_dismissed_early :
    ¬∀ (es : List AppEvent) (s : App), (App.machine Platform.sample).Reaches es s → s.Covered := by
  intro hcovered
  have hrun : ((App.machine Platform.sample).exec App.installed
      [.launch 0, .finishViewDidLoad 0, .viewWillAppear,
        .currencyListCompletion currencyListBody 1, .runMainBlock]).map
      (fun s => (s.shows, s.tasks, s.hud)) = some (2, [rateURL], false) := by decide +kernel
  obtain ⟨s, hs, hvalues⟩ := Option.map_eq_some_iff.mp hrun
  simp only [Prod.mk.injEq] at hvalues
  obtain ⟨hloaded, htasks, hhidden⟩ := hvalues
  have hvisible := hcovered _ s hs hloaded (by simp [htasks])
  rw [hhidden] at hvisible
  cases hvisible

/-! ### Left stuck -/

/-- The number of failed requests of the current launch, after one event more. -/
def countFailure (n : ℕ) : AppEvent → ℕ
  | .launch _ => 0
  | .currencyListCompletion none _ => n + 1
  | .rateCompletion none _ => n + 1
  | _ => n

/-- **The requests of the current launch that failed.** -/
def failures (es : List AppEvent) : ℕ := es.foldl countFailure 0

theorem failures_concat (es : List AppEvent) (e : AppEvent) :
    failures (es ++ [e]) = countFailure (failures es) e :=
  List.foldl_concat ..

/-- **The count**: while the indicator is visible, what is pending and what has failed make up
the fetches; once a block has run, they do not. -/
structure IndicatorCount (failed : ℕ) (s : App) : Prop where
  loading : s.shows = 1 → s.hud = true
  visible : s.hud = true → s.pending + failed = s.shows
  hidden : s.hud = false → s.pending + failed ≤ s.shows - 1

/-- The count only depends on how much is pending or has failed. -/
theorem IndicatorCount.replace {n n' : ℕ} (h : IndicatorCount n s) (hphase : s'.phase = s.phase)
    (hhud : s'.hud = s.hud) (hsum : s'.pending + n' = s.pending + n) : IndicatorCount n' s' := by
  have hshows := App.shows_of_phase_eq hphase
  refine ⟨?_, ?_, ?_⟩
  · rw [hshows, hhud]
    exact h.loading
  · rw [hshows, hhud, hsum]
    exact h.visible
  · rw [hshows, hhud, hsum]
    exact h.hidden

theorem indicatorCount_of_reaches (h : (App.machine P).Reaches es s) :
    IndicatorCount (failures es) s := by
  refine StepMachine.Reaches.invariant (M := App.machine P)
    (I := fun es s => IndicatorCount (failures es) s) ⟨nofun, nofun, fun _ => le_refl 0⟩
    (fun es s e s' _ hI hstep => ?_) h
  rw [failures_concat]
  have ⟨hloading, hvisible, hhidden⟩ := hI
  cases App.appStep_of_step hstep with
  | launch now tasks mainQueue hstarted =>
    exact ⟨fun _ => rfl, fun _ => hstarted, nofun⟩
  | finishViewDidLoad now hphase tasks mainQueue hstarted =>
    have hshows : s.shows = 1 := by rw [App.shows, hphase]
    have hcount := hvisible (hloading hshows)
    refine ⟨fun _ => rfl, fun _ => ?_, nofun⟩
    have hpending : (s.tasks ++ tasks).length + (s.mainQueue ++ mainQueue).length =
        s.pending + 1 := by
      simp only [List.length_append, App.pending]
      omega
    show (s.tasks ++ tasks).length + (s.mainQueue ++ mainQueue).length + failures es = 2
    omega
  | viewWillAppear hphase =>
    have hshows : s.shows = 2 := by rw [App.shows, hphase]
    rw [hshows] at hvisible hhidden
    exact ⟨nofun, hvisible, hhidden⟩
  | runMainBlock hloaded b mainQueue hqueue =>
    -- the block is pending no more, so the count falls short from now on
    have hpending : s.pending = s.tasks.length + mainQueue.length + 1 := by
      rw [App.pending, hqueue, List.length_cons]
      omega
    refine ⟨fun hone => absurd (hloaded.symm.trans hone) (by decide), nofun, fun _ => ?_⟩
    show s.tasks.length + mainQueue.length + failures es ≤ s.shows - 1
    cases hhud : s.hud with
    | true =>
      have := hvisible hhud
      omega
    | false =>
      have := hhidden hhud
      omega
  | currencyListFailed now htask => exact hI.replace rfl rfl (App.pending_failed htask _)
  | currencyListSaved data now htask => exact hI.replace rfl rfl (App.pending_answered htask _ _)
  | rateFailed now htask => exact hI.replace rfl rfl (App.pending_failed htask _)
  | ratesSaved data now htask => exact hI.replace rfl rfl (App.pending_answered htask _ _)
  | _ => exact ⟨hloading, hvisible, hhidden⟩

/-- **The indicator settles in exactly the runs in which no launch sees both of its requests
fail.** -/
theorem indicator_settles_iff (h : (App.machine P).Reaches es s) :
    (App.machine P).Always es (fun _ s => s.Settled) ↔ ∀ pre, pre <+: es → failures pre ≤ 1 := by
  constructor
  · intro hsettled pre hpre
    obtain ⟨s₁, h₁⟩ := h.initial hpre
    obtain ⟨-, hvisible, hhidden⟩ := indicatorCount_of_reaches h₁
    have hshows := s₁.shows_le_two
    by_contra hboth
    -- with two failures nothing is left that could hide the indicator
    cases hhud : s₁.hud with
    | false =>
      have := hhidden hhud
      omega
    | true =>
      have hcount := hvisible hhud
      rw [App.pending] at hcount
      have htasks : s₁.tasks = [] := List.length_eq_zero_iff.mp (by omega)
      have hqueue : s₁.mainQueue = [] := List.length_eq_zero_iff.mp (by omega)
      have hhidden' := hsettled pre hpre s₁ h₁ (by omega) htasks hqueue
      rw [hhud] at hhidden'
      cases hhidden'
  · intro hone pre hpre s₁ h₁ hloaded htasks hqueue
    have hcount := (indicatorCount_of_reaches h₁).visible
    have hfailures := hone pre hpre
    by_contra hhud
    have := hcount (by simpa using hhud)
    rw [App.pending, htasks, hqueue, hloaded, List.length_nil, List.length_nil] at this
    omega

/-- A first launch with one request that fails, and one that is answered. -/
def halfAnsweredLaunch : List AppEvent :=
  [.launch 0, .finishViewDidLoad 0, .viewWillAppear, .currencyListCompletion none 1,
    .rateCompletion rateBody 2, .runMainBlock]

/-- One failure leaves an answer that hides the indicator. -/
theorem indicator_settles_halfAnsweredLaunch :
    (App.machine Platform.sample).Always halfAnsweredLaunch fun _ s => s.Settled := by
  have hrun : ((App.machine Platform.sample).exec App.installed halfAnsweredLaunch).isSome =
      true := by decide +kernel
  obtain ⟨s, hs⟩ := Option.isSome_iff_exists.mp hrun
  refine (indicator_settles_iff hs).mpr fun pre hpre => ?_
  have hall : ∀ l ∈ halfAnsweredLaunch.inits, failures l ≤ 1 := by decide +kernel
  exact hall pre ((List.mem_inits pre _).mpr hpre)

/-- **When both requests fail the indicator stays.** -/
theorem indicator_left_stuck :
    ¬∀ (es : List AppEvent) (s : App), (App.machine Platform.sample).Reaches es s → s.Settled := by
  intro hsettled
  have hrun : ((App.machine Platform.sample).exec App.installed
      [.launch 0, .finishViewDidLoad 0, .viewWillAppear, .currencyListCompletion none 1,
        .rateCompletion none 2]).map
      (fun s => (s.shows, s.tasks, s.mainQueue, s.hud)) = some (2, [], [], true) := by
    decide +kernel
  obtain ⟨s, hs, hvalues⟩ := Option.map_eq_some_iff.mp hrun
  simp only [Prod.mk.injEq] at hvalues
  obtain ⟨hloaded, htasks, hqueue, hvisible⟩ := hvalues
  have hhidden := hsettled _ s hs hloaded htasks hqueue
  rw [hvisible] at hhidden
  cases hhidden

end ExchangeRate
