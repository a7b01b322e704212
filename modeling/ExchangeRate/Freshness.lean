import ExchangeRate.AppSession

/-!
# How old the lists are

A process asks for the currency list when it is launched and for the rates at the end
of `viewDidLoad`, unless what is stored will do. What is stored is then less than half
an hour old, counted from the moment it was asked for – as soon as the request is
answered, if there was one, and unless it failed.

For the rates this is exact: they are as young as that if and only if nothing is in
flight and nothing failed. For the currency list the converse does not hold, since the
list is requested again when the stored one is still young
(`ExchangeRate.fresh_of_answered`).
-/

namespace ExchangeRate

variable {P : Platform} {t₀ now : Date} {es : List AppEvent} {s s' : App} {e : AppEvent}

/-- A launch, which is the first event of a process. -/
def AppEvent.isLaunch : AppEvent → Bool
  | .launch _ => true
  | _ => false

namespace App

/-! ### The current process -/

/-- What has happened in the current process. -/
def currentProcess (es : List AppEvent) : List AppEvent :=
  es.foldl (fun process e => if e.isLaunch then [e] else process ++ [e]) []

theorem currentProcess_concat (es : List AppEvent) (e : AppEvent) :
    currentProcess (es ++ [e]) = if e.isLaunch then [e] else currentProcess es ++ [e] :=
  List.foldl_concat ..

theorem mem_currentProcess_concat (he : e.isLaunch = false) {d : AppEvent} :
    d ∈ currentProcess (es ++ [e]) ↔ d ∈ currentProcess es ∨ d = e := by
  rw [currentProcess_concat, he, if_neg Bool.false_ne_true, List.mem_append, List.mem_singleton]

/-- A request for the currency list has failed in the current process. -/
def CurrencyListFailed (es : List AppEvent) : Prop :=
  ∃ t, .currencyListCompletion none t ∈ currentProcess es

/-- A request for the rates has failed in the current process. -/
def RatesFailed (es : List AppEvent) : Prop := ∃ t, .rateCompletion none t ∈ currentProcess es

/-! ### The clock -/

theorem ClockForward.initial (h : ClockForward t₀ (es ++ [e])) : ClockForward t₀ es := by
  refine List.Pairwise.sublist (List.Sublist.cons_cons _ ?_) h
  rw [List.filterMap_append]
  exact List.sublist_append_left _ _

/-- A save of currencies has been committed at a reading of the clock. -/
theorem currencySaves_sublist (P : Platform) (es : List AppEvent) :
    ((currencySaves P es).map Prod.fst).Sublist (es.filterMap AppEvent.time) := by
  induction es with
  | nil => exact List.Sublist.slnil
  | cons e es ih =>
    rw [currencySaves] at ih ⊢
    rcases hsave : e.currencySave P with _ | ⟨t, r⟩
    · rw [List.filterMap_cons_none hsave]
      exact ih.trans ((List.sublist_cons_self e es).filterMap _)
    · have htime : e.time = some t := by
        unfold AppEvent.currencySave at hsave
        split at hsave
        · obtain ⟨r', -, heq⟩ := Option.map_eq_some_iff.mp hsave
          cases heq
          rfl
        · cases hsave
      rw [List.filterMap_cons_some hsave, List.filterMap_cons_some htime, List.map_cons]
      exact ih.cons_cons t

/-- The first save is the oldest, so when it is not due the last one is not. -/
theorem not_due_getLast_of_not_due_head (hclock : ClockForward t₀ es)
    (h : ¬Due ((currencySaves P es).head?.map Prod.fst) now) :
    ¬Due ((currencySaves P es).getLast?.map Prod.fst) now := by
  have hsorted := hclock.of_cons.sublist (currencySaves_sublist P es)
  intro hdue
  refine h fun t ht => ?_
  rw [← List.head?_map] at ht
  obtain ⟨rest, hrest⟩ : ∃ rest, (currencySaves P es).map Prod.fst = t :: rest :=
    List.head?_eq_some_iff.mp ht
  rw [hrest] at hsorted
  rw [← List.getLast?_map, hrest] at hdue
  have hlast : (t :: rest).getLast? = some ((t :: rest).getLast (List.cons_ne_nil _ _)) :=
    List.getLast?_eq_getLast_of_ne_nil _
  have hle : t ≤ (t :: rest).getLast (List.cons_ne_nil _ _) := by
    rcases List.mem_cons.mp (List.getLast_mem (List.cons_ne_nil t rest)) with heq | hmem
    · exact heq.ge
    · exact List.rel_of_pairwise_cons hsorted hmem
  have hage := hdue _ hlast
  linarith

/-- A save is not due at a time before it. -/
theorem not_due_of_le {t : Date} (h : now ≤ t) : ¬Due (some t) now := by
  intro hdue
  have hage := hdue t rfl
  linarith

end App

open App

/-! ### The currency list -/

/-- **The currency list is young, in flight, or has failed**, in the process that was launched. -/
def CurrencyListAsked (P : Platform) (t₀ : Date) (es : List AppEvent) (s : App) : Prop :=
  ∀ now, .launch now ∈ currentProcess es → now ≤ clockAfter t₀ es ∧
    (¬Due ((currencySaves P es).getLast?.map Prod.fst) now ∨ currencyListURL ∈ s.tasks ∨
      CurrencyListFailed es)

/-- An event that saves no currencies and ends no request for them. -/
theorem CurrencyListAsked.keep (h : CurrencyListAsked P t₀ es s) (hin : InTime t₀ es e)
    (hlaunch : e.isLaunch = false) (hsave : e.currencySave P = none)
    (htasks : currencyListURL ∈ s.tasks → currencyListURL ∈ s'.tasks) :
    CurrencyListAsked P t₀ (es ++ [e]) s' := by
  intro now hasked
  rcases (mem_currentProcess_concat hlaunch).mp hasked with hasked | rfl
  · obtain ⟨hclock, hlist⟩ := h now hasked
    refine ⟨hclock.trans hin.le, ?_⟩
    rw [currencySaves_concat_of_none hsave]
    rcases hlist with hyoung | htask | ⟨t, hfailed⟩
    · exact Or.inl hyoung
    · exact Or.inr (Or.inl (htasks htask))
    · exact Or.inr (Or.inr ⟨t, (mem_currentProcess_concat hlaunch).mpr (Or.inl hfailed)⟩)
  · cases hlaunch

theorem currencyListAsked_of_reaches (h : (App.machine P).Reaches es s)
    (hclock : ClockForward t₀ es) : CurrencyListAsked P t₀ es s := by
  refine StepMachine.Reaches.invariant (M := App.machine P)
    (I := fun es s => ClockForward t₀ es → CurrencyListAsked P t₀ es s)
    (fun _ _ hasked => absurd hasked List.not_mem_nil) (fun es s e s' hs hI hstep hclock => ?_)
    h hclock
  have hin : InTime t₀ es e := (everyStep_inTime hclock).last hs
  replace hI := hI hclock.initial
  have hlast := hstep
  cases App.appStep_of_step hstep with
  | launch now =>
    intro now' hasked
    rw [currentProcess_concat] at hasked
    obtain rfl : now' = now := AppEvent.launch.inj (List.mem_singleton.mp hasked)
    refine ⟨by rw [clockAfter_concat]; exact le_refl _, ?_⟩
    rw [currencySaves_concat_of_none rfl]
    by_cases hdue : Due ((currencySaves P es).head?.map Prod.fst) now'
    · exact Or.inr (Or.inl ((currencyListURL_mem_tasks_iff hs hlast).mpr hdue))
    · exact Or.inl (not_due_getLast_of_not_due_head hclock.initial hdue)
  | currencyListFailed t htask =>
    intro now hasked
    rcases (mem_currentProcess_concat rfl).mp hasked with hasked | hne
    · exact ⟨(hI now hasked).1.trans hin.le,
        Or.inr (Or.inr ⟨t, (mem_currentProcess_concat rfl).mpr (Or.inr rfl)⟩)⟩
    · cases hne
  | currencyListSaved data t =>
    intro now hasked
    rcases (mem_currentProcess_concat rfl).mp hasked with hasked | hne
    · obtain ⟨-, response, hdec, -⟩ := currencyListCompletion_of_step hlast
      refine ⟨(hI now hasked).1.trans hin.le, Or.inl ?_⟩
      rw [currencySaves_concat, AppEvent.currencySave_of_decode hdec, Option.toList_some,
        List.getLast?_concat]
      exact not_due_of_le ((hI now hasked).1.trans (hin t rfl))
    · cases hne
  | rateFailed | ratesSaved =>
    refine hI.keep hin rfl rfl fun htask => ?_
    exact (List.mem_erase_of_ne currencyListURL_ne_rateURL).mpr htask
  | finishViewDidLoad => exact hI.keep hin rfl rfl fun htask => List.mem_append_left _ htask
  | _ => exact hI.keep hin rfl rfl id

/-! ### The rates -/

/-- **The rates are asked for once in a process**: not before `viewDidLoad` has finished, and
from then on they are due as long as the request is in flight, and when it has failed. -/
structure RatesAsked (P : Platform) (t₀ : Date) (es : List AppEvent) (s : App) : Prop where
  loading : ¬s.Loaded → ∀ now, .finishViewDidLoad now ∉ currentProcess es
  failed : ¬s.Loaded ∨ rateURL ∈ s.tasks → ¬RatesFailed es
  inFlight : rateURL ∈ s.tasks → s.Loaded
  asked : ∀ now, .finishViewDidLoad now ∈ currentProcess es → now ≤ clockAfter t₀ es ∧
    (Due ((rateSaves P es).getLast?.map Prod.fst) now ↔ rateURL ∈ s.tasks ∨ RatesFailed es)

namespace RatesAsked

/-- An event that asks for no rates and ends no request for them. -/
theorem keep (h : RatesAsked P t₀ es s) (hin : InTime t₀ es e)
    (hlaunch : e.isLaunch = false) (hfinish : ∀ now, .finishViewDidLoad now ≠ e)
    (hfail : ∀ t, .rateCompletion none t ≠ e) (hsave : e.rateSave P = none)
    (hshows : s'.shows = s.shows) (htasks : rateURL ∈ s'.tasks ↔ rateURL ∈ s.tasks) :
    RatesAsked P t₀ (es ++ [e]) s' := by
  have hfailed : RatesFailed (es ++ [e]) ↔ RatesFailed es := by
    refine exists_congr fun t => ?_
    rw [mem_currentProcess_concat hlaunch, or_iff_left (hfail t)]
  have hasked : ∀ now, .finishViewDidLoad now ∈ currentProcess (es ++ [e]) ↔
      .finishViewDidLoad now ∈ currentProcess es := by
    intro now
    rw [mem_currentProcess_concat hlaunch, or_iff_left (hfinish now)]
  refine ⟨fun hnot now => ?_, fun hor => ?_, fun htask => ?_, fun now hmem => ?_⟩
  · rw [hasked]
    exact h.loading (by rwa [Loaded, ← hshows]) now
  · rw [Loaded, hshows, htasks] at hor
    rw [hfailed]
    exact h.failed hor
  · rw [Loaded, hshows]
    exact h.inFlight (htasks.mp htask)
  · obtain ⟨hclock, hdue⟩ := h.asked now ((hasked now).mp hmem)
    refine ⟨hclock.trans hin.le, ?_⟩
    rw [rateSaves_concat_of_none hsave, htasks, hfailed]
    exact hdue

/-- A launch begins a process that has asked for nothing. -/
theorem of_launch (hnot : rateURL ∉ s'.tasks) : RatesAsked P t₀ (es ++ [.launch now]) s' := by
  have hmem : ∀ d, d ∈ currentProcess (es ++ [.launch now]) → d = .launch now := by
    intro d hd
    rw [currentProcess_concat] at hd
    exact List.mem_singleton.mp hd
  refine ⟨fun _ now' hasked => ?_, fun _ ⟨t, hfailed⟩ => ?_, fun htask => absurd htask hnot,
    fun now' hasked => ?_⟩
  · cases hmem _ hasked
  · cases hmem _ hfailed
  · cases hmem _ hasked

/-- At the end of `viewDidLoad` the rates are asked for, if they are due. -/
theorem ask (h : RatesAsked P t₀ es s) (hnot : ¬s.Loaded) (hloaded : s'.Loaded)
    (htasks : rateURL ∈ s'.tasks ↔ Due ((rateSaves P es).getLast?.map Prod.fst) now) :
    RatesAsked P t₀ (es ++ [.finishViewDidLoad now]) s' := by
  have hfailed : ¬RatesFailed (es ++ [.finishViewDidLoad now]) := by
    rintro ⟨t, hmem⟩
    rcases (mem_currentProcess_concat rfl).mp hmem with hmem | hne
    · exact h.failed (Or.inl hnot) ⟨t, hmem⟩
    · cases hne
  refine ⟨fun hnot' => absurd hloaded hnot', fun _ => hfailed, fun _ => hloaded,
    fun now' hasked => ?_⟩
  rcases (mem_currentProcess_concat rfl).mp hasked with hasked | heq
  · exact absurd hasked (h.loading hnot now')
  · obtain rfl := AppEvent.finishViewDidLoad.inj heq
    refine ⟨by rw [clockAfter_concat]; exact le_refl _, ?_⟩
    rw [or_iff_left hfailed, htasks, rateSaves_concat_of_none rfl]

/-- A request that fails leaves the rates as due as they were. -/
theorem fail (h : RatesAsked P t₀ es s) {t : Date} (hin : InTime t₀ es (.rateCompletion none t))
    (htask : rateURL ∈ s.tasks) (hover : rateURL ∉ s'.tasks) (hshows : s'.shows = s.shows) :
    RatesAsked P t₀ (es ++ [.rateCompletion none t]) s' := by
  have hfailed : RatesFailed (es ++ [.rateCompletion none t]) :=
    ⟨t, (mem_currentProcess_concat rfl).mpr (Or.inr rfl)⟩
  have hloaded : s'.Loaded := hshows.trans (h.inFlight htask)
  refine ⟨fun hnot => absurd hloaded hnot, fun hor => ?_, fun hmem => absurd hmem hover,
    fun now hasked => ?_⟩
  · exact hor.elim (absurd hloaded) fun hmem => absurd hmem hover
  · rcases (mem_currentProcess_concat rfl).mp hasked with hasked | hne
    · obtain ⟨hle, hdue⟩ := h.asked now hasked
      refine ⟨hle.trans hin.le, iff_of_true ?_ (Or.inr hfailed)⟩
      rw [rateSaves_concat_of_none rfl]
      exact hdue.mpr (Or.inl htask)
    · cases hne

/-- Rates that are saved are not due at the time they were asked for. -/
theorem save (h : RatesAsked P t₀ es s) {data : Data} {t : Date} {response : RateListResponse}
    (hin : InTime t₀ es (.rateCompletion (some data) t))
    (hdec : RateListResponse.decode P data = some response) (htask : rateURL ∈ s.tasks)
    (hover : rateURL ∉ s'.tasks) (hshows : s'.shows = s.shows) :
    RatesAsked P t₀ (es ++ [.rateCompletion (some data) t]) s' := by
  have hloaded : s'.Loaded := hshows.trans (h.inFlight htask)
  have hfailed : ¬RatesFailed (es ++ [.rateCompletion (some data) t]) := by
    rintro ⟨t', hmem⟩
    rcases (mem_currentProcess_concat rfl).mp hmem with hmem | hne
    · exact h.failed (Or.inr htask) ⟨t', hmem⟩
    · cases hne
  refine ⟨fun hnot => absurd hloaded hnot, fun _ => hfailed, fun hmem => absurd hmem hover,
    fun now hasked => ?_⟩
  rcases (mem_currentProcess_concat rfl).mp hasked with hasked | hne
  · have hle := (h.asked now hasked).1
    refine ⟨hle.trans hin.le, iff_of_false ?_ (not_or.mpr ⟨hover, hfailed⟩)⟩
    rw [rateSaves_concat, AppEvent.rateSave_of_decode hdec, Option.toList_some,
      List.getLast?_concat]
    exact not_due_of_le (hle.trans (hin t rfl))
  · cases hne

end RatesAsked

theorem ratesAsked_of_reaches (h : (App.machine P).Reaches es s)
    (hclock : ClockForward t₀ es) : RatesAsked P t₀ es s := by
  refine StepMachine.Reaches.invariant_of_everyStep (M := App.machine P)
    (I := RatesAsked P t₀) (C := fun pre _ e => InTime t₀ pre e)
    ⟨fun _ _ => List.not_mem_nil, fun _ ⟨_, hmem⟩ => absurd hmem List.not_mem_nil,
      fun hmem => absurd hmem List.not_mem_nil, fun _ hmem => absurd hmem List.not_mem_nil⟩
    (fun es s e s' hs hI hin hstep => ?_) h (everyStep_inTime hclock)
  have hover : rateURL ∉ s.tasks.erase rateURL :=
    not_mem_erase_task (tasksKept_of_reaches hs).nodup _
  have hkept' := tasksKept_of_reaches (StepMachine.reaches_concat.mpr ⟨s, hs, hstep⟩)
  have hlast := hstep
  cases App.appStep_of_step hstep with
  | launch => exact .of_launch (hkept'.loading rfl).1
  | finishViewDidLoad now hphase =>
    exact hI.ask (by simp [Loaded, shows, hphase]) rfl (rateURL_mem_tasks_iff hs hlast)
  | rateFailed t htask => exact hI.fail hin htask hover rfl
  | ratesSaved data t htask =>
    obtain ⟨-, response, hdec, -⟩ := rateCompletion_of_step hlast
    exact hI.save hin hdec htask hover rfl
  | currencyListFailed | currencyListSaved =>
    refine hI.keep hin rfl (by rintro _ ⟨⟩) (by rintro _ ⟨⟩) rfl rfl ?_
    exact List.mem_erase_of_ne currencyListURL_ne_rateURL.symm
  | viewWillAppear hphase =>
    have hshows : { s with phase := .appeared }.shows = s.shows := by simp [shows, hphase]
    exact hI.keep hin rfl (by rintro _ ⟨⟩) (by rintro _ ⟨⟩) rfl hshows Iff.rfl
  | _ => exact hI.keep hin rfl (by rintro _ ⟨⟩) (by rintro _ ⟨⟩) rfl rfl Iff.rfl

/-! ### The result -/

theorem not_due_iff {savedAt : Option Date} :
    ¬Due savedAt now ↔ ∃ t, savedAt = some t ∧ now - t < 1800 := by
  simp only [Due, not_forall, not_le, exists_prop]

/-- **What has been answered is young**: the currencies of a process are those of a save less than
half an hour older than its launch, once nothing is in flight and unless the request failed; and
the rates are those of a save less than half an hour older than the end of `viewDidLoad` if and
only if nothing is in flight and no request failed. -/
theorem fresh_of_answered (h : (App.machine P).Reaches es s) (hclock : ClockForward t₀ es) :
    (∀ now, .launch now ∈ currentProcess es → currencyListURL ∉ s.tasks →
      ¬CurrencyListFailed es → ∃ t response,
        (currencySaves P es).getLast? = some (t, response) ∧ now - t < 1800 ∧
          s.realm.currency.objects = response.toCurrencies) ∧
    ∀ now, .finishViewDidLoad now ∈ currentProcess es →
      ((rateURL ∉ s.tasks ∧ ¬RatesFailed es) ↔
        ∃ t response, RateRecords (some (t, response)) s.realm ∧ now - t < 1800) := by
  refine ⟨fun now hasked htask hfailed => ?_, fun now hasked => ?_⟩
  · obtain ⟨-, hyoung | htask' | hfailed'⟩ := currencyListAsked_of_reaches h hclock now hasked
    · obtain ⟨t, ht, hage⟩ := not_due_iff.mp hyoung
      obtain ⟨⟨t, response⟩, hlast, rfl⟩ := Option.map_eq_some_iff.mp ht
      refine ⟨t, response, hlast, hage, ?_⟩
      rw [currencies_of_run h, hlast]
      rfl
    · exact absurd htask' htask
    · exact absurd hfailed' hfailed
  · have hrecords := rateRecords_of_run h
    rw [← not_or, ← ((ratesAsked_of_reaches h hclock).asked now hasked).2, not_due_iff]
    constructor
    · rintro ⟨t, ht, hage⟩
      obtain ⟨⟨t, response⟩, hlast, rfl⟩ := Option.map_eq_some_iff.mp ht
      rw [hlast] at hrecords
      exact ⟨t, response, hrecords, hage⟩
    · rintro ⟨t, response, hstored, hage⟩
      -- the one record of the store carries the date of the last save
      exact ⟨t, hrecords.bind_savedAt.symm.trans hstored.bind_savedAt, hage⟩

/-- In the second process both requests have been answered, and what is stored is young. -/
theorem fresh_halfHourLater : ∃ s, (App.machine Platform.sample).Reaches halfHourLater s ∧
    (∃ t response, (currencySaves Platform.sample halfHourLater).getLast? = some (t, response) ∧
      (1802 : Date) - t < 1800 ∧ s.realm.currency.objects = response.toCurrencies) ∧
    ∃ t response, RateRecords (some (t, response)) s.realm ∧ (1803 : Date) - t < 1800 := by
  have hrun : ((App.machine Platform.sample).exec App.installed halfHourLater).map App.tasks =
      some [] := by decide +kernel
  obtain ⟨s, hs, htasks⟩ := Option.map_eq_some_iff.mp hrun
  have hprocess : currentProcess halfHourLater = [.launch 1802, .finishViewDidLoad 1803,
      .viewWillAppear, .currencyListCompletion currencyListBody 1804,
      .rateCompletion rateBody 1805] := by
    decide +kernel
  obtain ⟨hcurrencies, hrates⟩ := fresh_of_answered hs halfHourLater_clockForward
  refine ⟨s, hs, hcurrencies 1802 ?_ ?_ ?_, (hrates 1803 ?_).mp ⟨?_, ?_⟩⟩
  · simp [hprocess]
  · simp [htasks]
  · simp [CurrencyListFailed, hprocess]
  · simp [hprocess]
  · simp [htasks]
  · simp [RatesFailed, hprocess]

/-- A third launch, a second after the second save of rates, asks for the currencies although they
are young. -/
example : ((App.machine Platform.sample).exec App.installed
    (halfHourLater ++ [.launch 1806, .finishViewDidLoad 1807])).map App.tasks =
      some [currencyListURL] ∧
    ¬Due ((currencySaves Platform.sample halfHourLater).getLast?.map Prod.fst) 1806 := by
  decide +kernel

end ExchangeRate
