import Mathlib.Data.List.DropRight
import ExchangeRate.Versions

/-!
# What the label shows

The label is written by a launch, an edit of the text, an exchange, and the appearance
of the Top screen, and by nothing else. Each of these leaves it at the conversion of
the amount by the version of the store the main thread reads
(`ExchangeRate.showsConversion_of_step`). That this also holds when nothing is
calculated – the text is no number, or there is no record of rates – rests on two
facts about the label of before (`ExchangeRate.LabelKept`): it is zero as long as the
main thread sees no record, and it is zero when the text is no number.

In between the label stays as it is, so it is as old as the last of those events
(`ExchangeRate.label_eq_of_reaches`).
-/

namespace ExchangeRate

variable {P : Platform} {es : List AppEvent} {s s' : App} {e : AppEvent} {realm : Realm}

/-! ### The conversion on the label -/

/-- The amount in the text field. -/
def App.amount (s : App) : ℤ := (intOfText s.text).getD 0

/-- What the label should show by a version of the store. -/
def App.converted (P : Platform) (s : App) (version : Realm) : String :=
  P.formatWithComma (conversion version s.amount)

/-- The events that write the label. -/
def AppEvent.displays : AppEvent → Bool
  | .launch _ | .viewWillAppear | .editText _ | .tapExchange | .beginDismiss => true
  | _ => false

/-- **What the label shows when nothing is calculated.** -/
structure LabelKept (s : App) : Prop where
  no_record : s.main.exchangeRateData.first = none → s.label = "0"
  no_amount : intOfText s.text = none → s.label = "0"

/-- A label at the conversion is at zero where it has to be. -/
theorem LabelKept.of_converted (h : s.label = s.converted P s.main) : LabelKept s := by
  refine ⟨fun hnone => ?_, fun htext => ?_⟩
  · rw [h, App.converted, conversion_of_no_record hnone, P.formatWithComma_zero]
  · rw [h, App.converted, App.amount, htext, Option.getD_none, conversion_zero,
      P.formatWithComma_zero]

/-- A calculation leaves the label at the conversion, also when it has no result. -/
theorem labelAfter_calcurate {label : String} {u : UserPreferenceData}
    (hu : realm.userPreferenceData.objects = [u])
    (hzero : realm.exchangeRateData.first = none → label = "0") (amount : ℤ) :
    App.labelAfter P label (calcurate realm amount) =
      P.formatWithComma (conversion realm amount) := by
  have hfirst := ObjectTable.first_eq_some_of_objects hu
  cases hd : realm.exchangeRateData.first with
  | none =>
    -- nothing is said, and the label of before is the zero it should be
    rw [calcurate_of_none (Or.inr hd), conversion_of_no_record hd, P.formatWithComma_zero]
    exact hzero hd
  | some d =>
    rw [calcurate_of_some hfirst hd]
    rfl

/-- The appearance of the Top screen leaves the label at the conversion, also when the text is
no number. -/
theorem labelOnAppear_eq (hpreferences : PreferencesKept s) (hkept : LabelKept s) :
    s.labelOnAppear P = s.converted P s.main := by
  obtain ⟨⟨u, hu⟩, hsame⟩ := hpreferences
  have hmain : s.main.userPreferenceData.objects = [u] := by rw [hsame, hu]
  unfold App.labelOnAppear App.converted App.amount
  cases htext : intOfText s.text with
  | none =>
    rw [Option.elim_none, hkept.no_amount htext, Option.getD_none, conversion_zero,
      P.formatWithComma_zero]
  | some amount => exact labelAfter_calcurate hmain hkept.no_record amount

/-- An event that writes the label needs a launched application, or is a launch. -/
theorem launched_of_displays (h : (App.machine P).Reaches es s) (hstep : AppStep P s e s')
    (he : e.displays = true) (hlaunch : ∀ now, e ≠ .launch now) : 0 < s.shows := by
  cases hstep with
  | launch now => exact absurd rfl (hlaunch now)
  | viewWillAppear hphase => exact launched_of_phase (by simp [hphase])
  | editText text hfront => exact launched_of_phase (by simp [hfront.1])
  | tapExchange hfront => exact launched_of_phase (by simp [hfront.1])
  | beginDismiss l hlist => exact launched_of_list h hlist
  | _ => cases he

/-- The other events launch nothing. -/
theorem launched_of_not_displays (hstep : AppStep P s e s') (he : e.displays ≠ true)
    (hpos : 0 < s'.shows) : 0 < s.shows := by
  cases hstep with
  | launch => exact absurd rfl he
  | finishViewDidLoad now hphase => exact launched_of_phase (by simp [hphase])
  | viewWillAppear => exact absurd rfl he
  | _ => exact hpos

/-- What the events that write the label leave on it. -/
theorem converted_of_appStep (hstep : AppStep P s e s') (he : e.displays = true)
    (hpreferences : (∀ now, e ≠ .launch now) → PreferencesKept s)
    (hkept : (∀ now, e ≠ .launch now) → LabelKept s) : s'.label = s'.converted P s'.main := by
  have hzero : ∀ version : Realm, "0" = P.formatWithComma (conversion version 0) := by
    intro version
    rw [conversion_zero, P.formatWithComma_zero]
  cases hstep with
  | launch => exact hzero _
  | viewWillAppear => exact labelOnAppear_eq (hpreferences nofun) (hkept nofun)
  | editText text hfront =>
    obtain ⟨⟨u, hu⟩, hsame⟩ := hpreferences nofun
    have hmain : s.main.userPreferenceData.objects = [u] := by rw [hsame, hu]
    exact labelAfter_calcurate hmain (hkept nofun).no_record _
  | tapExchange => exact hzero _
  | beginDismiss => exact labelOnAppear_eq (hpreferences nofun) (hkept nofun)
  | _ => cases he

theorem labelKept_of_reaches (h : (App.machine P).Reaches es s) (hlaunched : 0 < s.shows) :
    LabelKept s := by
  refine StepMachine.Reaches.invariant (M := App.machine P)
    (I := fun _ s => 0 < s.shows → LabelKept s) (fun hpos => absurd hpos (lt_irrefl 0))
    (fun es s e s' hs hI hstep => ?_) h hlaunched
  have happ := App.appStep_of_step hstep
  by_cases he : e.displays = true
  · -- the label is written
    intro _
    refine LabelKept.of_converted (P := P) (converted_of_appStep happ he (fun hlaunch => ?_)
      fun hlaunch => ?_)
    · exact preferencesKept_of_reaches hs (launched_of_displays hs happ he hlaunch)
    · exact hI (launched_of_displays hs happ he hlaunch)
  · -- the label stays, and the main thread may have come to see another version
    have hrecord := recordKept_of_reaches hs
    cases happ with
    | launch => exact absurd rfl he
    | viewWillAppear => exact absurd rfl he
    | editText => exact absurd rfl he
    | tapExchange => exact absurd rfl he
    | beginDismiss => exact absurd rfl he
    | finishViewDidLoad now hphase =>
      intro _
      obtain ⟨hnorecord, hnoamount⟩ := hI (launched_of_phase (by simp [hphase]))
      exact ⟨hnorecord, hnoamount⟩
    | refresh =>
      exact fun hpos => ⟨fun hnone => (hI hpos).no_record (hrecord hnone), (hI hpos).no_amount⟩
    | tapRow row l hlist hnot k selectedItem hmain realm hsave =>
      refine fun hpos => ⟨fun hnone => (hI hpos).no_record (hrecord ?_), (hI hpos).no_amount⟩
      rw [← (onlyPreferences_select hsave).exchangeRateData]
      exact hnone
    | _ => exact fun hpos => ⟨(hI hpos).no_record, (hI hpos).no_amount⟩

/-- An event that writes the label leaves it at the conversion, in every run. -/
theorem converted_of_displays (h : (App.machine P).Reaches es s) (hstep : AppStep P s e s')
    (he : e.displays = true) : s'.label = s'.converted P s'.main := by
  refine converted_of_appStep hstep he (fun hlaunch => ?_) fun hlaunch => ?_
  · exact preferencesKept_of_reaches h (launched_of_displays h hstep he hlaunch)
  · exact labelKept_of_reaches h (launched_of_displays h hstep he hlaunch)

/-- **The label follows every event that should write it**: after a launch, an edit, an exchange
and an appearance it shows the conversion of the amount by the version of the store that the
event read. -/
theorem showsConversion_of_step (h : (App.machine P).Reaches es s) (hstep : s.step P e = some s')
    (he : e.displays = true) : s'.label = s'.converted P s'.main :=
  converted_of_displays h (App.appStep_of_step hstep) he

/-- A body is answered, the main thread refreshes, and an amount is typed. -/
def typedAfterwards : List AppEvent := App.firstLaunch ++ [.refresh] ++ [.editText "100"]

theorem showsConversion_typedAfterwards : ∃ s, (App.machine Platform.sample).Reaches typedAfterwards s ∧
    s.label = s.converted Platform.sample s.main ∧ s.label = "10,650" := by
  have hrun : ((App.machine Platform.sample).exec App.installed typedAfterwards).map App.label =
      some "10,650" := by decide +kernel
  obtain ⟨s', hs', hlabel⟩ := Option.map_eq_some_iff.mp hrun
  have hreaches : (App.machine Platform.sample).Reaches
    (App.firstLaunch ++ [.refresh] ++ [.editText "100"]) s' := hs'
  obtain ⟨s, hs, hstep⟩ := StepMachine.reaches_concat.mp hreaches
  exact ⟨s', hs', showsConversion_of_step hs hstep rfl, hlabel⟩

/-! ### The last event that wrote the label -/

/-- The run up to the last event that wrote the label. -/
def lastDisplay (es : List AppEvent) : List AppEvent := es.rdropWhile fun e => !e.displays

theorem lastDisplay_initial (es : List AppEvent) : lastDisplay es <+: es :=
  List.rdropWhile_prefix ..

theorem lastDisplay_concat_of_displays {es : List AppEvent} (he : e.displays = true) :
    lastDisplay (es ++ [e]) = es ++ [e] := by
  rw [lastDisplay, List.rdropWhile_concat, he, Bool.not_true, if_neg Bool.false_ne_true]

theorem lastDisplay_concat_of_not_displays {es : List AppEvent} (he : e.displays ≠ true) :
    lastDisplay (es ++ [e]) = lastDisplay es := by
  rw [lastDisplay, List.rdropWhile_concat, Bool.eq_false_iff.mpr he, Bool.not_false, if_pos rfl,
    lastDisplay]

/-- The other events leave the text, the label and the titles alone. -/
theorem label_eq_of_not_displays (hstep : AppStep P s e s') (he : e.displays ≠ true) :
    s'.text = s.text ∧ s'.label = s.label ∧
      s'.fromTitle = s.fromTitle ∧ s'.toTitle = s.toTitle := by
  cases hstep with
  | launch => exact absurd rfl he
  | viewWillAppear => exact absurd rfl he
  | editText => exact absurd rfl he
  | tapExchange => exact absurd rfl he
  | beginDismiss => exact absurd rfl he
  | _ => exact ⟨rfl, rfl, rfl, rfl⟩

/-- **The label is as old as the last event that wrote it**: it shows the conversion of the
amount by the version which that event read. -/
theorem label_eq_of_reaches (h : (App.machine P).Reaches es s) (hlaunched : 0 < s.shows) :
    ∃ s₀, (App.machine P).Reaches (lastDisplay es) s₀ ∧ s.label = s.converted P s₀.main := by
  refine StepMachine.Reaches.invariant (M := App.machine P)
    (I := fun es s => 0 < s.shows → ∃ s₀, (App.machine P).Reaches (lastDisplay es) s₀ ∧
      s.label = s.converted P s₀.main) (fun hpos => absurd hpos (lt_irrefl 0))
    (fun es s e s' hs hI hstep => ?_) h hlaunched
  intro hpos
  have happ := App.appStep_of_step hstep
  by_cases he : e.displays = true
  · refine ⟨s', ?_, converted_of_displays hs happ he⟩
    rw [lastDisplay_concat_of_displays he]
    exact StepMachine.reaches_concat.mpr ⟨s, hs, hstep⟩
  · obtain ⟨s₀, hs₀, hlabel⟩ := hI (launched_of_not_displays happ he hpos)
    obtain ⟨htext, hsame, -⟩ := label_eq_of_not_displays happ he
    refine ⟨s₀, ?_, ?_⟩
    · rw [lastDisplay_concat_of_not_displays he]
      exact hs₀
    · rw [hsame, hlabel, App.converted, App.converted, App.amount, App.amount, htext]

end ExchangeRate
