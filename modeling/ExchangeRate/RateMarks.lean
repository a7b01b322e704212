import ExchangeRate.AppSession
import ExchangeRate.CrossRates
import ExchangeRate.Display
import ExchangeRate.Titles

/-!
# Which rates are on the screen

A save of rates writes no label, and the main thread may lag behind the newest version
of the store. So the saves of rates are counted along the run
(`ExchangeRate.RateMarks`): how many have been committed, how many the main thread has
seen, and how many it had seen when the label was written last. A mark stands for the
last of the saves it has counted (`ExchangeRate.App.rateSaveAt`).

The label shows what the amount is worth by the payload of the third mark, between the
currencies on the two buttons (`ExchangeRate.labelMarked_of_reaches`), while the rates
now in the store are those of the first one. So a refresh of the rates reaches the
screen in exactly the runs in which the difference does not show: whenever the rates are
announced and the third mark is behind the first, both payloads make the same text of
the amount (`ExchangeRate.refreshShown_iff`).
-/

namespace ExchangeRate

variable {P : Platform} {es : List AppEvent} {s s' : App} {e : AppEvent} {realm : Realm}

/-! ### The marks of a run -/

/-- How many saves of rates have been committed, how many the main thread has seen, and how many
it had seen when the label was written last. -/
structure RateMarks where
  committed : ℕ
  main : ℕ
  shown : ℕ

/-- The marks after one event more. -/
def RateMarks.after (m : RateMarks) : AppEvent → RateMarks
  | .rateCompletion (some _) _ => { m with committed := m.committed + 1 }
  -- a refresh, and every write block of the main thread, brings the newest version
  | .refresh | .tapRow _ => { m with main := m.committed }
  | .launch _ | .tapExchange => { m with main := m.committed, shown := m.committed }
  | .viewWillAppear | .editText _ | .beginDismiss => { m with shown := m.main }
  | _ => m

/-- **The marks of a run.** -/
def rateMarks (es : List AppEvent) : RateMarks := es.foldl RateMarks.after ⟨0, 0, 0⟩

theorem rateMarks_concat (es : List AppEvent) (e : AppEvent) :
    rateMarks (es ++ [e]) = (rateMarks es).after e :=
  List.foldl_concat ..

/-- The label is written by the version that the main thread reads then. -/
theorem RateMarks.shown_after (m : RateMarks) (e : AppEvent) :
    (m.after e).shown = if e.displays then (m.after e).main else m.shown := by
  cases e with
  | rateCompletion data now => cases data <;> rfl
  | _ => rfl

theorem RateMarks.committed_le_after (m : RateMarks) (e : AppEvent) :
    m.committed ≤ (m.after e).committed := by
  cases e with
  | rateCompletion data now =>
    cases data with
    | none => exact le_refl _
    | some data => exact Nat.le_succ _
  | _ => exact le_refl _

/-- The save that a mark stands for, if it stands for one. -/
def App.rateSaveAt (P : Platform) (es : List AppEvent) : ℕ → Option (Date × RateListResponse)
  | 0 => none
  | k + 1 => (App.rateSaves P es)[k]?

theorem App.mem_rateSaves {k : ℕ} {save : Date × RateListResponse}
    (h : App.rateSaveAt P es k = some save) : save ∈ App.rateSaves P es := by
  cases k with
  | zero => cases h
  | succ k => exact List.mem_of_getElem? h

/-- A mark keeps its meaning. -/
theorem App.rateSaveAt_concat {k : ℕ} (hk : k ≤ (App.rateSaves P es).length) (e : AppEvent) :
    App.rateSaveAt P (es ++ [e]) k = App.rateSaveAt P es k := by
  cases k with
  | zero => rfl
  | succ k =>
    rw [App.rateSaveAt, App.rateSaveAt, App.rateSaves_concat, List.getElem?_append_left hk]

/-- The mark of all saves stands for the last one. -/
theorem App.rateSaveAt_length (P : Platform) (es : List AppEvent) :
    App.rateSaveAt P es (App.rateSaves P es).length = (App.rateSaves P es).getLast? := by
  rw [List.getLast?_eq_getElem?]
  cases hlength : (App.rateSaves P es).length with
  | zero => rw [List.length_eq_zero_iff.mp hlength]; rfl
  | succ k => rfl

/-! ### What the marks say -/

/-- The saves that have been committed are all there are. -/
theorem committed_rateMarks (h : (App.machine P).Reaches es s) :
    (rateMarks es).committed = (App.rateSaves P es).length := by
  refine StepMachine.Reaches.invariant (M := App.machine P)
    (I := fun es _ => (rateMarks es).committed = (App.rateSaves P es).length) rfl
    (fun es s e s' _ hI hstep => ?_) h
  have hlast := hstep
  rw [rateMarks_concat, App.rateSaves_concat, List.length_append, ← hI]
  cases App.appStep_of_step hstep with
  | ratesSaved data now =>
    obtain ⟨-, response, hdec, -⟩ := rateCompletion_of_step hlast
    rw [AppEvent.rateSave_of_decode hdec]
    rfl
  | _ => rfl

/-- **What the marks say about the rates**: the main thread has seen none that have not been
committed, and its version holds the save that its mark stands for. -/
structure RatesSeen (P : Platform) (es : List AppEvent) (s : App) : Prop where
  le : (rateMarks es).main ≤ (rateMarks es).committed
  main : RateRecords (App.rateSaveAt P es (rateMarks es).main) s.main

/-- The newest version holds the save that the mark of all saves stands for. -/
theorem rateRecords_committed (h : (App.machine P).Reaches es s) :
    RateRecords (App.rateSaveAt P es (rateMarks es).committed) s.realm := by
  rw [committed_rateMarks h, App.rateSaveAt_length]
  exact rateRecords_of_run h

namespace RatesSeen

/-- The main thread takes over the newest version. -/
theorem advance (hs : (App.machine P).Reaches es s) (hmain : s.main = s.realm)
    (hmark : (rateMarks es).main = (rateMarks es).committed) : RatesSeen P es s := by
  refine ⟨hmark.le, ?_⟩
  rw [hmain, hmark]
  exact rateRecords_committed hs

/-- The main thread stays at its version. -/
theorem keep (h : RatesSeen P es s) (hs : (App.machine P).Reaches es s) (hmain : s'.main = s.main)
    (hmark : (rateMarks (es ++ [e])).main = (rateMarks es).main)
    (hle : (rateMarks es).committed ≤ (rateMarks (es ++ [e])).committed) :
    RatesSeen P (es ++ [e]) s' := by
  refine ⟨hmark ▸ h.le.trans hle, ?_⟩
  rw [hmain, hmark, App.rateSaveAt_concat (committed_rateMarks hs ▸ h.le)]
  exact h.main

end RatesSeen

theorem ratesSeen_of_reaches (h : (App.machine P).Reaches es s) : RatesSeen P es s := by
  refine StepMachine.Reaches.invariant (M := App.machine P) (I := RatesSeen P)
    ⟨le_refl 0, rfl, rfl⟩ (fun es s e s' hs hI hstep => ?_) h
  have hs' := StepMachine.reaches_concat.mpr ⟨s, hs, hstep⟩
  have hmarks := rateMarks_concat es e
  cases App.appStep_of_step hstep with
  | launch => exact .advance hs' rfl (by rw [hmarks]; rfl)
  | refresh => exact .advance hs' rfl (by rw [hmarks]; rfl)
  | tapExchange => exact .advance hs' rfl (by rw [hmarks]; rfl)
  | tapRow => exact .advance hs' rfl (by rw [hmarks]; rfl)
  | ratesSaved => exact hI.keep hs rfl (by rw [hmarks]; rfl) (by rw [hmarks]; exact Nat.le_succ _)
  | _ => exact hI.keep hs rfl (by rw [hmarks]; rfl) (by rw [hmarks]; rfl)

/-! ### What the amount is worth -/

/-- What the amount in the text field is worth by a save of rates, between the currencies on the
two buttons; nothing before there is a save. -/
def App.worthBy (s : App) (save : Option (Date × RateListResponse)) : ℚ :=
  save.elim 0 fun save => save.2.convert s.fromTitle s.toTitle s.amount

/-- A version that holds a save converts by its payload. -/
theorem RateRecords.conversion_eq {save : Option (Date × RateListResponse)}
    (h : RateRecords save realm) {A B : String}
    (hu : realm.userPreferenceData.first = some ⟨A, B⟩) (n : ℤ) :
    conversion realm n = save.elim 0 fun save => save.2.convert A B n := by
  rcases save with _ | ⟨t, response⟩
  · exact conversion_of_no_record (ObjectTable.first_eq_none_iff.mpr h.1) n
  · have hd := ObjectTable.first_eq_some_of_objects h.1
    refine conversion_of_quotes hu hd rfl (fun code => ?_) n
    exact (h.one_payload (List.mem_of_mem_head? hd)).2.2.2.2 _

/-- **The conversion by a version is the worth by the save it holds**, when the titles are the
stored codes. -/
theorem converted_eq_worthBy {save : Option (Date × RateListResponse)}
    (htitles : ∀ side, s.realm.storedCode side = some (s.title side))
    (hsame : realm.userPreferenceData = s.realm.userPreferenceData)
    (hrecords : RateRecords save realm) :
    s.converted P realm = P.formatWithComma (s.worthBy save) := by
  have hfrom := htitles true
  have hto := htitles false
  rw [Realm.storedCode, Option.map_eq_some_iff] at hfrom hto
  obtain ⟨u, hu, hfrom⟩ := hfrom
  obtain ⟨u', hu', hto⟩ := hto
  obtain rfl := Option.some.inj (hu.symm.trans hu')
  have hprefs : realm.userPreferenceData.first = some ⟨s.fromTitle, s.toTitle⟩ := by
    rw [hsame, hu]
    exact congrArg some (congrArg₂ UserPreferenceData.mk hfrom hto)
  rw [App.converted, hrecords.conversion_eq hprefs, App.worthBy]

/-- After an event that writes the label, a list that is still open is being dismissed. -/
theorem dismissing_of_displays (h : (App.machine P).Reaches es s) (hstep : AppStep P s e s')
    (he : e.displays = true) : ∀ l, s'.list = some l → l.dismissing = true := by
  cases hstep with
  | launch =>
    intro l hl
    cases hl
  | viewWillAppear hphase =>
    intro l hl
    have happeared := appeared_of_list h (ne_of_eq_of_ne hl (Option.some_ne_none l))
    rw [hphase] at happeared
    cases happeared
  | editText text hfront =>
    intro l hl
    cases hfront.2.symm.trans hl
  | tapExchange hfront =>
    intro l hl
    cases hfront.2.symm.trans hl
  | beginDismiss l₀ =>
    intro l hl
    cases hl
    rfl
  | _ => cases he

/-- The worth depends on the titles and the text only. -/
theorem App.worthBy_congr (htext : s'.text = s.text) (hfrom : s'.fromTitle = s.fromTitle)
    (hto : s'.toTitle = s.toTitle) (save : Option (Date × RateListResponse)) :
    s'.worthBy save = s.worthBy save := by
  rw [App.worthBy, App.worthBy, App.amount, App.amount, htext, hfrom, hto]

/-- **What the label says by its mark**: what the amount is worth by the save that the mark stands
for. -/
structure LabelMarked (P : Platform) (es : List AppEvent) (s : App) : Prop where
  le : (rateMarks es).shown ≤ (rateMarks es).committed
  label : 0 < s.shows →
    s.label = P.formatWithComma (s.worthBy (App.rateSaveAt P es (rateMarks es).shown))

/-- An event that writes the label sets its mark. -/
theorem LabelMarked.of_displays (hs : (App.machine P).Reaches es s) (hstep : s.step P e = some s')
    (he : e.displays = true) : LabelMarked P (es ++ [e]) s' := by
  have happ := App.appStep_of_step hstep
  have hs' := StepMachine.reaches_concat.mpr ⟨s, hs, hstep⟩
  have hseen := ratesSeen_of_reaches hs'
  have hmark : (rateMarks (es ++ [e])).shown = (rateMarks (es ++ [e])).main := by
    rw [rateMarks_concat, RateMarks.shown_after, if_pos he]
  refine ⟨hmark ▸ hseen.le, fun hpos => ?_⟩
  have htitles := (titlesAgree_of_launched hs' hpos).titles (dismissing_of_displays hs happ he)
  rw [converted_of_displays hs happ he, hmark]
  exact converted_eq_worthBy htitles (preferencesKept_of_reaches hs' hpos).same hseen.main

/-- The other events leave the label and its mark alone. -/
theorem LabelMarked.of_not_displays (h : LabelMarked P es s) (hs : (App.machine P).Reaches es s)
    (hstep : AppStep P s e s') (he : e.displays ≠ true) : LabelMarked P (es ++ [e]) s' := by
  have hmark : (rateMarks (es ++ [e])).shown = (rateMarks es).shown := by
    rw [rateMarks_concat, RateMarks.shown_after, if_neg he]
  have hle : (rateMarks es).committed ≤ (rateMarks (es ++ [e])).committed := by
    rw [rateMarks_concat]
    exact RateMarks.committed_le_after _ e
  refine ⟨hmark ▸ h.le.trans hle, fun hpos => ?_⟩
  obtain ⟨htext, hlabel, hfrom, hto⟩ := label_eq_of_not_displays hstep he
  rw [hlabel, hmark, App.rateSaveAt_concat (committed_rateMarks hs ▸ h.le),
    App.worthBy_congr htext hfrom hto]
  exact h.label (launched_of_not_displays hstep he hpos)

/-- **The label shows the rates of its mark**, in every run. -/
theorem labelMarked_of_reaches (h : (App.machine P).Reaches es s) : LabelMarked P es s := by
  refine StepMachine.Reaches.invariant (M := App.machine P) (I := LabelMarked P)
    ⟨le_refl 0, fun hpos => absurd hpos (lt_irrefl 0)⟩ (fun es s e s' hs hI hstep => ?_) h
  by_cases he : e.displays = true
  · exact .of_displays hs hstep he
  · exact hI.of_not_displays hs (App.appStep_of_step hstep) he

/-! ### A refresh of the rates -/

/-- A save of rates. -/
def AppEvent.savesRates : AppEvent → Bool
  | .rateCompletion (some _) _ => true
  | _ => false

/-- The rates that arrived are announced, and the Top screen is in front: a save of rates has
been committed, no notification of rates is waiting in the main queue. -/
def RatesAnnounced (es : List AppEvent) (s : App) : Prop :=
  es.any AppEvent.savesRates = true ∧ .gotRateList ∉ s.mainQueue ∧ s.TopInFront

/-- **A refresh reaches the screen**: once the rates are announced, the label shows the
conversion by the newest version of the store. -/
def RefreshShown (P : Platform) (es : List AppEvent) (s : App) : Prop :=
  RatesAnnounced es s → s.label = s.converted P s.realm

/-- **The rates on the screen are as good as the newest ones**: where rates have been saved since
the version that the label was written by, the amount is worth the same text by both payloads. -/
def RatesAsShown (P : Platform) (es : List AppEvent) (s : App) : Prop :=
  (rateMarks es).shown < (rateMarks es).committed →
    P.formatWithComma (s.worthBy (App.rateSaveAt P es (rateMarks es).shown)) =
      P.formatWithComma (s.worthBy (App.rateSaveAt P es (rateMarks es).committed))

instance (P : Platform) (es : List AppEvent) (s : App) : Decidable (RatesAsShown P es s) :=
  inferInstanceAs (Decidable (_ → _))

/-- Once the rates are announced, they are on the screen when no other rates are. -/
theorem refreshShown_iff_ratesAsShown (h : (App.machine P).Reaches es s) :
    RefreshShown P es s ↔ RatesAnnounced es s → RatesAsShown P es s := by
  refine forall_congr' fun hannounced => ?_
  have hfront := hannounced.2.2
  have hpos : 0 < s.shows := launched_of_phase (by simp [hfront.1])
  have hlabel := labelMarked_of_reaches h
  have htitles := (titlesAgree_of_launched h hpos).titles (by simp [hfront.2])
  rw [converted_eq_worthBy htitles rfl (rateRecords_committed h), hlabel.label hpos]
  constructor
  · exact fun hshown _ => hshown
  · intro hsame
    rcases hlabel.le.eq_or_lt with heq | hlt
    · rw [heq]
    · exact hsame hlt

/-- **A refresh reaches the screen in exactly the runs in which no rates that matter have come in
since the label was written**: whenever the rates are announced, and a save of rates has been
committed after the version that the label was written by, the payload saved last then and the
payload saved last now make the same text of the amount. -/
theorem refreshShown_iff (P : Platform) (es : List AppEvent) :
    (App.machine P).Always es (RefreshShown P) ↔
      (App.machine P).Always es fun pre s => RatesAnnounced pre s → RatesAsShown P pre s :=
  forall₄_congr fun _ _ _ hs => refreshShown_iff_ratesAsShown hs

/-- In a second process an amount is typed before the rates are answered, and they are the rates
of before. -/
def sameRatesAgain : List AppEvent :=
  App.firstLaunch ++ [.launch 7200, .finishViewDidLoad 7200, .viewWillAppear,
    .currencyListCompletion currencyListBody 7201, .runMainBlock, .editText "100",
    .rateCompletion rateBody 7202, .runMainBlock]

/-- The label was written by the first save, and shows what the second one gives. -/
theorem refreshShown_sameRatesAgain :
    (App.machine Platform.sample).Always sameRatesAgain (RefreshShown Platform.sample) := by
  have hall : ∀ pre ∈ sameRatesAgain.inits,
      (((App.machine Platform.sample).exec App.installed pre).all fun s =>
        decide (RatesAsShown Platform.sample pre s)) = true := by
    decide +kernel
  refine (refreshShown_iff _ _).mpr fun pre hpre s hs _ => ?_
  have hexec : (App.machine Platform.sample).exec App.installed pre = some s := hs
  have hshown := hall pre ((List.mem_inits pre _).mpr hpre)
  rw [hexec] at hshown
  exact of_decide_eq_true hshown

/-- The currencies are answered first and hide the indicator, the user types, and the rates
arrive afterwards. -/
def typedBefore : List AppEvent :=
  [.launch 0, .finishViewDidLoad 0, .viewWillAppear, .currencyListCompletion currencyListBody 1,
    .runMainBlock, .editText "100", .rateCompletion rateBody 2, .runMainBlock]

/-- **Rates that arrive after the amount was typed do not reach the screen**, although the user
typed while the indicator was hidden. -/
theorem refresh_not_shown :
    ¬∀ (es : List AppEvent) (s : App), (App.machine Platform.sample).Reaches es s →
      App.UserWaits Platform.sample es → RefreshShown Platform.sample es s := by
  intro hshown
  have hwaits : App.UserWaits Platform.sample typedBefore :=
    StepMachine.everyStep_of_checkSteps (c := fun _ s e => !e.isUser || !s.hud)
      (fun _ s e hc huser => by simpa [huser] using hc) (by decide +kernel)
  have hrun : ((App.machine Platform.sample).exec App.installed typedBefore).map
      (fun s => (s.mainQueue, s.phase, s.list, s.label, s.converted Platform.sample s.realm)) =
      some ([], .appeared, none, "0", "10,650") := by decide +kernel
  obtain ⟨s, hs, hvalues⟩ := Option.map_eq_some_iff.mp hrun
  simp only [Prod.mk.injEq] at hvalues
  obtain ⟨hqueue, hphase, hlist, hlabel, hconverted⟩ := hvalues
  have hequal := hshown typedBefore s hs hwaits ⟨rfl, by simp [hqueue], hphase, hlist⟩
  rw [hlabel, hconverted] at hequal
  exact absurd hequal (by decide)

end ExchangeRate
