import ExchangeRate.Versions

/-!
# Titles, selection and stored preferences

The pair of currencies lives in three places: the record of preferences, the titles of
the two buttons, and the code the list screen marks. The Top screen reads the record
when it appears, and the list screen starts from the title of the button that opened
it and writes the record at each tap. So the titles are up to date whenever the Top
screen is in front – a dismissal that is cancelled updates them too, and does no harm –
and the marked code is the stored one as long as the list is open
(`ExchangeRate.titlesAgree_of_reaches`).
-/

namespace ExchangeRate

variable {P : Platform} {es : List AppEvent} {s s' : App} {e : AppEvent} {realm realm' : Realm}

/-! ### What the writes do to the stored codes -/

theorem storedCode_setDefault (realm : Realm) (isFromCurrency : Bool) :
    (setDefaultUserPreferenceData realm).storedCode isFromCurrency =
      some (if isFromCurrency then Define.defaultFromCurrency else Define.defaultToCurrency) :=
  storedCode_of_objects (objects_setDefault realm) isFromCurrency

/-- A selection writes the code of its row on its side, and leaves the other side alone. -/
theorem storedCode_select {k : ObjKey} {isFromCurrency : Bool} {u : UserPreferenceData}
    (hu : realm.userPreferenceData.objects = [u])
    (h : saveSelectedItem realm (.managed k) isFromCurrency = .ok realm') :
    ∃ c, realm.currency.get k = some c ∧ realm'.storedCode isFromCurrency = some c.code ∧
      realm'.storedCode (!isFromCurrency) = realm.storedCode (!isFromCurrency) := by
  obtain ⟨c, hget, hobjects⟩ := saveSelectedItem_ok hu h
  refine ⟨c, hget, ?_, ?_⟩
  · rw [storedCode_of_objects hobjects]
    cases isFromCurrency <;> rfl
  · rw [storedCode_of_objects hobjects, storedCode_of_objects hu]
    cases isFromCurrency <;> rfl

/-- The titles that were read from one version are the codes stored in the other, when both
have the same preferences. -/
theorem storedCode_eq_title {version : Realm} {u : UserPreferenceData}
    (hu : realm.userPreferenceData.objects = [u])
    (hsame : version.userPreferenceData = realm.userPreferenceData) {oldFrom oldTo : String}
    (hfrom : s.fromTitle = (version.storedCode true).getD oldFrom)
    (hto : s.toTitle = (version.storedCode false).getD oldTo) (isFromCurrency : Bool) :
    realm.storedCode isFromCurrency = some (s.title isFromCurrency) := by
  rw [storedCode_congr hsame, storedCode_of_objects hu] at hfrom hto
  rw [storedCode_of_objects hu]
  cases isFromCurrency with
  | true => exact congrArg some hfrom.symm
  | false => exact congrArg some hto.symm

/-! ### The agreement -/

/-- **Titles, selection and record agree**: the titles while no list is open or its dismissal
has begun, and the marked code while a list is open. -/
structure TitlesAgree (s : App) : Prop where
  titles : (∀ l, s.list = some l → l.dismissing = true) →
    ∀ isFromButton, s.realm.storedCode isFromButton = some (s.title isFromButton)
  selected : ∀ l, s.list = some l →
    s.realm.storedCode l.isFromButton = some l.selectedCurrencyCode

/-- The agreement is about the preferences and what the screens show. -/
theorem TitlesAgree.congr (h : TitlesAgree s)
    (hpreferences : s'.realm.userPreferenceData = s.realm.userPreferenceData)
    (hfrom : s'.fromTitle = s.fromTitle) (hto : s'.toTitle = s.toTitle)
    (hlist : s'.list = s.list) : TitlesAgree s' := by
  refine ⟨fun hdismissing side => ?_, fun l hl => ?_⟩
  · rw [storedCode_congr hpreferences, h.titles (hlist ▸ hdismissing) side, App.title, App.title,
      hfrom, hto]
  · rw [storedCode_congr hpreferences]
    exact h.selected l (hlist ▸ hl)

theorem titlesAgree_of_launched (h : (App.machine P).Reaches es s) (hlaunched : 0 < s.shows) :
    TitlesAgree s := by
  refine StepMachine.Reaches.invariant (M := App.machine P)
    (I := fun _ s => 0 < s.shows → TitlesAgree s) (fun hpos => absurd hpos (lt_irrefl 0))
    (fun es s e s' hs hI hstep => ?_) h hlaunched
  have hkept := fun hpos => preferencesKept_of_reaches hs hpos
  cases App.appStep_of_step hstep with
  | launch =>
    refine fun _ => ⟨fun _ side => ?_, nofun⟩
    cases side <;> exact storedCode_setDefault _ _
  | finishViewDidLoad now hphase =>
    exact fun _ => (hI (launched_of_phase (by simp [hphase]))).congr rfl rfl rfl rfl
  | viewWillAppear hphase =>
    -- the titles are read from the main thread's version, which has the same preferences
    intro _
    have hpos := launched_of_phase (s := s) (by simp [hphase])
    obtain ⟨⟨u, hu⟩, hsame⟩ := hkept hpos
    exact ⟨fun _ => storedCode_eq_title hu hsame rfl rfl, (hI hpos).selected⟩
  | currencyListSaved data now htask response realm hsaved =>
    exact fun hpos => (hI hpos).congr hsaved.userPreferenceData rfl rfl rfl
  | ratesSaved data now htask response realm hsaved =>
    exact fun hpos => (hI hpos).congr hsaved.userPreferenceData rfl rfl rfl
  | tapExchange hfront =>
    intro hpos
    obtain ⟨u, hu⟩ := (hkept hpos).single
    have hobjects : (exchangeCurrency s.realm).1.userPreferenceData.objects =
        [⟨u.toCurrency, u.fromCurrency⟩] := by
      rw [objects_exchange, hu]
      rfl
    refine ⟨fun _ => storedCode_eq_title hobjects rfl rfl rfl, fun l hl => ?_⟩
    have hclosed : none = some l := hfront.2.symm.trans hl
    cases hclosed
  | tapCurrencyButton isFromButton hfront =>
    intro hpos
    refine ⟨fun hdismissing => absurd (hdismissing _ rfl) (by simp), fun l hl => ?_⟩
    cases hl
    exact (hI hpos).titles (by simp [hfront.2]) isFromButton
  | search searchWord l hlist =>
    intro hpos
    refine ⟨fun hdismissing => (hI hpos).titles fun l' hl' => ?_, fun l' hl' => ?_⟩
    · rw [hlist, Option.some.injEq] at hl'
      subst hl'
      exact hdismissing { l with currencies := App.currencyKeys P s.main searchWord } rfl
    · cases hl'
      exact (hI hpos).selected l hlist
  | tapRow row l hlist hnot k selectedItem hmain realm hsave =>
    intro hpos
    obtain ⟨u, hu⟩ := (hkept hpos).single
    -- the row is read in one version and written in the other
    obtain ⟨c, hget, hcode, -⟩ := storedCode_select hu hsave
    refine ⟨fun hdismissing => ?_, fun l' hl' => ?_⟩
    · have hbegun := hdismissing { l with selectedCurrencyCode := selectedItem.code } rfl
      exact absurd (hbegun.symm.trans hnot) (by decide)
    · cases hl'
      rw [get_eq_of_reaches hs hmain hget]
      exact hcode
  | beginDismiss l hlist hnot =>
    intro hpos
    obtain ⟨⟨u, hu⟩, hsame⟩ := hkept hpos
    refine ⟨fun _ => storedCode_eq_title hu hsame rfl rfl, fun l' hl' => ?_⟩
    cases hl'
    exact (hI hpos).selected l hlist
  | cancelDismiss l hlist hdismissing =>
    -- the dismissal has not taken place, so nothing is asked of the titles
    intro hpos
    refine ⟨fun hall => absurd (hall _ rfl) (by simp), fun l' hl' => ?_⟩
    cases hl'
    exact (hI hpos).selected l hlist
  | finishDismiss l hlist hdismissing =>
    intro hpos
    refine ⟨fun _ => (hI hpos).titles fun l' hl' => ?_, nofun⟩
    rw [hlist, Option.some.injEq] at hl'
    exact hl' ▸ hdismissing
  | _ => exact fun hpos => (hI hpos).congr rfl rfl rfl rfl

/-! ### The other side -/

/-- **The list was opened at some point of the run**, by a tap on the button of its side, and
the code stored for the other side is what it was then. -/
def OtherSideKept (P : Platform) (es : List AppEvent) (s : App) (l : ListScreen) : Prop :=
  ∃ before after s₀, es = before ++ .tapCurrencyButton l.isFromButton :: after ∧
    (∀ side, .tapCurrencyButton side ∉ after) ∧
    (App.machine P).Reaches (before ++ [.tapCurrencyButton l.isFromButton]) s₀ ∧
    s.realm.storedCode (!l.isFromButton) = s₀.realm.storedCode (!l.isFromButton)

/-- One event more, which opens no list and leaves the other side alone. -/
theorem OtherSideKept.concat {l l' : ListScreen} (h : OtherSideKept P es s l)
    (hside : l'.isFromButton = l.isFromButton) (hnot : ∀ side, e ≠ .tapCurrencyButton side)
    (hother : s'.realm.storedCode (!l.isFromButton) = s.realm.storedCode (!l.isFromButton)) :
    OtherSideKept P (es ++ [e]) s' l' := by
  obtain ⟨before, after, s₀, rfl, hafter, hopened, hkept⟩ := h
  refine ⟨before, after ++ [e], s₀, ?_, fun side hmem => ?_, ?_, ?_⟩
  · rw [hside, List.append_assoc, List.cons_append]
  · rcases List.mem_append.mp hmem with hmem | hmem
    · exact hafter side hmem
    · exact hnot side (List.mem_singleton.mp hmem).symm
  · rw [hside]
    exact hopened
  · rw [hside, hother, hkept]

theorem otherSideKept_of_reaches (h : (App.machine P).Reaches es s) {l : ListScreen}
    (hl : s.list = some l) : OtherSideKept P es s l := by
  refine StepMachine.Reaches.invariant (M := App.machine P)
    (I := fun es s => ∀ l, s.list = some l → OtherSideKept P es s l) nofun
    (fun es s e s' hs hI hstep => ?_) h l hl
  have happened := StepMachine.reaches_concat.mpr ⟨s, hs, hstep⟩
  cases App.appStep_of_step hstep with
  | launch => exact nofun
  | tapCurrencyButton isFromButton hfront =>
    intro l' hl'
    cases hl'
    exact ⟨es, [], _, rfl, fun _ => List.not_mem_nil, happened, rfl⟩
  | currencyListSaved data now htask response realm hsaved =>
    exact fun l hl => (hI l hl).concat rfl nofun (storedCode_congr hsaved.userPreferenceData _)
  | ratesSaved data now htask response realm hsaved =>
    exact fun l hl => (hI l hl).concat rfl nofun (storedCode_congr hsaved.userPreferenceData _)
  | tapExchange hfront =>
    intro l hl
    have hclosed : none = some l := hfront.2.symm.trans hl
    cases hclosed
  | search searchWord l hlist =>
    intro l' hl'
    cases hl'
    exact (hI l hlist).concat rfl nofun rfl
  | tapRow row l hlist hnot k selectedItem hmain realm hsave =>
    intro l' hl'
    cases hl'
    obtain ⟨u, hu⟩ := (preferencesKept_of_reaches hs (launched_of_list hs hlist)).single
    obtain ⟨c, -, -, hother⟩ := storedCode_select hu hsave
    exact (hI l hlist).concat rfl nofun hother
  | beginDismiss l hlist =>
    intro l' hl'
    cases hl'
    exact (hI l hlist).concat rfl nofun rfl
  | cancelDismiss l hlist =>
    intro l' hl'
    cases hl'
    exact (hI l hlist).concat rfl nofun rfl
  | finishDismiss => exact nofun
  | _ => exact fun l hl => (hI l hl).concat rfl nofun rfl

/-! ### The result -/

/-- **Titles, selection and stored preferences agree in every state.** Over a Top screen in
front the titles are the stored codes. While a list is open it marks the code stored for its
side, and the code of the other side is what it was when the list was opened. -/
theorem titlesAgree_of_reaches (h : (App.machine P).Reaches es s) :
    (s.TopInFront →
      ∀ isFromButton, s.realm.storedCode isFromButton = some (s.title isFromButton)) ∧
    ∀ l, s.list = some l →
      s.realm.storedCode l.isFromButton = some l.selectedCurrencyCode ∧
        OtherSideKept P es s l := by
  refine ⟨fun hfront => ?_, fun l hl => ⟨?_, otherSideKept_of_reaches h hl⟩⟩
  · have hlaunched := launched_of_phase (s := s) (by simp [hfront.1])
    exact (titlesAgree_of_launched h hlaunched).titles (by simp [hfront.2])
  · exact (titlesAgree_of_launched h (launched_of_list h hl)).selected l hl

/-- After a selection, with the list still open. -/
theorem titlesAgree_afterSelection : ∃ s l, s.list = some l ∧
    s.realm.storedCode l.isFromButton = some l.selectedCurrencyCode ∧
    OtherSideKept Platform.sample (App.firstLaunch ++ [.refresh, .tapCurrencyButton true, .tapRow 1])
      s l := by
  have hrun : ((App.machine Platform.sample).exec App.installed
      (App.firstLaunch ++ [.refresh, .tapCurrencyButton true, .tapRow 1])).bind App.list =
      some ⟨true, [0, 1], "AFN", false⟩ := by decide +kernel
  obtain ⟨s, hs, hlist⟩ := Option.bind_eq_some_iff.mp hrun
  exact ⟨s, _, hlist, (titlesAgree_of_reaches hs).2 _ hlist⟩

end ExchangeRate
