import ExchangeRate.Converter
import ExchangeRate.Indicator
import ExchangeRate.Search

/-!
# A conversion from anywhere

What the two screens are for: the user picks two currencies and types an amount. From
every state with the Top screen in front this can be done, whatever has happened
before, once the main thread has the newest version of the store: each visit of the
list screen finds its currency by a word that matches it, and the conversion by the
stored rates is on the label in the end (`ExchangeRate.exists_conversion`). Nothing on
the way stops the process, starts a request, or touches the four tables with what was
fetched.
-/

namespace ExchangeRate

variable {P : Platform} {es ds : List AppEvent} {s s' : App}

/-- A visit of the list screen: a search, and a tap on a row of what it found. -/
def visit (isFromButton : Bool) (searchWord : String) (row : ℕ) : List AppEvent :=
  [.tapCurrencyButton isFromButton, .search searchWord, .tapRow row, .beginDismiss, .finishDismiss]

/-! ### One visit -/

/-- Every currency that matches a word is in a row of what the search for it finds. -/
theorem exists_row_of_matches {realm : Realm} {c : Currency} {w : String}
    (hc : c ∈ realm.currency.objects) (hw : P.matchesWord w c = true) :
    ∃ (row : ℕ) (k : ObjKey), (App.currencyKeys P realm w)[row]? = some k ∧
      realm.currency.get k = some c := by
  obtain ⟨r, hr, rfl⟩ := List.mem_map.mp hc
  have hfound : r ∈ getCurrencyListFromDB P realm w := mem_getCurrencyListFromDB.mpr ⟨hr, hw⟩
  obtain ⟨row, hrow⟩ := List.mem_iff_getElem?.mp hfound
  refine ⟨row, r.1, ?_, ObjectTable.get_eq_some_iff.mpr hr⟩
  rw [App.currencyKeys, List.getElem?_map, hrow, Option.map_some]

/-- A dismissal that is not cancelled. -/
theorem exec_dismiss {l : ListScreen} (hlist : s.list = some l) (hnot : l.dismissing = false) :
    (App.machine P).exec s [.beginDismiss, .finishDismiss] = some
      { s with
        fromTitle := (s.main.storedCode true).getD s.fromTitle
        toTitle := (s.main.storedCode false).getD s.toTitle
        label := s.labelOnAppear P
        list := none } := by
  have hbegun : (App.machine P).step s .beginDismiss =
      some { s.topViewWillAppear P with list := some { l with dismissing := true } } := by
    simp [App.machine, App.step, App.attempt, hlist, hnot]
  rw [StepMachine.exec_of_step hbegun, App.topViewWillAppear_eq]
  rfl

/-- **The events of a visit**, one after the other. -/
theorem exec_visit {isFromButton : Bool} {w : String} {row : ℕ} {k : ObjKey} {c : Currency}
    {realm : Realm} (hfront : s.TopInFront) (hrow : (App.currencyKeys P s.main w)[row]? = some k)
    (hread : s.main.read (.managed k) = .ok c)
    (hsave : saveSelectedItem s.realm (.managed k) isFromButton = .ok realm) :
    (App.machine P).exec s (visit isFromButton w row) = some
      { s with
        realm
        main := realm
        fromTitle := (realm.storedCode true).getD s.fromTitle
        toTitle := (realm.storedCode false).getD s.toTitle
        label := { s with main := realm }.labelOnAppear P
        list := none } := by
  -- the list screen after the search
  obtain ⟨l, hl⟩ : ∃ l : ListScreen, l =
      ⟨isFromButton, App.currencyKeys P s.main w, s.title isFromButton, false⟩ := ⟨_, rfl⟩
  have hopened : (App.machine P).step s (.tapCurrencyButton isFromButton) =
      some (s.showCurrencyListScreen P (s.title isFromButton) isFromButton) := by
    have hstep := App.step_of_guard (P := P) (s := s) (e := .tapCurrencyButton isFromButton)
      (t := s.showCurrencyListScreen P (s.title isFromButton) isFromButton) rfl fun _ => by
        cases isFromButton <;> rfl
    exact hstep.trans (if_pos hfront)
  have hsearched : (App.machine P).step
      (s.showCurrencyListScreen P (s.title isFromButton) isFromButton) (.search w) =
      some { s with list := some l } := by
    rw [hl]
    rfl
  have htapped : (App.machine P).step { s with list := some l } (.tapRow row) =
      some { s with
        realm
        main := realm
        list := some { l with selectedCurrencyCode := c.code } } := by
    simp [App.machine, App.step, App.attempt, App.didSelectRowAt, hl, hrow, hread, hsave]
  have hdismissed := exec_dismiss (P := P) (s := { s with
      realm
      main := realm
      list := some { l with selectedCurrencyCode := c.code } }) rfl (by rw [hl])
  rw [visit, StepMachine.exec_of_step hopened, StepMachine.exec_of_step hsearched,
    StepMachine.exec_of_step htapped]
  exact hdismissed

/-- **What a visit does**, when the main thread has the newest version of the store. -/
structure Selected (s : App) (isFromButton : Bool) (code : String) (s' : App) : Prop where
  front : s'.TopInFront
  main : s'.main = s'.realm
  fetched : OnlyPreferences s.realm s'.realm
  chosen : s'.realm.storedCode isFromButton = some code
  other : s'.realm.storedCode (!isFromButton) = s.realm.storedCode (!isFromButton)
  tasks : s'.tasks = s.tasks

/-- Every currency of the store can be selected, by every word that it matches. -/
theorem exists_visit {u : UserPreferenceData} (hu : s.realm.userPreferenceData.objects = [u])
    (hfront : s.TopInFront) (hmain : s.main = s.realm) (isFromButton : Bool) {c : Currency}
    {w : String} (hc : c ∈ s.realm.currency.objects) (hw : P.matchesWord w c = true) :
    ∃ row s', (App.machine P).exec s (visit isFromButton w row) = some s' ∧
      Selected s isFromButton c.code s' := by
  obtain ⟨row, k, hrow, hget⟩ := exists_row_of_matches hc hw
  have hread := Realm.read_of_get hget
  obtain ⟨realm, hsave, -⟩ := saveSelectedItem_of_read hread isFromButton
  obtain ⟨c', hget', hcode, hother⟩ := storedCode_select hu hsave
  obtain rfl : c = c' := Option.some.inj (hget.symm.trans hget')
  exact ⟨row, _, exec_visit hfront (hmain ▸ hrow) (hmain ▸ hread) hsave,
    ⟨hfront.1, rfl⟩, rfl, onlyPreferences_select hsave, hcode, hother, rfl⟩

/-! ### The whole conversion -/

/-- Two visits and an amount, over the newest version of the store. -/
def convertAmount (w : String) (row : ℕ) (v : String) (rov : ℕ) (text : String) :
    List AppEvent :=
  .refresh :: (visit true w row ++ (visit false v rov ++ [.editText text]))

/-- A user who waits may go on without waiting, as long as nothing shows the indicator. -/
theorem userWaits_append (h : (App.machine P).Reaches es s) (hwaits : App.UserWaits P es)
    (hhidden : s.hud = false) (hds : ∀ e ∈ ds, e.callsHUD = false)
    (hexec : (App.machine P).exec s ds = some s') : App.UserWaits P (es ++ ds) := by
  induction ds generalizing es s with
  | nil => rwa [List.append_nil]
  | cons e ds ih =>
    obtain ⟨s₁, hstep, hrest⟩ := Option.bind_eq_some_iff.mp hexec
    have hnot : e.callsHUD = false := hds e List.mem_cons_self
    rw [List.append_cons]
    refine ih (StepMachine.reaches_concat.mpr ⟨s, h, hstep⟩)
      (StepMachine.EveryStep.concat hwaits fun s₂ h₂ _ => ?_)
      ((hud_of_not_calls hnot hstep).trans hhidden)
      (fun e' he' => hds e' (List.mem_cons_of_mem e he')) hrest
    rw [h₂.unique h, hhidden]

/-- **What the user gets**: the two currencies on the buttons, the amount in the text field, and
on the label its conversion by the rates that were in the store, which has kept what was fetched. -/
structure Converts (P : Platform) (s : App) (a b : Currency) (typed : String) (s' : App) :
    Prop where
  front : s'.TopInFront
  fromTitle : s'.fromTitle = a.code
  toTitle : s'.toTitle = b.code
  text : s'.text = typed
  label : s'.label =
    P.formatWithComma (conversionBetween s.realm a.code b.code ((intOfText typed).getD 0))
  fetched : OnlyPreferences s.realm s'.realm
  tasks : s'.tasks = s.tasks

/-- **A conversion can be had from every state with the Top screen in front**: whatever the two
currencies of the store, whatever words that they match, whatever the text, and without waiting
once the indicator is hidden. -/
theorem exists_conversion (h : (App.machine P).Reaches es s) (hfront : s.TopInFront)
    {a b : Currency} (ha : a ∈ s.realm.currency.objects) (hb : b ∈ s.realm.currency.objects)
    {w v : String} (hw : P.matchesWord w a = true) (hv : P.matchesWord v b = true)
    (text : String) : ∃ row rov s',
      (App.machine P).exec s (convertAmount w row v rov text) = some s' ∧
      Converts P s a b text s' ∧
      (App.UserWaits P es → s.hud = false →
        App.UserWaits P (es ++ convertAmount w row v rov text)) := by
  -- the newest version, and a visit on each side
  have hrefreshed : (App.machine P).step s .refresh = some { s with main := s.realm } := by
    have hloaded : s.Loaded := by rw [App.Loaded, App.shows, hfront.1]
    exact (App.step_of_guard (P := P) (s := s) (e := .refresh) (t := { s with main := s.realm })
      rfl fun _ => rfl).trans (if_pos hloaded)
  obtain ⟨u, hu⟩ := (preferencesKept_of_reaches h (launched_of_phase (by simp [hfront.1]))).single
  obtain ⟨row, s₁, hexec, hfrom⟩ :=
    exists_visit (P := P) (s := { s with main := s.realm }) hu hfront rfl true ha hw
  have h₁ : (App.machine P).Reaches (es ++ .refresh :: visit true w row) s₁ :=
    StepMachine.reaches_append.mpr ⟨s, h, (StepMachine.exec_of_step hrefreshed _).trans hexec⟩
  obtain ⟨u₁, hu₁⟩ :=
    (preferencesKept_of_reaches h₁ (launched_of_phase (by simp [hfrom.front.1]))).single
  obtain ⟨rov, s₂, hexec', hto⟩ := exists_visit (P := P) hu₁ hfrom.front hfrom.main false
    (by rw [hfrom.fetched.currency]; exact hb) hv
  have h₂ : (App.machine P).Reaches ((es ++ .refresh :: visit true w row) ++ visit false v rov) s₂ :=
    StepMachine.reaches_append.mpr ⟨s₁, h₁, hexec'⟩
  -- the amount
  have hlaunched := launched_of_phase (s := s₂) (by simp [hto.front.1])
  obtain ⟨s₃, htyped⟩ : ∃ s₃, s₂.step P (.editText text) = some s₃ :=
    ⟨_, (App.step_of_guard rfl fun _ => rfl).trans (if_pos hto.front)⟩
  have hall : (App.machine P).exec s (convertAmount w row v rov text) = some s₃ := by
    rw [convertAmount, StepMachine.exec_of_step hrefreshed, StepMachine.exec_append, hexec,
      Option.bind_some, StepMachine.exec_append, hexec', Option.bind_some]
    exact StepMachine.exec_of_step htyped []
  have hlabel := converted_of_appStep (App.appStep_of_step htyped) rfl
    (fun _ => preferencesKept_of_reaches h₂ hlaunched) fun _ => labelKept_of_reaches h₂ hlaunched
  have hfetched : OnlyPreferences s.realm s₂.realm := hfrom.fetched.trans hto.fetched
  have hstored : s₂.realm.storedCode true = some a.code := hto.other.trans hfrom.chosen
  have htitles := (titlesAgree_of_launched h₂ hlaunched).titles (by simp [hto.front.2])
  refine ⟨row, rov, s₃, hall, ?_, fun hwaits hhidden => ?_⟩
  · cases App.appStep_of_step htyped with
    | editText =>
      refine ⟨hto.front, ?_, ?_, rfl, ?_, hfetched, hto.tasks.trans hfrom.tasks⟩
      · exact Option.some.inj ((htitles true).symm.trans hstored)
      · exact Option.some.inj ((htitles false).symm.trans hto.chosen)
      · rw [hlabel, App.converted, ← hfetched.conversionBetween]
        exact congrArg _ ((congrArg (conversion · _) hto.main).trans
          (conversion_of_storedCode hstored hto.chosen _))
  · have hnot : ∀ e ∈ convertAmount w row v rov text, e.callsHUD = false := by
      simp [convertAmount, visit, AppEvent.callsHUD]
    exact userWaits_append h hwaits hhidden hnot hall

/-- From the state after a first launch, by a part of a name and by a code. -/
theorem exists_conversion_firstLaunch : ∃ s row rov s',
    (App.machine Platform.sample).Reaches App.firstLaunch s ∧
    (App.machine Platform.sample).exec s (convertAmount "Dirham" row "afn" rov "12") = some s' ∧
    s'.fromTitle = "AED" ∧ s'.toTitle = "AFN" ∧
    App.UserWaits Platform.sample (App.firstLaunch ++ convertAmount "Dirham" row "afn" rov "12") := by
  have hrun : ((App.machine Platform.sample).exec App.installed App.firstLaunch).map
      (fun s => (s.phase, s.list, s.hud, s.realm.currency.objects)) =
      some (.appeared, none, false,
        [⟨"AED", "United Arab Emirates Dirham"⟩, ⟨"AFN", "Afghan Afghani"⟩]) := by decide +kernel
  obtain ⟨s, hs, hvalues⟩ := Option.map_eq_some_iff.mp hrun
  simp only [Prod.mk.injEq] at hvalues
  obtain ⟨hphase, hlist, hhidden, hobjects⟩ := hvalues
  obtain ⟨row, rov, s', hexec, hconverts, hwaits⟩ := exists_conversion hs ⟨hphase, hlist⟩
    (a := ⟨"AED", "United Arab Emirates Dirham"⟩) (b := ⟨"AFN", "Afghan Afghani"⟩)
    (by rw [hobjects]; simp) (by rw [hobjects]; simp) (w := "Dirham") (v := "afn")
    (by decide +kernel) (by decide +kernel) "12"
  refine ⟨s, row, rov, s', hs, hexec, hconverts.fromTitle, hconverts.toTitle, hwaits ?_ hhidden⟩
  exact StepMachine.everyStep_of_checkSteps (c := fun _ s e => decide (e.isUser = true → s.hud = false))
    (fun _ _ _ hc => of_decide_eq_true hc) (by decide +kernel)

end ExchangeRate
