import ExchangeRate.Base.Simulation
import ExchangeRate.Enumeration
import ExchangeRate.Versions

/-!
# Two applications side by side

Two applications whose stores have the same contents, under the same events. They are
not in the same state: their rows may have different keys and stand in different
orders, and so the arrays of their list screens differ. What they show is the same,
and it stays the same (`ExchangeRate.Alike.step`), because an accessor finds the same
currency on both sides, or its row has been deleted on both sides.

So the order in which a process enumerates the dictionaries of the responses is not seen
in any run of the application (`ExchangeRate.sameScreens_withJson`).
-/

namespace ExchangeRate

variable {P : Platform} {j : Data → Option Json} {es ds : List AppEvent}
  {s s' s₁ t t₁ : App} {e : AppEvent}

@[simp] theorem Platform.formatWithComma_withJson (P : Platform) (value : ℚ) :
    (P.withJson j).formatWithComma value = P.formatWithComma value := rfl

theorem SameContents.getUserPreferenceData {realm realm' : Realm} (h : SameContents realm realm') :
    getUserPreferenceData realm = ExchangeRate.getUserPreferenceData realm' := by
  simp only [ExchangeRate.getUserPreferenceData, ObjectTable.first, h.userPreferenceData]

/-- What an exchange says is read from what it has written. -/
theorem exchangeCurrency_snd (realm : Realm) :
    (exchangeCurrency realm).2 = getUserPreferenceData (exchangeCurrency realm).1 := by
  unfold exchangeCurrency
  cases hu : realm.userPreferenceData.first with
  | none => simp only [getUserPreferenceData, hu]
  | some u => rfl

/-! ### What is seen -/

/-- What the Top screen and the indicator show, and what is still to come. -/
structure Shown where
  phase : Phase
  tasks : List URL
  mainQueue : List MainBlock
  hud : Bool
  text : String
  label : String
  fromTitle : String
  toTitle : String
  deriving DecidableEq

namespace App

def shown (s : App) : Shown where
  phase := s.phase
  tasks := s.tasks
  mainQueue := s.mainQueue
  hud := s.hud
  text := s.text
  label := s.label
  fromTitle := s.fromTitle
  toTitle := s.toTitle

/-- What the list screen shows: its side, the selected code, whether a dismissal has begun, and
what the cells of its rows read. -/
def cells (s : App) : Option (Bool × String × Bool × List (Option Currency)) :=
  s.list.map fun l => (l.isFromButton, l.selectedCurrencyCode, l.dismissing,
    l.currencies.map s.main.currency.get)

end App

/-- **The screens look the same.** -/
structure SameScreens (s t : App) : Prop where
  shown : s.shown = t.shown
  cells : s.cells = t.cells

/-! ### Applications that are alike -/

/-- Two accessors that find the same in the version of the main thread, and in the newest one. -/
def SameRow (main realm main' realm' : Realm) (k k' : ObjKey) : Prop :=
  main.currency.get k = main'.currency.get k' ∧ realm.currency.get k = realm'.currency.get k'

/-- Two list screens that are alike but for the keys of their arrays. -/
structure SameList (main realm main' realm' : Realm) (l l' : ListScreen) : Prop where
  isFromButton : l.isFromButton = l'.isFromButton
  selectedCurrencyCode : l.selectedCurrencyCode = l'.selectedCurrencyCode
  dismissing : l.dismissing = l'.dismissing
  currencies : List.Forall₂ (SameRow main realm main' realm') l.currencies l'.currencies

/-- When the main thread takes over the newest version, it finds in both versions what was found
in the newest one. -/
theorem SameList.advance {main realm main' realm' realm₁ realm₁' : Realm} {l l' : ListScreen}
    (h : SameList main realm main' realm' l l') (hpref : OnlyPreferences realm realm₁)
    (hpref' : OnlyPreferences realm' realm₁') : SameList realm₁ realm₁ realm₁' realm₁' l l' := by
  refine ⟨h.isFromButton, h.selectedCurrencyCode, h.dismissing, ?_⟩
  refine h.currencies.imp fun k k' hrow => ?_
  have hnewest : realm₁.currency.get k = realm₁'.currency.get k' := by
    rw [hpref.currency, hpref'.currency]
    exact hrow.2
  exact ⟨hnewest, hnewest⟩

/-- **The applications are alike**: the contents of both versions of the store are the same, and
what is shown; and rows with the same currency are still alive on both sides, or on neither. -/
structure Alike (s t : App) : Prop where
  realm : SameContents s.realm t.realm
  main : SameContents s.main t.main
  shown : s.shown = t.shown
  rows : ∀ k k' c, s.main.currency.get k = some c → t.main.currency.get k' = some c →
    s.realm.currency.get k = t.realm.currency.get k'
  list : Option.Rel (SameList s.main s.realm t.main t.realm) s.list t.list

/-- **The body of an event reads alike on both sides**: it decodes on neither, or on both with the
same contents. -/
def AppEvent.SameBody (P P' : Platform) : AppEvent → Prop
  | .currencyListCompletion (some data) _ =>
    Option.Rel CurrencyListResponse.SameContents (CurrencyListResponse.decode P data)
      (CurrencyListResponse.decode P' data)
  | .rateCompletion (some data) _ =>
    Option.Rel RateListResponse.SameContents (RateListResponse.decode P data)
      (RateListResponse.decode P' data)
  | _ => True

namespace Alike

theorem phase (h : Alike s t) : s.phase = t.phase := congrArg Shown.phase h.shown
theorem tasks (h : Alike s t) : s.tasks = t.tasks := congrArg Shown.tasks h.shown
theorem mainQueue (h : Alike s t) : s.mainQueue = t.mainQueue := congrArg Shown.mainQueue h.shown
theorem hud (h : Alike s t) : s.hud = t.hud := congrArg Shown.hud h.shown
theorem text (h : Alike s t) : s.text = t.text := congrArg Shown.text h.shown
theorem label (h : Alike s t) : s.label = t.label := congrArg Shown.label h.shown
theorem fromTitle (h : Alike s t) : s.fromTitle = t.fromTitle := congrArg Shown.fromTitle h.shown
theorem toTitle (h : Alike s t) : s.toTitle = t.toTitle := congrArg Shown.toTitle h.shown

/-- Applications that are alike look the same. -/
theorem sameScreens (h : Alike s t) : SameScreens s t := by
  refine ⟨h.shown, ?_⟩
  have hlist := h.list
  unfold App.cells
  generalize s.list = o at hlist
  generalize t.list = o' at hlist
  cases hlist with
  | none => rfl
  | some hl =>
    have hcells := List.forall₂_map_left_iff.mpr (List.forall₂_map_right_iff.mpr
      (hl.currencies.imp fun _ _ hrow => hrow.1))
    rw [List.forall₂_eq_eq_eq] at hcells
    rw [Option.map_some, Option.map_some, hl.isFromButton, hl.selectedCurrencyCode, hl.dismissing,
      hcells]

/-! ### The outputs of the interactor -/

/-- The presenter does the same on outputs that differ at most in the order of an array. -/
theorem output (h : Alike s t) {o o' : TopOutput} (ho : SameOutput o o') :
    Alike (s.output P o) (t.output (P.withJson j) o') := by
  have hshown := h.shown
  simp only [App.shown, Shown.mk.injEq] at hshown
  obtain ⟨hphase, htasks, hqueue, hhud, htext, hlabel, hfrom, hto⟩ := hshown
  rcases ho with _ | _ | _
  · refine ⟨h.realm, h.main, ?_, h.rows, h.list⟩
    simp [App.output, App.shown, *]
  · refine ⟨h.realm, h.main, ?_, h.rows, h.list⟩
    simp [App.output, App.shown, *]
  · rcases o with u | _ | _ | value | url
    all_goals
      refine ⟨h.realm, h.main, ?_, h.rows, h.list⟩
      simp [App.output, App.shown, App.setCurrencyTitle, App.showCalculationResult, *]

theorem outputs (h : Alike s t) {l l' : List TopOutput} (hl : List.Forall₂ SameOutput l l') :
    Alike (s.outputs P l) (t.outputs (P.withJson j) l') := by
  induction hl generalizing s t with
  | nil => exact h
  | cons ho _ ih => exact ih (h.output ho)

theorem outputs_refl (h : Alike s t) (l : List TopOutput) :
    Alike (s.outputs P l) (t.outputs (P.withJson j) l) :=
  h.outputs (List.forall₂_same.mpr fun output _ => SameOutput.refl output)

/-! ### The main thread takes over the newest version -/

/-- A write of the preferences, which are all that differs from the newest version. -/
theorem advance (h : Alike s t) {realm realm' : Realm} (hpref : OnlyPreferences s.realm realm)
    (hpref' : OnlyPreferences t.realm realm')
    (hobjects : realm.userPreferenceData.objects = realm'.userPreferenceData.objects) :
    Alike { s with realm, main := realm } { t with realm := realm', main := realm' } := by
  have hsame := h.realm.onlyPreferences hpref hpref' hobjects
  refine ⟨hsame, hsame, h.shown, fun k k' c hk hk' => hk.trans hk'.symm, ?_⟩
  have hlist := h.list
  show Option.Rel (SameList realm realm realm' realm') s.list t.list
  generalize s.list = o at hlist ⊢
  generalize t.list = o' at hlist ⊢
  rcases hlist with hl | _
  · exact .some (hl.advance hpref hpref')
  · exact .none

/-! ### What is done on the Top screen -/

theorem showIndicator (h : Alike s t) : Alike s.showIndicator t.showIndicator := by
  refine ⟨h.realm, h.main, ?_, h.rows, h.list⟩
  simp [App.shown, App.showIndicator, h.phase, h.tasks, h.mainQueue, h.text, h.label, h.fromTitle,
    h.toTitle]

theorem topViewWillAppear (h : Alike s t) :
    Alike (s.topViewWillAppear P) (t.topViewWillAppear (P.withJson j)) := by
  have htitles := h.outputs_refl (P := P) (j := j) (getUserPreferenceData s.main)
  rw [App.topViewWillAppear, App.topViewWillAppear, ← h.text, ← h.main.getUserPreferenceData]
  cases intOfText s.text with
  | none => exact htitles
  | some amount =>
    dsimp only
    rw [← h.main.calcurate]
    exact htitles.outputs_refl _

theorem finishViewDidLoad (h : Alike s t) (now : Date) :
    Alike (s.finishViewDidLoad P now) (t.finishViewDidLoad (P.withJson j) now) := by
  have hloaded : Alike { s with phase := .viewLoaded } { t with phase := .viewLoaded } := by
    refine ⟨h.realm, h.main, ?_, h.rows, h.list⟩
    simp [App.shown, h.tasks, h.mainQueue, h.hud, h.text, h.label, h.fromTitle, h.toTitle]
  exact hloaded.showIndicator.outputs (h.main.fetchRateData now)

theorem whenFromCurrencyTextFieldChanged (h : Alike s t) (text : String) :
    Alike (s.whenFromCurrencyTextFieldChanged P text)
      (t.whenFromCurrencyTextFieldChanged (P.withJson j) text) := by
  have htyped : Alike { s with text } { t with text } := by
    refine ⟨h.realm, h.main, ?_, h.rows, h.list⟩
    simp [App.shown, h.phase, h.tasks, h.mainQueue, h.hud, h.label, h.fromTitle, h.toTitle]
  rw [App.whenFromCurrencyTextFieldChanged, App.whenFromCurrencyTextFieldChanged,
    ← h.main.calcurate]
  exact htyped.outputs_refl _

theorem exchangeButtonTapped (h : Alike s t) :
    Alike (s.exchangeButtonTapped P) (t.exchangeButtonTapped (P.withJson j)) := by
  have hcleared : Alike s.setIinitailValue t.setIinitailValue := by
    refine ⟨h.realm, h.main, ?_, h.rows, h.list⟩
    simp [App.shown, App.setIinitailValue, h.phase, h.tasks, h.mainQueue, h.hud, h.fromTitle,
      h.toTitle]
  have hobjects : (exchangeCurrency s.realm).1.userPreferenceData.objects =
      (exchangeCurrency t.realm).1.userPreferenceData.objects := by
    rw [objects_exchange, objects_exchange, h.realm.userPreferenceData]
  have hwritten := hcleared.advance (onlyPreferences_exchange s.realm)
    (onlyPreferences_exchange t.realm) hobjects
  have hsaid : (exchangeCurrency s.realm).2 = (exchangeCurrency t.realm).2 := by
    rw [exchangeCurrency_snd, exchangeCurrency_snd]
    exact hwritten.realm.getUserPreferenceData
  show Alike (App.outputs P _ (exchangeCurrency s.realm).2)
    (App.outputs (P.withJson j) _ (exchangeCurrency t.realm).2)
  rw [← hsaid]
  exact hwritten.outputs_refl _

/-! ### What is done on the list screen -/

/-- A search finds the same on both sides. -/
theorem sameRows_currencyKeys (h : Alike s t) (w : String) :
    List.Forall₂ (SameRow s.main s.realm t.main t.realm) (App.currencyKeys P s.main w)
      (App.currencyKeys (P.withJson j) t.main w) := by
  have hfound : (getCurrencyListFromDB P s.main w).map Prod.snd =
      (getCurrencyListFromDB (P.withJson j) t.main w).map Prod.snd :=
    h.main.map_getCurrencyListFromDB P w
  rw [← List.forall₂_eq_eq_eq, List.forall₂_map_left_iff, List.forall₂_map_right_iff,
    List.forall₂_iff_zip] at hfound
  obtain ⟨hlength, hsame⟩ := hfound
  rw [App.currencyKeys, App.currencyKeys, List.forall₂_map_left_iff, List.forall₂_map_right_iff,
    List.forall₂_iff_zip]
  refine ⟨hlength, fun {r r'} hzip => ?_⟩
  obtain ⟨hr, hr'⟩ := List.of_mem_zip hzip
  have hget := ObjectTable.get_eq_some_iff.mpr (mem_getCurrencyListFromDB.mp hr).1
  have hget' := ObjectTable.get_eq_some_iff.mpr (mem_getCurrencyListFromDB.mp hr').1
  rw [← hsame hzip] at hget'
  exact ⟨hget.trans hget'.symm, h.rows r.1 r'.1 r.2 hget hget'⟩

theorem showList (h : Alike s t) {l l' : ListScreen} (hl : SameList s.main s.realm t.main t.realm l l') :
    Alike { s with list := some l } { t with list := some l' } :=
  ⟨h.realm, h.main, h.shown, h.rows, .some hl⟩

theorem showCurrencyListScreen (h : Alike s t) {code code' : String} (hcode : code = code')
    (isFromButton : Bool) : Alike (s.showCurrencyListScreen P code isFromButton)
      (t.showCurrencyListScreen (P.withJson j) code' isFromButton) :=
  h.showList ⟨rfl, hcode, rfl, h.sameRows_currencyKeys ""⟩

/-- The dismissal begins, and with it the appearance of the Top screen. -/
theorem beginDismiss (h : Alike s t) {l l' : ListScreen}
    (hl : SameList s.main s.realm t.main t.realm l l') :
    Alike { s.topViewWillAppear P with list := some { l with dismissing := true } }
      { t.topViewWillAppear (P.withJson j) with list := some { l' with dismissing := true } } := by
  have happeared := h.topViewWillAppear (P := P) (j := j)
  rw [App.topViewWillAppear_eq, App.topViewWillAppear_eq] at happeared ⊢
  exact happeared.showList ⟨hl.isFromButton, hl.selectedCurrencyCode, rfl, hl.currencies⟩

/-- A selection that succeeds on the one side succeeds on the other. -/
theorem exists_saveSelectedItem {realm realm' realm₁ : Realm} (h : SameContents realm realm')
    {k k' : ObjKey} (hget : realm.currency.get k = realm'.currency.get k') {isFromCurrency : Bool}
    (hsave : saveSelectedItem realm (.managed k) isFromCurrency = .ok realm₁) :
    ∃ realm₁', saveSelectedItem realm' (.managed k') isFromCurrency = .ok realm₁' ∧
      realm₁.userPreferenceData.objects = realm₁'.userPreferenceData.objects := by
  have hfirst : realm.userPreferenceData.first = realm'.userPreferenceData.first := by
    rw [ObjectTable.first, ObjectTable.first, h.userPreferenceData]
  cases hk : realm.currency.get k with
  | none =>
    cases hu : realm.userPreferenceData.first with
    | none =>
      simp only [saveSelectedItem, hu, Except.ok.injEq] at hsave
      refine ⟨realm', by simp only [saveSelectedItem, ← hfirst, hu], ?_⟩
      rw [← hsave]
      exact h.userPreferenceData
    | some u => simp [saveSelectedItem, hu, Realm.read, hk] at hsave
  | some c =>
    obtain ⟨_, hstep, hobjects⟩ := saveSelectedItem_of_read (Realm.read_of_get hk) isFromCurrency
    obtain ⟨realm₁', hstep', hobjects'⟩ :=
      saveSelectedItem_of_read (Realm.read_of_get (hget.symm.trans hk)) isFromCurrency
    obtain rfl := Except.ok.inj (hsave.symm.trans hstep)
    exact ⟨realm₁', hstep', by rw [hobjects, hobjects', h.userPreferenceData]⟩

/-- A tap on a row. -/
theorem didSelectRowAt (h : Alike s t) {l l' : ListScreen} {k k' : ObjKey}
    (hl : SameList s.main s.realm t.main t.realm l l')
    (hk : SameRow s.main s.realm t.main t.realm k k') (hselect : s.didSelectRowAt l k = .ok s') :
    ∃ t', t.didSelectRowAt l' k' = .ok t' ∧ Alike s' t' := by
  unfold App.didSelectRowAt at hselect
  split at hselect
  · cases hselect
  · rename_i c hread
    split at hselect
    · cases hselect
    · rename_i realm hsave
      cases hselect
      have hread' := Realm.read_of_get (hk.1.symm.trans (Realm.get_of_read hread))
      obtain ⟨realm', hsave', hobjects⟩ := exists_saveSelectedItem h.realm hk.2 hsave
      have hpref := onlyPreferences_select hsave
      have hpref' := onlyPreferences_select hsave'
      have hadvanced := h.advance hpref hpref' hobjects
      have hlist := hl.advance hpref hpref'
      refine ⟨{ t with
        realm := realm'
        main := realm'
        list := some { l' with selectedCurrencyCode := c.code } }, ?_,
        hadvanced.realm, hadvanced.main, h.shown, hadvanced.rows,
        .some ⟨hlist.isFromButton, rfl, hlist.dismissing, hlist.currencies⟩⟩
      rw [App.didSelectRowAt, hread', ← hl.isFromButton]
      simp only [hsave']

/-! ### The completions of the requests -/

/-- A request is over. -/
theorem erase (h : Alike s t) (url : URL) :
    Alike { s with tasks := s.tasks.erase url } { t with tasks := t.tasks.erase url } := by
  refine ⟨h.realm, h.main, ?_, h.rows, h.list⟩
  simp [App.shown, h.phase, h.tasks, h.mainQueue, h.hud, h.text, h.label, h.fromTitle, h.toTitle]

/-- **A save of currencies leaves no accessor alive**, on either side. -/
theorem currenciesSaved (hs : (App.machine P).Reaches es s)
    (ht : (App.machine (P.withJson j)).Reaches ds t) (h : Alike s t)
    {response response' : CurrencyListResponse} {now : Date} {realm realm' : Realm}
    (hresponse : response.SameContents response')
    (hsaved : CurrenciesSaved s.realm response now realm)
    (hsaved' : CurrenciesSaved t.realm response' now realm') :
    Alike { s with realm } { t with realm := realm' } := by
  have hheld := rowsHeld_of_reaches hs
  have hheld' := rowsHeld_of_reaches ht
  refine ⟨h.realm.currenciesSaved hresponse hsaved hsaved', h.main, h.shown,
    fun k k' c hk hk' => ?_, ?_⟩
  · show realm.currency.get k = realm'.currency.get k'
    rw [hsaved.currency, hsaved'.currency,
      hheld.main.get_replace _ (ObjectTable.exists_get_iff.mp ⟨c, hk⟩),
      hheld'.main.get_replace _ (ObjectTable.exists_get_iff.mp ⟨c, hk'⟩)]
  · have hlist := h.list
    have hdead : ∀ l, s.list = some l → ∀ k ∈ l.currencies, realm.currency.get k = none := by
      intro l hl k hk
      rw [hsaved.currency]
      exact (hheld.list l hl).1.get_replace _ hk
    have hdead' : ∀ l, t.list = some l → ∀ k ∈ l.currencies, realm'.currency.get k = none := by
      intro l hl k hk
      rw [hsaved'.currency]
      exact (hheld'.list l hl).1.get_replace _ hk
    show Option.Rel (SameList s.main realm t.main realm') s.list t.list
    generalize s.list = o at hlist hdead ⊢
    generalize t.list = o' at hlist hdead' ⊢
    rcases hlist with hl | _
    · refine .some ⟨hl.isFromButton, hl.selectedCurrencyCode, hl.dismissing, ?_⟩
      obtain ⟨hlength, hrows⟩ := List.forall₂_iff_zip.mp hl.currencies
      refine List.forall₂_iff_zip.mpr ⟨hlength, fun {k k'} hzip => ⟨(hrows hzip).1, ?_⟩⟩
      obtain ⟨hk, hk'⟩ := List.of_mem_zip hzip
      rw [hdead _ rfl k hk, hdead' _ rfl k' hk']
    · exact .none

/-- A save of rates leaves all of them alone. -/
theorem ratesSaved (h : Alike s t) {response response' : RateListResponse} {now : Date}
    {realm realm' : Realm} (hresponse : response.SameContents response')
    (hsaved : RatesSaved s.realm response now realm)
    (hsaved' : RatesSaved t.realm response' now realm') :
    Alike { s with realm } { t with realm := realm' } := by
  refine ⟨h.realm.ratesSaved hresponse hsaved hsaved', h.main, h.shown, fun k k' c hk hk' => ?_, ?_⟩
  · show realm.currency.get k = realm'.currency.get k'
    rw [hsaved.currency, hsaved'.currency]
    exact h.rows k k' c hk hk'
  · have hlist := h.list
    show Option.Rel (SameList s.main realm t.main realm') s.list t.list
    generalize s.list = o at hlist ⊢
    generalize t.list = o' at hlist ⊢
    rcases hlist with hl | _
    · refine .some ⟨hl.isFromButton, hl.selectedCurrencyCode, hl.dismissing, ?_⟩
      refine hl.currencies.imp fun k k' hrow => ⟨hrow.1, ?_⟩
      rw [hsaved.currency, hsaved'.currency]
      exact hrow.2
    · exact .none


/-- The completion of the currency list request, on a body that decodes. -/
theorem currencyListCompletion (hs : (App.machine P).Reaches es s)
    (ht : (App.machine (P.withJson j)).Reaches ds t) (h : Alike s t) {data : Data} {now : Date}
    (hbody : (AppEvent.currencyListCompletion (some data) now).SameBody P (P.withJson j))
    (hcompleted : s.completed P currencyListURL
      (ExchangeRate.currencyListCompletion P (some data) now s.realm) = .ok s') :
    ∃ t', t.completed (P.withJson j) currencyListURL
      (ExchangeRate.currencyListCompletion (P.withJson j) (some data) now t.realm) = .ok t' ∧
        Alike s' t' := by
  rcases currencyListCompletion_cases P data now s.realm with ⟨-, hc⟩ |
    ⟨response, realm, hdec, hc, hsaved⟩
  · rw [hc] at hcompleted
    cases hcompleted
  · rw [hc] at hcompleted
    obtain rfl := Except.ok.inj hcompleted
    rw [AppEvent.SameBody, hdec] at hbody
    rcases currencyListCompletion_cases (P.withJson j) data now t.realm with ⟨hdec', -⟩ |
      ⟨response', realm', hdec', hc', hsaved'⟩
    · rw [hdec'] at hbody
      cases hbody
    · rw [hdec'] at hbody
      cases hbody with
      | some hresponse =>
        rw [hc']
        exact ⟨_, rfl, ((h.currenciesSaved hs ht hresponse hsaved hsaved').erase
          currencyListURL).outputs (.cons (.gotCurrencyList hresponse.toCurrencies) .nil)⟩

/-- The completion of the rate request, on a body that decodes. -/
theorem rateCompletion (h : Alike s t) {data : Data} {now : Date}
    (hbody : (AppEvent.rateCompletion (some data) now).SameBody P (P.withJson j))
    (hcompleted : s.completed P rateURL
      (ExchangeRate.rateCompletion P (some data) now s.realm) = .ok s') :
    ∃ t', t.completed (P.withJson j) rateURL
      (ExchangeRate.rateCompletion (P.withJson j) (some data) now t.realm) = .ok t' ∧
        Alike s' t' := by
  rcases rateCompletion_cases P data now s.realm with ⟨-, hc⟩ | ⟨response, realm, hdec, hc, hsaved⟩
  · rw [hc] at hcompleted
    cases hcompleted
  · rw [hc] at hcompleted
    obtain rfl := Except.ok.inj hcompleted
    rw [AppEvent.SameBody, hdec] at hbody
    rcases rateCompletion_cases (P.withJson j) data now t.realm with ⟨hdec', -⟩ |
      ⟨response', realm', hdec', hc', hsaved'⟩
    · rw [hdec'] at hbody
      cases hbody
    · rw [hdec'] at hbody
      cases hbody with
      | some hresponse =>
        rw [hc']
        exact ⟨_, rfl, ((h.ratesSaved hresponse hsaved hsaved').erase rateURL).outputs_refl _⟩

end Alike

/-! ### One event -/

/-- The application starts out alike over stores that are. -/
theorem alike_launch (h : SameContents (setDefaultUserPreferenceData s.realm)
    (setDefaultUserPreferenceData t.realm)) (now : Date) :
    Alike (s.launch P now) (t.launch (P.withJson j) now) := by
  have hloading : Alike
      (App.setIinitailValue { App.installed with
        realm := setDefaultUserPreferenceData s.realm
        main := setDefaultUserPreferenceData s.realm
        phase := .currencyListFetched })
      (App.setIinitailValue { App.installed with
        realm := setDefaultUserPreferenceData t.realm
        main := setDefaultUserPreferenceData t.realm
        phase := .currencyListFetched }) :=
    ⟨h, h, rfl, fun _ _ _ hk hk' => hk.trans hk'.symm, .none⟩
  have htitles := hloading.outputs_refl (P := P) (j := j)
    (getUserPreferenceData (setDefaultUserPreferenceData s.realm))
  exact htitles.showIndicator.outputs (h.fetchCurrencyListData now)

namespace Alike

theorem loaded (h : Alike s t) (hloaded : s.Loaded) : t.Loaded := by
  rwa [App.Loaded, App.shows, ← h.phase]

theorem topInFront (h : Alike s t) (hfront : s.TopInFront) : t.TopInFront := by
  refine ⟨h.phase ▸ hfront.1, ?_⟩
  have hlist := h.list
  rw [hfront.2] at hlist
  generalize t.list = o' at hlist
  cases hlist
  rfl

theorem exists_list (h : Alike s t) {l : ListScreen} (hl : s.list = some l) :
    ∃ l', t.list = some l' ∧ SameList s.main s.realm t.main t.realm l l' := by
  have hlist := h.list
  rw [hl] at hlist
  generalize t.list = o' at hlist
  rcases hlist with hl | _
  exact ⟨_, rfl, hl⟩

theorem exists_row {main realm main' realm' : Realm} {l l' : ListScreen}
    (h : SameList main realm main' realm' l l') {row : ℕ} {k : ObjKey}
    (hk : l.currencies[row]? = some k) :
    ∃ k', l'.currencies[row]? = some k' ∧ SameRow main realm main' realm' k k' := by
  obtain ⟨hlength, hrows⟩ := List.forall₂_iff_get.mp h.currencies
  obtain ⟨hlt, rfl⟩ := List.getElem?_eq_some_iff.mp hk
  exact ⟨_, List.getElem?_eq_getElem (hlength ▸ hlt), hrows row hlt (hlength ▸ hlt)⟩

/-- An event behind a guard that holds on both sides. -/
theorem exists_of_guard {c c' : Prop} [Decidable c] [Decidable c'] (hc : c → c')
    (halike : Alike s₁ t₁) (h : (if c then some (.ok s₁) else none) = some (.ok s' : Except Trap App)) :
    ∃ t', (if c' then some (.ok t₁) else none) = some (.ok t' : Except Trap App) ∧ Alike s' t' := by
  obtain ⟨hcond, rfl⟩ := App.of_guard h
  exact ⟨t₁, if_pos (hc hcond), halike⟩

end Alike

/-- **An event that can happen on the one side can happen on the other, and keeps both alike.** -/
theorem Alike.step (hs : (App.machine P).Reaches es s)
    (ht : (App.machine (P.withJson j)).Reaches ds t) (h : Alike s t)
    (hbody : e.SameBody P (P.withJson j)) (hstep : s.step P e = some s') :
    ∃ t', t.step (P.withJson j) e = some t' ∧ Alike s' t' := by
  have hlast := hstep
  simp only [App.step_eq_some_iff] at hstep ⊢
  cases e with
  | launch now =>
    obtain rfl := Except.ok.inj (Option.some.inj hstep)
    exact ⟨_, rfl, alike_launch (h.realm.onlyPreferences (onlyPreferences_setDefault _)
      (onlyPreferences_setDefault _) rfl) now⟩
  | finishViewDidLoad now =>
    exact exists_of_guard (fun hphase => h.phase ▸ hphase) (h.finishViewDidLoad now) hstep
  | viewWillAppear =>
    refine exists_of_guard (fun hphase => h.phase ▸ hphase) ?_ hstep
    have happeared := h.topViewWillAppear (P := P) (j := j)
    refine ⟨happeared.realm, happeared.main, ?_, happeared.rows, happeared.list⟩
    simp [App.shown, happeared.tasks, happeared.mainQueue, happeared.hud, happeared.text,
      happeared.label, happeared.fromTitle, happeared.toTitle]
  | runMainBlock =>
    refine exists_of_guard (fun hready => ⟨h.loaded hready.1, h.mainQueue ▸ hready.2⟩) ?_ hstep
    refine ⟨h.realm, h.main, ?_, h.rows, h.list⟩
    simp [App.shown, App.hideIndicator, h.phase, h.tasks, h.mainQueue, h.text, h.label,
      h.fromTitle, h.toTitle]
  | currencyListCompletion data now =>
    rw [App.attempt, Option.ite_none_right_eq_some, Option.some.injEq] at hstep
    obtain ⟨htask, hcompleted⟩ := hstep
    have htask' : currencyListURL ∈ t.tasks := h.tasks ▸ htask
    rw [App.attempt, if_pos htask']
    rcases data with _ | data
    · cases hcompleted
      exact ⟨_, rfl, h.erase currencyListURL⟩
    · obtain ⟨t', ht', halike⟩ := h.currencyListCompletion hs ht hbody hcompleted
      exact ⟨t', congrArg some ht', halike⟩
  | rateCompletion data now =>
    rw [App.attempt, Option.ite_none_right_eq_some, Option.some.injEq] at hstep
    obtain ⟨htask, hcompleted⟩ := hstep
    have htask' : rateURL ∈ t.tasks := h.tasks ▸ htask
    rw [App.attempt, if_pos htask']
    rcases data with _ | data
    · cases hcompleted
      exact ⟨_, rfl, h.erase rateURL⟩
    · obtain ⟨t', ht', halike⟩ := h.rateCompletion hbody hcompleted
      exact ⟨t', congrArg some ht', halike⟩
  | refresh =>
    exact exists_of_guard h.loaded (h.advance .refl .refl h.realm.userPreferenceData) hstep
  | editText text =>
    exact exists_of_guard h.topInFront (h.whenFromCurrencyTextFieldChanged text) hstep
  | tapExchange => exact exists_of_guard h.topInFront h.exchangeButtonTapped hstep
  | tapCurrencyButton isFromButton =>
    refine exists_of_guard h.topInFront ?_ hstep
    cases isFromButton with
    | true => exact h.showCurrencyListScreen h.fromTitle true
    | false => exact h.showCurrencyListScreen h.toTitle false
  | search searchWord =>
    obtain ⟨l, hl, heq⟩ := Option.map_eq_some_iff.mp hstep
    obtain rfl := Except.ok.inj heq
    obtain ⟨l', hl', hsame⟩ := h.exists_list hl
    refine ⟨t.searchTextDidChange (P.withJson j) l' searchWord, ?_, h.showList
      ⟨hsame.isFromButton, hsame.selectedCurrencyCode, hsame.dismissing,
        h.sameRows_currencyKeys searchWord⟩⟩
    rw [App.attempt, hl', Option.map_some]
  | cellForRowAt row =>
    obtain ⟨l, hl, hrow⟩ := Option.bind_eq_some_iff.mp hstep
    obtain ⟨k, hk, hcell⟩ := Option.map_eq_some_iff.mp hrow
    obtain ⟨l', hl', hsame⟩ := h.exists_list hl
    obtain ⟨k', hk', hfound, -⟩ := exists_row hsame hk
    unfold App.cellForRowAt at hcell
    split at hcell
    · cases hcell
    · rename_i c hread
      cases hcell
      have hread' := Realm.read_of_get (hfound.symm.trans (Realm.get_of_read hread))
      refine ⟨t, ?_, h⟩
      simp only [App.attempt, hl', Option.bind_some, hk', Option.map_some, App.cellForRowAt, hread']
  | tapRow row =>
    obtain ⟨l, hl, hnot, hrow⟩ := App.of_shown hstep
    obtain ⟨k, hk, hselect⟩ := Option.map_eq_some_iff.mp hrow
    obtain ⟨l', hl', hsame⟩ := h.exists_list hl
    obtain ⟨k', hk', hread⟩ := exists_row hsame hk
    obtain ⟨t', ht', halike⟩ := h.didSelectRowAt hsame hread hselect
    refine ⟨t', ?_, halike⟩
    rw [App.attempt, hl', Option.bind_some, ← hsame.dismissing, hnot, if_neg Bool.false_ne_true, hk',
      Option.map_some, ht']
  | beginDismiss =>
    obtain ⟨l, hl, hnot, heq⟩ := App.of_shown hstep
    obtain rfl := Except.ok.inj (Option.some.inj heq)
    obtain ⟨l', hl', hsame⟩ := h.exists_list hl
    refine ⟨_, ?_, h.beginDismiss (P := P) (j := j) hsame⟩
    rw [App.attempt, hl', Option.bind_some, ← hsame.dismissing, hnot, if_neg Bool.false_ne_true]
  | cancelDismiss =>
    obtain ⟨l, hl, hdismissing, rfl⟩ := App.of_dismissing hstep
    obtain ⟨l', hl', hsame⟩ := h.exists_list hl
    have hshown : SameList s.main s.realm t.main t.realm { l with dismissing := false }
        { l' with dismissing := false } :=
      ⟨hsame.isFromButton, hsame.selectedCurrencyCode, rfl, hsame.currencies⟩
    refine ⟨_, ?_, h.showList hshown⟩
    rw [App.attempt, hl', Option.bind_some, ← hsame.dismissing, if_pos hdismissing]
  | finishDismiss =>
    obtain ⟨l, hl, hdismissing, rfl⟩ := App.of_dismissing hstep
    obtain ⟨l', hl', hsame⟩ := h.exists_list hl
    refine ⟨{ t with list := none }, ?_, h.realm, h.main, h.shown, h.rows, .none⟩
    rw [App.attempt, hl', Option.bind_some, ← hsame.dismissing, if_pos hdismissing]

/-! ### The order of enumeration is never seen -/

theorem AppEvent.SameBody.refl (P : Platform) (e : AppEvent) : e.SameBody P P := by
  unfold AppEvent.SameBody
  split
  · cases CurrencyListResponse.decode P _ with
    | none => exact .none
    | some response => exact .some ⟨rfl, .refl _⟩
  · cases RateListResponse.decode P _ with
    | none => exact .none
    | some response => exact .some ⟨rfl, rfl, rfl, .refl _⟩
  · trivial

theorem AppEvent.SameBody.symm {P' : Platform} (h : e.SameBody P P') : e.SameBody P' P := by
  unfold AppEvent.SameBody at h ⊢
  split at h
  · generalize CurrencyListResponse.decode P _ = o at h
    generalize CurrencyListResponse.decode P' _ = o' at h
    rcases h with hresponse | _
    · exact .some ⟨hresponse.success.symm, hresponse.currencies.symm⟩
    · exact .none
  · generalize RateListResponse.decode P _ = o at h
    generalize RateListResponse.decode P' _ = o' at h
    rcases h with hresponse | _
    · exact .some ⟨hresponse.success.symm, hresponse.timestamp.symm, hresponse.source.symm,
        hresponse.quotes.symm⟩
    · exact .none
  · trivial

/-- The application before its first launch is alike on both sides. -/
theorem alike_installed : Alike App.installed App.installed :=
  ⟨.refl _, .refl _, rfl, fun _ _ _ hk hk' => hk.trans hk'.symm, .none⟩

theorem exists_alike_withJson (j : Data → Option Json)
    (hbodies : ∀ e ∈ es, e.SameBody P (P.withJson j)) (h : (App.machine P).Reaches es s) :
    ∃ t, (App.machine (P.withJson j)).Reaches es t ∧ Alike s t :=
  StepMachine.exec_lockstep (M := App.machine P) (N := App.machine (P.withJson j))
    (fun _ _ _ _ e _ hs ht halike he hstep => halike.step hs ht (hbodies e he) hstep)
    (StepMachine.reaches_nil.mpr rfl) (StepMachine.reaches_nil.mpr rfl) alike_installed h

/-- **The order in which dictionaries are enumerated is never seen**: the same events are a run in
both orders or in neither, and the screens look the same. -/
theorem sameScreens_withJson (P : Platform) (j : Data → Option Json)
    (hbodies : ∀ e ∈ es, e.SameBody P (P.withJson j)) :
    ((∃ s, (App.machine P).Reaches es s) ↔ ∃ t, (App.machine (P.withJson j)).Reaches es t) ∧
    ∀ s t, (App.machine P).Reaches es s → (App.machine (P.withJson j)).Reaches es t →
      SameScreens s t := by
  refine ⟨⟨fun ⟨s, hs⟩ => ?_, fun ⟨t, ht⟩ => ?_⟩, fun s t hs ht => ?_⟩
  · obtain ⟨t, ht, -⟩ := exists_alike_withJson j hbodies hs
    exact ⟨t, ht⟩
  · -- the first reader of bodies is another reader for the second platform
    obtain ⟨s, hs, -⟩ := exists_alike_withJson (P := P.withJson j) P.json
      (fun e he => (hbodies e he).symm) ht
    exact ⟨s, hs⟩
  · obtain ⟨t', ht', halike⟩ := exists_alike_withJson j hbodies hs
    rw [ht.unique ht']
    exact halike.sameScreens

/-- Both lists are saved, and a currency is selected. -/
def selectedAfterwards : List AppEvent :=
  App.firstLaunch ++ [.refresh, .tapCurrencyButton true, .search "Afghan", .tapRow 0]

/-- The row that is selected has another key when the dictionary is enumerated the other way
round. -/
theorem sameScreens_selectedAfterwards : ∃ s t,
    (App.machine Platform.sample).Reaches selectedAfterwards s ∧
      (App.machine (Platform.sample.withJson reversedJson)).Reaches selectedAfterwards t ∧
      SameScreens s t ∧ s.list.map ListScreen.currencies = some [1] ∧
      t.list.map ListScreen.currencies = some [0] := by
  have hbodies : ∀ e ∈ selectedAfterwards,
      e.SameBody Platform.sample (Platform.sample.withJson reversedJson) := by
    have hcurrencies : (AppEvent.currencyListCompletion currencyListBody 1).SameBody
        Platform.sample (Platform.sample.withJson reversedJson) := by
      show Option.Rel _ (CurrencyListResponse.decode _ currencyListPayload.data)
        (CurrencyListResponse.decode _ currencyListPayload'.data)
      rw [currencyListPayload.decodes, currencyListPayload'.decodes]
      exact .some ⟨rfl, List.Perm.swap ..⟩
    have hrates : (AppEvent.rateCompletion rateBody 2).SameBody
        Platform.sample (Platform.sample.withJson reversedJson) := by
      show Option.Rel _ (RateListResponse.decode _ rateListPayload.data)
        (RateListResponse.decode _ rateListPayload'.data)
      rw [rateListPayload.decodes, rateListPayload'.decodes]
      exact .some ⟨rfl, rfl, rfl, List.Perm.swap ..⟩
    simpa [selectedAfterwards, App.firstLaunch, AppEvent.SameBody] using ⟨hcurrencies, hrates⟩
  obtain ⟨hruns, hsame⟩ := sameScreens_withJson Platform.sample reversedJson hbodies
  have hrun : ((App.machine Platform.sample).exec App.installed selectedAfterwards).map
      (fun s => s.list.map ListScreen.currencies) = some (some [1]) := by decide +kernel
  have hrun' : ((App.machine (Platform.sample.withJson reversedJson)).exec App.installed
      selectedAfterwards).map (fun s => s.list.map ListScreen.currencies) = some (some [0]) := by
    decide +kernel
  obtain ⟨s, hs, hkeys⟩ := Option.map_eq_some_iff.mp hrun
  obtain ⟨t, ht, hkeys'⟩ := Option.map_eq_some_iff.mp hrun'
  exact ⟨s, t, hs, ht, hsame s t hs ht, hkeys, hkeys'⟩

end ExchangeRate
