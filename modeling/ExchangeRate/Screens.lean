import ExchangeRate.Conversion
import ExchangeRate.Session

/-!
# The two screens

The views and presenters of the Top screen and of the currency list screen, as
functions on the state of the running application. The store appears twice in it:
the newest committed version, and the version the main thread reads, which may lag
behind the commits of other threads until the main thread refreshes or opens a write
block of its own.

What the interactor calls on its output is handled at once, on the thread of the
call; the two handlers that hide the indicator only enqueue a block for the main
queue.
-/

namespace ExchangeRate

/-- A block enqueued on the main queue by the presenter. Both kinds hide the indicator. -/
inductive MainBlock where
  | gotCurrencyList
  | gotRateList
  deriving DecidableEq

/-- How far the launch of the current process has come. The currency list is fetched in the
middle of `viewDidLoad`. -/
inductive Phase where
  | notLaunched
  | currencyListFetched
  | viewLoaded
  | appeared
  deriving DecidableEq

/-- The currency list screen: its side, the row accessors it shows, the code it marks, and
whether a dismissal has begun. -/
structure ListScreen where
  isFromButton : Bool
  currencies : List ObjKey
  selectedCurrencyCode : String
  dismissing : Bool
  deriving DecidableEq

/-- The application: the store, the requests in flight, the main queue, the shared indicator,
what the Top screen shows, and the list screen when it is open. -/
structure App where
  /-- The newest committed version of the store. -/
  realm : Realm
  /-- The version the main thread reads. -/
  main : Realm
  phase : Phase
  tasks : List URL
  mainQueue : List MainBlock
  hud : Bool
  text : String
  label : String
  fromTitle : String
  toTitle : String
  list : Option ListScreen

/-- The code stored for one side of the conversion. -/
def Realm.storedCode (realm : Realm) (isFromCurrency : Bool) : Option String :=
  realm.userPreferenceData.first.map fun userPreference =>
    if isFromCurrency then userPreference.fromCurrency else userPreference.toCurrency

namespace App

/-- The application before its first launch, with what the storyboard shows. -/
def installed : App where
  realm := .empty
  main := .empty
  phase := .notLaunched
  tasks := []
  mainQueue := []
  hud := false
  text := ""
  label := "1000,000"
  fromTitle := "Button"
  toTitle := "Button"
  list := none

/-! ### The view of the Top screen -/

def showIndicator (s : App) : App := { s with hud := true }

def hideIndicator (s : App) : App := { s with hud := false }

def setIinitailValue (s : App) : App := { s with text := "", label := "0" }

def showCalculationResult (P : Platform) (s : App) (value : ℚ) : App :=
  { s with label := P.formatWithComma value }

def setCurrencyTitle (s : App) (title : String) (isFromButton : Bool) : App :=
  if isFromButton then { s with fromTitle := title } else { s with toTitle := title }

/-- The title of a button. -/
def title (s : App) (isFromButton : Bool) : String :=
  if isFromButton then s.fromTitle else s.toTitle

/-! ### The presenter of the Top screen -/

/-- The presenter as the output of the interactor. A request that is started is in flight from
then on. -/
def output (P : Platform) (s : App) : TopOutput → App
  | .gotUserPreferenceData userPreference =>
    (s.setCurrencyTitle userPreference.fromCurrency true).setCurrencyTitle
      userPreference.toCurrency false
  | .gotCurrencyList _ => { s with mainQueue := s.mainQueue ++ [.gotCurrencyList] }
  | .gotRateList _ => { s with mainQueue := s.mainQueue ++ [.gotRateList] }
  | .gotCaluculateResult value => s.showCalculationResult P value
  | .dataTask url => { s with tasks := s.tasks ++ [url] }

/-- The calls of one interactor function, in order. -/
def outputs (P : Platform) (s : App) (l : List TopOutput) : App := l.foldl (output P) s

/-- `viewDidLoad` up to and with `fetchCurrencyListDataFromAPI`, in a new process: all that is
left of the one before is the store. -/
def launch (P : Platform) (s : App) (now : Date) : App :=
  let realm := setDefaultUserPreferenceData s.realm
  let loading : App := { installed with realm, main := realm, phase := .currencyListFetched }
  ((loading.setIinitailValue.outputs P (getUserPreferenceData realm)).showIndicator).outputs P
    (ExchangeRate.fetchCurrencyListData realm now)

/-- The rest of `viewDidLoad`: `fetchRateDataFromAPI`. -/
def finishViewDidLoad (P : Platform) (s : App) (now : Date) : App :=
  { s with phase := .viewLoaded }.showIndicator.outputs P (ExchangeRate.fetchRateData s.main now)

/-- `viewWillAppear` of the Top screen. The amount is handed on when the text is a number, and
only then calculated with. -/
def topViewWillAppear (P : Platform) (s : App) : App :=
  let s' := s.outputs P (getUserPreferenceData s.main)
  match intOfText s.text with
  | some amount => s'.outputs P (calcurate s.main amount)
  | none => s'

/-- `whenFromCurrencyTextFieldChanged`; a text that is no number counts as zero. -/
def whenFromCurrencyTextFieldChanged (P : Platform) (s : App) (text : String) : App :=
  { s with text }.outputs P (calcurate s.main ((intOfText text).getD 0))

/-- `exchangeButtonTapped`. The block it writes begins with the newest version of the store;
the preferences are the same in both versions, since only the main thread writes them. -/
def exchangeButtonTapped (P : Platform) (s : App) : App :=
  let (realm, l) := exchangeCurrency s.realm
  { s.setIinitailValue with realm, main := realm }.outputs P l

/-! ### The currency list screen -/

/-- `getCurrencyListFromDB` and `showCurrencyList`: the rows whose accessors the view keeps. -/
def currencyKeys (P : Platform) (realm : Realm) (searchWord : String) : List ObjKey :=
  (getCurrencyListFromDB P realm searchWord).map Prod.fst

/-- `showCurrencyListScreen`, and `viewDidLoad` of the screen it presents. -/
def showCurrencyListScreen (P : Platform) (s : App) (currencyCode : String) (isFromButton : Bool) :
    App :=
  { s with
    list := some
      { isFromButton
        currencies := currencyKeys P s.main ""
        selectedCurrencyCode := currencyCode
        dismissing := false } }

def fromCurrencyButtonTapped (P : Platform) (s : App) : App :=
  s.showCurrencyListScreen P s.fromTitle true

def toCurrencyButtonTapped (P : Platform) (s : App) : App :=
  s.showCurrencyListScreen P s.toTitle false

/-- `searchBar(_:textDidChange:)`. -/
def searchTextDidChange (P : Platform) (s : App) (l : ListScreen) (searchWord : String) : App :=
  { s with list := some { l with currencies := currencyKeys P s.main searchWord } }

/-- `tableView(_:cellForRowAt:)` on the row of a key: what the cell shows is read through the
accessor. -/
def cellForRowAt (s : App) (k : ObjKey) : Except Trap App :=
  match s.main.read (.managed k) with
  | .error trap => .error trap
  | .ok _ => .ok s

/-- `tableView(_:didSelectRowAt:)` on the visible row of a key, and `didSelectCurrency`. The
code is read in the version of the main thread first, and again in the write block, which
begins with the newest version. -/
def didSelectRowAt (s : App) (l : ListScreen) (k : ObjKey) : Except Trap App :=
  match s.main.read (.managed k) with
  | .error trap => .error trap
  | .ok selectedItem =>
    match saveSelectedItem s.realm (.managed k) l.isFromButton with
    | .error trap => .error trap
    | .ok realm =>
      .ok { s with
        realm
        main := realm
        list := some { l with selectedCurrencyCode := selectedItem.code } }

/-! ### What the outputs change -/

variable {P : Platform} (s : App)

/-- The preferences of a store change the titles to the codes stored there. -/
theorem outputs_getUserPreferenceData (realm : Realm) :
    s.outputs P (getUserPreferenceData realm) =
      { s with
        fromTitle := (realm.storedCode true).getD s.fromTitle
        toTitle := (realm.storedCode false).getD s.toTitle } := by
  unfold getUserPreferenceData Realm.storedCode
  cases realm.userPreferenceData.first <;> rfl

/-- The label after a calculation that may have had no result. -/
def labelAfter (P : Platform) (label : String) (result : List TopOutput) : String :=
  match result with
  | [.gotCaluculateResult value] => P.formatWithComma value
  | _ => label

/-- A calculation changes the label and nothing else. -/
theorem outputs_calcurate (realm : Realm) (n : ℤ) :
    s.outputs P (calcurate realm n) =
      { s with label := labelAfter P s.label (calcurate realm n) } := by
  rcases calcurate_cases realm n with h | h
  · rw [h]
    rfl
  · rw [h]
    rfl

/-- A fetch starts one request or enqueues one block, and changes nothing else. -/
theorem outputs_fetchData {α : Type} {record : Option α} {savedAt : α → Option Date}
    {deliver : α → TopOutput} {path : String} {url : URL} {now : Date} {b : MainBlock}
    (hurl : URL.ofString path = some url)
    (hdeliver : ∀ (t : App) (d : α), t.output P (deliver d) =
      { t with mainQueue := t.mainQueue ++ [b] }) :
    s.outputs P (fetchData record savedAt deliver path now) =
        { s with tasks := s.tasks ++ [url] } ∨
      s.outputs P (fetchData record savedAt deliver path now) =
        { s with mainQueue := s.mainQueue ++ [b] } := by
  rcases record with _ | d
  · exact Or.inl (by rw [fetchData_none hurl]; rfl)
  · rcases ht : savedAt d with _ | t
    · exact Or.inl (by simp only [fetchData, ht, hurl]; rfl)
    · rw [fetchData_some hurl ht]
      by_cases hage : now - t < 1800
      · rw [if_pos hage]
        exact Or.inr (hdeliver s d)
      · rw [if_neg hage]
        exact Or.inl rfl

theorem outputs_fetchCurrencyListData (realm : Realm) (now : Date) :
    s.outputs P (ExchangeRate.fetchCurrencyListData realm now) =
        { s with tasks := s.tasks ++ [currencyListURL] } ∨
      s.outputs P (ExchangeRate.fetchCurrencyListData realm now) =
        { s with mainQueue := s.mainQueue ++ [.gotCurrencyList] } :=
  s.outputs_fetchData ofString_getCurrencyListAPIPath fun _ _ => rfl

theorem outputs_fetchRateData (realm : Realm) (now : Date) :
    s.outputs P (ExchangeRate.fetchRateData realm now) =
        { s with tasks := s.tasks ++ [rateURL] } ∨
      s.outputs P (ExchangeRate.fetchRateData realm now) =
        { s with mainQueue := s.mainQueue ++ [.gotRateList] } :=
  s.outputs_fetchData ofString_getRateAPIPath fun _ _ => rfl

/-- The label after `viewWillAppear`. -/
def labelOnAppear (P : Platform) (s : App) : String :=
  (intOfText s.text).elim s.label fun amount => labelAfter P s.label (calcurate s.main amount)

/-- `viewWillAppear` changes the titles and the label. -/
theorem topViewWillAppear_eq :
    s.topViewWillAppear P =
      { s with
        fromTitle := (s.main.storedCode true).getD s.fromTitle
        toTitle := (s.main.storedCode false).getD s.toTitle
        label := s.labelOnAppear P } := by
  unfold topViewWillAppear labelOnAppear
  rw [outputs_getUserPreferenceData]
  cases intOfText s.text with
  | none => rfl
  | some amount => exact outputs_calcurate _ _ _

/-- An exchange clears the amount and the label, and changes the titles to what it stored. -/
theorem exchangeButtonTapped_eq :
    s.exchangeButtonTapped P =
      { s with
        realm := (exchangeCurrency s.realm).1
        main := (exchangeCurrency s.realm).1
        text := ""
        label := "0"
        fromTitle := ((exchangeCurrency s.realm).1.storedCode true).getD s.fromTitle
        toTitle := ((exchangeCurrency s.realm).1.storedCode false).getD s.toTitle } := by
  have hsaid : (exchangeCurrency s.realm).2 =
      getUserPreferenceData (exchangeCurrency s.realm).1 := by
    unfold exchangeCurrency
    cases hu : s.realm.userPreferenceData.first with
    | none => simp only [getUserPreferenceData, hu]
    | some u => rfl
  show outputs P _ (exchangeCurrency s.realm).2 = _
  rw [hsaid, outputs_getUserPreferenceData]
  rfl

end App

end ExchangeRate
