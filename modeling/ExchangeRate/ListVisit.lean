import ExchangeRate.CurrencyTable
import ExchangeRate.Titles

/-!
# A visit of the currency list

The application together with the table of the list screen: the array of accessors and
the selected code that the application keeps, and the cells that the user sees. What
the cells show was read when they were configured, and has to be compared with the
store of later: a row that is still alive has not changed
(`ExchangeRate.ListVisit.ReadsBack`).

So the list is right all along a run of the application, whatever is fetched meanwhile:
every visible cell shows a currency of the list, and the checkmark is at the currency
that is stored for the side of the list (`ExchangeRate.ListVisit.list_shows_stored`).
-/

namespace ExchangeRate

namespace CurrencyListViewController

/-- What a cell says: its two texts, and the identifier that the UI tests look for. -/
def cellTexts (cell : CurrencyCell) : Option String × Option String × Option String :=
  (cell.textLabel, cell.detailTextLabel, cell.accessibilityIdentifier)

/-- What the cell of a row is to say. -/
def rowTexts (vc : CurrencyListViewController) (row : ℕ) :
    Option String × Option String × Option String :=
  (vc.currencies.list[row]?.map Currency.code, vc.currencies.list[row]?.map Currency.fullname,
    some ("CurrencyCell_" ++ toString row))

variable {vc : CurrencyListViewController} {tableView : TableView CurrencyCell}

/-- A tap keeps the currencies. -/
theorem currencies_didSelectRowAt (row : ℕ) :
    (vc.didSelectRowAt tableView row).1.currencies = vc.currencies := by
  unfold didSelectRowAt
  split
  · rfl
  · split
    · rfl
    · rfl

/-- **The controller sets what a cell says when it configures it.** -/
theorem labels : owner.Labels cellTexts rowTexts where
  cell_label vc row cell := by
    show cellTexts (vc.cellForRowAt row cell).1 = vc.rowTexts row
    unfold cellForRowAt
    dsimp only
    split
    · rfl
    · rfl
  select_expected vc tableView row row' := by
    show rowTexts (vc.didSelectRowAt tableView row).1 row' = vc.rowTexts row'
    rw [rowTexts, rowTexts, currencies_didSelectRowAt]
  select_label vc tableView row := by
    refine ⟨fun cell => { cell with accessoryType := .checkmark }, fun _ => rfl, ?_⟩
    show (vc.didSelectRowAt tableView row).2 = _
    unfold didSelectRowAt
    split
    · rename_i hnone
      exact (TableView.modifyCell_of_cellForRow_eq_none hnone _).symm
    · rfl
  deselect_expected vc tableView row row' := by
    show rowTexts (vc.didDeselectRowAt tableView row).1 row' = vc.rowTexts row'
    rw [didDeselectRowAt]
    split
    · rfl
    · rfl
  deselect_label vc tableView row := by
    refine ⟨fun cell => { cell with accessoryType := .none }, fun _ => rfl, ?_⟩
    show (vc.didDeselectRowAt tableView row).2 = _
    unfold didDeselectRowAt
    split
    · rename_i hnone
      exact (TableView.modifyCell_of_cellForRow_eq_none hnone _).symm
    · rfl

end CurrencyListViewController

namespace CurrencyTable

open CurrencyListViewController

/-- The cells say what their rows are. -/
def Labelled (s : CurrencyTable) : Prop :=
  TableOwner.Labelled cellTexts rowTexts s.controller s.currencyTableView

theorem labelled_of_step {s s' : CurrencyTable} {e : TableEvent} (hI : s.Labelled)
    (h : s.step e = some s') : s'.Labelled := by
  rcases e with ⟨currencies, shown⟩ | ⟨row, reused⟩ | row | row
  · obtain ⟨t, hreload, rfl⟩ := Option.map_eq_some_iff.mp h
    exact TableOwner.labelled_of_reload labels hreload
  · obtain ⟨t, henter, rfl⟩ := Option.map_eq_some_iff.mp h
    exact TableOwner.Labelled.enter hI labels henter
  · obtain ⟨-, heq⟩ := Option.ite_none_right_eq_some.mp h
    obtain rfl := Option.some.inj heq
    exact TableOwner.Labelled.endDisplaying hI row
  · obtain ⟨⟨vc, t⟩, htap, rfl⟩ := Option.map_eq_some_iff.mp h
    exact TableOwner.Labelled.tap hI labels htap

/-- A tap on a visible row selects the code of the row, and nothing else changes about the
controller but what it has told its presenter. -/
theorem controller_of_tap {s : CurrencyTable} {row : ℕ} {vc : CurrencyListViewController}
    {tableView : TableView CurrencyCell} (hI : s.Consistent)
    (htap : owner.tap s.controller s.currencyTableView row = some (vc, tableView)) :
    ∃ c, s.controller.currencies.list[row]? = some c ∧ vc = { s.controller with
      selectedCurrencyCode := c.code
      didSelectCurrency := (c, s.controller.isFromButton) :: s.controller.didSelectCurrency } := by
  obtain ⟨hvisible, t₁, hrows, -, -, htold⟩ := TableOwner.Consistent.tap_cases hI lawful htap
  have hlt : row < s.controller.currencies.list.length := hI.rows_lt row hvisible
  have hc : s.controller.currencies.list[row]? = some s.controller.currencies.list[row] :=
    List.getElem?_eq_getElem hlt
  have hvisible' : row ∈ t₁.rows := by rwa [hrows]
  refine ⟨_, hc, ?_⟩
  rw [← didSelectRowAt_of_mem hvisible' hc]
  exact (congrArg Prod.fst htold).symm

end CurrencyTable

/-! ### The application and its table -/

/-- The application, and the table of the list screen when it is open. -/
structure ListVisit where
  app : App
  table : Option CurrencyTable

/-- What can happen: the events of the application, where those of the list screen say what
happens to its table as well. -/
inductive VisitEvent where
  /-- An event that the table has no part in. -/
  | app (e : AppEvent)
  | tapCurrencyButton (isFromButton : Bool) (shown : List (ℕ × ℕ))
  | search (searchWord : String) (shown : List (ℕ × ℕ))
  | rowEnters (row reused : ℕ)
  | rowLeaves (row : ℕ)
  | rowTapped (row : ℕ)

/-- The events that the table has a part in. -/
def AppEvent.isOfTable : AppEvent → Bool
  | .tapCurrencyButton _ | .search _ | .cellForRowAt _ | .tapRow _ => true
  | _ => false

namespace ListVisit

/-- One event. -/
def step (P : Platform) (s : ListVisit) : VisitEvent → Option ListVisit
  | .app e =>
    if e.isOfTable then none
    else (s.app.step P e).map fun app => ⟨app, if app.list.isSome then s.table else none⟩
  | .tapCurrencyButton isFromButton shown =>
    (s.app.step P (.tapCurrencyButton isFromButton)).bind fun app =>
      let table := (CurrencyTable.machine (s.app.title isFromButton) isFromButton).init
      (table.step (.showCurrencyList (.ofSearch P s.app.main "") shown)).map fun t => ⟨app, some t⟩
  | .search searchWord shown =>
    (s.app.step P (.search searchWord)).bind fun app => s.table.bind fun table =>
      (table.step (.showCurrencyList (.ofSearch P s.app.main searchWord) shown)).map fun t =>
        ⟨app, some t⟩
  | .rowEnters row reused =>
    (s.app.step P (.cellForRowAt row)).bind fun app => s.table.bind fun table =>
      (table.step (.rowEnters row reused)).map fun t => ⟨app, some t⟩
  | .rowLeaves row =>
    s.table.bind fun table => (table.step (.rowLeaves row)).map fun t => { s with table := some t }
  | .rowTapped row =>
    (s.app.step P (.tapRow row)).bind fun app => s.table.bind fun table =>
      (table.step (.rowTapped row)).map fun t => ⟨app, some t⟩

def machine (P : Platform) : StepMachine ListVisit VisitEvent where
  init := ⟨App.installed, none⟩
  step := step P

/-- The event of the application that an event is. -/
def appEvent : VisitEvent → Option AppEvent
  | .app e => some e
  | .tapCurrencyButton isFromButton _ => some (.tapCurrencyButton isFromButton)
  | .search searchWord _ => some (.search searchWord)
  | .rowEnters row _ => some (.cellForRowAt row)
  | .rowLeaves _ => none
  | .rowTapped row => some (.tapRow row)

/-- The events of the application. -/
def appEvents (ds : List VisitEvent) : List AppEvent := ds.filterMap appEvent

variable {P : Platform} {ds : List VisitEvent} {d : VisitEvent} {s s' : ListVisit}

/-- **An event of a visit is one of the application, or none.** -/
theorem app_of_step (h : step P s d = some s') :
    (∃ e, appEvent d = some e ∧ s.app.step P e = some s'.app) ∨
      appEvent d = none ∧ s'.app = s.app := by
  cases d with
  | app e =>
    obtain ⟨-, h⟩ := Option.ite_none_left_eq_some.mp h
    obtain ⟨app, happ, rfl⟩ := Option.map_eq_some_iff.mp h
    exact Or.inl ⟨e, rfl, happ⟩
  | tapCurrencyButton isFromButton shown =>
    obtain ⟨app, happ, h⟩ := Option.bind_eq_some_iff.mp h
    obtain ⟨t, -, rfl⟩ := Option.map_eq_some_iff.mp h
    exact Or.inl ⟨_, rfl, happ⟩
  | search searchWord shown =>
    obtain ⟨app, happ, h⟩ := Option.bind_eq_some_iff.mp h
    obtain ⟨table, -, h⟩ := Option.bind_eq_some_iff.mp h
    obtain ⟨t, -, rfl⟩ := Option.map_eq_some_iff.mp h
    exact Or.inl ⟨_, rfl, happ⟩
  | rowEnters row reused =>
    obtain ⟨app, happ, h⟩ := Option.bind_eq_some_iff.mp h
    obtain ⟨table, -, h⟩ := Option.bind_eq_some_iff.mp h
    obtain ⟨t, -, rfl⟩ := Option.map_eq_some_iff.mp h
    exact Or.inl ⟨_, rfl, happ⟩
  | rowLeaves row =>
    obtain ⟨table, -, h⟩ := Option.bind_eq_some_iff.mp h
    obtain ⟨t, -, rfl⟩ := Option.map_eq_some_iff.mp h
    exact Or.inr ⟨rfl, rfl⟩
  | rowTapped row =>
    obtain ⟨app, happ, h⟩ := Option.bind_eq_some_iff.mp h
    obtain ⟨table, -, h⟩ := Option.bind_eq_some_iff.mp h
    obtain ⟨t, -, rfl⟩ := Option.map_eq_some_iff.mp h
    exact Or.inl ⟨_, rfl, happ⟩

/-- **A visit is a run of the application.** -/
theorem app_reaches (h : (machine P).Reaches ds s) :
    (App.machine P).Reaches (appEvents ds) s.app := by
  refine StepMachine.Reaches.invariant (M := machine P)
    (I := fun ds s => (App.machine P).Reaches (appEvents ds) s.app) rfl
    (fun ds s d s' _ hI hstep => ?_) h
  rw [appEvents, List.filterMap_append]
  rcases app_of_step (P := P) hstep with ⟨e, he, happ⟩ | ⟨hnone, happ⟩
  · rw [List.filterMap_cons_some he, List.filterMap_nil]
    exact StepMachine.reaches_concat.mpr ⟨s.app, hI, happ⟩
  · rw [List.filterMap_cons_none hnone, List.filterMap_nil, List.append_nil, happ]
    exact hI

/-! ### Reading the array again -/

/-- **The accessors read back what was read before**, as far as their rows are alive. -/
def ReadsBack (table : ObjectTable Currency) (accessors : List ObjKey) (list : List Currency) :
    Prop :=
  ∀ (row : ℕ) k c, accessors[row]? = some k → table.get k = some c → list[row]? = some c

/-- An array that has just been loaded. -/
theorem readsBack_currencyKeys (P : Platform) (realm : Realm) (w : String) :
    ReadsBack realm.currency (App.currencyKeys P realm w) (CurrencyRows.ofSearch P realm w).list := by
  intro row k c hk hget
  rw [App.currencyKeys, List.getElem?_map, Option.map_eq_some_iff] at hk
  obtain ⟨r, hr, rfl⟩ := hk
  have hlive := (mem_getCurrencyListFromDB.mp (List.mem_of_getElem? hr)).1
  rw [ObjectTable.get_eq_some_iff.mpr hlive, Option.some.injEq] at hget
  rw [CurrencyRows.ofSearch, List.getElem?_map, hr, Option.map_some, hget]

/-- A save of currencies leaves none of its rows alive. -/
theorem readsBack_of_dead {table : ObjectTable Currency} {accessors : List ObjKey}
    {list : List Currency} (h : ∀ k ∈ accessors, k ∉ table.keys) :
    ReadsBack table accessors list := fun _ k c hk hget =>
  absurd (ObjectTable.exists_get_iff.mp ⟨c, hget⟩) (h k (List.mem_of_getElem? hk))

/-- **The table and the screen of the application belong together.** -/
structure TableKept (app : App) (l : ListScreen) (t : CurrencyTable) : Prop where
  consistent : t.Consistent
  labelled : t.Labelled
  code : t.controller.selectedCurrencyCode = l.selectedCurrencyCode
  side : t.controller.isFromButton = l.isFromButton
  main : ReadsBack app.main.currency l.currencies t.controller.currencies.list
  newest : ReadsBack app.realm.currency l.currencies t.controller.currencies.list

/-- Another state of the application, with the same array. -/
theorem TableKept.congr {app app' : App} {l l' : ListScreen} {t : CurrencyTable}
    (h : TableKept app l t) (hcurrencies : l'.currencies = l.currencies)
    (hcode : l'.selectedCurrencyCode = l.selectedCurrencyCode)
    (hside : l'.isFromButton = l.isFromButton)
    (hmain : app'.main.currency = app.main.currency ∨ app'.main.currency = app.realm.currency)
    (hnewest : app'.realm.currency = app.realm.currency ∨
      ∀ k ∈ l.currencies, k ∉ app'.realm.currency.keys) : TableKept app' l' t := by
  refine ⟨h.consistent, h.labelled, h.code.trans hcode.symm, h.side.trans hside.symm, ?_, ?_⟩
  · rw [hcurrencies]
    rcases hmain with heq | heq
    · rw [heq]
      exact h.main
    · rw [heq]
      exact h.newest
  · rw [hcurrencies]
    rcases hnewest with heq | hdead
    · rw [heq]
      exact h.newest
    · exact readsBack_of_dead hdead

/-- **An open list has its table.** -/
def Kept (s : ListVisit) : Prop :=
  ∀ l, s.app.list = some l → ∃ t, s.table = some t ∧ TableKept s.app l t

/-- After a save of currencies the open list has no live row. -/
theorem dead_of_currencyListSaved {es : List AppEvent} {app app' : App} {data : Data} {now : Date}
    (h : (App.machine P).Reaches es app)
    (hstep : app.step P (.currencyListCompletion (some data) now) = some app') {l : ListScreen}
    (hl : app.list = some l) (hl' : app'.list = some l) :
    ∀ k ∈ l.currencies, k ∉ app'.realm.currency.keys := by
  intro k hk hlive
  have hheld := rowsHeld_of_reaches h
  have hheld' := rowsHeld_of_reaches (StepMachine.reaches_concat.mpr ⟨app, h, hstep⟩)
  rw [rowMarks_concat] at hheld'
  have hlevel := ((hheld'.list l hl').1.mem_keys_iff hk).mp hlive
  have hbefore := (hheld.list l hl).1.le
  simp only [RowMarks.after] at hlevel
  omega

/-- An event that the table has no part in keeps the two together. -/
theorem kept_of_app {e : AppEvent} (hs : (App.machine P).Reaches (appEvents ds) s.app)
    (hI : Kept s) (hstep : step P s (.app e) = some s') : Kept s' := by
  obtain ⟨hnot, h⟩ := Option.ite_none_left_eq_some.mp hstep
  obtain ⟨app, happ, rfl⟩ := Option.map_eq_some_iff.mp h
  intro l' hl'
  replace hl' : app.list = some l' := hl'
  suffices hkept : ∃ t, s.table = some t ∧ TableKept app l' t by
    obtain ⟨t, ht, hkept⟩ := hkept
    exact ⟨t, by simp [hl', ht], hkept⟩
  have hlast := happ
  cases App.appStep_of_step happ with
  | launch => cases hl'
  | finishDismiss => cases hl'
  | tapCurrencyButton => exact absurd rfl hnot
  | search => exact absurd rfl hnot
  | cellForRowAt => exact absurd rfl hnot
  | tapRow => exact absurd rfl hnot
  | currencyListSaved data now htask response realm hsaved =>
    obtain ⟨t, ht, hkept⟩ := hI l' hl'
    exact ⟨t, ht, hkept.congr rfl rfl rfl (Or.inl rfl)
      (Or.inr (dead_of_currencyListSaved hs hlast hl' hl'))⟩
  | ratesSaved data now htask response realm hsaved =>
    obtain ⟨t, ht, hkept⟩ := hI l' hl'
    exact ⟨t, ht, hkept.congr rfl rfl rfl (Or.inl rfl) (Or.inl hsaved.currency)⟩
  | refresh =>
    obtain ⟨t, ht, hkept⟩ := hI l' hl'
    exact ⟨t, ht, hkept.congr rfl rfl rfl (Or.inr rfl) (Or.inl rfl)⟩
  | tapExchange hfront => exact absurd (hfront.2.symm.trans hl') nofun
  | beginDismiss l hlist =>
    cases hl'
    obtain ⟨t, ht, hkept⟩ := hI l hlist
    exact ⟨t, ht, hkept.congr rfl rfl rfl (Or.inl rfl) (Or.inl rfl)⟩
  | cancelDismiss l hlist =>
    cases hl'
    obtain ⟨t, ht, hkept⟩ := hI l hlist
    exact ⟨t, ht, hkept.congr rfl rfl rfl (Or.inl rfl) (Or.inl rfl)⟩
  | _ =>
    obtain ⟨t, ht, hkept⟩ := hI l' hl'
    exact ⟨t, ht, hkept.congr rfl rfl rfl (Or.inl rfl) (Or.inl rfl)⟩

/-- **A table that has just been loaded**, for an array from the main thread's version. -/
theorem tableKept_of_load {app app' : App} {l : ListScreen} {w : String} {t t' : CurrencyTable}
    {shown : List (ℕ × ℕ)} (hs : ∃ es, (App.machine P).Reaches es app)
    (hload : t.step (.showCurrencyList (.ofSearch P app.main w) shown) = some t')
    (hmain : app'.main = app.main) (hnewest : app'.realm = app.realm)
    (hcurrencies : l.currencies = App.currencyKeys P app.main w)
    (hcode : t.controller.selectedCurrencyCode = l.selectedCurrencyCode)
    (hside : t.controller.isFromButton = l.isFromButton) : TableKept app' l t' := by
  obtain ⟨es, hs⟩ := hs
  obtain ⟨tableView, hreload, rfl⟩ := Option.map_eq_some_iff.mp hload
  have hmain' : ReadsBack app.main.currency l.currencies (CurrencyRows.ofSearch P app.main w).list := by
    rw [hcurrencies]
    exact readsBack_currencyKeys P app.main w
  refine ⟨TableOwner.consistent_of_reload CurrencyListViewController.lawful hreload,
    TableOwner.labelled_of_reload CurrencyListViewController.labels hreload, hcode, hside, ?_, ?_⟩
  · rw [hmain]
    exact hmain'
  · -- a row that is alive in the newest version is the same in the one it was loaded from
    rw [hnewest]
    intro row k c hk hget
    have hlive : k ∈ app.main.currency.keys := by
      rw [hcurrencies] at hk
      exact mem_currencyKeys (List.mem_of_getElem? hk)
    obtain ⟨c', hget'⟩ := ObjectTable.exists_get_iff.mpr hlive
    rw [← get_eq_of_reaches hs hget' hget]
    exact hmain' row k c' hk hget'

theorem controller_of_rowEnters {t t' : CurrencyTable} {row reused : ℕ}
    (h : t.step (.rowEnters row reused) = some t') : t'.controller = t.controller := by
  obtain ⟨tableView, -, rfl⟩ := Option.map_eq_some_iff.mp h
  rfl

theorem controller_of_rowLeaves {t t' : CurrencyTable} {row : ℕ}
    (h : t.step (.rowLeaves row) = some t') : t'.controller = t.controller := by
  obtain ⟨-, heq⟩ := Option.ite_none_right_eq_some.mp h
  rw [← Option.some.inj heq]

/-- Scrolling keeps the two together. -/
theorem TableKept.scroll {app : App} {l : ListScreen} {t t' : CurrencyTable} {e : TableEvent}
    (h : TableKept app l t) (hcontroller : t'.controller = t.controller)
    (hstep : t.step e = some t') : TableKept app l t' := by
  refine ⟨CurrencyTable.consistent_of_step h.consistent hstep,
    CurrencyTable.labelled_of_step h.labelled hstep, ?_, ?_, ?_, ?_⟩
  · rw [hcontroller]
    exact h.code
  · rw [hcontroller]
    exact h.side
  · rw [hcontroller]
    exact h.main
  · rw [hcontroller]
    exact h.newest

/-- What a tap on a row has read and written. -/
theorem tapRow_of_step {app app' : App} {row : ℕ} (h : app.step P (.tapRow row) = some app') :
    ∃ l k, app.list = some l ∧ l.currencies[row]? = some k ∧ ∃ c realm,
      app.main.currency.get k = some c ∧
      saveSelectedItem app.realm (.managed k) l.isFromButton = .ok realm ∧
      app' = { app with
        realm
        main := realm
        list := some { l with selectedCurrencyCode := c.code } } := by
  obtain ⟨l, hlist, -, hl⟩ := App.of_shown (App.step_eq_some_iff.mp h)
  obtain ⟨k, hk, hselect⟩ := Option.map_eq_some_iff.mp hl
  refine ⟨l, k, hlist, hk, ?_⟩
  unfold App.didSelectRowAt at hselect
  split at hselect
  · cases hselect
  · rename_i c hread
    split at hselect
    · cases hselect
    · rename_i realm hsave
      cases hselect
      exact ⟨c, realm, Realm.get_of_read hread, hsave, rfl⟩

/-- **A tap keeps the two together**: the code that the table takes over is the one that the
accessor reads back. -/
theorem TableKept.tap {app : App} {l : ListScreen} {t t' : CurrencyTable} {row : ℕ} {k : ObjKey}
    {c : Currency} {realm : Realm} (h : TableKept app l t) (hk : l.currencies[row]? = some k)
    (hget : app.main.currency.get k = some c)
    (hsave : saveSelectedItem app.realm (.managed k) l.isFromButton = .ok realm)
    (hstep : t.step (.rowTapped row) = some t') :
    TableKept { app with
      realm
      main := realm
      list := some { l with selectedCurrencyCode := c.code } }
      { l with selectedCurrencyCode := c.code } t' := by
  obtain ⟨⟨vc, tableView⟩, htap, heq⟩ := Option.map_eq_some_iff.mp hstep
  obtain ⟨c', hc', hvc⟩ := CurrencyTable.controller_of_tap h.consistent htap
  rw [h.main row k c hk hget, Option.some.injEq] at hc'
  subst hc'
  have hcontroller : t'.controller = vc := by rw [← heq]
  have hcurrency := (onlyPreferences_select hsave).currency
  refine ⟨CurrencyTable.consistent_of_step h.consistent hstep,
    CurrencyTable.labelled_of_step h.labelled hstep, ?_, ?_, ?_, ?_⟩
  · rw [hcontroller, hvc]
  · rw [hcontroller, hvc]
    exact h.side
  · rw [hcontroller, hvc]
    show ReadsBack realm.currency _ _
    rw [hcurrency]
    exact h.newest
  · rw [hcontroller, hvc]
    show ReadsBack realm.currency _ _
    rw [hcurrency]
    exact h.newest

theorem kept_of_reaches (h : (machine P).Reaches ds s) : Kept s := by
  refine StepMachine.Reaches.invariant (M := machine P) (I := fun _ s => Kept s) nofun
    (fun ds s d s' hs hI hstep => ?_) h
  have happ := app_reaches hs
  cases d with
  | app e => exact kept_of_app happ hI hstep
  | tapCurrencyButton isFromButton shown =>
    obtain ⟨app, htap, h⟩ := Option.bind_eq_some_iff.mp hstep
    obtain ⟨t, hload, rfl⟩ := Option.map_eq_some_iff.mp h
    cases App.appStep_of_step htap
    intro l hl
    cases hl
    exact ⟨t, rfl, tableKept_of_load ⟨_, happ⟩ hload rfl rfl rfl rfl rfl⟩
  | search searchWord shown =>
    obtain ⟨app, hsearch, h⟩ := Option.bind_eq_some_iff.mp hstep
    obtain ⟨table, htable, h⟩ := Option.bind_eq_some_iff.mp h
    obtain ⟨t, hload, rfl⟩ := Option.map_eq_some_iff.mp h
    cases App.appStep_of_step hsearch with
    | search searchWord l hlist =>
      obtain ⟨t₁, ht₁, hkept⟩ := hI l hlist
      obtain rfl : table = t₁ := Option.some.inj (htable.symm.trans ht₁)
      intro l' hl'
      cases hl'
      exact ⟨t, rfl, tableKept_of_load ⟨_, happ⟩ hload rfl rfl rfl hkept.code hkept.side⟩
  | rowEnters row reused =>
    obtain ⟨app, hcell, h⟩ := Option.bind_eq_some_iff.mp hstep
    obtain ⟨table, htable, h⟩ := Option.bind_eq_some_iff.mp h
    obtain ⟨t, henter, rfl⟩ := Option.map_eq_some_iff.mp h
    cases App.appStep_of_step hcell
    intro l hl
    obtain ⟨t₁, ht₁, hkept⟩ := hI l hl
    obtain rfl : table = t₁ := Option.some.inj (htable.symm.trans ht₁)
    exact ⟨t, rfl, hkept.scroll (controller_of_rowEnters henter) henter⟩
  | rowLeaves row =>
    obtain ⟨table, htable, h⟩ := Option.bind_eq_some_iff.mp hstep
    obtain ⟨t, hleave, rfl⟩ := Option.map_eq_some_iff.mp h
    intro l hl
    obtain ⟨t₁, ht₁, hkept⟩ := hI l hl
    obtain rfl : table = t₁ := Option.some.inj (htable.symm.trans ht₁)
    exact ⟨t, rfl, hkept.scroll (controller_of_rowLeaves hleave) hleave⟩
  | rowTapped row =>
    obtain ⟨app, htap, h⟩ := Option.bind_eq_some_iff.mp hstep
    obtain ⟨table, htable, h⟩ := Option.bind_eq_some_iff.mp h
    obtain ⟨t, hrow, rfl⟩ := Option.map_eq_some_iff.mp h
    obtain ⟨l, k, hlist, hk, c, realm, hget, hsave, rfl⟩ := tapRow_of_step htap
    obtain ⟨t₁, ht₁, hkept⟩ := hI l hlist
    obtain rfl : table = t₁ := Option.some.inj (htable.symm.trans ht₁)
    intro l' hl'
    cases hl'
    exact ⟨t, rfl, hkept.tap hk hget hsave hrow⟩

/-! ### What the user sees -/

/-- **The open list shows what is stored**, in every state of every run: a visible cell shows a
currency of the list; it has the checkmark exactly when its code is the one stored for the side of
the list, and so one cell at most has; and an accessor whose row is alive reads back what the cell
of its row shows. -/
theorem list_shows_stored (h : (machine P).Reaches ds s) {l : ListScreen}
    (hl : s.app.list = some l) : ∃ t, s.table = some t ∧
      (∀ row cell, t.currencyTableView.cellForRow row = some cell →
        ∃ c, t.controller.currencies.list[row]? = some c ∧
          cell.textLabel = some c.code ∧ cell.detailTextLabel = some c.fullname ∧
          (cell.accessoryType = .checkmark ↔
            s.app.realm.storedCode l.isFromButton = some c.code)) ∧
      (∀ row row' cell cell', t.currencyTableView.cellForRow row = some cell →
        t.currencyTableView.cellForRow row' = some cell' → cell.accessoryType = .checkmark →
          cell'.accessoryType = .checkmark → row = row') ∧
      ∀ (row : ℕ) k c, l.currencies[row]? = some k → s.app.main.currency.get k = some c →
        t.controller.currencies.list[row]? = some c := by
  have happ := app_reaches h
  obtain ⟨t, ht, hkept⟩ := kept_of_reaches h l hl
  have hstored := (titlesAgree_of_launched happ (launched_of_list happ hl)).selected l hl
  refine ⟨t, ht, fun row cell hcell => ?_, fun row row' cell cell' hcell hcell' hmark hmark' => ?_,
    hkept.main⟩
  · have hlt : row < t.controller.currencies.list.length :=
      hkept.consistent.rows_lt row (TableView.mem_rows_of_cellForRow hcell)
    have hc : t.controller.currencies.list[row]? = some t.controller.currencies.list[row] :=
      List.getElem?_eq_getElem hlt
    have htexts := hkept.labelled row cell hcell
    have hmark := hkept.consistent.marks row cell hcell
    simp only [CurrencyListViewController.cellTexts, CurrencyListViewController.rowTexts, hc,
      Option.map_some, Prod.mk.injEq] at htexts
    rw [CurrencyListViewController.Marked, CurrencyListViewController.Current, hc, Option.map_some,
      hkept.code] at hmark
    rw [hstored]
    exact ⟨_, hc, htexts.1, htexts.2.1, hmark.trans eq_comm⟩
  · exact hkept.consistent.eq_of_marked CurrencyListViewController.lawful hcell hcell' hmark hmark'

/-- A selection, the selected row scrolled away, and a search that brings it back, while the rates
arrive. -/
def visited : List VisitEvent :=
  [.app (.launch 0), .app (.finishViewDidLoad 0), .app .viewWillAppear,
    .app (.currencyListCompletion currencyListBody 1), .app .runMainBlock, .app .refresh,
    .tapCurrencyButton true [(0, 0), (1, 0)], .rowTapped 1, .rowLeaves 1,
    .app (.rateCompletion rateBody 2), .search "Afghan" [(0, 1)]]

/-- The one cell left has the checkmark, and its code is stored. -/
theorem list_shows_stored_visited : ∃ s l t, (machine Platform.sample).Reaches visited s ∧
    s.app.list = some l ∧ s.table = some t ∧
    t.currencyTableView.visible = [(0, ⟨"AFN", "Afghan Afghani", .checkmark, "CurrencyCell_0"⟩)] ∧
    s.app.realm.storedCode l.isFromButton = some "AFN" := by
  have hrun : ((machine Platform.sample).exec (machine Platform.sample).init visited).map
      (fun s => (s.app.list, s.table.map fun t => t.currencyTableView.visible)) =
      some (some ⟨true, [1], "AFN", false⟩,
        some [(0, ⟨"AFN", "Afghan Afghani", .checkmark, "CurrencyCell_0"⟩)]) := by decide +kernel
  obtain ⟨s, hs, hvalues⟩ := Option.map_eq_some_iff.mp hrun
  obtain ⟨hlist, htable⟩ := Prod.mk.inj hvalues
  obtain ⟨t, ht, hcells, -⟩ := list_shows_stored hs hlist
  rw [ht, Option.map_some, Option.some.injEq] at htable
  have hcell : t.currencyTableView.cellForRow 0 =
      some ⟨"AFN", "Afghan Afghani", .checkmark, "CurrencyCell_0"⟩ := by
    rw [TableView.cellForRow, htable]
    rfl
  obtain ⟨c, -, htext, -, hmark⟩ := hcells 0 _ hcell
  refine ⟨s, _, t, hs, hlist, ht, htable, ?_⟩
  rw [hmark.mp rfl, ← htext]

end ListVisit

end ExchangeRate
