import ExchangeRate.Base.StepMachine
import ExchangeRate.Base.TableView
import ExchangeRate.Search

/-!
# The currency table

The table of `Modules/CurrencyList/View/CurrencyListViewController.swift`, whose cells
carry a checkmark at the selected currency. Three things hold the selection – the
controller's `selectedCurrencyCode`, the table's own selected row and the marks of the
cells – and three callbacks keep them together. The callback for a deselected row does
nothing when the row is out of view, as there is no cell to take the mark from.

The controller is a lawful owner of the table
(`ExchangeRate.CurrencyListViewController.lawful`): its codes are distinct, and a cell
is configured with the mark of its row whenever the row comes into view. So the marks
are right in every state that searching, scrolling and tapping lead to
(`ExchangeRate.CurrencyTable.checkmarks_of_reaches`).
-/

namespace ExchangeRate

/-! ### The rows -/

/-- The currencies a table lists: no code occurs twice. -/
structure CurrencyRows where
  list : List Currency
  nodup : (list.map Currency.code).Nodup

/-- The rows of the answer to a search. -/
def CurrencyRows.ofSearch (P : Platform) (realm : Realm) (searchWord : String) : CurrencyRows where
  list := (getCurrencyListFromDB P realm searchWord).map Prod.snd
  nodup := by
    rw [List.map_map]
    exact (ascending_getCurrencyListFromDB P realm searchWord).nodup_map

/-- `UITableViewCell.AccessoryType`, as far as it is used. -/
inductive AccessoryType where
  | none
  | checkmark
  deriving DecidableEq

/-- A cell of the table. -/
structure CurrencyCell where
  textLabel : Option String := .none
  detailTextLabel : Option String := .none
  accessoryType : AccessoryType := .none
  accessibilityIdentifier : Option String := .none
  deriving DecidableEq

/-! ### The controller -/

/-- What the controller holds, and what it has told its presenter. -/
structure CurrencyListViewController where
  isFromButton : Bool
  currencies : CurrencyRows
  selectedCurrencyCode : String
  /-- The calls of `didSelectCurrency(currency:isFromCurrency:)`, the latest first. -/
  didSelectCurrency : List (Currency × Bool)

namespace CurrencyListViewController

def numberOfRows (vc : CurrencyListViewController) : ℕ := vc.currencies.list.length

/-- `tableView(_:cellForRowAt:)` on a dequeued cell; the second component says whether
`selectRow(at:)` is called. -/
def cellForRowAt (vc : CurrencyListViewController) (row : ℕ) (cell : CurrencyCell) :
    CurrencyCell × Bool :=
  let currency := vc.currencies.list[row]?
  let cell := { cell with
    textLabel := currency.map Currency.code
    detailTextLabel := currency.map Currency.fullname
    accessibilityIdentifier := some ("CurrencyCell_" ++ toString row) }
  if currency.map Currency.code = some vc.selectedCurrencyCode then
    ({ cell with accessoryType := .checkmark }, true)
  else ({ cell with accessoryType := .none }, false)

/-- `tableView(_:didSelectRowAt:)`. -/
def didSelectRowAt (vc : CurrencyListViewController) (tableView : TableView CurrencyCell)
    (row : ℕ) : CurrencyListViewController × TableView CurrencyCell :=
  match tableView.cellForRow row with
  | none => (vc, tableView)
  | some _ =>
    let vc' :=
      match vc.currencies.list[row]? with
      | some selectedItem =>
        { vc with
          selectedCurrencyCode := selectedItem.code
          didSelectCurrency := (selectedItem, vc.isFromButton) :: vc.didSelectCurrency }
      | none => vc
    (vc', tableView.modifyCell row fun cell => { cell with accessoryType := .checkmark })

/-- `tableView(_:didDeselectRowAt:)`. -/
def didDeselectRowAt (vc : CurrencyListViewController) (tableView : TableView CurrencyCell)
    (row : ℕ) : CurrencyListViewController × TableView CurrencyCell :=
  match tableView.cellForRow row with
  | none => (vc, tableView)
  | some _ => (vc, tableView.modifyCell row fun cell => { cell with accessoryType := .none })

/-- The callbacks of the controller. -/
def owner : TableOwner CurrencyListViewController CurrencyCell where
  numberOfRows := numberOfRows
  newCell := {}
  cellForRowAt := cellForRowAt
  didSelectRowAt := didSelectRowAt
  didDeselectRowAt := didDeselectRowAt

/-- The cell has a checkmark. -/
def Marked (cell : CurrencyCell) : Prop := cell.accessoryType = .checkmark

/-- The row is that of the selected code. -/
def Current (vc : CurrencyListViewController) (row : ℕ) : Prop :=
  vc.currencies.list[row]?.map Currency.code = some vc.selectedCurrencyCode

/-! ### The controller is a lawful owner -/

variable {vc : CurrencyListViewController} {tableView : TableView CurrencyCell} {i j : ℕ}

/-- Rows with the same code are the same row. -/
theorem row_unique (hi : i < vc.numberOfRows)
    (h : vc.currencies.list[i]?.map Currency.code = vc.currencies.list[j]?.map Currency.code) :
    i = j := by
  rw [← List.getElem?_map, ← List.getElem?_map] at h
  have hlength : i < (vc.currencies.list.map Currency.code).length := by
    rw [List.length_map]
    exact hi
  exact (List.getElem?_inj hlength vc.currencies.nodup).mp h

/-- A cell is configured with a checkmark exactly for the row of the selected code, which is
then selected. -/
theorem cellForRowAt_marks (vc : CurrencyListViewController) (row : ℕ) (cell : CurrencyCell) :
    (Marked (vc.cellForRowAt row cell).1 ↔ vc.Current row) ∧
      ((vc.cellForRowAt row cell).2 = true ↔ vc.Current row) := by
  by_cases hcur : vc.Current row
  · have hcell : (vc.cellForRowAt row cell).1.accessoryType = .checkmark ∧
        (vc.cellForRowAt row cell).2 = true := by
      rw [Current] at hcur
      simp only [cellForRowAt, if_pos hcur, and_self]
    exact ⟨iff_of_true hcell.1 hcur, iff_of_true hcell.2 hcur⟩
  · have hcell : (vc.cellForRowAt row cell).1.accessoryType ≠ .checkmark ∧
        (vc.cellForRowAt row cell).2 ≠ true := by
      rw [Current] at hcur
      simp only [cellForRowAt, if_neg hcur]
      exact ⟨nofun, nofun⟩
    exact ⟨iff_of_false hcell.1 hcur, iff_of_false hcell.2 hcur⟩

/-- A tap on a visible row selects its code, and tells the presenter. -/
theorem didSelectRowAt_of_mem {c : Currency} (hvisible : i ∈ tableView.rows)
    (hc : vc.currencies.list[i]? = some c) :
    (vc.didSelectRowAt tableView i).1 = { vc with
      selectedCurrencyCode := c.code
      didSelectCurrency := (c, vc.isFromButton) :: vc.didSelectCurrency } := by
  obtain ⟨cell, hcell⟩ := TableView.mem_rows_iff.mp hvisible
  simp only [didSelectRowAt, hcell, hc]

/-- **The controller does what an owner has to do** to have the checkmark at the selected
code. -/
theorem lawful : owner.Lawful Marked Current where
  unique vc i j hi _ hcuri hcurj := row_unique hi (hcuri.trans hcurj.symm)
  cell_marked vc i cell := (cellForRowAt_marks vc i cell).1
  cell_selects vc i cell := (cellForRowAt_marks vc i cell).2
  select_rows vc tableView i := by
    show (vc.didSelectRowAt tableView i).1.numberOfRows = vc.numberOfRows
    unfold didSelectRowAt
    split
    · rfl
    · split
      · rfl
      · rfl
  select_current vc tableView i j hvisible hi _ := by
    have hc : vc.currencies.list[i]? = some vc.currencies.list[i] := List.getElem?_eq_getElem hi
    show Current (vc.didSelectRowAt tableView i).1 j ↔ j = i
    rw [didSelectRowAt_of_mem hvisible hc, Current]
    constructor
    · intro hj
      refine (row_unique hi ?_).symm
      rw [hj, hc, Option.map_some]
    · rintro rfl
      rw [hc, Option.map_some]
  select_mark vc tableView i := by
    refine ⟨fun cell => { cell with accessoryType := .checkmark }, fun _ => rfl, ?_⟩
    show (vc.didSelectRowAt tableView i).2 = _
    unfold didSelectRowAt
    split
    · rename_i hnone
      exact (TableView.modifyCell_of_cellForRow_eq_none hnone _).symm
    · rfl
  deselect_owner vc tableView i := by
    show (vc.didDeselectRowAt tableView i).1 = vc
    unfold didDeselectRowAt
    split
    · rfl
    · rfl
  deselect_mark vc tableView i := by
    refine ⟨fun cell => { cell with accessoryType := .none }, fun _ => nofun, ?_⟩
    show (vc.didDeselectRowAt tableView i).2 = _
    unfold didDeselectRowAt
    split
    · rename_i hnone
      exact (TableView.modifyCell_of_cellForRow_eq_none hnone _).symm
    · rfl

end CurrencyListViewController

/-! ### Searching, scrolling and tapping -/

/-- The controller and its table. -/
structure CurrencyTable where
  controller : CurrencyListViewController
  currencyTableView : TableView CurrencyCell

/-- What happens to the table. Rows come with the place in the pool their cell is taken from. -/
inductive TableEvent where
  /-- A search, the first of which is that of `viewDidLoad`: the table is given other currencies
  and loaded anew, and then shows some rows. -/
  | showCurrencyList (currencies : CurrencyRows) (shown : List (ℕ × ℕ))
  /-- A row scrolls into view. -/
  | rowEnters (row reused : ℕ)
  /-- A row scrolls out of view. -/
  | rowLeaves (row : ℕ)
  /-- A visible row is tapped. -/
  | rowTapped (row : ℕ)

namespace CurrencyTable

open CurrencyListViewController

/-- One step; `none` when a row that does not exist or is visible already would come into view,
or a row that is not visible would leave it or be tapped. -/
def step (s : CurrencyTable) : TableEvent → Option CurrencyTable
  | .showCurrencyList currencies shown =>
    let controller := { s.controller with currencies }
    (owner.reload controller s.currencyTableView shown).map fun t => ⟨controller, t⟩
  | .rowEnters row reused =>
    (owner.enter s.controller s.currencyTableView row reused).map fun t =>
      { s with currencyTableView := t }
  | .rowLeaves row =>
    if row ∈ s.currencyTableView.rows then
      some { s with currencyTableView := s.currencyTableView.endDisplaying row }
    else none
  | .rowTapped row =>
    (owner.tap s.controller s.currencyTableView row).map fun r => ⟨r.1, r.2⟩

/-- **The table of a screen that is presented** with a code that is selected already. -/
def machine (selectedCurrencyCode : String) (isFromButton : Bool) :
    StepMachine CurrencyTable TableEvent where
  init := ⟨⟨isFromButton, ⟨[], List.nodup_nil⟩, selectedCurrencyCode, []⟩, .empty⟩
  step := step

/-- The controller's marks are right. -/
def Consistent (s : CurrencyTable) : Prop :=
  owner.Consistent Marked Current s.controller s.currencyTableView

/-- **One step keeps the marks right.** -/
theorem consistent_of_step {s s' : CurrencyTable} {e : TableEvent} (hI : s.Consistent)
    (h : s.step e = some s') : s'.Consistent := by
  rcases e with ⟨currencies, shown⟩ | ⟨row, reused⟩ | row | row
  · simp only [step, Option.map_eq_some_iff] at h
    obtain ⟨t, hreload, rfl⟩ := h
    exact TableOwner.consistent_of_reload lawful hreload
  · simp only [step, Option.map_eq_some_iff] at h
    obtain ⟨t, henter, rfl⟩ := h
    exact TableOwner.Consistent.enter hI lawful henter
  · simp only [step, Option.ite_none_right_eq_some, Option.some.injEq] at h
    obtain ⟨-, rfl⟩ := h
    exact TableOwner.Consistent.endDisplaying hI row
  · simp only [step, Option.map_eq_some_iff] at h
    obtain ⟨⟨vc, t⟩, htap, rfl⟩ := h
    exact TableOwner.Consistent.tap hI lawful htap

theorem consistent_of_reaches {code : String} {isFromButton : Bool} {es : List TableEvent}
    {s : CurrencyTable} (h : (machine code isFromButton).Reaches es s) : s.Consistent := by
  refine StepMachine.Reaches.invariant (I := fun _ s => s.Consistent)
    (TableOwner.consistent_of_visible_eq_nil rfl) (fun _ s e s' _ hI hstep => ?_) h
  exact consistent_of_step hI hstep

/-- **The checkmark is at the selected code**: in every state that searching, scrolling and
tapping lead to, every visible row is a currency of the list, exactly those whose code is
`selectedCurrencyCode` have a checkmark, and so one at most has. -/
theorem checkmarks_of_reaches {code : String} {isFromButton : Bool} {es : List TableEvent}
    {s : CurrencyTable} (h : (machine code isFromButton).Reaches es s) :
    (∀ row cell, s.currencyTableView.cellForRow row = some cell →
      ∃ c, s.controller.currencies.list[row]? = some c ∧
        (cell.accessoryType = .checkmark ↔ c.code = s.controller.selectedCurrencyCode)) ∧
    ∀ row row' cell cell', s.currencyTableView.cellForRow row = some cell →
      s.currencyTableView.cellForRow row' = some cell' → cell.accessoryType = .checkmark →
        cell'.accessoryType = .checkmark → row = row' := by
  have hI := consistent_of_reaches h
  refine ⟨fun row cell hcell => ?_, fun row row' cell cell' hcell hcell' hmark hmark' =>
    hI.eq_of_marked lawful hcell hcell' hmark hmark'⟩
  have hlt : row < s.controller.currencies.list.length :=
    hI.rows_lt row (TableView.mem_rows_of_cellForRow hcell)
  have hmarks := hI.marks row cell hcell
  rw [Marked, Current, List.getElem?_eq_getElem hlt, Option.map_some, Option.some.injEq] at hmarks
  exact ⟨_, List.getElem?_eq_getElem hlt, hmarks⟩

/-- Three currencies. -/
def threeCurrencies : CurrencyRows where
  list := [⟨"AED", "United Arab Emirates Dirham"⟩, ⟨"AFN", "Afghan Afghani"⟩,
    ⟨"JPY", "Japanese Yen"⟩]
  nodup := by decide

/-- The selected row leaves, its cell is used again for another row, that row is tapped, and
the first one comes back. -/
def scrolledAway : List TableEvent :=
  [.showCurrencyList threeCurrencies [(0, 0), (1, 0)], .rowTapped 0, .rowLeaves 0, .rowEnters 2 0,
    .rowTapped 2, .rowLeaves 1, .rowEnters 0 0]

/-- Then the mark is at the row tapped last. -/
theorem checkmarks_scrolledAway : ∃ s, (machine "AFN" true).Reaches scrolledAway s ∧
    s.controller.selectedCurrencyCode = "JPY" ∧
    (∀ row cell, s.currencyTableView.cellForRow row = some cell →
      ∃ c, s.controller.currencies.list[row]? = some c ∧
        (cell.accessoryType = .checkmark ↔ c.code = s.controller.selectedCurrencyCode)) ∧
    s.currencyTableView.visible.map (fun r => (r.1, r.2.accessoryType)) =
      [(0, .none), (2, .checkmark)] := by
  have hrun : ((machine "AFN" true).exec (machine "AFN" true).init scrolledAway).map
      (fun s => (s.controller.selectedCurrencyCode,
        s.currencyTableView.visible.map fun r => (r.1, r.2.accessoryType))) =
      some ("JPY", [(0, .none), (2, .checkmark)]) := by decide +kernel
  rw [Option.map_eq_some_iff] at hrun
  obtain ⟨s, hs, hend⟩ := hrun
  rw [Prod.mk.injEq] at hend
  exact ⟨s, hs, hend.1, (checkmarks_of_reaches hs).1, hend.2⟩

end CurrencyTable

end ExchangeRate
