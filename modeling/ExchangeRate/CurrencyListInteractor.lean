import Mathlib.Data.List.Infix
import Mathlib.Data.List.Sort
import ExchangeRate.Realm

/-!
# The interactor of the currency list screen

`Modules/CurrencyList/Interactor/CurrencyListInteractor.swift`. The list it hands to
the view is a list of row accessors, so a row comes with its key: the view keeps the
keys, and what it reads later it reads through them.
-/

namespace ExchangeRate

/-- `CONTAINS`: exact substring search. -/
def containsWord (s word : String) : Bool := decide (word.toList <:+: s.toList)

/-- `CONTAINS[c]`: substring search after case folding. -/
def Platform.containsWordCaseless (P : Platform) (s word : String) : Bool :=
  decide (word.toList.map P.foldCase <:+: s.toList.map P.foldCase)

/-- The predicate of the query: `code CONTAINS[c] %@ OR fullname CONTAINS %@`. -/
def Platform.matchesWord (P : Platform) (searchWord : String) (c : Currency) : Bool :=
  P.containsWordCaseless c.code searchWord || containsWord c.fullname searchWord

/-- `sorted(byKeyPath: "code")`. -/
def Platform.sortedByCode (P : Platform) (rows : List (ObjKey × Currency)) :
    List (ObjKey × Currency) :=
  rows.insertionSort fun r r' => P.collates r.2.code r'.2.code

def getCurrencyListFromDB (P : Platform) (realm : Realm) (searchWord : String) :
    List (ObjKey × Currency) :=
  if searchWord.isEmpty then P.sortedByCode realm.currency.rows
  else P.sortedByCode (realm.currency.rows.filter fun r => P.matchesWord searchWord r.2)

/-- `saveSelectedItem(currency:isFromCurrency:)`; the code of the selected currency is read
inside the write block. -/
def saveSelectedItem (realm : Realm) (currency : Realm.CurrencyAccessor) (isFromCurrency : Bool) :
    Except Trap Realm :=
  match realm.userPreferenceData.first with
  | none => .ok realm
  | some _ =>
    match realm.read currency with
    | .error trap => .error trap
    | .ok c => .ok <| realm.modifyUserPreferenceData fun userPreferenceData =>
      if isFromCurrency then { userPreferenceData with fromCurrency := c.code }
      else { userPreferenceData with toCurrency := c.code }

end ExchangeRate
