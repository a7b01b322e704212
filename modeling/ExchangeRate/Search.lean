import ExchangeRate.Base.KeyedSort
import ExchangeRate.Transactions

/-!
# Searching the currency list

What `ExchangeRate.getCurrencyListFromDB` answers, as a function of the stored
currencies and the word. The answer is the full list in ascending order of codes,
filtered by the predicate of the query
(`ExchangeRate.getCurrencyListFromDB_eq_filter`): the branch for the empty word is no
exception, since every text contains the empty word, and the two orders of sorting
and filtering come to the same because `code` is the primary key.

A longer word finds less (`ExchangeRate.search_narrows`). Case is another matter. The
code of a currency is compared up to case and its full name is not, so a word finds
what it is meant to find exactly when no stored name contains it in another case only
(`ExchangeRate.caselessSearch_iff`).
-/

namespace ExchangeRate

variable {P : Platform} {realm : Realm} {w w' v : String}

/-! ### The order of the codes -/

/-- The order of a sorted query. -/
def Platform.collation (P : Platform) : Collation String where
  le := P.collates
  total := P.collates_total
  trans := P.collates_trans
  antisymm := P.collates_antisymm

/-- The key the list is sorted by. -/
def codeOfRow (r : ObjKey × Currency) : String := r.2.code

theorem sortedByCode_eq_sortBy (rows : List (ObjKey × Currency)) :
    P.sortedByCode rows = P.collation.sortBy codeOfRow rows := rfl

/-- The codes of the rows are distinct, `code` being the primary key. -/
theorem nodup_codeOfRow (realm : Realm) : (realm.currency.rows.map codeOfRow).Nodup := by
  have h := realm.currency_nodup
  rw [ObjectTable.objects, List.map_map] at h
  exact h

/-! ### The predicate of the query -/

/-- Every currency matches the empty word. -/
theorem matchesWord_of_isEmpty (h : w.isEmpty = true) (c : Currency) :
    P.matchesWord w c = true := by
  rw [String.isEmpty_iff] at h
  subst h
  simp [Platform.matchesWord, containsWord]

/-- **What matches a word matches every part of it.** -/
theorem matchesWord_of_infix (h : w.toList <:+: v.toList) {c : Currency}
    (hv : P.matchesWord v c = true) : P.matchesWord w c = true := by
  simp only [Platform.matchesWord, Platform.containsWordCaseless, containsWord, Bool.or_eq_true,
    decide_eq_true_eq] at hv ⊢
  rcases hv with hcode | hname
  · exact Or.inl ((h.map P.foldCase).trans hcode)
  · exact Or.inr (h.trans hname)

/-! ### The answer -/

/-- The two branches are one: sort the rows that match. -/
theorem getCurrencyListFromDB_eq_sortBy (P : Platform) (realm : Realm) (w : String) :
    getCurrencyListFromDB P realm w =
      P.collation.sortBy codeOfRow (realm.currency.rows.filter fun r => P.matchesWord w r.2) := by
  unfold getCurrencyListFromDB
  by_cases h : w.isEmpty = true
  · have hall : realm.currency.rows.filter (fun r => P.matchesWord w r.2) = realm.currency.rows :=
      List.filter_eq_self.mpr fun r _ => matchesWord_of_isEmpty h r.2
    rw [if_pos h, hall, sortedByCode_eq_sortBy]
  · rw [if_neg h, sortedByCode_eq_sortBy]

/-- **The answer is the sorted list of all currencies, filtered.** -/
theorem getCurrencyListFromDB_eq_filter (P : Platform) (realm : Realm) (w : String) :
    getCurrencyListFromDB P realm w =
      (P.collation.sortBy codeOfRow realm.currency.rows).filter fun r => P.matchesWord w r.2 := by
  rw [getCurrencyListFromDB_eq_sortBy, Collation.sortBy_filter (nodup_codeOfRow realm)]

theorem mem_getCurrencyListFromDB {r : ObjKey × Currency} :
    r ∈ getCurrencyListFromDB P realm w ↔
      r ∈ realm.currency.rows ∧ P.matchesWord w r.2 = true := by
  rw [getCurrencyListFromDB_eq_filter, List.mem_filter, Collation.mem_sortBy]

theorem ascending_getCurrencyListFromDB (P : Platform) (realm : Realm) (w : String) :
    P.collation.Ascending codeOfRow (getCurrencyListFromDB P realm w) := by
  rw [getCurrencyListFromDB_eq_filter]
  exact (Collation.ascending_sortBy (nodup_codeOfRow realm)).sublist List.filter_sublist

/-- **The currencies of the answer** are the stored ones that match, sorted by code; the keys of
their rows do not matter. -/
theorem map_getCurrencyListFromDB (P : Platform) (realm : Realm) (w : String) :
    (getCurrencyListFromDB P realm w).map Prod.snd =
      P.collation.sortBy Currency.code (realm.currency.objects.filter (P.matchesWord w)) := by
  have hcode : codeOfRow = Currency.code ∘ Prod.snd := rfl
  rw [getCurrencyListFromDB_eq_sortBy, hcode, Collation.map_sortBy, ObjectTable.objects,
    List.filter_map]
  rfl

/-! ### A store to search -/

/-- The store after a first save of the two currencies. -/
theorem exists_currencies_saved : ∃ realm,
    saveCurrencyData Platform.sample currencyListBody 0 .empty = .ok (realm, 0) ∧
      realm.currency.rows =
        [(0, ⟨"AED", "United Arab Emirates Dirham"⟩), (1, ⟨"AFN", "Afghan Afghani"⟩)] := by
  obtain ⟨realm, hsave, hsaved⟩ := saveCurrencyData_of_decode decode_currencyListBody 0 .empty
  refine ⟨realm, hsave, ?_⟩
  rw [hsaved.currency]
  rfl

/-! ### A longer word finds less -/

/-- **Typing narrows the list**: the answer to a word is a part of the answer to every part
of the word, in the same order, and every answer ascends strictly by code. -/
theorem search_narrows (P : Platform) (realm : Realm) (h : w.toList <:+: v.toList) :
    (getCurrencyListFromDB P realm v).Sublist (getCurrencyListFromDB P realm w) ∧
      P.collation.Ascending codeOfRow (getCurrencyListFromDB P realm v) ∧
      P.collation.Ascending codeOfRow (getCurrencyListFromDB P realm w) := by
  refine ⟨?_, ascending_getCurrencyListFromDB P realm v, ascending_getCurrencyListFromDB P realm w⟩
  rw [getCurrencyListFromDB_eq_filter P realm v, getCurrencyListFromDB_eq_filter P realm w]
  exact List.monotone_filter_right _ fun r hr => matchesWord_of_infix h hr

/-- Two rows are left of the word `A`, and one of `AF`. -/
theorem search_narrows_afghani : ∃ realm,
    saveCurrencyData Platform.sample currencyListBody 0 .empty = .ok (realm, 0) ∧
      (getCurrencyListFromDB Platform.sample realm "A").length = 2 ∧
      (getCurrencyListFromDB Platform.sample realm "AF").length = 1 ∧
      (getCurrencyListFromDB Platform.sample realm "AF").Sublist
        (getCurrencyListFromDB Platform.sample realm "A") := by
  obtain ⟨realm, hsave, hrows⟩ := exists_currencies_saved
  refine ⟨realm, hsave, ?_, ?_, (search_narrows Platform.sample realm (by decide)).1⟩
  · rw [getCurrencyListFromDB, hrows]
    decide +kernel
  · rw [getCurrencyListFromDB, hrows]
    decide +kernel

/-! ### A word in another case -/

/-- The words differ in the case of letters only. -/
def Platform.SameUpToCase (P : Platform) (w w' : String) : Prop :=
  w.toList.map P.foldCase = w'.toList.map P.foldCase

/-- **Search without regard to case**: a word and the same word in another case find the
same; what they find ascends strictly by code, and it is every currency whose code or whose
full name contains the word up to case. -/
structure CaselessSearch (P : Platform) (realm : Realm) (w w' : String) : Prop where
  same : getCurrencyListFromDB P realm w = getCurrencyListFromDB P realm w'
  ascending : P.collation.Ascending codeOfRow (getCurrencyListFromDB P realm w)
  nodup : (getCurrencyListFromDB P realm w).Nodup
  complete : ∀ r, r ∈ getCurrencyListFromDB P realm w ↔ r ∈ realm.currency.rows ∧
    (P.containsWordCaseless r.2.code w = true ∨ P.containsWordCaseless r.2.fullname w = true)

/-- Words that differ in case only are contained in the same texts, up to case. -/
theorem containsWordCaseless_congr (h : P.SameUpToCase w w') (s : String) :
    P.containsWordCaseless s w = P.containsWordCaseless s w' := by
  rw [Platform.containsWordCaseless, Platform.containsWordCaseless, h]

/-- A text that does not contain a word up to case does not contain it. -/
theorem not_containsWord_of_caseless {s : String} (h : P.containsWordCaseless s w = false) :
    containsWord s w = false := by
  rw [Platform.containsWordCaseless, decide_eq_false_iff_not] at h
  rw [containsWord, decide_eq_false_iff_not]
  intro hexact
  exact h (hexact.map P.foldCase)

/-- A name that contains the word up to case, under a code that does not, is found exactly
when the name contains the word as it is. -/
theorem matchesWord_eq_containsWord {c : Currency}
    (hcode : P.containsWordCaseless c.code w = false) :
    P.matchesWord w c = containsWord c.fullname w := by
  rw [Platform.matchesWord, hcode, Bool.false_or]

/-- **A currency whose name is spelt as the words are**, if it matters, matches the words when
it is meant to. -/
theorem matchesWord_of_spelt (h : P.SameUpToCase w w') {c : Currency}
    (hspelt : P.containsWordCaseless c.fullname w = true → P.containsWordCaseless c.code w = false →
      containsWord c.fullname w = true ∧ containsWord c.fullname w' = true) :
    P.matchesWord w c =
        (P.containsWordCaseless c.code w || P.containsWordCaseless c.fullname w) ∧
      P.matchesWord w c = P.matchesWord w' c := by
  have hcode' := containsWordCaseless_congr h c.code
  have hname' := containsWordCaseless_congr h c.fullname
  cases hcode : P.containsWordCaseless c.code w with
  | true =>
    rw [hcode] at hcode'
    simp [Platform.matchesWord, hcode, ← hcode']
  | false =>
    rw [hcode] at hcode'
    rw [matchesWord_eq_containsWord hcode, matchesWord_eq_containsWord hcode'.symm]
    cases hname : P.containsWordCaseless c.fullname w with
    | true =>
      obtain ⟨hw, hw'⟩ := hspelt hname hcode
      simp [hw, hw']
    | false =>
      rw [hname] at hname'
      simp [not_containsWord_of_caseless hname, not_containsWord_of_caseless hname'.symm]

/-- **When the search is without regard to case**: exactly when every stored name that
contains the word up to case, and whose code does not, contains both spellings as they
are. -/
theorem caselessSearch_iff (realm : Realm) (h : P.SameUpToCase w w') :
    CaselessSearch P realm w w' ↔ ∀ c ∈ realm.currency.objects,
      P.containsWordCaseless c.fullname w = true → P.containsWordCaseless c.code w = false →
        containsWord c.fullname w = true ∧ containsWord c.fullname w' = true := by
  constructor
  · intro hsearch c hc hname hcode
    obtain ⟨r, hr, rfl⟩ := List.mem_map.mp hc
    have hcode' : P.containsWordCaseless r.2.code w' = false := by
      rwa [← containsWordCaseless_congr h]
    -- the row belongs into the answer to the one word, so it is in the answer to the other
    have hmem := (hsearch.complete r).mpr ⟨hr, Or.inr hname⟩
    have hmem' := hmem
    rw [hsearch.same] at hmem'
    rw [← matchesWord_eq_containsWord hcode, ← matchesWord_eq_containsWord hcode']
    exact ⟨(mem_getCurrencyListFromDB.mp hmem).2, (mem_getCurrencyListFromDB.mp hmem').2⟩
  · intro hnames
    have hmeant (r : ObjKey × Currency) (hr : r ∈ realm.currency.rows) :=
      matchesWord_of_spelt h (hnames r.2 (List.mem_map.mpr ⟨r, hr, rfl⟩))
    have hascending := ascending_getCurrencyListFromDB P realm w
    refine ⟨?_, hascending, hascending.nodup, fun r => ?_⟩
    · rw [getCurrencyListFromDB_eq_sortBy, getCurrencyListFromDB_eq_sortBy]
      exact congrArg _ (List.filter_congr fun r hr => (hmeant r hr).2)
    · rw [mem_getCurrencyListFromDB]
      refine and_congr_right fun hr => ?_
      rw [(hmeant r hr).1, Bool.or_eq_true]

/-- The word `AFN` is found in either case, as no name contains it. -/
theorem caselessSearch_afn : ∃ realm,
    saveCurrencyData Platform.sample currencyListBody 0 .empty = .ok (realm, 0) ∧
      CaselessSearch Platform.sample realm "AFN" "afn" := by
  obtain ⟨realm, hsave, hrows⟩ := exists_currencies_saved
  refine ⟨realm, hsave, (caselessSearch_iff realm (by unfold Platform.SameUpToCase; decide)).mpr ?_⟩
  rw [ObjectTable.objects, hrows]
  decide +kernel

/-- **The word `afghan` finds nothing**, although `Afghan` finds the Afghani. -/
theorem caselessSearch_fails : ∃ realm,
    saveCurrencyData Platform.sample currencyListBody 0 .empty = .ok (realm, 0) ∧
      Platform.sample.SameUpToCase "Afghan" "afghan" ∧
      getCurrencyListFromDB Platform.sample realm "Afghan" = [(1, ⟨"AFN", "Afghan Afghani"⟩)] ∧
      getCurrencyListFromDB Platform.sample realm "afghan" = [] ∧
      ¬CaselessSearch Platform.sample realm "Afghan" "afghan" := by
  obtain ⟨realm, hsave, hrows⟩ := exists_currencies_saved
  have hupper : getCurrencyListFromDB Platform.sample realm "Afghan" =
      [(1, ⟨"AFN", "Afghan Afghani"⟩)] := by
    rw [getCurrencyListFromDB, hrows]
    decide +kernel
  have hlower : getCurrencyListFromDB Platform.sample realm "afghan" = [] := by
    rw [getCurrencyListFromDB, hrows]
    decide +kernel
  refine ⟨realm, hsave, by unfold Platform.SameUpToCase; decide, hupper, hlower, fun hsearch => ?_⟩
  have hsame := hsearch.same
  rw [hupper, hlower] at hsame
  cases hsame

end ExchangeRate
