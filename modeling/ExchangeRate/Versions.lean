import ExchangeRate.App

/-!
# The two versions of the store

The main thread reads a version of the store that may lag behind the newest one. What
it can miss is limited: the preferences are written by the main thread alone, so they
are the same in both versions (`ExchangeRate.PreferencesKept`); a record of rates, once
there, is replaced but never removed, so the main thread misses a record at most as
long as it has not seen the first one (`ExchangeRate.RecordKept`); and the rows of the
currency list are replaced as a whole by each save, so two versions share all of them
or none (`ExchangeRate.RowsHeld`).

For the last part the saves of currencies are counted along the run
(`ExchangeRate.RowMarks`): how many have been committed, how many the main thread has
seen, and how many it had seen when the array of the list screen was loaded.
-/

namespace ExchangeRate

variable {P : Platform} {es : List AppEvent} {s s' : App} {e : AppEvent} {realm realm' : Realm}

/-! ### The phases -/

theorem launched_of_phase (h : s.phase ≠ .notLaunched) : 0 < s.shows := by
  unfold App.shows
  split
  · exact absurd ‹_› h
  all_goals decide

/-- The list screen is open only over a Top screen that has appeared. -/
theorem appeared_of_list (h : (App.machine P).Reaches es s) (hopen : s.list ≠ none) :
    s.phase = .appeared := by
  refine StepMachine.Reaches.invariant (M := App.machine P)
    (I := fun _ s => s.list ≠ none → s.phase = .appeared) (fun hne => absurd rfl hne)
    (fun es s e s' _ hI hstep => ?_) h hopen
  cases App.appStep_of_step hstep with
  | launch => exact fun hne => absurd rfl hne
  | finishViewDidLoad now hphase =>
    intro hne
    have happeared := hI hne
    rw [hphase] at happeared
    cases happeared
  | viewWillAppear => exact fun _ => rfl
  | tapCurrencyButton isFromButton hfront => exact fun _ => hfront.1
  | search searchWord l hlist => exact fun _ => hI (by simp [hlist])
  | tapRow row l hlist => exact fun _ => hI (by simp [hlist])
  | beginDismiss l hlist => exact fun _ => hI (by simp [hlist])
  | cancelDismiss l hlist => exact fun _ => hI (by simp [hlist])
  | finishDismiss => exact fun hne => absurd rfl hne
  | _ => exact hI

theorem launched_of_list (h : (App.machine P).Reaches es s) {l : ListScreen}
    (hl : s.list = some l) : 0 < s.shows :=
  launched_of_phase (by simp [appeared_of_list h (by simp [hl])])

/-! ### The preferences -/

theorem storedCode_congr (h : realm'.userPreferenceData = realm.userPreferenceData)
    (isFromCurrency : Bool) : realm'.storedCode isFromCurrency = realm.storedCode isFromCurrency := by
  rw [Realm.storedCode, Realm.storedCode, h]

theorem storedCode_of_objects {u : UserPreferenceData}
    (h : realm.userPreferenceData.objects = [u]) (isFromCurrency : Bool) :
    realm.storedCode isFromCurrency =
      some (if isFromCurrency then u.fromCurrency else u.toCurrency) := by
  rw [Realm.storedCode, ObjectTable.first_eq_some_of_objects h, Option.map_some]

/-- What a selection commits, when there is one record of preferences. -/
theorem saveSelectedItem_ok {k : ObjKey} {isFromCurrency : Bool} {u : UserPreferenceData}
    (hu : realm.userPreferenceData.objects = [u])
    (h : saveSelectedItem realm (.managed k) isFromCurrency = .ok realm') :
    ∃ c, realm.currency.get k = some c ∧ realm'.userPreferenceData.objects =
      [if isFromCurrency then { u with fromCurrency := c.code }
        else { u with toCurrency := c.code }] := by
  cases hget : realm.currency.get k with
  | none =>
    rw [saveSelectedItem, ObjectTable.first_eq_some_of_objects hu, Realm.read, hget] at h
    cases h
  | some c =>
    obtain ⟨realm₁, hsave, hobjects⟩ :=
      saveSelectedItem_of_read (Realm.read_of_get hget) isFromCurrency
    rw [hsave] at h
    cases h
    refine ⟨c, rfl, ?_⟩
    rw [hobjects, hu]
    rfl

/-- **The preferences of a launched application**: there is one record, and both versions of
the store have it. -/
structure PreferencesKept (s : App) : Prop where
  single : ∃ u, s.realm.userPreferenceData.objects = [u]
  same : s.main.userPreferenceData = s.realm.userPreferenceData

theorem preferencesKept_of_reaches (h : (App.machine P).Reaches es s) (hlaunched : 0 < s.shows) :
    PreferencesKept s := by
  refine StepMachine.Reaches.invariant (M := App.machine P)
    (I := fun _ s => 0 < s.shows → PreferencesKept s) (fun hpos => absurd hpos (lt_irrefl 0))
    (fun es s e s' _ hI hstep => ?_) h hlaunched
  cases App.appStep_of_step hstep with
  | launch => exact fun _ => ⟨⟨_, objects_setDefault s.realm⟩, rfl⟩
  | finishViewDidLoad now hphase =>
    intro _
    obtain ⟨hsingle, hsame⟩ := hI (launched_of_phase (by simp [hphase]))
    exact ⟨hsingle, hsame⟩
  | viewWillAppear hphase =>
    intro _
    obtain ⟨hsingle, hsame⟩ := hI (launched_of_phase (by simp [hphase]))
    exact ⟨hsingle, hsame⟩
  | currencyListSaved data now htask response realm hsaved =>
    intro hpos
    obtain ⟨⟨u, hu⟩, hsame⟩ := hI hpos
    exact ⟨⟨u, by rw [hsaved.userPreferenceData]; exact hu⟩,
      by rw [hsaved.userPreferenceData]; exact hsame⟩
  | ratesSaved data now htask response realm hsaved =>
    intro hpos
    obtain ⟨⟨u, hu⟩, hsame⟩ := hI hpos
    exact ⟨⟨u, by rw [hsaved.userPreferenceData]; exact hu⟩,
      by rw [hsaved.userPreferenceData]; exact hsame⟩
  | refresh => exact fun hpos => ⟨(hI hpos).single, rfl⟩
  | tapExchange =>
    intro hpos
    obtain ⟨u, hu⟩ := (hI hpos).single
    exact ⟨⟨_, by rw [objects_exchange, hu]; rfl⟩, rfl⟩
  | tapRow row l hlist hnot k selectedItem hmain realm hsave =>
    intro hpos
    obtain ⟨u, hu⟩ := (hI hpos).single
    obtain ⟨c, -, hobjects⟩ := saveSelectedItem_ok hu hsave
    exact ⟨⟨_, hobjects⟩, rfl⟩
  | _ => exact fun hpos => ⟨(hI hpos).single, (hI hpos).same⟩

/-! ### The record of rates -/

/-- **The main thread sees a record of rates only if there is one.** -/
def RecordKept (s : App) : Prop :=
  s.realm.exchangeRateData.first = none → s.main.exchangeRateData.first = none

theorem recordKept_of_reaches (h : (App.machine P).Reaches es s) : RecordKept s := by
  refine StepMachine.Reaches.invariant (M := App.machine P) (I := fun _ s => RecordKept s)
    (fun hnone => hnone) (fun es s e s' _ hI hstep => ?_) h
  cases App.appStep_of_step hstep with
  | launch => exact fun hnone => hnone
  | currencyListSaved data now htask response realm hsaved =>
    intro hnone
    rw [hsaved.exchangeRateData] at hnone
    exact hI hnone
  | ratesSaved data now htask response realm hsaved =>
    intro hnone
    rw [ObjectTable.first_eq_some_of_objects hsaved.exchangeRateData_objects] at hnone
    cases hnone
  | refresh => exact fun hnone => hnone
  | tapExchange => exact fun hnone => hnone
  | tapRow => exact fun hnone => hnone
  | _ => exact hI

/-! ### The rows of the currency list -/

/-- How many saves of currencies have been committed, how many the main thread has seen, and
how many it had seen when the list screen loaded its array. -/
structure RowMarks where
  committed : ℕ
  main : ℕ
  list : ℕ

/-- The marks after one event more. -/
def RowMarks.after (m : RowMarks) : AppEvent → RowMarks
  | .currencyListCompletion (some _) _ => { m with committed := m.committed + 1 }
  -- a refresh, and every write block of the main thread, brings the newest version
  | .refresh | .launch _ | .tapExchange | .tapRow _ => { m with main := m.committed }
  | .tapCurrencyButton _ | .search _ => { m with list := m.main }
  | _ => m

/-- **The marks of a run.** -/
def rowMarks (es : List AppEvent) : RowMarks := es.foldl RowMarks.after ⟨0, 0, 0⟩

theorem rowMarks_concat (es : List AppEvent) (e : AppEvent) :
    rowMarks (es ++ [e]) = (rowMarks es).after e :=
  List.foldl_concat ..

/-- **What the marks say about the rows**: the rows of the main thread's version, and those
the list screen holds, are alive exactly when their marks are level with the version they are
looked up in. -/
structure RowsHeld (m : RowMarks) (s : App) : Prop where
  main : s.realm.currency.Held m.committed s.main.currency.keys m.main
  same : m.main = m.committed → s.main.currency = s.realm.currency
  list : ∀ l, s.list = some l → s.realm.currency.Held m.committed l.currencies m.list ∧
    s.main.currency.Held m.main l.currencies m.list

namespace RowsHeld

variable {m : RowMarks}

/-- The main thread takes over the newest version, with the array it had. -/
theorem advance (h : RowsHeld m s) (hrealm : s'.realm.currency = s.realm.currency)
    (hmain : s'.main = s'.realm)
    (hlist : ∀ l', s'.list = some l' → ∃ l, s.list = some l ∧ l'.currencies = l.currencies) :
    RowsHeld { m with main := m.committed } s' := by
  refine ⟨?_, fun _ => by rw [hmain], fun l' hl' => ?_⟩
  · rw [hmain]
    exact .of_keys _ _
  · obtain ⟨l, hl, heq⟩ := hlist l' hl'
    rw [hmain, hrealm, heq]
    exact ⟨(h.list l hl).1, (h.list l hl).1⟩

/-- The array is loaded from the version of the main thread. -/
theorem load (h : RowsHeld m s) (hrealm : s'.realm = s.realm) (hmain : s'.main = s.main)
    (hlist : ∀ l, s'.list = some l → ∀ k ∈ l.currencies, k ∈ s.main.currency.keys) :
    RowsHeld { m with list := m.main } s' := by
  refine ⟨by rw [hrealm, hmain]; exact h.main, by rw [hrealm, hmain]; exact h.same, fun l hl => ?_⟩
  rw [hrealm, hmain]
  exact ⟨h.main.of_subset (hlist l hl), (ObjectTable.Held.of_keys _ _).of_subset (hlist l hl)⟩

end RowsHeld

/-- The rows of a list are rows of the version it is read from. -/
theorem mem_currencyKeys {searchWord : String} {k : ObjKey}
    (hk : k ∈ App.currencyKeys P realm searchWord) : k ∈ realm.currency.keys := by
  rw [App.currencyKeys, List.mem_map] at hk
  obtain ⟨r, hr, rfl⟩ := hk
  have hrow : r ∈ realm.currency.rows := by
    unfold getCurrencyListFromDB at hr
    split at hr
    · exact (List.mem_insertionSort _).mp hr
    · exact List.mem_of_mem_filter ((List.mem_insertionSort _).mp hr)
  exact List.mem_map_of_mem hrow

theorem rowsHeld_of_reaches (h : (App.machine P).Reaches es s) : RowsHeld (rowMarks es) s := by
  refine StepMachine.Reaches.invariant (M := App.machine P)
    (I := fun es s => RowsHeld (rowMarks es) s) ⟨.of_keys _ _, fun _ => rfl, nofun⟩
    (fun es s e s' _ hI hstep => ?_) h
  rw [rowMarks_concat]
  cases App.appStep_of_step hstep with
  | launch => exact hI.advance rfl rfl nofun
  | currencyListSaved data now htask response realm hsaved =>
    -- every row is replaced: whatever is held outside dies, and nothing is level any more
    refine ⟨?_, fun heq => ?_, fun l hl => ⟨?_, (hI.list l hl).2⟩⟩
    · rw [hsaved.currency]
      exact hI.main.replace _
    · have hlt : (rowMarks es).main < (rowMarks es).committed + 1 := Nat.lt_succ_of_le hI.main.le
      exact absurd heq hlt.ne
    · rw [hsaved.currency]
      exact (hI.list l hl).1.replace _
  | ratesSaved data now htask response realm hsaved =>
    refine ⟨?_, fun heq => ?_, fun l hl => ⟨?_, (hI.list l hl).2⟩⟩
    · rw [hsaved.currency]
      exact hI.main
    · rw [hsaved.currency]
      exact hI.same heq
    · rw [hsaved.currency]
      exact (hI.list l hl).1
  | refresh => exact hI.advance rfl rfl fun l hl => ⟨l, hl, rfl⟩
  | tapExchange =>
    exact hI.advance (onlyPreferences_exchange s.realm).currency rfl fun l hl => ⟨l, hl, rfl⟩
  | tapRow row l hlist hnot k selectedItem hmain realm hsave =>
    refine hI.advance (onlyPreferences_select hsave).currency rfl fun l' hl' => ⟨l, hlist, ?_⟩
    cases hl'
    rfl
  | tapCurrencyButton isFromButton hfront =>
    refine hI.load rfl rfl fun l hl k hk => ?_
    cases hl
    exact mem_currencyKeys hk
  | search searchWord l hlist =>
    refine hI.load rfl rfl fun l' hl' k hk => ?_
    cases hl'
    exact mem_currencyKeys hk
  | beginDismiss l hlist hnot =>
    refine ⟨hI.main, hI.same, fun l' hl' => ?_⟩
    cases hl'
    exact hI.list l hlist
  | cancelDismiss l hlist hdismissing =>
    refine ⟨hI.main, hI.same, fun l' hl' => ?_⟩
    cases hl'
    exact hI.list l hlist
  | finishDismiss => exact ⟨hI.main, hI.same, nofun⟩
  | _ => exact ⟨hI.main, hI.same, hI.list⟩

/-- **A row that is alive in both versions is the same in both.** -/
theorem get_eq_of_reaches (h : (App.machine P).Reaches es s) {k : ObjKey} {c c' : Currency}
    (hmain : s.main.currency.get k = some c) (hrealm : s.realm.currency.get k = some c') :
    c = c' := by
  have hheld := rowsHeld_of_reaches h
  -- alive in the newest version, so the main thread has seen every save
  have hmem : k ∈ s.main.currency.keys := ObjectTable.exists_get_iff.mp ⟨c, hmain⟩
  have hlevel := (hheld.main.mem_keys_iff hmem).mp (ObjectTable.exists_get_iff.mp ⟨c', hrealm⟩)
  rw [hheld.same hlevel, hrealm] at hmain
  exact (Option.some.inj hmain).symm

end ExchangeRate
