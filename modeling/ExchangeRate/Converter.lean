import ExchangeRate.Base.Converter
import ExchangeRate.Display
import ExchangeRate.Titles

/-!
# The application is a converter

Without its store, its requests and its two screens, what is left of the application is
a converter with a display (`Converter`): two codes, an amount, the rates of the
version the main thread reads, and a value on the label. Every event of a run is a few
calls of that converter (`ExchangeRate.App.callsOf`): a tap on a row selects a code
without calculating, the appearance of the Top screen only calculates, a launch starts
a new converter, and the events that only move data between the network, the store and
the screens are no calls at all. The runs of the application are runs of the converter
(`ExchangeRate.refines_converter`).
-/

namespace ExchangeRate

variable {P : Platform} {es : List AppEvent} {s s' : App} {e : AppEvent}
  {c : Converter String ℤ ℚ}

/-! ### The rates of a store -/

/-- The conversion of an amount between two codes with the stored rates. -/
def conversionBetween (realm : Realm) (fromCode toCode : String) (amount : ℤ) : ℚ :=
  match realm.exchangeRateData.first with
  | some d =>
    match realm.rateOf (d.source ++ fromCode), realm.rateOf (d.source ++ toCode) with
    | some rateFrom, some rateTo => amount * rateTo / rateFrom
    | _, _ => 0
  | none => 0

/-- Between the stored codes it is the conversion that the application calculates. -/
theorem conversion_of_storedCode {realm : Realm} {fromCode toCode : String}
    (hfrom : realm.storedCode true = some fromCode) (hto : realm.storedCode false = some toCode)
    (amount : ℤ) : conversion realm amount = conversionBetween realm fromCode toCode amount := by
  obtain ⟨u, hu, rfl⟩ := Option.map_eq_some_iff.mp hfrom
  rw [Realm.storedCode, hu, Option.map_some, Option.some.injEq] at hto
  obtain rfl : u.toCurrency = toCode := hto
  rw [conversion, conversionBetween, hu, if_pos rfl]
  cases realm.exchangeRateData.first <;> rfl

/-- The rates are not among the preferences. -/
theorem OnlyPreferences.conversionBetween {realm realm' : Realm} (h : OnlyPreferences realm realm')
    (fromCode toCode : String) (amount : ℤ) :
    ExchangeRate.conversionBetween realm' fromCode toCode amount =
      ExchangeRate.conversionBetween realm fromCode toCode amount := by
  simp only [ExchangeRate.conversionBetween, Realm.rateOf, Realm.rateWithCode, h.rate,
    h.exchangeRateData]

theorem conversionBetween_zero (realm : Realm) (fromCode toCode : String) :
    conversionBetween realm fromCode toCode 0 = 0 := by
  unfold conversionBetween
  split
  · split
    · rw [Int.cast_zero, zero_mul, zero_div]
    · rfl
  · rfl

/-- What the stored rates say about every pair of codes. -/
def Realm.rates (realm : Realm) : Rates String ℤ ℚ where
  worth := conversionBetween realm
  worth_zero := conversionBetween_zero realm

theorem OnlyPreferences.rates {realm realm' : Realm} (h : OnlyPreferences realm realm') :
    realm'.rates = realm.rates := by
  ext fromCode toCode amount
  exact h.conversionBetween fromCode toCode amount

/-! ### The calls of a run -/

/-- The codes of a first launch, the side `true` being the one converted from. -/
def Define.defaultCode (isFromCurrency : Bool) : String :=
  if isFromCurrency then Define.defaultFromCurrency else Define.defaultToCurrency

namespace App

/-- The calls of one event, which has led to the state `s'`. Every write block of the main thread
brings it the newest rates. -/
def callsOf (s' : App) : AppEvent → List (ConverterEvent String ℤ ℚ)
  | .launch _ => [.start Define.defaultCode s'.main.rates]
  | .viewWillAppear | .beginDismiss => [.display]
  | .refresh => [.update s'.main.rates]
  | .editText text => [.enter ((intOfText text).getD 0)]
  | .tapExchange => [.update s'.main.rates, .swap]
  | .tapRow _ =>
    s'.list.elim [] fun l =>
      [.update s'.main.rates, .select l.isFromButton l.selectedCurrencyCode]
  | _ => []

/-- The calls of the events that follow a state. -/
def callsFrom (P : Platform) : App → List AppEvent → List (ConverterEvent String ℤ ℚ)
  | _, [] => []
  | s, e :: es => (s.step P e).elim [] fun s' => s'.callsOf e ++ callsFrom P s' es

/-- **The calls of a run.** -/
def calls (P : Platform) (es : List AppEvent) : List (ConverterEvent String ℤ ℚ) :=
  callsFrom P installed es

theorem callsFrom_append {s₀ : App} {es' : List AppEvent}
    (h : (machine P).exec s₀ es = some s) :
    callsFrom P s₀ (es ++ es') = callsFrom P s₀ es ++ callsFrom P s es' := by
  induction es generalizing s₀ with
  | nil =>
    obtain rfl : s₀ = s := Option.some.inj h
    rfl
  | cons e es ih =>
    obtain ⟨s₁, hstep, hrest⟩ := Option.bind_eq_some_iff.mp h
    have hstep : s₀.step P e = some s₁ := hstep
    rw [List.cons_append, callsFrom, callsFrom, hstep, Option.elim_some, Option.elim_some, ih hrest,
      List.append_assoc]

theorem calls_concat (h : (machine P).Reaches es s) (hstep : s.step P e = some s') :
    calls P (es ++ [e]) = calls P es ++ s'.callsOf e := by
  have hexec : (machine P).exec installed es = some s := h
  rw [calls, callsFrom_append hexec, callsFrom, hstep, Option.elim_some, callsFrom,
    List.append_nil, calls]

end App

/-! ### What one event does to the converter -/

/-- **The converter holds what the application calculates with**: the stored codes, the amount in
the text field, and the rates of the version the main thread reads. -/
structure Follows (s : App) (c : Converter String ℤ ℚ) : Prop where
  code : ∀ side, s.realm.storedCode side = some (c.key side)
  amount : c.amount = s.amount
  rates : c.rates = s.main.rates

theorem Follows.congr (h : Follows s c)
    (hpreferences : s'.realm.userPreferenceData = s.realm.userPreferenceData)
    (htext : s'.text = s.text) (hmain : s'.main = s.main) : Follows s' c := by
  refine ⟨fun side => ?_, ?_, ?_⟩
  · rw [storedCode_congr hpreferences, h.code]
  · rw [h.amount, App.amount, App.amount, htext]
  · rw [h.rates, hmain]

/-- What the amount of the converter is worth is the conversion that the application calculates. -/
theorem Follows.converted (h : Follows s c) (hpreferences : PreferencesKept s) :
    s.converted P s.main = P.formatWithComma c.worth := by
  have hcode : ∀ side, s.main.storedCode side = some (c.key side) := fun side =>
    (storedCode_congr hpreferences.same side).trans (h.code side)
  rw [App.converted, conversion_of_storedCode (hcode true) (hcode false), Converter.worth, h.amount,
    h.rates]
  rfl

theorem follows_step (hs : (App.machine P).Reaches es s) (hstep : s.step P e = some s')
    (hI : 0 < s.shows → Follows s c) (hlaunched : 0 < s'.shows) :
    Follows s' (c.run (s'.callsOf e)) := by
  cases App.appStep_of_step hstep with
  | launch => exact ⟨storedCode_setDefault s.realm, rfl, rfl⟩
  | finishViewDidLoad now hphase =>
    exact (hI (launched_of_phase (by simp [hphase]))).congr rfl rfl rfl
  | viewWillAppear hphase =>
    have hI := hI (launched_of_phase (by simp [hphase]))
    exact ⟨hI.code, hI.amount, hI.rates⟩
  | currencyListSaved data now htask response realm hsaved =>
    exact (hI hlaunched).congr hsaved.userPreferenceData rfl rfl
  | ratesSaved data now htask response realm hsaved =>
    exact (hI hlaunched).congr hsaved.userPreferenceData rfl rfl
  | refresh => exact ⟨(hI hlaunched).code, (hI hlaunched).amount, rfl⟩
  | editText => exact ⟨(hI hlaunched).code, rfl, (hI hlaunched).rates⟩
  | tapExchange hfront =>
    have hcode := (hI hlaunched).code
    obtain ⟨u, hu⟩ := (preferencesKept_of_reaches hs hlaunched).single
    have hobjects : (exchangeCurrency s.realm).1.userPreferenceData.objects =
        [⟨u.toCurrency, u.fromCurrency⟩] := by
      rw [objects_exchange, hu]
      rfl
    refine ⟨fun side => ?_, rfl, rfl⟩
    have hother := hcode (!side)
    rw [storedCode_of_objects hu] at hother
    refine Eq.trans ?_ hother
    rw [storedCode_of_objects hobjects]
    cases side <;> rfl
  | tapRow row l hlist hnot k selectedItem hmain realm hsave =>
    have hI := hI hlaunched
    obtain ⟨u, hu⟩ := (preferencesKept_of_reaches hs hlaunched).single
    obtain ⟨item, hget, hcode, hother⟩ := storedCode_select hu hsave
    rw [← get_eq_of_reaches hs hmain hget] at hcode
    refine ⟨fun side => ?_, hI.amount, rfl⟩
    change realm.storedCode side = some (Function.update c.key l.isFromButton selectedItem.code side)
    -- the side of the list, or the other one
    by_cases hside : side = l.isFromButton
    · rw [hside, Function.update_self, hcode]
    · rw [Function.update_of_ne hside, Bool.eq_not_of_ne hside, hother, hI.code]
  | beginDismiss => exact ⟨(hI hlaunched).code, (hI hlaunched).amount, (hI hlaunched).rates⟩
  | _ => exact (hI hlaunched).congr rfl rfl rfl

/-- The events that write the label are those whose last call displays. -/
theorem getLast_callsOf (s' : App) (he : e.displays = true) :
    ∃ d, (s'.callsOf e).getLast? = some d ∧ d.displays = true := by
  cases e with
  | launch now => exact ⟨_, rfl, rfl⟩
  | viewWillAppear => exact ⟨_, rfl, rfl⟩
  | editText text => exact ⟨_, rfl, rfl⟩
  | tapExchange => exact ⟨_, rfl, rfl⟩
  | beginDismiss => exact ⟨_, rfl, rfl⟩
  | _ => cases he

theorem displays_callsOf (s' : App) (he : e.displays ≠ true) :
    ∀ d ∈ s'.callsOf e, d.displays = false := by
  cases e with
  | tapRow row => cases hlist : s'.list <;> simp [App.callsOf, hlist, ConverterEvent.displays]
  | refresh => simp [App.callsOf, ConverterEvent.displays]
  | launch now => exact absurd rfl he
  | viewWillAppear => exact absurd rfl he
  | editText text => exact absurd rfl he
  | tapExchange => exact absurd rfl he
  | beginDismiss => exact absurd rfl he
  | _ => exact List.forall_mem_nil _

/-! ### The refinement -/

/-- **The application shows the converter**: it holds what is calculated with, the titles of a Top
screen in front are its keys, and the label is the value it shows. -/
structure Shows (P : Platform) (s : App) (c : Converter String ℤ ℚ) : Prop extends Follows s c where
  title : s.TopInFront → ∀ side, s.title side = c.key side
  label : s.label = P.formatWithComma c.shown

/-- **Every run of the application is a run of the converter**, from whatever converter, and the
value shown is current when the last event of the run is one that writes the label. -/
theorem refines_converter (h : (App.machine P).Reaches es s) (hlaunched : 0 < s.shows)
    (c : Converter String ℤ ℚ) : Shows P s (c.run (App.calls P es)) ∧
      ∀ e, es.getLast? = some e → e.displays = true → (c.run (App.calls P es)).Current := by
  obtain ⟨⟨hfollows, hlabel⟩, hcurrent⟩ : (Follows s (c.run (App.calls P es)) ∧
      s.label = P.formatWithComma (c.run (App.calls P es)).shown) ∧
      ∀ e, es.getLast? = some e → e.displays = true → (c.run (App.calls P es)).Current := by
    refine StepMachine.Reaches.invariant (M := App.machine P)
      (I := fun es s => 0 < s.shows → (Follows s (c.run (App.calls P es)) ∧
        s.label = P.formatWithComma (c.run (App.calls P es)).shown) ∧
        ∀ e, es.getLast? = some e → e.displays = true → (c.run (App.calls P es)).Current)
      (fun hpos => absurd hpos (lt_irrefl 0)) (fun es s e s' hs hI hstep hpos => ?_) h hlaunched
    have happ := App.appStep_of_step hstep
    have hs' := StepMachine.reaches_concat.mpr ⟨s, hs, hstep⟩
    have hfollows := follows_step hs hstep (fun hpos => (hI hpos).1.1) hpos
    rw [App.calls_concat hs hstep, Converter.run_append, List.getLast?_concat]
    by_cases he : e.displays = true
    · -- the label is written, and so is the value that is shown
      obtain ⟨d, hlast, hd⟩ := getLast_callsOf s' he
      have hcurrent := (c.run (App.calls P es)).current_run hlast hd
      refine ⟨⟨hfollows, ?_⟩, fun _ _ _ => hcurrent⟩
      rw [hcurrent, ← hfollows.converted (preferencesKept_of_reaches hs' hpos)]
      exact converted_of_displays hs happ he
    · -- both stay
      refine ⟨⟨hfollows, ?_⟩, fun e' hlast he' => ?_⟩
      · rw [Converter.shown_run _ (displays_callsOf s' he), (label_eq_of_not_displays happ he).2.1]
        exact (hI (launched_of_not_displays happ he hpos)).1.2
      · exact absurd (Option.some.inj hlast ▸ he') he
  refine ⟨⟨hfollows, fun hfront side => ?_, hlabel⟩, hcurrent⟩
  have htitles := (titlesAgree_of_launched h hlaunched).titles (by simp [hfront.2])
  exact Option.some.inj ((htitles side).symm.trans (hfollows.code side))

/-- An amount is typed, and the currency it is in is selected afterwards. -/
def typedThenSelected : List AppEvent :=
  App.firstLaunch ++ [.refresh, .editText "100", .tapCurrencyButton true, .tapRow 1, .beginDismiss]

theorem refines_converter_typedThenSelected : ∃ s c,
    (App.machine Platform.sample).Reaches typedThenSelected s ∧ Shows Platform.sample s c ∧
      c.Current ∧ c.key true = "AFN" ∧ c.amount = 100 := by
  have hrun : ((App.machine Platform.sample).exec App.installed typedThenSelected).map
      (fun s => (s.phase, s.realm.storedCode true, s.amount)) =
      some (.appeared, some "AFN", 100) := by decide +kernel
  obtain ⟨s, hs, hvalues⟩ := Option.map_eq_some_iff.mp hrun
  simp only [Prod.mk.injEq] at hvalues
  obtain ⟨hphase, hcode, hamount⟩ := hvalues
  obtain ⟨hshows, hcurrent⟩ := refines_converter hs (launched_of_phase (by simp [hphase]))
    ⟨fun _ => "", 0, Realm.empty.rates, 0⟩
  refine ⟨s, _, hs, hshows, hcurrent .beginDismiss rfl rfl, ?_, hshows.amount.trans hamount⟩
  exact Option.some.inj ((hshows.code true).symm.trans hcode)

end ExchangeRate
