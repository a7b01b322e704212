import ExchangeRate.Base.FloatArithmetic
import ExchangeRate.RateMarks

/-!
# The conversion in doubles

`ExchangeRate.calcurate` is exact; the phone calculates with doubles
(`ExchangeRate.calcurateDouble`). The amount is rounded, the rates have been when they
were decoded, and so are the quotient and the product. So a result in doubles has a
relative error of six roundings, as the divisor counts twice – whatever has happened
before, as long as the rates that have arrived are neither tiny nor huge
(`ExchangeRate.calculatesInDoubles_of_reaches`).

The label shows thousandths. Up to a quarter of a million million, six roundings change
the last of the digits by one at most (`ExchangeRate.closeTo_of_after`). They change
nothing when the conversion is a whole number of thousandths, so that then the label is
the one that doubles give (`ExchangeRate.label_in_doubles`).
-/

namespace ExchangeRate

variable {P : Platform} {double : ℚ → Float} {es : List AppEvent} {s s' : App} {realm : Realm}

/-! ### The calculation -/

/-- `Double(_:)` on an `Int`. -/
def doubleOfInt (n : ℤ) : Float := .ofModel (.ofInt n)

/-- `calcurate(fromAmount:)` in the arithmetic of doubles: the value the output is called with,
if it is called. A rate `q` of the store is the double `double q`. -/
def calcurateDouble (double : ℚ → Float) (realm : Realm) (fromAmount : ℤ) : Option Float :=
  match requiredParameters realm with
  | none => none
  | some _ =>
    match rateValues realm with
    | some (rateFromValue, rateToValue) =>
      some (doubleOfInt fromAmount / double rateFromValue * double rateToValue)
    | none => some 0.0

/-- The rates are not always divided out again. -/
example : doubleOfInt 1 / doubleOfInt 49 * doubleOfInt 49 ≠ doubleOfInt 1 := by decide +kernel

/-- **A rate is rounded when it is decoded**: it becomes a double with an error of half a unit in
the last place at most. It is positive, and neither tiny nor huge. -/
structure IsRounded (double : ℚ → Float) (q : ℚ) : Prop where
  value : ∃ a, (double q).value? = some a ∧ |a - q| ≤ 2 ^ (-53 : ℤ) * |q|
  pos : 0 < q
  within : Float.Within 200 q

/-- **Six roundings**: of the amount, of the divisor, which counts twice, of the quotient, of the
other rate, and of the product. -/
theorem after_six {r t : ℚ} (hr : IsRounded double r) (ht : IsRounded double t) {n : ℤ}
    (hn : Float.Within 63 n) :
    ∃ q, (doubleOfInt n / double r * double t).value? = some q ∧ Float.After 6 (n / r * t) q := by
  obtain ⟨r', hr', hrounded⟩ := hr.value
  obtain ⟨t', ht', hrounded'⟩ := ht.value
  have hwithin := hr.within.rounded hrounded
  have hwithin' := ht.within.rounded hrounded'
  have hinv := Float.After.inv hrounded hr.pos.ne'
  have hne := Float.After.ne_zero_of_rounded hrounded hr.pos.ne'
  obtain ⟨a, ha, herror, hsize⟩ := Float.exists_value_ofInt hn (by omega)
  obtain ⟨b, hb, herror', hsize'⟩ :=
    Float.exists_value_div ha hr' hne hsize hwithin (by omega) (by omega) (by omega)
  obtain ⟨c, hc, herror'', -⟩ :=
    Float.exists_value_mul hb ht' hsize' hwithin' (by omega) (by omega) (by omega)
  have hdivided : Float.After (1 + 2) (n / r) (a / r') := by
    rw [div_eq_mul_inv, div_eq_mul_inv]
    exact (Float.After.one herror).mul hinv
  have hquotient : Float.After (3 + 1) (n / r) b := hdivided.trans (Float.After.one herror')
  have hmultiplied : Float.After (4 + 1) (n / r * t) (b * t') :=
    hquotient.mul (Float.After.one hrounded')
  have hproduct : Float.After (5 + 1) (n / r * t) c := hmultiplied.trans (Float.After.one herror'')
  exact ⟨c, hc, hproduct⟩

/-- The values that a calculation looks up are rates of the store. -/
theorem isRounded_of_rateValues (hrates : ∀ r ∈ realm.rate.objects, IsRounded double r.rate)
    {a b : ℚ} (hvalues : rateValues realm = some (a, b)) :
    IsRounded double a ∧ IsRounded double b := by
  obtain ⟨u, d, -, -, hfrom, hto⟩ := rateValues_eq_some_iff.mp hvalues
  exact ⟨hrates _ (Realm.rateOf_eq_some_iff.mp hfrom), hrates _ (Realm.rateOf_eq_some_iff.mp hto)⟩

/-- **What is calculated in doubles**: nothing, or the conversion after six roundings. -/
theorem calcurateDouble_cases (hrates : ∀ r ∈ realm.rate.objects, IsRounded double r.rate) {n : ℤ}
    (hn : Float.Within 63 n) :
    (calcurate realm n = [] ∧ calcurateDouble double realm n = none) ∨
      ∃ f q, calcurate realm n = [.gotCaluculateResult (conversion realm n)] ∧
        calcurateDouble double realm n = some f ∧ f.value? = some q ∧
        Float.After 6 (conversion realm n) q := by
  by_cases hnone : realm.userPreferenceData.first = none ∨ realm.exchangeRateData.first = none
  · have hparameters := requiredParameters_of_none hnone
    exact Or.inl ⟨calcurate_of_none hnone n, by simp only [calcurateDouble, hparameters]⟩
  · rw [not_or] at hnone
    obtain ⟨u, hu⟩ := Option.ne_none_iff_exists'.mp hnone.1
    obtain ⟨d, hd⟩ := Option.ne_none_iff_exists'.mp hnone.2
    have hparameters := requiredParameters_of_some hu hd
    have hexact := calcurate_of_some hu hd n
    have hconversion := conversion_of_some hu hd n
    right
    cases hvalues : rateValues realm with
    | none =>
      have hzero : (0.0 : Float).value? = some 0 := by decide +kernel
      rw [hvalues, Option.elim_none] at hconversion
      refine ⟨0.0, 0, hexact, by simp only [calcurateDouble, hparameters, hvalues], hzero, ?_⟩
      rw [hconversion, Float.After, sub_self, abs_zero, mul_zero]
    | some values =>
      obtain ⟨hr, ht⟩ := isRounded_of_rateValues hrates hvalues
      obtain ⟨q, hq, hsix⟩ := after_six hr ht hn
      rw [hvalues, Option.elim_some] at hconversion
      refine ⟨_, q, hexact, by simp only [calcurateDouble, hparameters, hvalues], hq, ?_⟩
      rwa [hconversion]

/-! ### The digits of the label -/

/-- The thousandths of a number, which the decimal style rounds to. -/
def thousandths (q : ℚ) : ℤ := roundHalfEven (|q| * 1000)

theorem abs_roundHalfEven_sub_le (q : ℚ) : |(roundHalfEven q : ℚ) - q| ≤ 1 / 2 := by
  have hlow : (q.floor : ℚ) ≤ q := Int.floor_le q
  have hhigh : q < q.floor + 1 := Int.lt_floor_add_one q
  rw [abs_le, roundHalfEven]
  split_ifs with hless hmore heven
  · constructor <;> linarith
  · push_cast
    constructor <;> linarith
  · constructor <;> linarith
  · push_cast
    constructor <;> linarith

theorem roundHalfEven_eq {q : ℚ} {n : ℤ} (h : |q - n| < 1 / 2) : roundHalfEven q = n := by
  have hle := abs_sub_le (roundHalfEven q : ℚ) q n
  have hlt : |(roundHalfEven q : ℚ) - n| < 1 := by
    linarith [abs_roundHalfEven_sub_le q]
  have hzero : |roundHalfEven q - n| < 1 := by exact_mod_cast hlt
  exact sub_eq_zero.mp (Int.abs_lt_one_iff.mp hzero)

/-- **As good as exact**: the relative error is tiny, the sign is right, the last digit of the
label is off by one at most, and a whole number of thousandths is hit almost exactly. -/
structure CloseTo (x q : ℚ) : Prop where
  error : |q - x| ≤ 2 ^ (-50 : ℤ) * |x|
  sign : q < 0 ↔ x < 0
  digits : |x| * 1000 ≤ 2 ^ 48 → |thousandths q - thousandths x| ≤ 1
  whole : ∀ n : ℤ, x * 1000 = n → |n| ≤ 2 ^ 48 → |q * 1000 - n| ≤ 1 / 4

theorem abs_abs_mul_sub_le (q x : ℚ) : |(|q| * 1000) - |x| * 1000| ≤ |q * 1000 - x * 1000| := by
  have hpos : |(1000 : ℚ)| = 1000 := abs_of_pos (by norm_num)
  have hle := abs_abs_sub_abs_le (q * 1000) (x * 1000)
  rwa [abs_mul, abs_mul, hpos] at hle

theorem closeTo_of_after {x q : ℚ} (h : Float.After 6 x q) : CloseTo x q := by
  have herror : |q - x| ≤ 2 ^ (-50 : ℤ) * |x| :=
    le_trans h (mul_le_mul_of_nonneg_right (by norm_num) (abs_nonneg x))
  have hquarter : |x| * 1000 ≤ 2 ^ 48 → |q * 1000 - x * 1000| ≤ 1 / 4 := by
    intro hbound
    calc |q * 1000 - x * 1000| = |q - x| * 1000 := by
          rw [← sub_mul, abs_mul, abs_of_pos (by norm_num : (0 : ℚ) < 1000)]
      _ ≤ 2 ^ (-50 : ℤ) * |x| * 1000 := mul_le_mul_of_nonneg_right herror (by norm_num)
      _ = 2 ^ (-50 : ℤ) * (|x| * 1000) := mul_assoc ..
      _ ≤ 2 ^ (-50 : ℤ) * 2 ^ 48 := mul_le_mul_of_nonneg_left hbound (by norm_num)
      _ = 1 / 4 := by norm_num
  refine ⟨herror, ?_, fun hbound => ?_, fun n hn hbound => ?_⟩
  · -- the error is less than the number
    have hless : |q - x| ≤ 1 / 2 * |x| :=
      herror.trans (mul_le_mul_of_nonneg_right (by norm_num) (abs_nonneg x))
    obtain ⟨hlow, hhigh⟩ := abs_le.mp hless
    constructor
    · intro hq
      by_contra hx
      rw [abs_of_nonneg (not_lt.mp hx)] at hlow
      linarith
    · intro hx
      rw [abs_of_neg hx] at hhigh
      linarith
  · have hclose := (abs_abs_mul_sub_le q x).trans (hquarter hbound)
    have hq := abs_roundHalfEven_sub_le (|q| * 1000)
    have hx := abs_roundHalfEven_sub_le (|x| * 1000)
    have hlt : |(thousandths q : ℚ) - thousandths x| < 2 := by
      rw [thousandths, thousandths, abs_lt]
      rw [abs_le] at hclose hq hx
      constructor <;> linarith
    have hlt' : |thousandths q - thousandths x| < 2 := by exact_mod_cast hlt
    exact Int.lt_add_one_iff.mp hlt'
  · rw [← hn]
    refine hquarter ?_
    rw [← abs_of_pos (by norm_num : (0 : ℚ) < 1000), ← abs_mul, hn]
    exact_mod_cast hbound

/-! ### The rates of a run -/

/-- **The rates that have arrived in a run are rounded.** -/
def App.RatesRounded (P : Platform) (double : ℚ → Float) (es : List AppEvent) : Prop :=
  ∀ save ∈ App.rateSaves P es, ∀ q ∈ save.2.quotes.entries.map Prod.snd, IsRounded double q

theorem App.RatesRounded.initial {pre : List AppEvent} (h : App.RatesRounded P double es)
    (hpre : pre <+: es) : App.RatesRounded P double pre :=
  fun save hsave => h save ((hpre.filterMap _).subset hsave)

/-- The rates that the main thread reads arrived with some save of the run. -/
theorem isRounded_of_main (hrates : App.RatesRounded P double es)
    (h : (App.machine P).Reaches es s) : ∀ r ∈ s.main.rate.objects, IsRounded double r.rate := by
  intro r hr
  have hrecords := (ratesSeen_of_reaches h).main
  cases hsave : App.rateSaveAt P es (rateMarks es).main with
  | none =>
    rw [hsave] at hrecords
    rw [hrecords.2] at hr
    cases hr
  | some save =>
    rw [hsave] at hrecords
    rw [hrecords.2, RateListResponse.toRates, List.mem_map] at hr
    obtain ⟨entry, hentry, rfl⟩ := hr
    exact hrates save (App.mem_rateSaves hsave) _ (List.mem_map_of_mem hentry)

/-- An amount has 64 bits. -/
theorem within_intOfText (text : String) :
    Float.Within 63 ((intOfText text).getD 0 : ℤ) := by
  cases hn : intOfText text with
  | none => exact ⟨by norm_num, by norm_num⟩
  | some n =>
    have hbounds : -2 ^ 63 ≤ n ∧ n < 2 ^ 63 := by
      rw [intOfText, Option.filter_eq_some_iff] at hn
      simpa using hn.2
    have habs : |n| ≤ 2 ^ 63 := abs_le.mpr ⟨hbounds.1, hbounds.2.le⟩
    rw [Option.getD_some]
    refine ⟨by exact_mod_cast habs, ?_⟩
    rcases eq_or_ne n 0 with rfl | hne
    · norm_num
    · have hone : 1 ≤ |n| := Int.one_le_abs hne
      have hone' : (1 : ℚ) ≤ |(n : ℚ)| := by exact_mod_cast hone
      exact (inv_le_one_of_one_le₀ hone').trans (by norm_num)

/-! ### In every state of every run -/

/-- **A calculation in doubles**: it is silent when the exact one is, and otherwise its result is a
number, as good as exact. -/
structure CalculatesInDoubles (double : ℚ → Float) (realm : Realm) (amount : ℤ) : Prop where
  silent : calcurateDouble double realm amount = none ↔ calcurate realm amount = []
  close : ∀ f, calcurateDouble double realm amount = some f →
    ∃ q, f.value? = some q ∧ CloseTo (conversion realm amount) q

theorem calculatesInDoubles_of_within (hrates : ∀ r ∈ realm.rate.objects, IsRounded double r.rate)
    {n : ℤ} (hn : Float.Within 63 n) : CalculatesInDoubles double realm n := by
  rcases calcurateDouble_cases hrates hn with ⟨hexact, hnone⟩ | ⟨f, q, hexact, hsome, hq, hafter⟩
  · exact ⟨iff_of_true hnone hexact, by simp [hnone]⟩
  · refine ⟨iff_of_false (by simp [hsome]) (by simp [hexact]), fun f' hf' => ?_⟩
    rw [hsome, Option.some.injEq] at hf'
    exact ⟨q, hf' ▸ hq, closeTo_of_after hafter⟩

/-- **Whatever has happened before, doubles calculate well**: every text that may be typed next,
by the version that the main thread reads. -/
theorem calculatesInDoubles_of_reaches (hrates : App.RatesRounded P double es)
    (h : (App.machine P).Reaches es s) (text : String) :
    CalculatesInDoubles double s.main ((intOfText text).getD 0) :=
  calculatesInDoubles_of_within (isRounded_of_main hrates h) (within_intOfText text)

/-- A quotient of whole numbers, in doubles. -/
def doubleOfRat (q : ℚ) : Float := doubleOfInt q.num / doubleOfInt q.den

/-- A body with a rate that is no double. -/
def yenBody : Data :=
  ("\x7b\"success\":true,\"timestamp\":1588782907,\"source\":\"USD\"," ++
    "\"quotes\":\x7b\"USDUSD\":1,\"USDJPY\":106.4996\x7d\x7d").toUTF8.toList

/-- The value it spells. -/
def yenJson : Json :=
  .object [("success", .bool true), ("timestamp", .number 1588782907), ("source", .string "USD"),
    ("quotes", .object [("USDUSD", .number 1), ("USDJPY", .number (1064996 / 10000))])]

/-- A platform that knows this body, and one with a quote of zero. -/
def Platform.yen : Platform :=
  Platform.us [(currencyListBody, currencyListJson), (yenBody, yenJson),
    (zeroQuoteBody, zeroQuoteJson)]

/-- The body is answered, the main thread refreshes, and an amount is typed. -/
def yenTyped : List AppEvent :=
  [.launch 0, .finishViewDidLoad 0, .viewWillAppear, .currencyListCompletion currencyListBody 1,
    .rateCompletion yenBody 2, .runMainBlock, .runMainBlock, .refresh] ++ [.editText "10000"]

/-- The rates of the body are rounded. -/
theorem ratesRounded_yenTyped : App.RatesRounded Platform.yen doubleOfRat yenTyped := by
  have hone : IsRounded doubleOfRat 1 :=
    ⟨⟨1, by decide +kernel, by norm_num⟩, by norm_num, by norm_num, by norm_num⟩
  have hyen : IsRounded doubleOfRat (1064996 / 10000) :=
    ⟨⟨7494243107423545 / 70368744177664, by decide +kernel, by norm_num⟩, by norm_num, by norm_num,
      by norm_num⟩
  have hsaves : (App.rateSaves Platform.yen yenTyped).map
      (fun save => save.2.quotes.entries.map Prod.snd) = [[1, 1064996 / 10000]] := by
    decide +kernel
  intro save hsave q hq
  have hquotes := List.mem_map_of_mem (f := fun save => save.2.quotes.entries.map Prod.snd) hsave
  rw [hsaves, List.mem_singleton] at hquotes
  rw [hquotes] at hq
  rcases List.mem_pair.mp hq with rfl | rfl
  · exact hone
  · exact hyen

theorem calculatesInDoubles_yenTyped : ∃ s, (App.machine Platform.yen).Reaches yenTyped s ∧
    CalculatesInDoubles doubleOfRat s.main ((intOfText "33").getD 0) := by
  have hrun : ((App.machine Platform.yen).exec App.installed yenTyped).isSome = true := by
    decide +kernel
  obtain ⟨s, hs⟩ := Option.isSome_iff_exists.mp hrun
  exact ⟨s, hs, calculatesInDoubles_of_reaches ratesRounded_yenTyped hs "33"⟩

/-! ### The label -/

/-- **The number format shows thousandths**: what is almost a whole number of them looks the same
as that number. -/
def Platform.ShowsThousandths (P : Platform) : Prop :=
  ∀ (q : ℚ) (n : ℤ), (q < 0 ↔ n < 0) → |q * 1000 - n| ≤ 1 / 4 →
    P.decimalString q = P.decimalString (n / 1000)

/-- What a calculation in doubles leaves on the label, unless its result is no number. -/
def App.labelAfterDouble (P : Platform) (double : ℚ → Float) (label : String) (realm : Realm)
    (amount : ℤ) : Option String :=
  match calcurateDouble double realm amount with
  | some value => value.value?.map P.formatWithComma
  | none => some label

/-- **The label is the one that doubles give**, when the conversion is a whole number of
thousandths: to calculate in doubles, by the version which the last event that wrote the label
read, leaves it as it is. -/
theorem label_in_doubles (hrates : App.RatesRounded P double es) (hformat : P.ShowsThousandths)
    (h : (App.machine P).Reaches es s) (hlaunched : 0 < s.shows) :
    ∃ s₀, (App.machine P).Reaches (lastDisplay es) s₀ ∧
      ∀ n : ℤ, conversion s₀.main s.amount * 1000 = n → |n| ≤ 2 ^ 48 →
        App.labelAfterDouble P double s.label s₀.main s.amount = some s.label := by
  obtain ⟨s₀, hs₀, hlabel⟩ := label_eq_of_reaches h hlaunched
  refine ⟨s₀, hs₀, fun n hn hbound => ?_⟩
  have hcalculates : CalculatesInDoubles double s₀.main s.amount :=
    calculatesInDoubles_of_within
      (isRounded_of_main (hrates.initial (lastDisplay_initial es)) hs₀) (within_intOfText s.text)
  cases hvalue : calcurateDouble double s₀.main s.amount with
  | none => simp only [App.labelAfterDouble, hvalue]
  | some value =>
    obtain ⟨q, hq, hclose⟩ := hcalculates.close value hvalue
    have hconversion : conversion s₀.main s.amount = n / 1000 := by
      rw [← hn, mul_div_cancel_right₀ _ (by norm_num)]
    have hsign : q < 0 ↔ n < 0 := by
      rw [hclose.sign, hconversion, div_neg_iff]
      simp
    have hsame : P.formatWithComma q = s.label := by
      rw [hlabel, App.converted, hconversion, Platform.formatWithComma, Platform.formatWithComma,
        hformat q n hsign (hclose.whole n hn hbound)]
    simp only [App.labelAfterDouble, hvalue, hq, Option.map_some, hsame]

/-- The decimal style of the US locale is such a format. -/
theorem showsThousandths_us (bodies : List (Data × Json)) :
    (Platform.us bodies).ShowsThousandths := by
  intro q n hsign hclose
  have hn : (n : ℚ) / 1000 * 1000 = n := div_mul_cancel₀ _ (by norm_num)
  have hthousandths : ∀ x : ℚ, |x * 1000 - n| ≤ 1 / 4 → roundHalfEven (|x| * 1000) = |n| := by
    intro x hx
    refine roundHalfEven_eq (lt_of_le_of_lt ?_ (by norm_num : (1 : ℚ) / 4 < 1 / 2))
    have hle := abs_abs_mul_sub_le x (n / 1000)
    rw [hn, abs_div, abs_of_pos (by norm_num : (0 : ℚ) < 1000),
      div_mul_cancel₀ _ (by norm_num)] at hle
    rw [Int.cast_abs]
    exact hle.trans hx
  have hsign' : (n : ℚ) / 1000 < 0 ↔ q < 0 := by
    rw [hsign, div_neg_iff]
    simp
  have hstring : decimalStringUS q = decimalStringUS (n / 1000) := by
    simp only [decimalStringUS, hthousandths q hclose,
      hthousandths (n / 1000) (by rw [hn, sub_self, abs_zero]; norm_num), hsign']
  exact congrArg some hstring

theorem label_in_doubles_yenTyped : ∃ s s₀, (App.machine Platform.yen).Reaches yenTyped s ∧
    (App.machine Platform.yen).Reaches (lastDisplay yenTyped) s₀ ∧
      App.labelAfterDouble Platform.yen doubleOfRat s.label s₀.main s.amount =
        some "1,064,996" := by
  have hrun : ((App.machine Platform.yen).exec App.installed yenTyped).map
      (fun s => (s.shows, s.label, s.amount, conversion s.main s.amount)) =
      some (2, "1,064,996", 10000, 1064996) := by decide +kernel
  obtain ⟨s, hs, hvalues⟩ := Option.map_eq_some_iff.mp hrun
  simp only [Prod.mk.injEq] at hvalues
  obtain ⟨hshows, hlabel, hamount, hconversion⟩ := hvalues
  obtain ⟨s₀, hs₀, hdoubles⟩ :=
    label_in_doubles ratesRounded_yenTyped (showsThousandths_us _) hs (by omega)
  -- the last event of the run wrote the label
  have hlast : lastDisplay yenTyped = yenTyped := lastDisplay_concat_of_displays rfl
  have hsame : s₀ = s := StepMachine.Reaches.unique (hlast ▸ hs₀) hs
  subst hsame
  refine ⟨s₀, s₀, hs, hs₀, ?_⟩
  rw [hdoubles 1064996000 (by rw [hconversion]; norm_num) (by norm_num), hlabel]

end ExchangeRate
