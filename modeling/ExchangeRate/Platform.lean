import Mathlib.Data.Rat.Floor
import Mathlib.Data.String.Basic
import ExchangeRate.Base.Dictionary

/-!
# The platform under the application

What the application takes from Foundation and from Realm's query engine, and
what it relies on there. The parts whose behaviour is fixed are definitions:
`ExchangeRate.intOfText` is Swift's `Int(_:)` on a string,
`ExchangeRate.URL.ofString` is `URL(string:)`, and the typed half of `JSONDecoder`
is `ExchangeRate.Json.field` and the readers after it.

The parts that depend on the device or on the process are the fields of
`ExchangeRate.Platform`: the syntax of JSON texts together with the order in which
the process enumerates a decoded dictionary, the number format of the locale, the
collation of a sorted query and the case folding of a `CONTAINS[c]` query. Every
theorem of the development holds on every platform; `ExchangeRate.Platform.us` is
one, to run the model on.
-/

namespace ExchangeRate

/-- A point of time, in seconds; the clock is not rounded. -/
abbrev Date := ℚ

/-- The bytes of a response body. -/
abbrev Data := List UInt8

/-! ### `Int(_:)` on a string -/

/-- The value of an ASCII digit. -/
def digitValue (c : Char) : Option ℕ :=
  if '0' ≤ c ∧ c ≤ '9' then some (c.toNat - '0'.toNat) else none

/-- A nonempty string of ASCII digits, read in base ten. -/
def digitsValue : List Char → Option ℕ
  | [] => none
  | cs => cs.foldlM (fun n c => (digitValue c).map fun d => 10 * n + d) 0

/-- Swift's `Int(_:)` on a string: an optional sign, at least one digit and nothing else,
and a value of 64 bits. -/
def intOfText (text : String) : Option ℤ :=
  let value : Option ℤ :=
    match text.toList with
    | '-' :: cs => (digitsValue cs).map fun n => -(n : ℤ)
    | '+' :: cs => (digitsValue cs).map fun n => (n : ℤ)
    | cs => (digitsValue cs).map fun n => (n : ℤ)
  value.filter fun n => -2 ^ 63 ≤ n ∧ n < 2 ^ 63

/-! ### `URL(string:)` -/

/-- A well-formed address. -/
structure URL where
  string : String
  deriving DecidableEq

/-- The characters an address is written with. -/
def isURLChar (c : Char) : Bool :=
  c.isAlphanum || "-._~:/?#[]@!$&()*+,;=%".toList.contains c

/-- `URL(string:)`, which refuses the empty string and characters that have no place in an
address. -/
def URL.ofString (s : String) : Option URL :=
  if s.toList ≠ [] ∧ s.toList.all isURLChar then some ⟨s⟩ else none

/-! ### JSON values and the typed half of `JSONDecoder` -/

/-- A JSON value, as the syntax of the text gives it. -/
inductive Json where
  | null
  | bool (b : Bool)
  | number (q : ℚ)
  | string (s : String)
  | array (l : List Json)
  | object (fields : List (String × Json))

namespace Json

/-- The value under a key of an object. -/
def field : Json → String → Option Json
  | .object fields, key => (Dictionary.ofList fields).lookup key
  | _, _ => none

/-- Decode a `Bool`. -/
def bool? : Json → Option Bool
  | .bool b => some b
  | _ => none

/-- Decode a `String`. -/
def string? : Json → Option String
  | .string s => some s
  | _ => none

/-- Decode a `Double`; the value is kept exact. -/
def double? : Json → Option ℚ
  | .number q => some q
  | _ => none

/-- Decode an `Int`: a number that is a whole number of 64 bits. -/
def int? : Json → Option ℤ
  | .number q => if q.den = 1 ∧ -2 ^ 63 ≤ q.num ∧ q.num < 2 ^ 63 then some q.num else none
  | _ => none

/-- Decode a dictionary, all of whose values have to decode. -/
def dictionary? {ν : Type} (value : Json → Option ν) : Json → Option (Dictionary String ν)
  | .object fields =>
    (fields.mapM fun r => (value r.2).map fun v => (r.1, v)).map Dictionary.ofList
  | _ => none

end Json

/-! ### The parts that vary -/

/-- What differs from device to device and from launch to launch. -/
structure Platform where
  /-- The JSON value a body spells, or `none` when the body is not JSON. The entries of an
  object stand in the order in which this process enumerates the decoded dictionary. -/
  json : Data → Option Json
  /-- `NumberFormatter` in the decimal style. -/
  decimalString : ℚ → Option String
  /-- Zero is written as the digit. -/
  decimalString_zero : decimalString 0 = some "0"
  /-- The collation of `sorted(byKeyPath:)`. -/
  collates : String → String → Bool
  collates_total : ∀ a b, collates a b = true ∨ collates b a = true
  collates_trans : ∀ a b c, collates a b = true → collates b c = true → collates a c = true
  collates_antisymm : ∀ a b, collates a b = true → collates b a = true → a = b
  /-- The case folding of `CONTAINS[c]`, character by character. -/
  foldCase : Char → Char

/-- `Double.formatWithComma`. -/
def Platform.formatWithComma (P : Platform) (value : ℚ) : String :=
  (P.decimalString value).getD ""

@[simp] theorem Platform.formatWithComma_zero (P : Platform) : P.formatWithComma 0 = "0" := by
  rw [formatWithComma, P.decimalString_zero, Option.getD_some]

/-! ### A platform to run the model on -/

/-- Round to a whole number, a tie going to the even one. -/
def roundHalfEven (q : ℚ) : ℤ :=
  let r := q - q.floor
  if r < 1 / 2 then q.floor
  else if 1 / 2 < r then q.floor + 1
  else if q.floor % 2 = 0 then q.floor else q.floor + 1

/-- Put a comma before every third digit from the right; the digits come in reverse. -/
def groupReversed : List Char → List Char
  | a :: b :: c :: d :: cs => a :: b :: c :: ',' :: groupReversed (d :: cs)
  | cs => cs

/-- The decimal style of the US locale: groups of three digits, and at most three digits
after the point. -/
def decimalStringUS (q : ℚ) : String :=
  let n := (roundHalfEven (|q| * 1000)).toNat
  let whole := (groupReversed (Nat.toDigits 10 (n / 1000)).reverse).reverse
  let fraction := ((Nat.toDigits 10 (1000 + n % 1000)).tail.reverse.dropWhile (· == '0')).reverse
  String.ofList ((if q < 0 then ['-'] else []) ++ whole ++
    (if fraction.isEmpty then [] else '.' :: fraction))

/-- A platform in the US locale. Its JSON reader knows the given bodies and finds every
other one malformed. -/
def Platform.us (bodies : List (Data × Json)) : Platform where
  json data := List.lookup data bodies
  decimalString q := some (decimalStringUS q)
  decimalString_zero := by decide +kernel
  collates a b := decide (a ≤ b)
  collates_total a b := by simpa using le_total a b
  collates_trans a b c := by simpa using le_trans (a := a)
  collates_antisymm a b := by simpa using le_antisymm (a := a)
  foldCase := Char.toLower

/-- The reader knows the first of the bodies it is given. -/
theorem Platform.json_us (data : Data) (json : Json) (bodies : List (Data × Json)) :
    (Platform.us ((data, json) :: bodies)).json data = some json := by
  simp [Platform.us]

example : decimalStringUS (-1234567 / 1000) = "-1,234.567" := by decide +kernel

end ExchangeRate
