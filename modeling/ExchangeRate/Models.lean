import ExchangeRate.Platform

/-!
# The application's data

The Realm classes of `Models/Realm`, the decodable responses of `Models/Response` and
the constants of `Resource/Static/Define.swift`.

A class with a `List` property takes the type of the list's elements as a parameter:
an object that has not been added to a Realm yet holds the objects themselves, a row
of the database holds their keys.
-/

namespace ExchangeRate

/-- The key of a row in the database. -/
abbrev ObjKey := ℕ

/-! ### Realm classes -/

/-- `UserPreferenceData`: the pair of currencies the user converts between. -/
structure UserPreferenceData where
  fromCurrency : String := "USD"
  toCurrency : String := "JPY"
  deriving DecidableEq

/-- `Currency`, with `code` as its primary key. -/
structure Currency where
  code : String := ""
  fullname : String := ""
  deriving DecidableEq

/-- `CurrencyData`: one saved currency list. -/
structure CurrencyData (ι : Type) where
  savedAt : Option Date := none
  currencies : List ι := []
  deriving DecidableEq

/-- `Rate`, with `code` as its primary key. -/
structure Rate where
  code : String := ""
  rate : ℚ := 0
  deriving DecidableEq

/-- `ExchangeRateData`: one saved set of rates. -/
structure ExchangeRateData (ι : Type) where
  timestamp : ℤ := 0
  savedAt : Option Date := none
  source : String := ""
  quotes : List ι := []
  deriving DecidableEq

/-! ### Constants -/

namespace Define

def defaultFromCurrency : String := "USD"

def defaultToCurrency : String := "JPY"

def AccessKey : String := "7789da114bc58a0ba1562914d0f2f20e"

def getCurrencyListAPIPath : String := "http://api.currencylayer.com/list?access_key=" ++ AccessKey

def getRateAPIPath : String := "http://api.currencylayer.com/live?access_key=" ++ AccessKey

end Define

/-! ### Responses -/

/-- `CurrencyListResponse`. -/
structure CurrencyListResponse where
  success : Bool
  currencies : Dictionary String String

/-- `RateListResponse`. -/
structure RateListResponse where
  success : Bool
  timestamp : ℤ
  source : String
  quotes : Dictionary String ℚ

/-- `JSONDecoder().decode(CurrencyListResponse.self, from: data)`: every field is required,
and no other field is looked at. -/
def CurrencyListResponse.decode (P : Platform) (data : Data) : Option CurrencyListResponse := do
  let json ← P.json data
  let success ← (← json.field "success").bool?
  let currencies ← (← json.field "currencies").dictionary? Json.string?
  return { success, currencies }

/-- `JSONDecoder().decode(RateListResponse.self, from: data)`. -/
def RateListResponse.decode (P : Platform) (data : Data) : Option RateListResponse := do
  let json ← P.json data
  let success ← (← json.field "success").bool?
  let timestamp ← (← json.field "timestamp").int?
  let source ← (← json.field "source").string?
  let quotes ← (← json.field "quotes").dictionary? Json.double?
  return { success, timestamp, source, quotes }

/-! ### Bodies to run the model on -/

/-- A body with two currencies. -/
def currencyListBody : Data :=
  ("\x7b\"success\":true,\"currencies\":\x7b\"AED\":\"United Arab Emirates Dirham\"," ++
    "\"AFN\":\"Afghan Afghani\"\x7d\x7d").toUTF8.toList

/-- The value it spells. -/
def currencyListJson : Json :=
  .object [("success", .bool true),
    ("currencies", .object [("AED", .string "United Arab Emirates Dirham"),
      ("AFN", .string "Afghan Afghani")])]

/-- A body with two rates. -/
def rateBody : Data :=
  ("\x7b\"success\":true,\"timestamp\":1588782907,\"source\":\"USD\"," ++
    "\"quotes\":\x7b\"USDUSD\":1,\"USDJPY\":106.5\x7d\x7d").toUTF8.toList

/-- The value it spells. -/
def rateJson : Json :=
  .object [("success", .bool true), ("timestamp", .number 1588782907), ("source", .string "USD"),
    ("quotes", .object [("USDUSD", .number 1), ("USDJPY", .number (213 / 2))])]

/-- A platform that knows the two bodies. -/
def Platform.sample : Platform :=
  Platform.us [(currencyListBody, currencyListJson), (rateBody, rateJson)]

/-- The first body decodes as its two currencies. -/
theorem decode_currencyListBody : CurrencyListResponse.decode Platform.sample currencyListBody =
    some ⟨true, [("AED", "United Arab Emirates Dirham"), ("AFN", "Afghan Afghani")],
      by decide⟩ := by
  rw [CurrencyListResponse.decode, Platform.sample, Platform.json_us]
  rfl

/-- The second body decodes as its two rates. -/
theorem decode_rateBody : RateListResponse.decode Platform.sample rateBody =
    some ⟨true, 1588782907, "USD", [("USDUSD", 1), ("USDJPY", 213 / 2)], by decide⟩ := by
  have hjson : Platform.sample.json rateBody = some rateJson := by
    have hne : (rateBody == currencyListBody) = false := by decide +kernel
    simp [Platform.sample, Platform.us, List.lookup_cons, hne]
  rw [RateListResponse.decode, hjson]
  rfl

end ExchangeRate
