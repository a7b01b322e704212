import ExchangeRate.Base.StepMachine
import ExchangeRate.ResponseBodies
import ExchangeRate.CurrencyCache
import ExchangeRate.RateCache
import ExchangeRate.StoreRefinement
import ExchangeRate.Screens
import ExchangeRate.App
import ExchangeRate.Indicator
import ExchangeRate.Versions
import ExchangeRate.Rows
import ExchangeRate.Titles
import ExchangeRate.Display
import ExchangeRate.Search
import ExchangeRate.Enumeration
import ExchangeRate.CrossRates
import ExchangeRate.CurrencyTable
import ExchangeRate.AppSession
import ExchangeRate.RateMarks
import ExchangeRate.Answers
import ExchangeRate.Isolation
import ExchangeRate.Overlay
import ExchangeRate.ListVisit
import ExchangeRate.Survival
import ExchangeRate.Converter
import ExchangeRate.DoubleArithmetic
import ExchangeRate.UseCase
import ExchangeRate.Freshness
import ExchangeRate.SideBySide
import ExchangeRate.Relaunch
