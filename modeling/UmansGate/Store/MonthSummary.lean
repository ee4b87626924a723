/-
UmansGate.Store.MonthSummary — the queries of the dashboard over the daily
totals (`getMonthSummary` and `getAvailableMonths` of `src/economics.ts`).

Rows with equal sort keys come in any order, so the queries are given the
order as a `SqlSort`. A `SUM` over no row is null and read as 0. Costs are
exact rationals, as in `Economics`. The year and the month that the caller
passes are whole numbers here; those of `getAvailableMonths` are what
`Number` makes of the text.
-/
import Mathlib.Data.String.Basic
import UmansGate.Lib.JsNumber
import UmansGate.Lib.SqlSelect
import UmansGate.Store.BatchTheorems

namespace UmansGate.Store

open UmansGate.Lib

namespace UsageCounts

instance : AddCommMonoid UsageCounts where
  add_assoc := add_assoc
  zero_add := zero_add
  add_zero := add_zero
  add_comm := add_comm
  nsmul := nsmulRec

end UsageCounts

namespace UsageCosts

instance : AddCommMonoid UsageCosts where
  add_assoc := add_assoc
  zero_add := zero_add
  add_zero a := (add_comm a 0).trans (zero_add a)
  add_comm := add_comm
  nsmul := nsmulRec

end UsageCosts

/-- A row of `daily_usage` with its key. -/
abbrev DailyRow := (String × String) × DailyUsage

/-- An entry of `per_model`. -/
structure ModelSummary where
  model : String
  requests : Int
  inputTokens : Int
  outputTokens : Int
  cacheReadTokens : Int
  cacheCreationTokens : Int
  costTotal : ℚ
  deriving DecidableEq

structure MonthSummary extends UsageCounts, UsageCosts where
  year : ℕ
  month : ℕ
  hasUnpriced : Bool
  perModel : List ModelSummary

/-- `${year}-${String(month).padStart(2, "0")}`. -/
def monthText (year month : ℕ) : List Char :=
  Nat.toDigits 10 year ++ '-' :: padStart 2 (Nat.toDigits 10 month)

/-- `date LIKE $prefix`. -/
def inMonth (year month : ℕ) (row : DailyRow) : Bool :=
  sqlLike (monthText year month ++ ['%']) row.1.1.toList

/-- What one group of `GROUP BY model` selects. -/
def modelSummary (group : String × List DailyRow) : ModelSummary where
  model := group.1
  requests := (group.2.map fun r => r.2.requests).sum
  inputTokens := (group.2.map fun r => r.2.inputTokens).sum
  outputTokens := (group.2.map fun r => r.2.outputTokens).sum
  cacheReadTokens := (group.2.map fun r => r.2.cacheReadTokens).sum
  cacheCreationTokens := (group.2.map fun r => r.2.cacheCreationTokens).sum
  costTotal := (group.2.map fun r => r.2.costTotal).sum

/-- `substr(date, 1, 7)`. -/
def yearMonth (row : DailyRow) : String := String.ofList (row.1.1.toList.take 7)

namespace Economics

def getMonthSummary (s : SqlSort) (e : Economics) (year month : ℕ) : MonthSummary :=
  let rows := e.dailyUsage.filter (inMonth year month)
  { toUsageCounts := (rows.map fun r => r.2.toUsageCounts).sum
    toUsageCosts := (rows.map fun r => r.2.toUsageCosts).sum
    year := year
    month := month
    hasUnpriced := rows.any fun r => r.2.pricingKnown = 0
    perModel := s.sort (desc fun m => some m.costTotal)
      ((groupBy (fun r : DailyRow => r.1.2) rows).map modelSummary) }

def getAvailableMonths (s : SqlSort) (e : Economics) : List (Num ℚ × Num ℚ) :=
  let rows := s.sort (desc some) (e.dailyUsage.map yearMonth).dedup
  rows.map fun ym =>
    (numberOf ((js ym).take 4), numberOf (((js ym).drop 5).take 2))

end Economics

end UmansGate.Store
