/-
UmansGate.Store.Economics — daily usage totals (`src/economics.ts`).

`Economics` is the part of the database that the accounting reads and
writes: the captures, the pricing and the daily totals. Costs are exact
rationals here. A call reads the clock once for every capture without a
start time; `clock id` is that reading for the capture `id`.

`attributed` records the history of the upserts into `daily_usage`, oldest
first, each with the capture it was made for.
-/
import Mathlib.Algebra.Order.Ring.Rat
import UmansGate.Store.Captures

namespace UmansGate.Store

open UmansGate.Lib

/-! ## Dates -/

/-- Year, month and day of a day number counted from 1970-01-01. -/
def civilDate (day : Int) : Int × Int × Int :=
  -- eras of 400 years that begin on the first of March
  let z := day + 719468
  let era := z / 146097
  let doe := z - era * 146097
  let yoe := (doe - doe / 1460 + doe / 36524 - doe / 146096) / 365
  let doy := doe - (365 * yoe + yoe / 4 - yoe / 100)
  let mp := (5 * doy + 2) / 153
  let month := if mp < 10 then mp + 3 else mp - 9
  let year := yoe + era * 400 + if month ≤ 2 then 1 else 0
  (year, month, doy - (153 * mp + 2) / 5 + 1)

def padStart (n : ℕ) (digits : List Char) : List Char :=
  List.replicate (n - digits.length) '0' ++ digits

/-- `new Date(ms).toISOString().slice(0, 10)`; years outside 0 to 9999 have
a sign and six digits. -/
def isoDate (ms : EpochMs) : String :=
  let (year, month, day) := civilDate (ms.val / 86400000)
  let years :=
    if 0 ≤ year ∧ year ≤ 9999 then padStart 4 (Nat.toDigits 10 year.toNat)
    else (if year < 0 then '-' else '+') :: padStart 6 (Nat.toDigits 10 year.natAbs)
  let date := years ++ '-' :: padStart 2 (Nat.toDigits 10 month.toNat) ++
    '-' :: padStart 2 (Nat.toDigits 10 day.toNat)
  String.ofList (date.take 10)

example : isoDate ⟨951782400000, by decide⟩ = "2000-02-29" := by decide

/-! ## Tables -/

/-- A row of `model_pricing`, prices per million tokens. -/
structure PricingRow where
  inputPerMtoken : ℚ
  outputPerMtoken : ℚ
  cacheReadPerMtoken : ℚ
  pricingKnown : Int
  deriving DecidableEq

/-- The token columns of a `daily_usage` row and its number of requests. -/
@[ext] structure UsageCounts where
  requests : Int
  inputTokens : Int
  outputTokens : Int
  cacheReadTokens : Int
  cacheCreationTokens : Int
  thinkingTokens : Int
  deriving DecidableEq, Repr

/-- The cost columns of a `daily_usage` row. -/
structure UsageCosts where
  costInput : ℚ
  costOutput : ℚ
  costCacheRead : ℚ
  costCacheCreation : ℚ
  costTotal : ℚ
  deriving DecidableEq

structure DailyUsage extends UsageCounts, UsageCosts where
  pricingKnown : Int
  deriving DecidableEq

namespace UsageCounts

instance : Zero UsageCounts := ⟨⟨0, 0, 0, 0, 0, 0⟩⟩

instance : Add UsageCounts where
  add a b :=
    { requests := a.requests + b.requests
      inputTokens := a.inputTokens + b.inputTokens
      outputTokens := a.outputTokens + b.outputTokens
      cacheReadTokens := a.cacheReadTokens + b.cacheReadTokens
      cacheCreationTokens := a.cacheCreationTokens + b.cacheCreationTokens
      thinkingTokens := a.thinkingTokens + b.thinkingTokens }

theorem add_assoc (a b c : UsageCounts) : a + b + c = a + (b + c) := by
  ext <;> exact Int.add_assoc _ _ _

theorem zero_add (a : UsageCounts) : 0 + a = a := by
  ext <;> exact Int.zero_add _

theorem add_zero (a : UsageCounts) : a + 0 = a := by
  ext <;> exact Int.add_zero _

end UsageCounts

/-- `ON CONFLICT(date, model) DO UPDATE SET …` on an existing row. -/
def DailyUsage.accumulate (row excluded : DailyUsage) : DailyUsage where
  toUsageCounts := row.toUsageCounts + excluded.toUsageCounts
  costInput := row.costInput + excluded.costInput
  costOutput := row.costOutput + excluded.costOutput
  costCacheRead := row.costCacheRead + excluded.costCacheRead
  costCacheCreation := row.costCacheCreation + excluded.costCacheCreation
  costTotal := row.costTotal + excluded.costTotal
  pricingKnown := excluded.pricingKnown

/-- A capture's contribution to `daily_usage`. -/
structure Attribution where
  id : ℕ
  date : String
  model : String
  counts : UsageCounts
  deriving DecidableEq, Repr

/-- The key of the `daily_usage` row a contribution goes to. -/
def Attribution.key (a : Attribution) : String × String := (a.date, a.model)

structure Economics where
  captures : Table CaptureColumns
  modelPricing : Dict String PricingRow
  dailyUsage : Dict (String × String) DailyUsage
  attributed : List Attribution

/-! ## Accounting -/

/-- The clock readings of a call, by capture. -/
abbrev Clock := ℕ → EpochMs

/-- `capture.model && !capture.usage_missing`. -/
def CaptureColumns.needsAccounting (c : CaptureColumns) : Bool :=
  c.model.getD "" ≠ "" && c.usageMissing ≠ some true

def CaptureColumns.markAccounted (c : CaptureColumns) : CaptureColumns :=
  { c with usageAccounted := true }

/-- The counts a capture adds to its day. -/
def CaptureColumns.counts (c : CaptureColumns) : UsageCounts where
  requests := 1
  inputTokens := c.inputTokens.getD 0
  outputTokens := c.outputTokens.getD 0
  cacheReadTokens := c.cacheReadTokens.getD 0
  cacheCreationTokens := c.cacheCreationTokens.getD 0
  thinkingTokens := c.thinkingTokens.getD 0

/-- The day, the model and the counts of a capture. -/
def CaptureColumns.attribution (c : CaptureColumns) (clock : Clock) (id : ℕ) : Attribution where
  id := id
  date := isoDate (c.startedAt.getD (clock id))
  model := c.model.getD ""
  counts := c.counts

/-- The row that the upsert inserts; a model without pricing costs nothing,
and cache creation is priced as input. -/
def CaptureColumns.usageRow (c : CaptureColumns) (pricing : Option PricingRow) : DailyUsage :=
  let inputPrice := (pricing.map (·.inputPerMtoken)).getD 0
  let outputPrice := (pricing.map (·.outputPerMtoken)).getD 0
  let cacheReadPrice := (pricing.map (·.cacheReadPerMtoken)).getD 0
  let cacheCreationPrice := inputPrice
  let costInput : ℚ := c.counts.inputTokens / 1000000 * inputPrice
  let costOutput : ℚ := c.counts.outputTokens / 1000000 * outputPrice
  let costCacheRead : ℚ := c.counts.cacheReadTokens / 1000000 * cacheReadPrice
  let costCacheCreation : ℚ := c.counts.cacheCreationTokens / 1000000 * cacheCreationPrice
  { toUsageCounts := c.counts
    costInput := costInput
    costOutput := costOutput
    costCacheRead := costCacheRead
    costCacheCreation := costCacheCreation
    costTotal := costInput + costOutput + costCacheRead + costCacheCreation
    pricingKnown := (pricing.map (·.pricingKnown)).getD 0 }

namespace Economics

def getPricing (e : Economics) (modelId : String) : Option PricingRow :=
  e.modelPricing.get? modelId

/-- `INSERT INTO daily_usage … ON CONFLICT …` for one capture. -/
def upsertUsage (e : Economics) (clock : Clock) (pricing : Option PricingRow) (id : ℕ)
    (c : CaptureColumns) : Economics :=
  let a := c.attribution clock id
  let excluded := c.usageRow pricing
  let row :=
    match e.dailyUsage.get? a.key with
    | none => excluded
    | some row => row.accumulate excluded
  { e with
    dailyUsage := e.dailyUsage.set a.key row
    attributed := e.attributed ++ [a] }

/-- `UPDATE captures SET usage_accounted = 1 WHERE id IN (…)`. -/
def markAccounted (e : Economics) (ids : List ℕ) : Economics :=
  { e with captures := e.captures.update (fun id _ => id ∈ ids) CaptureColumns.markAccounted }

def accountCaptureUsage (e : Economics) (clock : Clock) (captureId : ℕ) : Economics :=
  match (e.captures.get? captureId).filter fun c => !c.usageAccounted with
  | none => e
  | some capture =>
    if capture.needsAccounting then
      (e.upsertUsage clock (e.getPricing (capture.model.getD "")) captureId capture).markAccounted
        [captureId]
    else e.markAccounted [captureId]

/-- `WHERE id IN (…) AND usage_accounted = 0`. -/
def unaccounted (e : Economics) (captureIds : List ℕ) : Dict ℕ CaptureColumns :=
  e.captures.rows.filter fun r => r.1 ∈ captureIds && !r.2.usageAccounted

def accountCapturesUsage (e : Economics) (clock : Clock) (captureIds : List ℕ) : Economics :=
  if captureIds.length = 0 then e
  else
    let captures := e.unaccounted captureIds
    if captures.length = 0 then e
    else
      let allIds := captures.map Prod.fst
      let needsAccounting := captures.filter fun r => r.2.needsAccounting
      -- the pricing rows are all fetched before the first upsert
      let upserted := needsAccounting.foldl (fun (e' : Economics) r =>
        e'.upsertUsage clock (e.getPricing (r.2.model.getD "")) r.1 r.2) e
      upserted.markAccounted allIds

/-- The captures whose usage the backfill accounts. -/
def backfillIds (e : Economics) : List ℕ :=
  (e.captures.rows.filter fun r =>
    !r.2.usageAccounted && r.2.model.isSome && r.2.usageMissing = some false).map Prod.fst

def backfillFromCaptures (e : Economics) (clock : Clock) : Economics :=
  e.backfillIds.foldl (fun e id => e.accountCaptureUsage clock id) e

/-- The counts of a day and model; a row that is not there counts nothing. -/
def counts (e : Economics) (key : String × String) : UsageCounts :=
  ((e.dailyUsage.get? key).map DailyUsage.toUsageCounts).getD 0

end Economics

end UmansGate.Store
