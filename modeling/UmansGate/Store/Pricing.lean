/-
UmansGate.Store.Pricing — the pricing of models and the daily costs
(`src/economics.ts`, `syncPricing`, `backfillUnpricedDailyUsage` and the
seed prices of `migrateEconomicsSchema`).

`syncPricing` runs three parts one after the other: a
transaction that writes the prices (`syncModels`), a query for the rows
that may now be priced (`selectUnpriced`), and a transaction that prices
them (`updateUnpriced`). The write worker accounts captures through a
connection of its own, so its transactions fall between them.

Prices and costs are exact rationals. `updated_at` is left out.
-/
import Mathlib.Data.Rat.Floor
import UmansGate.Lib.Transition
import UmansGate.Store.AccountingTheorems

namespace UmansGate.Store

open UmansGate.Lib

/-! ## Prices -/

def CACHE_READ_RATIO : ℚ := 186 / 1000

/-- Input, output and cache read price of the known models. -/
def SEED_PRICING : List (String × ℚ × ℚ × ℚ) :=
  [("umans-glm-5.2", 14 / 10, 44 / 10, 26 / 100),
   ("umans-kimi-k2.7", 95 / 100, 4, 19 / 100),
   ("umans-coder", 95 / 100, 4, 19 / 100),
   ("umans-flash", 15 / 100, 1, 5 / 100),
   ("umans-qwen3.6-35b-a3b", 15 / 100, 1, 5 / 100),
   ("umans-deepseek-v4-flash-0731", 14 / 100, 28 / 100, 28 / 10000)]

structure ModelPricing where
  input : ℚ
  output : ℚ

/-- The fields of a `ModelEntry` that the sync reads. -/
structure ModelEntry where
  id : String
  pricing : Option ModelPricing

/-- `Math.round(inputPerMtoken * CACHE_READ_RATIO * 1000) / 1000`. -/
def estimatedCacheRead (inputPerMtoken : ℚ) : ℚ :=
  (⌊inputPerMtoken * CACHE_READ_RATIO * 1000 + 1 / 2⌋ : ℚ) / 1000

/-- The cost of these tokens; a missing price is zero. -/
def UsageCounts.costs (c : UsageCounts) (pricing : Option PricingRow) : UsageCosts :=
  let inputPrice := (pricing.map (·.inputPerMtoken)).getD 0
  let outputPrice := (pricing.map (·.outputPerMtoken)).getD 0
  let cacheReadPrice := (pricing.map (·.cacheReadPerMtoken)).getD 0
  let costInput : ℚ := c.inputTokens / 1000000 * inputPrice
  let costOutput : ℚ := c.outputTokens / 1000000 * outputPrice
  let costCacheRead : ℚ := c.cacheReadTokens / 1000000 * cacheReadPrice
  let costCacheCreation : ℚ := c.cacheCreationTokens / 1000000 * inputPrice
  { costInput := costInput
    costOutput := costOutput
    costCacheRead := costCacheRead
    costCacheCreation := costCacheCreation
    costTotal := costInput + costOutput + costCacheRead + costCacheCreation }

/-- `pricing?.pricing_known ?? 0`. -/
def knownFlag (pricing : Option PricingRow) : Int :=
  (pricing.map (·.pricingKnown)).getD 0

/-- A `daily_usage` row that the backfill selected, with its pricing. -/
abbrev UnpricedRow := (String × String) × UsageCounts × PricingRow

namespace Economics

/-- `INSERT INTO model_pricing … ON CONFLICT(model_id) DO UPDATE SET …`. -/
def upsertPricing (e : Economics) (modelId : String) (excluded : PricingRow) : Economics :=
  let row :=
    match e.modelPricing.get? modelId with
    | none => excluded
    | some row =>
      { inputPerMtoken := excluded.inputPerMtoken
        outputPerMtoken := excluded.outputPerMtoken
        cacheReadPerMtoken :=
          if row.pricingKnown = 0 ∧ excluded.pricingKnown = 1 then excluded.cacheReadPerMtoken
          else if row.cacheReadPerMtoken = 0 then excluded.cacheReadPerMtoken
          else row.cacheReadPerMtoken
        pricingKnown := max row.pricingKnown excluded.pricingKnown }
  { e with modelPricing := e.modelPricing.set modelId row }

/-- One round of the loop of `syncPricing`. -/
def syncModel (e : Economics) (model : ModelEntry) : Economics :=
  match model.pricing with
  | none => e
  | some pricing =>
    let estimated := estimatedCacheRead pricing.input
    match e.getPricing model.id with
    | some existing =>
      let cacheRead :=
        if existing.cacheReadPerMtoken > 0 then existing.cacheReadPerMtoken else estimated
      e.upsertPricing model.id ⟨pricing.input, pricing.output, cacheRead, 1⟩
    | none => e.upsertPricing model.id ⟨pricing.input, pricing.output, estimated, 1⟩

/-- The first transaction of `syncPricing`. -/
def syncModels (e : Economics) (models : List ModelEntry) : Economics :=
  models.foldl syncModel e

/-- `SELECT … FROM daily_usage du JOIN model_pricing mp … WHERE
du.pricing_known = 0`. -/
def selectUnpriced (e : Economics) : List UnpricedRow :=
  e.dailyUsage.filterMap fun r =>
    if r.2.pricingKnown = 0 then (e.getPricing r.1.2).map fun p => (r.1, r.2.toUsageCounts, p)
    else none

/-- `UPDATE daily_usage SET … WHERE date = $date AND model = $model`. -/
def updatePriced (e : Economics) (row : UnpricedRow) : Economics :=
  match e.dailyUsage.get? row.1 with
  | none => e
  | some r =>
    { e with
      dailyUsage := e.dailyUsage.set row.1
        { r with toUsageCosts := row.2.1.costs (some row.2.2), pricingKnown := 1 } }

/-- The second transaction of `syncPricing`. -/
def updateUnpriced (e : Economics) (rows : List UnpricedRow) : Economics :=
  rows.foldl updatePriced e

/-- `syncPricing` when nothing comes between its parts. -/
def syncPricing (e : Economics) (models : List ModelEntry) : Economics :=
  let e := e.syncModels models
  e.updateUnpriced e.selectUnpriced

/-- The seeding of `migrateEconomicsSchema`. -/
def seedPricing (e : Economics) : Economics :=
  if e.modelPricing.length = 0 then
    SEED_PRICING.foldl (fun e seed =>
      { e with
        modelPricing := e.modelPricing.set seed.1 ⟨seed.2.1, seed.2.2.1, seed.2.2.2, 0⟩ }) e
  else e

end Economics

/-! ## Runs -/

/-- A contribution to `daily_usage` and the `model_pricing` row it is priced
by. -/
abbrev Charge := Attribution × Option PricingRow

/-- The database, what a `syncPricing` under way has selected, and the
history of the contributions: `charged` as they were accounted, `priced` as
the costs of their rows count them since the last backfill. -/
structure PriceLog where
  e : Economics
  selected : List UnpricedRow
  charged : List Charge
  priced : List Charge

inductive PriceOp where
  | seedPricing
  | syncModels (models : List ModelEntry)
  | selectUnpriced
  | updateUnpriced
  /-- The process dies, and a `syncPricing` under way with it. -/
  | crash
  /-- Any other write to the captures. -/
  | writeCaptures (captures : Table CaptureColumns)
  | accountCaptureUsage (id : ℕ) (clock : Clock)
  | accountCapturesUsage (ids : List ℕ) (clock : Clock)
  | backfillFromCaptures (clock : Clock)

namespace PriceLog

/-- Fresh totals over these captures and prices. -/
def new (captures : Table CaptureColumns) (modelPricing : Dict String PricingRow) : PriceLog where
  e := ⟨captures, modelPricing, [], []⟩
  selected := []
  charged := []
  priced := []

/-- An accounting call: what it attributed is charged at the price in force. -/
def account (s : PriceLog) (e' : Economics) : PriceLog :=
  let charges := (e'.attributed.drop s.e.attributed.length).map fun a =>
    (a, s.e.getPricing a.model)
  { s with e := e', charged := s.charged ++ charges, priced := s.priced ++ charges }

/-- A contribution to a selected row is priced anew. -/
def reprice (rows : List UnpricedRow) (x : Charge) : Charge :=
  match Dict.get? rows x.1.key with
  | none => x
  | some (_, p) => (x.1, some p)

def step (s : PriceLog) : PriceOp → PriceLog
  | .seedPricing => { s with e := s.e.seedPricing }
  | .syncModels models => { s with e := s.e.syncModels models }
  | .selectUnpriced => { s with selected := s.e.selectUnpriced }
  | .updateUnpriced =>
    { s with
      e := s.e.updateUnpriced s.selected
      selected := []
      priced := s.priced.map (reprice s.selected) }
  | .crash => { s with selected := [] }
  | .writeCaptures captures => { s with e := { s.e with captures := captures } }
  | .accountCaptureUsage id clock => s.account (s.e.accountCaptureUsage clock id)
  | .accountCapturesUsage ids clock => s.account (s.e.accountCapturesUsage clock ids)
  | .backfillFromCaptures clock => s.account (s.e.backfillFromCaptures clock)

/-- A `syncPricing` that nothing interrupts. -/
theorem run_syncPricing (s : PriceLog) (models : List ModelEntry) :
    (Lib.run step s [.syncModels models, .selectUnpriced, .updateUnpriced]).e =
      s.e.syncPricing models := rfl

end PriceLog

/-! ## Sums of costs -/

attribute [ext] UsageCosts

namespace UsageCosts

instance : Zero UsageCosts := ⟨⟨0, 0, 0, 0, 0⟩⟩

instance : Add UsageCosts where
  add a b :=
    { costInput := a.costInput + b.costInput
      costOutput := a.costOutput + b.costOutput
      costCacheRead := a.costCacheRead + b.costCacheRead
      costCacheCreation := a.costCacheCreation + b.costCacheCreation
      costTotal := a.costTotal + b.costTotal }

theorem add_assoc (a b c : UsageCosts) : a + b + c = a + (b + c) := by
  ext <;> exact Rat.add_assoc _ _ _

theorem zero_add (a : UsageCosts) : 0 + a = a := by
  ext <;> exact Rat.zero_add _

theorem add_zero (a : UsageCosts) : a + 0 = a := by
  ext <;> exact Rat.add_zero _

end UsageCosts

end UmansGate.Store
