/-
UmansGate.Store.Performance — the performance query
(`PERFORMANCE_STATS_SQL` of `src/usage/ddl.ts`, `getPerformanceStats` of
`src/db.ts`).

Each step of the query is a function on lists of rows, under the step's
name; the order of rows with equal keys is `s`, whatever the database makes
of it. The columns `ttft_p10` to `tps_p95` are one function of the measure
and the percentile. The two averages, which SQLite adds up in floating
point, are left out.
-/
import UmansGate.Lib.DoubleRank
import UmansGate.Lib.Sql
import UmansGate.Store.Captures

namespace UmansGate.Store

open UmansGate.Lib

/-- The rows of the table; a database file has at most 2^48 bytes. -/
abbrev CaptureTable := { t : Table CaptureColumns // t.rows.length < 2 ^ 48 }

/-- The columns of a done capture that the query reads. -/
structure Sample where
  model : String
  provider : Option String
  streaming : Option Int
  ttftMs : Option ℚ
  tps : Option ℚ
  totalInputTokens : Option Int
  totalOutputTokens : Option Int
  cacheReadTokens : Option Int
  thinkingTokens : Option Int
  thinkingBlockCount : Option Int
  startedAt : Option EpochMs
  deriving DecidableEq

/-- `WHERE model IS NOT NULL AND state = 'done'`. -/
def sampleOf (c : CaptureColumns) : Option Sample :=
  match c.model with
  | none => none
  | some model =>
    if c.state = some "done" then
      some
        { model
          provider := c.provider
          streaming := c.streaming
          ttftMs := c.ttftMs
          tps := c.tps
          totalInputTokens := c.totalInputTokens
          totalOutputTokens := c.totalOutputTokens
          cacheReadTokens := c.cacheReadTokens
          thinkingTokens := c.thinkingTokens
          thinkingBlockCount := c.thinkingBlockCount
          startedAt := c.startedAt }
    else none

def doneSamples (t : CaptureTable) : List Sample := t.val.rows.values.filterMap sampleOf

/-- The two measures with percentiles. -/
inductive Measure where
  | ttft
  | tps
  deriving DecidableEq, Repr

def Sample.value (r : Sample) : Measure → Option ℚ
  | .ttft => r.ttftMs
  | .tps => r.tps

inductive Percentile where
  | p10
  | p50
  | p95
  deriving DecidableEq, Repr

def Percentile.value : Percentile → ℚ
  | p10 => 1 / 10
  | p50 => 1 / 2
  | p95 => 19 / 20

/-! ## The steps of the query -/

def latestPerModel (s : SqlSort) (samples : List Sample) : List (Sample × ℕ) :=
  rowNumber s Sample.model (desc Sample.startedAt) samples

/-- `WHERE rn <= $limit`; the limit is any number. -/
def base (s : SqlSort) (limit : Num ℚ) (samples : List Sample) : List Sample :=
  ((latestPerModel s samples).filter fun e => (Num.fin (e.2 : ℚ)).le limit).map Prod.fst

structure Ranked where
  sample : Sample
  rn : Measure → ℕ
  cnt : Measure → ℕ

/-- The second numbering is of the rows of the first. -/
def ranked (s : SqlSort) (rows : List Sample) : List Ranked :=
  let byTtft := rowNumber s Sample.model (ascNullsLast Sample.ttftMs) rows
  let byTps := rowNumber s (fun e => e.1.model) (ascNullsLast fun e => e.1.tps) byTtft
  byTps.map fun e =>
    { sample := e.1.1
      rn := fun
        | .ttft => e.1.2
        | .tps => e.2
      cnt := fun measure => countOver Sample.model (fun r => r.value measure) rows e.1.1 }

/-- `MAX(CASE WHEN rn = CAST(CEIL(p * cnt) AS INT) THEN value END)`. -/
def valueAtRank (rows : List Ranked) (measure : Measure) (p : Percentile) : Option ℚ :=
  sqlMax (rows.map fun r =>
    if (r.rn measure : ℤ) = ceilMul p.value (r.cnt measure) then r.sample.value measure else none)

abbrev PercentileColumns := Measure → Percentile → Option ℚ

def pctiles (rows : List Ranked) : List (String × PercentileColumns) :=
  (groupBy (fun r => r.sample.model) rows).map fun g => (g.1, valueAtRank g.2)

structure PerformanceRow where
  model : String
  provider : Option String
  requestCount : ℕ
  streamingCount : ℕ
  totalInputTokens : Option ℤ
  totalOutputTokens : Option ℤ
  totalCacheReadTokens : Option ℤ
  totalThinkingTokens : Option ℤ
  requestsWithThinking : ℕ
  cachedPct : Option (Num ℚ)
  ttftMax : Option ℚ
  tpsMin : Option ℚ
  percentiles : PercentileColumns

/-- `SUM(cache_read_tokens) / SUM(total_input_tokens) * 100.0` in doubles. -/
def cachedPct (rows : List Sample) : Option (Num ℚ) :=
  let input := sqlSum (rows.map Sample.totalInputTokens)
  if 0 < input.getD 0 then
    (sqlSum (rows.map Sample.cacheReadTokens)).map fun cached =>
      ((toDouble cached).divD (toDouble (input.getD 0))).mulD (.fin 100)
  else some (.fin 0)

/-- One group of the joined rows. -/
def performanceRow (g : (String × Option String) × List (Ranked × Option PercentileColumns)) :
    PerformanceRow :=
  let rows := g.2.map fun e => e.1.sample
  { model := g.1.1
    provider := g.1.2
    requestCount := g.2.length
    streamingCount := rows.countP fun r => r.streaming = some 1
    totalInputTokens := sqlSum (rows.map Sample.totalInputTokens)
    totalOutputTokens := sqlSum (rows.map Sample.totalOutputTokens)
    totalCacheReadTokens := sqlSum (rows.map Sample.cacheReadTokens)
    totalThinkingTokens := sqlSum (rows.map Sample.thinkingTokens)
    requestsWithThinking := rows.countP fun r => r.thinkingBlockCount.any (0 < ·)
    cachedPct := cachedPct rows
    ttftMax := sqlMax (rows.map Sample.ttftMs)
    tpsMin := sqlMin (rows.map Sample.tps)
    percentiles := fun measure p => sqlMax (g.2.map fun e => e.2.bind fun c => c measure p) }

section

variable (g : (String × Option String) × List (Ranked × Option PercentileColumns))

theorem performanceRow_percentiles (measure : Measure) (p : Percentile) :
    (performanceRow g).percentiles measure p =
      sqlMax (g.2.map fun e => e.2.bind fun c => c measure p) := rfl

theorem performanceRow_ttftMax :
    (performanceRow g).ttftMax = sqlMax ((g.2.map fun e => e.1.sample).map Sample.ttftMs) := rfl

theorem performanceRow_tpsMin :
    (performanceRow g).tpsMin = sqlMin ((g.2.map fun e => e.1.sample).map Sample.tps) := rfl

end

def performanceQuery (s : SqlSort) (limit : Num ℚ) (t : CaptureTable) : List PerformanceRow :=
  let rows := ranked s (base s limit (doneSamples t))
  let joined := leftJoin (fun r => r.sample.model) rows (pctiles rows)
  let groups := groupBy (fun e => (e.1.sample.model, e.1.sample.provider)) joined
  s.sort (fun a b => b.requestCount ≤ a.requestCount) (groups.map performanceRow)

/-! ## `getPerformanceStats` -/

structure PerformanceStatsRow where
  model : String
  provider : String
  requestCount : ℕ
  streamingCount : ℕ
  totalInputTokens : ℤ
  totalOutputTokens : ℤ
  totalCacheReadTokens : ℤ
  totalThinkingTokens : ℤ
  requestsWithThinking : ℕ
  cachedPct : Num ℚ
  ttftMax : Option ℚ
  tpsMin : Option ℚ
  percentiles : PercentileColumns

/-- `Number(x) || 0`. -/
def numberOr0 (x : Option (Num ℚ)) : Num ℚ :=
  match x with
  | some .nan => .fin 0
  | some n => n
  | none => .fin 0

def statsRow (row : PerformanceRow) : PerformanceStatsRow where
  model := row.model
  provider := row.provider.getD "anthropic"
  requestCount := row.requestCount
  streamingCount := row.streamingCount
  totalInputTokens := row.totalInputTokens.getD 0
  totalOutputTokens := row.totalOutputTokens.getD 0
  totalCacheReadTokens := row.totalCacheReadTokens.getD 0
  totalThinkingTokens := row.totalThinkingTokens.getD 0
  requestsWithThinking := row.requestsWithThinking
  cachedPct := numberOr0 row.cachedPct
  ttftMax := row.ttftMax
  tpsMin := row.tpsMin
  percentiles := row.percentiles

theorem statsRow_percentiles (row : PerformanceRow) :
    (statsRow row).percentiles = row.percentiles := rfl

def getPerformanceStats (s : SqlSort) (performanceSampleLimit : Num ℚ) (t : CaptureTable) :
    List PerformanceStatsRow :=
  (performanceQuery s performanceSampleLimit t).map statsRow

end UmansGate.Store
