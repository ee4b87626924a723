/-
UmansGate.Store.Captures — the rows of the `captures` table and the
parameters of the statements that write them (`src/db.ts`).

A row is its id and the columns below. INTEGER columns that hold a count or
a status are `Int`, the two 0/1 columns that the accounting reads are
`Bool`, REAL columns are rational. Columns of the request that no statement
modelled here reads or writes (method, path, url, request headers and
protocols) are left out, and bodies are the texts before compression.
-/
import Mathlib.Data.Rat.Defs
import UmansGate.Lib.Table

namespace UmansGate.Store

open UmansGate.Lib

/-- A time value that `Date` accepts: milliseconds within 10⁸ days of the
epoch. -/
abbrev EpochMs := { t : Int // t.natAbs ≤ 8640000000000000 }

theorem epoch_inRange : (0 : Int).natAbs ≤ 8640000000000000 := by decide

/-- `metrics_extracted_at` and the token columns of a row. -/
structure UsageColumns where
  provider : Option String := none
  streaming : Option Int := none
  inputTokens : Option Int := none
  outputTokens : Option Int := none
  cacheCreationTokens : Option Int := none
  cacheReadTokens : Option Int := none
  totalInputTokens : Option Int := none
  totalOutputTokens : Option Int := none
  thinkingTokens : Option Int := none
  thinkingBlockCount : Option Int := none
  ttftMs : Option ℚ := none
  tps : Option ℚ := none
  usageMissing : Option Bool := none
  metricsExtractedAt : Option Int := none
  deriving DecidableEq

/-- The columns of a row that a response fills in. -/
structure ResponseColumns where
  responseStatus : Option Int := none
  responseHeaders : Option String := none
  responseBody : Option String := none
  responseSize : Option Int := none
  contentType : Option String := none
  isSse : Option Int := none
  durationMs : Option Int := none
  state : Option String := none
  finishedAt : Option Int := none
  statusSource : Option String := none
  gateReason : Option String := none
  retryAttempt : Option Int := none
  ttftExceeded : Option Int := none
  upstreamTtftP50Ms : Option Int := none
  upstreamTpsP50 : Option ℚ := none
  deriving DecidableEq

structure CaptureColumns extends ResponseColumns, UsageColumns where
  isVision : Bool := false
  startedAt : Option EpochMs := none
  model : Option String := none
  parentCaptureId : Option ℕ := none
  visionMeta : Option String := none
  requestBody : Option String := none
  requestHeaders : Option String := none
  requestSize : Option Int := none
  usageAccounted : Bool := false
  deriving DecidableEq

/-- What the extraction of usage from a response returns. -/
structure UsageMetrics where
  provider : String
  streaming : Bool
  inputTokens : Option Int
  outputTokens : Option Int
  cacheCreationTokens : Option Int
  cacheReadTokens : Option Int
  totalInputTokens : Option Int
  totalOutputTokens : Option Int
  thinkingTokens : Option Int
  thinkingBlockCount : Option Int
  ttftMs : Option ℚ
  tps : Option ℚ
  usageMissing : Bool
  deriving DecidableEq

/-- The parameters of `stmtUpdate` besides the id. -/
structure UpdateParams where
  status : Int
  rh : String
  rb : String
  rs : Int
  ct : String
  sse : Int
  dur : Int
  fin : Int
  statusSource : Option String
  gateReason : Option String
  usage : Option UsageMetrics := none
  model : Option String := none
  retryAttempt : Option Int := none
  ttftExceeded : Option Int := none
  upstreamTtftP50Ms : Option Int := none
  upstreamTpsP50 : Option ℚ := none
  deriving DecidableEq

/-- The parameters of `stmtUpdateVision` besides the id. -/
structure VisionUpdateParams where
  status : Option Int
  rh : String
  rb : String
  rs : Int
  reqBody : String
  reqHeaders : String
  reqSize : Int
  ct : String
  sse : Int
  dur : Int
  fin : Int
  statusSource : Option String
  gateReason : Option String
  visionMeta : Option String
  model : Option String
  usage : UsageColumns

/-- The usage columns of an update; all null when usage is absent. -/
def flattenUsage (now : EpochMs) : Option UsageMetrics → UsageColumns
  | none => {}
  | some usage =>
    { provider := some usage.provider
      streaming := some (if usage.streaming then 1 else 0)
      inputTokens := usage.inputTokens
      outputTokens := usage.outputTokens
      cacheCreationTokens := usage.cacheCreationTokens
      cacheReadTokens := usage.cacheReadTokens
      totalInputTokens := usage.totalInputTokens
      totalOutputTokens := usage.totalOutputTokens
      thinkingTokens := usage.thinkingTokens
      thinkingBlockCount := usage.thinkingBlockCount
      ttftMs := usage.ttftMs
      tps := usage.tps
      usageMissing := some usage.usageMissing
      metricsExtractedAt := some now.val }

namespace CaptureColumns

/-- `stmtUpdate` with these usage columns. -/
def stmtUpdate (p : UpdateParams) (usage : UsageColumns) (c : CaptureColumns) : CaptureColumns :=
  { c with
    responseStatus := some p.status
    responseHeaders := some p.rh
    responseBody := some p.rb
    responseSize := some p.rs
    contentType := some p.ct
    isSse := some p.sse
    durationMs := some p.dur
    state := some "done"
    finishedAt := some p.fin
    statusSource := p.statusSource
    gateReason := p.gateReason
    toUsageColumns := usage
    model := p.model
    retryAttempt := p.retryAttempt
    ttftExceeded := p.ttftExceeded
    upstreamTtftP50Ms := p.upstreamTtftP50Ms.or c.upstreamTtftP50Ms
    upstreamTpsP50 := p.upstreamTpsP50.or c.upstreamTpsP50 }

def stmtUpdateVision (p : VisionUpdateParams) (c : CaptureColumns) : CaptureColumns :=
  { c with
    responseStatus := p.status
    responseHeaders := some p.rh
    responseBody := some p.rb
    responseSize := some p.rs
    requestBody := some p.reqBody
    requestHeaders := some p.reqHeaders
    requestSize := some p.reqSize
    contentType := some p.ct
    isSse := some p.sse
    durationMs := some p.dur
    state := some "done"
    finishedAt := some p.fin
    statusSource := p.statusSource
    gateReason := p.gateReason
    visionMeta := p.visionMeta
    toUsageColumns := p.usage
    model := p.model }

@[simp] theorem usageAccounted_stmtUpdate (p : UpdateParams) (usage : UsageColumns)
    (c : CaptureColumns) : (c.stmtUpdate p usage).usageAccounted = c.usageAccounted := rfl

@[simp] theorem startedAt_stmtUpdate (p : UpdateParams) (usage : UsageColumns)
    (c : CaptureColumns) : (c.stmtUpdate p usage).startedAt = c.startedAt := rfl

@[simp] theorem usageAccounted_stmtUpdateVision (p : VisionUpdateParams) (c : CaptureColumns) :
    (c.stmtUpdateVision p).usageAccounted = c.usageAccounted := rfl

end CaptureColumns

end UmansGate.Store
