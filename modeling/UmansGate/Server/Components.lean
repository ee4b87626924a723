/-
UmansGate.Server.Components — what the components of the proxy server keep
of its configuration (`src/index.ts`, `src/limiter`, `src/vision/handoff.ts`,
`src/db.ts`).

A component reads the configuration of the server each time, or it has
copied a field when it was built, or it was told a value since. Only the
copies are kept here; the fields that nothing reads are left out.
-/
import UmansGate.Config.ProxyConfig
import UmansGate.Limiter.Limits
import UmansGate.Rate.SlidingWindow

namespace UmansGate.Server

open UmansGate.Lib UmansGate.Config
open UmansGate.Limiter (GateLimits LimitOptions)

/-- The number that a field holds. -/
def number : Value → Num ℚ
  | .num n => n
  | _ => .nan

/-! ## The gate -/

structure ConcurrencyGateOptions extends LimitOptions where
  breakerThreshold : Num ℚ
  breakerWindowMs : Num ℚ
  breakerCooldownMs : Num ℚ

def gateOptionsFromConfig (config : ProxyConfig) : ConcurrencyGateOptions where
  hardCap := number (config .concurrencyHardCap)
  softLimit := number (config .concurrencySoftLimit)
  releaseCooldownMs := number (config .releaseCooldownMs)
  breakerThreshold := number (config .breakerThreshold)
  breakerWindowMs := number (config .breakerWindowMs)
  breakerCooldownMs := number (config .breakerCooldownMs)
  maxQueueDepth := number (config .maxQueueDepth)
  queueTimeoutMs := number (config .queueTimeoutMs)
  intentions := some [
    ("main", number (config .concurrencyMainReservation)),
    ("vision", number (config .concurrencyVisionReservation))]

/-- The settings of the gate and of its breaker. -/
structure GateSettings where
  limits : GateLimits
  breakerThreshold : Num ℚ
  breakerWindowMs : Num ℚ
  breakerCooldownMs : Num ℚ

namespace GateSettings

def new (opts : ConcurrencyGateOptions) : GateSettings where
  limits := .new opts.toLimitOptions
  breakerThreshold := opts.breakerThreshold
  breakerWindowMs := opts.breakerWindowMs
  breakerCooldownMs := opts.breakerCooldownMs

/-- `reconfigure` with every option. -/
def reconfigure (g : GateSettings) (opts : ConcurrencyGateOptions) : GateSettings where
  limits := g.limits.reconfigure {
    releaseCooldownMs := some opts.releaseCooldownMs
    maxQueueDepth := some opts.maxQueueDepth
    queueTimeoutMs := some opts.queueTimeoutMs
    intentions := opts.intentions }
  breakerThreshold := opts.breakerThreshold
  breakerWindowMs := opts.breakerWindowMs
  breakerCooldownMs := opts.breakerCooldownMs

def resize (g : GateSettings) (newLimit : Num ℚ) : GateSettings :=
  { g with limits := g.limits.resize newLimit }

def setHardCap (g : GateSettings) (newHardCap : Num ℚ) : GateSettings :=
  { g with limits := g.limits.setHardCap newHardCap }

def setSoftLimit (g : GateSettings) (newSoftLimit : Num ℚ) : GateSettings :=
  { g with limits := g.limits.setSoftLimit newSoftLimit }

end GateSettings

/-! ## The upstream's usage and the rate limiter -/

/-- What a snapshot says of requests. -/
structure RequestLimits where
  requestsHardCap : Option (Num ℚ)
  requestsLimit : Option (Num ℚ)
  requestsWindowSeconds : Option (Num ℚ)

structure UsageSnapshot extends RequestLimits where
  concurrencyHardCap : Num ℚ
  concurrencySoftLimit : Num ℚ
  priorityLow : Bool
  boxedUntil : Option (Num ℚ)
  boxedReason : Option JsString

def failSafeSnapshot : UsageSnapshot where
  requestsHardCap := none
  requestsLimit := none
  requestsWindowSeconds := none
  concurrencySoftLimit := .fin 1
  concurrencyHardCap := .fin 1
  priorityLow := true
  boxedUntil := none
  boxedReason := none

/-- The settings of a sliding-window limiter. -/
structure RateLimit where
  limit : Num ℚ
  windowSeconds : Num ℚ
  deriving DecidableEq

def DEFAULT_RATE_WINDOW_SECONDS : Num ℚ := .fin 18000

/-- The limiter that is made for these numbers, if one is. -/
def createRateLimiter (rateLimitRequests : Num ℚ) (snap : Option RequestLimits)
    (requestUseHardCap neverLimitRequests : Bool) : Option RateLimit :=
  let windowSeconds :=
    (snap.bind RequestLimits.requestsWindowSeconds).getD DEFAULT_RATE_WINDOW_SECONDS
  if neverLimitRequests then none
  else if rateLimitRequests = .fin (-1) then none
  else if Num.lt (.fin 0) rateLimitRequests then some ⟨rateLimitRequests, windowSeconds⟩
  else
    let limit := if requestUseHardCap then snap.bind RequestLimits.requestsHardCap
      else snap.bind RequestLimits.requestsLimit
    match limit with
    | some limit => if Num.lt (.fin 0) limit then some ⟨limit, windowSeconds⟩ else none
    | none => none

/-- A snapshot of numbers that are finite. -/
def RequestLimits.ofSnapshot (snap : Rate.RateSnapshot) : RequestLimits where
  requestsHardCap := snap.requestsHardCap.map .fin
  requestsLimit := snap.requestsLimit.map .fin
  requestsWindowSeconds := snap.requestsWindowSeconds.map .fin

/-- The settings of a limiter that counts. -/
def RateLimit.ofLimiter (rl : Rate.SlidingWindowRateLimiter) : RateLimit :=
  ⟨.fin rl.limit, .fin (rl.windowMs / 1000)⟩

theorem RateLimit.ofLimiter_new (config : Rate.RateLimitConfig) :
    ofLimiter (.new config) = ⟨.fin config.limit, .fin config.windowSeconds⟩ := by
  simp [ofLimiter, Rate.SlidingWindowRateLimiter.new]

/-- Of finite numbers a limiter with these settings is made. -/
theorem createRateLimiter_fin (rateLimitRequests : ℚ) (snap : Option Rate.RateSnapshot)
    (requestUseHardCap neverLimitRequests : Bool) :
    createRateLimiter (.fin rateLimitRequests) (snap.map .ofSnapshot) requestUseHardCap
        neverLimitRequests =
      (Rate.createRateLimiter rateLimitRequests snap requestUseHardCap neverLimitRequests).map
        .ofLimiter := by
  have hwindow : ((snap.map RequestLimits.ofSnapshot).bind
      RequestLimits.requestsWindowSeconds).getD DEFAULT_RATE_WINDOW_SECONDS =
        .fin ((snap.bind (·.requestsWindowSeconds)).getD Rate.DEFAULT_RATE_WINDOW_SECONDS) := by
    cases snap with
    | none => rfl
    | some snap =>
      cases hseconds : snap.requestsWindowSeconds with
      | none => simp [RequestLimits.ofSnapshot, hseconds, DEFAULT_RATE_WINDOW_SECONDS,
          Rate.DEFAULT_RATE_WINDOW_SECONDS]
      | some seconds => simp [RequestLimits.ofSnapshot, hseconds]
  have hlimit : (if requestUseHardCap then
        (snap.map RequestLimits.ofSnapshot).bind RequestLimits.requestsHardCap
      else (snap.map RequestLimits.ofSnapshot).bind RequestLimits.requestsLimit) =
      (if requestUseHardCap then snap.bind (·.requestsHardCap)
        else snap.bind (·.requestsLimit)).map .fin := by
    cases snap <;> cases requestUseHardCap <;> rfl
  unfold createRateLimiter Rate.createRateLimiter
  simp only [hwindow, hlimit]
  cases (if requestUseHardCap then snap.bind (·.requestsHardCap)
    else snap.bind (·.requestsLimit)) with
  | none => simp [Num.lt, apply_ite (Option.map RateLimit.ofLimiter), RateLimit.ofLimiter_new]
  | some limit => simp [Num.lt, apply_ite (Option.map RateLimit.ofLimiter), RateLimit.ofLimiter_new]

/-! ## The vision handoff and the database -/

/-- The copies that the handoff reads. -/
structure VisionConfig where
  strategy : Value
  target : Value
  model : Value
  prompt : Value
  promptVersion : Value
  maxImages : Value
  reasoningEffort : Value
  timeoutMs : Value
  cacheSize : Value
  forceInterceptCapable : Value
  maxDimension : Value
  jpegQuality : Value
  imageFormat : Value
  imageDetail : Value
  intentStrategy : Value
  decompositionEnabled : Value
  decompositionTimeoutMs : Value
  craftingTimeoutMs : Value
  recentMessagesCount : Value
  systemPromptMaxChars : Value

def VisionConfig.ofConfig (config : ProxyConfig) : VisionConfig where
  strategy := config .visionStrategy
  target := config .visionTarget
  model := config .visionModel
  prompt := config .visionPrompt
  promptVersion := config .visionPromptVersion
  maxImages := config .visionMaxImages
  reasoningEffort := config .visionReasoningEffort
  timeoutMs := config .visionTimeoutMs
  cacheSize := config .visionCacheSize
  forceInterceptCapable := config .visionForceInterceptCapable
  maxDimension := config .visionMaxDimension
  jpegQuality := config .visionJpegQuality
  imageFormat := config .visionImageFormat
  imageDetail := config .visionImageDetail
  intentStrategy := config .visionIntentStrategy
  decompositionEnabled := config .visionDecompositionEnabled
  decompositionTimeoutMs := config .visionDecompositionTimeoutMs
  craftingTimeoutMs := config .visionCraftingTimeoutMs
  recentMessagesCount := config .visionRecentMessagesCount
  systemPromptMaxChars := config .visionSystemPromptMaxChars

/-- The copy of a field. -/
def VisionConfig.copy (v : VisionConfig) : ProxyField → Option Value
  | .visionStrategy => some v.strategy
  | .visionTarget => some v.target
  | .visionModel => some v.model
  | .visionPrompt => some v.prompt
  | .visionPromptVersion => some v.promptVersion
  | .visionMaxImages => some v.maxImages
  | .visionReasoningEffort => some v.reasoningEffort
  | .visionTimeoutMs => some v.timeoutMs
  | .visionCacheSize => some v.cacheSize
  | .visionForceInterceptCapable => some v.forceInterceptCapable
  | .visionMaxDimension => some v.maxDimension
  | .visionJpegQuality => some v.jpegQuality
  | .visionImageFormat => some v.imageFormat
  | .visionImageDetail => some v.imageDetail
  | .visionIntentStrategy => some v.intentStrategy
  | .visionDecompositionEnabled => some v.decompositionEnabled
  | .visionDecompositionTimeoutMs => some v.decompositionTimeoutMs
  | .visionCraftingTimeoutMs => some v.craftingTimeoutMs
  | .visionRecentMessagesCount => some v.recentMessagesCount
  | .visionSystemPromptMaxChars => some v.systemPromptMaxChars
  | _ => none

/-- A copy is what the configuration had. -/
theorem VisionConfig.copy_ofConfig {config : ProxyConfig} {field : ProxyField} {v : Value}
    (h : (ofConfig config).copy field = some v) : v = config field := by
  cases field <;> simp_all [copy, ofConfig]

/-- The settings of the capture database. -/
structure DbSettings where
  dbPath : Value
  maxCaptures : Value
  compressionEnabled : Value
  performanceSampleLimit : Value
  incidentRetentionDays : Value
  visionCacheTtlMs : Value

def DbSettings.ofConfig (config : ProxyConfig) : DbSettings where
  dbPath := config .dbPath
  maxCaptures := config .maxCaptures
  compressionEnabled := config .compressionEnabled
  performanceSampleLimit := config .performanceSampleCount
  incidentRetentionDays := config .incidentRetentionDays
  visionCacheTtlMs := config .visionCacheTtlMs

end UmansGate.Server
