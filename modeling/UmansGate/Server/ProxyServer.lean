/-
UmansGate.Server.ProxyServer — the start of the server and the calls that
change its settings (`src/index.ts`, `createProxyServer`).

A call is a reload of the file as it is then, a snapshot of the upstream's
usage, or an answer to a fetch of its limits. What else the server does
changes no setting. The command line sets the port and the target, which no
reload touches, and no other field.
-/
import UmansGate.Config.Reload
import UmansGate.Lib.Transition
import UmansGate.Server.Components

namespace UmansGate.Server

open UmansGate.Lib UmansGate.Config

structure ProxyServer where
  config : ProxyConfig
  lastRawConfig : RawInput
  gate : GateSettings
  rate : Option RateLimit
  lastRateEffectiveLimit : Option (Num ℚ)
  /-- The last snapshot. -/
  usage : Option UsageSnapshot
  vision : Option VisionConfig
  /-- `opts.ttlMs` of the rewrite experiment. -/
  rewriteTtlMs : Value
  /-- There is a history. -/
  usageHistory : Bool
  db : DbSettings

/-- A server that starts on a file. -/
def createProxyServer (config : ProxyConfig) (file : RawInput) : ProxyServer where
  config := config
  lastRawConfig := readConfigFile file
  gate := .new (gateOptionsFromConfig config)
  rate := createRateLimiter (number (config .rateLimitRequests)) none
    (config .requestUseHardCap).isTrue (config .neverLimitRequests).isTrue
  lastRateEffectiveLimit := none
  usage := none
  vision := if (config .visionStrategy).isText "never" then none else some (.ofConfig config)
  rewriteTtlMs := config .experimentRewriteTtlMs
  usageHistory := (config .usageHistoryEnabled).isTrue
  db := .ofConfig config

namespace ProxyServer

def getSnapshot (s : ProxyServer) : UsageSnapshot := s.usage.getD failSafeSnapshot

/-! ## The limit of the gate and the rate limiter -/

/-- The upstream holds the account back, and not for its rate. -/
def boxedIn (snap : UsageSnapshot) (now : Num ℚ) : Bool :=
  snap.boxedUntil.any (Num.lt now ·) &&
    !snap.boxedReason.any fun reason =>
      (js "rate_limit").isPrefixOf (reason.map Value.lowerUnit)

/-- The argument of `gate.resize`. -/
def effectiveLimit (config : ProxyConfig) (snap : UsageSnapshot) (now : Num ℚ) : Num ℚ :=
  if boxedIn snap now then .fin 1
  else
    let base := if (config .useHardCap).isTrue then number (config .concurrencyHardCap)
      else number (config .concurrencySoftLimit)
    if snap.priorityLow then Num.max (.fin 1) (base.subD (.fin 1)) else base

def applyEffectiveLimit (s : ProxyServer) (snap : UsageSnapshot) (now : Num ℚ) : ProxyServer :=
  { s with gate := s.gate.resize (effectiveLimit s.config snap now) }

/-- The limiter that the configuration asks for. -/
def rateLimiterFor (config : ProxyConfig) (snap : Option RequestLimits) : Option RateLimit :=
  createRateLimiter (number (config .rateLimitRequests)) snap (config .requestUseHardCap).isTrue
    (config .neverLimitRequests).isTrue

/-- `config.requestHardCap = snap.requestsHardCap ?? config.requestHardCap`, and
the soft limit. -/
def withRequestCaps (config : ProxyConfig) (limits : RequestLimits) : ProxyConfig
  | .requestHardCap => (limits.requestsHardCap.map .num).getD (config .requestHardCap)
  | .requestSoftLimit => (limits.requestsLimit.map .num).getD (config .requestSoftLimit)
  | field => config field

def withConcurrencyCaps (config : ProxyConfig) (hardCap softLimit : Num ℚ) : ProxyConfig
  | .concurrencyHardCap => .num hardCap
  | .concurrencySoftLimit => .num softLimit
  | field => config field

/-- `a === b` of two limits or null. -/
def sameLimit : Option (Num ℚ) → Option (Num ℚ) → Bool
  | none, none => true
  | some a, some b => a.eqD b
  | _, _ => false

def syncRateLimiter (s : ProxyServer) (snap : UsageSnapshot) : ProxyServer :=
  let s := { s with config := withRequestCaps s.config snap.toRequestLimits }
  let rateLimitRequests := number (s.config .rateLimitRequests)
  if rateLimitRequests = .fin 0 then
    let effective := if (s.config .requestUseHardCap).isTrue then snap.requestsHardCap
      else snap.requestsLimit
    if sameLimit effective s.lastRateEffectiveLimit then s
    else
      { s with
        lastRateEffectiveLimit := effective
        rate := createRateLimiter (.fin 0) (some snap.toRequestLimits)
          (s.config .requestUseHardCap).isTrue (s.config .neverLimitRequests).isTrue }
  else if Num.lt (.fin 0) rateLimitRequests && s.rate.isNone then
    { s with rate := rateLimiterFor s.config (some snap.toRequestLimits) }
  else s

/-- The concurrency caps that the upstream reports. -/
def setConcurrencyCaps (s : ProxyServer) (hardCap softLimit : Num ℚ) : ProxyServer :=
  { s with
    config := withConcurrencyCaps s.config hardCap softLimit
    gate := (s.gate.setHardCap hardCap).setSoftLimit softLimit }

/-- `usage.onChange`. -/
def onUsage (s : ProxyServer) (snap : UsageSnapshot) (now : Num ℚ) : ProxyServer :=
  ((({ s with usage := some snap } : ProxyServer).setConcurrencyCaps snap.concurrencyHardCap
    snap.concurrencySoftLimit).applyEffectiveLimit snap now).syncRateLimiter snap

/-- `applyLimitsFromSource`. -/
def applyLimitsFromSource (s : ProxyServer) (hardCap softLimit : Num ℚ) (now : Num ℚ) :
    ProxyServer :=
  (s.setConcurrencyCaps hardCap softLimit).applyEffectiveLimit s.getSnapshot now

/-- The rest of `refreshLimits`: the request limits have come. -/
def applyRequestLimits (s : ProxyServer) (limits : RequestLimits) : ProxyServer :=
  let s := { s with config := withRequestCaps s.config limits }
  let rateLimitRequests := number (s.config .rateLimitRequests)
  if rateLimitRequests = .fin 0 then
    if limits.requestsHardCap.isNone && limits.requestsLimit.isNone then
      { s with
        config := Function.update s.config .rateLimitRequests (.int (-1))
        rate := none
        lastRateEffectiveLimit := none }
    else
      { s with
        lastRateEffectiveLimit := if (s.config .requestUseHardCap).isTrue
          then limits.requestsHardCap else limits.requestsLimit
        rate := createRateLimiter (.fin 0) (some limits) (s.config .requestUseHardCap).isTrue
          (s.config .neverLimitRequests).isTrue }
  else if Num.lt (.fin 0) rateLimitRequests && limits.requestsWindowSeconds.isSome then
    { s with rate := rateLimiterFor s.config (some limits) }
  else s

/-! ## The reload -/

/-- The names that reconfigure the gate: those of the fields, not of the keys. -/
def GATE_RECONFIG_FIELDS : List JsString := [
  js "breakerThreshold", js "breakerWindowMs", js "breakerCooldownMs", js "queueTimeoutMs",
  js "maxQueueDepth", js "releaseCooldownMs", js "concurrencyMainReservation",
  js "concurrencyVisionReservation"]

/-- A name among those that are applied reconfigures the gate. -/
def reconfigures (oldRaw newRaw : RawInput) : Bool :=
  GATE_RECONFIG_FIELDS.any fun name => (reloadLists oldRaw newRaw).applied (.other name)

/-- The keys that make a new rate limiter. -/
def RATE_LIMITER_KEYS : List Key := [
  .rate_limit_requests, .request_use_hard_cap, .request_hard_cap, .request_soft_limit,
  .never_limit_requests]

/-- The gate after a reload: `limit` is its effective limit then. -/
def reloadGate (g : GateSettings) (config : ProxyConfig) (includes : Key → Bool)
    (reconfigured : Bool) (limit : Num ℚ) : GateSettings :=
  let g := if reconfigured then g.reconfigure (gateOptionsFromConfig config) else g
  let g := if includes .concurrency_hard_cap then
      g.setHardCap (number (config .concurrencyHardCap)) else g
  let g := if includes .concurrency_soft_limit then
      g.setSoftLimit (number (config .concurrencySoftLimit)) else g
  if includes .use_hard_cap || includes .concurrency_hard_cap ||
      includes .concurrency_soft_limit then
    g.resize limit
  else g

def reloadDb (db : DbSettings) (config : ProxyConfig) (includes : Key → Bool) : DbSettings :=
  { db with
    compressionEnabled :=
      if includes .compression_enabled then config .compressionEnabled else db.compressionEnabled
    performanceSampleLimit :=
      if includes .performance_sample_count then config .performanceSampleCount
      else db.performanceSampleLimit
    incidentRetentionDays :=
      if includes .incident_retention_days then config .incidentRetentionDays
      else db.incidentRetentionDays }

/-- The reload of a file that the loader reads as `fresh`. -/
def reloadFresh (s : ProxyServer) (fresh : ProxyConfig) (newRaw : RawInput) (now : Num ℚ) :
    ProxyServer × ReloadLists :=
  let (config, lists) := applyReloadToConfig s.config fresh s.lastRawConfig newRaw
  let includes (key : Key) : Bool := lists.applied (.known key)
  ({ s with
      config := config
      lastRawConfig := newRaw
      gate := reloadGate s.gate config includes (reconfigures s.lastRawConfig newRaw)
        (effectiveLimit config s.getSnapshot now)
      db := reloadDb s.db config includes
      lastRateEffectiveLimit :=
        if RATE_LIMITER_KEYS.any includes then none else s.lastRateEffectiveLimit
      rate := if RATE_LIMITER_KEYS.any includes then
          rateLimiterFor config (some s.getSnapshot.toRequestLimits)
        else s.rate },
    lists)

/-- `reloadConfig`, unless the loader throws. -/
def reloadConfig (env : Env) (s : ProxyServer) (file : RawInput) (now : Num ℚ) :
    Option (ProxyServer × ReloadLists) :=
  (loadConfig env file).map fun fresh => s.reloadFresh fresh (readConfigFile file) now

/-! ## Runs -/

inductive ServerOp where
  | reload (file : RawInput) (now : Num ℚ)
  | usage (snap : UsageSnapshot) (now : Num ℚ)
  | limits (hardCap softLimit : Num ℚ) (now : Num ℚ)
  | requestLimits (limits : RequestLimits)

def step (env : Env) (s : ProxyServer) : ServerOp → ProxyServer
  | .reload file now => ((s.reloadConfig env file now).map Prod.fst).getD s
  | .usage snap now => s.onUsage snap now
  | .limits hardCap softLimit now => s.applyLimitsFromSource hardCap softLimit now
  | .requestLimits limits => s.applyRequestLimits limits

end ProxyServer

end UmansGate.Server
