/-
UmansGate.Config.ProxyConfig — the configuration that the loader makes
(`config/loader.ts`, `config/env.ts`).

A `ProxyConfig` gives a value to each of its fields. The loader takes a
value from the environment, else from the file, else the default. It throws
where a value cannot be made a number or a text: `loadConfig` is `none`
there.
-/
import UmansGate.Config.Loader

namespace UmansGate.Config

open UmansGate.Lib

/-- The fields of `ProxyConfig`. -/
inductive ProxyField where
  | port
  | host
  | target
  | maxCaptures
  | dbPath
  | viewerPrefix
  | flushIntervalMs
  | flushBatch
  | idleTimeout
  | upstreamProtocol
  | incomingProtocol
  | stampClaudeCode
  | stampModelRules
  | stampReasoningEffort
  | openaiPath
  | warmerEnabled
  | warmerIntervalMs
  | warmerPath
  | umansApiKey
  | dashboardToken
  | usageRefreshMs
  | usageHistoryEnabled
  | usageRawRetentionDays
  | usageGapThresholdMinutes
  | usageIdleSessionTimeoutMinutes
  | modelsRefreshMs
  | concurrencyHardCap
  | concurrencySoftLimit
  | useHardCap
  | rateLimitRequests
  | requestHardCap
  | requestSoftLimit
  | requestUseHardCap
  | neverLimitRequests
  | requestRateMargin
  | queueTimeoutMs
  | maxQueueDepth
  | releaseCooldownMs
  | breakerThreshold
  | breakerWindowMs
  | breakerCooldownMs
  | visionStrategy
  | visionTarget
  | visionModel
  | visionPrompt
  | visionPromptVersion
  | visionMaxImages
  | visionMaxDescriptionTokens
  | visionReasoningEffort
  | visionTimeoutMs
  | visionCacheSize
  | visionCacheTtlMs
  | visionCacheMaxRows
  | visionPersistentCache
  | visionConcurrency
  | visionMaxDimension
  | visionJpegQuality
  | visionImageFormat
  | visionImageDetail
  | visionIntentStrategy
  | visionDecompositionEnabled
  | visionDecompositionTimeoutMs
  | visionCraftingTimeoutMs
  | visionAdjacentTextMaxChars
  | visionRecentMessagesCount
  | visionSystemPromptMaxChars
  | backgroundVision
  | concurrencyMainReservation
  | concurrencyVisionReservation
  | visionForceInterceptCapable
  | captureBodyMaxBytes
  | queueMaxDepth
  | wsBackpressureLimit
  | wsCloseOnBackpressureLimit
  | visionPendingMaxBatch
  | compressionEnabled
  | useWriteWorker
  | upstreamTimeoutMs
  | experimentRewriteIds
  | experimentRewriteTtlMs
  | experimentStripOmoReminder
  | experimentTtftWatchdog
  | ttftTimeoutMs
  | ttftRetryMaxAttempts
  | ttftRetryGateSaturationPct
  | ttftRetryCooldownMs
  | ttftWatchdogMultiplier
  | ttftWatchdogHardCapMs
  | performanceSampleCount
  | incidentRetentionDays
  deriving DecidableEq, Repr

abbrev ProxyConfig := ProxyField → Value

/-- The variables: those named after a key, in upper case, and two more. -/
structure Env where
  ofKey : Key → Option JsString
  target : Option JsString := none
  visionTarget : Option JsString := none

/-! ## Values -/

mutual

/-- `Number(String(v))` of an element; a text with a comma is no number. -/
def numberInArray : Value → Num ℚ
  | .null => .fin 0
  | .bool _ => .nan
  | .num n => n
  | .str s => numberOf s
  | .arr items => numberOfItems items
  | .obj _ => .nan

/-- `Number` of an array. -/
def numberOfItems : List Value → Num ℚ
  | [] => .fin 0
  | [v] => numberInArray v
  | _ :: _ :: _ => .nan

end

/-- `Number(v)`, if it does not throw. -/
def numberOfValue (v : Value) : Option (Num ℚ) :=
  match v with
  | .null => some (.fin 0)
  | .bool b => some (.fin (if b then 1 else 0))
  | .num n => some n
  | .str s => some (numberOf s)
  | .arr items => if v.stringThrows then none else some (numberOfItems items)
  | .obj _ => if v.stringThrows then none else some .nan

/-- `num`. -/
def numValue (val : Option Value) (fallback : Num ℚ) : Option (Num ℚ) :=
  match val with
  | none | some .null => some fallback
  | some v => (numberOfValue v).map fun n => if n = .nan then fallback else n

/-- `val ?? fallback`. -/
def str (val : Option Value) (fallback : Value) : Value :=
  match val with
  | none | some .null => fallback
  | some v => v

def bool (val : Option Value) (fallback : Bool) : Bool :=
  match val with
  | some (.bool b) => b
  | some (.str s) => s = js "true" || s = js "1"
  | some (.num n) => n ≠ .fin 0
  | _ => fallback

def resolveUpstreamProtocol (raw : Option Value) : Option Value :=
  match str raw (.text "http1.1") with
  | .str s =>
    if (Value.str s).namesOneOf ["http2", "h2"] then some (.text "http2") else some (.text "http1.1")
  | _ => none

def envOrRawBool (envVal : Option JsString) (raw : RawInput) (key : Key) (fallback : Bool) : Bool :=
  match envVal with
  | some val => bool (some (.str val)) fallback
  | none =>
    match raw (.known key) with
    | some (.bool b) => b
    | _ => fallback

/-- `DEFAULT_CONFIG[key] ?? fallback`. -/
def defaultBool (key : Key) (fallback : Bool) : Bool :=
  match DEFAULT_CONFIG key with
  | some (.bool b) => b
  | _ => fallback

/-- `s.replace(/\/+$/, "")`. -/
def withoutSlashes (s : JsString) : JsString := (s.reverse.dropWhile (· = 47)).reverse

def UPSTREAM_TARGET : JsString := js "https://api.code.umans.ai"
def OPENAI_CHAT_PATH : JsString := js "chat/completions"
def WARMER_PATH : JsString := js "/v1/models"
def VISION_TARGET_PATH : JsString := js "/v1/chat/completions"
def STAMP_REASONING_EFFORT_VALUE : JsString := js "high"

/-! ## Stamp rules -/

/-- The properties of a rule and their names in the file. -/
def PER_MODEL_RULE : List (JsString × JsString) := [
  (js "pattern", js "pattern"),
  (js "anthropicThinkingShape", js "anthropic_thinking_shape"),
  (js "openaiThinkingShape", js "openai_thinking_shape"),
  (js "openaiExtraBody", js "openai_extra_body"),
  (js "openaiVetoReasoningEffort", js "openai_veto_reasoning_effort"),
  (js "forceThinkingWhenAbsent", js "force_thinking_when_absent")]

def property (fields : List (JsString × Value)) (name : JsString) : Option Value :=
  (fields.find? fun e => e.1 = name).map Prod.snd

/-- A rule whose pattern is a text that is not empty. -/
def parseStampModelRule : Value → Option Value
  | .obj fields =>
    match property fields (js "pattern") with
    | some (.str pattern) =>
      if pattern = [] then none
      else some (.obj (PER_MODEL_RULE.filterMap fun e => (property fields e.2).map (e.1, ·)))
    | _ => none
  | _ => none

def parseStampModelRules : Option Value → Value
  | some (.arr rules) => .arr (rules.filterMap parseStampModelRule)
  | _ => .arr []

/-! ## The loader -/

section

variable (env : Env) (raw : RawInput)

/-- `env.KEY ?? raw.key`. -/
def given (key : Key) : Option Value := ((env.ofKey key).map .str).or (raw (.known key))

/-- `num(env.KEY ?? raw.key, fallback)`. -/
def numField (key : Key) (fallback : ℚ) : Option Value :=
  (numValue (given env raw key) (.fin fallback)).map .num

/-- `bool(env.KEY ?? raw.key, fallback)`. -/
def boolField (key : Key) (fallback : Bool) : Option Value :=
  some (.bool (bool (given env raw key) fallback))

/-- `env.KEY ?? raw.key ?? fallback`. -/
def strField (key : Key) (fallback : Value) : Option Value := some (str (given env raw key) fallback)

/-- `envOrRawNum` with `DEFAULT_CONFIG.key ?? fallback`. -/
def rawNumField (key : Key) (fallback : ℚ) : Option Value :=
  some (.num (envOrRawNum (env.ofKey key) raw key (defaultNum key (.fin fallback))))

/-- `envOrRawBool` with `DEFAULT_CONFIG.key ?? fallback`. -/
def rawBoolField (key : Key) (fallback : Bool) : Option Value :=
  some (.bool (envOrRawBool (env.ofKey key) raw key (defaultBool key fallback)))

/-- A flag that only "false", "0" and a `false` of the file clear. -/
def unlessFalse (key : Key) : Option Value :=
  match env.ofKey key, raw (.known key) with
  | some val, _ => some (.bool (val ≠ js "false" && val ≠ js "0"))
  | none, some (.bool false) => some (.bool false)
  | none, _ => some (.bool true)

/-- The value of a field, if its computation does not throw. -/
def loadField : ProxyField → Option Value
  | .port => numField env raw .port 1945
  | .host => some (.text "127.0.0.1")
  | .target => some (.str (withoutSlashes (env.target.getD UPSTREAM_TARGET)))
  | .maxCaptures => numField env raw .max_captures 200
  | .dbPath => strField env raw .db_path (.text "./umans-gate.db")
  | .viewerPrefix => some (.text "/dashboard")
  | .flushIntervalMs => some (.int 50)
  | .flushBatch => some (.int 25)
  | .idleTimeout =>
    (numValue (given env raw .idle_timeout) (.fin 255)).map fun n => .num (Num.min n (.fin 255))
  | .upstreamProtocol => resolveUpstreamProtocol (given env raw .upstream_protocol)
  | .incomingProtocol => some (.text "http1.1")
  | .stampClaudeCode => boolField env raw .stamp_claude_code_enabled true
  | .stampModelRules => some (parseStampModelRules (raw (.known .stamp_model_rules)))
  | .stampReasoningEffort =>
    if bool (given env raw .stamp_reasoning_effort_enabled) true then
      some (.str STAMP_REASONING_EFFORT_VALUE)
    else some .null
  | .openaiPath => some (.str OPENAI_CHAT_PATH)
  | .warmerEnabled => unlessFalse env raw .warmer_enabled
  | .warmerIntervalMs => numField env raw .warmer_interval_ms 20000
  | .warmerPath => some (.str WARMER_PATH)
  | .umansApiKey => strField env raw .umans_api_key .null
  | .dashboardToken => strField env raw .dashboard_token .null
  | .usageRefreshMs => numField env raw .usage_refresh_ms 60000
  | .usageHistoryEnabled => rawBoolField env raw .usage_history_enabled true
  | .usageRawRetentionDays =>
    (numValue (given env raw .usage_raw_retention_days)
      (defaultNum .usage_raw_retention_days (.fin 7))).map .num
  | .usageGapThresholdMinutes =>
    (numValue (given env raw .usage_gap_threshold_minutes)
      (defaultNum .usage_gap_threshold_minutes (.fin 60))).map .num
  | .usageIdleSessionTimeoutMinutes =>
    (numValue (given env raw .usage_idle_session_timeout_minutes)
      (defaultNum .usage_idle_session_timeout_minutes (.fin 5))).map .num
  | .modelsRefreshMs => numField env raw .models_refresh_ms 3600000
  | .concurrencyHardCap => numField env raw .concurrency_hard_cap 16
  | .concurrencySoftLimit => numField env raw .concurrency_soft_limit 8
  | .useHardCap => boolField env raw .use_hard_cap true
  | .rateLimitRequests => numField env raw .rate_limit_requests 0
  | .requestHardCap => numField env raw .request_hard_cap 1000
  | .requestSoftLimit => numField env raw .request_soft_limit 500
  | .requestUseHardCap => boolField env raw .request_use_hard_cap true
  | .neverLimitRequests => boolField env raw .never_limit_requests true
  | .requestRateMargin => numField env raw .request_rate_margin 50
  | .queueTimeoutMs => numField env raw .queue_timeout_ms 180000
  | .maxQueueDepth => numField env raw .max_queue_depth 256
  | .releaseCooldownMs => numField env raw .release_cooldown_ms 1000
  | .breakerThreshold => numField env raw .breaker_threshold 5
  | .breakerWindowMs => numField env raw .breaker_window_ms 300000
  | .breakerCooldownMs => numField env raw .breaker_cooldown_ms 60000
  | .visionStrategy => strField env raw .vision_strategy (.text "never")
  | .visionTarget =>
    some (.str (env.visionTarget.getD (withoutSlashes UPSTREAM_TARGET ++ VISION_TARGET_PATH)))
  | .visionModel => strField env raw .vision_model (.text "umans-flash")
  | .visionPrompt =>
    strField env raw .vision_prompt
      (str (DEFAULT_CONFIG .vision_prompt) (.text "Describe this image concisely."))
  | .visionPromptVersion => numField env raw .vision_prompt_version 2
  | .visionMaxImages => numField env raw .vision_max_images 20
  | .visionMaxDescriptionTokens => numField env raw .vision_max_description_tokens 4096
  | .visionReasoningEffort => strField env raw .vision_reasoning_effort .null
  | .visionTimeoutMs => numField env raw .vision_timeout_ms 0
  | .visionCacheSize => numField env raw .vision_cache_size 1000
  | .visionCacheTtlMs => numField env raw .vision_cache_ttl_ms 604800000
  | .visionCacheMaxRows => numField env raw .vision_cache_max_rows 10000
  | .visionPersistentCache => unlessFalse env raw .vision_persistent_cache
  | .visionConcurrency => numField env raw .vision_concurrency 4
  | .visionMaxDimension => numField env raw .vision_max_dimension 2048
  | .visionJpegQuality => numField env raw .vision_jpeg_quality 92
  | .visionImageFormat => strField env raw .vision_image_format (.text "png")
  | .visionImageDetail => strField env raw .vision_image_detail (.text "high")
  | .visionIntentStrategy => strField env raw .vision_intent_strategy (.text "auto")
  | .visionDecompositionEnabled => rawBoolField env raw .vision_decomposition_enabled true
  | .visionDecompositionTimeoutMs => rawNumField env raw .vision_decomposition_timeout_ms 3000
  | .visionCraftingTimeoutMs => rawNumField env raw .vision_crafting_timeout_ms 3000
  | .visionAdjacentTextMaxChars => rawNumField env raw .vision_adjacent_text_max_chars 500
  | .visionRecentMessagesCount => rawNumField env raw .vision_recent_messages_count 6
  | .visionSystemPromptMaxChars => rawNumField env raw .vision_system_prompt_max_chars 1000
  | .backgroundVision =>
    some (.bool ((str (given env raw .vision_strategy) (.text "never")).isText "catalog"))
  | .concurrencyMainReservation => numField env raw .concurrency_main_reservation 1
  | .concurrencyVisionReservation =>
    if (str (given env raw .vision_strategy) (.text "never")).isText "never" then some (.int 0)
    else
      (numValue (given env raw .concurrency_vision_reservation) (.fin 1)).map fun n =>
        .num (Num.max (.fin 1) n)
  | .visionForceInterceptCapable =>
    some (.bool ((str (given env raw .vision_strategy) (.text "never")).isText "always"))
  | .captureBodyMaxBytes => rawNumField env raw .capture_body_max_bytes 1000000
  | .queueMaxDepth => rawNumField env raw .queue_max_depth 100
  | .wsBackpressureLimit => rawNumField env raw .ws_backpressure_limit 1048576
  | .wsCloseOnBackpressureLimit => rawBoolField env raw .ws_close_on_backpressure_limit true
  | .visionPendingMaxBatch => rawNumField env raw .vision_pending_max_batch 50
  | .compressionEnabled => rawBoolField env raw .compression_enabled true
  | .useWriteWorker => some (.bool false)
  | .upstreamTimeoutMs => rawNumField env raw .upstream_timeout_ms 300000
  | .experimentRewriteIds => rawBoolField env raw .experiment_rewrite_ids true
  | .experimentRewriteTtlMs => rawNumField env raw .experiment_rewrite_ttl_ms 3600000
  | .experimentStripOmoReminder => rawBoolField env raw .experiment_strip_omo_reminder true
  | .experimentTtftWatchdog => rawBoolField env raw .experiment_ttft_watchdog true
  | .ttftTimeoutMs => rawNumField env raw .ttft_timeout_ms 60000
  | .ttftRetryMaxAttempts => rawNumField env raw .ttft_retry_max_attempts 2
  | .ttftRetryGateSaturationPct => rawNumField env raw .ttft_retry_gate_saturation_pct 80
  | .ttftRetryCooldownMs => rawNumField env raw .ttft_retry_cooldown_ms 5000
  | .ttftWatchdogMultiplier => rawNumField env raw .ttft_watchdog_multiplier 5
  | .ttftWatchdogHardCapMs => rawNumField env raw .ttft_watchdog_hard_cap_ms 300000
  | .performanceSampleCount => rawNumField env raw .performance_sample_count 200
  | .incidentRetentionDays => rawNumField env raw .incident_retention_days 30

/-- The fields in the order of the record. -/
def PROXY_FIELDS : List ProxyField := [
  .port, .host, .target, .maxCaptures, .dbPath, .viewerPrefix, .flushIntervalMs, .flushBatch,
  .idleTimeout, .upstreamProtocol, .incomingProtocol, .stampClaudeCode, .stampModelRules,
  .stampReasoningEffort, .openaiPath, .warmerEnabled, .warmerIntervalMs, .warmerPath, .umansApiKey,
  .dashboardToken, .usageRefreshMs, .usageHistoryEnabled, .usageRawRetentionDays,
  .usageGapThresholdMinutes, .usageIdleSessionTimeoutMinutes, .modelsRefreshMs,
  .concurrencyHardCap, .concurrencySoftLimit, .useHardCap, .rateLimitRequests, .requestHardCap,
  .requestSoftLimit, .requestUseHardCap, .neverLimitRequests, .requestRateMargin, .queueTimeoutMs,
  .maxQueueDepth, .releaseCooldownMs, .breakerThreshold, .breakerWindowMs, .breakerCooldownMs,
  .visionStrategy, .visionTarget, .visionModel, .visionPrompt, .visionPromptVersion,
  .visionMaxImages, .visionMaxDescriptionTokens, .visionReasoningEffort, .visionTimeoutMs,
  .visionCacheSize, .visionCacheTtlMs, .visionCacheMaxRows, .visionPersistentCache,
  .visionConcurrency, .visionMaxDimension, .visionJpegQuality, .visionImageFormat,
  .visionImageDetail, .visionIntentStrategy, .visionDecompositionEnabled,
  .visionDecompositionTimeoutMs, .visionCraftingTimeoutMs, .visionAdjacentTextMaxChars,
  .visionRecentMessagesCount, .visionSystemPromptMaxChars, .backgroundVision,
  .concurrencyMainReservation, .concurrencyVisionReservation, .visionForceInterceptCapable,
  .captureBodyMaxBytes, .queueMaxDepth, .wsBackpressureLimit, .wsCloseOnBackpressureLimit,
  .visionPendingMaxBatch, .compressionEnabled, .useWriteWorker, .upstreamTimeoutMs,
  .experimentRewriteIds, .experimentRewriteTtlMs, .experimentStripOmoReminder,
  .experimentTtftWatchdog, .ttftTimeoutMs, .ttftRetryMaxAttempts, .ttftRetryGateSaturationPct,
  .ttftRetryCooldownMs, .ttftWatchdogMultiplier, .ttftWatchdogHardCapMs, .performanceSampleCount,
  .incidentRetentionDays]

def loadConfig : Option ProxyConfig :=
  if PROXY_FIELDS.all fun field => (loadField env raw field).isSome then
    some fun field => (loadField env raw field).getD .null
  else none

variable {env raw}

theorem loadField_of_loadConfig {config : ProxyConfig} (h : loadConfig env raw = some config)
    {field : ProxyField} (hfield : field ∈ PROXY_FIELDS) :
    loadField env raw field = some (config field) := by
  unfold loadConfig at h
  split at h
  · rename_i hloads
    obtain rfl := Option.some.inj h
    have hsome := List.all_eq_true.mp hloads field hfield
    obtain ⟨v, hv⟩ := Option.isSome_iff_exists.mp hsome
    show loadField env raw field = some ((loadField env raw field).getD .null)
    rw [hv, Option.getD_some]
  · cases h

/-- A number that is loaded is one. -/
theorem numField_ne_nan {key : Key} {fallback : ℚ} {v : Value}
    (h : numField env raw key fallback = some v) : ∃ n, v = .num n ∧ n ≠ .nan := by
  obtain ⟨n, hn, rfl⟩ := Option.map_eq_some_iff.mp h
  refine ⟨n, rfl, ?_⟩
  unfold numValue at hn
  split at hn
  · obtain rfl := Option.some.inj hn
    simp
  · obtain rfl := Option.some.inj hn
    simp
  · obtain ⟨m, -, rfl⟩ := Option.map_eq_some_iff.mp hn
    split
    · simp
    · assumption

end

end UmansGate.Config
