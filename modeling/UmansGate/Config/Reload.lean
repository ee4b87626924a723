/-
UmansGate.Config.Reload — what a reload of the configuration applies to a
running server (`config/reload.ts`).

A key is listed when the file gives it another text than before: under
`restartRequired` if it is one of `RESTART_REQUIRED_FIELDS`, else under
`applied`. The lists are only ever asked for a name, so each is the set of
its names.
-/
import Mathlib.Logic.Function.Basic
import UmansGate.Config.File
import UmansGate.Config.ProxyConfig

namespace UmansGate.Config

open UmansGate.Lib

namespace Value

mutual

def same : Value → Value → Bool
  | null, null => true
  | bool b, bool c => b == c
  | num m, num n => m == n
  | str s, str t => s == t
  | arr vs, arr ws => sameItems vs ws
  | obj vs, obj ws => sameFields vs ws
  | _, _ => false

def sameItems : List Value → List Value → Bool
  | [], [] => true
  | v :: vs, w :: ws => same v w && sameItems vs ws
  | _, _ => false

def sameFields : List (JsString × Value) → List (JsString × Value) → Bool
  | [], [] => true
  | (key, v) :: vs, (key', w) :: ws => key == key' && same v w && sameFields vs ws
  | _, _ => false

end

mutual

theorem same_iff (v w : Value) : same v w = true ↔ v = w := by
  cases v with
  | arr vs => cases w <;> simp [same, sameItems_iff]
  | obj vs => cases w <;> simp [same, sameFields_iff]
  | null => cases w <;> simp [same]
  | bool b => cases w <;> simp [same]
  | num n => cases w <;> simp [same]
  | str s => cases w <;> simp [same]

theorem sameItems_iff (vs ws : List Value) : sameItems vs ws = true ↔ vs = ws := by
  cases vs with
  | nil => cases ws <;> simp [sameItems]
  | cons v vs =>
    cases ws with
    | nil => simp [sameItems]
    | cons w ws => simp [sameItems, same_iff v w, sameItems_iff vs ws]

theorem sameFields_iff (vs ws : List (JsString × Value)) : sameFields vs ws = true ↔ vs = ws := by
  cases vs with
  | nil => cases ws <;> simp [sameFields]
  | cons e vs =>
    cases ws with
    | nil => simp [sameFields]
    | cons e' ws =>
      obtain ⟨key, v⟩ := e
      obtain ⟨key', w⟩ := e'
      simp [sameFields, same_iff v w, sameFields_iff vs ws]

end

/-- `JSON.stringify(v) === JSON.stringify(w)`: what is read back is the same. -/
def sameText (v w : Value) : Bool := same v.stored w.stored

end Value

/-- The fields that need a restart. -/
def RESTART_REQUIRED_FIELDS : List Key := [
  .port, .max_captures, .db_path, .idle_timeout, .upstream_protocol, .queue_max_depth,
  .ws_backpressure_limit, .ws_close_on_backpressure_limit, .warmer_enabled, .warmer_interval_ms,
  .usage_refresh_ms, .umans_api_key, .dashboard_token, .models_refresh_ms, .vision_strategy,
  .vision_model, .vision_prompt, .vision_prompt_version, .vision_max_images,
  .vision_max_description_tokens, .vision_reasoning_effort, .vision_timeout_ms, .vision_cache_size,
  .vision_cache_ttl_ms, .vision_cache_max_rows, .vision_persistent_cache, .vision_max_dimension,
  .vision_jpeg_quality, .vision_image_format, .vision_image_detail, .vision_concurrency,
  .vision_pending_max_batch]

/-- The keys that are applied and the field that each assigns. -/
def RELOAD_FIELDS : List (Key × ProxyField) := [
  (.stamp_claude_code_enabled, .stampClaudeCode),
  (.stamp_model_rules, .stampModelRules),
  (.usage_history_enabled, .usageHistoryEnabled),
  (.usage_raw_retention_days, .usageRawRetentionDays),
  (.usage_gap_threshold_minutes, .usageGapThresholdMinutes),
  (.usage_idle_session_timeout_minutes, .usageIdleSessionTimeoutMinutes),
  (.stamp_reasoning_effort_enabled, .stampReasoningEffort),
  (.rate_limit_requests, .rateLimitRequests),
  (.request_hard_cap, .requestHardCap),
  (.request_soft_limit, .requestSoftLimit),
  (.request_use_hard_cap, .requestUseHardCap),
  (.never_limit_requests, .neverLimitRequests),
  (.request_rate_margin, .requestRateMargin),
  (.queue_timeout_ms, .queueTimeoutMs),
  (.max_queue_depth, .maxQueueDepth),
  (.release_cooldown_ms, .releaseCooldownMs),
  (.breaker_threshold, .breakerThreshold),
  (.breaker_window_ms, .breakerWindowMs),
  (.breaker_cooldown_ms, .breakerCooldownMs),
  (.concurrency_main_reservation, .concurrencyMainReservation),
  (.concurrency_vision_reservation, .concurrencyVisionReservation),
  (.concurrency_hard_cap, .concurrencyHardCap),
  (.concurrency_soft_limit, .concurrencySoftLimit),
  (.use_hard_cap, .useHardCap),
  (.compression_enabled, .compressionEnabled),
  (.capture_body_max_bytes, .captureBodyMaxBytes),
  (.upstream_timeout_ms, .upstreamTimeoutMs),
  (.experiment_rewrite_ids, .experimentRewriteIds),
  (.experiment_rewrite_ttl_ms, .experimentRewriteTtlMs),
  (.experiment_strip_omo_reminder, .experimentStripOmoReminder),
  (.experiment_ttft_watchdog, .experimentTtftWatchdog),
  (.ttft_timeout_ms, .ttftTimeoutMs),
  (.ttft_retry_max_attempts, .ttftRetryMaxAttempts),
  (.ttft_retry_gate_saturation_pct, .ttftRetryGateSaturationPct),
  (.ttft_retry_cooldown_ms, .ttftRetryCooldownMs),
  (.ttft_watchdog_multiplier, .ttftWatchdogMultiplier),
  (.ttft_watchdog_hard_cap_ms, .ttftWatchdogHardCapMs),
  (.vision_intent_strategy, .visionIntentStrategy),
  (.vision_decomposition_enabled, .visionDecompositionEnabled),
  (.vision_decomposition_timeout_ms, .visionDecompositionTimeoutMs),
  (.vision_crafting_timeout_ms, .visionCraftingTimeoutMs),
  (.vision_adjacent_text_max_chars, .visionAdjacentTextMaxChars),
  (.vision_recent_messages_count, .visionRecentMessagesCount),
  (.vision_system_prompt_max_chars, .visionSystemPromptMaxChars),
  (.performance_sample_count, .performanceSampleCount),
  (.incident_retention_days, .incidentRetentionDays)]

/-- The fields that the loader makes of a key and of nothing else but the
strategy. -/
def fieldsOf : Key → List ProxyField
  | .port => [.port]
  | .max_captures => [.maxCaptures]
  | .db_path => [.dbPath]
  | .idle_timeout => [.idleTimeout]
  | .upstream_protocol => [.upstreamProtocol]
  | .warmer_enabled => [.warmerEnabled]
  | .warmer_interval_ms => [.warmerIntervalMs]
  | .umans_api_key => [.umansApiKey]
  | .dashboard_token => [.dashboardToken]
  | .usage_refresh_ms => [.usageRefreshMs]
  | .models_refresh_ms => [.modelsRefreshMs]
  | .vision_strategy => [.visionStrategy, .backgroundVision, .visionForceInterceptCapable]
  | .vision_model => [.visionModel]
  | .vision_prompt => [.visionPrompt]
  | .vision_prompt_version => [.visionPromptVersion]
  | .vision_max_images => [.visionMaxImages]
  | .vision_max_description_tokens => [.visionMaxDescriptionTokens]
  | .vision_reasoning_effort => [.visionReasoningEffort]
  | .vision_timeout_ms => [.visionTimeoutMs]
  | .vision_cache_size => [.visionCacheSize]
  | .vision_cache_ttl_ms => [.visionCacheTtlMs]
  | .vision_cache_max_rows => [.visionCacheMaxRows]
  | .vision_persistent_cache => [.visionPersistentCache]
  | .vision_concurrency => [.visionConcurrency]
  | .vision_max_dimension => [.visionMaxDimension]
  | .vision_jpeg_quality => [.visionJpegQuality]
  | .vision_image_format => [.visionImageFormat]
  | .vision_image_detail => [.visionImageDetail]
  | .queue_max_depth => [.queueMaxDepth]
  | .ws_backpressure_limit => [.wsBackpressureLimit]
  | .ws_close_on_backpressure_limit => [.wsCloseOnBackpressureLimit]
  | .vision_pending_max_batch => [.visionPendingMaxBatch]
  | key => (RELOAD_FIELDS.filter fun e => e.1 = key).map Prod.snd

structure ReloadLists where
  applied : Name → Bool
  restartRequired : Name → Bool

/-- The file has the property, with another text than before. -/
def changed (oldRaw newRaw : RawInput) (name : Name) : Bool :=
  match newRaw name, oldRaw name with
  | none, _ => false
  | some _, none => true
  | some new, some old => !old.sameText new

def isRestartRequired : Name → Bool
  | .known key => RESTART_REQUIRED_FIELDS.contains key
  | .other _ => false

def reloadLists (oldRaw newRaw : RawInput) : ReloadLists where
  applied name := changed oldRaw newRaw name && !isRestartRequired name
  restartRequired name := changed oldRaw newRaw name && isRestartRequired name

/-- The live configuration that a reload leaves, and the lists it returns. -/
def applyReloadToConfig (live fresh : ProxyConfig) (oldRaw newRaw : RawInput) :
    ProxyConfig × ReloadLists :=
  let lists := reloadLists oldRaw newRaw
  (RELOAD_FIELDS.foldl (fun live e =>
      if lists.applied (.known e.1) then Function.update live e.2 (fresh e.2) else live) live,
    lists)

/-! ## What is assigned -/

/-- Assignments of values of one configuration. -/
theorem foldl_assign (p : Key → Bool) (fresh : ProxyConfig) (table : List (Key × ProxyField))
    (live : ProxyConfig) (field : ProxyField) :
    table.foldl (fun live e => if p e.1 then Function.update live e.2 (fresh e.2) else live) live
        field =
      if ∃ e ∈ table, p e.1 = true ∧ e.2 = field then fresh field else live field := by
  induction table generalizing live with
  | nil => simp
  | cons e table ih =>
    rw [List.foldl_cons, ih]
    simp only [List.exists_mem_cons_iff]
    by_cases hlater : ∃ e ∈ table, p e.1 = true ∧ e.2 = field
    · rw [if_pos hlater, if_pos (.inr hlater)]
    · rw [if_neg hlater]
      by_cases hnow : p e.1 = true
      · rw [if_pos hnow]
        by_cases hfield : e.2 = field
        · rw [if_pos (.inl ⟨hnow, hfield⟩), ← hfield, Function.update_self]
        · rw [Function.update_of_ne (Ne.symm hfield), if_neg]
          rintro (⟨-, heq⟩ | hin)
          · exact hfield heq
          · exact hlater hin
      · rw [if_neg hnow, if_neg]
        rintro (⟨hp, -⟩ | hin)
        · exact hnow hp
        · exact hlater hin

theorem applyReloadToConfig_fst (live fresh : ProxyConfig) (oldRaw newRaw : RawInput)
    (field : ProxyField) :
    (applyReloadToConfig live fresh oldRaw newRaw).1 field =
      if ∃ e ∈ RELOAD_FIELDS, (reloadLists oldRaw newRaw).applied (.known e.1) = true ∧ e.2 = field
      then fresh field else live field :=
  foldl_assign (fun key => (reloadLists oldRaw newRaw).applied (.known key)) fresh RELOAD_FIELDS
    live field

/-- A key that needs no restart assigns its field. -/
theorem mem_reloadFields {key : Key} (h : key ∉ RESTART_REQUIRED_FIELDS) :
    ∀ field ∈ fieldsOf key, (key, field) ∈ RELOAD_FIELDS := by
  cases key <;> first | decide | exact absurd (by decide) h

/-- No key assigns a field of a key that needs one. -/
theorem not_mem_reloadFields {key : Key} (h : key ∈ RESTART_REQUIRED_FIELDS) :
    ∀ field ∈ fieldsOf key, ∀ e ∈ RELOAD_FIELDS, e.2 ≠ field := by
  revert key
  decide

end UmansGate.Config
