/-
UmansGate.Config.Validation — coercion, field rules and `validateConfig`
(`config/validation.ts`).

Almost every rule checks one field by one of a few checks (`Check`); the
path of the database and the two reservations have rules of their own. A
rule throws only where it takes the text of the protocol.
-/
import UmansGate.Config.Defaults

namespace UmansGate.Config

open UmansGate.Lib

/-! ## Coercion -/

/-- Fields stored as integers on disk. -/
def INT_FIELDS : List Key := [
  .port, .max_captures, .idle_timeout, .warmer_interval_ms, .usage_refresh_ms,
  .models_refresh_ms, .usage_raw_retention_days, .usage_gap_threshold_minutes,
  .usage_idle_session_timeout_minutes, .concurrency_hard_cap, .concurrency_soft_limit,
  .rate_limit_requests, .request_rate_margin, .queue_timeout_ms, .max_queue_depth,
  .release_cooldown_ms, .breaker_threshold, .breaker_window_ms, .breaker_cooldown_ms,
  .vision_prompt_version, .vision_max_images, .vision_max_description_tokens,
  .vision_timeout_ms, .vision_cache_size, .vision_cache_ttl_ms, .vision_cache_max_rows,
  .vision_max_dimension, .vision_jpeg_quality, .vision_concurrency,
  .concurrency_main_reservation, .concurrency_vision_reservation, .capture_body_max_bytes,
  .queue_max_depth, .ws_backpressure_limit, .vision_pending_max_batch, .upstream_timeout_ms,
  .ttft_timeout_ms, .ttft_retry_max_attempts, .ttft_retry_gate_saturation_pct,
  .ttft_retry_cooldown_ms, .ttft_watchdog_multiplier, .ttft_watchdog_hard_cap_ms,
  .vision_decomposition_timeout_ms, .vision_crafting_timeout_ms,
  .vision_adjacent_text_max_chars, .vision_recent_messages_count,
  .vision_system_prompt_max_chars, .incident_retention_days]

/-- A numeric string becomes a number. -/
def coerceValue : Value → Value
  | .str s => if s = [] ∨ numberOf s = .nan then .str s else .num (numberOf s)
  | v => v

/-- Other properties than the known ones are dropped. -/
def coerceRawForValidation (raw : RawInput) : RawConfig := fun key =>
  if key ∈ INT_FIELDS then (raw (.known key)).map coerceValue else raw (.known key)

/-! ## Field rules -/

/-- What a rule asks of a field that is set. -/
inductive Check where
  /-- An integer from `min` on, up to `max` where there is one. -/
  | integer (min : ℤ) (max : Option ℤ)
  | integerOrNull (min : ℤ)
  | boolean
  | text
  | nonEmptyText
  | oneOf (values : List String)
  | oneOfOrNull (values : List String)
  /-- The text of the value, in lower case, is one of the names. -/
  | protocol (names : List String)
  deriving DecidableEq

namespace Check

/-- `!Number.isInteger(v) || v < min || v > max`. -/
def integerFails (min : ℤ) (max : Option ℤ) (v : Value) : Bool :=
  match v.integer? with
  | some i => i < min || max.any fun m => m < i
  | none => true

def fails : Check → Value → Bool
  | integer min max, v => integerFails min max v
  | integerOrNull min, v => !v.isNull && integerFails min none v
  | boolean, v => !v.isBool
  | text, v => !v.isString
  | nonEmptyText, v => !v.isString || v.isText ""
  | oneOf values, v => !values.any fun s => v.isText s
  | oneOfOrNull values, v => !v.isNull && !values.any fun s => v.isText s
  | protocol names, v => !v.namesOneOf names

end Check

inductive FieldRule where
  | field (key : Key) (check : Check) (message : String)
  | dbPath
  | mainReservation
  | visionReservation
  deriving DecidableEq

/-- The hard cap, where it is an integer. -/
def hardCap? (n : RawConfig) : Option ℤ := (n .concurrency_hard_cap).bind Value.integer?

/-- `n.vision_strategy === "never"`. -/
def isNever (n : RawConfig) : Bool := (n .vision_strategy).any (·.isText "never")

def FieldRule.errors (n : RawConfig) : FieldRule → List String
  | .field key check message =>
    match n key with
    | some v => if check.fails v then [message] else []
    | none => []
  | .dbPath =>
    match n .db_path with
    | none => []
    | some (.str s) =>
      if s = [] then ["db_path must be a non-empty string"]
      else if s.tails.any (js "..").isPrefixOf then
        ["db_path must not contain path traversal (..)"]
      else []
    | some _ => ["db_path must be a non-empty string"]
  | .mainReservation =>
    match hardCap? n, n .concurrency_main_reservation with
    | some cap, some v =>
      if cap - 2 < 1 then []
      else
        match v.integer? with
        | none => ["concurrency_main_reservation must be a positive integer (min 1)"]
        | some i =>
          if i < 1 then ["concurrency_main_reservation must be a positive integer (min 1)"]
          else if cap - 2 < i then
            ["concurrency_main_reservation must be <= hard_cap - 2 (=" ++ toString (cap - 2) ++ ")"]
          else []
    | _, _ => []
  | .visionReservation =>
    match hardCap? n, n .concurrency_vision_reservation with
    | some cap, some v =>
      if cap - 2 < 1 then []
      else
        match v.integer? with
        | none => ["concurrency_vision_reservation must be an integer"]
        | some i =>
          if isNever n then []
          else if i < 1 then
            ["concurrency_vision_reservation must be a positive integer (min 1)"]
          else if cap - 2 < i then
            ["concurrency_vision_reservation must be <= hard_cap - 2 (=" ++
              toString (cap - 2) ++ ")"]
          else []
    | _, _ => []

def FIELD_RULES : List FieldRule := [
  .field .port (.integer 1 (some 65535)) "port must be an integer between 1 and 65535",
  .field .max_captures (.integer 200 none) "max_captures must be an integer >= 200",
  .dbPath,
  .field .idle_timeout (.integer 1 (some 255))
    "idle_timeout must be an integer between 1 and 255",
  .field .upstream_protocol (.protocol ["http1.1", "http2", "h2"])
    "upstream_protocol must be 'http1.1' or 'http2'",
  .field .stamp_claude_code_enabled .boolean "stamp_claude_code_enabled must be a boolean",
  .field .stamp_reasoning_effort_enabled .boolean
    "stamp_reasoning_effort_enabled must be a boolean",
  .field .compression_enabled .boolean "compression_enabled must be a boolean",
  .field .use_hard_cap .boolean "use_hard_cap must be a boolean",
  .field .request_use_hard_cap .boolean "request_use_hard_cap must be a boolean",
  .field .never_limit_requests .boolean "never_limit_requests must be a boolean",
  .field .experiment_strip_omo_reminder .boolean
    "experiment_strip_omo_reminder must be a boolean",
  .field .experiment_ttft_watchdog .boolean "experiment_ttft_watchdog must be a boolean",
  .field .usage_history_enabled .boolean "usage_history_enabled must be a boolean",
  .field .warmer_enabled .boolean "warmer_enabled must be a boolean",
  .field .warmer_interval_ms (.integer 1000 none) "warmer_interval_ms must be an integer >= 1000",
  .field .umans_api_key .text "umans_api_key must be a string",
  .field .dashboard_token .text "dashboard_token must be a string",
  .field .usage_refresh_ms (.integer 1000 none) "usage_refresh_ms must be an integer >= 1000",
  .field .usage_raw_retention_days (.integer 1 none)
    "usage_raw_retention_days must be an integer >= 1",
  .field .incident_retention_days (.integer 1 none)
    "incident_retention_days must be an integer >= 1",
  .field .usage_gap_threshold_minutes (.integer 5 none)
    "usage_gap_threshold_minutes must be an integer >= 5",
  .field .usage_idle_session_timeout_minutes (.integer 1 none)
    "usage_idle_session_timeout_minutes must be an integer >= 1",
  .field .models_refresh_ms (.integer 1000 none) "models_refresh_ms must be an integer >= 1000",
  .field .concurrency_hard_cap (.integer 1 none) "concurrency_hard_cap must be an integer >= 1",
  .field .concurrency_soft_limit (.integer 1 none)
    "concurrency_soft_limit must be an integer >= 1",
  .field .request_hard_cap (.integer 1 none) "request_hard_cap must be an integer >= 1",
  .field .request_soft_limit (.integer 1 none) "request_soft_limit must be an integer >= 1",
  .field .request_rate_margin (.integer 0 none)
    "request_rate_margin must be a non-negative integer",
  .mainReservation,
  .visionReservation,
  .field .rate_limit_requests (.integerOrNull (-1))
    ("rate_limit_requests must be -1 (unlimited), 0 (auto-derive from /v1/usage), " ++
      "or a positive integer"),
  .field .queue_timeout_ms (.integer 100 none) "queue_timeout_ms must be an integer >= 100",
  .field .max_queue_depth (.integer 1 none) "max_queue_depth must be a positive integer",
  .field .release_cooldown_ms (.integer 0 none)
    "release_cooldown_ms must be a non-negative integer",
  .field .breaker_threshold (.integer 1 none) "breaker_threshold must be a positive integer",
  .field .breaker_window_ms (.integer 1000 none) "breaker_window_ms must be an integer >= 1000",
  .field .breaker_cooldown_ms (.integer 1000 none)
    "breaker_cooldown_ms must be an integer >= 1000",
  .field .vision_strategy (.oneOf ["never", "catalog", "always"])
    "vision_strategy must be 'never', 'catalog', or 'always'",
  .field .vision_model .text "vision_model must be a string",
  .field .vision_prompt .nonEmptyText "vision_prompt must be a non-empty string",
  .field .vision_prompt_version (.integer 1 none)
    "vision_prompt_version must be a positive integer",
  .field .vision_max_images (.integer 1 (some 100))
    "vision_max_images must be an integer between 1 and 100",
  .field .vision_max_description_tokens (.integer 1 (some 200000))
    "vision_max_description_tokens must be an integer between 1 and 200000",
  .field .vision_timeout_ms (.integer 0 none)
    "vision_timeout_ms must be a non-negative integer (0 = no timeout)",
  .field .vision_cache_size (.integer 100 none) "vision_cache_size must be an integer >= 100",
  .field .vision_concurrency (.integer 1 (some 20))
    "vision_concurrency must be an integer between 1 and 20",
  .field .vision_reasoning_effort (.oneOfOrNull ["none", "low", "medium", "high"])
    "vision_reasoning_effort must be 'none', 'low', 'medium', 'high', or null",
  .field .vision_max_dimension (.integer 256 (some 8192))
    "vision_max_dimension must be an integer between 256 and 8192",
  .field .vision_jpeg_quality (.integer 1 (some 100))
    "vision_jpeg_quality must be an integer between 1 and 100",
  .field .vision_image_format (.oneOf ["jpeg", "png"])
    "vision_image_format must be 'jpeg' or 'png'",
  .field .vision_image_detail (.oneOf ["auto", "low", "high"])
    "vision_image_detail must be 'auto', 'low', or 'high'",
  .field .vision_intent_strategy (.oneOf ["off", "slotted", "crafted", "auto"])
    "vision_intent_strategy must be 'off', 'slotted', 'crafted', or 'auto'",
  .field .vision_decomposition_enabled .boolean "vision_decomposition_enabled must be a boolean",
  .field .vision_decomposition_timeout_ms (.integer 100 none)
    "vision_decomposition_timeout_ms must be an integer >= 100",
  .field .vision_crafting_timeout_ms (.integer 100 none)
    "vision_crafting_timeout_ms must be an integer >= 100",
  .field .vision_adjacent_text_max_chars (.integer 0 none)
    "vision_adjacent_text_max_chars must be a non-negative integer",
  .field .vision_recent_messages_count (.integer 0 none)
    "vision_recent_messages_count must be a non-negative integer",
  .field .vision_system_prompt_max_chars (.integer 0 none)
    "vision_system_prompt_max_chars must be a non-negative integer",
  .field .vision_cache_ttl_ms (.integer 1000 none)
    "vision_cache_ttl_ms must be an integer >= 1000",
  .field .vision_cache_max_rows (.integer 100 none)
    "vision_cache_max_rows must be an integer >= 100",
  .field .vision_persistent_cache .boolean "vision_persistent_cache must be a boolean",
  .field .capture_body_max_bytes (.integer 0 none)
    "capture_body_max_bytes must be a non-negative integer (0 = unlimited)",
  .field .queue_max_depth (.integer 1 none) "queue_max_depth must be a positive integer",
  .field .ws_backpressure_limit (.integer 0 none)
    "ws_backpressure_limit must be a non-negative integer (0 = Bun default)",
  .field .ws_close_on_backpressure_limit .boolean
    "ws_close_on_backpressure_limit must be a boolean",
  .field .vision_pending_max_batch (.integer 1 none)
    "vision_pending_max_batch must be a positive integer",
  .field .upstream_timeout_ms (.integer 1000 none)
    "upstream_timeout_ms must be an integer >= 1000",
  .field .ttft_timeout_ms (.integer 1000 none) "ttft_timeout_ms must be an integer >= 1000",
  .field .ttft_retry_max_attempts (.integer 1 (some 3))
    "ttft_retry_max_attempts must be an integer between 1 and 3",
  .field .ttft_retry_gate_saturation_pct (.integer 1 (some 100))
    "ttft_retry_gate_saturation_pct must be an integer between 1 and 100",
  .field .ttft_retry_cooldown_ms (.integer 0 none)
    "ttft_retry_cooldown_ms must be an integer >= 0",
  .field .ttft_watchdog_multiplier (.integer 1 none)
    "ttft_watchdog_multiplier must be an integer >= 1",
  .field .ttft_watchdog_hard_cap_ms (.integer 1000 none)
    "ttft_watchdog_hard_cap_ms must be an integer >= 1000"]

/-! ## Warning rules -/

/-- The requests limit of the upstream, as far as it is known. -/
inductive UpstreamRequestsLimit where
  | unknown
  | unlimited
  | limit (requests : Num ℚ)

/-- The warning of each rule, if it has one to give. -/
def WARNING_RULES (n : RawConfig) (ctx : UpstreamRequestsLimit) : List (Option String) := [
  if (n .warmer_enabled).any (fun v => v.isBool && !v.isTrue) then
    some ("Connection warmer is disabled — first request after idle will have " ++
      "~750ms cold-start penalty")
  else none,
  if (n .rate_limit_requests).any (fun v => v.integer? = some (-1)) then
    match ctx with
    | .unlimited => none
    | _ => some "Rate limiting is unlimited (rate_limit_requests=-1). No request cap is enforced."
  else none,
  if (n .stamp_claude_code_enabled).any Value.isTrue then none
  else some ("Claude Code stamping is off — TTL, top_k, max_tokens, thinking, output_config, " ++
    "and context_management stamps are inactive. This is informational and safe to ignore if " ++
    "stamping is intentionally disabled."),
  if (n .umans_api_key).all (·.isText "") then
    some ("umans_api_key is empty — proxy runs in fail-safe mode (worst-case limits, " ++
      "priority_low=true). Set umans_api_key in the Server section to enable usage-based limits.")
  else none]

/-! ## Validation -/

structure ValidationResult where
  ok : Bool
  errors : List String
  warnings : List String
  normalized : RawConfig

/-- The defaults filled in, and no slots reserved for vision that is off. -/
def normalize (raw : RawInput) : RawConfig :=
  let n := spread DEFAULT_CONFIG (coerceRawForValidation raw)
  fun key => if key = .concurrency_vision_reservation ∧ isNever n then some (.int 0) else n key

def fieldErrors (n : RawConfig) : List String := FIELD_RULES.flatMap (FieldRule.errors n)

/-- None where a rule throws. -/
def validateConfig (raw : RawInput) (ctx : UpstreamRequestsLimit) : Option ValidationResult :=
  let n := normalize raw
  if (n .upstream_protocol).any Value.stringThrows then none
  else
    let errors := fieldErrors n
    some { ok := errors.isEmpty, errors, warnings := (WARNING_RULES n ctx).reduceOption,
           normalized := n }

end UmansGate.Config
