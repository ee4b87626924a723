/-
UmansGate.Config.Defaults — the keys of a configuration and its defaults
(`config/types.ts`, `config/defaults.ts`).

A raw configuration gives a value to some of the keys. An object read from
a file or a request may have other properties; `Name` tells them apart.
-/
import UmansGate.Config.Value

namespace UmansGate.Config

open UmansGate.Lib

/-- The keys of `RawConfig`. -/
inductive Key where
  | port
  | max_captures
  | db_path
  | idle_timeout
  | upstream_protocol
  | stamp_claude_code_enabled
  | stamp_model_rules
  | stamp_reasoning_effort_enabled
  | warmer_enabled
  | warmer_interval_ms
  | umans_api_key
  | dashboard_token
  | usage_refresh_ms
  | usage_history_enabled
  | usage_raw_retention_days
  | usage_gap_threshold_minutes
  | usage_idle_session_timeout_minutes
  | models_refresh_ms
  | concurrency_hard_cap
  | concurrency_soft_limit
  | use_hard_cap
  | rate_limit_requests
  | request_use_hard_cap
  | request_hard_cap
  | request_soft_limit
  | request_rate_margin
  | never_limit_requests
  | queue_timeout_ms
  | max_queue_depth
  | release_cooldown_ms
  | breaker_threshold
  | breaker_window_ms
  | breaker_cooldown_ms
  | vision_strategy
  | vision_model
  | vision_prompt
  | vision_prompt_version
  | vision_max_images
  | vision_max_description_tokens
  | vision_reasoning_effort
  | vision_timeout_ms
  | vision_cache_size
  | vision_cache_ttl_ms
  | vision_cache_max_rows
  | vision_persistent_cache
  | vision_concurrency
  | vision_max_dimension
  | vision_jpeg_quality
  | vision_image_format
  | vision_image_detail
  | vision_intent_strategy
  | vision_decomposition_enabled
  | vision_decomposition_timeout_ms
  | vision_crafting_timeout_ms
  | vision_adjacent_text_max_chars
  | vision_recent_messages_count
  | vision_system_prompt_max_chars
  | concurrency_main_reservation
  | concurrency_vision_reservation
  | capture_body_max_bytes
  | queue_max_depth
  | ws_backpressure_limit
  | ws_close_on_backpressure_limit
  | vision_pending_max_batch
  | compression_enabled
  | upstream_timeout_ms
  | experiment_rewrite_ids
  | experiment_rewrite_ttl_ms
  | experiment_strip_omo_reminder
  | experiment_ttft_watchdog
  | ttft_timeout_ms
  | ttft_retry_max_attempts
  | ttft_retry_gate_saturation_pct
  | ttft_retry_cooldown_ms
  | ttft_watchdog_multiplier
  | ttft_watchdog_hard_cap_ms
  | performance_sample_count
  | incident_retention_days
  deriving DecidableEq, Repr

/-- A property name of an object. -/
inductive Name where
  | known (key : Key)
  | other (name : JsString)
  deriving DecidableEq

/-- The properties that are not undefined. -/
abbrev RawConfig := Key → Option Value

/-- An object as it is read. -/
abbrev RawInput := Name → Option Value

/-- `{ ...a, ...b }` of two objects without undefined properties. -/
def spread {κ : Type} (a b : κ → Option Value) : κ → Option Value := fun k => (b k).or (a k)

/-- A configuration as an object. -/
def RawConfig.input (n : RawConfig) : RawInput
  | .known key => n key
  | .other _ => none

def defaultValue : Key → Value
  | .port => .int 1945
  | .max_captures => .int 200
  | .db_path => .text "./umans-gate.db"
  | .idle_timeout => .int 255
  | .upstream_protocol => .text "http1.1"
  | .stamp_claude_code_enabled => .bool true
  | .stamp_model_rules =>
    .arr [.obj [
      (js "pattern", .text "umans-deepseek-v4-flash-0731"),
      (js "anthropic_thinking_shape", .obj [(js "type", .text "enabled")]),
      (js "openai_thinking_shape", .obj [(js "type", .text "enabled")]),
      (js "force_thinking_when_absent", .bool true)]]
  | .stamp_reasoning_effort_enabled => .bool true
  | .warmer_enabled => .bool true
  | .warmer_interval_ms => .int 20000
  | .umans_api_key => .text ""
  | .dashboard_token => .text ""
  | .usage_refresh_ms => .int 60000
  | .usage_history_enabled => .bool true
  | .usage_raw_retention_days => .int 7
  | .usage_gap_threshold_minutes => .int 60
  | .usage_idle_session_timeout_minutes => .int 5
  | .models_refresh_ms => .int 3600000
  | .concurrency_hard_cap => .int 16
  | .concurrency_soft_limit => .int 8
  | .use_hard_cap => .bool true
  | .rate_limit_requests => .int 0
  | .request_use_hard_cap => .bool true
  | .request_hard_cap => .int 1000
  | .request_soft_limit => .int 500
  | .request_rate_margin => .int 50
  | .never_limit_requests => .bool true
  | .queue_timeout_ms => .int 180000
  | .max_queue_depth => .int 256
  | .release_cooldown_ms => .int 1000
  | .breaker_threshold => .int 5
  | .breaker_window_ms => .int 300000
  | .breaker_cooldown_ms => .int 60000
  | .vision_strategy => .text "never"
  | .vision_model => .text "umans-flash"
  | .vision_prompt =>
    .str (js "You are an expert visual analyst with perfect vision and meticulous attention to " ++
      js "detail. Your task is to produce an exhaustive, accurate description of an image " ++
      js "for a downstream text-only language model that cannot see the image.\n\nStructure " ++
      js "your description as:\n\n1. IMAGE TYPE: What kind of image is this (photograph, " ++
      js "screenshot, diagram, chart, illustration, document scan, UI mockup, etc.)?\n\n2. " ++
      js "OVERALL CONTENT: A comprehensive summary of everything visible.\n\n3. TEXT/OCR: " ++
      js "Transcribe ALL visible text exactly as written, preserving:\n   - Original " ++
      js "spelling, formatting, and hierarchy\n   - Line breaks and spatial layout\n   - " ++
      js "Numbers, codes, identifiers, and labels\n   - Captions, watermarks, signatures\n   " ++
      js "If text is partially visible, transcribe what you can and mark gaps with " ++
      js "[...].\n\n4. VISUAL ELEMENTS: Describe in detail:\n   - Objects, people, and their " ++
      js "positions/relationships\n   - Colors, shapes, textures\n   - Spatial layout and " ++
      js "composition\n   - UI elements (buttons, menus, fields, tabs) if a screenshot\n\n5. " ++
      js "DATA/CHARTS: If charts, tables, or data visualizations are present:\n   - Chart " ++
      js "type and axes\n   - Data values, ranges, and trends\n   - Table structure and cell " ++
      js "contents\n\n6. CONTEXTUAL CLUES: Date/time indicators, language, cultural context, " ++
      js "technical domain indicators.\n\n7. QUALITY NOTES: Any blur, artifacts, " ++
      js "obstructions, or ambiguity.\n\nRules:\n- Describe what is VISIBLE, not what you " ++
      js "infer.\n- Be exhaustive: omit nothing visible. When in doubt, include it.\n- For " ++
      js "uncertain elements, state your uncertainty rather than guessing.\n- Do not " ++
      js "summarize or abbreviate.\n- Output only the description, no preamble.")
  | .vision_prompt_version => .int 2
  | .vision_max_images => .int 20
  | .vision_max_description_tokens => .int 4096
  | .vision_reasoning_effort => .text "none"
  | .vision_timeout_ms => .int 0
  | .vision_cache_size => .int 1000
  | .vision_cache_ttl_ms => .int 604800000
  | .vision_cache_max_rows => .int 10000
  | .vision_persistent_cache => .bool true
  | .vision_concurrency => .int 4
  | .vision_max_dimension => .int 2048
  | .vision_jpeg_quality => .int 92
  | .vision_image_format => .text "png"
  | .vision_image_detail => .text "high"
  | .vision_intent_strategy => .text "auto"
  | .vision_decomposition_enabled => .bool true
  | .vision_decomposition_timeout_ms => .int 3000
  | .vision_crafting_timeout_ms => .int 3000
  | .vision_adjacent_text_max_chars => .int 500
  | .vision_recent_messages_count => .int 6
  | .vision_system_prompt_max_chars => .int 1000
  | .concurrency_main_reservation => .int 1
  | .concurrency_vision_reservation => .int 1
  | .capture_body_max_bytes => .int 10000000
  | .queue_max_depth => .int 100
  | .ws_backpressure_limit => .int 1048576
  | .ws_close_on_backpressure_limit => .bool true
  | .vision_pending_max_batch => .int 50
  | .compression_enabled => .bool true
  | .upstream_timeout_ms => .int 1800000
  | .experiment_rewrite_ids => .bool true
  | .experiment_rewrite_ttl_ms => .int 3600000
  | .experiment_strip_omo_reminder => .bool true
  | .experiment_ttft_watchdog => .bool true
  | .ttft_timeout_ms => .int 60000
  | .ttft_retry_max_attempts => .int 3
  | .ttft_retry_gate_saturation_pct => .int 80
  | .ttft_retry_cooldown_ms => .int 5000
  | .ttft_watchdog_multiplier => .int 5
  | .ttft_watchdog_hard_cap_ms => .int 300000
  | .performance_sample_count => .int 200
  | .incident_retention_days => .int 30

/-- Every key has a default. -/
def DEFAULT_CONFIG : RawConfig := fun key => some (defaultValue key)

end UmansGate.Config
