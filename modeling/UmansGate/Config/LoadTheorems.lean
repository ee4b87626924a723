/-
UmansGate.Config.LoadTheorems — what was saved is what is loaded.

`Settings` is what the file is for: a value for every key, which a save that
is accepted overwrites with the coerced patch and a reset sets to the
defaults. The file knows missing keys, other properties and texts of numbers,
and a save merges, coerces, validates and writes it; `settings_step` is the
step that they have in common and `settings_run` the run.

A `Reading` is one of the ways in which the loader takes a value from the
file. `reading` gives the one of each field, and `fits_checkOf` says that the
rule of its key lets only values pass that this way takes as they are.
-/
import UmansGate.Config.ProxyConfig
import UmansGate.Config.SaveTheorems

namespace UmansGate.Config

open UmansGate.Lib

variable {file patch input : RawInput} {key : Key} {v : Value} {env : Env} {n n' : RawConfig}

/-! ## Settings -/

/-- A value for every key. -/
abbrev Settings := Key → Value

/-- A save or a reset. -/
inductive Operation where
  | save (patch : RawInput) (ctx : UpstreamRequestsLimit)
  | reset

namespace Settings

def raw (s : Settings) : RawConfig := fun key => some (s key)

/-- The patch over the settings, and no slots reserved for vision that is off. -/
def overwrite (s : Settings) (patch : RawInput) : Settings :=
  let t : Settings := fun key => (coerceRawForValidation patch key).getD (s key)
  fun key =>
    if key = .concurrency_vision_reservation ∧ (t .vision_strategy).isText "never" then .int 0
    else t key

/-- The defaults and the two secrets. -/
def reset (s : Settings) : Settings
  | .umans_api_key => s .umans_api_key
  | .dashboard_token => s .dashboard_token
  | key => defaultValue key

def after (s : Settings) : Operation → Settings
  | .save patch _ =>
    if Fine (s.overwrite patch).raw then fun key => (s.overwrite patch key).stored else s
  | .reset => fun key => (s.reset key).stored

end Settings

/-- The file after an operation. -/
def write (file : RawInput) : Operation → RawInput
  | .save patch ctx => (saveConfig (some file) patch ctx).2
  | .reset => (resetConfig (some file)).2

/-- The settings that a file gives. -/
def settings (file : RawInput) : Settings := fun key => (base file key).getD .null

/-- The file gives every key its setting, and nothing else. -/
def Written (file : RawInput) : Prop := (settings file).raw.input = file

/-- The operation writes the file. -/
def Writes (file : RawInput) : Operation → Prop
  | .save patch ctx => ∃ n warnings, (saveConfig (some file) patch ctx).1 = .saved n warnings
  | .reset => True

theorem raw_settings (file : RawInput) : (settings file).raw = base file := by
  funext key
  obtain ⟨v, hv⟩ := Option.ne_none_iff_exists'.mp (base_ne_none file key)
  simp [Settings.raw, settings, hv]

theorem settings_eq_of_base {s : Settings} (h : base file = s.raw) : settings file = s := by
  funext key
  simp [settings, h, Settings.raw]

/-- A save looks at the settings and the patch alone. -/
theorem normalize_merged (file patch : RawInput) :
    normalize (merged file patch) = ((settings file).overwrite patch).raw := by
  have hbase : ∀ key, base (merged file patch) key =
      some ((coerceRawForValidation patch key).getD (settings file key)) := by
    intro key
    rw [base_merged, ← raw_settings]
    cases coerceRawForValidation patch key <;> rfl
  funext key
  simp only [normalize_eq, isNever, hbase, Option.any_some, Settings.raw, Settings.overwrite]
  split <;> rfl

/-- A key that the patch leaves alone, where it leaves the strategy alone. -/
theorem overwrite_raw_of_none {patch : RawInput} (hkey : coerceRawForValidation patch key = none)
    (hstrategy : coerceRawForValidation patch .vision_strategy = none) :
    ((settings file).overwrite patch).raw key = normalize file key := by
  simp only [Settings.raw, Settings.overwrite, hkey, hstrategy, Option.getD_none, normalize_eq,
    isNever, ← raw_settings, Option.any_some]
  split <;> rfl

/-! ## A step -/

/-- What is written is coerced. -/
theorem base_stored (hset : ∀ key, n key ≠ none)
    (hcoerced : ∀ key ∈ INT_FIELDS, ∀ v, n key = some v → coerceValue v = v) :
    base n.stored.input = n.stored := by
  funext key
  obtain ⟨v, hv⟩ := Option.ne_none_iff_exists'.mp (hset key)
  simp only [base, spread, coerceRawForValidation, RawConfig.input, RawConfig.stored, hv,
    Option.map_some]
  split
  · rename_i hkey
    simp [coerceValue_stored (hcoerced key hkey v hv)]
  · simp

/-- The rules of the two secrets. -/
theorem secret_rules : ∀ rule ∈ FIELD_RULES,
    (∀ key ∈ rule.reads, key ≠ .umans_api_key ∧ key ≠ .dashboard_token) ∨
      rule = .field .umans_api_key .text "umans_api_key must be a string" ∨
      rule = .field .dashboard_token .text "dashboard_token must be a string" := by
  decide

/-- The check that a rule makes of a key. -/
def FieldRule.check? (key : Key) : FieldRule → Option Check
  | .field name check _ => if name = key then some check else none
  | .dbPath => if key = .db_path then some .nonEmptyText else none
  | .mainReservation => none
  | .visionReservation => none

/-- The check that a key has to pass. -/
def checkOf (key : Key) : Option Check := FIELD_RULES.findSome? (FieldRule.check? key)

/-- A fine configuration passes its checks. -/
theorem fails_checkOf (hfine : Fine n) {check : Check} (hcheck : checkOf key = some check)
    (hv : n key = some v) : check.fails v = false := by
  obtain ⟨rule, hrule, hhas⟩ := List.exists_of_findSome?_eq_some hcheck
  have herrors := hfine.2 rule hrule
  cases rule with
  | field name check' message =>
    simp only [FieldRule.check?, Option.ite_none_right_eq_some, Option.some.injEq] at hhas
    obtain ⟨rfl, rfl⟩ := hhas
    simpa [FieldRule.errors, hv] using herrors
  | dbPath =>
    simp only [FieldRule.check?, Option.ite_none_right_eq_some, Option.some.injEq] at hhas
    obtain ⟨rfl, rfl⟩ := hhas
    simp only [FieldRule.errors, hv] at herrors
    cases v with
    | str s =>
      by_cases hempty : s = []
      · simp [hempty] at herrors
      · simp [Check.fails, Value.isString, Value.isText, js, hempty]
    | null => simp at herrors
    | bool b => simp at herrors
    | num x => simp at herrors
    | arr items => simp at herrors
    | obj fields => simp at herrors
  | mainReservation => simp [FieldRule.check?] at hhas
  | visionReservation => simp [FieldRule.check?] at hhas

/-- A setting of a valid file passes its check. -/
theorem settings_passes (hvalid : ValidFile file) {check : Check} (hcheck : checkOf key = some check) :
    check.fails (settings file key) = false := by
  have hne : key ≠ .concurrency_vision_reservation := by
    rintro rfl
    have hnone : checkOf .concurrency_vision_reservation = none := by decide
    simp [hnone] at hcheck
  refine fails_checkOf hvalid hcheck (v := settings file key) ?_
  rw [normalize_of_ne hne, ← raw_settings]
  rfl

/-- A fine configuration with other values of a few keys. -/
theorem Fine.of_rules (hfine : Fine n') (keys : List Key) (hsame : ∀ key ∉ keys, n key = n' key)
    (hthrows : (n .upstream_protocol).any Value.stringThrows = false)
    (hrules : ∀ rule ∈ FIELD_RULES, (∃ key ∈ rule.reads, key ∈ keys) → rule.errors n = []) :
    Fine n := by
  refine ⟨hthrows, fun rule hrule => ?_⟩
  by_cases hreads : ∃ key ∈ rule.reads, key ∈ keys
  · exact hrules rule hrule hreads
  · rw [errors_congr fun key hkey => hsame key fun hmem => hreads ⟨key, hkey, hmem⟩]
    exact hfine.2 rule hrule

/-- A fine configuration with other secrets. -/
theorem Fine.of_secrets (hfine : Fine n')
    (hsame : ∀ key, key ≠ .umans_api_key → key ≠ .dashboard_token → n key = n' key)
    (hkey : ∀ v, n .umans_api_key = some v → v.isString = true)
    (htoken : ∀ v, n .dashboard_token = some v → v.isString = true) : Fine n := by
  have hthrows : (n .upstream_protocol).any Value.stringThrows = false := by
    rw [hsame _ (by decide) (by decide)]
    exact hfine.1
  refine hfine.of_rules [.umans_api_key, .dashboard_token] (fun key hnot => ?_) hthrows
    fun rule hrule hreads => ?_
  · simp only [List.mem_cons, List.not_mem_nil, or_false, not_or] at hnot
    exact hsame key hnot.1 hnot.2
  rcases secret_rules rule hrule with hother | rfl | rfl
  · obtain ⟨key, hkey, hmem⟩ := hreads
    simp only [List.mem_cons, List.not_mem_nil, or_false] at hmem
    exact absurd hmem (not_or.mpr (hother key hkey))
  · simp only [FieldRule.errors, Check.fails]
    cases hv : n .umans_api_key with
    | none => rfl
    | some v => simp [hkey v hv]
  · simp only [FieldRule.errors, Check.fails]
    cases hv : n .dashboard_token with
    | none => rfl
    | some v => simp [htoken v hv]

/-- A secret of a valid file is a text. -/
theorem isString_secret (hvalid : ValidFile file)
    (hkey : key = .umans_api_key ∨ key = .dashboard_token) : (settings file key).isString = true := by
  have hcheck : checkOf key = some .text := by
    rcases hkey with rfl | rfl <;> rfl
  simpa [Check.fails] using settings_passes hvalid hcheck

/-- `existing.key ?? DEFAULT_CONFIG.key` of a secret. -/
theorem kept_secret (hvalid : ValidFile file)
    (hkey : key = .umans_api_key ∨ key = .dashboard_token) :
    (match readConfigFile file (.known key) with
      | none | some .null => DEFAULT_CONFIG key
      | some v => some v) = some (settings file key) := by
  have hbase : readConfigFile file (.known key) = some (settings file key) := by
    have hraw : base file key = some (settings file key) := by
      rw [← raw_settings]
      rfl
    rw [← hraw]
    rcases hkey with rfl | rfl <;> rfl
  have hstring := isString_secret hvalid hkey
  rw [hbase]
  cases hv : settings file key with
  | null => simp [hv, Value.isString] at hstring
  | str s => rfl
  | bool b => rfl
  | num x => rfl
  | arr items => rfl
  | obj fields => rfl

theorem resetConfig_fst (hvalid : ValidFile file) :
    (resetConfig (some file)).1 = (settings file).reset.raw := by
  have hkey := kept_secret hvalid (.inl rfl)
  have htoken := kept_secret hvalid (.inr rfl)
  funext key
  cases key <;> first | exact hkey | exact htoken | rfl

theorem reset_coerced (s : Settings) :
    ∀ key ∈ INT_FIELDS, ∀ v, s.reset.raw key = some v → coerceValue v = v := by
  have hsecret : .umans_api_key ∉ INT_FIELDS ∧ .dashboard_token ∉ INT_FIELDS := by decide
  intro key hkey v hv
  have hdefault : s.reset key = defaultValue key := by
    cases key <;> first | rfl | exact absurd hkey hsecret.1 | exact absurd hkey hsecret.2
  obtain rfl := Option.some.inj hv
  rw [hdefault]
  exact coerceValue_default key hkey

/-- The file that a reset leaves. -/
theorem base_write_reset (hvalid : ValidFile file) :
    base (write file .reset) = Settings.raw ((settings file).after .reset) := by
  have hwritten : write file .reset = (resetConfig (some file)).1.stored.input := rfl
  rw [hwritten, resetConfig_fst hvalid]
  exact base_stored (fun _ => by simp [Settings.raw]) (reset_coerced _)

theorem validFile_reset (hvalid : ValidFile file) : ValidFile (write file .reset) := by
  have hbase := base_write_reset hvalid
  have hnever : isNever (base (write file .reset)) = true := by
    rw [hbase]
    show (Value.text "never").stored.isText "never" = true
    decide
  have hsecret : ∀ key, key = .umans_api_key ∨ key = .dashboard_token → ∀ v,
      normalize (write file .reset) key = some v → v.isString = true := by
    intro key hkey v hv
    have hstring := isString_secret hvalid hkey
    rw [normalize_of_ne (by rcases hkey with rfl | rfl <;> decide), hbase] at hv
    obtain rfl := Option.some.inj hv
    rcases hkey with rfl | rfl
    · simpa [Settings.after, Settings.reset] using hstring
    · simpa [Settings.after, Settings.reset] using hstring
  refine Fine.of_secrets valid_defaults (fun key hapi htoken => ?_) (hsecret _ (.inl rfl))
    (hsecret _ (.inr rfl))
  by_cases hreservation : key = .concurrency_vision_reservation
  · subst hreservation
    rw [normalize_eq, if_pos ⟨rfl, hnever⟩]
    rfl
  · rw [normalize_of_ne hreservation, normalize_of_ne hreservation, hbase]
    cases key <;> first | rfl | exact absurd rfl hapi | exact absurd rfl htoken

/-- The file that an operation leaves gives the settings that the operation
leaves, and is valid. -/
theorem settings_step (hvalid : ValidFile file) (op : Operation) :
    base (write file op) = Settings.raw ((settings file).after op) ∧ ValidFile (write file op) := by
  cases op with
  | reset => exact ⟨base_write_reset hvalid, validFile_reset hvalid⟩
  | save patch ctx =>
    refine ⟨?_, hvalid.step (patch, ctx)⟩
    have hnormal := normal_normalize (merged file patch)
    simp only [write, Settings.after, ← normalize_merged]
    rcases saveConfig_file file patch ctx with ⟨hfine, hwritten⟩ | ⟨hnot, hkept⟩
    · rw [if_pos hfine, hwritten, base_of_normal hnormal.stored, normalize_merged]
      rfl
    · rw [if_neg hnot, hkept, raw_settings]

/-! ## A run -/

theorem written_of_base (h : base n.stored.input = n.stored) : Written n.stored.input := by
  rw [Written, raw_settings, h]

/-- A save or a reset leaves the file alone or gives every key its setting. -/
theorem write_eq_or_written (hvalid : ValidFile file) (op : Operation) :
    (write file op = file ∧ ¬ Writes file op) ∨ Written (write file op) := by
  cases op with
  | reset =>
    have hwritten : write file .reset = (settings file).reset.raw.stored.input := by
      rw [← resetConfig_fst hvalid]
      rfl
    rw [hwritten]
    exact .inr (written_of_base (base_stored (fun _ => by simp [Settings.raw]) (reset_coerced _)))
  | save patch ctx =>
    have hnormal := normal_normalize (merged file patch)
    rcases saveConfig_file file patch ctx with ⟨hfine, hwritten⟩ | ⟨hnot, hkept⟩
    · simp only [write, hwritten]
      exact .inr (written_of_base (base_of_normal hnormal.stored))
    · refine .inl ⟨hkept, fun hwrites => ?_⟩
      obtain ⟨n, warnings, hsaved⟩ := hwrites
      exact hnot (saveConfig_saved_iff.mp ⟨warnings, hsaved⟩).1

/-- A run of saves and resets does to the settings what it would do without a file. -/
theorem settings_run (hvalid : ValidFile file) (ops : List Operation) :
    settings (run write file ops) = run Settings.after (settings file) ops ∧
      ValidFile (run write file ops) := by
  induction ops generalizing file with
  | nil => exact ⟨rfl, hvalid⟩
  | cons op ops ih =>
    obtain ⟨hbase, hvalid'⟩ := settings_step hvalid op
    simp only [run_cons, ← settings_eq_of_base hbase]
    exact ih hvalid'

/-- Once a file is written, the run keeps it so. -/
theorem written_run (hvalid : ValidFile file) {ops : List Operation}
    (h : Written file ∨ ¬ StepsMeet write (fun file op => ¬ Writes file op) file ops) :
    Written (run write file ops) := by
  induction ops generalizing file with
  | nil => exact h.resolve_right fun hwrites => hwrites trivial
  | cons op ops ih =>
    rw [run_cons]
    refine ih (settings_step hvalid op).2 ?_
    rcases write_eq_or_written hvalid op with ⟨hsame, hnot⟩ | hwritten
    · refine h.imp (fun hwritten => ?_) fun hwrites hrest => hwrites ⟨hnot, hrest⟩
      rwa [hsame]
    · exact .inl hwritten

/-! ## Readings -/

/-- The ways in which the loader takes a value from the file. -/
inductive Reading where
  | num (fallback : Num ℚ)
  | clipped
  | rawNum (fallback : ℚ)
  | bool (fallback : Bool)
  | rawBool (fallback : Bool)
  | unlessFalse
  | str (fallback : Value)
  | effort
  | strategyIs (s : String)

namespace Reading

def load (env : Env) (raw : RawInput) (key : Key) : Reading → Option Value
  | num fallback => (numValue (given env raw key) fallback).map .num
  | clipped => (numValue (given env raw key) (.fin 255)).map fun n => .num (Num.min n (.fin 255))
  | rawNum fallback => rawNumField env raw key fallback
  | bool fallback => boolField env raw key fallback
  | rawBool fallback => rawBoolField env raw key fallback
  | unlessFalse => Config.unlessFalse env raw key
  | str fallback => strField env raw key fallback
  | effort =>
    if Config.bool (given env raw key) true then some (.str STAMP_REASONING_EFFORT_VALUE)
    else some .null
  | strategyIs s => some (.bool ((Config.str (given env raw key) (.text "never")).isText s))

/-- The field for a setting. -/
def value : Reading → Value → Value
  | num fallback, v => if v.isNull then .num fallback else v
  | str fallback, v => if v.isNull then fallback else v
  | effort, v => if v.isTrue then .str STAMP_REASONING_EFFORT_VALUE else .null
  | strategyIs s, v => .bool (v.isText s)
  | _, v => v

/-- What passes the check is read as it is. -/
def fits : Reading → Check → Bool
  | num _, .integer _ _ => true
  | num _, .integerOrNull _ => true
  | clipped, .integer _ (some max) => max ≤ 255
  | rawNum _, .integer _ _ => true
  | bool _, .boolean => true
  | rawBool _, .boolean => true
  | unlessFalse, .boolean => true
  | effort, .boolean => true
  | str _, .text => true
  | str _, .nonEmptyText => true
  | str _, .oneOf _ => true
  | str _, .oneOfOrNull _ => true
  | strategyIs _, .oneOf _ => true
  | _, _ => false

end Reading

/-- The key of a field and the way in which it is read, where a rule checks the
key and no other key has a say. -/
def reading : ProxyField → Option (Key × Reading)
  | .port => some (.port, .num (.fin 1945))
  | .maxCaptures => some (.max_captures, .num (.fin 200))
  | .dbPath => some (.db_path, .str (.text "./umans-gate.db"))
  | .idleTimeout => some (.idle_timeout, .clipped)
  | .stampClaudeCode => some (.stamp_claude_code_enabled, .bool true)
  | .stampReasoningEffort => some (.stamp_reasoning_effort_enabled, .effort)
  | .warmerEnabled => some (.warmer_enabled, .unlessFalse)
  | .warmerIntervalMs => some (.warmer_interval_ms, .num (.fin 20000))
  | .umansApiKey => some (.umans_api_key, .str .null)
  | .dashboardToken => some (.dashboard_token, .str .null)
  | .usageRefreshMs => some (.usage_refresh_ms, .num (.fin 60000))
  | .usageHistoryEnabled => some (.usage_history_enabled, .rawBool true)
  | .usageRawRetentionDays =>
    some (.usage_raw_retention_days, .num (defaultNum .usage_raw_retention_days (.fin 7)))
  | .usageGapThresholdMinutes =>
    some (.usage_gap_threshold_minutes, .num (defaultNum .usage_gap_threshold_minutes (.fin 60)))
  | .usageIdleSessionTimeoutMinutes =>
    some (.usage_idle_session_timeout_minutes,
      .num (defaultNum .usage_idle_session_timeout_minutes (.fin 5)))
  | .modelsRefreshMs => some (.models_refresh_ms, .num (.fin 3600000))
  | .concurrencyHardCap => some (.concurrency_hard_cap, .num (.fin 16))
  | .concurrencySoftLimit => some (.concurrency_soft_limit, .num (.fin 8))
  | .useHardCap => some (.use_hard_cap, .bool true)
  | .rateLimitRequests => some (.rate_limit_requests, .num (.fin 0))
  | .requestHardCap => some (.request_hard_cap, .num (.fin 1000))
  | .requestSoftLimit => some (.request_soft_limit, .num (.fin 500))
  | .requestUseHardCap => some (.request_use_hard_cap, .bool true)
  | .neverLimitRequests => some (.never_limit_requests, .bool true)
  | .requestRateMargin => some (.request_rate_margin, .num (.fin 50))
  | .queueTimeoutMs => some (.queue_timeout_ms, .num (.fin 180000))
  | .maxQueueDepth => some (.max_queue_depth, .num (.fin 256))
  | .releaseCooldownMs => some (.release_cooldown_ms, .num (.fin 1000))
  | .breakerThreshold => some (.breaker_threshold, .num (.fin 5))
  | .breakerWindowMs => some (.breaker_window_ms, .num (.fin 300000))
  | .breakerCooldownMs => some (.breaker_cooldown_ms, .num (.fin 60000))
  | .visionStrategy => some (.vision_strategy, .str (.text "never"))
  | .backgroundVision => some (.vision_strategy, .strategyIs "catalog")
  | .visionForceInterceptCapable => some (.vision_strategy, .strategyIs "always")
  | .visionModel => some (.vision_model, .str (.text "umans-flash"))
  | .visionPrompt =>
    some (.vision_prompt,
      .str (str (DEFAULT_CONFIG .vision_prompt) (.text "Describe this image concisely.")))
  | .visionPromptVersion => some (.vision_prompt_version, .num (.fin 2))
  | .visionMaxImages => some (.vision_max_images, .num (.fin 20))
  | .visionMaxDescriptionTokens => some (.vision_max_description_tokens, .num (.fin 4096))
  | .visionReasoningEffort => some (.vision_reasoning_effort, .str .null)
  | .visionTimeoutMs => some (.vision_timeout_ms, .num (.fin 0))
  | .visionCacheSize => some (.vision_cache_size, .num (.fin 1000))
  | .visionCacheTtlMs => some (.vision_cache_ttl_ms, .num (.fin 604800000))
  | .visionCacheMaxRows => some (.vision_cache_max_rows, .num (.fin 10000))
  | .visionPersistentCache => some (.vision_persistent_cache, .unlessFalse)
  | .visionConcurrency => some (.vision_concurrency, .num (.fin 4))
  | .visionMaxDimension => some (.vision_max_dimension, .num (.fin 2048))
  | .visionJpegQuality => some (.vision_jpeg_quality, .num (.fin 92))
  | .visionImageFormat => some (.vision_image_format, .str (.text "png"))
  | .visionImageDetail => some (.vision_image_detail, .str (.text "high"))
  | .visionIntentStrategy => some (.vision_intent_strategy, .str (.text "auto"))
  | .visionDecompositionEnabled => some (.vision_decomposition_enabled, .rawBool true)
  | .visionDecompositionTimeoutMs => some (.vision_decomposition_timeout_ms, .rawNum 3000)
  | .visionCraftingTimeoutMs => some (.vision_crafting_timeout_ms, .rawNum 3000)
  | .visionAdjacentTextMaxChars => some (.vision_adjacent_text_max_chars, .rawNum 500)
  | .visionRecentMessagesCount => some (.vision_recent_messages_count, .rawNum 6)
  | .visionSystemPromptMaxChars => some (.vision_system_prompt_max_chars, .rawNum 1000)
  | .captureBodyMaxBytes => some (.capture_body_max_bytes, .rawNum 1000000)
  | .queueMaxDepth => some (.queue_max_depth, .rawNum 100)
  | .wsBackpressureLimit => some (.ws_backpressure_limit, .rawNum 1048576)
  | .wsCloseOnBackpressureLimit => some (.ws_close_on_backpressure_limit, .rawBool true)
  | .visionPendingMaxBatch => some (.vision_pending_max_batch, .rawNum 50)
  | .compressionEnabled => some (.compression_enabled, .rawBool true)
  | .upstreamTimeoutMs => some (.upstream_timeout_ms, .rawNum 300000)
  | .experimentStripOmoReminder => some (.experiment_strip_omo_reminder, .rawBool true)
  | .experimentTtftWatchdog => some (.experiment_ttft_watchdog, .rawBool true)
  | .ttftTimeoutMs => some (.ttft_timeout_ms, .rawNum 60000)
  | .ttftRetryMaxAttempts => some (.ttft_retry_max_attempts, .rawNum 2)
  | .ttftRetryGateSaturationPct => some (.ttft_retry_gate_saturation_pct, .rawNum 80)
  | .ttftRetryCooldownMs => some (.ttft_retry_cooldown_ms, .rawNum 5000)
  | .ttftWatchdogMultiplier => some (.ttft_watchdog_multiplier, .rawNum 5)
  | .ttftWatchdogHardCapMs => some (.ttft_watchdog_hard_cap_ms, .rawNum 300000)
  | .incidentRetentionDays => some (.incident_retention_days, .rawNum 30)
  | _ => none

/-- The loader reads the field so. -/
theorem loadField_reading {field : ProxyField} {r : Reading} (h : reading field = some (key, r)) :
    loadField env input field = r.load env input key := by
  cases field <;> first | (cases h; rfl) | cases h

/-- The rule of the key lets only values pass that are read as they are. -/
theorem fits_checkOf {field : ProxyField} {r : Reading} (h : reading field = some (key, r)) :
    ∃ check, checkOf key = some check ∧ r.fits check = true := by
  have hall : ∀ field, (reading field).all fun e => (checkOf e.1).any fun c => e.2.fits c := by
    intro field
    cases field <;> rfl
  have hfield := hall field
  rw [h, Option.all_some, Option.any_eq_true_iff_get] at hfield
  obtain ⟨hsome, hfits⟩ := hfield
  exact ⟨_, (Option.some_get hsome).symm, hfits⟩

/-- A value that passes a check for integers. -/
theorem integer_of_passes {min : ℤ} {max : Option ℤ} (h : Check.integerFails min max v = false) :
    ∃ i : ℤ, v = .num (.fin i) ∧ ∀ m ∈ max, i ≤ m := by
  unfold Check.integerFails at h
  cases v with
  | num x =>
    cases x with
    | fin q =>
      by_cases hden : q.den = 1
      · refine ⟨q.num, by rw [Rat.den_eq_one_iff q |>.mp hden], fun m hm => ?_⟩
        simp only [Value.integer?, if_pos hden, Option.mem_def.mp hm, Option.any_some,
          Bool.or_eq_false_iff, decide_eq_false_iff_not, not_lt] at h
        exact h.2
      · simp [Value.integer?, hden] at h
    | nan => simp [Value.integer?] at h
    | posInf => simp [Value.integer?] at h
    | negInf => simp [Value.integer?] at h
  | null => simp [Value.integer?] at h
  | bool b => simp [Value.integer?] at h
  | str s => simp [Value.integer?] at h
  | arr items => simp [Value.integer?] at h
  | obj fields => simp [Value.integer?] at h

theorem eq_bool_of_isBool (h : v.isBool = true) : ∃ b, v = .bool b := by
  cases v with
  | bool b => exact ⟨b, rfl⟩
  | null => simp [Value.isBool] at h
  | num x => simp [Value.isBool] at h
  | str s => simp [Value.isBool] at h
  | arr items => simp [Value.isBool] at h
  | obj fields => simp [Value.isBool] at h

theorem eq_null_of_isNull (h : v.isNull = true) : v = .null := by
  cases v with
  | null => rfl
  | bool b => simp [Value.isNull] at h
  | num x => simp [Value.isNull] at h
  | str s => simp [Value.isNull] at h
  | arr items => simp [Value.isNull] at h
  | obj fields => simp [Value.isNull] at h

/-- `val ?? fallback` of a value that is there. -/
theorem str_some (v fallback : Value) : str (some v) fallback = if v.isNull then fallback else v := by
  cases v <;> rfl

theorem isNull_of_oneOf {values : List String} (h : values.any (fun s => v.isText s) = true) :
    v.isNull = false := by
  obtain ⟨s, -, hs⟩ := List.any_eq_true.mp h
  cases v with
  | null => simp [Value.isText] at hs
  | bool b => rfl
  | num x => rfl
  | str t => rfl
  | arr items => rfl
  | obj fields => rfl

namespace Reading

/-- A value that passes a check which fits is read as it is. -/
theorem load_of_fits (henv : env.ofKey key = none) (hinput : input (.known key) = some v)
    {r : Reading} {check : Check} (hfits : r.fits check = true) (hpass : check.fails v = false) :
    r.load env input key = some (r.value v) := by
  have hgiven : given env input key = some v := by simp [given, henv, hinput]
  have hnum : ∀ i : ℤ, v = .num (.fin i) → ∀ fallback,
      (num fallback).load env input key = some ((num fallback).value v) := by
    rintro i rfl fallback
    simp [load, hgiven, numValue, numberOfValue, value, Value.isNull]
  have hflag : ∀ b, v = .bool b → ∀ r, r ∈ [bool true, bool false, rawBool true, rawBool false,
      unlessFalse, effort] → r.load env input key = some (r.value v) := by
    rintro b rfl r hr
    simp only [List.mem_cons, List.not_mem_nil, or_false] at hr
    rcases hr with rfl | rfl | rfl | rfl | rfl | rfl
    all_goals cases b <;> simp [load, hgiven, hinput, henv, boolField, rawBoolField, envOrRawBool,
      Config.bool, Config.unlessFalse, value, Value.isTrue]
  have hstr : ∀ fallback, (str fallback).load env input key = some ((str fallback).value v) := by
    intro fallback
    simp only [load, strField, hgiven, str_some, value]
  cases check with
  | integer min max =>
    obtain ⟨i, rfl, hmax⟩ := integer_of_passes hpass
    cases r with
    | num fallback => exact hnum i rfl fallback
    | clipped =>
      cases max with
      | none => simp [fits] at hfits
      | some max =>
        have hle : i ≤ 255 := (hmax max rfl).trans (by simpa [fits] using hfits)
        have hleQ : (i : ℚ) ≤ 255 := by exact_mod_cast hle
        simp [load, hgiven, numValue, numberOfValue, Num.min, value, hleQ]
    | rawNum fallback => simp [load, rawNumField, envOrRawNum, henv, hinput, value]
    | _ => simp [fits] at hfits
  | integerOrNull min =>
    cases r with
    | num fallback =>
      cases hnull : v.isNull with
      | true =>
        obtain rfl := eq_null_of_isNull hnull
        simp [load, hgiven, numValue, value, Value.isNull]
      | false =>
        simp only [Check.fails, hnull, Bool.not_false, Bool.true_and] at hpass
        obtain ⟨i, hi, -⟩ := integer_of_passes hpass
        exact hnum i hi fallback
    | _ => simp [fits] at hfits
  | boolean =>
    have hbool : v.isBool = true := by simpa [Check.fails] using hpass
    obtain ⟨b, hb⟩ := eq_bool_of_isBool hbool
    refine hflag b hb r ?_
    cases r with
    | bool fallback => cases fallback <;> simp
    | rawBool fallback => cases fallback <;> simp
    | unlessFalse => simp
    | effort => simp
    | _ => simp [fits] at hfits
  | oneOf values =>
    cases r with
    | str fallback => exact hstr fallback
    | strategyIs s =>
      have hany : values.any (fun s => v.isText s) = true := by simpa [Check.fails] using hpass
      simp [load, hgiven, str_some, isNull_of_oneOf hany, value]
    | _ => simp [fits] at hfits
  | text =>
    cases r with
    | str fallback => exact hstr fallback
    | _ => simp [fits] at hfits
  | nonEmptyText =>
    cases r with
    | str fallback => exact hstr fallback
    | _ => simp [fits] at hfits
  | oneOfOrNull values =>
    cases r with
    | str fallback => exact hstr fallback
    | _ => simp [fits] at hfits
  | protocol names => cases r <;> simp [fits] at hfits

/-- A variable is always read. -/
theorem load_of_env {t : JsString} (henv : env.ofKey key = some t) (r : Reading) :
    (r.load env input key).isSome = true := by
  have hgiven : given env input key = some (.str t) := by simp [given, henv]
  cases r with
  | num fallback => simp [load, hgiven, numValue, numberOfValue]
  | clipped => simp [load, hgiven, numValue, numberOfValue]
  | effort =>
    simp only [load]
    split <;> rfl
  | unlessFalse => simp [load, Config.unlessFalse, henv]
  | _ => rfl

end Reading

/-! ## Loading -/

theorem mem_PROXY_FIELDS (field : ProxyField) : field ∈ PROXY_FIELDS :=
  List.mem_of_getElem? (i := field.ctorIdx) (by cases field <;> rfl)

/-- A file that a run has written gives each field the setting of its key. -/
theorem loadField_run (hvalid : ValidFile file) {ops : List Operation}
    (hwritten : Written (run write file ops)) {field : ProxyField} {r : Reading}
    (hreading : reading field = some (key, r)) (henv : env.ofKey key = none) :
    loadField env (run write file ops) field =
      some (r.value (run Settings.after (settings file) ops key)) := by
  obtain ⟨hsettings, hvalid'⟩ := settings_run hvalid ops
  obtain ⟨check, hcheck, hfits⟩ := fits_checkOf hreading
  have hinput : run write file ops (.known key) = some (settings (run write file ops) key) := by
    conv_lhs => rw [← hwritten]
    rfl
  rw [loadField_reading hreading, ← hsettings]
  exact Reading.load_of_fits henv hinput hfits (settings_passes hvalid' hcheck)

/-! ## What does not load -/

/-- The strategy that the loader sees. -/
def loadedStrategy (env : Env) (s : Settings) : Value :=
  ((env.ofKey .vision_strategy).map .str).getD (s .vision_strategy)

/-- The settings that no rule keeps from the loader: a protocol that is a text,
and reservations that can be made numbers. -/
structure Loads (env : Env) (s : Settings) : Prop where
  protocol : env.ofKey .upstream_protocol = none → (s .upstream_protocol).isString = true
  mainReservation : env.ofKey .concurrency_main_reservation = none →
    (s .concurrency_main_reservation).stringThrows = false
  visionReservation : env.ofKey .concurrency_vision_reservation = none →
    (loadedStrategy env s).isText "never" = false →
      (s .concurrency_vision_reservation).stringThrows = false

/-- The fields that may fail to load. -/
def UNREAD : List ProxyField :=
  [.upstreamProtocol, .concurrencyMainReservation, .concurrencyVisionReservation]

theorem loadField_of_unread {field : ProxyField} (h : reading field = none) (hnot : field ∉ UNREAD) :
    (loadField env input field).isSome = true := by
  cases field <;> first | rfl | exact absurd (by decide) hnot | cases h

theorem numberOfValue_isSome (v : Value) :
    (numberOfValue v).isSome = !v.stringThrows := by
  cases v with
  | arr items =>
    simp only [numberOfValue]
    split <;> simp_all
  | obj fields =>
    simp only [numberOfValue]
    split <;> simp_all
  | null => rfl
  | bool b => rfl
  | num x => rfl
  | str s => rfl

theorem numValue_isSome (v : Value) (fallback : Num ℚ) :
    (numValue (some v) fallback).isSome = !v.stringThrows := by
  cases v with
  | null => rfl
  | _ => simp [numValue, numberOfValue_isSome]

theorem given_of_written (hwritten : Written file) (env : Env) (key : Key) :
    given env file key = some (((env.ofKey key).map .str).getD (settings file key)) := by
  have hfile : file (.known key) = some (settings file key) := by
    conv_lhs => rw [← hwritten]
    rfl
  cases henv : env.ofKey key <;> simp [given, henv, hfile]

theorem resolveUpstreamProtocol_isSome (hnull : v.isNull = false) :
    (resolveUpstreamProtocol (some v)).isSome = v.isString := by
  simp only [resolveUpstreamProtocol, str_some, hnull]
  cases v with
  | str s =>
    simp only [Bool.false_eq_true, if_false]
    split <;> rfl
  | _ => rfl

theorem mainReservation_isSome (hwritten : Written file) (env : Env) :
    (loadField env file .concurrencyMainReservation).isSome = true ↔
      (env.ofKey .concurrency_main_reservation = none →
        (settings file .concurrency_main_reservation).stringThrows = false) := by
  have hload : loadField env file .concurrencyMainReservation =
      numField env file .concurrency_main_reservation 1 := rfl
  simp only [hload, numField, given_of_written hwritten, Option.isSome_map, numValue_isSome]
  cases henv : env.ofKey .concurrency_main_reservation with
  | none => simp
  | some t => simp [Value.stringThrows]

section

variable (hvalid : ValidFile file) (hwritten : Written file)
include hvalid hwritten

theorem upstreamProtocol_isSome (env : Env) :
    (loadField env file .upstreamProtocol).isSome = true ↔
      (env.ofKey .upstream_protocol = none → (settings file .upstream_protocol).isString = true) := by
  have hcheck : checkOf .upstream_protocol = some (.protocol ["http1.1", "http2", "h2"]) := rfl
  have hpass := settings_passes hvalid hcheck
  have hnull : (settings file .upstream_protocol).isNull = false := by
    cases hv : settings file .upstream_protocol with
    | null => simp [hv, Check.fails, Value.namesOneOf] at hpass
    | _ => rfl
  have hload : loadField env file .upstreamProtocol =
      resolveUpstreamProtocol (given env file .upstream_protocol) := rfl
  simp only [hload, given_of_written hwritten]
  cases henv : env.ofKey .upstream_protocol with
  | none => simp [resolveUpstreamProtocol_isSome hnull]
  | some t => simp [resolveUpstreamProtocol_isSome (v := .str t) rfl, Value.isString]

theorem loadedStrategy_eq (env : Env) :
    str (given env file .vision_strategy) (.text "never") = loadedStrategy env (settings file) := by
  have hcheck : checkOf .vision_strategy = some (.oneOf ["never", "catalog", "always"]) := rfl
  have hpass := settings_passes hvalid hcheck
  have hnull := isNull_of_oneOf (v := settings file .vision_strategy)
    (by simpa only [Check.fails, Bool.not_eq_false'] using hpass)
  rw [given_of_written hwritten, str_some, loadedStrategy]
  cases env.ofKey .vision_strategy with
  | none => simp [hnull]
  | some t => simp [Value.isNull]

theorem visionReservation_isSome (env : Env) :
    (loadField env file .concurrencyVisionReservation).isSome = true ↔
      (env.ofKey .concurrency_vision_reservation = none →
        (loadedStrategy env (settings file)).isText "never" = false →
          (settings file .concurrency_vision_reservation).stringThrows = false) := by
  have hload : loadField env file .concurrencyVisionReservation =
      if (str (given env file .vision_strategy) (.text "never")).isText "never" then some (.int 0)
      else
        (numValue (given env file .concurrency_vision_reservation) (.fin 1)).map fun n =>
          .num (Num.max (.fin 1) n) := rfl
  simp only [hload, loadedStrategy_eq hvalid hwritten]
  cases hnever : (loadedStrategy env (settings file)).isText "never" with
  | true => simp
  | false =>
    simp only [given_of_written hwritten, Bool.false_eq_true, if_false, Option.isSome_map,
      numValue_isSome]
    cases henv : env.ofKey .concurrency_vision_reservation with
    | none => simp
    | some t => simp [Value.stringThrows]

/-- A written file is loaded exactly where its protocol is a text and its
reservations can be made numbers. -/
theorem loadConfig_isSome_iff (env : Env) :
    (loadConfig env file).isSome = true ↔ Loads env (settings file) := by
  have hload : (loadConfig env file).isSome = true ↔
      ∀ field, (loadField env file field).isSome = true := by
    unfold loadConfig
    split
    · rename_i hall
      simpa using fun field => List.all_eq_true.mp hall field (mem_PROXY_FIELDS field)
    · rename_i hnot
      simp only [Option.isSome_none, Bool.false_eq_true, false_iff]
      exact fun hall => hnot (List.all_eq_true.mpr fun field _ => hall field)
  rw [hload]
  constructor
  · intro hall
    exact {
      protocol := (upstreamProtocol_isSome hvalid hwritten env).mp (hall _)
      mainReservation := (mainReservation_isSome hwritten env).mp (hall _)
      visionReservation := (visionReservation_isSome hvalid hwritten env).mp (hall _) }
  · intro hloads field
    cases hreading : reading field with
    | some e =>
      obtain ⟨key, r⟩ := e
      cases henv : env.ofKey key with
      | some t =>
        rw [loadField_reading hreading]
        exact Reading.load_of_env henv r
      | none =>
        have hloaded : loadField env file field = some (r.value (settings file key)) :=
          loadField_run hvalid (show Written (run write file []) from hwritten) hreading henv
        rw [hloaded]
        rfl
    | none =>
      by_cases hmem : field ∈ UNREAD
      · simp only [UNREAD, List.mem_cons, List.not_mem_nil, or_false] at hmem
        rcases hmem with rfl | rfl | rfl
        · exact (upstreamProtocol_isSome hvalid hwritten env).mpr hloads.protocol
        · exact (mainReservation_isSome hwritten env).mpr hloads.mainReservation
        · exact (visionReservation_isSome hvalid hwritten env).mpr hloads.visionReservation
      · exact loadField_of_unread hreading hmem

end

/-! ## Saving and loading -/

theorem stored_defaults : RawConfig.stored DEFAULT_CONFIG = DEFAULT_CONFIG := by
  funext key
  cases key <;> rfl

/-- No operation is needed where there was no file: the defaults are written. -/
theorem written_defaults : ValidFile DEFAULT_CONFIG.stored.input ∧ Written DEFAULT_CONFIG.stored.input := by
  constructor
  · rw [stored_defaults]
    exact valid_defaults
  · refine written_of_base (base_stored (fun _ => by simp [DEFAULT_CONFIG]) ?_)
    intro key hkey v hv
    obtain rfl := Option.some.inj hv
    exact coerceValue_default key hkey

/-- What was saved last is what is loaded. The file after a run holds what the
accepted saves and the resets make of the settings, and a field whose key a
rule checks has the setting of the key, where no variable overrides it. -/
theorem loads_last_saved (hvalid : ValidFile file) {ops : List Operation}
    (hwritten : Written file ∨ ¬ StepsMeet write (fun file op => ¬ Writes file op) file ops) :
    run write file ops = (Settings.raw (run Settings.after (settings file) ops)).input ∧
    ∀ env config, loadConfig env (run write file ops) = some config →
      ∀ field key r, reading field = some (key, r) → env.ofKey key = none →
        config field = r.value (run Settings.after (settings file) ops key) := by
  have hafter := written_run hvalid hwritten
  have hsettings := (settings_run hvalid ops).1
  refine ⟨by rw [← hsettings]; exact hafter.symm, ?_⟩
  intro env config hconfig field key r hreading henv
  have hloaded := loadField_of_loadConfig hconfig (mem_PROXY_FIELDS field)
  rw [loadField_run hvalid hafter hreading henv] at hloaded
  exact (Option.some.inj hloaded).symm

/-- A run that ends with a save that is accepted. -/
theorem run_after_save (ops : List Operation) {s : Settings} {patch : RawInput}
    (hfine : Fine ((run Settings.after s ops).overwrite patch).raw) (ctx : UpstreamRequestsLimit) :
    run Settings.after s (ops ++ [.save patch ctx]) =
      fun key => ((run Settings.after s ops).overwrite patch key).stored := by
  rw [run_append, run_cons, run_nil]
  exact if_pos hfine

/-- More captures are saved, the defaults are restored, and vision is turned on. -/
theorem loads_last_saved_visionOn :
    ∃ config, loadConfig { ofKey := fun _ => none }
        (run write DEFAULT_CONFIG.stored.input
          [.save moreCaptures .unknown, .reset, .save (strategyPatch "catalog") .unknown]) =
        some config ∧
      config .maxCaptures = .int 200 ∧ config .visionStrategy = .text "catalog" ∧
        config .backgroundVision = .bool true := by
  obtain ⟨hreset, hvalidReset⟩ := settings_run written_defaults.1 [.save moreCaptures .unknown, .reset]
  have hfits : ReservationFits (base (run write DEFAULT_CONFIG.stored.input
      [.save moreCaptures .unknown, .reset])) := by
    rw [← raw_settings, hreset]
    exact ⟨16, rfl, .inr ⟨1, rfl, by decide, by decide⟩⟩
  have haccepted : Fine (Settings.raw (Settings.overwrite (run Settings.after
      (settings DEFAULT_CONFIG.stored.input) [.save moreCaptures .unknown, .reset])
      (strategyPatch "catalog"))) := by
    rw [← hreset, ← normalize_merged]
    exact acceptable_iff.mp
      ((acceptable_strategy_iff hvalidReset (s := "catalog") (by simp [visionOn])).mpr hfits)
  obtain ⟨hsettings, hvalid⟩ := settings_run written_defaults.1
    [.save moreCaptures .unknown, .reset, .save (strategyPatch "catalog") .unknown]
  have hlast : run Settings.after (settings DEFAULT_CONFIG.stored.input)
      [.save moreCaptures .unknown, .reset, .save (strategyPatch "catalog") .unknown] =
      fun key => ((run Settings.after (settings DEFAULT_CONFIG.stored.input)
        [.save moreCaptures .unknown, .reset]).overwrite (strategyPatch "catalog") key).stored :=
    run_after_save [.save moreCaptures .unknown, .reset] haccepted .unknown
  have hloads : Loads { ofKey := fun _ => none } (settings (run write DEFAULT_CONFIG.stored.input
      [.save moreCaptures .unknown, .reset, .save (strategyPatch "catalog") .unknown])) := by
    rw [hsettings, hlast]
    exact ⟨fun _ => rfl, fun _ => rfl, fun _ _ => rfl⟩
  obtain ⟨config, hconfig⟩ := Option.isSome_iff_exists.mp ((loadConfig_isSome_iff hvalid
    (written_run written_defaults.1 (.inl written_defaults.2)) _).mpr hloads)
  have hloaded := (loads_last_saved written_defaults.1 (.inl written_defaults.2)).2 _ config hconfig
  refine ⟨config, hconfig, (hloaded .maxCaptures .max_captures _ rfl rfl).trans ?_,
    (hloaded .visionStrategy .vision_strategy _ rfl rfl).trans ?_,
    (hloaded .backgroundVision .vision_strategy _ rfl rfl).trans ?_⟩
  all_goals
    rw [hlast]
    rfl

/-- After a run that wrote the file, a start with it succeeds exactly where the
settings load: no other accepted value makes the loader throw. -/
theorem starts_iff (hvalid : ValidFile file) {ops : List Operation}
    (hwritten : Written file ∨ ¬ StepsMeet write (fun file op => ¬ Writes file op) file ops)
    (env : Env) :
    (∃ config, loadConfig env (run write file ops) = some config) ↔
      Loads env (run Settings.after (settings file) ops) := by
  obtain ⟨hsettings, hvalid'⟩ := settings_run hvalid ops
  rw [← Option.isSome_iff_exists, ← hsettings]
  exact loadConfig_isSome_iff hvalid' (written_run hvalid hwritten) env

/-- The patch that names the protocol in a list. -/
def protocolList : RawInput
  | .known .upstream_protocol => some (.arr [.text "h2"])
  | _ => none

/-- The list passes the check of the protocol, and the loader throws at it. -/
theorem starts_iff_protocolList :
    (∃ n warnings, (saveConfig (some DEFAULT_CONFIG.stored.input) protocolList .unknown).1 =
      .saved n warnings) ∧
    ¬ ∃ config, loadConfig { ofKey := fun _ => none }
      (run write DEFAULT_CONFIG.stored.input [.save protocolList .unknown]) = some config := by
  have haccepted : Fine ((settings DEFAULT_CONFIG.stored.input).overwrite protocolList).raw := by
    refine Fine.of_rules written_defaults.1 [.upstream_protocol] (fun key hkey => ?_) rfl ?_
    · have hpatch : coerceRawForValidation protocolList key = none := by
        cases key <;> first | rfl | exact absurd (List.mem_singleton.mpr rfl) hkey
      exact overwrite_raw_of_none hpatch rfl
    · decide
  constructor
  · obtain ⟨warnings, hsaved⟩ := saveConfig_saved_iff.mpr
      ⟨(normalize_merged DEFAULT_CONFIG.stored.input protocolList).symm ▸ haccepted, rfl⟩
    exact ⟨_, warnings, hsaved⟩
  · rw [starts_iff written_defaults.1 (.inl written_defaults.2)]
    intro hloads
    have hprotocol := hloads.protocol rfl
    have hlast : run Settings.after (settings DEFAULT_CONFIG.stored.input)
        [.save protocolList .unknown] =
        fun key => ((settings DEFAULT_CONFIG.stored.input).overwrite protocolList key).stored :=
      run_after_save [] haccepted .unknown
    rw [hlast] at hprotocol
    exact Bool.noConfusion hprotocol

end UmansGate.Config
