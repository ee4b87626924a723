/-
UmansGate.Server.ReloadTheorems — a reload against a restart.

`Uses` says that a component works with the value that a configuration gives
a field: with the one that it would have if it were built from that
configuration. `EqualsRestart` is what a reload promises: every component
uses the new value of every key that is listed as applied, and the old one of
a key that needs a restart.

The gate is reconfigured for names that are no keys, and the handoff, the
rewrite experiment and the history keep what they were built with. `TakesUp`
is the condition on a field under which that does not matter. One lemma for
each component leads to `uses_iff`, and `started_run` carries what was built
at the start through a run.
-/
import Mathlib.Data.List.Nodup
import UmansGate.Limiter.LimitTheorems
import UmansGate.Server.ProxyServer

namespace UmansGate.Server

open UmansGate.Lib UmansGate.Config
open UmansGate.Limiter (GateLimits)
open UmansGate.Limiter.GateLimits (scaledFloor failSafe scaledFloor_failSafe_iff)

/-! ## The settings of the gate -/

namespace GateSettings

/-- The setting that a field gives. -/
def setting (g : GateSettings) : ProxyField → Option (Num ℚ)
  | .concurrencyHardCap => some g.limits.hardCap
  | .concurrencySoftLimit => some g.limits.softLimit
  | .releaseCooldownMs => some g.limits.releaseCooldownMs
  | .maxQueueDepth => some g.limits.maxQueueDepth
  | .queueTimeoutMs => some g.limits.queueTimeoutMs
  | .breakerThreshold => some g.breakerThreshold
  | .breakerWindowMs => some g.breakerWindowMs
  | .breakerCooldownMs => some g.breakerCooldownMs
  | .concurrencyMainReservation => g.limits.reservations.get? "main"
  | .concurrencyVisionReservation => g.limits.reservations.get? "vision"
  | _ => none

/-- The settings that only `reconfigure` changes. -/
def RECONFIGURED : List ProxyField := [
  .breakerThreshold, .breakerWindowMs, .breakerCooldownMs, .queueTimeoutMs, .maxQueueDepth,
  .releaseCooldownMs, .concurrencyMainReservation, .concurrencyVisionReservation]

variable {g : GateSettings} {config config' : ProxyConfig} {field : ProxyField} {x : Num ℚ}

theorem eq_of_eqD {x y : Num ℚ} (h : x.eqD y = true) : x = y := by
  cases x <;> simp_all [Num.eqD]

/-- A setting of a new gate is that of one field. -/
theorem setting_new_congr (h : config field = config' field) :
    (new (gateOptionsFromConfig config)).setting field =
      (new (gateOptionsFromConfig config')).setting field := by
  cases field <;>
    simp_all [setting, new, gateOptionsFromConfig, GateLimits.new, GateLimits.scaleIntentions,
      Dict.keys, Dict.getD, Dict.get?, Dict.set]

theorem setting_reconfigure (hfield : field ∈ RECONFIGURED) (config : ProxyConfig) :
    (g.reconfigure (gateOptionsFromConfig config)).setting field =
      (new (gateOptionsFromConfig config)).setting field := by
  simp only [RECONFIGURED, List.mem_cons, List.not_mem_nil, or_false] at hfield
  rcases hfield with rfl | rfl | rfl | rfl | rfl | rfl | rfl | rfl <;> rfl

theorem setting_resize : (g.resize x).setting field = g.setting field := by
  unfold resize GateLimits.resize
  dsimp only
  split
  · rfl
  · cases field <;> rfl

theorem setting_setHardCap (hfield : field ∈ RECONFIGURED) :
    (g.setHardCap x).setting field = g.setting field := by
  unfold setHardCap GateLimits.setHardCap
  dsimp only
  split
  · rfl
  · simp only [RECONFIGURED, List.mem_cons, List.not_mem_nil, or_false] at hfield
    rcases hfield with rfl | rfl | rfl | rfl | rfl | rfl | rfl | rfl <;> rfl

theorem setting_setSoftLimit (hfield : field ≠ .concurrencySoftLimit) :
    (g.setSoftLimit x).setting field = g.setting field := by
  unfold setSoftLimit GateLimits.setSoftLimit
  dsimp only
  split
  · rfl
  · cases field <;> first | rfl | exact absurd rfl hfield

theorem hardCap_setHardCap : (g.setHardCap x).limits.hardCap = scaledFloor (failSafe x) := by
  unfold setHardCap GateLimits.setHardCap
  dsimp only
  split
  · rename_i hsame
    exact (eq_of_eqD hsame).symm
  · rfl

theorem softLimit_setSoftLimit : (g.setSoftLimit x).limits.softLimit = scaledFloor (failSafe x) := by
  unfold setSoftLimit GateLimits.setSoftLimit
  dsimp only
  split
  · rename_i hsame
    exact (eq_of_eqD hsame).symm
  · rfl

theorem setting_eq_none (hfield : field ∉ RECONFIGURED) (hhard : field ≠ .concurrencyHardCap)
    (hsoft : field ≠ .concurrencySoftLimit) : g.setting field = none := by
  cases field <;> first | rfl | exact absurd (by decide) hfield | exact absurd rfl hhard |
    exact absurd rfl hsoft

/-- A limit that was set is not changed by setting it again. -/
theorem resize_resize : (g.resize x).resize x = g.resize x := by
  simp only [resize, GateLimits.resize]
  split
  · rfl
  · simp only
    split <;> rfl

end GateSettings

/-! ## Reload and restart -/

inductive Component where
  | proxyHandler
  | gate
  | rateLimiter
  | visionHandoff
  | rewriteIdExperiment
  | usageHistory
  | captureDb
  deriving DecidableEq, Repr

/-- The copy of a field. -/
def DbSettings.copy (db : DbSettings) : ProxyField → Option Value
  | .dbPath => some db.dbPath
  | .maxCaptures => some db.maxCaptures
  | .compressionEnabled => some db.compressionEnabled
  | .performanceSampleCount => some db.performanceSampleLimit
  | .incidentRetentionDays => some db.incidentRetentionDays
  | .visionCacheTtlMs => some db.visionCacheTtlMs
  | _ => none

namespace ProxyServer

/-- The fields that the gate is sized by. -/
def SIZING : List ProxyField := [.useHardCap, .concurrencyHardCap, .concurrencySoftLimit]

/-- The fields that the rate limiter is made from. -/
def LIMITING : List ProxyField := [.rateLimitRequests, .requestUseHardCap, .neverLimitRequests]

/-- A component works with the value of the field: the handler and the history
read it, the gate has its setting and the size, the database and the handoff
have the copy. The history was made if the value asks for one. -/
def Uses (s : ProxyServer) (config : ProxyConfig) (now : Num ℚ) (field : ProxyField) :
    Component → Prop
  | .proxyHandler => s.config field = config field
  | .gate =>
    s.gate.setting field = (GateSettings.new (gateOptionsFromConfig config)).setting field ∧
      (field ∈ SIZING → s.gate.resize (effectiveLimit
        (Function.update s.config field (config field)) s.getSnapshot now) = s.gate)
  | .rateLimiter =>
    field ∈ LIMITING → s.rate = rateLimiterFor (Function.update s.config field (config field))
      (some s.getSnapshot.toRequestLimits)
  | .visionHandoff => ∀ v ∈ s.vision, ∀ w ∈ v.copy field, w = config field
  | .rewriteIdExperiment => field = .experimentRewriteTtlMs → s.rewriteTtlMs = config field
  | .usageHistory =>
    s.config field = config field ∧
      (field = .usageHistoryEnabled → s.usageHistory = (config field).isTrue)
  | .captureDb => ∀ v ∈ s.db.copy field, v = config field

/-- A reload from `s` to `s'` does for the keys that it applies what a restart
would, and nothing for the others. -/
structure EqualsRestart (s s' : ProxyServer) (lists : ReloadLists) (fresh : ProxyConfig)
    (now : Num ℚ) : Prop where
  applied : ∀ key, lists.applied (.known key) = true → ∀ field ∈ fieldsOf key, ∀ c,
    s'.Uses fresh now field c
  kept : ∀ key, lists.restartRequired (.known key) = true → ∀ field ∈ fieldsOf key, ∀ c config,
    s'.Uses config now field c ↔ s.Uses config now field c
  idle : (∀ name, lists.applied name = false) → s' = { s with lastRawConfig := s'.lastRawConfig }

/-- A reload makes every component take up the new value of a field: the
gate is reconfigured or has its setting already, a cap is no infinity, and
what is built only when the server starts was built with this value. -/
structure TakesUp (start fresh : ProxyConfig) (s : ProxyServer) (newRaw : RawInput)
    (field : ProxyField) : Prop where
  gate : field ∈ GateSettings.RECONFIGURED → reconfigures s.lastRawConfig newRaw = false →
    s.gate.setting field = (GateSettings.new (gateOptionsFromConfig fresh)).setting field
  hardCap : field = .concurrencyHardCap → number (fresh .concurrencyHardCap) ≠ .posInf
  softLimit : field = .concurrencySoftLimit → number (fresh .concurrencySoftLimit) ≠ .posInf
  handoff : (start .visionStrategy).isText "never" = false →
    ((VisionConfig.ofConfig start).copy field).isSome = true → start field = fresh field
  rewrite : field = .experimentRewriteTtlMs →
    start .experimentRewriteTtlMs = fresh .experimentRewriteTtlMs
  history : field = .usageHistoryEnabled →
    (start .usageHistoryEnabled).isTrue = (fresh .usageHistoryEnabled).isTrue

/-- The field of every key that the file changes is taken up. -/
def MeetsReload (start fresh : ProxyConfig) (s : ProxyServer) (newRaw : RawInput) : Prop :=
  ∀ e ∈ RELOAD_FIELDS, changed s.lastRawConfig newRaw (.known e.1) = true →
    TakesUp start fresh s newRaw e.2

/-! ## What a server keeps -/

/-- What is only set when the server starts. -/
structure Started (start : ProxyConfig) (s : ProxyServer) : Prop where
  vision : s.vision =
    if (start .visionStrategy).isText "never" then none else some (.ofConfig start)
  rewriteTtlMs : s.rewriteTtlMs = start .experimentRewriteTtlMs
  usageHistory : s.usageHistory = (start .usageHistoryEnabled).isTrue

theorem started_createProxyServer (start : ProxyConfig) (file : RawInput) :
    Started start (createProxyServer start file) := ⟨rfl, rfl, rfl⟩

variable {env : Env} {start fresh : ProxyConfig} {s : ProxyServer}

theorem started_syncRateLimiter (h : Started start s) (snap : UsageSnapshot) :
    Started start (s.syncRateLimiter snap) where
  vision := by
    simpa only [syncRateLimiter, apply_ite ProxyServer.vision, ite_self] using h.vision
  rewriteTtlMs := by
    simpa only [syncRateLimiter, apply_ite ProxyServer.rewriteTtlMs, ite_self] using h.rewriteTtlMs
  usageHistory := by
    simpa only [syncRateLimiter, apply_ite ProxyServer.usageHistory, ite_self] using h.usageHistory

theorem started_applyRequestLimits (h : Started start s) (limits : RequestLimits) :
    Started start (s.applyRequestLimits limits) where
  vision := by
    simpa only [applyRequestLimits, apply_ite ProxyServer.vision, ite_self] using h.vision
  rewriteTtlMs := by
    simpa only [applyRequestLimits, apply_ite ProxyServer.rewriteTtlMs, ite_self]
      using h.rewriteTtlMs
  usageHistory := by
    simpa only [applyRequestLimits, apply_ite ProxyServer.usageHistory, ite_self]
      using h.usageHistory

/-- No call builds a component anew. -/
theorem started_step (h : Started start s) (op : ServerOp) : Started start (step env s op) := by
  cases op with
  | reload file now =>
    simp only [step, reloadConfig, Option.map_map]
    cases loadConfig env file with
    | none => exact h
    | some fresh => exact ⟨h.vision, h.rewriteTtlMs, h.usageHistory⟩
  | usage snap now =>
    refine started_syncRateLimiter ?_ snap
    exact ⟨h.vision, h.rewriteTtlMs, h.usageHistory⟩
  | limits hardCap softLimit now => exact ⟨h.vision, h.rewriteTtlMs, h.usageHistory⟩
  | requestLimits limits => exact started_applyRequestLimits h limits

theorem started_run (start : ProxyConfig) (file : RawInput) (ops : List ServerOp) :
    Started start (Lib.run (step env) (createProxyServer start file) ops) :=
  run_invariant (I := Started start) (fun _ op h => started_step h op)
    (started_createProxyServer start file) ops

/-! ## One component after a reload -/

variable {newRaw : RawInput} {now : Num ℚ} {key : Key} {field : ProxyField}

theorem field_reloadFresh (hmem : (key, field) ∈ RELOAD_FIELDS)
    (happ : (reloadLists s.lastRawConfig newRaw).applied (.known key) = true) :
    (s.reloadFresh fresh newRaw now).1.config field = fresh field := by
  refine (applyReloadToConfig_fst _ _ _ _ _).trans (if_pos ?_)
  exact ⟨(key, field), hmem, happ, rfl⟩

theorem key_of_sizing : ∀ e ∈ RELOAD_FIELDS, e.2 ∈ SIZING →
    e.1 = .use_hard_cap ∨ e.1 = .concurrency_hard_cap ∨ e.1 = .concurrency_soft_limit := by
  decide

theorem nodup_reloadFields : (RELOAD_FIELDS.map Prod.snd).Nodup := by
  decide

/-- A field is assigned by one key. -/
theorem key_of_field {key' : Key} (hmem : (key, field) ∈ RELOAD_FIELDS)
    (hmem' : (key', field) ∈ RELOAD_FIELDS) : key = key' :=
  congrArg Prod.fst (List.inj_on_of_nodup_map nodup_reloadFields hmem hmem' rfl)

/-- A setting that only `reconfigure` changes. -/
theorem setting_reloadGate (hfield : field ∈ GateSettings.RECONFIGURED) (g : GateSettings)
    (config : ProxyConfig) (includes : Key → Bool) (reconfigured : Bool) (limit : Num ℚ) :
    (reloadGate g config includes reconfigured limit).setting field =
      if reconfigured then (GateSettings.new (gateOptionsFromConfig config)).setting field
      else g.setting field := by
  have hsoft : field ≠ .concurrencySoftLimit := by
    rintro rfl
    exact absurd hfield (by decide)
  simp only [reloadGate, apply_ite (GateSettings.setting · field), GateSettings.setting_resize,
    GateSettings.setting_setSoftLimit hsoft, GateSettings.setting_setHardCap hfield, ite_self,
    GateSettings.setting_reconfigure hfield]

theorem hardCap_reloadGate (g : GateSettings) (config : ProxyConfig) {includes : Key → Bool}
    (h : includes .concurrency_hard_cap = true) (reconfigured : Bool) (limit : Num ℚ) :
    (reloadGate g config includes reconfigured limit).setting .concurrencyHardCap =
      some (scaledFloor (failSafe (number (config .concurrencyHardCap)))) := by
  have hcap : ∀ g : GateSettings,
      (g.setHardCap (number (config .concurrencyHardCap))).setting .concurrencyHardCap =
        some (scaledFloor (failSafe (number (config .concurrencyHardCap)))) := fun g =>
    congrArg some GateSettings.hardCap_setHardCap
  have hne : ProxyField.concurrencyHardCap ≠ .concurrencySoftLimit := by decide
  simp only [reloadGate, apply_ite (GateSettings.setting · .concurrencyHardCap),
    GateSettings.setting_resize, GateSettings.setting_setSoftLimit hne, ite_self, h, if_true, hcap]

theorem softLimit_reloadGate (g : GateSettings) (config : ProxyConfig) {includes : Key → Bool}
    (h : includes .concurrency_soft_limit = true) (reconfigured : Bool) (limit : Num ℚ) :
    (reloadGate g config includes reconfigured limit).setting .concurrencySoftLimit =
      some (scaledFloor (failSafe (number (config .concurrencySoftLimit)))) := by
  have hlimit : ∀ g : GateSettings,
      (g.setSoftLimit (number (config .concurrencySoftLimit))).setting .concurrencySoftLimit =
        some (scaledFloor (failSafe (number (config .concurrencySoftLimit)))) := fun g =>
    congrArg some GateSettings.softLimit_setSoftLimit
  simp only [reloadGate, apply_ite (GateSettings.setting · .concurrencySoftLimit),
    GateSettings.setting_resize, ite_self, h, if_true, hlimit]

/-- The gate has the size that the configuration asks for. -/
theorem sized_reloadGate (g : GateSettings) (config : ProxyConfig) {includes : Key → Bool}
    (h : (includes .use_hard_cap || includes .concurrency_hard_cap ||
      includes .concurrency_soft_limit) = true) (reconfigured : Bool) (limit : Num ℚ) :
    (reloadGate g config includes reconfigured limit).resize limit =
      reloadGate g config includes reconfigured limit := by
  simp only [reloadGate, h, if_true]
  exact GateSettings.resize_resize

/-- The two caps of a loaded configuration are numbers. -/
theorem number_cap_ne_nan {file : RawInput} (h : loadConfig env file = some fresh) :
    number (fresh .concurrencyHardCap) ≠ .nan ∧ number (fresh .concurrencySoftLimit) ≠ .nan := by
  have hhard : .concurrencyHardCap ∈ PROXY_FIELDS := by decide
  have hsoft : .concurrencySoftLimit ∈ PROXY_FIELDS := by decide
  constructor
  · obtain ⟨n, hn, hne⟩ := numField_ne_nan (loadField_of_loadConfig h hhard)
    rw [hn]
    exact hne
  · obtain ⟨n, hn, hne⟩ := numField_ne_nan (loadField_of_loadConfig h hsoft)
    rw [hn]
    exact hne

/-- The gate works with the value of a key, unless it was not reconfigured and
has another setting, or takes an infinity for 1. -/
theorem uses_gate_iff (hcaps : number (fresh .concurrencyHardCap) ≠ .nan ∧
      number (fresh .concurrencySoftLimit) ≠ .nan)
    (hmem : (key, field) ∈ RELOAD_FIELDS)
    (happ : (reloadLists s.lastRawConfig newRaw).applied (.known key) = true) :
    (s.reloadFresh fresh newRaw now).1.Uses fresh now field .gate ↔
      (field ∈ GateSettings.RECONFIGURED → reconfigures s.lastRawConfig newRaw = false →
        s.gate.setting field = (GateSettings.new (gateOptionsFromConfig fresh)).setting field) ∧
      (field = .concurrencyHardCap → number (fresh .concurrencyHardCap) ≠ .posInf) ∧
      (field = .concurrencySoftLimit → number (fresh .concurrencySoftLimit) ≠ .posInf) := by
  have hconfig : (s.reloadFresh fresh newRaw now).1.config field = fresh field :=
    field_reloadFresh hmem happ
  have hsized : field ∈ SIZING → (s.reloadFresh fresh newRaw now).1.gate.resize (effectiveLimit
      (Function.update (s.reloadFresh fresh newRaw now).1.config field (fresh field))
      (s.reloadFresh fresh newRaw now).1.getSnapshot now) =
        (s.reloadFresh fresh newRaw now).1.gate := by
    intro hfield
    rw [← hconfig, Function.update_eq_self]
    refine sized_reloadGate _ _ ?_ _ _
    rcases key_of_sizing _ hmem hfield with rfl | rfl | rfl
    · simp [happ]
    · simp [happ]
    · simp [happ]
  rw [Uses, and_iff_left hsized]
  by_cases hrec : field ∈ GateSettings.RECONFIGURED
  · have hhard : field ≠ .concurrencyHardCap := by
      rintro rfl
      exact absurd hrec (by decide)
    have hsoft : field ≠ .concurrencySoftLimit := by
      rintro rfl
      exact absurd hrec (by decide)
    have hset : (s.reloadFresh fresh newRaw now).1.gate.setting field =
        if reconfigures s.lastRawConfig newRaw then
          (GateSettings.new (gateOptionsFromConfig (s.reloadFresh fresh newRaw now).1.config)).setting
            field
        else s.gate.setting field := setting_reloadGate hrec _ _ _ _ _
    rw [hset, GateSettings.setting_new_congr hconfig]
    cases hreconf : reconfigures s.lastRawConfig newRaw with
    | true => simp [hhard, hsoft]
    | false => simp [hrec, hhard, hsoft]
  · by_cases hhard : field = .concurrencyHardCap
    · subst hhard
      obtain rfl : key = .concurrency_hard_cap := key_of_field hmem (by decide)
      have hset : (s.reloadFresh fresh newRaw now).1.gate.setting .concurrencyHardCap =
          some (scaledFloor (failSafe
            (number ((s.reloadFresh fresh newRaw now).1.config .concurrencyHardCap)))) :=
        hardCap_reloadGate _ _ happ _ _
      have hnew : (GateSettings.new (gateOptionsFromConfig fresh)).setting .concurrencyHardCap =
          some (scaledFloor (number (fresh .concurrencyHardCap))) := rfl
      rw [hset, hconfig, hnew, Option.some.injEq, scaledFloor_failSafe_iff]
      simp [hrec, hcaps.1]
    · by_cases hsoft : field = .concurrencySoftLimit
      · subst hsoft
        obtain rfl : key = .concurrency_soft_limit := key_of_field hmem (by decide)
        have hset : (s.reloadFresh fresh newRaw now).1.gate.setting .concurrencySoftLimit =
            some (scaledFloor (failSafe
              (number ((s.reloadFresh fresh newRaw now).1.config .concurrencySoftLimit)))) :=
          softLimit_reloadGate _ _ happ _ _
        have hnew : (GateSettings.new (gateOptionsFromConfig fresh)).setting .concurrencySoftLimit =
            some (scaledFloor (number (fresh .concurrencySoftLimit))) := rfl
        rw [hset, hconfig, hnew, Option.some.injEq, scaledFloor_failSafe_iff]
        simp [hrec, hcaps.2]
      · rw [GateSettings.setting_eq_none hrec hhard hsoft,
          GateSettings.setting_eq_none hrec hhard hsoft]
        simp [hrec, hhard, hsoft]

theorem key_of_limiting : ∀ e ∈ RELOAD_FIELDS, e.2 ∈ LIMITING → e.1 ∈ RATE_LIMITER_KEYS := by
  decide

/-- The rate limiter is made anew for each key that it is made from. -/
theorem uses_rateLimiter (hmem : (key, field) ∈ RELOAD_FIELDS)
    (happ : (reloadLists s.lastRawConfig newRaw).applied (.known key) = true) :
    (s.reloadFresh fresh newRaw now).1.Uses fresh now field .rateLimiter := by
  intro hfield
  have hconfig : (s.reloadFresh fresh newRaw now).1.config field = fresh field :=
    field_reloadFresh hmem happ
  rw [← hconfig, Function.update_eq_self]
  exact if_pos (List.any_eq_true.mpr ⟨key, key_of_limiting _ hmem hfield, happ⟩)

/-- The handoff has the copies of the start. -/
theorem uses_visionHandoff_iff (hstart : Started start s) :
    (s.reloadFresh fresh newRaw now).1.Uses fresh now field .visionHandoff ↔
      ((start .visionStrategy).isText "never" = false →
        ((VisionConfig.ofConfig start).copy field).isSome = true → start field = fresh field) := by
  have hvision : (s.reloadFresh fresh newRaw now).1.vision =
      if (start .visionStrategy).isText "never" then none else some (.ofConfig start) :=
    hstart.vision
  rw [Uses, hvision]
  cases (start .visionStrategy).isText "never" with
  | true => simp
  | false =>
    cases hcopy : (VisionConfig.ofConfig start).copy field with
    | none => simp [hcopy]
    | some w =>
      obtain rfl := VisionConfig.copy_ofConfig hcopy
      simp [hcopy]

theorem not_reload_db : ∀ e ∈ RELOAD_FIELDS, e.2 ≠ .dbPath ∧ e.2 ≠ .maxCaptures ∧
    e.2 ≠ .visionCacheTtlMs := by
  decide

/-- The database is told each of its settings that a reload assigns. -/
theorem uses_captureDb (hmem : (key, field) ∈ RELOAD_FIELDS)
    (happ : (reloadLists s.lastRawConfig newRaw).applied (.known key) = true) :
    (s.reloadFresh fresh newRaw now).1.Uses fresh now field .captureDb := by
  have hconfig : (s.reloadFresh fresh newRaw now).1.config field = fresh field :=
    field_reloadFresh hmem happ
  have hkept := not_reload_db _ hmem
  intro v hv
  rw [← hconfig]
  unfold DbSettings.copy at hv
  split at hv
  · exact absurd rfl hkept.1
  · exact absurd rfl hkept.2.1
  · obtain rfl : key = .compression_enabled := key_of_field hmem (by decide)
    obtain rfl := Option.some.inj hv
    exact if_pos happ
  · obtain rfl : key = .performance_sample_count := key_of_field hmem (by decide)
    obtain rfl := Option.some.inj hv
    exact if_pos happ
  · obtain rfl : key = .incident_retention_days := key_of_field hmem (by decide)
    obtain rfl := Option.some.inj hv
    exact if_pos happ
  · exact absurd rfl hkept.2.2
  · cases hv

/-- Every component works with the new value of a key. -/
theorem uses_iff (hstart : Started start s)
    (hcaps : number (fresh .concurrencyHardCap) ≠ .nan ∧
      number (fresh .concurrencySoftLimit) ≠ .nan)
    (hmem : (key, field) ∈ RELOAD_FIELDS)
    (happ : (reloadLists s.lastRawConfig newRaw).applied (.known key) = true) :
    (∀ c, (s.reloadFresh fresh newRaw now).1.Uses fresh now field c) ↔
      TakesUp start fresh s newRaw field := by
  have hconfig : (s.reloadFresh fresh newRaw now).1.config field = fresh field :=
    field_reloadFresh hmem happ
  have hrewrite : (s.reloadFresh fresh newRaw now).1.rewriteTtlMs =
      start .experimentRewriteTtlMs := hstart.rewriteTtlMs
  have hhistory : (s.reloadFresh fresh newRaw now).1.usageHistory =
      (start .usageHistoryEnabled).isTrue := hstart.usageHistory
  constructor
  · intro huses
    obtain ⟨hgate, hhard, hsoft⟩ := (uses_gate_iff hcaps hmem happ).mp (huses .gate)
    refine ⟨hgate, hhard, hsoft, (uses_visionHandoff_iff hstart).mp (huses .visionHandoff), ?_, ?_⟩
    · rintro rfl
      exact hrewrite.symm.trans (huses .rewriteIdExperiment rfl)
    · rintro rfl
      exact hhistory.symm.trans ((huses .usageHistory).2 rfl)
  · intro h c
    cases c with
    | proxyHandler => exact hconfig
    | gate => exact (uses_gate_iff hcaps hmem happ).mpr ⟨h.gate, h.hardCap, h.softLimit⟩
    | rateLimiter => exact uses_rateLimiter hmem happ
    | visionHandoff => exact (uses_visionHandoff_iff hstart).mpr h.handoff
    | rewriteIdExperiment =>
      rintro rfl
      exact hrewrite.trans (h.rewrite rfl)
    | usageHistory =>
      refine ⟨hconfig, ?_⟩
      rintro rfl
      exact hhistory.trans (h.history rfl)
    | captureDb => exact uses_captureDb hmem happ

/-! ## What a reload leaves alone -/

theorem restart_fields : ∀ key ∈ RESTART_REQUIRED_FIELDS, ∀ field ∈ fieldsOf key,
    field ∉ GateSettings.RECONFIGURED ∧ field ∉ SIZING ∧ field ∉ LIMITING ∧
      field ≠ .compressionEnabled ∧ field ≠ .performanceSampleCount ∧
      field ≠ .incidentRetentionDays := by
  decide

/-- No component has another value for a key that needs a restart. -/
theorem uses_reloadFresh_of_restart (hkey : key ∈ RESTART_REQUIRED_FIELDS)
    (hfield : field ∈ fieldsOf key) (c : Component) (config : ProxyConfig) :
    (s.reloadFresh fresh newRaw now).1.Uses config now field c ↔ s.Uses config now field c := by
  obtain ⟨hrec, hsize, hlimit, hcomp, hperf, hinc⟩ := restart_fields _ hkey _ hfield
  have hconfig : (s.reloadFresh fresh newRaw now).1.config field = s.config field := by
    refine (applyReloadToConfig_fst _ _ _ _ _).trans (if_neg ?_)
    rintro ⟨e, hmem, -, heq⟩
    exact not_mem_reloadFields hkey field hfield e hmem heq
  cases c with
  | proxyHandler => simp only [Uses, hconfig]
  | gate =>
    have hhard : field ≠ .concurrencyHardCap := by
      rintro rfl
      exact hsize (by decide)
    have hsoft : field ≠ .concurrencySoftLimit := by
      rintro rfl
      exact hsize (by decide)
    simp only [Uses, hsize, GateSettings.setting_eq_none hrec hhard hsoft, false_imp_iff]
  | rateLimiter => simp only [Uses, hlimit, false_imp_iff]
  | visionHandoff => exact Iff.rfl
  | rewriteIdExperiment => exact Iff.rfl
  | usageHistory =>
    simp only [Uses, hconfig]
    exact Iff.rfl
  | captureDb =>
    have hcopy : (s.reloadFresh fresh newRaw now).1.db.copy field = s.db.copy field := by
      unfold DbSettings.copy
      split <;> first | rfl | contradiction
    simp only [Uses, hcopy]

/-- A reload that applies no key changes no component. -/
theorem reloadFresh_idle
    (hnone : ∀ name, (reloadLists s.lastRawConfig newRaw).applied name = false) :
    (s.reloadFresh fresh newRaw now).1 = { s with lastRawConfig := newRaw } := by
  have hconfig : (applyReloadToConfig s.config fresh s.lastRawConfig newRaw).1 = s.config := by
    funext field
    refine (applyReloadToConfig_fst _ _ _ _ _).trans (if_neg ?_)
    rintro ⟨e, -, happ, -⟩
    rw [hnone] at happ
    cases happ
  have hreconf : reconfigures s.lastRawConfig newRaw = false := by
    simp [reconfigures, hnone]
  have hlists : (applyReloadToConfig s.config fresh s.lastRawConfig newRaw).2 =
    reloadLists s.lastRawConfig newRaw := rfl
  simp only [reloadFresh, hconfig, hlists, hreconf, reloadGate, reloadDb, hnone, RATE_LIMITER_KEYS,
    List.any_cons, List.any_nil, Bool.or_false, if_neg Bool.false_ne_true]

/-! ## A reload against a restart -/

theorem reload_key : ∀ e ∈ RELOAD_FIELDS, e.1 ∉ RESTART_REQUIRED_FIELDS ∧ e.2 ∈ fieldsOf e.1 := by
  decide

theorem applied_iff {oldRaw : RawInput} (hkey : key ∉ RESTART_REQUIRED_FIELDS) :
    (reloadLists oldRaw newRaw).applied (.known key) = true ↔
      changed oldRaw newRaw (.known key) = true := by
  simp [reloadLists, isRestartRequired, hkey]

theorem of_applied {oldRaw : RawInput}
    (happ : (reloadLists oldRaw newRaw).applied (.known key) = true) :
    key ∉ RESTART_REQUIRED_FIELDS := by
  simp only [reloadLists, isRestartRequired, Bool.and_eq_true, Bool.not_eq_true',
    List.contains_eq_mem, decide_eq_false_iff_not] at happ
  exact happ.2

theorem of_restartRequired {oldRaw : RawInput}
    (h : (reloadLists oldRaw newRaw).restartRequired (.known key) = true) :
    key ∈ RESTART_REQUIRED_FIELDS := by
  simp only [reloadLists, isRestartRequired, Bool.and_eq_true, List.contains_eq_mem,
    decide_eq_true_eq] at h
  exact h.2

/-- A reload of a file that the loader accepts. -/
theorem reloadFresh_equalsRestart_iff (hstart : Started start s)
    (hcaps : number (fresh .concurrencyHardCap) ≠ .nan ∧
      number (fresh .concurrencySoftLimit) ≠ .nan) :
    EqualsRestart s (s.reloadFresh fresh newRaw now).1 (s.reloadFresh fresh newRaw now).2 fresh
        now ↔
      MeetsReload start fresh s newRaw := by
  constructor
  · intro h e hmem hchanged
    obtain ⟨hkey, hfield⟩ := reload_key e hmem
    have happ := (applied_iff hkey).mpr hchanged
    exact (uses_iff hstart hcaps hmem happ).mp (h.applied e.1 happ e.2 hfield)
  · intro h
    refine ⟨?_, ?_, reloadFresh_idle⟩
    · intro key happ field hfield
      have hkey : key ∉ RESTART_REQUIRED_FIELDS := of_applied happ
      have hmem : (key, field) ∈ RELOAD_FIELDS := mem_reloadFields hkey field hfield
      exact (uses_iff hstart hcaps hmem happ).mpr (h (key, field) hmem ((applied_iff hkey).mp happ))
    · intro key hlisted field hfield c config
      exact uses_reloadFresh_of_restart (of_restartRequired hlisted) hfield c config

/-- After any run, a reload does what a restart with the file would, for the
keys that it lists as applied, if and only if the new values are taken up. -/
theorem reload_equalsRestart_iff (env : Env) (start : ProxyConfig) (file₀ : RawInput)
    (ops : List ServerOp) (file : RawInput) (fresh : ProxyConfig) (now : Num ℚ)
    (hfresh : loadConfig env file = some fresh) :
    ∃ r, (Lib.run (step env) (createProxyServer start file₀) ops).reloadConfig env file now =
        some r ∧
      (EqualsRestart (Lib.run (step env) (createProxyServer start file₀) ops) r.1 r.2 fresh now ↔
        MeetsReload start fresh (Lib.run (step env) (createProxyServer start file₀) ops)
          (readConfigFile file)) := by
  refine ⟨_, congrArg (Option.map _) hfresh, ?_⟩
  exact reloadFresh_equalsRestart_iff (started_run start file₀ ops) (number_cap_ne_nan hfresh)

/-- No variable is set. -/
def noEnv : Env where ofKey _ := none

/-- The empty file. -/
def emptyFile : RawInput := fun _ => none

/-- A file that gives the queue another timeout than the three minutes it has. -/
def timeoutFile : RawInput
  | .known .queue_timeout_ms => some (.int 60000)
  | _ => none

/-- What the loader makes of a file. -/
def loaded (file : RawInput) : ProxyConfig := fun field => (loadField noEnv file field).getD .null

theorem loadConfig_emptyFile : loadConfig noEnv emptyFile = some (loaded emptyFile) :=
  if_pos (by decide)

theorem loadConfig_timeoutFile : loadConfig noEnv timeoutFile = some (loaded timeoutFile) :=
  if_pos (by decide)

/-- The first file is empty and the second gives the timeout. -/
theorem reload_equalsRestart_iff_timeoutFile :
    ∃ r, (Lib.run (step noEnv) (createProxyServer (loaded emptyFile) emptyFile) []).reloadConfig
        noEnv timeoutFile (.fin 0) = some r ∧
      (EqualsRestart (Lib.run (step noEnv) (createProxyServer (loaded emptyFile) emptyFile) [])
          r.1 r.2 (loaded timeoutFile) (.fin 0) ↔
        MeetsReload (loaded emptyFile) (loaded timeoutFile)
          (Lib.run (step noEnv) (createProxyServer (loaded emptyFile) emptyFile) [])
          (readConfigFile timeoutFile)) :=
  reload_equalsRestart_iff noEnv (loaded emptyFile) emptyFile [] timeoutFile (loaded timeoutFile)
    (.fin 0) loadConfig_timeoutFile

/-- The gate keeps the old timeout, though the key is listed as applied. -/
theorem not_forall_equalsRestart :
    ¬ ∀ (env : Env) (file₀ : RawInput) (start : ProxyConfig) (ops : List ServerOp)
      (file : RawInput) (fresh : ProxyConfig) (now : Num ℚ),
      loadConfig env file₀ = some start → loadConfig env file = some fresh →
      ∀ r, (Lib.run (step env) (createProxyServer start file₀) ops).reloadConfig env file now =
          some r →
        EqualsRestart (Lib.run (step env) (createProxyServer start file₀) ops) r.1 r.2 fresh now := by
  intro h
  have hequal := h noEnv emptyFile _ [] timeoutFile _ (.fin 0) loadConfig_emptyFile
    loadConfig_timeoutFile _ (congrArg (Option.map _) loadConfig_timeoutFile)
  have hgate := hequal.applied .queue_timeout_ms (by decide) .queueTimeoutMs (by decide) .gate
  exact absurd hgate.1 (by decide)

end ProxyServer

end UmansGate.Server
