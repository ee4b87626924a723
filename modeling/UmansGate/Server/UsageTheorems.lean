/-
UmansGate.Server.UsageTheorems — the server with its usage client.

`ProxyServer` keeps the last snapshot of the upstream's usage. Here the server
runs next to the client that makes the snapshots, and its callback is the first
that is registered. In every run the two agree, and an answer brings the gate to
the caps the upstream named last, whatever reloads came before
(`gate_follows_upstream`). Before the first usable answer nothing reaches the
server, so the fail-safe does not hold the gate to one request.
-/
import UmansGate.Server.ReloadTheorems
import UmansGate.Usage.RefreshTheorems

namespace UmansGate.Server

open UmansGate.Lib UmansGate.Config UmansGate.Usage
open UmansGate.Limiter.GateLimits (scaledFloor failSafe)

/-! ## The two together -/

/-- What the server reads of a snapshot. -/
def ofSnapshot (snap : Usage.UsageSnapshot) : UsageSnapshot where
  requestsHardCap := snap.ambient.requestsHardCap.map .fin
  requestsLimit := snap.ambient.requestsLimit.map .fin
  requestsWindowSeconds := snap.ambient.requestsWindowSeconds.map .fin
  concurrencyHardCap := .fin (Cap.hardCap.ofSnapshot snap)
  concurrencySoftLimit := .fin (Cap.softLimit.ofSnapshot snap)
  priorityLow := snap.ambient.priorityLow
  boxedUntil := snap.ambient.boxedUntil.map fun ms => .fin ms
  boxedReason := snap.ambient.boxedReason.map js

/-- The number of the server's callback. -/
def GATE_CALLBACK : ℕ := 0

structure Gateway where
  usage : UsageRun
  server : ProxyServer

inductive GatewayOp where
  /-- Another callback is registered. -/
  | subscribe (cb : ℕ)
  | start
  | tick
  /-- A request of the client is answered, and the callback reads the clock. -/
  | answer (answer : Answer) (clock : Num ℚ)
  | reload (file : RawInput) (now : Num ℚ)
  | limits (hardCap softLimit : Num ℚ) (now : Num ℚ)
  | requestLimits (limits : RequestLimits)

namespace Gateway

def new (config : ProxyConfig) (file : RawInput) (apiKey : Option String) : Gateway where
  usage := { UsageRun.init apiKey with
    client := { UsageClient.new apiKey with onChangeCbs := [GATE_CALLBACK] } }
  server := createProxyServer config file

section

variable (env : Env) (dateParse : String → Option Int) (g : Gateway)

/-- The client does something, and the server's callback is called. -/
def client (op : ClientOp) (clock : Num ℚ) : Gateway :=
  let usage := g.usage.step dateParse op
  { usage := usage
    server := ((usage.calls.drop g.usage.calls.length).filter (·.1 = GATE_CALLBACK)).foldl
      (fun server call => server.onUsage (ofSnapshot call.2) clock) g.server }

def step : GatewayOp → Gateway
  | .subscribe cb => g.client dateParse (.onChange (cb + 1)) .nan
  | .start => g.client dateParse .start .nan
  | .tick => g.client dateParse .tick .nan
  | .answer a clock => g.client dateParse (.answer a) clock
  | .reload file now => { g with server := g.server.step env (.reload file now) }
  | .limits hardCap softLimit now =>
      { g with server := g.server.step env (.limits hardCap softLimit now) }
  | .requestLimits limits => { g with server := g.server.step env (.requestLimits limits) }

end

end Gateway

/-! ## One snapshot -/

section

variable {s : ProxyServer} {snap : UsageSnapshot} {now : Num ℚ}

theorem syncRateLimiter_usage : (s.syncRateLimiter snap).usage = s.usage := by
  simp only [ProxyServer.syncRateLimiter, apply_ite ProxyServer.usage, ite_self]

theorem syncRateLimiter_gate : (s.syncRateLimiter snap).gate = s.gate := by
  simp only [ProxyServer.syncRateLimiter, apply_ite ProxyServer.gate, ite_self]

theorem syncRateLimiter_config :
    (s.syncRateLimiter snap).config = ProxyServer.withRequestCaps s.config snap.toRequestLimits := by
  simp only [ProxyServer.syncRateLimiter, apply_ite ProxyServer.config, ite_self]

theorem onUsage_usage : (s.onUsage snap now).usage = some snap := syncRateLimiter_usage

theorem onUsage_hardCap :
    (s.onUsage snap now).config .concurrencyHardCap = .num snap.concurrencyHardCap := by
  rw [ProxyServer.onUsage, syncRateLimiter_config]
  rfl

theorem onUsage_softLimit :
    (s.onUsage snap now).config .concurrencySoftLimit = .num snap.concurrencySoftLimit := by
  rw [ProxyServer.onUsage, syncRateLimiter_config]
  rfl

/-- The limit of the gate does not depend on the request caps. -/
theorem effectiveLimit_withRequestCaps {config : ProxyConfig} {limits : RequestLimits} :
    ProxyServer.effectiveLimit (ProxyServer.withRequestCaps config limits) snap now =
      ProxyServer.effectiveLimit config snap now := rfl

/-- The gate is at the limit that the configuration and the snapshot give. -/
theorem onUsage_resized :
    (s.onUsage snap now).gate.resize
        (ProxyServer.effectiveLimit (s.onUsage snap now).config snap now) =
      (s.onUsage snap now).gate := by
  rw [ProxyServer.onUsage, syncRateLimiter_gate, syncRateLimiter_config,
    effectiveLimit_withRequestCaps]
  exact GateSettings.resize_resize

theorem onUsage_gate_hardCap :
    (s.onUsage snap now).gate.limits.hardCap = scaledFloor (failSafe snap.concurrencyHardCap) := by
  have hkept : (s.onUsage snap now).gate.setting .concurrencyHardCap =
      (s.gate.setHardCap snap.concurrencyHardCap).setting .concurrencyHardCap := by
    rw [ProxyServer.onUsage, syncRateLimiter_gate]
    change ((((s.gate.setHardCap _).setSoftLimit _).resize _).setting .concurrencyHardCap) = _
    rw [GateSettings.setting_resize, GateSettings.setting_setSoftLimit (by decide)]
  exact (Option.some.inj hkept).trans GateSettings.hardCap_setHardCap

theorem onUsage_gate_softLimit : (s.onUsage snap now).gate.limits.softLimit =
    scaledFloor (failSafe snap.concurrencySoftLimit) := by
  have hkept : (s.onUsage snap now).gate.setting .concurrencySoftLimit =
      ((s.gate.setHardCap snap.concurrencyHardCap).setSoftLimit
        snap.concurrencySoftLimit).setting .concurrencySoftLimit := by
    rw [ProxyServer.onUsage, syncRateLimiter_gate]
    exact GateSettings.setting_resize
  exact (Option.some.inj hkept).trans GateSettings.softLimit_setSoftLimit

end

/-! ## Runs -/

variable {env : Env} {dateParse : String → Option Int} {g : Gateway} {clock : Num ℚ}

/-- The server agrees with its client, which calls it once. -/
structure Agrees (dateParse : String → Option Int) (g : Gateway) : Prop where
  tracks : Tracks dateParse g.usage
  once : g.usage.client.onChangeCbs.filter (· = GATE_CALLBACK) = [GATE_CALLBACK]
  usage : g.server.usage = g.usage.client.snapshot.map ofSnapshot

/-- What does not call the callbacks does not reach the server. -/
theorem client_server {op : ClientOp} (h : (g.usage.step dateParse op).calls = g.usage.calls) :
    (g.client dateParse op clock).server = g.server := by
  simp [Gateway.client, h]

/-- An answer calls the server with the snapshot that it leads to. -/
theorem answer_server (clock : Num ℚ) (honce : g.usage.client.onChangeCbs.filter (· = GATE_CALLBACK) =
      [GATE_CALLBACK]) (hsent : 0 < g.usage.inFlight) (a : Answer) :
    (g.client dateParse (.answer a) clock).server =
      match (g.usage.client.settle dateParse a.result a.now).2 with
      | none => g.server
      | some snap => g.server.onUsage (ofSnapshot snap) clock := by
  have hcbs : (g.usage.client.settle dateParse a.result a.now).1.onChangeCbs =
      g.usage.client.onChangeCbs := by
    cases a.result <;> rfl
  simp only [Gateway.client, UsageRun.step, if_pos hsent, UsageRun.answer, List.drop_left]
  cases hsnap : (g.usage.client.settle dateParse a.result a.now).2 with
  | none => rfl
  | some snap =>
    simp only [Option.map_some, Option.getD_some, hcbs, List.filter_map]
    change List.foldl _ _ (List.map _ (g.usage.client.onChangeCbs.filter (· = GATE_CALLBACK))) = _
    rw [honce]
    rfl

/-- The callbacks are called with the snapshot there is, and not after a
response that is malformed. -/
theorem settle_of_ne_malformed {c : UsageClient} {result : FetchUsageResult} {now : Int}
    (h : result ≠ .malformed) :
    (c.settle dateParse result now).2 = (c.settle dateParse result now).1.snapshot := by
  cases result with
  | usage raw => rfl
  | malformed => exact absurd rfl h
  | error => rfl

theorem settle_eq_none_iff {c : UsageClient} {result : FetchUsageResult} {now : Int} :
    (c.settle dateParse result now).2 = none ↔
      (c.settle dateParse result now).1.snapshot = none ∨ result = .malformed := by
  by_cases h : result = .malformed
  · subst h
    simp [UsageClient.settle]
  · rw [settle_of_ne_malformed h]
    simp [h]

theorem settle_snapshot {c : UsageClient} (result : FetchUsageResult) (now : Int)
    (h : (c.settle dateParse result now).2 = none) :
    (c.settle dateParse result now).1.snapshot = c.snapshot := by
  cases result with
  | usage raw => cases h
  | malformed => rfl
  | error =>
    change c.snapshot.map _ = c.snapshot
    have hnone : c.snapshot = none := Option.map_eq_none_iff.mp h
    rw [hnone, Option.map_none]

theorem refresh_onChangeCbs {c : UsageClient} : c.refresh.1.onChangeCbs = c.onChangeCbs := by
  rw [UsageClient.refresh]
  split <;> rfl

theorem start_onChangeCbs {c : UsageClient} : c.start.1.onChangeCbs = c.onChangeCbs := by
  rw [UsageClient.start]
  split
  · rfl
  · exact refresh_onChangeCbs

theorem start_snapshot {c : UsageClient} : c.start.1.snapshot = c.snapshot := by
  rw [UsageClient.start]
  split
  · rfl
  · exact refresh_snapshot

/-- A step of the client that makes no snapshot. -/
theorem Agrees.client_quiet (h : Agrees dateParse g) {op : ClientOp}
    (hcalls : (g.usage.step dateParse op).calls = g.usage.calls)
    (hsnapshot : (g.usage.step dateParse op).client.snapshot = g.usage.client.snapshot)
    (honce : (g.usage.step dateParse op).client.onChangeCbs.filter (· = GATE_CALLBACK) =
      [GATE_CALLBACK]) :
    Agrees dateParse (g.client dateParse op clock) where
  tracks := step_tracks h.tracks op
  once := honce
  usage := by
    rw [client_server hcalls, h.usage]
    exact congrArg _ hsnapshot.symm

theorem Agrees.client_answer (h : Agrees dateParse g) (a : Answer) :
    Agrees dateParse (g.client dateParse (.answer a) clock) := by
  by_cases hsent : 0 < g.usage.inFlight
  · refine ⟨step_tracks h.tracks (.answer a), ?_, ?_⟩
    · have hcbs : (g.usage.client.settle dateParse a.result a.now).1.onChangeCbs =
          g.usage.client.onChangeCbs := by
        cases a.result <;> rfl
      simp only [Gateway.client, UsageRun.step, if_pos hsent, UsageRun.answer, hcbs, h.once]
    · rw [answer_server clock h.once hsent]
      simp only [Gateway.client, UsageRun.step, if_pos hsent, UsageRun.answer]
      cases hsnap : (g.usage.client.settle dateParse a.result a.now).2 with
      | none => rw [settle_snapshot a.result a.now hsnap, h.usage]
      | some snap => rw [settle_called a.result a.now hsnap, Option.map_some, onUsage_usage]
  · have hnone : g.usage.step dateParse (.answer a) = g.usage := if_neg hsent
    exact h.client_quiet (by rw [hnone]) (by rw [hnone]) (by rw [hnone]; exact h.once)

theorem reload_usage (file : RawInput) (now : Num ℚ) :
    (g.server.step env (.reload file now)).usage = g.server.usage := by
  simp only [ProxyServer.step, ProxyServer.reloadConfig, Option.map_map]
  cases loadConfig env file with
  | none => rfl
  | some fresh => rfl

theorem applyRequestLimits_usage (s : ProxyServer) (limits : RequestLimits) :
    (s.applyRequestLimits limits).usage = s.usage := by
  simp only [ProxyServer.applyRequestLimits, apply_ite ProxyServer.usage, ite_self]

theorem step_agrees (h : Agrees dateParse g) (op : GatewayOp) :
    Agrees dateParse (g.step env dateParse op) := by
  cases op with
  | subscribe cb =>
    refine h.client_quiet rfl rfl ?_
    have hother : ¬ cb + 1 = GATE_CALLBACK := Nat.succ_ne_zero cb
    change (g.usage.client.onChangeCbs ++ [cb + 1]).filter (· = GATE_CALLBACK) = _
    rw [List.filter_append, h.once]
    simp [hother]
  | start =>
    refine h.client_quiet rfl start_snapshot ?_
    change g.usage.client.start.1.onChangeCbs.filter (· = GATE_CALLBACK) = _
    rw [start_onChangeCbs, h.once]
  | tick =>
    refine h.client_quiet ?_ ?_ ?_
    · simp only [UsageRun.step, apply_ite UsageRun.calls, UsageRun.sends, ite_self]
    · simp only [UsageRun.step, apply_ite UsageRun.client, UsageRun.sends,
        apply_ite UsageClient.snapshot, refresh_snapshot, ite_self]
    · simp only [UsageRun.step, apply_ite UsageRun.client, UsageRun.sends,
        apply_ite UsageClient.onChangeCbs, refresh_onChangeCbs, ite_self, h.once]
  | answer a clock => exact h.client_answer a
  | reload file now => exact ⟨h.tracks, h.once, (reload_usage file now).trans h.usage⟩
  | limits hardCap softLimit now => exact ⟨h.tracks, h.once, h.usage⟩
  | requestLimits limits =>
    exact ⟨h.tracks, h.once, (applyRequestLimits_usage g.server limits).trans h.usage⟩

theorem agrees_new (config : ProxyConfig) (file : RawInput) (apiKey : Option String) :
    Agrees dateParse (.new config file apiKey) where
  tracks := ⟨rfl, (tracks_init apiKey).shown, (tracks_init apiKey).called⟩
  once := rfl
  usage := rfl

theorem run_agrees (env : Env) (config : ProxyConfig) (file : RawInput) (apiKey : Option String)
    (ops : List GatewayOp) :
    Agrees dateParse (run (Gateway.step env dateParse) (.new config file apiKey) ops) :=
  run_invariant (I := Agrees dateParse) (fun _ op h => step_agrees h op)
    (agrees_new config file apiKey) ops

/-- The gate works with the last caps that were named. -/
structure AtCaps (server : ProxyServer) (answered : List Answer) (snap : Usage.UsageSnapshot)
    (clock : Num ℚ) : Prop where
  hardCap : server.config .concurrencyHardCap = .num (.fin (Cap.hardCap.lastNamed answered))
  softLimit : server.config .concurrencySoftLimit = .num (.fin (Cap.softLimit.lastNamed answered))
  gateHardCap : server.gate.limits.hardCap = scaledFloor (.fin (Cap.hardCap.lastNamed answered))
  gateSoftLimit :
    server.gate.limits.softLimit = scaledFloor (.fin (Cap.softLimit.lastNamed answered))
  resized : server.gate.resize
    (ProxyServer.effectiveLimit server.config (ofSnapshot snap) clock) = server.gate

theorem onUsage_atCaps {answered : List Answer} {snap : Usage.UsageSnapshot}
    (h : Shows dateParse answered snap) (server : ProxyServer) :
    AtCaps (server.onUsage (ofSnapshot snap) clock) answered snap clock where
  hardCap := by rw [onUsage_hardCap, ← h.ofSnapshot]; rfl
  softLimit := by rw [onUsage_softLimit, ← h.ofSnapshot]; rfl
  gateHardCap := by rw [onUsage_gate_hardCap, ← h.ofSnapshot]; rfl
  gateSoftLimit := by rw [onUsage_gate_softLimit, ← h.ofSnapshot]; rfl
  resized := onUsage_resized

/-- **The gate follows the upstream.** In every run of the server with its usage
client the two have the same snapshot. An answer that shows one brings the
configuration and the gate to the caps that were named last; one that shows
none leaves the server alone. -/
theorem gate_follows_upstream (env : Env) (dateParse : String → Option Int) (config : ProxyConfig)
    (file : RawInput) (apiKey : Option String) (ops : List GatewayOp) :
    let g := run (Gateway.step env dateParse) (.new config file apiKey) ops
    g.server.usage = g.usage.client.snapshot.map ofSnapshot ∧
      ∀ a clock, 0 < g.usage.inFlight →
        let g' := g.step env dateParse (.answer a clock)
        (g'.usage.client.snapshot = none ∨ a.result = .malformed → g'.server = g.server) ∧
          (a.result ≠ .malformed → ∀ snap, g'.usage.client.snapshot = some snap →
            AtCaps g'.server (g.usage.answered ++ [a]) snap clock) := by
  intro g
  have h : Agrees dateParse g := run_agrees env config file apiKey ops
  refine ⟨h.usage, fun a clock hsent => ?_⟩
  intro g'
  have hserver : g'.server = _ := answer_server clock h.once hsent a
  have hshown := settle_shown h.tracks.shown a
  have hsnapshot : g'.usage.client.snapshot =
      (g.usage.client.settle dateParse a.result a.now).1.snapshot := by
    change (g.usage.step dateParse (.answer a)).client.snapshot = _
    rw [UsageRun.step, if_pos hsent]
    rfl
  rw [hserver, hsnapshot]
  constructor
  · intro hquiet
    rw [settle_eq_none_iff.mpr hquiet]
  · intro hresult snap hsnap
    rw [hsnap] at hshown
    rw [settle_of_ne_malformed hresult, hsnap]
    exact onUsage_atCaps hshown g.server

end UmansGate.Server
