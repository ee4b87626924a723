/-
UmansGate.Proxy.WatchdogTheorems — the TTFT watchdog and the absolute
timeout of an attempt.

An attempt starts with a TTFT timer that is due a second before its absolute
timeout at the latest. The answer of the detached status fetch arms it anew,
from the moment the answer arrives (`statusResolves`), so the time the answer
took is added to the threshold. `InTime` says which answers leave the second.
-/
import Mathlib.Tactic.Linarith
import UmansGate.Proxy.LadderTheorems

namespace UmansGate.Proxy

open UmansGate.Lib UmansGate.Limiter

/-- The fetch whose first byte is awaited. -/
def Phase.awaited : Phase → Option ℕ
  | .fetching id => some id
  | .escalating id => some id
  | .rewriting id _ _ => some id
  | .firstChunk (.fetched id) _ => some id
  | _ => none

def Phase.rewrites : Phase → Bool
  | .rewriting _ _ _ => true
  | _ => false

/-- The steps that move the TTFT timer or fire a signal. -/
def Step.watched : Step → Bool
  | .attempt _ => true
  | .clientAbort => true
  | .status _ => true
  | .ttftTimeout => true
  | .upstreamTimeout _ => true
  | _ => false

/-- What the race between the two timeouts is about. -/
structure Watch where
  silentFetch : Option Fetch
  ttftArmed : Bool
  ttftAborted : Bool
  ttftTimer : Option ℚ
  aborted : Bool

namespace ProxyContext

/-- The fetch of the attempt under way, while no byte has come from it. -/
def silentFetch (s : ProxyContext) : Option Fetch :=
  (s.phase.awaited.bind fun id => s.fetches[id]?).filter fun f => f.controller = some s.attempt

def watch (s : ProxyContext) : Watch :=
  ⟨s.silentFetch, s.ttftArmed, s.ttftAborted, s.ttftTimer, s.aborted⟩

/-- The awaited fetch or its body rejects. -/
def rejects (deps : ProxyDeps) (s : ProxyContext) (err : FetchError) (stats : Option GateStats) :
    ProxyContext :=
  match s.phase with
  | .firstChunk _ _ => s.readRejects deps err stats
  | _ => s.fetchRejects deps err stats

/-- The top of the loop gets to a fetch, if the timeout is valid. -/
def makesFetch (deps : ProxyDeps) (s : ProxyContext) (rewritten : Bool) : Bool :=
  !s.pendingRewriteEscalation || (hasRewriteSession deps && rewritten)

end ProxyContext

/-- A request with the timeout of the attempt under way. -/
structure WatchdogRun where
  ctx : ProxyContext
  upstreamTimeoutMs : ℚ

namespace WatchdogRun

open ProxyContext

def init (config : ProxyConfig) (now : ℚ) (aborted : Bool) : WatchdogRun :=
  ⟨.new config now aborted, config.upstreamTimeoutMs⟩

/-- An attempt has the timeout of the settings it starts with. -/
def step (deps : ProxyDeps) (r : WatchdogRun) (e : Step) : WatchdogRun where
  ctx := r.ctx.step deps e
  upstreamTimeoutMs := match e with
    | .attempt _ =>
      if r.ctx.phase = .ready then r.ctx.config.upstreamTimeoutMs else r.upstreamTimeoutMs
    | _ => r.upstreamTimeoutMs

/-- A silent fetch is under the watchdog, whose scope are timeouts of more
than a second. -/
structure Guards (r : WatchdogRun) (f : Fetch) : Prop where
  silent : r.ctx.silentFetch = some f
  armed : r.ctx.ttftArmed = true
  scope : 1000 < r.upstreamTimeoutMs

/-- The watchdog has fired or is due a second before the absolute timeout;
no signal but the client's fires before it; and what it aborts enters the
ladder. -/
structure Beats (deps : ProxyDeps) (r : WatchdogRun) (f : Fetch) : Prop where
  due : r.ctx.ttftAborted = true ∨
    ∃ due, r.ctx.ttftTimer = some due ∧ due ≤ f.startedAt + (r.upstreamTimeoutMs - 1000)
  before : f.startedAt + (r.upstreamTimeoutMs - 1000) < f.deadline
  first : f.fired = true → r.ctx.aborted = false → r.ctx.ttftAborted = true
  ladder : f.fired = true → r.ctx.aborted = false → ∀ err stats,
    (r.ctx.rejects deps err stats).ttftFired = true ∧
      ∀ u ∈ (r.ctx.rejects deps err stats).updates,
        u.gateReason = some .upstreamTimeout → u ∈ r.ctx.updates

/-- A status answer arms the timer anew a second before the timeout at the
latest, and an attempt has the millisecond that a timer takes at least. -/
def InTime (deps : ProxyDeps) (r : WatchdogRun) : Step → Prop
  | .status modelP50 => ∀ f, Guards r f → r.ctx.statusPending = true → r.ctx.attempt = 1 →
      r.ctx.ttftAborted = false → (r.ctx.dynamicThreshold modelP50).isFinite = true →
      r.ctx.now + setTimeoutDelay (r.ctx.dynamicThreshold modelP50) ≤
        f.startedAt + (r.upstreamTimeoutMs - 1000)
  | .attempt rewritten => r.ctx.phase = .ready → r.ctx.ttftArmed = true →
      r.ctx.makesFetch deps rewritten = true → 1000 < r.ctx.config.upstreamTimeoutMs →
      1001 ≤ r.ctx.config.upstreamTimeoutMs
  | _ => True

end WatchdogRun

/-! ## What a step does to the silent fetch -/

/-- No fetch is silent, or the watch stays. -/
inductive StepWatch (s t : ProxyContext) : Prop
  | heard (h : t.silentFetch = none)
  | stays (watch : t.watch = s.watch)
      (rewrites : t.phase.rewrites = true → s.phase.rewrites = true)

namespace ProxyContext

variable {s t : ProxyContext}

theorem silentFetch_of_awaited (h : t.phase.awaited = none) : t.silentFetch = none := by
  simp [silentFetch, h]

theorem silentFetch_congr (hphase : t.phase.awaited = s.phase.awaited)
    (hfetches : t.fetches = s.fetches) (hattempt : t.attempt = s.attempt) :
    t.silentFetch = s.silentFetch := by
  simp only [silentFetch, hphase, hfetches, hattempt]

end ProxyContext

theorem Fails.silentFetch {deps : ProxyDeps} {p : Place} {t : ProxyContext}
    (h : Fails deps p t) : t.silentFetch = none := by
  refine ProxyContext.silentFetch_of_awaited ?_
  cases h with
  | returns place phase => rw [phase]; rfl
  | climbs h resting =>
    rcases resting with hready | ⟨due, hcooldown⟩
    · rw [hready]; rfl
    · rw [hcooldown]; rfl

namespace StepWatch

open ProxyContext

variable {deps : ProxyDeps} {s t : ProxyContext}

theorem rfl' (s : ProxyContext) : StepWatch s s := .stays rfl id

theorem of_phase {phase : Phase} (h : t.phase = phase) (hp : phase.awaited = none) :
    StepWatch s t :=
  .heard (silentFetch_of_awaited (h ▸ hp))

theorem of_fails {p : Place} (h : Fails deps p t) : StepWatch s t := .heard h.silentFetch

end StepWatch

namespace ProxyContext

variable {deps : ProxyDeps} {s t : ProxyContext}

theorem respond_awaited (s : ProxyContext) (source : Source) (upstream : Upstream) :
    (s.respond source upstream).phase.awaited = none := by
  unfold respond
  simp only []
  split
  · rfl
  · rw [(respondWith_place _ _ _).2]
    rfl

/-- A response is awaited as its fetch was, or heard. -/
theorem upstreamArrived_watch {id : ℕ} (hphase : s.phase.awaited = some id) (upstream : Upstream) :
    StepWatch s (s.upstreamArrived (.fetched id) upstream) := by
  unfold upstreamArrived
  split
  · refine .stays ?_ (fun h => by simp [Phase.rewrites] at h)
    simp only [watch, silentFetch_congr (s := s) (t := { s with
      phase := .firstChunk (.fetched id) upstream }) hphase.symm rfl rfl]
  · exact .heard (silentFetch_of_awaited (respond_awaited _ _ _))

theorem upstreamArrived_errorText (s : ProxyContext) (signal : ℕ) (upstream : Upstream) :
    (s.upstreamArrived (.errorText signal) upstream).silentFetch = none := by
  unfold upstreamArrived
  split
  · exact silentFetch_of_awaited rfl
  · exact silentFetch_of_awaited (respond_awaited _ _ _)

variable (deps) in
theorem classify_watch {id : ℕ} (hphase : s.phase = .fetching id) (upstream : Upstream) :
    StepWatch s (s.classify deps id upstream) := by
  have hend : ∀ t : ProxyContext, t.watch = s.watch → t.phase = .fetching id →
      StepWatch s (if t.config.experimentRewriteIds ∧ deps.rewriteExperiment ∧
          (upstream.status = 502 ∨ upstream.status = 529) ∧ deps.reqBytes ≠ 0 then
          { t with phase := .errorBody id upstream }
        else t.upstreamArrived (.fetched id) upstream) := by
    intro t hwatch ht
    split
    · exact .heard (silentFetch_of_awaited rfl)
    · have hawaited : t.phase.awaited = some id := by rw [ht]; rfl
      cases upstreamArrived_watch hawaited upstream with
      | heard h => exact .heard h
      | stays h hrewrites =>
        exact .stays (h.trans hwatch) fun hr => by
          have := hrewrites hr
          simp [ht, Phase.rewrites] at this
  unfold classify
  simp only []
  split
  · exact hend _ (by simp [watch, silentFetch]) hphase
  · split
    · exact hend _ (by simp [watch, silentFetch]) hphase
    · exact hend _ rfl hphase

variable (deps) in
theorem rewriteOverloaded_watch (s : ProxyContext) (id : ℕ) (upstream : Upstream)
    (overloaded rewritten : Bool) :
    (s.rewriteOverloaded deps id upstream overloaded rewritten).silentFetch = none := by
  unfold rewriteOverloaded
  simp only []
  split
  · split
    · refine silentFetch_of_awaited ?_
      rw [internalError, (respondWith_place _ _ _).2]
      rfl
    · simp [silentFetch, Phase.awaited, startFetch]
  · exact upstreamArrived_errorText _ _ _

variable (deps) in
/-- The steps that neither move the timer nor fire a signal. -/
theorem step_watch (s : ProxyContext) (e : Step) (he : e.watched = false) :
    StepWatch s (s.step deps e) := by
  cases e with
  | attempt rewritten => cases he
  | clientAbort => cases he
  | status modelP50 => cases he
  | ttftTimeout => cases he
  | upstreamTimeout id => cases he
  | tick ms =>
    simp only [step]
    split
    · exact .stays rfl id
    · exact .rfl' s
  | reload config => exact .stays rfl id
  | rateLimited retryAfter =>
    simp only [step]
    split
    · exact .of_phase (respondWith_place _ _ _).2 rfl
    · exact .rfl' s
  | gateRejects code =>
    simp only [step]
    split
    · exact .of_phase (respondWith_place _ _ _).2 rfl
    · exact .rfl' s
  | acquired =>
    simp only [step]
    split
    · exact .of_phase rfl rfl
    · exact .rfl' s
  | fetchResolves response =>
    simp only [step, fetchResolves]
    split
    · rename_i id hphase
      split
      · exact classify_watch deps hphase response
      · exact .rfl' s
    · rename_i id hphase
      split
      · exact upstreamArrived_watch (by rw [hphase]; rfl) response
      · exact .rfl' s
    · rename_i id first upstream hphase
      split
      · exact upstreamArrived_watch (by rw [hphase]; rfl) response
      · exact .rfl' s
    · exact .rfl' s
  | fetchRejects err stats =>
    simp only [step, fetchRejects]
    split
    · exact .of_fails (upstreamFailed_fails (s := s.endFetch _) _ _ _)
    · exact .of_phase (escalationFailed_place _).2 rfl
    · exact .heard (upstreamArrived_errorText _ _ _)
    · exact .rfl' s
  | auditThrows =>
    simp only [step, auditThrows]
    split
    · split
      · exact .of_phase (escalationFailed_place _).2 rfl
      · exact .rfl' s
    · split
      · exact .heard (upstreamArrived_errorText _ _ _)
      · exact .rfl' s
    · exact .rfl' s
  | errorBody overloaded rewritten =>
    simp only [step, errorBody]
    split
    · split
      · exact .heard (rewriteOverloaded_watch deps _ _ _ _ _)
      · exact .rfl' s
    · exact .rfl' s
  | errorBodyRejects =>
    simp only [step, errorBodyRejects]
    split
    · exact .of_phase (respondWith_place _ _ _).2 rfl
    · exact .rfl' s
  | firstChunk done =>
    simp only [step, firstChunk]
    split
    · split
      · exact .heard (silentFetch_of_awaited (respond_awaited _ _ _))
      · exact .rfl' s
    · exact .rfl' s
  | readRejects err stats =>
    simp only [step, readRejects]
    split
    · exact .of_fails (upstreamFailed_fails (s := s.endFetch _) _ _ _)
    · exact .rfl' s
  | cooldownOver =>
    simp only [step, cooldownOver]
    split
    · split
      · exact .of_phase rfl rfl
      · exact .rfl' s
    · exact .rfl' s
  | watchdogTimeout =>
    simp only [step, watchdogTimeout]
    split
    · cases hflush : s.flushCaptureRef with
      | none =>
        obtain ⟨_, _, _, heq⟩ := releasePermit_eq { s with
          watchdogTimer := none, watchdogFired := true }
        rw [hflush] at heq
        simp only [heq]
        exact .stays rfl id
      | some upstream =>
        obtain ⟨_, _, _, _, _, heq⟩ := flushRelease_eq { s with
          watchdogTimer := none, watchdogFired := true } upstream
        rw [hflush] at heq
        simp only [heq]
        exact .stays rfl id
    · exact .rfl' s
  | throws =>
    simp only [step, throws]
    split
    · exact .rfl' s
    · exact .rfl' s
    · exact .rfl' s
    · exact .of_phase (respondWith_place _ _ _).2 rfl
  | bodyEnd =>
    simp only [step, bodyEnd]
    split
    · split
      · exact .of_phase rfl rfl
      · exact .rfl' s
    · exact .rfl' s
  | bodyError =>
    simp only [step, bodyError]
    split
    · split
      · exact .rfl' s
      · exact .of_phase rfl rfl
    · exact .rfl' s
  | cancel =>
    simp only [step, cancel]
    split
    · split
      · exact .of_phase rfl rfl
      · exact .rfl' s
    · exact .rfl' s
  | flush =>
    simp only [step, flush]
    split
    · exact .of_phase rfl rfl
    · exact .rfl' s

/-! ## Signals -/

theorem fireSignal_fetch (s : ProxyContext) (p : ℕ → Fetch → Bool) (id : ℕ) :
    (s.fireSignal p).fetches[id]? =
      (s.fetches[id]?).map fun f => if p id f then { f with fired := true } else f := by
  simp [fireSignal]

/-- What an abort leaves of the watch: a silent fetch may have fired. -/
theorem abort_watch (s : ProxyContext) (p : ℕ → Fetch → Bool) {f' : Fetch}
    (h : (s.abort p).silentFetch = some f') :
    (s.abort p).watch = { s.watch with silentFetch := some f' } ∧
      ∃ id f, s.phase.awaited = some id ∧ s.fetches[id]? = some f ∧ s.silentFetch = some f ∧
        f' = if p id f then { f with fired := true } else f := by
  have habort : s.abort p = s.fireSignal p := by
    unfold abort
    simp only []
    split
    · rename_i source upstream stream hphase
      have hnone : (s.abort p).silentFetch = none :=
        silentFetch_of_awaited (by rw [(abort_stays s p).2, hphase]; rfl)
      rw [hnone] at h
      cases h
    · rfl
  rw [habort] at h ⊢
  simp only [silentFetch, Option.filter_eq_some_iff, Option.bind_eq_some_iff,
    decide_eq_true_eq] at h
  obtain ⟨⟨id, hawaited, hfetch⟩, hcontroller⟩ := h
  rw [fireSignal_fetch, Option.map_eq_some_iff] at hfetch
  obtain ⟨f, hf, rfl⟩ := hfetch
  have hsame : f.controller = some s.attempt := by
    rw [← show (s.fireSignal p).attempt = s.attempt from rfl, ← hcontroller]
    split
    · rfl
    · rfl
  have hsilent : s.silentFetch = some f := by
    simp only [silentFetch, Option.filter_eq_some_iff, Option.bind_eq_some_iff, decide_eq_true_eq]
    exact ⟨⟨id, hawaited, hf⟩, hsame⟩
  refine ⟨?_, id, f, hawaited, hf, hsilent, rfl⟩
  simp only [watch, Watch.mk.injEq]
  refine ⟨?_, rfl, rfl, rfl, rfl⟩
  simp only [silentFetch, Option.filter_eq_some_iff, Option.bind_eq_some_iff, decide_eq_true_eq]
  refine ⟨⟨id, hawaited, ?_⟩, hcontroller⟩
  rw [fireSignal_fetch, hf]
  rfl

/-! ## Delays -/

theorem one_le_setTimeoutDelay (x : Num ℚ) : 1 ≤ setTimeoutDelay x := by
  unfold setTimeoutDelay
  split
  · rename_i ms
    split
    · rename_i hrange
      have hfloor : (1 : Int) ≤ ms.floor := Rat.le_floor_iff.mpr (by exact_mod_cast hrange.1)
      exact_mod_cast hfloor
    · exact le_rfl
  · exact le_rfl

theorem setTimeoutDelay_le {x : Num ℚ} {bound : ℚ} (hbound : 1 ≤ bound)
    (h : ∀ ms, x = .fin ms → ms ≤ bound) : setTimeoutDelay x ≤ bound := by
  unfold setTimeoutDelay
  split
  · rename_i ms
    split
    · exact (Rat.floor_le ms).trans (h ms rfl)
    · exact hbound
  · exact hbound

theorem le_of_min_eq_fin {x : Num ℚ} {bound ms : ℚ} (h : x.min (.fin bound) = .fin ms) :
    ms ≤ bound := by
  cases x with
  | nan => cases h
  | negInf => cases h
  | fin q =>
    obtain rfl := Num.fin.inj h
    exact min_le_right _ _
  | posInf =>
    obtain rfl := Num.fin.inj h
    exact le_rfl

/-- The timer of an attempt. -/
theorem armTtft_armed (deps : ProxyDeps) (harmed : s.ttftArmed = true) :
    ∃ threshold pending, (∀ ms, threshold = .fin ms → ms ≤ s.config.upstreamTimeoutMs - 1000) ∧
      s.armTtft deps = { s with
        pendingRecord := none
        ttftAborted := false
        currentThreshold := some threshold
        ttftTimer := some (s.now + setTimeoutDelay threshold)
        statusPending := pending } := by
  unfold armTtft
  simp only [if_pos harmed]
  split
  · refine ⟨_, _, fun ms hms => ?_, rfl⟩
    obtain rfl := Num.fin.inj hms
    exact min_le_right _ _
  · exact ⟨_, _, fun ms hms => le_of_min_eq_fin hms, rfl⟩

/-- The watch of an attempt that has got to its fetch. -/
structure Starts (s t : ProxyContext) (timeout : ℚ) (threshold : Num ℚ) : Prop where
  bounded : ∀ ms, threshold = .fin ms → ms ≤ s.config.upstreamTimeoutMs - 1000
  watch : t.watch = ⟨some ⟨s.now, s.now + timeout, some s.attempt, s.aborted, false⟩, true, false,
    some (s.now + setTimeoutDelay threshold), s.aborted⟩

/-- An armed attempt gets to its fetch if the timeout is valid. -/
theorem startAttempt_watch (deps : ProxyDeps) (harmed : s.ttftArmed = true) (rewritten : Bool) :
    (∃ timeout threshold, s.makesFetch deps rewritten = true ∧
        abortSignalDelay? s.config.upstreamTimeoutMs = some timeout ∧
        Starts s (s.startAttempt deps rewritten) timeout threshold) ∨
      (s.makesFetch deps rewritten = false ∨
          abortSignalDelay? s.config.upstreamTimeoutMs = none) ∧
        (s.startAttempt deps rewritten).silentFetch = none := by
  obtain ⟨threshold, pending, hbounded, heq⟩ := armTtft_armed deps harmed
  unfold startAttempt
  simp only [heq]
  split
  · rename_i hpending
    unfold attemptEscalation
    simp only []
    split
    · rename_i hsession
      cases hvalid : abortSignalDelay? s.config.upstreamTimeoutMs with
      | none =>
        refine .inr ⟨.inr rfl, silentFetch_of_awaited ?_⟩
        simp only [Option.filter_none, (escalationFailed_place _).2]
        rfl
      | some timeout =>
        cases rewritten with
        | false =>
          refine .inr ⟨.inl ?_, silentFetch_of_awaited ?_⟩
          · simp [makesFetch, hpending]
          · simp only [Option.filter_some, Bool.false_eq_true, if_false,
              (escalationFailed_place _).2]
            rfl
        | true =>
          refine .inl ⟨timeout, threshold, by simp [makesFetch, hsession], rfl, hbounded, ?_⟩
          simp [watch, silentFetch, Phase.awaited, startFetch, controller, harmed,
            Option.filter_some]
    · rename_i hsession
      refine .inr ⟨.inl ?_, silentFetch_of_awaited ?_⟩
      · simp [makesFetch, hpending, hsession]
      · rw [queueTtftTimeout, (respondWith_place _ _ _).2]
        rfl
  · rename_i hpending
    unfold attemptFetch
    simp only []
    cases hvalid : abortSignalDelay? s.config.upstreamTimeoutMs with
    | none => exact .inr ⟨.inr rfl, (upstreamFailed_fails _ _ _).silentFetch⟩
    | some timeout =>
      refine .inl ⟨timeout, threshold, by simp [makesFetch, hpending], rfl, hbounded, ?_⟩
      simp [watch, silentFetch, Phase.awaited, startFetch, controller, harmed, Option.filter_some]

variable (deps) in
theorem startAttempt_rewrites (s : ProxyContext) (rewritten : Bool) :
    (s.startAttempt deps rewritten).phase.rewrites = false := by
  rcases startAttempt_cases deps s rewritten with ⟨t, timeout, controller, -, heq | heq⟩ | hsettles
  · rw [heq]; rfl
  · rw [heq]; rfl
  · generalize s.startAttempt deps rewritten = t at hsettles ⊢
    cases hsettles with
    | waits keeps resting =>
      rcases resting with hready | ⟨due, hcooldown⟩
      · rw [hready]; rfl
      · rw [hcooldown]; rfl
    | returns keeps status reason => rw [(respondWith_place _ _ _).2]; rfl

/-! ## What the watchdog aborts -/

theorem respondWith_ttft (s : ProxyContext) (status : ℕ) (reason : GateReason)
    (hreason : reason ≠ .upstreamTimeout) :
    (s.queueTtftTimeout status reason).ttftFired = s.ttftFired ∧
      ∀ u ∈ (s.queueTtftTimeout status reason).updates,
        u.gateReason = some .upstreamTimeout → u ∈ s.updates := by
  constructor
  · obtain ⟨_, _, _, _, heq⟩ := respondWith_eq s status (some reason)
    rw [queueTtftTimeout, heq]
  · intro u hu hgate
    rw [queueTtftTimeout, LadderRun.respondWith_updates, List.mem_append, List.mem_singleton] at hu
    rcases hu with hu | rfl
    · exact hu
    · exact absurd (Option.some.inj hgate) hreason

theorem handleTtftTimeout_ttft (s : ProxyContext) (stats : Option GateStats) :
    (s.handleTtftTimeout deps stats).ttftFired = true ∧
      ∀ u ∈ (s.handleTtftTimeout deps stats).updates,
        u.gateReason = some .upstreamTimeout → u ∈ s.updates := by
  have hcooldown : ∀ t : ProxyContext, t.ttftFired = true → t.updates = s.updates →
      t.ttftCooldown.ttftFired = true ∧
        ∀ u ∈ t.ttftCooldown.updates, u.gateReason = some .upstreamTimeout → u ∈ s.updates := by
    intro t hfired hupdates
    unfold ttftCooldown
    split
    · exact ⟨hfired, fun u hu _ => hupdates ▸ hu⟩
    · exact ⟨hfired, fun u hu _ => hupdates ▸ hu⟩
  unfold handleTtftTimeout
  simp only []
  split
  · split
    · exact hcooldown _ rfl rfl
    · exact hcooldown _ rfl rfl
  · obtain ⟨hfired, hupdates⟩ := respondWith_ttft { s with ttftFired := true } 504
      (.ttftExceeded _) (by simp)
    exact ⟨hfired, hupdates⟩

theorem upstreamFailed_ttft (harmed : s.ttftArmed = true) (hfired : s.ttftAborted = true)
    (hclient : s.aborted = false) (reason : GateReason) (err : FetchError)
    (stats : Option GateStats) :
    s.upstreamFailed deps reason err stats =
      ({ s with ttftTimer := none } : ProxyContext).handleTtftTimeout deps stats := by
  unfold upstreamFailed
  simp [hclient, hfired, harmed]

/-- What the watchdog has aborted is not reported as an upstream timeout. -/
theorem rejects_ttft {f : Fetch} (hsilent : s.silentFetch = some f)
    (hrewrites : s.phase.rewrites = false) (harmed : s.ttftArmed = true)
    (hfired : s.ttftAborted = true) (hclient : s.aborted = false) (err : FetchError)
    (stats : Option GateStats) :
    (s.rejects deps err stats).ttftFired = true ∧
      ∀ u ∈ (s.rejects deps err stats).updates,
        u.gateReason = some .upstreamTimeout → u ∈ s.updates := by
  have hawaited : s.phase.awaited ≠ none := by
    intro hnone
    rw [silentFetch_of_awaited hnone] at hsilent
    cases hsilent
  have hfailed : ∀ id reason,
      ((s.endFetch id).upstreamFailed deps reason err stats).ttftFired = true ∧
        ∀ u ∈ ((s.endFetch id).upstreamFailed deps reason err stats).updates,
          u.gateReason = some .upstreamTimeout → u ∈ s.updates := by
    intro id reason
    rw [upstreamFailed_ttft (s := s.endFetch id) harmed hfired hclient]
    exact handleTtftTimeout_ttft _ _
  cases hphase : s.phase with
  | fetching id =>
    simp only [rejects, fetchRejects, hphase]
    exact hfailed id _
  | escalating id =>
    simp only [rejects, fetchRejects, hphase]
    unfold escalationFailed
    simp only [endFetch, hclient, hfired, Bool.false_eq_true, if_false, if_true]
    exact respondWith_ttft _ _ _ (by simp)
  | rewriting id first upstream =>
    rw [hphase] at hrewrites
    cases hrewrites
  | firstChunk source upstream =>
    cases source with
    | fetched id =>
      simp only [rejects, readRejects, hphase]
      exact hfailed id _
    | errorText signal => exact absurd (by rw [hphase]; rfl) hawaited
  | arriving => exact absurd (by rw [hphase]; rfl) hawaited
  | ready => exact absurd (by rw [hphase]; rfl) hawaited
  | errorBody id upstream => exact absurd (by rw [hphase]; rfl) hawaited
  | cooldown due => exact absurd (by rw [hphase]; rfl) hawaited
  | streaming source upstream stream => exact absurd (by rw [hphase]; rfl) hawaited
  | returned => exact absurd (by rw [hphase]; rfl) hawaited

end ProxyContext

/-! ## Runs -/

namespace WatchdogRun

open ProxyContext

variable {deps : ProxyDeps} {r : WatchdogRun}

/-- The watchdog beats the timeout of every silent attempt. -/
def OnWatch (deps : ProxyDeps) (r : WatchdogRun) : Prop := ∀ f, Guards r f → Beats deps r f

/-- The fetch with rewritten ids behind an error is not the attempt's. -/
def Apart (r : WatchdogRun) : Prop :=
  r.ctx.phase.rewrites = true → r.ctx.silentFetch = none

theorem onWatch_of_heard (h : r.ctx.silentFetch = none) : OnWatch deps r := by
  intro f hf
  have hsilent := hf.silent
  rw [h] at hsilent
  cases hsilent

/-- The ladder is entered where the signal is the watchdog's. -/
theorem Beats.of_first {f : Fetch} (hguards : Guards r f) (hrewrites : r.ctx.phase.rewrites = false)
    (hdue : r.ctx.ttftAborted = true ∨
      ∃ due, r.ctx.ttftTimer = some due ∧ due ≤ f.startedAt + (r.upstreamTimeoutMs - 1000))
    (hbefore : f.startedAt + (r.upstreamTimeoutMs - 1000) < f.deadline)
    (hfirst : f.fired = true → r.ctx.aborted = false → r.ctx.ttftAborted = true) :
    Beats deps r f where
  due := hdue
  before := hbefore
  first := hfirst
  ladder := fun hfired hclient err stats =>
    rejects_ttft hguards.silent hrewrites hguards.armed (hfirst hfired hclient) hclient err stats

theorem Apart.rewrites (hapart : Apart r) {f : Fetch} (hf : Guards r f) :
    r.ctx.phase.rewrites = false := by
  cases hrewrites : r.ctx.phase.rewrites with
  | false => rfl
  | true =>
    have hsilent := hf.silent
    rw [hapart hrewrites] at hsilent
    cases hsilent

variable (deps) in
theorem apart_step (hapart : Apart r) (e : Step) : Apart (r.step deps e) := by
  intro hrewrites
  by_cases he : e.watched = false
  · cases step_watch deps r.ctx e he with
    | heard h => exact h
    | stays hwatch hback =>
      exact (congrArg Watch.silentFetch hwatch).trans (hapart (hback hrewrites))
  · have habort : ∀ (s : ProxyContext) p, s.silentFetch = none → (s.abort p).silentFetch = none := by
      intro s p hnone
      cases hf : (s.abort p).silentFetch with
      | none => rfl
      | some f =>
        obtain ⟨-, id, f, -, -, hsilent, -⟩ := abort_watch s p hf
        rw [hnone] at hsilent
        cases hsilent
    cases e with
    | attempt rewritten =>
      simp only [step, ProxyContext.step] at hrewrites ⊢
      split at hrewrites
      · rw [startAttempt_rewrites] at hrewrites
        cases hrewrites
      · rename_i hready
        rw [if_neg hready]
        exact hapart hrewrites
    | clientAbort =>
      simp only [step, ProxyContext.step, clientAbort] at hrewrites ⊢
      rw [(abort_stays _ _).2] at hrewrites
      exact habort _ _ (hapart hrewrites)
    | status modelP50 =>
      have hsame : (r.ctx.statusResolves modelP50).phase = r.ctx.phase ∧
          (r.ctx.statusResolves modelP50).silentFetch = r.ctx.silentFetch := by
        unfold statusResolves
        split
        · simp only []
          split
          · split
            · exact ⟨rfl, rfl⟩
            · exact ⟨rfl, rfl⟩
          · exact ⟨rfl, rfl⟩
        · exact ⟨rfl, rfl⟩
      simp only [step, ProxyContext.step] at hrewrites ⊢
      rw [hsame.1] at hrewrites
      rw [hsame.2]
      exact hapart hrewrites
    | ttftTimeout =>
      simp only [step, ProxyContext.step, ttftTimeout] at hrewrites ⊢
      split
      · rename_i hdue
        rw [if_pos hdue, (abort_stays _ _).2] at hrewrites
        exact habort _ _ (hapart hrewrites)
      · rename_i hdue
        rw [if_neg hdue] at hrewrites
        exact hapart hrewrites
    | upstreamTimeout id =>
      simp only [step, ProxyContext.step, upstreamTimeout] at hrewrites ⊢
      split
      · rename_i hdue
        rw [if_pos hdue, (abort_stays _ _).2] at hrewrites
        exact habort _ _ (hapart hrewrites)
      · rename_i hdue
        rw [if_neg hdue] at hrewrites
        exact hapart hrewrites
    | _ => exact absurd rfl he

/-- A step that leaves the watch. -/
theorem onWatch_of_watch {t : WatchdogRun} (h : OnWatch deps r) (hapart : Apart t)
    (hwatch : t.ctx.watch = r.ctx.watch) (htimeout : t.upstreamTimeoutMs = r.upstreamTimeoutMs) :
    OnWatch deps t := by
  intro f hf
  have hsilent : t.ctx.silentFetch = r.ctx.silentFetch := congrArg Watch.silentFetch hwatch
  have harmed : t.ctx.ttftArmed = r.ctx.ttftArmed := congrArg Watch.ttftArmed hwatch
  have haborted : t.ctx.ttftAborted = r.ctx.ttftAborted := congrArg Watch.ttftAborted hwatch
  have htimer : t.ctx.ttftTimer = r.ctx.ttftTimer := congrArg Watch.ttftTimer hwatch
  have hclient : t.ctx.aborted = r.ctx.aborted := congrArg Watch.aborted hwatch
  have hbeats := h f ⟨hsilent ▸ hf.silent, harmed ▸ hf.armed, htimeout ▸ hf.scope⟩
  refine .of_first hf (hapart.rewrites hf) ?_ ?_ ?_
  · rw [haborted, htimer, htimeout]
    exact hbeats.due
  · rw [htimeout]
    exact hbeats.before
  · rw [hclient, haborted]
    exact hbeats.first

/-- An abort keeps the watch of a silent attempt but for its signal. -/
theorem onWatch_abort {s : ProxyContext} {p : ℕ → Fetch → Bool} {timeout : ℚ}
    (h : OnWatch deps ⟨s, timeout⟩) (hapart : Apart ⟨s.abort p, timeout⟩)
    (hfirst : ∀ id f, s.phase.awaited = some id → s.fetches[id]? = some f →
      Guards ⟨s, timeout⟩ f → p id f = true → s.aborted = false → s.ttftAborted = true) :
    OnWatch deps ⟨s.abort p, timeout⟩ := by
  intro f' hf'
  obtain ⟨hwatch, id, f, hawaited, hfetch, hsilent, rfl⟩ := abort_watch s p hf'.silent
  have harmed : (s.abort p).ttftArmed = s.ttftArmed := congrArg Watch.ttftArmed hwatch
  have haborted : (s.abort p).ttftAborted = s.ttftAborted := congrArg Watch.ttftAborted hwatch
  have htimer : (s.abort p).ttftTimer = s.ttftTimer := congrArg Watch.ttftTimer hwatch
  have hclient : (s.abort p).aborted = s.aborted := congrArg Watch.aborted hwatch
  have hguards : Guards ⟨s, timeout⟩ f := ⟨hsilent, harmed ▸ hf'.armed, hf'.scope⟩
  have hbeats := h f hguards
  have hstarted : (if p id f then { f with fired := true } else f).startedAt = f.startedAt := by
    split
    · rfl
    · rfl
  have hdeadline : (if p id f then { f with fired := true } else f).deadline = f.deadline := by
    split
    · rfl
    · rfl
  refine .of_first hf' (hapart.rewrites hf') ?_ ?_ fun hfired hnot => ?_
  · rw [hstarted]
    simpa only [haborted, htimer] using hbeats.due
  · rw [hstarted, hdeadline]
    exact hbeats.before
  · simp only [haborted]
    have hlive : s.aborted = false := hclient ▸ hnot
    split at hfired
    · rename_i hp
      exact hfirst id f hawaited hfetch hguards hp hlive
    · exact hbeats.first hfired hlive

theorem statusResolves_fin {s : ProxyContext} {modelP50 : Num ℚ} {ms : ℚ}
    (hpending : s.statusPending = true)
    (hguard : s.attempt = 1 ∧ ¬ s.ttftAborted ∧ s.ttftTimer.isSome)
    (h : s.dynamicThreshold modelP50 = .fin ms) :
    s.statusResolves modelP50 = { s with
      statusPending := false
      currentThreshold := some (.fin ms)
      ttftTimer := some (s.now + setTimeoutDelay (.fin ms)) } := by
  have hsame : ({ s with statusPending := false } : ProxyContext).dynamicThreshold modelP50 =
      .fin ms := h
  unfold statusResolves
  simp only []
  rw [if_pos hpending, if_pos hguard, hsame]
  rfl

theorem onWatch_attempt (h : OnWatch deps r) (rewritten : Bool) :
    OnWatch deps (r.step deps (.attempt rewritten)) ↔ InTime deps r (.attempt rewritten) := by
  by_cases hready : r.ctx.phase = .ready
  · have hstep : r.step deps (.attempt rewritten) =
        ⟨r.ctx.startAttempt deps rewritten, r.ctx.config.upstreamTimeoutMs⟩ := by
      simp only [step, ProxyContext.step, if_pos hready]
    rw [hstep]
    cases harmed : r.ctx.ttftArmed with
    | false =>
      constructor
      · intro _ _ hon
        rw [harmed] at hon
        cases hon
      · intro _ f hf
        rcases startAttempt_place deps r.ctx rewritten with ⟨hplace, -⟩ | hfails
        · have hon : (r.ctx.startAttempt deps rewritten).ttftArmed = false :=
            (congrArg Place.ttftArmed hplace).trans harmed
          have harmed' := hf.armed
          simp only [hon] at harmed'
          cases harmed'
        · have hheard : OnWatch deps ⟨r.ctx.startAttempt deps rewritten,
              r.ctx.config.upstreamTimeoutMs⟩ := onWatch_of_heard hfails.silentFetch
          exact hheard f hf
    | true =>
      rcases startAttempt_watch deps harmed rewritten with
        ⟨timeout, threshold, hmakes, hvalid, hstarts⟩ | ⟨hnone, hsilent⟩
      · have hsilent := congrArg Watch.silentFetch hstarts.watch
        have haborted := congrArg Watch.ttftAborted hstarts.watch
        have htimer := congrArg Watch.ttftTimer hstarts.watch
        have hclient := congrArg Watch.aborted hstarts.watch
        have harmed' := congrArg Watch.ttftArmed hstarts.watch
        simp only [watch] at hsilent haborted htimer hclient harmed'
        constructor
        · intro hbeats _ _ _ hscope
          rcases (hbeats _ ⟨hsilent, harmed', hscope⟩).due with hfired | ⟨due, hdue, hle⟩
          · rw [haborted] at hfired
            cases hfired
          · rw [htimer] at hdue
            obtain rfl := Option.some.inj hdue
            have hone := one_le_setTimeoutDelay threshold
            simp only at hle
            linarith
        · intro hintime f hf
          have hbound := hintime hready harmed hmakes hf.scope
          obtain rfl := Option.some.inj (hsilent.symm.trans hf.silent)
          refine .of_first hf (startAttempt_rewrites deps _ _) (.inr ⟨_, htimer, ?_⟩) ?_ ?_
          · have hdelay := setTimeoutDelay_le (by linarith) hstarts.bounded
            simp only
            linarith
          · have hfloor : r.ctx.config.upstreamTimeoutMs - 1 < timeout := by
              unfold abortSignalDelay? at hvalid
              split at hvalid
              · obtain rfl := Option.some.inj hvalid
                have hlt := Rat.lt_floor_add_one r.ctx.config.upstreamTimeoutMs
                push_cast at hlt
                refine lt_of_lt_of_le ?_ (le_max_right _ _)
                linarith
              · cases hvalid
            simp only
            linarith
          · intro hfired hlive
            simp only at hfired hlive
            rw [hclient, hfired] at hlive
            cases hlive
      · constructor
        · intro _ _ _ hmakes hscope
          rcases hnone with hno | hinvalid
          · rw [hno] at hmakes
            cases hmakes
          · by_contra hlt
            have hlt : r.ctx.config.upstreamTimeoutMs < 1001 := not_le.mp hlt
            rw [abortSignalDelay?, if_pos ⟨by linarith, by linarith⟩] at hinvalid
            cases hinvalid
        · intro _
          exact onWatch_of_heard hsilent
  · have hstep : r.step deps (.attempt rewritten) = r := by
      simp only [step, ProxyContext.step, if_neg hready]
    rw [hstep]
    exact ⟨fun _ hphase => absurd hphase hready, fun _ => h⟩

theorem onWatch_status (hapart : Apart r) (h : OnWatch deps r) (modelP50 : Num ℚ) :
    OnWatch deps (r.step deps (.status modelP50)) ↔ InTime deps r (.status modelP50) := by
  have hafter := apart_step deps hapart (.status modelP50)
  by_cases hpending : r.ctx.statusPending = true
  · by_cases hguard : r.ctx.attempt = 1 ∧ ¬ r.ctx.ttftAborted ∧ r.ctx.ttftTimer.isSome
    · by_cases hfinite : (r.ctx.dynamicThreshold modelP50).isFinite = true
      · obtain ⟨ms, hms⟩ : ∃ ms, r.ctx.dynamicThreshold modelP50 = .fin ms := by
          cases hthreshold : r.ctx.dynamicThreshold modelP50 with
          | fin ms => exact ⟨ms, rfl⟩
          | _ =>
            rw [hthreshold] at hfinite
            cases hfinite
        have hstep : r.step deps (.status modelP50) = ⟨{ r.ctx with
            statusPending := false
            currentThreshold := some (.fin ms)
            ttftTimer := some (r.ctx.now + setTimeoutDelay (.fin ms)) }, r.upstreamTimeoutMs⟩ :=
          congrArg (WatchdogRun.mk · _) (statusResolves_fin hpending hguard hms)
        rw [hstep] at hafter ⊢
        constructor
        · intro hbeats f hf _ _ hlive _
          rcases (hbeats f ⟨hf.silent, hf.armed, hf.scope⟩).due with hfired | ⟨due, hdue, hle⟩
          · simp only [hlive] at hfired
            cases hfired
          · obtain rfl := Option.some.inj hdue
            rw [hms]
            exact hle
        · intro hintime f hf
          have hguards : Guards r f := ⟨hf.silent, hf.armed, hf.scope⟩
          have hbeats := h f hguards
          have hle := hintime f hguards hpending hguard.1 (by simpa using hguard.2.1) hfinite
          rw [hms] at hle
          exact .of_first hf (hafter.rewrites hf) (.inr ⟨_, rfl, hle⟩) hbeats.before hbeats.first
      · have hstep : r.step deps (.status modelP50) =
            ⟨{ r.ctx with statusPending := false }, r.upstreamTimeoutMs⟩ := by
          simp only [step, ProxyContext.step, statusResolves, if_pos hpending]
          rw [if_pos hguard]
          exact congrArg (WatchdogRun.mk · _) (if_neg hfinite)
        rw [hstep] at hafter ⊢
        exact ⟨fun _ _ _ _ _ _ hfin => absurd hfin hfinite,
          fun _ => onWatch_of_watch h hafter rfl rfl⟩
    · have hstep : r.step deps (.status modelP50) =
          ⟨{ r.ctx with statusPending := false }, r.upstreamTimeoutMs⟩ := by
        simp only [step, ProxyContext.step, statusResolves, if_pos hpending]
        rw [if_neg hguard]
      rw [hstep] at hafter ⊢
      refine ⟨fun _ f hf _ hone hlive _ => ?_, fun _ => onWatch_of_watch h hafter rfl rfl⟩
      rcases (h f hf).due with hfired | ⟨due, hdue, -⟩
      · rw [hlive] at hfired
        cases hfired
      · exact absurd ⟨hone, by simp [hlive], by simp [hdue]⟩ hguard
  · have hstep : r.step deps (.status modelP50) = r := by
      simp only [step, ProxyContext.step, statusResolves, if_neg hpending]
    rw [hstep]
    exact ⟨fun _ _ _ hp => absurd hp hpending, fun _ => h⟩

/-- What a step keeps: exactly the steps in time keep the watchdog ahead. -/
theorem onWatch_step (hapart : Apart r) (h : OnWatch deps r) (e : Step) :
    OnWatch deps (r.step deps e) ↔ InTime deps r e := by
  have hafter := apart_step deps hapart e
  by_cases he : e.watched = false
  · have htimeout : (r.step deps e).upstreamTimeoutMs = r.upstreamTimeoutMs := by
      cases e with
      | attempt rewritten => cases he
      | _ => rfl
    have hintime : InTime deps r e := by
      cases e with
      | attempt rewritten => cases he
      | status modelP50 => cases he
      | _ => trivial
    refine ⟨fun _ => hintime, fun _ => ?_⟩
    cases step_watch deps r.ctx e he with
    | heard hnone => exact onWatch_of_heard hnone
    | stays hwatch hrewrites => exact onWatch_of_watch h hafter hwatch htimeout
  · cases e with
    | attempt rewritten => exact onWatch_attempt h rewritten
    | status modelP50 => exact onWatch_status hapart h modelP50
    | clientAbort =>
      refine ⟨fun _ => trivial, fun _ => ?_⟩
      have hsame : OnWatch deps ⟨{ r.ctx with aborted := true }, r.upstreamTimeoutMs⟩ := by
        intro f hf
        have hguards : Guards r f := ⟨hf.silent, hf.armed, hf.scope⟩
        have hbeats := h f hguards
        exact .of_first hf (hapart.rewrites hguards) hbeats.due hbeats.before
          fun _ hlive => by cases hlive
      exact onWatch_abort hsame hafter fun _ _ _ _ _ _ hlive => by cases hlive
    | ttftTimeout =>
      refine ⟨fun _ => trivial, fun _ => ?_⟩
      have hdefinition : r.step deps .ttftTimeout = ⟨r.ctx.ttftTimeout, r.upstreamTimeoutMs⟩ := rfl
      rw [hdefinition] at hafter ⊢
      unfold ttftTimeout at hafter ⊢
      split
      · rename_i hdue
        rw [if_pos hdue] at hafter
        have hsame : OnWatch deps ⟨{ r.ctx with ttftTimer := none, ttftAborted := true },
            r.upstreamTimeoutMs⟩ := by
          intro f hf
          have hguards : Guards r f := ⟨hf.silent, hf.armed, hf.scope⟩
          exact .of_first hf (hapart.rewrites hguards) (.inl rfl) (h f hguards).before
            fun _ _ => rfl
        exact onWatch_abort hsame hafter fun _ _ _ _ _ _ _ => rfl
      · exact h
    | upstreamTimeout id =>
      refine ⟨fun _ => trivial, fun _ => ?_⟩
      have hdefinition : r.step deps (.upstreamTimeout id) =
        ⟨r.ctx.upstreamTimeout id, r.upstreamTimeoutMs⟩ := rfl
      rw [hdefinition] at hafter ⊢
      unfold upstreamTimeout at hafter ⊢
      split
      · rename_i hdue
        rw [if_pos hdue] at hafter
        refine onWatch_abort h hafter fun i f _ hfetch hguards hid _ => ?_
        have hid : i = id := by simpa using hid
        subst hid
        -- the timer would be due before the timeout
        rcases (h f hguards).due with hfired | ⟨due, htimer, hle⟩
        · exact hfired
        · rw [hfetch] at hdue
          simp only [Option.any_some, dueFirst, Bool.and_eq_true, List.all_eq_true,
            decide_eq_true_eq] at hdue
          have hfirst := hdue.2.2 due (by simp [timers, htimer])
          have hbefore := (h f hguards).before
          linarith
      · exact h
    | _ => exact absurd rfl he

theorem onWatch_init (config : ProxyConfig) (now : ℚ) (aborted : Bool) :
    OnWatch deps (init config now aborted) :=
  onWatch_of_heard (silentFetch_of_awaited rfl)

/-- **When the watchdog beats the absolute timeout.** In every state of a
run each silent attempt under the watchdog is aborted, or due to be, a second
before its absolute timeout, no signal but the client's comes first, and its
end enters the ladder and is no upstream timeout; if and only if every status
answer and every attempt of the run is in time. -/
theorem watchdog_beats_timeout_iff (deps : ProxyDeps) (config : ProxyConfig) (now : ℚ)
    (aborted : Bool) (steps : List Step) :
    (∀ pre, pre <+: steps → ∀ f, Guards (run (step deps) (init config now aborted) pre) f →
      Beats deps (run (step deps) (init config now aborted) pre) f) ↔
      StepsMeet (step deps) (InTime deps) (init config now aborted) steps :=
  throughout_iff_stepsMeet_of_aux (I := OnWatch deps) (J := Apart)
    (fun _ e _ hapart h => onWatch_step hapart h e) (fun _ e _ hapart _ _ => apart_step deps hapart e)
    (fun _ => silentFetch_of_awaited rfl) (onWatch_init config now aborted)

/-- A minute for the upstream, and the watchdog within it. -/
def oneMinute : ProxyConfig where
  upstreamTimeoutMs := 60000
  experimentTtftWatchdog := true
  ttftTimeoutMs := 50000
  ttftRetryMaxAttempts := .fin 3
  ttftRetryGateSaturationPct := 80
  ttftRetryCooldownMs := 5000
  ttftWatchdogMultiplier := .fin 5
  ttftWatchdogHardCapMs := .fin 59000
  experimentRewriteIds := true

def statusDeps : ProxyDeps := ⟨false, false, 1, true⟩

/-- A status answer after three seconds: the stalled attempt is reported as
an upstream timeout. -/
theorem late_answer_loses :
    let r := run (step statusDeps) (init oneMinute 0 false)
      [.acquired, .attempt false, .tick 3000, .status (.fin 20000)]
    let f : Fetch := ⟨0, 60000, some 1, false, false⟩
    Guards r f ∧ ¬ Beats statusDeps r f ∧
      (run (step statusDeps) r
        [.tick 57000, .upstreamTimeout 0, .fetchRejects .TimeoutError none]).ctx.updates =
          [⟨504, some .upstreamTimeout, 0, false⟩] := by
  let waiting := run (step statusDeps) (init oneMinute 0 false)
    [.acquired, .attempt false, .tick 3000]
  have hproduct : (Num.fin 20000).mulD (.fin 5) = .fin 100000 := by
    have hexact := toDouble_exact (n := 100000) (by norm_num) (by norm_num)
    norm_num [Num.mulD]
    exact_mod_cast hexact
  have hthreshold : waiting.ctx.dynamicThreshold (.fin 20000) = .fin 59000 := by
    show ((Num.fin 20000).mulD (.fin 5)).min _ = _
    rw [hproduct]
    decide +kernel
  have hanswer : waiting.step statusDeps (.status (.fin 20000)) = ⟨{ waiting.ctx with
      statusPending := false
      currentThreshold := some (.fin 59000)
      ttftTimer := some (waiting.ctx.now + setTimeoutDelay (.fin 59000)) }, 60000⟩ :=
    congrArg (WatchdogRun.mk · _)
      (statusResolves_fin (by decide +kernel) (by decide +kernel) hthreshold)
  show Guards (waiting.step statusDeps (.status (.fin 20000))) _ ∧
    ¬ Beats _ (waiting.step statusDeps (.status (.fin 20000))) _ ∧
      (run (step statusDeps) (waiting.step statusDeps (.status (.fin 20000))) _).ctx.updates = _
  rw [hanswer]
  refine ⟨⟨by decide +kernel, by decide +kernel, by decide +kernel⟩, fun h => ?_, by decide +kernel⟩
  rcases h.due with hfired | ⟨due, hdue, hle⟩
  · revert hfired
    decide +kernel
  · obtain rfl := Option.some.inj hdue
    revert hle
    decide +kernel

end WatchdogRun

end UmansGate.Proxy
