/-
UmansGate.Proxy.LadderTheorems — the rungs of the retry ladder.

An attempt that times out either answers 504 or goes up one rung (`Fails`);
nothing else moves the attempt number, and only the top of the loop starts an
attempt. The ladder has three rungs, with retry attempts 0, 1 and 2, but
`decideRetry` stops at the configured maximum and has a rule of its own for
the second rung only: behind the third one it goes back to retry attempt 1
when the maximum is greater than 3, and the first attempt is made whatever
the maximum is (`Fits`).
-/
import Mathlib.Tactic.Linarith
import UmansGate.Config.Loader
import UmansGate.Proxy.PermitTheorems

namespace UmansGate.Proxy

open UmansGate.Lib UmansGate.Limiter

/-- The next attempt has not started. -/
def Phase.starting : Phase → Bool
  | .arriving => true
  | .ready => true
  | .cooldown _ => true
  | _ => false

/-- An attempt has started, and the request is not over. -/
def Phase.underWay : Phase → Bool
  | .arriving => false
  | .ready => false
  | .cooldown _ => false
  | .returned => false
  | _ => true

/-- A request with the retry attempts of its attempts, in their order. -/
structure LadderRun where
  ctx : ProxyContext
  rungs : List ℕ

namespace LadderRun

def init (config : ProxyConfig) (now : ℚ) (aborted : Bool) : LadderRun :=
  ⟨.new config now aborted, []⟩

/-- The top of the attempt loop notes the retry attempt. -/
def step (deps : ProxyDeps) (r : LadderRun) (e : Step) : LadderRun where
  ctx := r.ctx.step deps e
  rungs := match e with
    | .attempt _ => if r.ctx.phase = .ready then r.rungs ++ [r.ctx.retryAttempt] else r.rungs
    | _ => r.rungs

end LadderRun

/-- The maximum fits the ladder: it allows the first attempt, and with the
watchdog on it is 1 or at least 2, and at most 3 if the third rung can be
reached. -/
structure Fits (deps : ProxyDeps) (config : ProxyConfig) : Prop where
  first : Num.le (.fin 1) config.ttftRetryMaxAttempts = true
  second : config.experimentTtftWatchdog = true →
    Num.le config.ttftRetryMaxAttempts (.fin 1) = true ∨
      Num.le (.fin 2) config.ttftRetryMaxAttempts = true
  third : config.experimentTtftWatchdog = true → ProxyContext.hasRewriteSession deps = true →
    Num.le config.ttftRetryMaxAttempts (.fin 3) = true

/-- The place on the ladder. -/
structure Place where
  attempt : ℕ
  retryAttempt : ℕ
  config : ProxyConfig
  ttftArmed : Bool

def ProxyContext.place (s : ProxyContext) : Place :=
  ⟨s.attempt, s.retryAttempt, s.config, s.ttftArmed⟩

/-- The place stays, and no attempt is due or under way that was not. -/
structure Stays (s t : ProxyContext) : Prop where
  place : t.place = s.place
  starting : t.phase.starting = true → s.phase.starting = true
  underWay : t.phase.underWay = true → s.phase.underWay = true
  arriving : t.phase = .arriving → s.phase = .arriving

/-- The next rung. -/
structure Climbs (deps : ProxyDeps) (p : Place) (t : ProxyContext) : Prop where
  armed : p.ttftArmed = true
  below : p.config.ttftRetryMaxAttempts.le (.fin p.attempt) = false
  third : p.attempt = 2 → ProxyContext.hasRewriteSession deps = true ∧
    p.config.ttftRetryMaxAttempts.lt (.fin 3) = false
  place : t.place = ⟨p.attempt + 1, if p.attempt = 2 then 2 else 1, p.config, p.ttftArmed⟩

/-- How an attempt without a response ends. -/
inductive Fails (deps : ProxyDeps) (p : Place) (t : ProxyContext) : Prop
  | returns (place : t.place = p) (phase : t.phase = .returned)
  | climbs (h : Climbs deps p t) (resting : t.phase.Resting)

namespace Stays

variable {s t : ProxyContext}

theorem rfl' (s : ProxyContext) : Stays s s := ⟨rfl, id, id, id⟩

theorem of_eq (h : t.place = s.place) (hp : t.phase = s.phase) : Stays s t :=
  ⟨h, fun ht => by rwa [hp] at ht, fun ht => by rwa [hp] at ht, fun ht => by rwa [hp] at ht⟩

theorem of_underWay (h : t.place = s.place) (hs : s.phase.underWay = true)
    (hp : t.phase.starting = false) : Stays s t :=
  ⟨h, fun ht => absurd ht (by simp [hp]), fun _ => hs, fun ht => by simp [ht, Phase.starting] at hp⟩

theorem of_returned (h : t.place = s.place) (hp : t.phase = .returned) : Stays s t :=
  ⟨h, fun ht => by simp [hp, Phase.starting] at ht, fun ht => by simp [hp, Phase.underWay] at ht,
    fun ht => by simp [hp] at ht⟩

end Stays

namespace ProxyContext

variable {deps : ProxyDeps} {s t : ProxyContext} {source : Source} {upstream : Upstream}

theorem respondWith_place (s : ProxyContext) (status : ℕ) (reason : Option GateReason) :
    (s.respondWith status reason).place = s.place ∧
      (s.respondWith status reason).phase = .returned := by
  obtain ⟨_, _, _, _, heq⟩ := respondWith_eq s status reason
  rw [heq]
  exact ⟨rfl, rfl⟩

theorem queueTtftTimeout_fails {p : Place} (h : s.place = p) (status : ℕ) (reason : GateReason) :
    Fails deps p (s.queueTtftTimeout status reason) :=
  .returns ((respondWith_place s status (some reason)).1.trans h)
    (respondWith_place s status (some reason)).2

/-- A retry is below the maximum, and one to the third rung has its
session. -/
theorem decideRetry_retry {stats : Option GateStats} (h : s.decideRetry deps stats = .retry) :
    s.config.ttftRetryMaxAttempts.le (.fin s.attempt) = false ∧
      (s.attempt = 2 → s.isRewriteEligible deps = true) := by
  unfold decideRetry at h
  split at h
  · cases h
  · split at h
    · cases h
    · split at h
      · cases h
      · split at h
        · cases h
        · rename_i hmax
          split at h
          · cases h
          · rename_i hrung
            refine ⟨by simpa using hmax, fun htwo => ?_⟩
            by_contra hnot
            exact hrung ⟨htwo, hnot⟩

theorem isRewriteEligible_iff : s.isRewriteEligible deps = true ↔
    hasRewriteSession deps = true ∧ s.config.ttftRetryMaxAttempts.lt (.fin 3) = false := by
  simp only [isRewriteEligible, hasRewriteSession, Bool.and_eq_true, Bool.not_eq_true',
    decide_eq_true_eq]
  constructor
  · rintro ⟨⟨⟨hexperiment, hbody⟩, hmax⟩, heligible⟩
    exact ⟨⟨⟨hexperiment, hbody⟩, heligible⟩, hmax⟩
  · rintro ⟨⟨⟨hexperiment, hbody⟩, heligible⟩, hmax⟩
    exact ⟨⟨⟨hexperiment, hbody⟩, hmax⟩, heligible⟩

theorem ttftCooldown_resting (s : ProxyContext) :
    s.ttftCooldown.place = s.place ∧ s.ttftCooldown.phase.Resting := by
  unfold ttftCooldown
  split
  · exact ⟨rfl, .inl rfl⟩
  · exact ⟨rfl, .inr ⟨_, rfl⟩⟩

theorem handleTtftTimeout_fails (harmed : s.ttftArmed = true) (stats : Option GateStats) :
    Fails deps s.place (s.handleTtftTimeout deps stats) := by
  have hdecided : ∀ t : ProxyContext, t.ttftArmed = true → ∀ reason,
      Fails deps t.place (if t.decideRetry deps stats = .retry then
          (if t.attempt = 2 ∧ t.isRewriteEligible deps then
            { t with
              attempt := t.attempt + 1, retryAttempt := 2, pendingRewriteEscalation := true }
          else { t with attempt := t.attempt + 1, retryAttempt := 1 }).ttftCooldown
        else t.queueTtftTimeout 504 reason) := by
    intro t harmed reason
    split
    · rename_i hretry
      obtain ⟨hbelow, hrung⟩ := decideRetry_retry hretry
      have hthird : t.attempt = 2 → hasRewriteSession deps = true ∧
          t.config.ttftRetryMaxAttempts.lt (.fin 3) = false :=
        fun htwo => isRewriteEligible_iff.mp (hrung htwo)
      split
      · rename_i htwo
        obtain ⟨hcooldown, hresting⟩ := ttftCooldown_resting { t with
          attempt := t.attempt + 1, retryAttempt := 2, pendingRewriteEscalation := true }
        refine .climbs ⟨harmed, hbelow, hthird, hcooldown.trans ?_⟩ hresting
        simp [place, htwo.1]
      · rename_i htwo
        obtain ⟨hcooldown, hresting⟩ := ttftCooldown_resting { t with
          attempt := t.attempt + 1, retryAttempt := 1 }
        refine .climbs ⟨harmed, hbelow, hthird, hcooldown.trans ?_⟩ hresting
        have hnot : t.attempt ≠ 2 := fun h => htwo ⟨h, hrung h⟩
        simp [place, hnot]
    · exact queueTtftTimeout_fails (by rfl) _ _
  exact hdecided { s with ttftFired := true } harmed _

theorem upstreamFailed_fails (clientReason : GateReason) (err : FetchError)
    (stats : Option GateStats) :
    Fails deps s.place (s.upstreamFailed deps clientReason err stats) := by
  unfold upstreamFailed
  simp only []
  split
  · exact queueTtftTimeout_fails (by rfl) _ _
  · split
    · rename_i hladder
      rw [Bool.and_eq_true] at hladder
      exact handleTtftTimeout_fails (s := { s with ttftTimer := none }) hladder.2 stats
    · split
      · exact queueTtftTimeout_fails (by rfl) _ _
      · exact queueTtftTimeout_fails (by rfl) _ _

theorem escalationFailed_place (s : ProxyContext) :
    s.escalationFailed.place = s.place ∧ s.escalationFailed.phase = .returned := by
  unfold escalationFailed
  simp only []
  split
  · exact respondWith_place _ _ _
  · split
    · exact respondWith_place _ _ _
    · exact respondWith_place _ _ _

theorem endBody_place (s : ProxyContext) (source : Source) : (s.endBody source).place = s.place := by
  cases source with
  | fetched id => rfl
  | errorText signal => rfl

/-- A response leaves the place, and no attempt is due behind it. -/
theorem respond_stays (s : ProxyContext) (source : Source) (upstream : Upstream) :
    (s.respond source upstream).place = s.place ∧
      (s.respond source upstream).phase.starting = false := by
  unfold respond
  simp only []
  split
  · obtain ⟨_, _, _, _, _, heq⟩ := listenAbort_eq { s with
      reports := s.reports ++ s.pendingRecord.toList, flushCaptureRef := some upstream } source
      upstream
    rw [heq]
    exact ⟨rfl, rfl⟩
  · obtain ⟨hplace, hphase⟩ := respondWith_place (({ s with
      reports := s.reports ++ s.pendingRecord.toList } : ProxyContext).endBody source)
      upstream.status none
    exact ⟨hplace.trans (endBody_place _ _), by rw [hphase]; rfl⟩

theorem upstreamArrived_stays (s : ProxyContext) (source : Source) (upstream : Upstream) :
    (s.upstreamArrived source upstream).place = s.place ∧
      (s.upstreamArrived source upstream).phase.starting = false := by
  unfold upstreamArrived
  split
  · exact ⟨rfl, rfl⟩
  · exact respond_stays _ _ _

variable (deps) in
theorem classify_stays (s : ProxyContext) (id : ℕ) (upstream : Upstream) :
    (s.classify deps id upstream).place = s.place ∧
      (s.classify deps id upstream).phase.starting = false := by
  have hend : ∀ t : ProxyContext, t.place = s.place →
      let r := if t.config.experimentRewriteIds ∧ deps.rewriteExperiment ∧
          (upstream.status = 502 ∨ upstream.status = 529) ∧ deps.reqBytes ≠ 0 then
          { t with phase := .errorBody id upstream }
        else t.upstreamArrived (.fetched id) upstream
      r.place = s.place ∧ r.phase.starting = false := by
    intro t ht
    simp only []
    split
    · exact ⟨ht, rfl⟩
    · exact ⟨(upstreamArrived_stays _ _ _).1.trans ht, (upstreamArrived_stays _ _ _).2⟩
  unfold classify
  simp only []
  split
  · exact hend _ rfl
  · split
    · exact hend _ rfl
    · exact hend _ rfl

variable (deps) in
theorem rewriteOverloaded_stays (s : ProxyContext) (id : ℕ) (upstream : Upstream)
    (overloaded rewritten : Bool) :
    (s.rewriteOverloaded deps id upstream overloaded rewritten).place = s.place ∧
      (s.rewriteOverloaded deps id upstream overloaded rewritten).phase.starting = false := by
  unfold rewriteOverloaded
  simp only []
  split
  · split
    · obtain ⟨hplace, hphase⟩ := respondWith_place (s.endFetch id) 500 (some .internalError)
      exact ⟨hplace, by rw [internalError, hphase]; rfl⟩
    · exact ⟨rfl, rfl⟩
  · exact upstreamArrived_stays _ _ _

theorem abort_stays (s : ProxyContext) (p : ℕ → Fetch → Bool) :
    (s.abort p).place = s.place ∧ (s.abort p).phase = s.phase := by
  unfold abort
  simp only []
  split
  · split
    · obtain ⟨_, _, _, _, _, heq⟩ := onAbort_eq (s.fireSignal p) ‹Upstream›
      rw [heq]
      exact ⟨rfl, rfl⟩
    · exact ⟨rfl, rfl⟩
  · exact ⟨rfl, rfl⟩

variable (deps) in
/-- The top of the loop: the attempt is under way at its place, or over. -/
theorem startAttempt_place (s : ProxyContext) (rewritten : Bool) :
    ((s.startAttempt deps rewritten).place = s.place ∧
      (s.startAttempt deps rewritten).phase.starting = false) ∨
    Fails deps s.place (s.startAttempt deps rewritten) := by
  have harm : (s.armTtft deps).place = s.place := by
    unfold armTtft
    simp only []
    split
    · rfl
    · rfl
  unfold startAttempt
  simp only []
  split
  · unfold attemptEscalation
    simp only []
    split
    · split
      · right
        obtain ⟨hplace, hphase⟩ := escalationFailed_place
          { s.armTtft deps with pendingRewriteEscalation := false }
        exact .returns (hplace.trans harm) hphase
      · exact .inl ⟨harm, rfl⟩
    · right
      obtain ⟨hplace, hphase⟩ := respondWith_place
        { s.armTtft deps with pendingRewriteEscalation := false } 504
        (some (.ttftExceeded none))
      exact .returns (hplace.trans harm) hphase
  · unfold attemptFetch
    split
    · rw [← harm]
      exact .inr (upstreamFailed_fails _ _ _)
    · exact .inl ⟨harm, rfl⟩

/-- What a step does to the place: it stays, the first attempt becomes due,
the top of the loop is taken, or an attempt under way fails. -/
inductive StepPlace (deps : ProxyDeps) (s : ProxyContext) (e : Step) (t : ProxyContext) : Prop
  | stays (h : Stays s t)
  | acquires (phase : s.phase = .arriving)
      (place : t.place = ⟨1, s.retryAttempt, s.config, s.config.experimentTtftWatchdog⟩)
      (ready : t.phase = .ready)
  | fails (underWay : s.phase.underWay = true) (h : Fails deps s.place t)

variable (deps) in
theorem step_place (s : ProxyContext) (e : Step) (hattempt : ∀ rewritten, e ≠ .attempt rewritten)
    (hreload : ∀ config, e ≠ .reload config) : StepPlace deps s e (s.step deps e) := by
  cases e with
  | tick ms =>
    simp only [step]
    split
    · exact .stays (.of_eq rfl rfl)
    · exact .stays (.rfl' s)
  | reload config => exact absurd rfl (hreload config)
  | attempt rewritten => exact absurd rfl (hattempt rewritten)
  | clientAbort =>
    obtain ⟨hplace, hphase⟩ := abort_stays { s with aborted := true } fun _ _ => true
    exact .stays (.of_eq hplace hphase)
  | rateLimited retryAfter =>
    simp only [step]
    split
    · obtain ⟨hplace, hphase⟩ := respondWith_place s 503 (some (.rateLimited retryAfter))
      exact .stays (.of_returned hplace hphase)
    · exact .stays (.rfl' s)
  | gateRejects code =>
    simp only [step]
    split
    · obtain ⟨hplace, hphase⟩ := respondWith_place s (gateStatus code) (some (.gateRejected code))
      exact .stays (.of_returned hplace hphase)
    · exact .stays (.rfl' s)
  | acquired =>
    simp only [step]
    split
    · rename_i harriving
      exact .acquires harriving rfl rfl
    · exact .stays (.rfl' s)
  | fetchResolves response =>
    simp only [step, fetchResolves]
    split
    · rename_i id hphase
      split
      · obtain ⟨hplace, hstarting⟩ := classify_stays deps s id response
        exact .stays (.of_underWay hplace (by rw [hphase]; rfl) hstarting)
      · exact .stays (.rfl' s)
    · rename_i id hphase
      split
      · obtain ⟨hplace, hstarting⟩ := upstreamArrived_stays s (.fetched id) response
        exact .stays (.of_underWay hplace (by rw [hphase]; rfl) hstarting)
      · exact .stays (.rfl' s)
    · rename_i id first upstream hphase
      split
      · obtain ⟨hplace, hstarting⟩ := upstreamArrived_stays s (.fetched id) response
        exact .stays (.of_underWay hplace (by rw [hphase]; rfl) hstarting)
      · exact .stays (.rfl' s)
    · exact .stays (.rfl' s)
  | fetchRejects err stats =>
    simp only [step, fetchRejects]
    split
    · rename_i id hphase
      exact .fails (by rw [hphase]; rfl)
        (upstreamFailed_fails (s := s.endFetch id) _ _ _)
    · rename_i id hphase
      obtain ⟨hplace, hreturned⟩ := escalationFailed_place (s.endFetch id)
      exact .stays (.of_returned hplace hreturned)
    · rename_i id first upstream hphase
      obtain ⟨hplace, hstarting⟩ := upstreamArrived_stays (s.endFetch id) (.errorText first) upstream
      exact .stays (.of_underWay hplace (by rw [hphase]; rfl) hstarting)
    · exact .stays (.rfl' s)
  | auditThrows =>
    simp only [step, auditThrows]
    split
    · split
      · obtain ⟨hplace, hreturned⟩ := escalationFailed_place s
        exact .stays (.of_returned hplace hreturned)
      · exact .stays (.rfl' s)
    · rename_i id first upstream hphase
      split
      · obtain ⟨hplace, hstarting⟩ := upstreamArrived_stays s (.errorText first) upstream
        exact .stays (.of_underWay hplace (by rw [hphase]; rfl) hstarting)
      · exact .stays (.rfl' s)
    · exact .stays (.rfl' s)
  | errorBody overloaded rewritten =>
    simp only [step, errorBody]
    split
    · rename_i id upstream hphase
      split
      · obtain ⟨hplace, hstarting⟩ :=
          rewriteOverloaded_stays deps s id upstream overloaded rewritten
        exact .stays (.of_underWay hplace (by rw [hphase]; rfl) hstarting)
      · exact .stays (.rfl' s)
    · exact .stays (.rfl' s)
  | errorBodyRejects =>
    simp only [step, errorBodyRejects]
    split
    · rename_i id upstream hphase
      obtain ⟨hplace, hreturned⟩ := respondWith_place (s.endFetch id) 500 (some .internalError)
      exact .stays (.of_returned hplace hreturned)
    · exact .stays (.rfl' s)
  | firstChunk done =>
    simp only [step, firstChunk]
    split
    · rename_i source upstream hphase
      split
      · obtain ⟨hplace, hstarting⟩ := respond_stays
          (if done then ({ s with ttftTimer := none } : ProxyContext).endBody source
            else { s with ttftTimer := none }) source upstream
        refine .stays (.of_underWay (hplace.trans ?_) (by rw [hphase]; rfl) hstarting)
        split
        · exact endBody_place _ _
        · rfl
      · exact .stays (.rfl' s)
    · exact .stays (.rfl' s)
  | readRejects err stats =>
    simp only [step, readRejects]
    split
    · rename_i id upstream hphase
      exact .fails (by rw [hphase]; rfl)
        (upstreamFailed_fails (s := s.endFetch id) _ _ _)
    · exact .stays (.rfl' s)
  | status modelP50 =>
    simp only [step, statusResolves]
    split
    · split
      · split
        · exact .stays (.of_eq rfl rfl)
        · exact .stays (.of_eq rfl rfl)
      · exact .stays (.of_eq rfl rfl)
    · exact .stays (.rfl' s)
  | ttftTimeout =>
    simp only [step, ttftTimeout]
    split
    · obtain ⟨hplace, hphase⟩ := abort_stays { s with ttftTimer := none, ttftAborted := true }
        fun _ f => f.controller = some s.attempt
      exact .stays (.of_eq hplace hphase)
    · exact .stays (.rfl' s)
  | cooldownOver =>
    simp only [step, cooldownOver]
    split
    · rename_i due hphase
      split
      · exact .stays ⟨rfl, fun _ => by rw [hphase]; rfl, fun ht => (by cases ht),
          fun ht => (by cases ht)⟩
      · exact .stays (.rfl' s)
    · exact .stays (.rfl' s)
  | upstreamTimeout id =>
    simp only [step, upstreamTimeout]
    split
    · obtain ⟨hplace, hphase⟩ := abort_stays s fun i _ => i = id
      exact .stays (.of_eq hplace hphase)
    · exact .stays (.rfl' s)
  | watchdogTimeout =>
    simp only [step, watchdogTimeout]
    split
    · cases hflush : s.flushCaptureRef with
      | none =>
        obtain ⟨_, _, _, heq⟩ := releasePermit_eq { s with
          watchdogTimer := none, watchdogFired := true }
        rw [hflush] at heq
        simp only [heq]
        exact .stays (.of_eq rfl rfl)
      | some upstream =>
        obtain ⟨_, _, _, _, _, heq⟩ := flushRelease_eq { s with
          watchdogTimer := none, watchdogFired := true } upstream
        rw [hflush] at heq
        simp only [heq]
        exact .stays (.of_eq rfl rfl)
    · exact .stays (.rfl' s)
  | throws =>
    simp only [step, throws]
    split
    · exact .stays (.rfl' s)
    · exact .stays (.rfl' s)
    · exact .stays (.rfl' s)
    · obtain ⟨hplace, hreturned⟩ := respondWith_place s 500 (some .internalError)
      exact .stays (.of_returned hplace hreturned)
  | bodyEnd =>
    simp only [step, bodyEnd]
    split
    · rename_i source upstream hphase
      split
      · exact .stays (.of_underWay (endBody_place _ _) (by rw [hphase]; rfl) rfl)
      · exact .stays (.rfl' s)
    · exact .stays (.rfl' s)
  | bodyError =>
    simp only [step, bodyError]
    split
    · rename_i id upstream hphase
      split
      · exact .stays (.rfl' s)
      · exact .stays (.of_underWay rfl (by rw [hphase]; rfl) rfl)
    · exact .stays (.rfl' s)
  | cancel =>
    simp only [step, cancel]
    split
    · rename_i source upstream stream hphase
      split
      · exact .stays (.of_underWay (endBody_place _ _) (by rw [hphase]; rfl) rfl)
      · exact .stays (.rfl' s)
    · exact .stays (.rfl' s)
  | flush =>
    simp only [step, flush]
    split
    · rename_i source upstream hphase
      obtain ⟨_, _, _, _, _, heq⟩ := flushRelease_eq s upstream
      rw [heq]
      exact .stays (.of_underWay rfl (by rw [hphase]; rfl) rfl)
    · exact .stays (.rfl' s)

end ProxyContext

/-! ## The ladder -/

namespace LadderRun

open ProxyContext

variable {deps : ProxyDeps} {config : ProxyConfig} {r : LadderRun}

/-- Where a request stands on a ladder that fits. -/
structure OnLadder (deps : ProxyDeps) (config : ProxyConfig) (r : LadderRun) : Prop where
  settings : r.ctx.config = config
  armed : r.ctx.ttftArmed = true → config.experimentTtftWatchdog = true
  rung : r.ctx.attempt = r.ctx.retryAttempt + 1
  within : Num.le (.fin (r.ctx.attempt : ℚ)) config.ttftRetryMaxAttempts = true
  bound : r.ctx.attempt ≤ 3
  third : r.ctx.attempt = 3 → config.experimentTtftWatchdog = true ∧
    hasRewriteSession deps = true
  first : r.ctx.phase = .arriving → r.ctx.attempt = 1
  made : r.rungs <+: List.range r.ctx.attempt
  due : r.ctx.phase.starting = true → r.rungs = List.range r.ctx.retryAttempt
  underWay : r.ctx.phase.underWay = true → r.rungs = List.range r.ctx.attempt

theorem onLadder_init (hfits : Fits deps config) (now : ℚ) (aborted : Bool) :
    OnLadder deps config (init config now aborted) where
  settings := rfl
  armed := fun h => absurd h (by simp [init, new])
  rung := rfl
  within := by simpa [init, new] using hfits.first
  bound := by simp [init, new]
  third := fun h => absurd h (by simp [init, new])
  first := fun _ => rfl
  made := List.nil_prefix
  due := fun _ => rfl
  underWay := fun h => absurd h (by simp [init, new, Phase.underWay])

/-- The place as the ladder has it. -/
theorem OnLadder.of_place {t : ProxyContext} {rungs : List ℕ} (h : OnLadder deps config r)
    (hplace : t.place = r.ctx.place) (hmade : rungs <+: List.range r.ctx.attempt)
    (hdue : t.phase.starting = true → rungs = List.range r.ctx.retryAttempt)
    (hunderWay : t.phase.underWay = true → rungs = List.range r.ctx.attempt)
    (hfirst : t.phase = .arriving → r.ctx.attempt = 1) : OnLadder deps config ⟨t, rungs⟩ := by
  have hattempt : t.attempt = r.ctx.attempt := congrArg Place.attempt hplace
  have hretry : t.retryAttempt = r.ctx.retryAttempt := congrArg Place.retryAttempt hplace
  have hconfig : t.config = r.ctx.config := congrArg Place.config hplace
  have harmed : t.ttftArmed = r.ctx.ttftArmed := congrArg Place.ttftArmed hplace
  constructor
  · exact hconfig.trans h.settings
  · simpa only [harmed] using h.armed
  · simpa only [hattempt, hretry] using h.rung
  · simpa only [hattempt] using h.within
  · simpa only [hattempt] using h.bound
  · simpa only [hattempt] using h.third
  · simpa only [hattempt] using hfirst
  · simpa only [hattempt] using hmade
  · simpa only [hretry] using hdue
  · simpa only [hattempt] using hunderWay

/-- A rung above the first two attempts is one the ladder has. -/
theorem climbs_fits {p : Place} {t : ProxyContext} (h : Climbs deps p t)
    (hfits : Fits deps p.config) (hwatchdog : p.config.experimentTtftWatchdog = true)
    (hattempt : p.attempt = 1 ∨ p.attempt = 2 ∨
      p.attempt = 3 ∧ hasRewriteSession deps = true) :
    p.attempt ≤ 2 ∧
      Num.le (.fin ((p.attempt + 1 : ℕ) : ℚ)) p.config.ttftRetryMaxAttempts = true := by
  have hbelow := h.below
  have hfirst := hfits.first
  rcases hattempt with hone | htwo | ⟨hthree, hsession⟩
  · refine ⟨by omega, ?_⟩
    rw [hone] at hbelow ⊢
    rcases hfits.second hwatchdog with hle | hle
    · rw [Nat.cast_one, hle] at hbelow
      cases hbelow
    · simpa using hle
  · refine ⟨by omega, ?_⟩
    obtain ⟨-, hthird⟩ := h.third htwo
    rw [htwo]
    cases hmax : p.config.ttftRetryMaxAttempts with
    | nan => simp [hmax] at hfirst
    | negInf => simp [hmax, Num.le] at hfirst
    | posInf => rfl
    | fin q => simpa [hmax] using hthird
  · have hthird := hfits.third hwatchdog hsession
    rw [hthree] at hbelow
    rw [Nat.cast_ofNat, hthird] at hbelow
    cases hbelow

/-- A failed attempt leaves the ladder or goes up one rung of it. -/
theorem OnLadder.of_fails {t : ProxyContext} {rungs : List ℕ} (h : OnLadder deps config r)
    (hfits : Fits deps config) (hrungs : rungs = List.range r.ctx.attempt)
    (hfails : Fails deps r.ctx.place t) : OnLadder deps config ⟨t, rungs⟩ := by
  cases hfails with
  | returns hplace hphase =>
    exact h.of_place hplace (hrungs ▸ List.prefix_refl _)
      (fun hstarting => by simp [hphase, Phase.starting] at hstarting) (fun _ => hrungs)
      fun harriving => by simp [hphase] at harriving
  | climbs hclimbs hresting =>
    have harmed : r.ctx.ttftArmed = true := hclimbs.armed
    have hwatchdog := h.armed harmed
    have hsettings : r.ctx.place.config = config := h.settings
    have hrung : r.ctx.place.attempt = 1 ∨ r.ctx.place.attempt = 2 ∨
        r.ctx.place.attempt = 3 ∧ hasRewriteSession deps = true := by
      have hbound : r.ctx.place.attempt ≤ 3 := h.bound
      have hpos : 0 < r.ctx.place.attempt := by
        show 0 < r.ctx.attempt
        rw [h.rung]
        exact Nat.succ_pos _
      rcases Nat.lt_or_ge r.ctx.place.attempt 3 with hlt | hge
      · omega
      · exact .inr (.inr ⟨by omega, (h.third (by
          show r.ctx.place.attempt = 3
          omega)).2⟩)
    obtain ⟨hlow, hwithin⟩ := climbs_fits hclimbs (by rwa [hsettings]) (by rwa [hsettings]) hrung
    have hattempt : t.attempt = r.ctx.attempt + 1 := congrArg Place.attempt hclimbs.place
    have hretry : t.retryAttempt = if r.ctx.attempt = 2 then 2 else 1 :=
      congrArg Place.retryAttempt hclimbs.place
    have hrange : t.retryAttempt = r.ctx.attempt := by
      have hpos := h.rung
      have hlow : r.ctx.attempt ≤ 2 := hlow
      rw [hretry]
      split
      · omega
      · omega
    constructor
    · exact (congrArg Place.config hclimbs.place).trans h.settings
    · intro _
      exact hwatchdog
    · simp only [hattempt, hrange]
    · simp only [hattempt]
      rwa [hsettings] at hwithin
    · simp only [hattempt]
      have hlow : r.ctx.attempt ≤ 2 := hlow
      omega
    · intro hthree
      have htwo : r.ctx.place.attempt = 2 := by
        show r.ctx.attempt = 2
        simp only [hattempt] at hthree
        omega
      exact ⟨hwatchdog, (hclimbs.third htwo).1⟩
    · intro harriving
      rcases hresting with hready | ⟨due, hcooldown⟩
      · simp [hready] at harriving
      · simp [hcooldown] at harriving
    · simp only [hrungs, hattempt, List.range_succ]
      exact List.prefix_append _ _
    · intro _
      simp only [hrungs, hrange]
    · intro hunderWay
      rcases hresting with hready | ⟨due, hcooldown⟩
      · simp [hready, Phase.underWay] at hunderWay
      · simp [hcooldown, Phase.underWay] at hunderWay

/-- A step of a run without a reload keeps the ladder. -/
theorem onLadder_step (hfits : Fits deps config) {e : Step} (h : OnLadder deps config r)
    (hreload : ∀ config, e ≠ .reload config) : OnLadder deps config (r.step deps e) := by
  by_cases hattempt : ∃ rewritten, e = .attempt rewritten
  · obtain ⟨rewritten, rfl⟩ := hattempt
    by_cases hready : r.ctx.phase = .ready
    · have hnext : r.rungs ++ [r.ctx.retryAttempt] = List.range r.ctx.attempt := by
        rw [h.due (by rw [hready]; rfl), h.rung, List.range_succ]
      simp only [LadderRun.step, ProxyContext.step, if_pos hready]
      rcases startAttempt_place deps r.ctx rewritten with ⟨hplace, hphase⟩ | hfails
      · exact h.of_place hplace (hnext ▸ List.prefix_refl _)
          (fun hstarting => by simp [hphase] at hstarting) (fun _ => hnext)
          fun harriving => by simp [harriving, Phase.starting] at hphase
      · exact h.of_fails hfits hnext hfails
    · simp only [LadderRun.step, ProxyContext.step, if_neg hready]
      exact h
  · have hnot : ∀ rewritten, e ≠ .attempt rewritten := fun rewritten heq =>
      hattempt ⟨rewritten, heq⟩
    have hrungs : (r.step deps e).rungs = r.rungs := by
      cases e with
      | attempt rewritten => exact absurd rfl (hnot rewritten)
      | _ => rfl
    have hstep : r.step deps e = ⟨r.ctx.step deps e, r.rungs⟩ := by rw [← hrungs]; rfl
    rw [hstep]
    cases step_place deps r.ctx e hnot hreload with
    | stays hstays =>
      exact h.of_place hstays.place h.made (fun ht => h.due (hstays.starting ht))
        (fun ht => h.underWay (hstays.underWay ht)) fun ht => h.first (hstays.arriving ht)
    | acquires harriving hplace hready =>
      have hone := h.first harriving
      have hzero : r.ctx.retryAttempt = 0 := by
        have hrung := h.rung
        omega
      have hnone : r.rungs = [] := by
        rw [h.due (by rw [harriving]; rfl), hzero]
        rfl
      have hattempt : (r.ctx.step deps e).attempt = 1 := congrArg Place.attempt hplace
      have hretry : (r.ctx.step deps e).retryAttempt = 0 :=
        (congrArg Place.retryAttempt hplace).trans hzero
      constructor
      · exact (congrArg Place.config hplace).trans h.settings
      · intro harmed
        rw [← h.settings, ← harmed]
        exact (congrArg Place.ttftArmed hplace).symm
      · simp only [hattempt, hretry]
      · simpa [hattempt] using hfits.first
      · simp only [hattempt]
        omega
      · intro hthree
        simp [hattempt] at hthree
      · intro ht
        simp [hready] at ht
      · simp [hnone]
      · intro _
        simp [hnone, hretry]
      · intro ht
        simp [hready, Phase.underWay] at ht
    | fails hunderWay hfails => exact h.of_fails hfits (h.underWay hunderWay) hfails

theorem respondWith_updates (s : ProxyContext) (status : ℕ) (reason : Option GateReason) :
    (s.respondWith status reason).updates =
      s.updates ++ [⟨status, reason, s.retryAttempt, s.ttftFired⟩] := by
  unfold respondWith finish
  split
  · rfl
  · obtain ⟨_, _, _, heq⟩ := releasePermit_eq (s.queueUpdate status reason)
    rw [heq]
    rfl

/-- The ladder's final action: the last rung times out, and 504 is
answered. -/
theorem handleTtftTimeout_last {s : ProxyContext} (stats : Option GateStats)
    (h : s.config.ttftRetryMaxAttempts.le (.fin s.attempt) = true) :
    (s.handleTtftTimeout deps stats).phase = .returned ∧
      ∃ suppressed, (s.handleTtftTimeout deps stats).updates =
        s.updates ++ [⟨504, some (.ttftExceeded suppressed), s.retryAttempt, true⟩] := by
  have hdecision : ({ s with ttftFired := true } : ProxyContext).decideRetry deps stats ≠
      .retry := by
    intro hretry
    have hbelow := (decideRetry_retry hretry).1
    rw [h] at hbelow
    cases hbelow
  unfold handleTtftTimeout
  simp only [if_neg hdecision]
  exact ⟨(respondWith_place _ _ _).2, _, respondWith_updates _ _ _⟩

/-- **A ladder that fits is climbed once.** For every configuration whose
maximum fits the ladder and every run of the request: the attempts are made
with retry attempts 0, 1 and 2 in this order, each once, at most three and at
most as many as configured; and the last of them that can be made, the third
or the one the maximum allows, ends with the answer 504 when it times out. -/
theorem ladder_climbed_once {deps : ProxyDeps} {config : ProxyConfig} (hfits : Fits deps config)
    (now : ℚ) (aborted : Bool) {steps : List Step} (hreload : ∀ config, Step.reload config ∉ steps) :
    let r := run (step deps) (init config now aborted) steps
    r.rungs <+: [0, 1, 2] ∧
      Num.le (.fin (r.rungs.length : ℚ)) (Num.min config.ttftRetryMaxAttempts (.fin 3)) = true ∧
      ∀ stats, (r.ctx.attempt = 3 ∨
          config.ttftRetryMaxAttempts.le (.fin (r.ctx.attempt : ℚ)) = true) →
        (r.ctx.handleTtftTimeout deps stats).phase = .returned ∧
          ∃ suppressed, (r.ctx.handleTtftTimeout deps stats).updates = r.ctx.updates ++
            [⟨504, some (.ttftExceeded suppressed), r.ctx.retryAttempt, true⟩] := by
  intro r
  have hladder : OnLadder deps config r := by
    refine run_invariant_of_stepsMeet (P := fun _ e => ∀ config, e ≠ .reload config)
      (fun _ _ h he => onLadder_step hfits h he) (onLadder_init hfits now aborted) ?_
    exact StepsMeet.of_forall fun e he c heq => hreload c (heq ▸ he)
  have hlength : r.rungs.length ≤ r.ctx.attempt := by
    simpa using hladder.made.length_le
  refine ⟨?_, ?_, fun stats hlast => ?_⟩
  · obtain ⟨k, hk⟩ := Nat.exists_eq_add_of_le hladder.bound
    have hthree : List.range r.ctx.attempt <+: List.range 3 := by
      rw [hk, List.range_add]
      exact List.prefix_append _ _
    exact hladder.made.trans hthree
  · have hwithin := hladder.within
    have hmade : (r.rungs.length : ℚ) ≤ r.ctx.attempt := by exact_mod_cast hlength
    have hthree : (r.ctx.attempt : ℚ) ≤ 3 := by exact_mod_cast hladder.bound
    cases hmax : config.ttftRetryMaxAttempts with
    | nan => simp [hmax] at hwithin
    | negInf => simp [hmax, Num.le] at hwithin
    | posInf =>
      simp only [Num.min, Num.le, Bool.false_eq_true, if_false, decide_eq_true_eq]
      linarith
    | fin q =>
      simp only [hmax, Num.le_fin_fin, decide_eq_true_eq] at hwithin
      simp only [Num.min_fin_fin, Num.le_fin_fin, decide_eq_true_eq, le_min_iff]
      exact ⟨hmade.trans hwithin, hmade.trans hthree⟩
  · refine handleTtftTimeout_last stats ?_
    rw [hladder.settings]
    rcases hlast with hthree | hmax
    · obtain ⟨hwatchdog, hsession⟩ := hladder.third hthree
      rw [hthree]
      exact hfits.third hwatchdog hsession
    · exact hmax

/-- The default maximum. -/
theorem fits_default {deps : ProxyDeps} {config : ProxyConfig}
    (h : config.ttftRetryMaxAttempts = Config.ttftRetryMaxAttempts none fun _ => none) :
    Fits deps config := by
  have hthree : Config.ttftRetryMaxAttempts none (fun _ => none) = .fin 3 := rfl
  rw [hthree] at h
  constructor
  · simp [h]
  · intro _
    right
    rw [h, Num.le_fin_fin, decide_eq_true_eq]
    norm_num
  · intro _ _
    simp [h]

end LadderRun

/-- An upstream that answers with a stream, and may be asked three times. -/
def fourAttempts : ProxyConfig where
  upstreamTimeoutMs := 60000
  experimentTtftWatchdog := true
  ttftTimeoutMs := 1000
  ttftRetryMaxAttempts := Config.ttftRetryMaxAttempts (some (js "4")) fun _ => none
  ttftRetryGateSaturationPct := 100
  ttftRetryCooldownMs := 0
  ttftWatchdogMultiplier := .fin 2
  ttftWatchdogHardCapMs := .fin 1000
  experimentRewriteIds := true

def rewriteDeps : ProxyDeps := ⟨true, true, 1, false⟩

/-- Each attempt is given up after a second; the third one, with rewritten
ids, has got its headers by then. -/
def fallsBack : List Step :=
  [.acquired, .attempt false, .tick 1000, .ttftTimeout, .fetchRejects .AbortError none,
    .attempt false, .tick 1000, .ttftTimeout, .fetchRejects .AbortError none,
    .attempt true, .fetchResolves sseOk, .tick 1000, .ttftTimeout, .readRejects .AbortError none,
    .attempt false]

theorem ladder_climbed_once_default :
    (run (LadderRun.step rewriteDeps)
      (.init { fourAttempts with ttftRetryMaxAttempts := .fin 3 } 0 false) fallsBack).rungs <+:
        [0, 1, 2] :=
  (LadderRun.ladder_climbed_once (LadderRun.fits_default rfl : Fits rewriteDeps _) 0 false
    (by simp [fallsBack])).1

/-- With four attempts configured the ladder falls back to its second
rung. -/
theorem ladder_falls_back :
    (run (LadderRun.step rewriteDeps) (.init fourAttempts 0 false) fallsBack).rungs =
      [0, 1, 2, 1] := by
  decide +kernel

end UmansGate.Proxy
