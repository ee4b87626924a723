/-
UmansGate.Proxy.Outcomes — what the functions of `forwardUpstream` can do
to the permit, the capture and the fetches.

`Keeps s t` leaves them as they are. A failed attempt `Settles`: it waits
for the next attempt or returns a response. A response `Arrives`: its
first chunk is awaited or it is returned to the client. The theorems on
the permit and the capture are derived from these cases.
-/
import UmansGate.Proxy.Forward

namespace UmansGate.Proxy

open UmansGate.Limiter

/-- The part of the context that concerns the permit, the capture and the
fetches, without the phase. -/
structure Core where
  aborted : Bool
  permit : Bool
  permitReleased : Bool
  releases : ℕ
  watchdogTimer : Option ℚ
  watchdogFired : Bool
  streamingStarted : Bool
  flushCaptureRef : Option Upstream
  flushed : Bool
  updates : List CaptureUpdate
  fetches : List Fetch

def ProxyContext.core (s : ProxyContext) : Core :=
  ⟨s.aborted, s.permit, s.permitReleased, s.releases, s.watchdogTimer, s.watchdogFired,
    s.streamingStarted, s.flushCaptureRef, s.flushed, s.updates, s.fetches⟩

/-- The phase, the clock, the settings and the retry ladder aside, equal. -/
def Keeps (s t : ProxyContext) : Prop := t.core = s.core

namespace Keeps

variable {s t u : ProxyContext}

theorem trans (h : Keeps s t) (h' : Keeps t u) : Keeps s u := Eq.trans h' h

theorem aborted (h : Keeps s t) : t.aborted = s.aborted := congrArg Core.aborted h

theorem permit (h : Keeps s t) : t.permit = s.permit := congrArg Core.permit h

theorem permitReleased (h : Keeps s t) : t.permitReleased = s.permitReleased :=
  congrArg Core.permitReleased h

theorem releases (h : Keeps s t) : t.releases = s.releases := congrArg Core.releases h

theorem watchdogTimer (h : Keeps s t) : t.watchdogTimer = s.watchdogTimer :=
  congrArg Core.watchdogTimer h

theorem watchdogFired (h : Keeps s t) : t.watchdogFired = s.watchdogFired :=
  congrArg Core.watchdogFired h

theorem streamingStarted (h : Keeps s t) : t.streamingStarted = s.streamingStarted :=
  congrArg Core.streamingStarted h

theorem flushCaptureRef (h : Keeps s t) : t.flushCaptureRef = s.flushCaptureRef :=
  congrArg Core.flushCaptureRef h

theorem flushed (h : Keeps s t) : t.flushed = s.flushed := congrArg Core.flushed h

theorem updates (h : Keeps s t) : t.updates = s.updates := congrArg Core.updates h

theorem fetches (h : Keeps s t) : t.fetches = s.fetches := congrArg Core.fetches h

end Keeps

/-- No fetch is awaited and no stream is there. -/
def Phase.Resting (p : Phase) : Prop := p = .ready ∨ ∃ due, p = .cooldown due

/-- How a failed attempt ends. -/
inductive Settles (s : ProxyContext) : ProxyContext → Prop
  | waits {t : ProxyContext} (keeps : Keeps s t) (resting : t.phase.Resting) : Settles s t
  | returns {t : ProxyContext} (keeps : Keeps s t) (status : ℕ) (reason : Option GateReason) :
      Settles s (t.respondWith status reason)

/-- What becomes of a response. -/
inductive Arrives (source : Source) (upstream : Upstream) (s : ProxyContext) :
    ProxyContext → Prop
  | waits {t : ProxyContext} (keeps : Keeps s t) (phase : t.phase = .firstChunk source upstream) :
      Arrives source upstream s t
  | responds {t : ProxyContext} (keeps : Keeps s t) :
      Arrives source upstream s (t.respond source upstream)

theorem Settles.of_keeps {s t u : ProxyContext} (h : Keeps s t) (hs : Settles t u) :
    Settles s u := by
  cases hs with
  | waits keeps resting => exact .waits (h.trans keeps) resting
  | returns keeps status reason => exact .returns (h.trans keeps) status reason

theorem Settles.ttft {s t : ProxyContext} (h : Keeps s t) (status : ℕ) (reason : GateReason) :
    Settles s (t.queueTtftTimeout status reason) :=
  .returns h status (some reason)

theorem Arrives.of_keeps {s t u : ProxyContext} {source : Source} {upstream : Upstream}
    (h : Keeps s t) (hs : Arrives source upstream t u) : Arrives source upstream s u := by
  cases hs with
  | waits keeps phase => exact .waits (h.trans keeps) phase
  | responds keeps => exact .responds (h.trans keeps)

namespace ProxyContext

variable {deps : ProxyDeps} {s : ProxyContext}

theorem ttftCooldown_settles (s : ProxyContext) : Settles s s.ttftCooldown := by
  unfold ttftCooldown
  split
  · exact .waits (by rfl) (.inl rfl)
  · exact .waits (by rfl) (.inr ⟨_, rfl⟩)

theorem handleTtftTimeout_settles (stats : Option GateStats) :
    Settles s (s.handleTtftTimeout deps stats) := by
  unfold handleTtftTimeout
  simp only []
  split
  · split
    · exact Settles.of_keeps (by rfl) (ttftCooldown_settles _)
    · exact Settles.of_keeps (by rfl) (ttftCooldown_settles _)
  · exact Settles.ttft (by rfl) _ _

theorem upstreamFailed_settles (clientReason : GateReason) (err : FetchError)
    (stats : Option GateStats) : Settles s (s.upstreamFailed deps clientReason err stats) := by
  unfold upstreamFailed
  simp only []
  split
  · exact Settles.ttft (by rfl) _ _
  · split
    · exact Settles.of_keeps (by rfl) (handleTtftTimeout_settles stats)
    · split
      · exact Settles.ttft (by rfl) _ _
      · exact Settles.ttft (by rfl) _ _

theorem escalationFailed_settles (s : ProxyContext) : Settles s s.escalationFailed := by
  unfold escalationFailed
  simp only []
  split
  · exact Settles.ttft (by rfl) _ _
  · split
    · exact Settles.ttft (by rfl) _ _
    · exact Settles.ttft (by rfl) _ _

theorem upstreamArrived_arrives (source : Source) (upstream : Upstream) :
    Arrives source upstream s (s.upstreamArrived source upstream) := by
  unfold upstreamArrived
  split
  · exact .waits (by rfl) rfl
  · exact .responds (by rfl)

/-- A response arrives, or the text of its error is awaited. -/
theorem classify_cases (deps : ProxyDeps) (s : ProxyContext) (id : ℕ) (upstream : Upstream) :
    (Keeps s (s.classify deps id upstream) ∧
        (s.classify deps id upstream).phase = .errorBody id upstream) ∨
      Arrives (.fetched id) upstream s (s.classify deps id upstream) := by
  have hend : ∀ t : ProxyContext, Keeps s t →
      let r := if t.config.experimentRewriteIds ∧ deps.rewriteExperiment ∧
          (upstream.status = 502 ∨ upstream.status = 529) ∧ deps.reqBytes ≠ 0 then
          { t with phase := .errorBody id upstream }
        else t.upstreamArrived (.fetched id) upstream
      (Keeps s r ∧ r.phase = .errorBody id upstream) ∨ Arrives (.fetched id) upstream s r := by
    intro t hk
    simp only []
    split
    · exact .inl ⟨hk, rfl⟩
    · exact .inr (.of_keeps hk (upstreamArrived_arrives _ _))
  unfold classify
  simp only []
  split
  · exact hend _ (by rfl)
  · split
    · exact hend _ (by rfl)
    · exact hend _ (by rfl)

/-- The text of an error is read: the retry's fetch starts, or the text is
the response, or the timeout of the retry is invalid. -/
theorem rewriteOverloaded_cases (deps : ProxyDeps) (s : ProxyContext) (id : ℕ)
    (upstream : Upstream) (overloaded rewritten : Bool) :
    ((overloaded && deps.rewriteEligible && rewritten) = true ∧
        ((∃ timeout response,
            s.rewriteOverloaded deps id upstream overloaded rewritten =
              { (s.endFetch id).startFetch timeout none with
                phase := .rewriting (s.endFetch id).fetches.length id response }) ∨
          Settles (s.endFetch id) (s.rewriteOverloaded deps id upstream overloaded rewritten))) ∨
      Arrives (.errorText id) { upstream with hasBody := true } (s.endFetch id)
        (s.rewriteOverloaded deps id upstream overloaded rewritten) := by
  unfold rewriteOverloaded
  simp only []
  split
  · rename_i hretry
    left
    refine ⟨hretry, ?_⟩
    cases abortSignalDelay? (s.endFetch id).config.upstreamTimeoutMs with
    | none => exact .inr (.returns (by rfl) 500 (some .internalError))
    | some timeout => exact .inl ⟨timeout, _, rfl⟩
  · exact .inr (upstreamArrived_arrives _ _)

/-- The top of the attempt loop starts a fetch or settles. -/
theorem startAttempt_cases (deps : ProxyDeps) (s : ProxyContext) (rewritten : Bool) :
    (∃ t timeout controller, Keeps s t ∧
        (s.startAttempt deps rewritten = { t.startFetch timeout controller with
            phase := .fetching t.fetches.length } ∨
          s.startAttempt deps rewritten = { t.startFetch timeout controller with
            phase := .escalating t.fetches.length })) ∨
      Settles s (s.startAttempt deps rewritten) := by
  have hkeeps : Keeps s (s.armTtft deps) := by
    unfold armTtft
    simp only []
    split
    · rfl
    · rfl
  unfold startAttempt
  simp only []
  split
  · unfold attemptEscalation
    simp only []
    split
    · split
      · exact .inr (.of_keeps (hkeeps.trans (by rfl)) (escalationFailed_settles _))
      · exact .inl ⟨{ s.armTtft deps with pendingRewriteEscalation := false }, _, _, hkeeps,
          .inr rfl⟩
    · exact .inr (Settles.ttft (hkeeps.trans (by rfl)) _ _)
  · unfold attemptFetch
    split
    · exact .inr (.of_keeps hkeeps (upstreamFailed_settles _ _ _))
    · exact .inl ⟨_, _, _, hkeeps, .inl rfl⟩

end ProxyContext

end UmansGate.Proxy
