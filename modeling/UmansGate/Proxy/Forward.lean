/-
UmansGate.Proxy.Forward — one request behind its early capture, step by
step (`src/proxy.ts`: `acquirePermit`, `forwardUpstream`,
`attemptRewriteRetry`, the `catch` and `finally` of `handleProxy`).

A step is a timer that comes due, a promise the code awaits that settles,
an abort, or time that passes. The code between two awaits runs in one
step. A step whose guard fails leaves the context alone, so every list of
steps is a run. A timer fires at its due time or later, and never before
one that is due earlier.

The constructors of `TransformStream`, `ReadableStream` and `Response` do
not throw on what the code passes them; `throws` is an exception of any
other call between two awaits.
-/
import UmansGate.Lib.Double
import UmansGate.Lib.Transition
import UmansGate.Proxy.Types

namespace UmansGate.Proxy

open UmansGate.Lib UmansGate.Limiter

/-- The delay `setTimeout` arms: whole milliseconds, and 1 when the
argument is out of the range of a timer. -/
def setTimeoutDelay : Num ℚ → ℚ
  | .fin ms => if 1 ≤ ms ∧ ms ≤ 2147483647 then (ms.floor : ℚ) else 1
  | _ => 1

/-- The delay `AbortSignal.timeout` arms; it throws when the argument is
no whole number of the safe range after truncation. -/
def abortSignalDelay? (ms : ℚ) : Option ℚ :=
  if -1 < ms ∧ ms < 9007199254740992 then some (max 0 (ms.floor : ℚ)) else none

inductive Step where
  | tick (ms : ℚ)
  /-- The settings are reloaded. -/
  | reload (config : ProxyConfig)
  | clientAbort
  /-- `checkRateLimit` answers 503. -/
  | rateLimited (retryAfter : ℚ)
  /-- `gate.acquire` rejects. -/
  | gateRejects (code : GateErrorCode)
  /-- `gate.acquire` resolves. -/
  | acquired
  /-- The top of the attempt loop. `rewritten`: `attemptRewriteRetry` gets
  to its fetch, `rewriteBody` having changed the body. -/
  | attempt (rewritten : Bool)
  | fetchResolves (upstream : Upstream)
  /-- `stats` is what `getGateStats` answers. -/
  | fetchRejects (err : FetchError) (stats : Option GateStats)
  /-- The fetch of `attemptRewriteRetry` resolves and
  `recordIdRewriteAudit` throws. -/
  | auditThrows
  /-- `upstream.text()` resolves. -/
  | errorBody (overloaded rewritten : Bool)
  /-- `upstream.text()` rejects, or what follows it throws before the
  retry's fetch. -/
  | errorBodyRejects
  /-- `reader.read()` resolves. -/
  | firstChunk (done : Bool)
  | readRejects (err : FetchError) (stats : Option GateStats)
  /-- The status fetch of attempt 1 resolves with a p50. -/
  | status (modelP50 : Num ℚ)
  | ttftTimeout
  | cooldownOver
  | upstreamTimeout (id : ℕ)
  | watchdogTimeout
  | throws
  | bodyEnd
  /-- The upstream body fails. -/
  | bodyError
  /-- The client cancels the response stream. -/
  | cancel
  /-- `flush` of the `TransformStream`. -/
  | flush

namespace ProxyContext

/-! ## Fetches and timers -/

def fireSignal (s : ProxyContext) (p : ℕ → Fetch → Bool) : ProxyContext :=
  { s with fetches := s.fetches.mapIdx fun id f => if p id f then { f with fired := true } else f }

/-- The fetch failed, or its body has ended. -/
def endFetch (s : ProxyContext) (id : ℕ) : ProxyContext :=
  { s with fetches := s.fetches.modify id fun f => { f with ended := true } }

def endBody (s : ProxyContext) : Source → ProxyContext
  | .fetched id => s.endFetch id
  | .errorText _ => s

def fetchLive (s : ProxyContext) (id : ℕ) : Bool := s.fetches[id]?.any Fetch.live

def signalFired (s : ProxyContext) (id : ℕ) : Bool := s.fetches[id]?.any Fetch.fired

/-- `fetch` with a signal of its own; a signal with a fired part is born
fired. -/
def startFetch (s : ProxyContext) (timeout : ℚ) (controller : Option ℕ) : ProxyContext :=
  { s with fetches := s.fetches ++
      [⟨s.now, s.now + timeout, controller, s.aborted, false⟩] }

/-- The due times of the armed timers. -/
def timers (s : ProxyContext) : List ℚ :=
  s.watchdogTimer.toList ++ s.ttftTimer.toList ++
    (match s.phase with
      | .cooldown due => [due]
      | _ => []) ++
    (s.fetches.filter fun f => !f.fired).map Fetch.deadline

/-- The timer is due, and no armed timer is due before it. -/
def dueFirst (s : ProxyContext) (due : ℚ) : Bool :=
  decide (due ≤ s.now) && s.timers.all fun other => decide (due ≤ other)

/-! ## The permit and the capture -/

def queueUpdate (s : ProxyContext) (status : ℕ) (gateReason : Option GateReason) : ProxyContext :=
  { s with updates := s.updates ++ [⟨status, gateReason, s.retryAttempt, s.ttftFired⟩] }

/-- `ctx.releasePermit`, which does nothing before `acquirePermit` sets it. -/
def releasePermit (s : ProxyContext) : ProxyContext :=
  if s.permit then
    let s := { s with watchdogTimer := none }
    if s.permitReleased then s
    else { s with permitReleased := true, releases := s.releases + 1 }
  else s

def flushCapture (s : ProxyContext) (upstream : Upstream) : ProxyContext :=
  if s.flushed then s else { s with flushed := true }.queueUpdate upstream.status none

def onAbort (s : ProxyContext) (upstream : Upstream) : ProxyContext :=
  if s.permitReleased then s else (s.flushCapture upstream).releasePermit

/-- The `finally` of `handleProxy` behind a response without a stream. -/
def finish (s : ProxyContext) : ProxyContext :=
  { (if s.streamingStarted then s else s.releasePermit) with phase := .returned }

/-- A final update, and the return of a response without a stream. -/
def respondWith (s : ProxyContext) (status : ℕ) (gateReason : Option GateReason) : ProxyContext :=
  (s.queueUpdate status gateReason).finish

/-- `queueTtftTimeout` and the return of its response. -/
def queueTtftTimeout (s : ProxyContext) (status : ℕ) (gateReason : GateReason) : ProxyContext :=
  s.respondWith status (some gateReason)

/-- The `catch` of `handleProxy`. -/
def internalError (s : ProxyContext) : ProxyContext := s.respondWith 500 (some .internalError)

/-! ## `acquirePermit` -/

def gateStatus : GateErrorCode → ℕ
  | .aborted => 499
  | .circuit_open => 503
  | .queue_full => 503
  | .timeout => 503
  | .invalid_weight => 502
  | .shutdown => 502
  | .callbackThrew => 502

/-- The permit is there: the watchdog is armed and `forwardUpstream`
starts. -/
def acquirePermit (s : ProxyContext) : ProxyContext :=
  { s with
    permit := true
    watchdogTimer := some (s.now + setTimeoutDelay (.fin (s.config.upstreamTimeoutMs + 5000)))
    ttftArmed := s.config.experimentTtftWatchdog
    attempt := 1
    phase := .ready }

/-! ## `forwardUpstream` -/

variable (deps : ProxyDeps)

/-- `isRewriteEligible`. -/
def isRewriteEligible (s : ProxyContext) : Bool :=
  deps.rewriteExperiment && decide (deps.reqBytes ≠ 0) &&
    ! s.config.ttftRetryMaxAttempts.lt (.fin 3) && deps.rewriteEligible

/-- `getRewriteSession` answers a session. -/
def hasRewriteSession : Bool :=
  deps.rewriteExperiment && decide (deps.reqBytes ≠ 0) && deps.rewriteEligible

def decideRetry (s : ProxyContext) (stats : Option GateStats) : Decision :=
  if s.aborted then .client_aborted
  else if stats.any (·.breaker ≠ .closed) then .breaker_open
  else if stats.any fun st =>
      decide (st.active ≥ st.softLimit * s.config.ttftRetryGateSaturationPct / 100) then
    .gate_saturated
  else if s.config.ttftRetryMaxAttempts.le (.fin s.attempt) then .cap_reached
  else if s.attempt = 2 ∧ ¬ s.isRewriteEligible deps then .cap_reached
  else .retry

/-- `ttftCooldown` up to its sleep. -/
def ttftCooldown (s : ProxyContext) : ProxyContext :=
  if s.config.ttftRetryCooldownMs ≤ 0 ∨ s.aborted then { s with phase := .ready }
  else { s with phase := .cooldown (s.now + setTimeoutDelay (.fin s.config.ttftRetryCooldownMs)) }

/-- `handleTtftTimeout`, with the cooldown of its callers. -/
def handleTtftTimeout (s : ProxyContext) (stats : Option GateStats) : ProxyContext :=
  let s := { s with ttftFired := true }
  let decision := s.decideRetry deps stats
  if decision = .retry then
    let s :=
      if s.attempt = 2 ∧ s.isRewriteEligible deps then
        { s with attempt := s.attempt + 1, retryAttempt := 2, pendingRewriteEscalation := true }
      else { s with attempt := s.attempt + 1, retryAttempt := 1 }
    s.ttftCooldown
  else
    let suppressReason : Decision :=
      if decision = .breaker_open then .breaker_open
      else if decision = .gate_saturated then .gate_saturated
      else .cap_reached
    s.queueTtftTimeout 504
      (.ttftExceeded (if s.retryAttempt > 0 then none else some suppressReason))

/-- The `catch` behind a fetch or behind the read of the first chunk. -/
def upstreamFailed (s : ProxyContext) (clientReason : GateReason) (err : FetchError)
    (stats : Option GateStats) : ProxyContext :=
  let s := { s with ttftTimer := none }
  let clientAborted := decide (err = .AbortError) && s.aborted
  let ttftExceeded := s.ttftAborted
  let upstreamTimedOut := decide (err = .TimeoutError) ||
    (decide (err = .AbortError) && !s.aborted && !ttftExceeded)
  if clientAborted then s.queueTtftTimeout 499 clientReason
  else if ttftExceeded && s.ttftArmed then s.handleTtftTimeout deps stats
  else if upstreamTimedOut then s.queueTtftTimeout 504 .upstreamTimeout
  else s.queueTtftTimeout 502 .upstreamUnreachable

/-- `attemptRewriteRetry` answered null to the escalation. -/
def escalationFailed (s : ProxyContext) : ProxyContext :=
  let s := { s with ttftTimer := none }
  if s.aborted then s.queueTtftTimeout 499 .clientDuringEscalation
  else
    let s := if s.ttftAborted then { s with ttftFired := true } else s
    s.queueTtftTimeout 504 .escalationFailed

/-- The abort listeners are attached, and run when their signal has fired
before. -/
def listenAbort (s : ProxyContext) (source : Source) (upstream : Upstream) : ProxyContext :=
  let s := if s.aborted then (s.flushCapture upstream).releasePermit else s
  if s.signalFired source.signal then s.onAbort upstream else s

/-- Behind the attempt loop: the response is returned, with its stream if
it has a body. -/
def respond (s : ProxyContext) (source : Source) (upstream : Upstream) : ProxyContext :=
  let s := { s with reports := s.reports ++ s.pendingRecord.toList }
  if upstream.hasBody then
    { { s with flushCaptureRef := some upstream }.listenAbort source upstream with
      streamingStarted := true, phase := .streaming source upstream .opened }
  else (s.endBody source).respondWith upstream.status none

/-- A response is there: with the watchdog on, the first chunk of a stream
is awaited. -/
def upstreamArrived (s : ProxyContext) (source : Source) (upstream : Upstream) : ProxyContext :=
  if s.ttftArmed && upstream.hasBody && upstream.isSSE then
    { s with phase := .firstChunk source upstream }
  else { s with ttftTimer := none }.respond source upstream

def effectiveHardCap (s : ProxyContext) : Num ℚ :=
  s.config.ttftWatchdogHardCapMs.min (.fin (s.config.upstreamTimeoutMs - 1000))

/-- The TTFT timer of an attempt. -/
def armTtft (s : ProxyContext) : ProxyContext :=
  let s := { s with pendingRecord := none, ttftAborted := false, ttftTimer := none }
  if s.ttftArmed then
    let statusFetch := decide (s.attempt = 1) && deps.statusClient
    let threshold : Num ℚ :=
      if statusFetch then .fin (min s.config.ttftTimeoutMs (s.config.upstreamTimeoutMs - 1000))
      else s.effectiveHardCap
    { s with
      currentThreshold := some threshold
      ttftTimer := some (s.now + setTimeoutDelay threshold)
      statusPending := statusFetch }
  else s

def controller (s : ProxyContext) : Option ℕ := if s.ttftArmed then some s.attempt else none

/-- The fetch of an attempt, with the `catch` of an invalid timeout. -/
def attemptFetch (s : ProxyContext) : ProxyContext :=
  match abortSignalDelay? s.config.upstreamTimeoutMs with
  | none => s.upstreamFailed deps .clientDuringRequest .other none
  | some timeout =>
    { s.startFetch timeout s.controller with phase := .fetching s.fetches.length }

/-- The attempt with rewritten ids. -/
def attemptEscalation (s : ProxyContext) (rewritten : Bool) : ProxyContext :=
  let s := { s with pendingRewriteEscalation := false }
  if hasRewriteSession deps then
    match (abortSignalDelay? s.config.upstreamTimeoutMs).filter fun _ => rewritten with
    | none => s.escalationFailed
    | some timeout =>
      { s.startFetch timeout s.controller with phase := .escalating s.fetches.length }
  else s.queueTtftTimeout 504 (.ttftExceeded none)

/-- The top of the attempt loop, up to the fetch. -/
def startAttempt (s : ProxyContext) (rewritten : Bool) : ProxyContext :=
  let s := s.armTtft deps
  if s.pendingRewriteEscalation then s.attemptEscalation deps rewritten else s.attemptFetch deps

/-- The status of the fetch of an attempt is there. -/
def classify (s : ProxyContext) (id : ℕ) (upstream : Upstream) : ProxyContext :=
  let s :=
    if upstream.status = 429 then { s with pendingRecord := some (.record429 upstream.class429) }
    else if upstream.status < 400 then { s with pendingRecord := some .recordSuccess }
    else s
  if s.config.experimentRewriteIds ∧ deps.rewriteExperiment ∧
      (upstream.status = 502 ∨ upstream.status = 529) ∧ deps.reqBytes ≠ 0 then
    { s with phase := .errorBody id upstream }
  else s.upstreamArrived (.fetched id) upstream

/-- The error text is there: an overloaded upstream is asked once more,
with rewritten ids. -/
def rewriteOverloaded (s : ProxyContext) (id : ℕ) (upstream : Upstream)
    (overloaded rewritten : Bool) : ProxyContext :=
  let s := s.endFetch id
  let errorText := { upstream with hasBody := true }
  if overloaded && deps.rewriteEligible && rewritten then
    match abortSignalDelay? s.config.upstreamTimeoutMs with
    | none => s.internalError
    | some timeout =>
      { s.startFetch timeout none with phase := .rewriting s.fetches.length id errorText }
  else s.upstreamArrived (.errorText id) errorText

/-! ## Steps -/

/-- The signals that `p` names fire; the abort listener of the stream runs
when the signal it is attached to is one of them. -/
def abort (s : ProxyContext) (p : ℕ → Fetch → Bool) : ProxyContext :=
  let t := s.fireSignal p
  match s.phase with
  | .streaming source upstream stream =>
    if stream ≠ .closed ∧ s.signalFired source.signal = false ∧
        t.signalFired source.signal = true then
      t.onAbort upstream
    else t
  | _ => t

def clientAbort (s : ProxyContext) : ProxyContext := { s with aborted := true }.abort fun _ _ => true

def ttftTimeout (s : ProxyContext) : ProxyContext :=
  if s.ttftTimer.any s.dueFirst then
    { s with ttftTimer := none, ttftAborted := true }.abort
      fun _ f => f.controller = some s.attempt
  else s

def upstreamTimeout (s : ProxyContext) (id : ℕ) : ProxyContext :=
  if (s.fetches[id]?).any fun f => !f.fired && s.dueFirst f.deadline then
    s.abort fun i _ => i = id
  else s

def watchdogTimeout (s : ProxyContext) : ProxyContext :=
  if s.watchdogTimer.any s.dueFirst then
    let s := { s with watchdogTimer := none, watchdogFired := true }
    (match s.flushCaptureRef with
      | none => s
      | some upstream => s.flushCapture upstream).releasePermit
  else s

def dynamicThreshold (s : ProxyContext) (modelP50 : Num ℚ) : Num ℚ :=
  (modelP50.mulD s.config.ttftWatchdogMultiplier).min s.effectiveHardCap

/-- The status answer of attempt 1 while its timer runs. -/
def statusResolves (s : ProxyContext) (modelP50 : Num ℚ) : ProxyContext :=
  if s.statusPending then
    let s := { s with statusPending := false }
    if s.attempt = 1 ∧ ¬ s.ttftAborted ∧ s.ttftTimer.isSome then
      let threshold := s.dynamicThreshold modelP50
      if threshold.isFinite then
        { s with
          currentThreshold := some threshold
          ttftTimer := some (s.now + setTimeoutDelay threshold) }
      else s
    else s
  else s

def cooldownOver (s : ProxyContext) : ProxyContext :=
  match s.phase with
  | .cooldown due => if s.aborted || s.dueFirst due then { s with phase := .ready } else s
  | _ => s

def fetchResolves (s : ProxyContext) (response : Upstream) : ProxyContext :=
  match s.phase with
  | .fetching id => if s.fetchLive id then s.classify deps id response else s
  | .escalating id => if s.fetchLive id then s.upstreamArrived (.fetched id) response else s
  | .rewriting id _ _ => if s.fetchLive id then s.upstreamArrived (.fetched id) response else s
  | _ => s

def fetchRejects (s : ProxyContext) (err : FetchError) (stats : Option GateStats) :
    ProxyContext :=
  match s.phase with
  | .fetching id => (s.endFetch id).upstreamFailed deps .clientDuringRequest err stats
  | .escalating id => (s.endFetch id).escalationFailed
  | .rewriting id first upstream => (s.endFetch id).upstreamArrived (.errorText first) upstream
  | _ => s

def auditThrows (s : ProxyContext) : ProxyContext :=
  match s.phase with
  | .escalating id => if s.fetchLive id then s.escalationFailed else s
  | .rewriting id first upstream =>
    if s.fetchLive id then s.upstreamArrived (.errorText first) upstream else s
  | _ => s

def errorBody (s : ProxyContext) (overloaded rewritten : Bool) : ProxyContext :=
  match s.phase with
  | .errorBody id upstream =>
    if s.fetchLive id then s.rewriteOverloaded deps id upstream overloaded rewritten else s
  | _ => s

def errorBodyRejects (s : ProxyContext) : ProxyContext :=
  match s.phase with
  | .errorBody id _ => (s.endFetch id).internalError
  | _ => s

/-- The body can still be read. -/
def readable (s : ProxyContext) : Source → Bool
  | .fetched id => s.fetchLive id
  | .errorText _ => true

def firstChunk (s : ProxyContext) (done : Bool) : ProxyContext :=
  match s.phase with
  | .firstChunk source upstream =>
    if s.readable source then
      let s := { s with ttftTimer := none }
      (if done then s.endBody source else s).respond source upstream
    else s
  | _ => s

def readRejects (s : ProxyContext) (err : FetchError) (stats : Option GateStats) : ProxyContext :=
  match s.phase with
  | .firstChunk (.fetched id) _ =>
    (s.endFetch id).upstreamFailed deps .clientDuringRace err stats
  | _ => s

/-- An exception between two awaits of `forwardUpstream`. -/
def throws (s : ProxyContext) : ProxyContext :=
  match s.phase with
  | .arriving => s
  | .streaming _ _ _ => s
  | .returned => s
  | _ => s.internalError

/-- The body has ended, or it is one whose end was read as the first
chunk. -/
def bodyEnd (s : ProxyContext) : ProxyContext :=
  match s.phase with
  | .streaming source upstream .opened =>
    if s.readable source || s.fetches[source.signal]?.any Fetch.ended then
      { s.endBody source with phase := .streaming source upstream .ended }
    else s
  | _ => s

def bodyError (s : ProxyContext) : ProxyContext :=
  match s.phase with
  | .streaming (.fetched id) upstream .opened =>
    if s.fetches[id]?.any Fetch.ended then s
    else { s.endFetch id with phase := .streaming (.fetched id) upstream .errored }
  | _ => s

def cancel (s : ProxyContext) : ProxyContext :=
  match s.phase with
  | .streaming source upstream stream =>
    if stream = .opened ∨ stream = .ended then
      { s.endBody source with phase := .streaming source upstream .cancelled }
    else s
  | _ => s

def flush (s : ProxyContext) : ProxyContext :=
  match s.phase with
  | .streaming source upstream .ended =>
    { (s.flushCapture upstream).releasePermit with phase := .streaming source upstream .closed }
  | _ => s

def step (s : ProxyContext) : Step → ProxyContext
  | .tick ms => if 0 ≤ ms then { s with now := s.now + ms } else s
  | .reload config => { s with config := config }
  | .clientAbort => s.clientAbort
  | .rateLimited retryAfter =>
    if s.phase = .arriving then s.respondWith 503 (some (.rateLimited retryAfter)) else s
  | .gateRejects code =>
    if s.phase = .arriving then s.respondWith (gateStatus code) (some (.gateRejected code)) else s
  | .acquired => if s.phase = .arriving then s.acquirePermit else s
  | .attempt rewritten => if s.phase = .ready then s.startAttempt deps rewritten else s
  | .fetchResolves upstream => s.fetchResolves deps upstream
  | .fetchRejects err stats => s.fetchRejects deps err stats
  | .auditThrows => s.auditThrows
  | .errorBody overloaded rewritten => s.errorBody deps overloaded rewritten
  | .errorBodyRejects => s.errorBodyRejects
  | .firstChunk done => s.firstChunk done
  | .readRejects err stats => s.readRejects deps err stats
  | .status modelP50 => s.statusResolves modelP50
  | .ttftTimeout => s.ttftTimeout
  | .cooldownOver => s.cooldownOver
  | .upstreamTimeout id => s.upstreamTimeout id
  | .watchdogTimeout => s.watchdogTimeout
  | .throws => s.throws
  | .bodyEnd => s.bodyEnd
  | .bodyError => s.bodyError
  | .cancel => s.cancel
  | .flush => s.flush

/-- A request whose early capture row is there. -/
def new (config : ProxyConfig) (now : ℚ) (aborted : Bool) : ProxyContext where
  now := now
  config := config
  aborted := aborted
  phase := .arriving
  permit := false
  permitReleased := false
  releases := 0
  watchdogTimer := none
  watchdogFired := false
  streamingStarted := false
  flushCaptureRef := none
  flushed := false
  updates := []
  ttftArmed := false
  attempt := 1
  retryAttempt := 0
  ttftFired := false
  pendingRewriteEscalation := false
  currentThreshold := none
  ttftTimer := none
  ttftAborted := false
  statusPending := false
  pendingRecord := none
  reports := []
  fetches := []

/-- The context after a run. -/
def after (config : ProxyConfig) (now : ℚ) (aborted : Bool) (steps : List Step) : ProxyContext :=
  Lib.run (step deps) (new config now aborted) steps

end ProxyContext

end UmansGate.Proxy
