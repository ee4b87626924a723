/-
UmansGate.Proxy.Types — the data of one proxied request (`src/proxy.ts`).

`ProxyContext` holds the shared context of the phases together with the
locals of `forwardUpstream`. Times and delays are milliseconds as rational
numbers; the number of attempts, the multiplier and the hard cap of the TTFT
watchdog may be any number that the loader accepts. An upstream fetch keeps
its number: `fetches` lists all fetches of the request, also those that are
over.

Broadcasts, log lines and incident rows do not reach the permit or the
capture and are left out.
-/
import UmansGate.Lib.Num
import UmansGate.Limiter.Types

namespace UmansGate.Proxy

open UmansGate.Lib UmansGate.Limiter

/-- The settings `acquirePermit` and `forwardUpstream` read. -/
structure ProxyConfig where
  upstreamTimeoutMs : ℚ
  experimentTtftWatchdog : Bool
  ttftTimeoutMs : ℚ
  ttftRetryMaxAttempts : Num ℚ
  ttftRetryGateSaturationPct : ℚ
  ttftRetryCooldownMs : ℚ
  ttftWatchdogMultiplier : Num ℚ
  ttftWatchdogHardCapMs : Num ℚ
  experimentRewriteIds : Bool
  deriving DecidableEq, Repr

/-- What is fixed for a request: the dependencies that are there, and what
the session of its headers is eligible for. -/
structure ProxyDeps where
  rewriteExperiment : Bool
  rewriteEligible : Bool
  reqBytes : ℕ
  statusClient : Bool
  deriving DecidableEq, Repr

/-- The fields of the gate's statistics that `decideRetry` reads. -/
structure GateStats where
  breaker : BreakerState
  softLimit : ℚ
  active : ℚ
  deriving DecidableEq, Repr

/-- What `classify429` answers. -/
inductive Rate429 where
  | concurrency
  | rate_limit
  | gateway
  deriving DecidableEq, Repr

/-- An upstream response. `class429` matters for status 429 only. -/
structure Upstream where
  status : ℕ
  class429 : Rate429
  isSSE : Bool
  hasBody : Bool
  deriving DecidableEq, Repr

/-- The error a fetch or a read rejects with. -/
inductive FetchError where
  | AbortError
  | TimeoutError
  | other
  deriving DecidableEq, Repr

/-- An upstream fetch. `controller` is the attempt whose `ttftController`
is one of its signals, `fired` that its signal has fired, `ended` that it
failed or that its body has ended. -/
structure Fetch where
  startedAt : ℚ
  deadline : ℚ
  controller : Option ℕ
  fired : Bool
  ended : Bool
  deriving DecidableEq, Repr

/-- In flight: from the start until the fetch fails, its body ends or its
signal fires. -/
def Fetch.live (f : Fetch) : Bool := !f.fired && !f.ended

/-- The body that goes to the client, with the signal the abort listener
is attached to: a fetch, or the error text that was read from one. -/
inductive Source where
  | fetched (id : ℕ)
  | errorText (signal : ℕ)
  deriving DecidableEq, Repr

def Source.signal : Source → ℕ
  | .fetched id => id
  | .errorText signal => signal

/-- The response stream. `ended`: the source has ended, `flush` has not run. -/
inductive Stream where
  | opened
  | ended
  | closed
  | errored
  | cancelled
  deriving DecidableEq, Repr

/-- Where `handleProxy` stands behind the early capture. -/
inductive Phase where
  /-- Vision handoff, rate limit and gate. -/
  | arriving
  /-- The top of the attempt loop. -/
  | ready
  /-- Awaits the fetch of an attempt. -/
  | fetching (id : ℕ)
  /-- Awaits the fetch of the rewrite escalation. -/
  | escalating (id : ℕ)
  /-- Awaits the text of a 502 or 529. -/
  | errorBody (id : ℕ) (upstream : Upstream)
  /-- Awaits the retry with rewritten ids behind the error of fetch `first`. -/
  | rewriting (id first : ℕ) (upstream : Upstream)
  /-- Awaits the first chunk. -/
  | firstChunk (source : Source) (upstream : Upstream)
  | cooldown (due : ℚ)
  | streaming (source : Source) (upstream : Upstream) (stream : Stream)
  /-- A response without a stream is returned. -/
  | returned
  deriving DecidableEq, Repr

/-- What `decideRetry` answers. -/
inductive Decision where
  | retry
  | client_aborted
  | breaker_open
  | gate_saturated
  | cap_reached
  deriving DecidableEq, Repr

/-- The `$gate_reason` of an update. -/
inductive GateReason where
  | rateLimited (retryAfter : ℚ)
  | gateRejected (code : GateErrorCode)
  /-- "Client disconnected during upstream request". -/
  | clientDuringRequest
  /-- "Client disconnected during TTFT race". -/
  | clientDuringRace
  /-- "Client disconnected during rewrite-escalation fetch". -/
  | clientDuringEscalation
  /-- "TTFT watchdog exceeded", with the cause that suppressed a retry. -/
  | ttftExceeded (suppressed : Option Decision)
  /-- "(rewrite escalation failed)". -/
  | escalationFailed
  | upstreamTimeout
  | upstreamUnreachable
  /-- "Internal proxy error". -/
  | internalError
  deriving DecidableEq, Repr

/-- A final update of the capture; `gateReason` is none with
`$status_source: "upstream"`. -/
structure CaptureUpdate where
  status : ℕ
  gateReason : Option GateReason
  retryAttempt : ℕ
  ttftExceeded : Bool
  deriving DecidableEq, Repr

/-- A deferred breaker update. -/
inductive Report where
  | record429 (type : Rate429)
  | recordSuccess
  deriving DecidableEq, Repr

structure ProxyContext where
  now : ℚ
  config : ProxyConfig
  /-- `req.signal.aborted`. -/
  aborted : Bool
  phase : Phase
  /-- A permit was acquired. -/
  permit : Bool
  permitReleased : Bool
  /-- Calls of `permit.release()`. -/
  releases : ℕ
  watchdogTimer : Option ℚ
  /-- The watchdog has fired. -/
  watchdogFired : Bool
  streamingStarted : Bool
  /-- `flushCaptureRef`: the response whose capture it flushes. -/
  flushCaptureRef : Option Upstream
  flushed : Bool
  updates : List CaptureUpdate
  ttftArmed : Bool
  attempt : ℕ
  retryAttempt : ℕ
  ttftFired : Bool
  pendingRewriteEscalation : Bool
  currentThreshold : Option (Num ℚ)
  ttftTimer : Option ℚ
  /-- `ttftController.signal.aborted`. -/
  ttftAborted : Bool
  /-- The status fetch of attempt 1 is under way. -/
  statusPending : Bool
  pendingRecord : Option Report
  reports : List Report
  fetches : List Fetch
  deriving Repr

end UmansGate.Proxy
