/-
UmansGate.Limiter.Gate — the public gate (`src/limiter/gate.ts`, class
`ConcurrencyGate`) and the operations its environment makes.

`step` takes one operation: a method call, a timer that comes due, the
signal of a request firing, or time passing. An operation whose guard
fails (a timer that is not due, a permit nobody holds) leaves the state
alone, so every operation list is a run. `abort n` with `n` not yet
acquired is a signal that has fired before its `acquire` call.
-/
import UmansGate.Lib.Transition
import UmansGate.Limiter.CircuitBreaker
import UmansGate.Limiter.Semaphore

namespace UmansGate.Limiter

open UmansGate.Lib

structure Gate where
  semaphore : Semaphore
  breaker : CircuitBreaker
  now : Int
  nextId : Nat
  aborted : List Nat

/-- What can happen to a gate. -/
inductive Op where
  | acquire (opts : AcquireOptions)
  | queueTimeout (id : Nat)
  | abort (id : Nat)
  | release (id : Nat)
  | cooldownExpiry
  | tick (ms : Nat)
  | resize (newLimit : Num ℚ)
  | setHardCap (newHardCap : Num ℚ)
  | setSoftLimit (newSoftLimit : Num ℚ)
  | reconfigure (opts : ReconfigureOptions)
  | record429 (type : Type429)
  | recordSuccess
  | shutdown

namespace Gate

def new (opts : ConcurrencyGateOptions) : Gate where
  semaphore := .new opts
  breaker := .new opts.breakerThreshold opts.breakerWindowMs opts.breakerCooldownMs
  now := 0
  nextId := 0
  aborted := []

def emitStats (g : Gate) : Gate := { g with semaphore := g.semaphore.emitStats }

def reject (g : Gate) (id : Nat) (code : GateErrorCode) : Gate :=
  { g with semaphore := g.semaphore.note (.rejected id code) }

/-- Store the breaker a method left, logging a change of its state. -/
def withBreaker (g : Gate) (b : CircuitBreaker) : Gate :=
  { g with
    breaker := b
    semaphore :=
      if b.state = g.breaker.state then g.semaphore else g.semaphore.note (.breaker b.state) }

/-- Emit when a setter reports a change. -/
def afterSetter (g : Gate) (r : Semaphore × Bool) : Gate :=
  if r.2 then { g with semaphore := r.1 }.emitStats else { g with semaphore := r.1 }

/-- Take a waiter out of the queue as its timeout and its abort listener
do: a waiting probe gives the probe back. -/
def dequeue (g : Gate) (w : Waiter) (code : GateErrorCode) : Gate :=
  match g.semaphore.removeWaiter w with
  | none => g
  | some s =>
    let g := { g with semaphore := s }
    let g :=
      if w.wasProbe then (g.withBreaker (g.breaker.resetHalfOpenProbe g.now)).emitStats else g
    g.reject w.id code

section Step

variable [ShareRounding]

/-- The part of `acquire` behind the breaker. -/
def grantOrEnqueue (g : Gate) (r : Request) (seen : BreakerState) : Gate :=
  if g.semaphore.canGrant r.intention r.weight then
    match g.semaphore.grant r with
    | (s, false) => { g with semaphore := s.note (.admitted r.id seen) }
    | (s, true) => { g with semaphore := s }.reject r.id .callbackThrew
  else
    let waiter : Waiter :=
      { r with
        enqueuedAt := g.now
        timeout := some (g.now + setTimeoutDelay g.semaphore.queueTimeoutMs) }
    match g.semaphore.enqueue waiter with
    | none => g.reject r.id .queue_full
    | some s => { g with semaphore := (s.note (.admitted r.id seen)).emitStats }

def acquire (g : Gate) (opts : AcquireOptions) : Gate :=
  let id := g.nextId
  let g := { g with nextId := id + 1 }
  let weight := roundNum (opts.weight.getD 1 * SCALE)
  if weight ≤ 0 then g.reject id .invalid_weight
  else
    let intention := opts.intention.getD "main"
    let (breakerState, breaker) := g.breaker.maybeHalfOpen g.now
    let g := g.withBreaker breaker
    if breakerState = .opened then g.reject id .circuit_open
    else
      g.grantOrEnqueue ⟨id, weight, intention, opts.onAcquireThrows, breakerState = .half_open⟩
        breakerState

/-- The waiter of the `id`-th `acquire` call. -/
def waiter? (g : Gate) (id : Nat) : Option Waiter := g.semaphore.waiters.find? (·.id = id)

def step (g : Gate) : Op → Gate
  | .acquire opts => g.acquire opts
  | .queueTimeout id =>
    match g.waiter? id with
    | none => g
    | some w =>
      match w.timeout with
      | none => g
      | some due => if due ≤ g.now then g.dequeue w .timeout else g
  | .abort id =>
    -- a signal fires once; without a queued waiter the listener does nothing
    if id ∈ g.aborted then g
    else
      let g := { g with aborted := id :: g.aborted }
      match g.waiter? id with
      | none => g
      | some w => g.dequeue w .aborted
  | .release id => { g with semaphore := g.semaphore.release g.now id }
  | .cooldownExpiry =>
    match g.semaphore.releaseTimer with
    | none => g
    | some due => if due ≤ g.now then { g with semaphore := g.semaphore.onReleaseTimer } else g
  | .tick ms => { g with now := g.now + ms }
  | .resize newLimit => g.afterSetter (g.semaphore.resize newLimit)
  | .setHardCap newHardCap => g.afterSetter (g.semaphore.setHardCap newHardCap)
  | .setSoftLimit newSoftLimit => g.afterSetter (g.semaphore.setSoftLimit newSoftLimit)
  | .reconfigure opts =>
    { g with
      semaphore := g.semaphore.reconfigure opts
      breaker := g.breaker.reconfigure opts.breakerThreshold opts.breakerWindowMs
        opts.breakerCooldownMs g.now }.emitStats
  | .record429 type =>
    let g := g.withBreaker (g.breaker.record429 type g.now)
    if g.breaker.state = .opened then g.emitStats else g
  | .recordSuccess =>
    let wasHalfOpen := g.breaker.state = .half_open
    let g := g.withBreaker g.breaker.recordSuccess
    if wasHalfOpen then g.emitStats else g
  | .shutdown => { g with semaphore := g.semaphore.shutdown }

/-- The state an operation list leads to from a fresh gate. -/
def after (opts : ConcurrencyGateOptions) (ops : List Op) : Gate :=
  Lib.run step (Gate.new opts) ops

end Step

end Gate

/-- The configuration of the concrete runs: two slots, one of them reserved
for vision, and a breaker that opens at the first 429. -/
def twoSlots : ConcurrencyGateOptions where
  hardCap := 2
  softLimit := 2
  releaseCooldownMs := 10
  breakerThreshold := 1
  breakerWindowMs := 1000
  breakerCooldownMs := 20
  maxQueueDepth := 4
  queueTimeoutMs := 100
  intentions := some [("main", 1), ("vision", 1)]

end UmansGate.Limiter
