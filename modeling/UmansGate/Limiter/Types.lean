/-
UmansGate.Limiter.Types — the data of the concurrency gate
(`src/limiter/types.ts`).

Quantities the limiter scales by `SCALE` are integers: every weight,
limit and reservation passes `Math.round` or `Math.floor` before it is
stored. Arguments that reach a setter unrounded are `Num ℚ`, so `NaN`
and the infinities are ordinary inputs. Times and delays are integer
milliseconds. Integer arithmetic is exact (the scaled counts stay below
2^53).

A request is identified by the number of its `acquire` call; the source
uses the identity of the `Waiter` object and of the permit closure for
the same purpose.
-/
import Mathlib.Data.Rat.Floor
import UmansGate.Lib.Dict
import UmansGate.Lib.Num

namespace UmansGate.Limiter

open UmansGate.Lib

/-- Scale factor of the integer accounting. -/
def SCALE : Int := 1000

theorem SCALE_pos : 0 < SCALE := by decide

/-- `Math.round` on a finite number. -/
def roundNum (q : ℚ) : Int := (q + 1 / 2).floor

/-- `Math.floor` on a finite number. -/
def floorNum (q : ℚ) : Int := q.floor

/-- The delay `setTimeout` arms: 1 when the argument is out of the range of a
timer. -/
def setTimeoutDelay (ms : Int) : Int := if 1 ≤ ms ∧ ms ≤ 2147483647 then ms else 1

theorem le_setTimeoutDelay {ms : Int} (h : ms ≤ 2147483647) : ms ≤ setTimeoutDelay ms := by
  unfold setTimeoutDelay
  split <;> omega

/-- `Math.floor((r / sum) * limit)` as double arithmetic evaluates it: the
quotient and the product are rounded, so the value can differ from the
exact floor. The model leaves it open and proves its theorems for every
value. -/
class ShareRounding where
  floorShare : Int → Int → Int → Int

/-- The share without intermediate rounding. -/
@[reducible] def exactShare : ShareRounding where
  floorShare r sum limit := r * limit / sum

inductive BreakerState where
  | closed
  | opened
  | half_open
  deriving DecidableEq, Repr

/-- The `code` of a `GateError`, or the exception of an `onAcquire`
callback that the promise is rejected with. -/
inductive GateErrorCode where
  | circuit_open
  | queue_full
  | timeout
  | aborted
  | invalid_weight
  | shutdown
  | callbackThrew
  deriving DecidableEq, Repr

/-- What an `acquire` call hands to the semaphore. `onAcquireThrows` is
the behaviour of the caller's `onAcquire` callback. -/
structure Request where
  id : Nat
  weight : Int
  intention : String
  onAcquireThrows : Bool
  wasProbe : Bool
  deriving DecidableEq, Repr

/-- A queued request. `timeout` is the due time of its queue timer,
`none` once `clearTimeout` was called on it. -/
structure Waiter extends Request where
  enqueuedAt : Int
  timeout : Option Int
  deriving DecidableEq, Repr

/-- How far a permit has come: in use, released and waiting for the
cooldown timer, or handed back to the semaphore. The closure variable
`released` is `stage ≠ .held`. -/
inductive Stage where
  | held
  | cooling
  | returned
  deriving DecidableEq, Repr

/-- A permit handed to a caller. -/
structure Permit where
  weight : Int
  intention : String
  wasProbe : Bool
  stage : Stage
  deriving DecidableEq, Repr

/-- A permit whose release the cooldown timer has applied. -/
def Permit.applied (p : Permit) : Permit :=
  if p.stage = .cooling then { p with stage := .returned } else p

/-- An entry of `pendingReleases`. -/
structure Release where
  weight : Int
  intention : String
  deriving DecidableEq, Repr

/-- The counters at the moment a permit is handed out. -/
structure Grant where
  id : Nat
  weight : Int
  active : Int
  limit : Num Int
  hardCap : Int
  deriving DecidableEq, Repr

/-- What the gate does that its counters do not keep. The log is history
only: no operation reads it. -/
inductive Event where
  /-- `acquire` passed the breaker, which it saw in this state, and was
  granted or enqueued. -/
  | admitted (id : Nat) (seen : BreakerState)
  | enqueued (id : Nat)
  /-- `resolve(permit)`. -/
  | granted (g : Grant)
  /-- A call of `reject(error)`, or the throw of `acquire`. -/
  | rejected (id : Nat) (code : GateErrorCode)
  /-- The breaker entered this state. -/
  | breaker (entered : BreakerState)
  /-- A `Math.max(0, x)` on a counter met a negative `x`. -/
  | clamped
  /-- `emitStats`, with the `active` its listeners read. -/
  | stats (active : Int)
  deriving DecidableEq, Repr

/-- Constructor options of the gate. -/
structure ConcurrencyGateOptions where
  hardCap : ℚ
  softLimit : ℚ
  releaseCooldownMs : Int
  breakerThreshold : Int
  breakerWindowMs : Int
  breakerCooldownMs : Int
  maxQueueDepth : Int
  queueTimeoutMs : Int
  intentions : Option (Dict String ℚ)

/-- `Partial<ConcurrencyGateOptions>` as `reconfigure` reads it; the soft
limit and the hard cap are not reconfigurable this way. -/
structure ReconfigureOptions where
  releaseCooldownMs : Option Int := none
  maxQueueDepth : Option Int := none
  queueTimeoutMs : Option Int := none
  intentions : Option (Dict String ℚ) := none
  breakerThreshold : Option Int := none
  breakerWindowMs : Option Int := none
  breakerCooldownMs : Option Int := none

/-- Arguments of `acquire`. The signal is the request's own: `abort n`
fires the signal of the `n`-th call. -/
structure AcquireOptions where
  weight : Option ℚ := none
  intention : Option String := none
  onAcquireThrows : Bool := false

end UmansGate.Limiter
