/-
UmansGate.Rate.SlidingWindow — the rate limiter (`src/rate.ts`,
`createRateLimiter` of `src/index.ts`).

Times and weights are rational numbers, so sums are exact. Each method takes
the time that it is called at. `WindowRun` keeps next to the limiter what was
ever admitted and when the last call came, which the limiter does not know.
-/
import Mathlib.Data.Rat.Floor
import UmansGate.Lib.LowerBound
import UmansGate.Lib.Transition

namespace UmansGate.Rate

open UmansGate.Lib

structure RateLimitConfig where
  limit : ℚ
  windowSeconds : ℚ
  deriving DecidableEq, Repr

structure RateCheckResult where
  allowed : Bool
  remaining : ℚ
  retryAfterSeconds : Option Int
  deriving DecidableEq, Repr

structure Entry where
  time : ℚ
  weight : ℚ
  deriving DecidableEq, Repr

structure SlidingWindowRateLimiter where
  entries : List Entry
  runningSum : ℚ
  limit : ℚ
  windowMs : ℚ
  deriving DecidableEq, Repr

namespace SlidingWindowRateLimiter

def new (config : RateLimitConfig) : SlidingWindowRateLimiter :=
  ⟨[], 0, config.limit, config.windowSeconds * 1000⟩

/-- The binary search, and the entries before its result taken out one by
one. -/
def prune (rl : SlidingWindowRateLimiter) (now : ℚ) : SlidingWindowRateLimiter :=
  let cutoff := now - rl.windowMs
  let lo := cutAt (fun e => decide (e.time < cutoff)) rl.entries
  { rl with
    entries := rl.entries.drop lo
    runningSum := (rl.entries.take lo).foldl (fun sum e => sum - e.weight) rl.runningSum }

/-- The answer over a pruned limiter. -/
def verdict (rl : SlidingWindowRateLimiter) (weight now : ℚ) : RateCheckResult :=
  let currentWeight := rl.runningSum
  if currentWeight + weight > rl.limit then
    let retryAfter := match rl.entries.head? with
      | some oldest => ⌈(oldest.time + rl.windowMs - now) / 1000⌉
      | none => 1
    ⟨false, max 0 (rl.limit - currentWeight), some (max 1 retryAfter)⟩
  else ⟨true, max 0 (rl.limit - currentWeight - weight), none⟩

def check (rl : SlidingWindowRateLimiter) (weight now : ℚ) :
    RateCheckResult × SlidingWindowRateLimiter :=
  let rl := rl.prune now
  let result := rl.verdict weight now
  if result.allowed then
    (result, { rl with
      entries := rl.entries ++ [⟨now, weight⟩]
      runningSum := rl.runningSum + weight })
  else (result, rl)

def peek (rl : SlidingWindowRateLimiter) (weight now : ℚ) :
    RateCheckResult × SlidingWindowRateLimiter :=
  let rl := rl.prune now
  (rl.verdict weight now, rl)

def count (rl : SlidingWindowRateLimiter) (now : ℚ) : ℚ × SlidingWindowRateLimiter :=
  let rl := rl.prune now
  (rl.runningSum, rl)

end SlidingWindowRateLimiter

def DEFAULT_RATE_WINDOW_SECONDS : ℚ := 18000

/-- What the limiter is made of: the limit and the window of the snapshot, if
there is one. -/
structure RateSnapshot where
  requestsHardCap : Option ℚ
  requestsLimit : Option ℚ
  requestsWindowSeconds : Option ℚ
  deriving DecidableEq, Repr

def createRateLimiter (rateLimitRequests : ℚ) (snap : Option RateSnapshot)
    (requestUseHardCap neverLimitRequests : Bool) : Option SlidingWindowRateLimiter :=
  if neverLimitRequests then none
  else if rateLimitRequests = -1 then none
  else
    let windowSeconds := (snap.bind (·.requestsWindowSeconds)).getD DEFAULT_RATE_WINDOW_SECONDS
    if rateLimitRequests > 0 then some (.new ⟨rateLimitRequests, windowSeconds⟩)
    else
      let limit := if requestUseHardCap then snap.bind (·.requestsHardCap)
        else snap.bind (·.requestsLimit)
      match limit with
      | some limit => if limit > 0 then some (.new ⟨limit, windowSeconds⟩) else none
      | none => none

/-! ## Runs -/

inductive RateCall where
  | check (weight now : ℚ)
  | peek (weight now : ℚ)
  | count (now : ℚ)
  deriving DecidableEq, Repr

inductive RateAnswer where
  | result (r : RateCheckResult)
  | total (weight : ℚ)
  deriving DecidableEq, Repr

def RateCall.now : RateCall → ℚ
  | .check _ now => now
  | .peek _ now => now
  | .count now => now

def SlidingWindowRateLimiter.call (rl : SlidingWindowRateLimiter) :
    RateCall → RateAnswer × SlidingWindowRateLimiter
  | .check weight now => (rl.check weight now).map .result id
  | .peek weight now => (rl.peek weight now).map .result id
  | .count now => (rl.count now).map .total id

/-- What the calls answer, one after the other. -/
def SlidingWindowRateLimiter.answers (rl : SlidingWindowRateLimiter) :
    List RateCall → List RateAnswer
  | [] => []
  | call :: calls => (rl.call call).1 :: (rl.call call).2.answers calls

structure WindowRun where
  limiter : SlidingWindowRateLimiter
  admitted : List Entry
  last : Option ℚ
  deriving DecidableEq, Repr

namespace WindowRun

def init (config : RateLimitConfig) : WindowRun := ⟨.new config, [], none⟩

/-- The entry that the call admits. -/
def admits (rl : SlidingWindowRateLimiter) : RateCall → List Entry
  | .check weight now => if (rl.check weight now).1.allowed then [⟨now, weight⟩] else []
  | _ => []

def step (s : WindowRun) (call : RateCall) : WindowRun :=
  ⟨(s.limiter.call call).2, s.admitted ++ admits s.limiter call, some call.now⟩

/-- Time does not go back, and no weight is negative. -/
def InOrder (s : WindowRun) (call : RateCall) : Prop :=
  (∀ last ∈ s.last, last ≤ call.now) ∧ ∀ weight now, call = .check weight now → 0 ≤ weight

end WindowRun

end UmansGate.Rate
