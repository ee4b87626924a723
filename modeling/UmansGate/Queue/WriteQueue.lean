/-
UmansGate.Queue.WriteQueue — the write-behind queue of capture updates
(`src/queue.ts`, class `WriteQueue`) and the steps of its environment.

A step is a method call, a timer that comes due, the reply of the store to
one `batchUpdate`, or a promise handler that runs. A step whose guard fails
leaves the state alone, so every list of steps is a run. Handlers run in
any order here, which allows more runs than the job queue of the source.
`batchUpdate` answers through its promise, as both stores do: it never
throws before it returns.

`flushNow` sets `flushTimer` to null without clearing the timeout, so a
timeout can be armed that `flushTimer` does not name. `flushTimers` holds
every armed flush timeout. `retryTimer` is cleared before it is replaced.

The fields `queued`, `committed` and `dropped` record the history: the
calls of `queueUpdate`, the batches whose `batchUpdate` resolved, and the
calls of `onDrop`.
-/
import Mathlib.Algebra.Group.Nat.Defs
import UmansGate.Lib.Transition

namespace UmansGate.Queue

def MAX_FLUSH_RETRIES : Nat := 10
def RETRY_BASE_MS : Nat := 1000
def RETRY_MAX_MS : Nat := 30000

structure QueuedUpdate (Req Res : Type) where
  id : Nat
  reqMeta : Req
  res : Res
  deriving DecidableEq, Repr

/-- A `flushNow` that awaits the reply of the store. -/
structure Flush (Req Res : Type) where
  batch : List (QueuedUpdate Req Res)
  /-- It was called by `guardedFlush`. -/
  guarded : Bool
  deriving DecidableEq, Repr

/-- The promise that `this.flushing` holds. -/
inductive Flushing where
  | running
  /-- `flushNow` is over, `ok` unless it threw; the `finally` handler has
  not run. -/
  | settled (ok : Bool)
  deriving DecidableEq, Repr

/-- An armed `setTimeout`. -/
structure Timer where
  id : Nat
  due : Int
  deriving DecidableEq, Repr

/-- The fields of `QueueConfig` the queue reads, and which calls of
`onDrop` throw. -/
structure QueueConfig (Req Res : Type) where
  flushIntervalMs : Int
  flushBatch : Int
  queueMaxDepth : Int
  onDropThrows : QueuedUpdate Req Res → Bool := fun _ => false

structure WriteQueue (Req Res : Type) where
  config : QueueConfig Req Res
  queue : List (QueuedUpdate Req Res)
  flushTimer : Option Nat
  flushTimers : List Timer
  nextTimer : Nat
  retryTimer : Option Int
  flushRetryCount : Nat
  flushing : Option Flushing
  /-- Handlers that `guardedFlush` chained to `this.flushing`. -/
  chained : Nat
  /-- Chained handlers whose promise was fulfilled. -/
  resumed : Nat
  inFlight : List (Flush Req Res)
  droppedCount : Nat
  now : Int
  queued : List (QueuedUpdate Req Res)
  committed : List (List (QueuedUpdate Req Res))
  dropped : List (QueuedUpdate Req Res)

/-- How `batchUpdate` and what follows it end. -/
inductive Reply where
  /-- The batch is stored; `getUpstreamP50` or `onFlush` may throw then. -/
  | resolved (throws : Bool)
  | rejected
  deriving DecidableEq, Repr

inductive Op (Req Res : Type) where
  | queueUpdate (id : Nat) (reqMeta : Req) (res : Res)
  | flushNow
  | drainForShutdown
  | flushTimeout (id : Nat)
  | retryTimeout
  | reply (n : Nat) (reply : Reply)
  | finallyHandler
  | thenHandler
  | tick (ms : Nat)

namespace WriteQueue

variable {Req Res : Type}

def new (config : QueueConfig Req Res) : WriteQueue Req Res where
  config := config
  queue := []
  flushTimer := none
  flushTimers := []
  nextTimer := 0
  retryTimer := none
  flushRetryCount := 0
  flushing := none
  chained := 0
  resumed := 0
  inFlight := []
  droppedCount := 0
  now := 0
  queued := []
  committed := []
  dropped := []

/-- `clearTimeout(this.flushTimer); this.flushTimer = null`. -/
def clearFlushTimer (s : WriteQueue Req Res) : WriteQueue Req Res :=
  match s.flushTimer with
  | none => s
  | some id => { s with flushTimer := none, flushTimers := s.flushTimers.filter (·.id ≠ id) }

def armFlushTimer (s : WriteQueue Req Res) : WriteQueue Req Res :=
  { s with
    flushTimer := some s.nextTimer
    flushTimers := s.flushTimers ++ [⟨s.nextTimer, s.now + s.config.flushIntervalMs⟩]
    nextTimer := s.nextTimer + 1 }

/-- `this.droppedCount++; this.onDrop?.(dropped)`. -/
def drop (s : WriteQueue Req Res) (dropped : QueuedUpdate Req Res) : WriteQueue Req Res :=
  { s with droppedCount := s.droppedCount + 1, dropped := s.dropped ++ [dropped] }

/-- A `flushNow` is over. -/
def settle (s : WriteQueue Req Res) (guarded ok : Bool) : WriteQueue Req Res :=
  if guarded then { s with flushing := some (.settled ok) } else s

/-- `flushNow` up to its `await`. -/
def flushNow (s : WriteQueue Req Res) (guarded : Bool) : WriteQueue Req Res :=
  let s := { s with flushTimer := none }
  match s.queue with
  | [] => s.settle guarded true
  | batch => { s with queue := [], inFlight := s.inFlight ++ [⟨batch, guarded⟩] }

def guardedFlush (s : WriteQueue Req Res) : WriteQueue Req Res :=
  match s.flushing with
  | some _ => { s with chained := s.chained + 1 }
  | none => { s with flushing := some .running }.flushNow true

/-- The `catch` of `flushNow`. -/
def flushFailed (s : WriteQueue Req Res) (batch : List (QueuedUpdate Req Res)) :
    WriteQueue Req Res :=
  let s := { s with queue := batch ++ s.queue, flushRetryCount := s.flushRetryCount + 1 }
  if s.flushRetryCount ≥ MAX_FLUSH_RETRIES then
    { s with flushRetryCount := 0, retryTimer := none, queue := [] }
  else
    let delay := min (RETRY_BASE_MS * 2 ^ (s.flushRetryCount - 1)) RETRY_MAX_MS
    { s with retryTimer := some (s.now + delay) }

/-- The rest of `flushNow` behind a resolved `batchUpdate`. -/
def flushDone (s : WriteQueue Req Res) (batch : List (QueuedUpdate Req Res)) :
    WriteQueue Req Res :=
  { s with retryTimer := none, flushRetryCount := 0, committed := s.committed ++ [batch] }

/-- The overflow check of `queueUpdate`. -/
def dropOverflow (s : WriteQueue Req Res) : WriteQueue Req Res :=
  if (s.queue.length : Int) ≥ s.config.queueMaxDepth then
    match s.queue with
    | [] => s
    | dropped :: rest => { s with queue := rest }.drop dropped
  else s

def queueUpdate (s : WriteQueue Req Res) (item : QueuedUpdate Req Res) : WriteQueue Req Res :=
  let s := { s with queue := s.queue ++ [item], queued := s.queued ++ [item] }
  let shouldFlush := (s.queue.length : Int) ≥ s.config.flushBatch ∨
    (s.queue.length : Int) ≥ s.config.queueMaxDepth
  if ¬ shouldFlush ∧ s.flushTimer = none then s.armFlushTimer
  else s.clearFlushTimer.guardedFlush.dropOverflow

/-- The loop of `drainForShutdown` over the entries left: a throw of
`onDrop` ends it. -/
def drainLoop (s : WriteQueue Req Res) : List (QueuedUpdate Req Res) → WriteQueue Req Res
  | [] => s
  | dropped :: rest =>
    let s := { s with queue := rest }.drop dropped
    if s.config.onDropThrows dropped then s else s.drainLoop rest

def drainForShutdown (s : WriteQueue Req Res) : WriteQueue Req Res :=
  let s := { s.clearFlushTimer with retryTimer := none }
  s.drainLoop s.queue

/-- The `n`-th `flushNow` in flight resumes behind its `await`. -/
def resume (s : WriteQueue Req Res) (n : Nat) (reply : Reply) : WriteQueue Req Res :=
  match s.inFlight[n]? with
  | none => s
  | some f =>
    let s := { s with inFlight := s.inFlight.eraseIdx n }
    match reply with
    | .rejected => (s.flushFailed f.batch).settle f.guarded true
    | .resolved throws => (s.flushDone f.batch).settle f.guarded (!throws)

/-- `this.flushing = null`, and the chained handlers become due unless the
flush threw. -/
def finallyHandler (s : WriteQueue Req Res) : WriteQueue Req Res :=
  match s.flushing with
  | some (.settled ok) =>
    { s with
      flushing := none
      chained := 0
      resumed := if ok then s.resumed + s.chained else s.resumed }
  | _ => s

def thenHandler (s : WriteQueue Req Res) : WriteQueue Req Res :=
  match s.resumed with
  | 0 => s
  | n + 1 =>
    let s := { s with resumed := n }
    if 0 < s.queue.length ∧ s.flushing = none then s.guardedFlush else s

def step (s : WriteQueue Req Res) : Op Req Res → WriteQueue Req Res
  | .queueUpdate id reqMeta res => s.queueUpdate ⟨id, reqMeta, res⟩
  | .flushNow => s.flushNow false
  | .drainForShutdown => s.drainForShutdown
  | .flushTimeout id =>
    match s.flushTimers.find? (·.id = id) with
    | none => s
    | some timer =>
      if timer.due ≤ s.now then
        { s with
          flushTimers := s.flushTimers.filter (·.id ≠ id)
          flushTimer := none }.guardedFlush
      else s
  | .retryTimeout =>
    match s.retryTimer with
    | none => s
    | some due => if due ≤ s.now then { s with retryTimer := none }.guardedFlush else s
  | .reply n reply => s.resume n reply
  | .finallyHandler => s.finallyHandler
  | .thenHandler => s.thenHandler
  | .tick ms => { s with now := s.now + ms }

/-- The state a list of steps leads to from a fresh queue. -/
def after (config : QueueConfig Req Res) (ops : List (Op Req Res)) : WriteQueue Req Res :=
  Lib.run step (new config) ops

end WriteQueue

end UmansGate.Queue
