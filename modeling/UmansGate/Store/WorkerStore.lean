/-
UmansGate.Store.WorkerStore — the store that writes through a worker
(`src/workers/worker-store.ts`, class `WorkerCaptureStore`) and the worker
(`src/workers/write-worker.ts`), over one database file.

The parties share the file and two channels, both first in first out:
`inbox` holds what was posted to the worker, `outbox` the replies and the
error events for the main thread. A step is a method call or a callback of
the main thread, one transaction of the worker, or a step of the main
thread's own connection. A step whose guard fails leaves the state alone.

`ensureConnection` assigns `db` before it migrates and prepares, and runs
outside the `try`: when it throws there, `stmtUpdate` stays null and the
error event is all that answers the batch. The main thread has migrated the
same file before, so the only write of the worker's migration is the
backfill, which is one transaction. Whether the worker lives on after an
error event is left open.

`written` and `skipped` record the history: the batches whose transaction
committed, and those acknowledged without one.
-/
import UmansGate.Lib.Promises
import UmansGate.Store.WriteWorker

namespace UmansGate.Store

open UmansGate.Lib

def ACK_TIMEOUT_MS : ℕ := 10000

/-- The items of a batch: the capture of each and its update. -/
abbrev BatchItems := List (ℕ × UpdateParams)

/-- The promise itself is in `Promises`, and its timer is armed while the
entry is there. -/
structure PendingBatch where
  /-- When its timer fires. -/
  due : Int
  itemCount : ℕ

inductive BatchOutcome where
  | resolved
  | rejected (error : String)
  deriving DecidableEq, Repr

inductive WorkerMessage where
  | batch (batchId : ℕ) (items : BatchItems)
  | close

/-- What the main thread receives. -/
inductive WorkerEvent where
  | ack (batchId : ℕ)
  | error (batchId : ℕ) (error : Option String)
  /-- The `error` event of the worker. -/
  | crashed (message : String)
  deriving DecidableEq, Repr

/-- `db` and `stmtUpdate` of the worker. -/
inductive Connection where
  /-- Both are null. -/
  | closed
  /-- Only `stmtUpdate` is null. -/
  | unprepared
  | ready
  deriving DecidableEq, Repr

/-- How `ensureConnection` ends. -/
inductive Opening where
  | ready (clock : Clock)
  /-- `new Database` throws. -/
  | noDatabase (message : String) (survives : Bool)
  /-- What comes after it throws, before or after the backfill. -/
  | notPrepared (backfilled : Option Clock) (message : String) (survives : Bool)

structure WorkerStore where
  /-- `nextBatchId`, `pending` and the outcomes of the promises. -/
  batches : Promises PendingBatch BatchOutcome
  /-- The `drainDeadline` of every `close` under way. -/
  closing : List Int
  terminated : Bool
  alive : Bool
  inbox : List WorkerMessage
  connection : Connection
  outbox : List WorkerEvent
  db : CaptureDb
  now : Int
  written : Dict ℕ BatchItems
  skipped : List ℕ

inductive WorkerOp where
  | batchUpdate (items : BatchItems)
  | close
  /-- The loop of a `close` under way tests its condition. -/
  | closePoll (n : ℕ)
  | ackTimeout (batchId : ℕ)
  /-- The next event of the worker is handled. -/
  | onmessage
  /-- The worker meets a batch without a connection. -/
  | ensureConnection (opening : Opening)
  /-- The worker handles a batch; `throws` is the error of a transaction
  that fails. -/
  | handleBatch (throws : Option (Option String)) (clock : Clock) (now : EpochMs)
  | handleClose
  /-- A call on the main thread's connection. -/
  | mainThread (op : Op)
  | tick (ms : ℕ)

namespace WorkerStore

/-- The constructor, over a database that the main thread has open. -/
def new (db : CaptureDb) : WorkerStore where
  batches := Promises.new 1
  closing := []
  terminated := false
  alive := true
  inbox := []
  connection := .closed
  outbox := []
  db := db
  now := 0
  written := []
  skipped := []

/-! ## The main thread -/

def batchUpdate (s : WorkerStore) (items : BatchItems) : WorkerStore :=
  let batchId := s.batches.next
  { s with
    batches := s.batches.post ⟨s.now + ACK_TIMEOUT_MS, items.length⟩
    inbox := s.inbox ++ [.batch batchId items] }

/-- The callback of the timer of a batch. -/
def ackTimeout (s : WorkerStore) (batchId : ℕ) : WorkerStore :=
  match s.batches.pending.get? batchId with
  | none => s
  | some pending =>
    if pending.due ≤ s.now then
      { s with
        batches := s.batches.settle batchId
          (.rejected ("worker ack timeout for batch " ++ toString batchId)) }
    else s

/-- `worker.onmessage` and `worker.onerror`. -/
def onmessage (s : WorkerStore) : WorkerStore :=
  match s.outbox with
  | [] => s
  | event :: rest =>
    let s := { s with outbox := rest }
    match event with
    | .ack batchId => { s with batches := s.batches.settle batchId .resolved }
    | .error batchId error =>
      { s with
        batches := s.batches.settle batchId (.rejected (error.getD "unknown worker error")) }
    | .crashed message =>
      { s with batches := s.batches.settleAll (.rejected ("worker crashed: " ++ message)) }

/-- The rest of `close` behind its loop. -/
def finishClose (s : WorkerStore) : WorkerStore :=
  { s with
    batches := s.batches.settleAll (.rejected "worker closed before ack")
    terminated := true }

def close (s : WorkerStore) : WorkerStore :=
  let s := { s with inbox := s.inbox ++ [WorkerMessage.close] }
  if s.batches.pending.length = 0 then s.finishClose
  else { s with closing := s.closing ++ [s.now + ACK_TIMEOUT_MS] }

def closePoll (s : WorkerStore) (n : ℕ) : WorkerStore :=
  match s.closing[n]? with
  | none => s
  | some drainDeadline =>
    if s.batches.pending.length > 0 ∧ s.now < drainDeadline then s
    else { s with closing := s.closing.eraseIdx n }.finishClose

/-! ## The worker -/

/-- The message that the worker has next. -/
def nextMessage (s : WorkerStore) : Option WorkerMessage :=
  if s.alive ∧ ¬ s.terminated then s.inbox.head? else none

/-- The worker is done with its message and posts an event. -/
def reply (s : WorkerStore) (event : WorkerEvent) : WorkerStore :=
  { s with inbox := s.inbox.tail, outbox := s.outbox ++ [event] }

def ensureConnection (s : WorkerStore) (opening : Opening) : WorkerStore :=
  match s.nextMessage with
  | some (.batch _ _) =>
    if s.connection = .closed then
      match opening with
      | .ready clock =>
        { s with db := s.db.backfillFromCaptures clock, connection := .ready }
      | .noDatabase message survives =>
        { s.reply (.crashed message) with alive := survives }
      | .notPrepared backfilled message survives =>
        let db := match backfilled with
          | none => s.db
          | some clock => s.db.backfillFromCaptures clock
        { s.reply (.crashed message) with db := db, connection := .unprepared, alive := survives }
    else s
  | _ => s

/-- `executeBatch` in its `try`, with the reply. -/
def handleBatch (s : WorkerStore) (throws : Option (Option String)) (clock : Clock)
    (now : EpochMs) : WorkerStore :=
  match s.nextMessage with
  | some (.batch batchId items) =>
    match s.connection with
    | .closed => s
    | .unprepared => { s.reply (.ack batchId) with skipped := s.skipped ++ [batchId] }
    | .ready =>
      match throws with
      | some error => s.reply (.error batchId error)
      | none =>
        { s.reply (.ack batchId) with
          db := s.db.executeBatch items clock now
          written := s.written ++ [(batchId, items)] }
  | _ => s

def handleClose (s : WorkerStore) : WorkerStore :=
  match s.nextMessage with
  | some .close => { s with inbox := s.inbox.tail, connection := .closed }
  | _ => s

def step (s : WorkerStore) : WorkerOp → WorkerStore
  | .batchUpdate items => s.batchUpdate items
  | .close => s.close
  | .closePoll n => s.closePoll n
  | .ackTimeout batchId => s.ackTimeout batchId
  | .onmessage => s.onmessage
  | .ensureConnection opening => s.ensureConnection opening
  | .handleBatch throws clock now => s.handleBatch throws clock now
  | .handleClose => s.handleClose
  | .mainThread op => { s with db := s.db.step op }
  | .tick ms => { s with now := s.now + ms }

/-- The state that a list of steps leads to from a new store. -/
def after (db : CaptureDb) (ops : List WorkerOp) : WorkerStore := run step (new db) ops

end WorkerStore

end UmansGate.Store
