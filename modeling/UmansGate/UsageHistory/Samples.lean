/-
UmansGate.UsageHistory.Samples — how samples are stored and coalesced
(`ambientKey`, `handleSnapshot` and the constructor of
`src/usage-history/store.ts`).

A row has a column for every field, and integers for the flags. The
constructor reads the key of the last row back out of its columns.
`SampleRun` keeps next to the store what coalescing over stored samples
would have kept, which no code reads.
-/
import UmansGate.Lib.Transition
import UmansGate.UsageHistory.Store

namespace UmansGate.UsageHistory

open UmansGate.Lib

/-- The columns of `usage_samples` besides the id. -/
structure UsageSampleRow where
  fetchedAt : Int
  ok : Int
  userId : Option String
  plan : String
  planSlug : Option String
  requestsLimit : Option ℚ
  requestsHardCap : Option ℚ
  requestsWindowSeconds : Option ℚ
  concurrencySoftLimit : ℚ
  concurrencyHardCap : ℚ
  requestsInWindow : ℚ
  weightedRequestsInWindow : ℚ
  requestsRemaining : Option ℚ
  weightedRemainingRequests : Option ℚ
  concurrentSessions : ℚ
  weightedConcurrentSessions : ℚ
  tokensIn : ℚ
  tokensOut : ℚ
  tokensCached : ℚ
  windowStartedAt : Option Int
  windowResetsAt : Option Int
  windowRemainingMinutes : Option ℚ
  priorityLow : Int
  boxedUntil : Option Int
  boxedReason : Option String
  unitsDemoted : Int
  demotedUntil : Option Int
  serviceModeCurrent : String
  serviceModeResetsAt : Option Int
  deriving DecidableEq, Repr

/-- What `stmtInsert` is run with. -/
def insertParams (snap : UsageSample) : UsageSampleRow :=
  let s := snap.ambient
  ⟨snap.fetchedAt, if s.ok then 1 else 0, s.userId, s.plan, s.planSlug, s.requestsLimit,
    s.requestsHardCap, s.requestsWindowSeconds, s.concurrencySoftLimit, s.concurrencyHardCap,
    s.requestsInWindow, s.weightedRequestsInWindow, s.requestsRemaining,
    s.weightedRemainingRequests, s.concurrentSessions, s.weightedConcurrentSessions, s.tokensIn,
    s.tokensOut, s.tokensCached, s.windowStartedAt, s.windowResetsAt, s.windowRemainingMinutes,
    if s.priorityLow then 1 else 0, s.boxedUntil, s.boxedReason, if s.unitsDemoted then 1 else 0,
    s.demotedUntil, s.serviceModeCurrent, s.serviceModeResetsAt⟩

/-- The key that the constructor makes of the last row. -/
def seedKey (last : UsageSampleRow) : Ambient :=
  ⟨last.ok == 1, last.userId, last.plan, last.planSlug, last.requestsLimit, last.requestsHardCap,
    last.requestsWindowSeconds, last.concurrencySoftLimit, last.concurrencyHardCap,
    last.requestsInWindow, last.weightedRequestsInWindow, last.requestsRemaining,
    last.weightedRemainingRequests, last.concurrentSessions, last.weightedConcurrentSessions,
    last.tokensIn, last.tokensOut, last.tokensCached, last.windowStartedAt, last.windowResetsAt,
    last.windowRemainingMinutes, last.priorityLow == 1, last.boxedUntil, last.boxedReason,
    last.unitsDemoted == 1, last.demotedUntil, last.serviceModeCurrent, last.serviceModeResetsAt⟩

/-- A snapshot, with whether its insert would fail, or a new start over the
same database. -/
inductive SampleOp where
  | snapshot (snap : UsageSample) (throws : Bool)
  | restart
  deriving DecidableEq, Repr

/-- The ambient state of the last sample. -/
def lastAmbient (stored : List UsageSample) : Option Ambient := stored.getLast?.map (·.ambient)

/-- Coalescing as it is meant: a successful snapshot is stored when it differs
from the last stored sample and its insert does not fail. -/
def coalesce (stored : List UsageSample) : SampleOp → List UsageSample
  | .snapshot snap throws =>
    if snap.ambient.ok = true ∧ lastAmbient stored ≠ some snap.ambient ∧ throws = false then
      stored ++ [snap]
    else stored
  | .restart => stored

namespace UsageHistoryStore

/-- The stored samples, the latest last. -/
def stored (store : UsageHistoryStore) : List UsageSample := store.samples.rows.map (·.2)

end UsageHistoryStore

structure SampleRun where
  store : UsageHistoryStore
  meant : List UsageSample

namespace SampleRun

def init : SampleRun := ⟨.new .empty .empty [], []⟩

def step (s : SampleRun) (op : SampleOp) : SampleRun where
  store := match op with
    | .snapshot snap throws => s.store.handleSnapshot snap throws
    | .restart => .new s.store.samples s.store.events s.store.daily
  meant := coalesce s.meant op

end SampleRun

end UmansGate.UsageHistory
