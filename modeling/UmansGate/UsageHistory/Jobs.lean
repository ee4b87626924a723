/-
UmansGate.UsageHistory.Jobs — what writes the usage history while the proxy
runs (`src/index.ts`, `POST /api/usage/downsample` of `src/viewer.ts`).

The timers are left out: a job runs at any time. `inserted` has every sample
that was ever inserted, which no job reads. A job that throws half-way is
left out.
-/
import UmansGate.Lib.Transition
import UmansGate.UsageHistory.Daily

namespace UmansGate.UsageHistory

open UmansGate.Lib

/-- Backfill, then recompute the days whose samples are still there, then
prune. -/
def runDailyDownsample (store : UsageHistoryStore) (config : DownsampleConfig) (now : Int) :
    UsageHistoryStore :=
  let today := dayUtcOf now
  let start := store.getEarliestSampleDay.getD (addDays today (-config.usageRawRetentionDays))
  let retentionCutoffDay := addDays today (-(config.usageRawRetentionDays - 1))
  let store :=
    if start < retentionCutoffDay then
      downsampleRange store config now start (addDays retentionCutoffDay (-1)) false
    else store
  let store := downsampleRange store config now retentionCutoffDay today true
  pruneOldSamples store now config.usageRawRetentionDays

def refreshTodayDaily (store : UsageHistoryStore) (config : DownsampleConfig) (now : Int) :
    UsageHistoryStore :=
  downsampleDay store config now (dayUtcOf now)

/-- The days of a request for a downsampling, by its parameters. -/
def requestedDays (config : DownsampleConfig) (now : Int) (fromParam toParam : Option Int) :
    Int × Int :=
  let today := dayUtcOf now
  (fromParam.getD (addDays today (-(max config.usageRawRetentionDays 1))), toParam.getD today)

structure HistoryRun where
  now : Int
  config : DownsampleConfig
  store : UsageHistoryStore
  inserted : List (ℕ × UsageSample)

/-- What can happen to the history. `event` is a transition that the
detector found. -/
inductive HistoryOp where
  | clock (now : Int)
  | reload (config : DownsampleConfig)
  | snapshot (snap : UsageSample) (throws : Bool)
  | event (snap : UsageSample) (transition : EventTransition) (tupleKind : TupleKind)
      (previousEventId : Option ℕ)
  | dailyDownsample
  | refreshToday
  | downsample (fromParam toParam : Option Int)
  | prune
  | restart
  deriving DecidableEq, Repr

namespace HistoryRun

/-- The samples that the snapshot adds. -/
def written (store : UsageHistoryStore) (snap : UsageSample) (throws : Bool) :
    List (ℕ × UsageSample) :=
  if snap.ambient.ok = true ∧ store.lastKey ≠ some snap.ambient ∧ throws = false then
    [(store.samples.nextId, snap)]
  else []

def step (s : HistoryRun) : HistoryOp → HistoryRun
  | .clock now => { s with now := now }
  | .reload config => { s with config := config }
  | .snapshot snap throws =>
    { s with
      store := s.store.handleSnapshot snap throws
      inserted := s.inserted ++ written s.store snap throws }
  | .event snap transition tupleKind previousEventId =>
    { s with store := s.store.recordEvent snap transition tupleKind previousEventId }
  | .dailyDownsample => { s with store := runDailyDownsample s.store s.config s.now }
  | .refreshToday => { s with store := refreshTodayDaily s.store s.config s.now }
  | .downsample fromParam toParam =>
    let (start, stop) := requestedDays s.config s.now fromParam toParam
    { s with store := downsampleRange s.store s.config s.now start stop true }
  | .prune =>
    { s with store := pruneOldSamples s.store s.now s.config.usageRawRetentionDays }
  | .restart => { s with store := .new s.store.samples s.store.events s.store.daily }

/-- The history over an empty database. -/
def init (now : Int) (config : DownsampleConfig) : HistoryRun :=
  ⟨now, config, .new .empty .empty [], []⟩

end HistoryRun

end UmansGate.UsageHistory
