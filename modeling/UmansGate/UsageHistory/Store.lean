/-
UmansGate.UsageHistory.Store — the usage history tables
(`src/usage-history/store.ts`).

A UTC day is its number since the epoch, and dates compare as the numbers
do; a date text that is none names no day. Columns that `UsageSnapshot`
also has are the snapshot's; `ok` and the flags are Booleans. A daily entry
keeps, besides the row, the samples it was computed from, which no query
reads.
-/
import Mathlib.Data.Rat.Floor
import UmansGate.Lib.Table

namespace UmansGate.UsageHistory

open UmansGate.Lib

def MS_PER_DAY : Int := 24 * 60 * 60 * 1000
def MS_PER_MINUTE : Int := 60 * 1000

def dayUtcOf (ms : Int) : Int := ms / MS_PER_DAY

def utcMidnightMs (dayUtc : Int) : Int := dayUtc * MS_PER_DAY

def addDays (dayUtc days : Int) : Int := dayUtcOf (utcMidnightMs dayUtc + days * MS_PER_DAY)

/-- A snapshot without the time it was fetched at, as `ambientKey` compares
it. -/
structure Ambient where
  ok : Bool
  userId : Option String
  plan : String
  planSlug : Option String
  requestsLimit : Option ℚ
  requestsHardCap : Option ℚ
  requestsWindowSeconds : Option ℚ
  concurrencySoftLimit : ℚ
  concurrencyHardCap : ℚ
  requestsInWindow : ℚ
  weightedRequestsInWindow : ℚ
  requestsRemaining : Option ℚ
  weightedRemainingRequests : Option ℚ
  concurrentSessions : ℚ
  weightedConcurrentSessions : ℚ
  tokensIn : ℚ
  tokensOut : ℚ
  tokensCached : ℚ
  windowStartedAt : Option Int
  windowResetsAt : Option Int
  windowRemainingMinutes : Option ℚ
  priorityLow : Bool
  boxedUntil : Option Int
  boxedReason : Option String
  unitsDemoted : Bool
  demotedUntil : Option Int
  serviceModeCurrent : String
  serviceModeResetsAt : Option Int
  deriving DecidableEq, Repr

/-- A snapshot, and the row of `usage_samples` that is made of it. -/
structure UsageSample where
  fetchedAt : Int
  ambient : Ambient
  deriving DecidableEq, Repr

inductive EventTransition where
  | onset
  | resolved
  | morph
  deriving DecidableEq, Repr

inductive TupleKind where
  | priority
  | serviceMode
  deriving DecidableEq, Repr

/-- A row of `usage_events`; `onset_at` is the time of its snapshot. -/
structure UsageEvent where
  onsetAt : Int
  transition : EventTransition
  tupleKind : TupleKind
  previousEventId : Option ℕ
  ambient : Ambient
  cacheHitRate : Option ℚ
  deriving DecidableEq, Repr

inductive DayCompleteness where
  | full
  | partialStart
  | partialEnd
  | partialBoth
  | missing
  | incompleteWindow
  deriving DecidableEq, Repr

/-- The ten columns of a first event. -/
structure TriggerMoment where
  concurrentSessions : Option ℚ
  weightedConcurrentSessions : Option ℚ
  requestsInWindow : Option ℚ
  weightedRequestsInWindow : Option ℚ
  requestsRemaining : Option ℚ
  requestsLimit : Option ℚ
  tokensIn : Option ℚ
  tokensOut : Option ℚ
  tokensCached : Option ℚ
  cacheHitRate : Option ℚ
  deriving DecidableEq, Repr

def NULL_TRIGGER : TriggerMoment :=
  ⟨none, none, none, none, none, none, none, none, none, none⟩

/-- The columns that are null for a day without samples. -/
structure DayActivity where
  firstActivityUtc : Int
  lastActivityUtc : Int
  accumulatedActiveMinutes : Int
  utcClockSpanMinutes : Int
  firstActivityUtcHour : ℕ
  lastActivityUtcHour : ℕ
  /-- The record whose text the column has: hour and minutes. -/
  activeMinutesByUtcHour : List (ℕ × ℚ)
  tokensInTotal : ℚ
  tokensOutTotal : ℚ
  tokensCachedTotal : ℚ
  requestsInWindowPeak : ℚ
  requestsInWindowAvg : ℚ
  cacheHitRateAvg : Option ℚ
  concurrentSessionsPeak : ℚ
  concurrentSessionsAvg : ℚ
  weightedConcurrentSessionsPeak : ℚ
  weightedConcurrentSessionsAvg : ℚ
  concurrencyHardCap : ℚ
  requestsLimit : Option ℚ
  requestsHardCap : Option ℚ
  deriving DecidableEq, Repr

structure UsageDailyRow where
  dayUtc : Int
  dayCompleteness : DayCompleteness
  activity : Option DayActivity
  atFirstPriorityEvent : TriggerMoment
  atFirstServiceModeEvent : TriggerMoment
  priorityLowMinutes : Int
  boxedMinutes : Int
  unitsDemotedMinutes : Int
  serviceModeNonNormalMinutes : Int
  priorityEventsCount : ℕ
  serviceModeEventsCount : ℕ
  priorityBanTotalDurationMs : Int
  serviceModeBanTotalDurationMs : Int
  downsampledAt : Int
  deriving DecidableEq, Repr

/-- A daily row with the samples, under their ids, that it was computed
from. -/
structure DailyEntry where
  row : UsageDailyRow
  source : List (ℕ × UsageSample)
  deriving DecidableEq, Repr

structure UsageHistoryStore where
  samples : Table UsageSample
  events : Table UsageEvent
  daily : Dict Int DailyEntry
  /-- The ambient state of the last sample written. -/
  lastKey : Option Ambient

/-- The cached part of all tokens. -/
def deriveCacheHitRate (snap : Ambient) : Option ℚ :=
  let denom := snap.tokensIn + snap.tokensOut + snap.tokensCached
  if denom = 0 then none else some (snap.tokensCached / denom)

namespace UsageHistoryStore

/-- The constructor over the tables of an opened database. -/
def new (samples : Table UsageSample) (events : Table UsageEvent) (daily : Dict Int DailyEntry) :
    UsageHistoryStore :=
  ⟨samples, events, daily, samples.rows.getLast?.map fun r => r.2.ambient⟩

/-- A successful snapshot that differs from the last one is a sample; an
insert that throws leaves the key. -/
def handleSnapshot (store : UsageHistoryStore) (snap : UsageSample) (throws : Bool) :
    UsageHistoryStore :=
  if ¬ snap.ambient.ok then store
  else if store.lastKey = some snap.ambient then store
  else
    let store := { store with lastKey := some snap.ambient }
    if throws then store else { store with samples := store.samples.insert snap }

def recordEvent (store : UsageHistoryStore) (snap : UsageSample) (transition : EventTransition)
    (tupleKind : TupleKind) (previousEventId : Option ℕ) : UsageHistoryStore :=
  let event : UsageEvent := ⟨snap.fetchedAt, transition, tupleKind, previousEventId, snap.ambient,
    deriveCacheHitRate snap.ambient⟩
  { store with events := store.events.insert event }

/-- The time lies in the days from `start` to `stop`. -/
def inDays (start stop ms : Int) : Bool :=
  utcMidnightMs start ≤ ms && decide (ms < utcMidnightMs stop + MS_PER_DAY)

def getSampleRange (store : UsageHistoryStore) (start stop : Int) : List (ℕ × UsageSample) :=
  (store.samples.rows.filter fun r => inDays start stop r.2.fetchedAt).mergeSort
    fun a b => a.2.fetchedAt ≤ b.2.fetchedAt

def getEventsForDateRange (store : UsageHistoryStore) (start stop : Int) :
    List (ℕ × UsageEvent) :=
  (store.events.rows.filter fun r => inDays start stop r.2.onsetAt).mergeSort
    fun a b => a.2.onsetAt ≤ b.2.onsetAt

def getEarliestSampleDay (store : UsageHistoryStore) : Option Int :=
  ((store.samples.rows.map fun r => r.2.fetchedAt).min?).map dayUtcOf

def getDailyRow (store : UsageHistoryStore) (dayUtc : Int) : Option DailyEntry :=
  store.daily.get? dayUtc

def upsertDailyRow (store : UsageHistoryStore) (entry : DailyEntry) : UsageHistoryStore :=
  { store with daily := store.daily.set entry.row.dayUtc entry }

def deleteSamplesInRange (store : UsageHistoryStore) (start stop : Int) : UsageHistoryStore :=
  { store with samples := store.samples.delete fun _ s => inDays start stop s.fetchedAt }

def deleteSamplesOlderThan (store : UsageHistoryStore) (cutoffMs : Int) : UsageHistoryStore :=
  { store with samples := store.samples.delete fun _ s => s.fetchedAt < cutoffMs }

end UsageHistoryStore

end UmansGate.UsageHistory
