/-
UmansGate.UsageHistory.Daily — the daily row and the downsampling of days
(`src/usage-history/daily.ts`).

Minutes are rational numbers, so sums are exact; the source adds doubles. The
clock is read once for a call.
-/
import UmansGate.UsageHistory.Store

namespace UmansGate.UsageHistory

open UmansGate.Lib

/-- The settings of the downsampling, which a reload can change. -/
structure DownsampleConfig where
  usageGapThresholdMinutes : ℚ
  usageIdleSessionTimeoutMinutes : ℚ
  usageRawRetentionDays : Int
  deriving DecidableEq, Repr

/-- The fields that real traffic changes. -/
def activityKey (s : Ambient) : ℚ × ℚ × ℚ × ℚ :=
  (s.concurrentSessions, s.tokensIn, s.tokensOut, s.tokensCached)

def triggerMomentFromEvent (ev : UsageEvent) : TriggerMoment where
  concurrentSessions := some ev.ambient.concurrentSessions
  weightedConcurrentSessions := some ev.ambient.weightedConcurrentSessions
  requestsInWindow := some ev.ambient.requestsInWindow
  weightedRequestsInWindow := some ev.ambient.weightedRequestsInWindow
  requestsRemaining := ev.ambient.requestsRemaining
  requestsLimit := ev.ambient.requestsLimit
  tokensIn := some ev.ambient.tokensIn
  tokensOut := some ev.ambient.tokensOut
  tokensCached := some ev.ambient.tokensCached
  cacheHitRate := ev.cacheHitRate

def getUTCHours (ms : Int) : ℕ := (ms / (60 * MS_PER_MINUTE) % 24).toNat

/-- `Math.round`. -/
def mathRound (x : ℚ) : Int := ⌊x + 1 / 2⌋

/-! ## Active minutes -/

/-- The variables of the loop over adjacent samples. -/
structure ActivityScan where
  hourBuckets : List ℚ
  accumulatedActiveMinutes : ℚ
  hasGap : Bool
  idleStreakMs : Int
  deriving DecidableEq, Repr

def ActivityScan.new : ActivityScan := ⟨List.replicate 24 0, 0, false, 0⟩

/-- The interval behind `prev` is active. -/
def ActivityScan.count (st : ActivityScan) (prev : UsageSample) (intervalMs : Int) :
    ActivityScan :=
  let minutes : ℚ := intervalMs / MS_PER_MINUTE
  { st with
    accumulatedActiveMinutes := st.accumulatedActiveMinutes + minutes
    hourBuckets := st.hourBuckets.modify (getUTCHours prev.fetchedAt) (· + minutes) }

def ActivityScan.step (config : DownsampleConfig) (st : ActivityScan) (prev next : UsageSample) :
    ActivityScan :=
  let intervalMs := next.fetchedAt - prev.fetchedAt
  let gapMs := config.usageGapThresholdMinutes * MS_PER_MINUTE
  let idleTimeoutMs := config.usageIdleSessionTimeoutMinutes * MS_PER_MINUTE
  if intervalMs > gapMs ∧ prev.ambient ≠ next.ambient then
    { st with hasGap := true, idleStreakMs := 0 }
  else if next.ambient.tokensIn ≠ prev.ambient.tokensIn ∨
      next.ambient.tokensOut ≠ prev.ambient.tokensOut ∨
      next.ambient.tokensCached ≠ prev.ambient.tokensCached then
    { st with idleStreakMs := 0 }.count prev intervalMs
  else if prev.ambient.concurrentSessions = 0 ∧ next.ambient.concurrentSessions = 0 then
    { st with idleStreakMs := 0 }
  else if activityKey prev.ambient = activityKey next.ambient then
    let st := { st with idleStreakMs := st.idleStreakMs + intervalMs }
    if st.idleStreakMs ≤ idleTimeoutMs then st.count prev intervalMs else st
  else { st with idleStreakMs := 0 }.count prev intervalMs

/-- The samples with their successors. -/
def adjacent (samples : List UsageSample) : List (UsageSample × UsageSample) :=
  samples.zip samples.tail

def activityScan (config : DownsampleConfig) (samples : List UsageSample) : ActivityScan :=
  (adjacent samples).foldl (fun st pair => st.step config pair.1 pair.2) .new

/-- The buckets that are not zero, in minutes rounded to a second. -/
def hourObj (hourBuckets : List ℚ) : List (ℕ × ℚ) :=
  (List.range 24).filterMap fun h =>
    let minutes := hourBuckets.getD h 0
    if minutes > 0 then some (h, mathRound (minutes * 60) / 60) else none

/-! ## The row -/

def peak (values : List ℚ) : ℚ := values.foldl max (values.headD 0)

def avg (values : List ℚ) : ℚ := values.sum / values.length

/-- The minutes of the intervals whose first sample has the flag; between
equal samples none. -/
def flaggedMinutes (flag : UsageSample → Bool) (samples : List UsageSample) : ℚ :=
  ((adjacent samples).map fun pair =>
    if pair.1.ambient ≠ pair.2.ambient ∧ flag pair.1 = true then
      ((pair.2.fetchedAt - pair.1.fetchedAt : Int) / MS_PER_MINUTE : ℚ)
    else 0).sum

def isBoxed (s : UsageSample) : Bool := s.ambient.boxedUntil.any fun t => t > s.fetchedAt

/-- How long the bans of a kind lasted, an open one up to `boxed_until` or
the end of the day. -/
def banTotalMs (tupleKind : TupleKind) (endMs : Int) (events : List (ℕ × UsageEvent)) : Int :=
  let evs := events.filter fun e => e.2.tupleKind = tupleKind
  let onsets := evs.filter fun e => e.2.transition = .onset
  (onsets.map fun onset =>
    let closer := evs.find? fun e => e.2.previousEventId = some onset.1
    let boxedUntil := onset.2.ambient.boxedUntil.filter (· < endMs)
    let stopMs := ((closer.map fun e => e.2.onsetAt).or boxedUntil).getD endMs
    max 0 (stopMs - onset.2.onsetAt)).sum

def completeness (firstHour lastHour : ℕ) (hasGap : Bool) : DayCompleteness :=
  if firstHour > 0 ∧ lastHour < 23 then .partialBoth
  else if firstHour > 0 then .partialStart
  else if lastHour < 23 then .partialEnd
  else if hasGap then .incompleteWindow
  else .full

def dayActivity (config : DownsampleConfig) (samples : List UsageSample)
    (first last : UsageSample) : DayActivity :=
  let scan := activityScan config samples
  let cacheHitRates := samples.filterMap fun s => deriveCacheHitRate s.ambient
  { firstActivityUtc := first.fetchedAt
    lastActivityUtc := last.fetchedAt
    accumulatedActiveMinutes := mathRound scan.accumulatedActiveMinutes
    utcClockSpanMinutes :=
      mathRound ((last.fetchedAt - first.fetchedAt : Int) / MS_PER_MINUTE : ℚ)
    firstActivityUtcHour := getUTCHours first.fetchedAt
    lastActivityUtcHour := getUTCHours last.fetchedAt
    activeMinutesByUtcHour := hourObj scan.hourBuckets
    tokensInTotal := last.ambient.tokensIn
    tokensOutTotal := last.ambient.tokensOut
    tokensCachedTotal := last.ambient.tokensCached
    requestsInWindowPeak := peak (samples.map (·.ambient.requestsInWindow))
    requestsInWindowAvg := avg (samples.map (·.ambient.requestsInWindow))
    cacheHitRateAvg := if cacheHitRates = [] then none else some (avg cacheHitRates)
    concurrentSessionsPeak := peak (samples.map (·.ambient.concurrentSessions))
    concurrentSessionsAvg := avg (samples.map (·.ambient.concurrentSessions))
    weightedConcurrentSessionsPeak := peak (samples.map (·.ambient.weightedConcurrentSessions))
    weightedConcurrentSessionsAvg := avg (samples.map (·.ambient.weightedConcurrentSessions))
    concurrencyHardCap := first.ambient.concurrencyHardCap
    requestsLimit := first.ambient.requestsLimit
    requestsHardCap := first.ambient.requestsHardCap }

/-- The row of these samples and events. -/
def dailyRow (config : DownsampleConfig) (now dayUtc : Int) (samples : List UsageSample)
    (events : List (ℕ × UsageEvent)) : UsageDailyRow :=
  let endMs := utcMidnightMs dayUtc + MS_PER_DAY
  let priorityEvents := events.filter fun e => e.2.tupleKind = .priority
  let serviceModeEvents := events.filter fun e => e.2.tupleKind = .serviceMode
  match samples.head?, samples.getLast? with
  | some first, some last =>
    let scan := activityScan config samples
    let trigger (events : List (ℕ × UsageEvent)) :=
      (events.head?.map fun e => triggerMomentFromEvent e.2).getD NULL_TRIGGER
    { dayUtc := dayUtc
      dayCompleteness :=
        completeness (getUTCHours first.fetchedAt) (getUTCHours last.fetchedAt) scan.hasGap
      activity := some (dayActivity config samples first last)
      atFirstPriorityEvent := trigger priorityEvents
      atFirstServiceModeEvent := trigger serviceModeEvents
      priorityLowMinutes := mathRound (flaggedMinutes (·.ambient.priorityLow) samples)
      boxedMinutes := mathRound (flaggedMinutes isBoxed samples)
      unitsDemotedMinutes := mathRound (flaggedMinutes (·.ambient.unitsDemoted) samples)
      serviceModeNonNormalMinutes :=
        mathRound (flaggedMinutes (fun s => s.ambient.serviceModeCurrent ≠ "normal") samples)
      priorityEventsCount := priorityEvents.length
      serviceModeEventsCount := serviceModeEvents.length
      priorityBanTotalDurationMs := banTotalMs .priority endMs events
      serviceModeBanTotalDurationMs := banTotalMs .serviceMode endMs events
      downsampledAt := now }
  | _, _ =>
    { dayUtc := dayUtc
      dayCompleteness := .missing
      activity := none
      atFirstPriorityEvent := NULL_TRIGGER
      atFirstServiceModeEvent := NULL_TRIGGER
      priorityLowMinutes := 0
      boxedMinutes := 0
      unitsDemotedMinutes := 0
      serviceModeNonNormalMinutes := 0
      priorityEventsCount := priorityEvents.length
      serviceModeEventsCount := serviceModeEvents.length
      priorityBanTotalDurationMs := 0
      serviceModeBanTotalDurationMs := 0
      downsampledAt := now }

/-- The row with the samples of the day that it was computed from. -/
def computeDailyRow (store : UsageHistoryStore) (config : DownsampleConfig) (now dayUtc : Int) :
    DailyEntry :=
  let samples := (store.getSampleRange dayUtc dayUtc).filter fun r =>
    UsageHistoryStore.inDays dayUtc dayUtc r.2.fetchedAt
  let events := (store.getEventsForDateRange dayUtc dayUtc).filter fun e =>
    UsageHistoryStore.inDays dayUtc dayUtc e.2.onsetAt
  ⟨dailyRow config now dayUtc (samples.map Prod.snd) events, samples⟩

/-! ## Downsampling -/

def downsampleDay (store : UsageHistoryStore) (config : DownsampleConfig) (now dayUtc : Int) :
    UsageHistoryStore :=
  store.upsertDailyRow (computeDailyRow store config now dayUtc)

/-- One day of `downsampleRange`. -/
def downsampleCursor (config : DownsampleConfig) (now : Int) (force : Bool)
    (store : UsageHistoryStore) (cursor : Int) : UsageHistoryStore :=
  let retentionCutoffMs := now - config.usageRawRetentionDays * MS_PER_DAY
  if force ∨ store.getDailyRow cursor = none then
    let store := downsampleDay store config now cursor
    if utcMidnightMs cursor < retentionCutoffMs then store.deleteSamplesInRange cursor cursor
    else store
  else store

/-- The days from `start` to `stop`. -/
def daysFrom (start stop : Int) : List Int :=
  (List.range (stop + 1 - start).toNat).map fun (i : ℕ) => start + i

def downsampleRange (store : UsageHistoryStore) (config : DownsampleConfig) (now : Int)
    (start stop : Int) (force : Bool) : UsageHistoryStore :=
  (daysFrom start stop).foldl (downsampleCursor config now force) store

def pruneOldSamples (store : UsageHistoryStore) (now retentionDays : Int) : UsageHistoryStore :=
  store.deleteSamplesOlderThan (now - retentionDays * MS_PER_DAY)

end UmansGate.UsageHistory
