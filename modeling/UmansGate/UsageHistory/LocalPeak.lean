/-
UmansGate.UsageHistory.LocalPeak — the local load in the samples
(`maxWeightedConcurrentSinceSample` of `src/index.ts`).

The gate's load is a value that changes, with or without a call of the stats
callback: a grant whose callback throws and the releases of a batch change it
without one, and a call may come without a change. `PeakRun` keeps next to
the code's peak what the load reached since the last written sample: `seen`
is what the callback was called with since the peak was last reset, `missed`
the rest.
-/
import UmansGate.UsageHistory.Samples

namespace UmansGate.UsageHistory

open UmansGate.Lib

structure PeakRun where
  store : UsageHistoryStore
  usageHistoryEnabled : Bool
  maxWeightedConcurrentSinceSample : ℚ
  active : ℚ
  missed : List ℚ
  seen : List ℚ

inductive PeakOp where
  | gate (active : ℚ) (emits : Bool)
  | reload (usageHistoryEnabled : Bool)
  | snapshot (snap : UsageSample) (throws : Bool)
  deriving DecidableEq, Repr

namespace PeakRun

def init (usageHistoryEnabled : Bool) : PeakRun :=
  ⟨.new .empty .empty [], usageHistoryEnabled, 0, 0, [0], []⟩

/-- The snapshot with the local peak in its two counts of sessions. -/
def merged (s : PeakRun) (snap : UsageSample) : UsageSample :=
  { snap with ambient := { snap.ambient with
    concurrentSessions :=
      max snap.ambient.concurrentSessions s.maxWeightedConcurrentSinceSample
    weightedConcurrentSessions :=
      max snap.ambient.weightedConcurrentSessions s.maxWeightedConcurrentSinceSample } }

/-- The snapshot becomes a sample. -/
def writes (s : PeakRun) (snap : UsageSample) (throws : Bool) : Bool :=
  snap.ambient.ok && decide (s.store.lastKey ≠ some (s.merged snap).ambient) && ! throws

def onStatsChange (s : PeakRun) : PeakRun :=
  if s.active > s.maxWeightedConcurrentSinceSample then
    { s with maxWeightedConcurrentSinceSample := s.active }
  else s

def onChange (s : PeakRun) (snap : UsageSample) (throws : Bool) : PeakRun :=
  if ¬ s.usageHistoryEnabled then s
  else
    { s with
      maxWeightedConcurrentSinceSample := 0
      store := s.store.handleSnapshot (s.merged snap) throws
      missed := if s.writes snap throws then [s.active] else s.missed ++ s.seen
      seen := [] }

def step (s : PeakRun) : PeakOp → PeakRun
  | .gate active true => { s with active := active, seen := s.seen ++ [active] }.onStatsChange
  | .gate active false => { s with active := active, missed := s.missed ++ [active] }
  | .reload usageHistoryEnabled => { s with usageHistoryEnabled := usageHistoryEnabled }
  | .snapshot snap throws => s.onChange snap throws

/-- What the load was since the last written sample. -/
def reached (s : PeakRun) : List ℚ := s.missed ++ s.seen

end PeakRun

end UmansGate.UsageHistory
