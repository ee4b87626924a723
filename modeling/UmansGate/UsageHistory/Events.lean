/-
UmansGate.UsageHistory.Events — the detector of usage events
(`src/usage-history/events.ts`, `getOpenEventForTuple` of
`src/usage-history/store.ts`).

The detector keeps its last tuples in memory, the events are in the
database. An insert that throws is left out.
-/
import UmansGate.Lib.Transition
import UmansGate.UsageHistory.Store

namespace UmansGate.UsageHistory

open UmansGate.Lib

structure PriorityTuple where
  priorityLow : Bool
  boxedUntil : Option Int
  boxedReason : Option String
  unitsDemoted : Bool
  demotedUntil : Option Int
  deriving DecidableEq, Repr

structure ServiceModeTuple where
  current : String
  resetsAt : Option Int
  deriving DecidableEq, Repr

def priorityTupleOf (s : Ambient) : PriorityTuple :=
  ⟨s.priorityLow, s.boxedUntil, s.boxedReason, s.unitsDemoted, s.demotedUntil⟩

def serviceModeTupleOf (s : Ambient) : ServiceModeTuple :=
  ⟨s.serviceModeCurrent, s.serviceModeResetsAt⟩

def isDefaultPriority (t : PriorityTuple) : Bool :=
  !t.priorityLow && t.boxedUntil.isNone && t.boxedReason.isNone && !t.unitsDemoted &&
    t.demotedUntil.isNone

def isDefaultServiceMode (t : ServiceModeTuple) : Bool :=
  t.current = "normal" && t.resetsAt.isNone

/-- The latest event of the kind that no event refers to. -/
def UsageHistoryStore.getOpenEventForTuple (store : UsageHistoryStore) (tupleKind : TupleKind) :
    Option (ℕ × UsageEvent) :=
  (store.events.rows.filter fun e =>
    e.2.tupleKind = tupleKind ∧ e.1 ∉ store.events.rows.filterMap (·.2.previousEventId)).getLast?

/-- What a change of a tuple is, by whether it was and is the default. -/
def transitionOf (prevDefault currentDefault : Bool) : EventTransition :=
  if prevDefault ∧ ¬ currentDefault then .onset
  else if ¬ prevDefault ∧ currentDefault then .resolved
  else .morph

/-- The event of a changed tuple. -/
def emitEvent (store : UsageHistoryStore) (snap : UsageSample) (tupleKind : TupleKind)
    (prevDefault currentDefault : Bool) : EventTransition × UsageHistoryStore :=
  let transition := transitionOf prevDefault currentDefault
  let previousEventId :=
    if transition = .onset then none else (store.getOpenEventForTuple tupleKind).map (·.1)
  (transition, store.recordEvent snap transition tupleKind previousEventId)

def emitPriorityEvent (store : UsageHistoryStore) (snap : UsageSample)
    (current prev : PriorityTuple) : EventTransition × UsageHistoryStore :=
  emitEvent store snap .priority (isDefaultPriority prev) (isDefaultPriority current)

def emitServiceModeEvent (store : UsageHistoryStore) (snap : UsageSample)
    (current prev : ServiceModeTuple) : EventTransition × UsageHistoryStore :=
  emitEvent store snap .serviceMode (isDefaultServiceMode prev) (isDefaultServiceMode current)

structure DetectorEmissions where
  priority : Option EventTransition := none
  serviceMode : Option EventTransition := none
  deriving DecidableEq, Repr

structure UsageEventDetector where
  lastPriority : Option PriorityTuple
  lastServiceMode : Option ServiceModeTuple
  deriving DecidableEq, Repr

/-- The detector over its store. -/
structure EventRun where
  store : UsageHistoryStore
  detector : UsageEventDetector

namespace EventRun

/-- The part of `handleSnapshot` about the priority tuple. -/
def passPriority (s : EventRun) (snap : UsageSample) (prev : PriorityTuple) :
    Option EventTransition × EventRun :=
  let current := priorityTupleOf snap.ambient
  if current = prev then (none, s)
  else
    let (transition, store) := emitPriorityEvent s.store snap current prev
    (some transition, ⟨store, { s.detector with lastPriority := some current }⟩)

def passServiceMode (s : EventRun) (snap : UsageSample) (prev : ServiceModeTuple) :
    Option EventTransition × EventRun :=
  let current := serviceModeTupleOf snap.ambient
  if current = prev then (none, s)
  else
    let (transition, store) := emitServiceModeEvent s.store snap current prev
    (some transition, ⟨store, { s.detector with lastServiceMode := some current }⟩)

/-- The first snapshot only seeds the tuples. -/
def handleSnapshot (s : EventRun) (snap : UsageSample) : DetectorEmissions × EventRun :=
  if ¬ snap.ambient.ok then ({}, s)
  else
    match s.detector.lastPriority, s.detector.lastServiceMode with
    | some prevPriority, some prevServiceMode =>
      let (priority, s) := s.passPriority snap prevPriority
      let (serviceMode, s) := s.passServiceMode snap prevServiceMode
      (⟨priority, serviceMode⟩, s)
    | _, _ => ({}, { s with detector :=
        ⟨some (priorityTupleOf snap.ambient), some (serviceModeTupleOf snap.ambient)⟩ })

end EventRun

inductive EventOp where
  | snapshot (snap : UsageSample)
  | restart
  deriving DecidableEq, Repr

namespace EventRun

def step (s : EventRun) : EventOp → EventRun
  | .snapshot snap => (s.handleSnapshot snap).2
  | .restart => ⟨.new s.store.samples s.store.events s.store.daily, ⟨none, none⟩⟩

/-- The detector over an empty database. -/
def init : EventRun := ⟨.new .empty .empty [], ⟨none, none⟩⟩

end EventRun

end UmansGate.UsageHistory
