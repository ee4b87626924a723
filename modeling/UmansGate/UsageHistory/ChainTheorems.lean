/-
UmansGate.UsageHistory.ChainTheorems — the events of a kind form chains.

An event that ends or changes a condition refers to the event that is open.
The query for it takes the latest event that none refers to, and as long as
the events form chains this is the latest event of the kind (`getOpen_eq`),
also when it is a resolved one. So a run keeps the chains exactly when no
tuple that was not the default changes while the latest event of its kind is
resolved (`chained_iff`). Only a process that starts in such a condition gets
there (`keepsChain_of_cleanSeed`).
-/
import Mathlib.Data.List.Induction
import Mathlib.Data.List.Nodup
import UmansGate.UsageHistory.Events

namespace UmansGate.UsageHistory

open UmansGate.Lib

/-- An onset or a morph that no event refers to. -/
def IsOpen (rows : List (ℕ × UsageEvent)) (r : ℕ × UsageEvent) : Prop :=
  r ∈ rows ∧ r.2.transition ≠ .resolved ∧ ∀ r' ∈ rows, r'.2.previousEventId ≠ some r.1

/-- The event refers to an open one of its kind, if there is one. -/
def RefersToOpen (before : List (ℕ × UsageEvent)) (e : UsageEvent) : Prop :=
  match e.previousEventId with
  | none => ∀ r, IsOpen before r → r.2.tupleKind ≠ e.tupleKind
  | some id => ∃ r, IsOpen before r ∧ r.1 = id ∧ r.2.tupleKind = e.tupleKind

/-- An onset begins a chain, any other event goes on with one. -/
def Linked (before : List (ℕ × UsageEvent)) (e : UsageEvent) : Prop :=
  if e.transition = .onset then e.previousEventId = none else RefersToOpen before e

/-- Every event was linked when it was recorded. -/
def Chained (rows : List (ℕ × UsageEvent)) : Prop :=
  ∀ before r after, rows = before ++ r :: after → Linked before r.2

/-- No two events refer to the same one. -/
def Disjoint (rows : List (ℕ × UsageEvent)) : Prop :=
  ∀ r ∈ rows, ∀ r' ∈ rows, ∀ id, r.2.previousEventId = some id → r'.2.previousEventId = some id →
    r = r'

/-- The latest event of the kind. -/
def latest (rows : List (ℕ × UsageEvent)) (tupleKind : TupleKind) : Option (ℕ × UsageEvent) :=
  (rows.filter fun e => e.2.tupleKind = tupleKind).getLast?

/-- And it is resolved. -/
def LatestResolved (rows : List (ℕ × UsageEvent)) (tupleKind : TupleKind) : Prop :=
  ∃ r, latest rows tupleKind = some r ∧ r.2.transition = .resolved

section

variable {rows : List (ℕ × UsageEvent)} {r : ℕ × UsageEvent} {tupleKind : TupleKind}

/-! ## Chains -/

theorem chained_append : Chained (rows ++ [r]) ↔ Chained rows ∧ Linked rows r.2 := by
  constructor
  · intro h
    refine ⟨fun before x after heq => ?_, h rows r [] rfl⟩
    exact h before x (after ++ [r]) (by rw [heq]; simp)
  · rintro ⟨hrows, hr⟩ before x after heq
    rcases List.eq_nil_or_concat after with rfl | ⟨after, y, rfl⟩
    · obtain ⟨rfl, hx⟩ := List.append_inj' heq rfl
      rw [← (List.cons.inj hx).1]
      exact hr
    · have hinit : rows ++ [r] = (before ++ x :: after) ++ [y] := by simpa using heq
      exact hrows before x after (List.append_inj' hinit rfl).1

/-- What an event refers to was open. -/
theorem Linked.of_some {before : List (ℕ × UsageEvent)} {e : UsageEvent} (h : Linked before e)
    {id : ℕ} (hid : e.previousEventId = some id) :
    ∃ r, IsOpen before r ∧ r.1 = id ∧ r.2.tupleKind = e.tupleKind := by
  unfold Linked at h
  split at h
  · rw [hid] at h
    cases h
  · simpa [RefersToOpen, hid] using h

/-- An event that refers to another one comes later. -/
theorem Chained.refers (h : Chained rows) (hr : r ∈ rows) {id : ℕ}
    (hid : r.2.previousEventId = some id) :
    ∃ before after x, rows = before ++ r :: after ∧ IsOpen before x ∧ x.1 = id ∧
      x.2.tupleKind = r.2.tupleKind := by
  obtain ⟨before, after, heq⟩ := List.append_of_mem hr
  obtain ⟨x, hx, hxid, hxkind⟩ := (h before r after heq).of_some hid
  exact ⟨before, after, x, heq, hx, hxid, hxkind⟩

theorem Chained.disjoint (h : Chained rows) : Disjoint rows := by
  induction rows using List.reverseRecOn with
  | nil => simp [Disjoint]
  | append_singleton rows y ih =>
    obtain ⟨hrows, hlinked⟩ := chained_append.mp h
    -- nothing before `y` refers to what `y` refers to
    have hlast : ∀ x ∈ rows, ∀ id, y.2.previousEventId = some id →
        x.2.previousEventId ≠ some id := by
      intro x hx id hid hxid
      obtain ⟨z, hopen, rfl, -⟩ := hlinked.of_some hid
      exact hopen.2.2 x hx hxid
    intro x hx x' hx' id hid hid'
    rcases List.mem_append.mp hx with hx | hx
    · rcases List.mem_append.mp hx' with hx' | hx'
      · exact ih hrows x hx x' hx' id hid hid'
      · rw [List.mem_singleton.mp hx'] at hid'
        exact absurd hid (hlast x hx id hid')
    · rw [List.mem_singleton.mp hx] at hid ⊢
      rcases List.mem_append.mp hx' with hx' | hx'
      · exact absurd hid' (hlast x' hx' id hid)
      · rw [List.mem_singleton.mp hx']

/-! ## The latest event of a kind -/

theorem latest_append (rows : List (ℕ × UsageEvent)) (r : ℕ × UsageEvent) (tupleKind : TupleKind) :
    latest (rows ++ [r]) tupleKind =
      if r.2.tupleKind = tupleKind then some r else latest rows tupleKind := by
  simp only [latest, List.filter_append]
  by_cases hkind : r.2.tupleKind = tupleKind
  · simp [hkind]
  · simp [hkind]

theorem latest_eq_none : latest rows tupleKind = none ↔ ∀ r ∈ rows, r.2.tupleKind ≠ tupleKind := by
  simp [latest]

/-- Behind the latest event there is none of its kind. -/
theorem exists_of_latest (h : latest rows tupleKind = some r) :
    r.2.tupleKind = tupleKind ∧ ∃ before after, rows = before ++ r :: after ∧
      ∀ x ∈ after, x.2.tupleKind ≠ tupleKind := by
  induction rows using List.reverseRecOn with
  | nil => simp [latest] at h
  | append_singleton rows y ih =>
    rw [latest_append] at h
    split at h
    · rename_i hkind
      obtain rfl := Option.some.inj h
      exact ⟨hkind, rows, [], rfl, by simp⟩
    · rename_i hkind
      obtain ⟨hr, before, after, rfl, hafter⟩ := ih h
      refine ⟨hr, before, after ++ [y], by simp, fun x hx => ?_⟩
      rcases List.mem_append.mp hx with hx | hx
      · exact hafter x hx
      · rw [List.mem_singleton.mp hx]
        exact hkind

/-- Two rows under one id are one row. -/
theorem eq_of_id {t : Table UsageEvent} {x y : ℕ × UsageEvent} (hx : x ∈ t.rows) (hy : y ∈ t.rows)
    (hid : x.1 = y.1) : x = y := by
  have hget := Table.mem_rows_iff.mp (show (x.1, x.2) ∈ t.rows from hx)
  have hget' := Table.mem_rows_iff.mp (show (y.1, y.2) ∈ t.rows from hy)
  rw [hid, hget'] at hget
  exact Prod.ext hid (Option.some.inj hget).symm

/-- Rows come in the order of their ids. -/
theorem id_lt {t : Table UsageEvent} {before after : List (ℕ × UsageEvent)} {x y : ℕ × UsageEvent}
    (h : t.rows = before ++ y :: after) (hx : x ∈ before) : x.1 < y.1 := by
  have hsorted := List.pairwise_map.mp t.sorted
  rw [h] at hsorted
  exact (List.pairwise_append.mp hsorted).2.2 x hx y List.mem_cons_self

/-- Nothing refers to the latest event of a kind. -/
theorem not_refers_latest {t : Table UsageEvent} (h : Chained t.rows)
    (hlatest : latest t.rows tupleKind = some r) :
    ∀ x ∈ t.rows, x.2.previousEventId ≠ some r.1 := by
  intro x hx hid
  obtain ⟨hkind, before, after, hrows, hafter⟩ := exists_of_latest hlatest
  obtain ⟨before', after', y, hrows', hopen, hyid, hykind⟩ := h.refers hx hid
  -- what refers to it is later, and of its kind
  have hlater : r.1 < x.1 := hyid ▸ id_lt hrows' hopen.1
  have hr : r ∈ t.rows := by simp [hrows]
  have hy : y ∈ t.rows := by
    rw [hrows']
    exact List.mem_append_left _ hopen.1
  obtain rfl := eq_of_id hy hr hyid
  rw [hrows] at hx
  rcases List.mem_append.mp hx with hbefore | hrest
  · exact absurd (id_lt hrows hbefore) (by omega)
  · rcases List.mem_cons.mp hrest with rfl | hafter'
    · exact absurd hlater (Nat.lt_irrefl _)
    · exact hafter x hafter' (hykind.symm.trans hkind)

/-- The open event, for the query, is the latest of its kind. -/
theorem getOpen_eq {store : UsageHistoryStore} (h : Chained store.events.rows)
    (tupleKind : TupleKind) :
    store.getOpenEventForTuple tupleKind = latest store.events.rows tupleKind := by
  unfold UsageHistoryStore.getOpenEventForTuple
  cases hlatest : latest store.events.rows tupleKind with
  | none =>
    rw [List.getLast?_eq_none_iff, List.filter_eq_nil_iff]
    intro r hr
    simp [latest_eq_none.mp hlatest r hr]
  | some r =>
    have hfree := not_refers_latest h hlatest
    obtain ⟨hkind, before, after, hrows, hafter⟩ := exists_of_latest hlatest
    have hnot : r.1 ∉ store.events.rows.filterMap (·.2.previousEventId) := by
      intro hmem
      obtain ⟨x, hx, hid⟩ := List.mem_filterMap.mp hmem
      exact hfree x hx hid
    generalize store.events.rows.filterMap (·.2.previousEventId) = referenced at hnot ⊢
    have hnone : after.filter (fun e => e.2.tupleKind = tupleKind ∧ e.1 ∉ referenced) = [] :=
      List.filter_eq_nil_iff.mpr fun x hx => by simp [hafter x hx]
    rw [hrows, List.filter_append, List.filter_cons_of_pos (by simp [hkind, hnot]), hnone,
      List.getLast?_append]
    rfl

/-! ## Recording an event -/

/-- An event that ends or changes a condition, and refers to the latest of
its kind, is linked unless that one is resolved. -/
theorem linked_latest_iff {t : Table UsageEvent} (h : Chained t.rows) {e : UsageEvent}
    (honset : e.transition ≠ .onset)
    (hprev : e.previousEventId = (latest t.rows e.tupleKind).map (·.1)) :
    Linked t.rows e ↔ ¬ LatestResolved t.rows e.tupleKind := by
  rw [Linked, if_neg honset, RefersToOpen, hprev]
  cases hlatest : latest t.rows e.tupleKind with
  | none =>
    refine iff_of_true (fun r hr => latest_eq_none.mp hlatest r hr.1) ?_
    rintro ⟨r, hr, -⟩
    rw [hlatest] at hr
    cases hr
  | some r =>
    obtain ⟨hkind, before, after, hrows, -⟩ := exists_of_latest hlatest
    have hr : r ∈ t.rows := by simp [hrows]
    constructor
    · rintro ⟨x, hopen, hid, -⟩ ⟨y, hy, hresolved⟩
      obtain rfl := eq_of_id hopen.1 hr hid
      rw [hlatest] at hy
      obtain rfl := Option.some.inj hy
      exact hopen.2.1 hresolved
    · intro hnot
      refine ⟨r, ⟨hr, fun hresolved => hnot ⟨r, hlatest, hresolved⟩, ?_⟩, rfl, hkind⟩
      exact not_refers_latest h hlatest

theorem rows_recordEvent (store : UsageHistoryStore) (snap : UsageSample)
    (transition : EventTransition) (tupleKind : TupleKind) (previousEventId : Option ℕ) :
    (store.recordEvent snap transition tupleKind previousEventId).events.rows =
      store.events.rows ++ [(store.events.nextId, ⟨snap.fetchedAt, transition, tupleKind,
        previousEventId, snap.ambient, deriveCacheHitRate snap.ambient⟩)] := rfl

/-- The event of a changed tuple. -/
theorem chained_emitEvent_iff {store : UsageHistoryStore} (h : Chained store.events.rows)
    (snap : UsageSample) (tupleKind : TupleKind) {prevDefault currentDefault : Bool} :
    Chained (emitEvent store snap tupleKind prevDefault currentDefault).2.events.rows ↔
      (transitionOf prevDefault currentDefault ≠ .onset →
        ¬ LatestResolved store.events.rows tupleKind) := by
  simp only [emitEvent, rows_recordEvent, chained_append, h, true_and]
  by_cases honset : transitionOf prevDefault currentDefault = .onset
  · rw [honset]
    exact iff_of_true rfl fun hne => absurd rfl hne
  · rw [linked_latest_iff h honset (by rw [if_neg honset, getOpen_eq h])]
    simp [honset]

theorem latest_emitEvent (store : UsageHistoryStore) (snap : UsageSample)
    {tupleKind other : TupleKind} (hne : tupleKind ≠ other) (prevDefault currentDefault : Bool) :
    latest (emitEvent store snap tupleKind prevDefault currentDefault).2.events.rows other =
      latest store.events.rows other := by
  simp only [emitEvent, rows_recordEvent, latest_append]
  exact if_neg hne

theorem latest_emitEvent_self (store : UsageHistoryStore) (snap : UsageSample)
    (tupleKind : TupleKind) (prevDefault currentDefault : Bool) :
    LatestResolved (emitEvent store snap tupleKind prevDefault currentDefault).2.events.rows
      tupleKind ↔ transitionOf prevDefault currentDefault = .resolved := by
  simp [emitEvent, rows_recordEvent, LatestResolved, latest_append]

end

/-- There is one default tuple, so a change from it is an onset. -/
theorem priority_transition {prev current : PriorityTuple} (hne : current ≠ prev) :
    transitionOf (isDefaultPriority prev) (isDefaultPriority current) ≠ .onset ↔
      isDefaultPriority prev = false := by
  have hdefault : ∀ t, isDefaultPriority t = true → t = ⟨false, none, none, false, none⟩ := by
    rintro ⟨low, boxed, reason, demoted, until_⟩ h
    simp only [isDefaultPriority, Bool.and_eq_true, Bool.not_eq_true', Option.isNone_iff_eq_none]
      at h
    obtain ⟨⟨⟨⟨rfl, rfl⟩, rfl⟩, rfl⟩, rfl⟩ := h
    rfl
  cases hprev : isDefaultPriority prev with
  | false =>
    simp only [transitionOf, Bool.false_eq_true, false_and, if_false]
    split
    · simp
    · simp
  | true =>
    have hcurrent : isDefaultPriority current = false := by
      rw [Bool.eq_false_iff]
      intro hcurrent
      exact hne ((hdefault _ hcurrent).trans (hdefault _ hprev).symm)
    simp [transitionOf, hcurrent]

theorem serviceMode_transition {prev current : ServiceModeTuple} (hne : current ≠ prev) :
    transitionOf (isDefaultServiceMode prev) (isDefaultServiceMode current) ≠ .onset ↔
      isDefaultServiceMode prev = false := by
  have hdefault : ∀ t, isDefaultServiceMode t = true → t = ⟨"normal", none⟩ := by
    rintro ⟨mode, resetsAt⟩ h
    simp only [isDefaultServiceMode, Bool.and_eq_true, decide_eq_true_eq,
      Option.isNone_iff_eq_none] at h
    obtain ⟨rfl, rfl⟩ := h
    rfl
  cases hprev : isDefaultServiceMode prev with
  | false =>
    simp only [transitionOf, Bool.false_eq_true, false_and, if_false]
    split
    · simp
    · simp
  | true =>
    have hcurrent : isDefaultServiceMode current = false := by
      rw [Bool.eq_false_iff]
      intro hcurrent
      exact hne ((hdefault _ hcurrent).trans (hdefault _ hprev).symm)
    simp [transitionOf, hcurrent]

namespace EventRun

variable {s : EventRun} {snap : UsageSample}

/-- No tuple that was not the default changes while the latest event of its
kind is resolved. -/
def KeepsChain (s : EventRun) : EventOp → Prop
  | .snapshot snap => snap.ambient.ok = true →
    ∀ prevPriority ∈ s.detector.lastPriority, ∀ prevServiceMode ∈ s.detector.lastServiceMode,
      (priorityTupleOf snap.ambient ≠ prevPriority → isDefaultPriority prevPriority = false →
        ¬ LatestResolved s.store.events.rows .priority) ∧
      (serviceModeTupleOf snap.ambient ≠ prevServiceMode →
        isDefaultServiceMode prevServiceMode = false →
        ¬ LatestResolved s.store.events.rows .serviceMode)
  | .restart => True

/-! ## Steps -/

theorem chained_passPriority_iff (h : Chained s.store.events.rows) {prev : PriorityTuple} :
    Chained (s.passPriority snap prev).2.store.events.rows ↔
      (priorityTupleOf snap.ambient ≠ prev → isDefaultPriority prev = false →
        ¬ LatestResolved s.store.events.rows .priority) := by
  by_cases hsame : priorityTupleOf snap.ambient = prev
  · simp [passPriority, hsame, h]
  · simp only [passPriority, if_neg hsame, emitPriorityEvent]
    rw [chained_emitEvent_iff h, priority_transition hsame]
    exact ⟨fun h _ => h, fun h => h hsame⟩

theorem chained_passServiceMode_iff (h : Chained s.store.events.rows) {prev : ServiceModeTuple} :
    Chained (s.passServiceMode snap prev).2.store.events.rows ↔
      (serviceModeTupleOf snap.ambient ≠ prev → isDefaultServiceMode prev = false →
        ¬ LatestResolved s.store.events.rows .serviceMode) := by
  by_cases hsame : serviceModeTupleOf snap.ambient = prev
  · simp [passServiceMode, hsame, h]
  · simp only [passServiceMode, if_neg hsame, emitServiceModeEvent]
    rw [chained_emitEvent_iff h, serviceMode_transition hsame]
    exact ⟨fun h _ => h, fun h => h hsame⟩

/-- The first part of a snapshot records no event of the other kind. -/
theorem latest_passPriority (s : EventRun) (snap : UsageSample) (prev : PriorityTuple) :
    latest (s.passPriority snap prev).2.store.events.rows .serviceMode =
      latest s.store.events.rows .serviceMode := by
  simp only [passPriority]
  split
  · rfl
  · exact latest_emitEvent _ _ (by simp) _ _

/-- What a later event makes of the table, it was chained before. -/
theorem Chained.of_passServiceMode {prev : ServiceModeTuple}
    (h : Chained (s.passServiceMode snap prev).2.store.events.rows) :
    Chained s.store.events.rows := by
  simp only [passServiceMode] at h
  split at h
  · exact h
  · exact (chained_append.mp h).1

theorem chained_step_iff (h : Chained s.store.events.rows) {op : EventOp} :
    Chained (s.step op).store.events.rows ↔ s.KeepsChain op := by
  cases op with
  | restart => exact iff_of_true h trivial
  | snapshot snap =>
    simp only [step, handleSnapshot, KeepsChain]
    by_cases hok : snap.ambient.ok = true
    · rw [if_neg (not_not.mpr hok)]
      cases hpriority : s.detector.lastPriority with
      | none => simpa using h
      | some prevPriority =>
        cases hmode : s.detector.lastServiceMode with
        | none => simpa using h
        | some prevServiceMode =>
          have hlatest : LatestResolved (s.passPriority snap prevPriority).2.store.events.rows
              .serviceMode ↔ LatestResolved s.store.events.rows .serviceMode := by
            simp only [LatestResolved, latest_passPriority]
          constructor
          · rintro hchained - prev hprev mode hmode
            obtain rfl := Option.some.inj hprev
            obtain rfl := Option.some.inj hmode
            have hfirst := Chained.of_passServiceMode hchained
            refine ⟨(chained_passPriority_iff h).mp hfirst, ?_⟩
            rw [← hlatest]
            exact (chained_passServiceMode_iff hfirst).mp hchained
          · intro hkeeps
            obtain ⟨hfirst, hsecond⟩ := hkeeps hok prevPriority rfl prevServiceMode rfl
            have hfirst := (chained_passPriority_iff h).mpr hfirst
            rw [← hlatest] at hsecond
            exact (chained_passServiceMode_iff hfirst).mpr hsecond
    · simpa [hok] using h

/-- **The events of each kind form disjoint chains**, in every state of a
run, exactly when no step changes a tuple that was not the default while the
latest event of its kind is resolved. -/
theorem chained_iff (ops : List EventOp) :
    (∀ pre, pre <+: ops → Chained (run step init pre).store.events.rows ∧
      Disjoint (run step init pre).store.events.rows) ↔
    StepsMeet step KeepsChain init ops := by
  have hinit : Chained init.store.events.rows := by
    intro before r after heq
    simp [init, UsageHistoryStore.new, Table.empty] at heq
  rw [← throughout_iff_stepsMeet (I := fun s : EventRun => Chained s.store.events.rows)
    (fun s op _ hs => chained_step_iff hs) hinit]
  exact forall_congr' fun pre => forall_congr' fun _ =>
    ⟨fun h => h.1, fun h => ⟨h, h.disjoint⟩⟩

/-! A process starts while the priority is low, after the last event was a
resolved one. -/

/-- A snapshot with this priority. -/
def prioritySnapshot (low : Bool) : UsageSample where
  fetchedAt := 0
  ambient :=
    ⟨true, none, "unknown", none, none, none, none, 4, 8, 0, 0, none, none, 0, 0, 0, 0, 0, none,
      none, none, low, none, none, false, none, "normal", none⟩

def startedInLow : List EventOp :=
  [.snapshot (prioritySnapshot false), .snapshot (prioritySnapshot true),
    .snapshot (prioritySnapshot false), .restart, .snapshot (prioritySnapshot true),
    .snapshot (prioritySnapshot false)]

/-- Its first event refers to the resolved one. -/
theorem resolved_refers_resolved :
    ¬ ∀ ops : List EventOp, Chained (run step init ops).store.events.rows := by
  intro h
  have hids : (run step init startedInLow).store.events.rows.map (fun r =>
      (r.1, r.2.transition, r.2.previousEventId)) =
      [(1, .onset, none), (2, .resolved, some 1), (3, .resolved, some 2)] := by decide +kernel
  obtain ⟨x, rest, hrows, hx, hrest⟩ := List.map_eq_cons_iff.mp hids
  obtain ⟨y, rest, rfl, hy, hrest⟩ := List.map_eq_cons_iff.mp hrest
  obtain ⟨z, rest, rfl, hz, hrest⟩ := List.map_eq_cons_iff.mp hrest
  simp only [Prod.mk.injEq] at hx hy hz
  have hlinked := h startedInLow [x, y] z rest hrows
  have hrefers : z.2.previousEventId = some 2 := hz.2.2
  obtain ⟨r, hopen, hid, -⟩ := hlinked.of_some hrefers
  rcases List.mem_pair.mp hopen.1 with rfl | rfl
  · omega
  · exact hopen.2.1 hy.2.1

/-! ## The state a process starts in -/

/-- A process does not start in a condition whose kind was resolved last. -/
def CleanSeed (s : EventRun) : EventOp → Prop
  | .snapshot snap => snap.ambient.ok = true →
    s.detector.lastPriority = none ∨ s.detector.lastServiceMode = none →
      (LatestResolved s.store.events.rows .priority →
        isDefaultPriority (priorityTupleOf snap.ambient) = true) ∧
      (LatestResolved s.store.events.rows .serviceMode →
        isDefaultServiceMode (serviceModeTupleOf snap.ambient) = true)
  | .restart => True

/-- What was resolved last is the default. -/
structure SeenDefault (s : EventRun) : Prop where
  priority : LatestResolved s.store.events.rows .priority →
    ∀ t ∈ s.detector.lastPriority, isDefaultPriority t = true
  serviceMode : LatestResolved s.store.events.rows .serviceMode →
    ∀ t ∈ s.detector.lastServiceMode, isDefaultServiceMode t = true

theorem transitionOf_resolved {prevDefault currentDefault : Bool}
    (h : transitionOf prevDefault currentDefault = .resolved) : currentDefault = true := by
  cases prevDefault <;> cases currentDefault <;> simp_all [transitionOf]

theorem SeenDefault.passPriority (h : SeenDefault s) (prev : PriorityTuple) :
    SeenDefault (s.passPriority snap prev).2 := by
  constructor
  · simp only [EventRun.passPriority]
    split
    · exact h.priority
    · intro hresolved t ht
      obtain rfl := Option.some.inj ht
      exact transitionOf_resolved ((latest_emitEvent_self _ _ _ _ _).mp hresolved)
  · have hmode : (s.passPriority snap prev).2.detector.lastServiceMode =
        s.detector.lastServiceMode := by
      simp only [EventRun.passPriority]
      split
      · rfl
      · rfl
    simp only [LatestResolved, latest_passPriority, hmode]
    exact h.serviceMode

theorem SeenDefault.passServiceMode (h : SeenDefault s) (prev : ServiceModeTuple) :
    SeenDefault (s.passServiceMode snap prev).2 := by
  simp only [EventRun.passServiceMode]
  split
  · exact h
  · constructor
    · simp only [emitServiceModeEvent, LatestResolved, latest_emitEvent _ _ (by simp :
        TupleKind.serviceMode ≠ .priority)]
      exact h.priority
    · intro hresolved t ht
      obtain rfl := Option.some.inj ht
      exact transitionOf_resolved ((latest_emitEvent_self _ _ _ _ _).mp hresolved)

theorem seenDefault_step (h : SeenDefault s) {op : EventOp} (hop : s.CleanSeed op) :
    SeenDefault (s.step op) := by
  cases op with
  | restart => exact ⟨fun _ => by simp [step], fun _ => by simp [step]⟩
  | snapshot snap =>
    simp only [step, handleSnapshot]
    by_cases hok : snap.ambient.ok = true
    · rw [if_neg (not_not.mpr hok)]
      split
      · exact (h.passPriority _).passServiceMode _
      · rename_i hseed
        have hnone : s.detector.lastPriority = none ∨ s.detector.lastServiceMode = none := by
          cases hpriority : s.detector.lastPriority with
          | none => exact .inl rfl
          | some prevPriority =>
            cases hmode : s.detector.lastServiceMode with
            | none => exact .inr rfl
            | some prevServiceMode => exact absurd hmode (hseed _ _ hpriority)
        obtain ⟨hpriority, hmode⟩ := hop hok hnone
        exact ⟨fun hresolved t ht => Option.some.inj ht ▸ hpriority hresolved,
          fun hresolved t ht => Option.some.inj ht ▸ hmode hresolved⟩
    · rw [if_pos hok]
      exact h

theorem keepsChain_of_seenDefault (h : SeenDefault s) (op : EventOp) : s.KeepsChain op := by
  cases op with
  | restart => trivial
  | snapshot snap =>
    intro _ prevPriority hpriority prevServiceMode hmode
    constructor
    · intro _ hnot hresolved
      rw [h.priority hresolved prevPriority hpriority] at hnot
      cases hnot
    · intro _ hnot hresolved
      rw [h.serviceMode hresolved prevServiceMode hmode] at hnot
      cases hnot

/-- Where every process starts clean, the chains are kept. -/
theorem keepsChain_of_cleanSeed {ops : List EventOp} (h : StepsMeet step CleanSeed init ops) :
    StepsMeet step KeepsChain init ops :=
  h.imp_of_invariant (I := SeenDefault) (fun _ _ hs hop => seenDefault_step hs hop)
    (fun _ op hs _ => keepsChain_of_seenDefault hs op)
    ⟨fun _ => by simp [init], fun _ => by simp [init]⟩

end EventRun

end UmansGate.UsageHistory
