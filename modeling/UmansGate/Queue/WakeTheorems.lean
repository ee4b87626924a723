/-
UmansGate.Queue.WakeTheorems — which steps leave entries in the queue that
nothing will flush.

What wakes a queue is a flush timeout, the retry timeout, or a handler
that `guardedFlush` chained to the flush in flight. The handler is chained
by `.then`, so it runs only when the flush did not throw; and a flush that
is over clears the retry timeout before `onFlush` can throw.

`ends` lists the ways the flush in flight may end (`true`: it did not
throw). With both ways listed, a running flush never wakes the queue; with
`[true]` alone, it does as soon as one handler is chained.
-/
import UmansGate.Queue.WriteQueue

namespace UmansGate.Queue

open UmansGate.Lib

variable {Req Res : Type}

namespace WriteQueue

variable {s : WriteQueue Req Res} {ends : List Bool}

/-- A handler is due after the flush ended this way. -/
def WakesAfter (s : WriteQueue Req Res) (ok : Bool) : Prop :=
  0 < ({ s with resumed := 0 }.settle true ok).finallyHandler.resumed

/-- The flush that `this.flushing` holds is followed by a `guardedFlush`. -/
def Continues (ends : List Bool) (s : WriteQueue Req Res) : Prop :=
  match s.flushing with
  | none => 0 < s.resumed
  | some .running => ∀ ok ∈ ends, s.WakesAfter ok
  | some (.settled ok) => s.WakesAfter ok

/-- A non-empty queue has a timeout pending or a flush behind the one in
flight. -/
def Woken (ends : List Bool) (s : WriteQueue Req Res) : Prop :=
  s.queue ≠ [] → s.flushTimers ≠ [] ∨ s.retryTimer ≠ none ∨ s.Continues ends

/-- A handler chained to `this.flushing` may never run. -/
def Unanswered (ends : List Bool) (s : WriteQueue Req Res) : Prop :=
  match s.flushing with
  | none => False
  | some .running => false ∈ ends
  | some (.settled ok) => ok = false

/-- The step leaves a non-empty queue asleep: it clears the last timeout
and relies on a handler that may never run, or a flush ends with entries
left behind and no handler due. -/
def Strands (ends : List Bool) (s : WriteQueue Req Res) : Op Req Res → Prop
  | .queueUpdate .. =>
    ((s.queue.length : Int) + 1 ≥ s.config.flushBatch ∨
        (s.queue.length : Int) + 1 ≥ s.config.queueMaxDepth ∨ s.flushTimer ≠ none) ∧
      (s.queue ≠ [] ∨ 1 < s.config.queueMaxDepth) ∧
      s.clearFlushTimer.flushTimers = [] ∧ s.retryTimer = none ∧ s.Unanswered ends
  | .flushTimeout id =>
    (∃ timer, s.flushTimers.find? (·.id = id) = some timer ∧ timer.due ≤ s.now) ∧
      s.queue ≠ [] ∧ s.flushTimers.filter (·.id ≠ id) = [] ∧ s.retryTimer = none ∧
      s.Unanswered ends
  | .retryTimeout =>
    (∃ due, s.retryTimer = some due ∧ due ≤ s.now) ∧
      s.queue ≠ [] ∧ s.flushTimers = [] ∧ s.Unanswered ends
  | .reply n (.resolved throws) =>
    ∃ f, s.inFlight[n]? = some f ∧ s.queue ≠ [] ∧ s.flushTimers = [] ∧
      if f.guarded then throws = true ∨ s.chained = 0 else ¬ s.Continues ends
  | .reply _ .rejected | .flushNow | .drainForShutdown | .finallyHandler | .thenHandler
  | .tick _ => False

/-! ## What each method wakes -/

@[simp] theorem wakesAfter_iff {ok : Bool} : s.WakesAfter ok ↔ ok = true ∧ 0 < s.chained := by
  cases ok with
  | true => simp [WakesAfter, WriteQueue.settle, WriteQueue.finallyHandler]
  | false => simp [WakesAfter, WriteQueue.settle, WriteQueue.finallyHandler]

theorem Woken.of_queue_eq_nil (h : s.queue = []) : s.Woken ends :=
  fun hne => absurd h hne

theorem not_woken_iff : ¬ s.Woken ends ↔
    s.queue ≠ [] ∧ s.flushTimers = [] ∧ s.retryTimer = none ∧ ¬ s.Continues ends := by
  simp only [Woken, ne_eq]
  tauto

/-- A flush takes the whole queue. -/
theorem queue_flushNow (guarded : Bool) : (s.flushNow guarded).queue = [] := by
  simp only [WriteQueue.flushNow]
  split
  · rename_i hnil
    cases guarded with
    | true => exact hnil
    | false => exact hnil
  · rfl

theorem queue_guardedFlush (h : s.flushing = none) : s.guardedFlush.queue = [] := by
  simp only [WriteQueue.guardedFlush, h]
  exact queue_flushNow true

/-- A handler chained to a flush continues it, unless it is unanswered. -/
theorem continues_chain {n : Nat} (h : s.flushing ≠ none) :
    { s with chained := n + 1 }.Continues ends ↔ ¬ s.Unanswered ends := by
  unfold Continues Unanswered
  cases hflushing : s.flushing with
  | none => exact absurd hflushing h
  | some flushing =>
    cases flushing with
    | running =>
      simp only [wakesAfter_iff]
      constructor
      · intro hall hfalse
        exact absurd (hall false hfalse).1 (by simp)
      · intro hno ok hok
        cases ok with
        | true => exact ⟨rfl, Nat.succ_pos n⟩
        | false => exact absurd hok hno
    | settled ok => simp

/-- What a `guardedFlush` leaves behind. -/
theorem woken_guardedFlush : s.guardedFlush.Woken ends ↔
    ¬ (s.queue ≠ [] ∧ s.flushTimers = [] ∧ s.retryTimer = none ∧ s.Unanswered ends) := by
  cases hflushing : s.flushing with
  | none =>
    have hno : ¬ s.Unanswered ends := by simp [Unanswered, hflushing]
    simp [hno, Woken.of_queue_eq_nil (queue_guardedFlush hflushing)]
  | some flushing =>
    have hsome : s.flushing ≠ none := by simp [hflushing]
    have hchain : s.guardedFlush = { s with chained := s.chained + 1 } := by
      simp only [WriteQueue.guardedFlush, hflushing]
    rw [← not_iff_not, not_woken_iff, hchain, continues_chain hsome, not_not, not_not]

/-- The overflow check changes nothing that wakes the queue. -/
theorem dropOverflow_eq (s : WriteQueue Req Res) : ∃ queue droppedCount dropped,
    s.dropOverflow = { s with queue := queue, droppedCount := droppedCount, dropped := dropped } := by
  unfold WriteQueue.dropOverflow
  split
  · split
    · exact ⟨_, _, _, rfl⟩
    · exact ⟨_, _, _, rfl⟩
  · exact ⟨_, _, _, rfl⟩

/-- The overflow check empties a queue of one entry at most. -/
theorem queue_dropOverflow_ne_nil {older : List (QueuedUpdate Req Res)}
    {item : QueuedUpdate Req Res} (hq : s.queue = older ++ [item]) :
    s.dropOverflow.queue ≠ [] ↔ older ≠ [] ∨ 1 < s.config.queueMaxDepth := by
  unfold WriteQueue.dropOverflow
  rw [hq]
  cases older with
  | nil =>
    split
    · rename_i hfull
      have hmax : ¬ 1 < s.config.queueMaxDepth := Int.not_lt.mpr hfull
      simp [WriteQueue.drop, hmax]
    · rename_i hroom
      have hmax : 1 < s.config.queueMaxDepth := Int.not_le.mp hroom
      simp [hq, hmax]
  | cons x older =>
    split
    · simp [WriteQueue.drop]
    · simp [hq]

theorem dropOverflow_nil (h : s.queue = []) : s.dropOverflow = s := by
  unfold WriteQueue.dropOverflow
  rw [h]
  split
  · rfl
  · rfl

/-- What a flush called by `queueUpdate` leaves behind. -/
theorem woken_flushUpdate {older : List (QueuedUpdate Req Res)} {item : QueuedUpdate Req Res}
    (hq : s.queue = older ++ [item]) : s.guardedFlush.dropOverflow.Woken ends ↔
    ¬ ((older ≠ [] ∨ 1 < s.config.queueMaxDepth) ∧ s.flushTimers = [] ∧ s.retryTimer = none ∧
      s.Unanswered ends) := by
  cases hflushing : s.flushing with
  | none =>
    have hno : ¬ s.Unanswered ends := by simp [Unanswered, hflushing]
    have hnil := queue_guardedFlush hflushing
    rw [dropOverflow_nil hnil]
    simp [hno, Woken.of_queue_eq_nil hnil]
  | some flushing =>
    have hsome : s.flushing ≠ none := by simp [hflushing]
    have hchain : s.guardedFlush = { s with chained := s.chained + 1 } := by
      simp only [WriteQueue.guardedFlush, hflushing]
    have hleft : s.guardedFlush.queue = older ++ [item] := by rw [hchain, hq]
    have hqueue := queue_dropOverflow_ne_nil hleft
    obtain ⟨queue, droppedCount, dropped, hdrop⟩ := dropOverflow_eq s.guardedFlush
    have hcontinues : s.guardedFlush.dropOverflow.Continues ends ↔ ¬ s.Unanswered ends := by
      rw [hdrop, hchain]
      exact continues_chain hsome
    rw [← not_iff_not, not_woken_iff, hqueue, hcontinues, not_not, not_not, hdrop, hchain]

theorem Woken.queueUpdate {id : Nat} {reqMeta : Req} {res : Res} :
    (s.queueUpdate ⟨id, reqMeta, res⟩).Woken ends ↔
      ¬ s.Strands ends (.queueUpdate id reqMeta res) := by
  have hlength : ((s.queue ++ [(⟨id, reqMeta, res⟩ : QueuedUpdate Req Res)]).length : Int) =
      s.queue.length + 1 := by simp
  simp only [WriteQueue.queueUpdate, hlength, Strands]
  split
  · rename_i harm
    constructor
    · intro _ hstrands
      tauto
    · intro _ _
      simp [WriteQueue.armFlushTimer]
  · rename_i hflush
    have hcond : (s.queue.length : Int) + 1 ≥ s.config.flushBatch ∨
        (s.queue.length : Int) + 1 ≥ s.config.queueMaxDepth ∨ s.flushTimer ≠ none := by tauto
    rw [and_iff_right hcond]
    cases htimer : s.flushTimer with
    | none =>
      simp only [WriteQueue.clearFlushTimer, htimer]
      exact woken_flushUpdate rfl
    | some timer =>
      simp only [WriteQueue.clearFlushTimer, htimer]
      exact woken_flushUpdate rfl

/-- What a stored batch leaves behind: no retry timeout. -/
theorem woken_resolved (h : s.Woken ends) {n : Nat} {throws : Bool} :
    (s.step (.reply n (.resolved throws))).Woken ends ↔
      ¬ s.Strands ends (.reply n (.resolved throws)) := by
  simp only [step, WriteQueue.resume, Strands]
  cases hf : s.inFlight[n]? with
  | none => simp [h]
  | some f =>
    obtain ⟨batch, guarded⟩ := f
    simp only [Option.some.injEq, exists_eq_left']
    rw [← not_iff_not, not_woken_iff, not_not]
    cases guarded with
    | true =>
      cases throws with
      | true => simp [WriteQueue.settle, flushDone, Continues]
      | false => simp [WriteQueue.settle, flushDone, Continues]
    | false => simp [WriteQueue.settle, flushDone, Continues]

/-- A batch that failed waits for the retry timeout. -/
theorem woken_rejected (h : s.Woken ends) {n : Nat} :
    (s.step (.reply n .rejected)).Woken ends := by
  simp only [step, WriteQueue.resume]
  split
  · exact h
  · rename_i f hf
    simp only [flushFailed]
    split
    · refine Woken.of_queue_eq_nil ?_
      cases f.guarded with
      | true => rfl
      | false => rfl
    · intro _
      refine .inr (.inl ?_)
      cases f.guarded with
      | true => simp [WriteQueue.settle]
      | false => simp [WriteQueue.settle]

/-- A flush that is over hands its chained handlers on. -/
theorem Woken.finallyHandler (h : s.Woken ends) : s.finallyHandler.Woken ends := by
  unfold WriteQueue.finallyHandler
  split
  · rename_i ok hsettled
    intro hne
    rcases h hne with htimer | hretry | hcontinues
    · exact .inl htimer
    · exact .inr (.inl hretry)
    · simp only [Continues, hsettled, wakesAfter_iff] at hcontinues
      obtain ⟨rfl, hchained⟩ := hcontinues
      exact .inr (.inr (Nat.add_pos_right _ hchained))
  · exact h

/-- A handler that runs flushes the queue or leaves it to a later flush. -/
theorem Woken.thenHandler (h : s.Woken ends) : s.thenHandler.Woken ends := by
  simp only [WriteQueue.thenHandler]
  split
  · exact h
  · rename_i n hresumed
    split
    · rename_i hflush
      exact Woken.of_queue_eq_nil (queue_guardedFlush hflush.2)
    · rename_i hskip
      intro hne
      have hbusy : s.flushing ≠ none :=
        fun hnone => hskip ⟨List.length_pos_of_ne_nil hne, hnone⟩
      rcases h hne with htimer | hretry | hcontinues
      · exact .inl htimer
      · exact .inr (.inl hretry)
      · refine .inr (.inr ?_)
        unfold Continues at hcontinues ⊢
        cases hflushing : s.flushing with
        | none => exact absurd hflushing hbusy
        | some flushing =>
          rw [hflushing] at hcontinues
          cases flushing with
          | running => exact hcontinues
          | settled ok => exact hcontinues

/-! ## Runs -/

/-- Exactly the stranding steps put a woken queue to sleep. -/
theorem woken_step (h : s.Woken ends) {op : Op Req Res} (hop : op ≠ .drainForShutdown) :
    (s.step op).Woken ends ↔ ¬ s.Strands ends op := by
  cases op with
  | queueUpdate id reqMeta res => exact Woken.queueUpdate
  | flushNow => simp [step, Strands, Woken.of_queue_eq_nil (queue_flushNow false)]
  | drainForShutdown => exact absurd rfl hop
  | flushTimeout id =>
    cases hfind : s.flushTimers.find? (·.id = id) with
    | none => simp [step, Strands, hfind, h]
    | some timer =>
      by_cases hdue : timer.due ≤ s.now
      · simp only [step, Strands, hfind, if_pos hdue]
        rw [woken_guardedFlush]
        simp [hdue, Unanswered]
      · simp [step, Strands, hfind, hdue, h]
  | retryTimeout =>
    cases hretry : s.retryTimer with
    | none => simp [step, Strands, hretry, h]
    | some due =>
      by_cases hdue : due ≤ s.now
      · simp only [step, Strands, hretry, if_pos hdue]
        rw [woken_guardedFlush]
        simp [hdue, Unanswered]
      · simp [step, Strands, hretry, hdue, h]
  | reply n reply =>
    cases reply with
    | resolved throws => exact woken_resolved h
    | rejected => simpa [Strands] using woken_rejected h
  | finallyHandler => simpa [step, Strands] using h.finallyHandler
  | thenHandler => simpa [step, Strands] using h.thenHandler
  | tick ms =>
    constructor
    · exact fun _ => not_false
    · exact fun _ => h

theorem woken_new (config : QueueConfig Req Res) : (new config).Woken ends :=
  Woken.of_queue_eq_nil rfl

/-- The queue is never asleep with entries in it, exactly when no step
strands them. -/
theorem woken_throughout_iff (ends : List Bool) (config : QueueConfig Req Res)
    (ops : List (Op Req Res)) (hops : ∀ op ∈ ops, op ≠ .drainForShutdown) :
    (∀ pre, pre <+: ops → (after config pre).Woken ends) ↔
      StepsMeet step (fun s op => ¬ s.Strands ends op) (new config) ops :=
  throughout_iff_stepsMeet (I := Woken ends) (fun _ op hop h => woken_step h (hops op hop))
    (woken_new config)

/-- The second update is chained to the flush of the first, which ends
well. -/
theorem woken_behind_flush :
    let ops : List (Op Unit Unit) := [.queueUpdate 1 () (), .queueUpdate 2 () (),
      .reply 0 (.resolved false), .finallyHandler, .thenHandler]
    (∀ op ∈ ops, op ≠ .drainForShutdown) ∧
      ∀ pre, pre <+: ops → (after ⟨50, 1, 100, fun _ => false⟩ pre).Woken [true] := by
  intro ops
  have hops : ∀ op ∈ ops, op ≠ .drainForShutdown := by simp [ops]
  refine ⟨hops, (woken_throughout_iff [true] _ ops hops).mpr ?_⟩
  simp [ops, StepsMeet, Strands, Unanswered, step, new, WriteQueue.queueUpdate,
    WriteQueue.clearFlushTimer, WriteQueue.guardedFlush, WriteQueue.flushNow,
    WriteQueue.dropOverflow, Continues]

/-- `onFlush` throws after the store resolved the first update. -/
def forsaken : List (Op Unit Unit) :=
  [.queueUpdate 1 () (), .queueUpdate 2 () (), .reply 0 (.resolved true), .finallyHandler]

/-- The second update is left with no timeout, no flush and no handler. -/
theorem throw_strands_entry :
    let s := after ⟨50, 1, 100, fun _ => false⟩ forsaken
    s.queue = [⟨2, (), ()⟩] ∧ s.flushTimers = [] ∧ s.retryTimer = none ∧ s.flushing = none ∧
      s.inFlight = [] ∧ s.resumed = 0 ∧ ¬ s.Woken [true] ∧ ¬ s.Woken [true, false] := by
  have hqueue : (after ⟨50, 1, 100, fun _ => false⟩ forsaken).queue = [⟨2, (), ()⟩] := by decide
  have hasleep : ∀ ends, ¬ (after ⟨50, 1, 100, fun _ => false⟩ forsaken).Woken ends := by
    intro ends
    refine not_woken_iff.mpr ⟨by simp [hqueue], by decide, by decide, ?_⟩
    have hflushing : (after ⟨50, 1, 100, fun _ => false⟩ forsaken).flushing = none := by decide
    have hresumed : (after ⟨50, 1, 100, fun _ => false⟩ forsaken).resumed = 0 := by decide
    simp [Continues, hflushing, hresumed]
  exact ⟨hqueue, by decide, by decide, by decide, by decide, by decide, hasleep _, hasleep _⟩

end WriteQueue

end UmansGate.Queue
