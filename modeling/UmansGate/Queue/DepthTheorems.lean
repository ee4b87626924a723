/-
UmansGate.Queue.DepthTheorems — how long the write queue gets.

The overflow check runs in `queueUpdate` only, and drops one entry. A
failed flush puts its whole batch in front of the entries that came while
it was in flight, and nothing is dropped then: the queue can be longer
than `queueMaxDepth` until its next flush (`requeue_overflows`). There is
no other way (`depth_bounded_iff`).
-/
import Mathlib.Algebra.Order.Group.Int
import UmansGate.Queue.WakeTheorems

namespace UmansGate.Queue

open UmansGate.Lib

variable {Req Res : Type}

namespace WriteQueue

variable {s : WriteQueue Req Res}

/-- The queue is within its bound. -/
def Bounded (s : WriteQueue Req Res) : Prop :=
  (s.queue.length : Int) ≤ s.config.queueMaxDepth

/-- A batch that comes back fits in front of the queue. The tenth failure in
a row empties the queue instead. -/
def Requeues (s : WriteQueue Req Res) : Op Req Res → Prop
  | .reply n .rejected => ∀ f ∈ s.inFlight[n]?, s.flushRetryCount + 1 < MAX_FLUSH_RETRIES →
      (f.batch.length : Int) + s.queue.length ≤ s.config.queueMaxDepth
  | _ => True

/-! ## What each method keeps -/

@[simp] theorem settle_queue (guarded ok : Bool) : (s.settle guarded ok).queue = s.queue := by
  cases guarded <;> rfl

@[simp] theorem settle_config (guarded ok : Bool) : (s.settle guarded ok).config = s.config := by
  cases guarded <;> rfl

@[simp] theorem clearFlushTimer_queue : s.clearFlushTimer.queue = s.queue := by
  unfold WriteQueue.clearFlushTimer
  split <;> rfl

@[simp] theorem clearFlushTimer_config : s.clearFlushTimer.config = s.config := by
  unfold WriteQueue.clearFlushTimer
  split <;> rfl

@[simp] theorem flushNow_config (guarded : Bool) : (s.flushNow guarded).config = s.config := by
  simp only [WriteQueue.flushNow]
  split <;> simp

@[simp] theorem guardedFlush_config : s.guardedFlush.config = s.config := by
  unfold WriteQueue.guardedFlush
  split
  · rfl
  · exact flushNow_config true

@[simp] theorem dropOverflow_config : s.dropOverflow.config = s.config := by
  obtain ⟨queue, droppedCount, dropped, heq⟩ := dropOverflow_eq s
  rw [heq]

/-- A flush takes the queue or leaves it. -/
theorem guardedFlush_length_le : s.guardedFlush.queue.length ≤ s.queue.length := by
  cases hflushing : s.flushing with
  | none => simp [queue_guardedFlush hflushing]
  | some flushing => simp [WriteQueue.guardedFlush, hflushing]

theorem drainLoop_config (rest : List (QueuedUpdate Req Res)) (s : WriteQueue Req Res) :
    (s.drainLoop rest).config = s.config := by
  induction rest generalizing s with
  | nil => rfl
  | cons x rest ih =>
    simp only [WriteQueue.drainLoop]
    split
    · rfl
    · exact ih _

theorem drainLoop_length_le (rest : List (QueuedUpdate Req Res)) (s : WriteQueue Req Res)
    (hq : s.queue = rest) : (s.drainLoop rest).queue.length ≤ rest.length := by
  induction rest generalizing s with
  | nil => simp [WriteQueue.drainLoop, hq]
  | cons x rest ih =>
    simp only [WriteQueue.drainLoop]
    split
    · simp [WriteQueue.drop]
    · exact (ih _ rfl).trans (Nat.le_succ _)

/-- What a rejected batch leaves. -/
theorem flushFailed_queue (batch : List (QueuedUpdate Req Res)) :
    (s.flushFailed batch).queue =
      if s.flushRetryCount + 1 < MAX_FLUSH_RETRIES then batch ++ s.queue else [] := by
  simp only [WriteQueue.flushFailed]
  by_cases hlast : s.flushRetryCount + 1 < MAX_FLUSH_RETRIES
  · rw [if_neg (by simpa using hlast), if_pos hlast]
  · rw [if_pos (by simpa using hlast), if_neg hlast]

@[simp] theorem flushFailed_config (batch : List (QueuedUpdate Req Res)) :
    (s.flushFailed batch).config = s.config := by
  simp only [WriteQueue.flushFailed]
  split <;> rfl

/-- A push with the flush and the check behind it. -/
theorem Bounded.queueUpdate (h : s.Bounded) (item : QueuedUpdate Req Res) :
    (s.queueUpdate item).Bounded := by
  simp only [WriteQueue.queueUpdate]
  split
  · rename_i hroom
    obtain ⟨hroom, -⟩ := hroom
    rw [not_or] at hroom
    exact le_of_lt (Int.not_le.mp hroom.2)
  · unfold Bounded at h ⊢
    rw [dropOverflow_config, guardedFlush_config, clearFlushTimer_config]
    generalize hs : WriteQueue.clearFlushTimer _ = s'
    have hlen : s'.guardedFlush.queue.length ≤ s.queue.length + 1 := by
      refine guardedFlush_length_le.trans ?_
      simp [← hs]
    have hconfig : s'.config = s.config := by simp [← hs]
    unfold WriteQueue.dropOverflow
    rw [guardedFlush_config, hconfig]
    split
    · split
      · rename_i hnil
        simp only [hnil, List.length_nil]
        omega
      · rename_i x rest hcons
        rw [hcons, List.length_cons] at hlen
        simp only [WriteQueue.drop]
        omega
    · rename_i hlt
      dsimp only at hlt ⊢
      omega

theorem config_step (op : Op Req Res) : (s.step op).config = s.config := by
  cases op with
  | queueUpdate id reqMeta res =>
    simp only [step, WriteQueue.queueUpdate]
    split
    · rfl
    · simp
  | flushNow => exact flushNow_config false
  | drainForShutdown =>
    simp only [step, WriteQueue.drainForShutdown]
    rw [drainLoop_config]
    exact clearFlushTimer_config
  | flushTimeout id =>
    simp only [step]
    split
    · rfl
    · split
      · exact guardedFlush_config
      · rfl
  | retryTimeout =>
    simp only [step]
    split
    · rfl
    · split
      · exact guardedFlush_config
      · rfl
  | reply n reply =>
    simp only [step, WriteQueue.resume]
    split
    · rfl
    · cases reply with
      | resolved throws => simp [WriteQueue.flushDone]
      | rejected => simp
  | finallyHandler =>
    simp only [step, WriteQueue.finallyHandler]
    split <;> rfl
  | thenHandler =>
    simp only [step, WriteQueue.thenHandler]
    split
    · rfl
    · split
      · exact guardedFlush_config
      · rfl
  | tick ms => rfl

/-! ## Runs -/

/-- Exactly a batch that does not fit breaks the bound. -/
theorem bounded_step_iff (h : s.Bounded) (op : Op Req Res) :
    (s.step op).Bounded ↔ s.Requeues op := by
  have hkeep : ∀ {s' : WriteQueue Req Res}, s'.config = s.config →
      s'.queue.length ≤ s.queue.length → s'.Bounded := by
    intro s' hconfig hlen
    unfold Bounded at h ⊢
    rw [hconfig]
    omega
  cases op with
  | queueUpdate id reqMeta res => exact iff_of_true (h.queueUpdate _) trivial
  | flushNow => exact iff_of_true (hkeep (config_step _) (by simp [step, queue_flushNow])) trivial
  | drainForShutdown =>
    refine iff_of_true (hkeep (config_step _) ?_) trivial
    refine (drainLoop_length_le _ _ rfl).trans ?_
    simp
  | flushTimeout id =>
    refine iff_of_true (hkeep (config_step _) ?_) trivial
    simp only [step]
    split
    · exact le_rfl
    · split
      · exact guardedFlush_length_le
      · exact le_rfl
  | retryTimeout =>
    refine iff_of_true (hkeep (config_step _) ?_) trivial
    simp only [step]
    split
    · exact le_rfl
    · split
      · exact guardedFlush_length_le
      · exact le_rfl
  | reply n reply =>
    cases hfind : s.inFlight[n]? with
    | none =>
      have hsame : s.step (.reply n reply) = s := by simp [step, WriteQueue.resume, hfind]
      rw [hsame]
      refine iff_of_true h ?_
      cases reply with
      | resolved _ => trivial
      | rejected => simp [Requeues, hfind]
    | some f =>
      cases reply with
      | resolved throws =>
        refine iff_of_true (hkeep (config_step _) ?_) trivial
        simp [step, WriteQueue.resume, hfind, WriteQueue.flushDone]
      | rejected =>
        have hqueue : (s.step (.reply n .rejected)).queue =
            if s.flushRetryCount + 1 < MAX_FLUSH_RETRIES then f.batch ++ s.queue else [] := by
          simp only [step, WriteQueue.resume, hfind, settle_queue]
          exact flushFailed_queue f.batch
        have hreq : s.Requeues (.reply n .rejected) ↔
            (s.flushRetryCount + 1 < MAX_FLUSH_RETRIES →
              (f.batch.length : Int) + s.queue.length ≤ s.config.queueMaxDepth) := by
          simp [Requeues, hfind]
        have hlen := Int.natCast_nonneg s.queue.length
        unfold Bounded at h ⊢
        rw [config_step, hqueue, hreq]
        by_cases hlast : s.flushRetryCount + 1 < MAX_FLUSH_RETRIES
        · simp [hlast]
        · simp [hlast]
          omega
  | finallyHandler =>
    refine iff_of_true (hkeep (config_step _) ?_) trivial
    simp only [step, WriteQueue.finallyHandler]
    split <;> exact le_rfl
  | thenHandler =>
    refine iff_of_true (hkeep (config_step _) ?_) trivial
    simp only [step, WriteQueue.thenHandler]
    split
    · exact le_rfl
    · split
      · exact guardedFlush_length_le
      · exact le_rfl
  | tick ms => exact iff_of_true h trivial

theorem config_after (config : QueueConfig Req Res) (ops : List (Op Req Res)) :
    (after config ops).config = config :=
  run_invariant (I := fun s : WriteQueue Req Res => s.config = config)
    (fun _ op h => (config_step op).trans h) rfl ops

/-- The queue is never longer than `queueMaxDepth`, exactly when every batch
that a failed flush puts back fits. -/
theorem depth_bounded_iff (config : QueueConfig Req Res) (ops : List (Op Req Res)) :
    (∀ pre, pre <+: ops → ((after config pre).queue.length : Int) ≤ config.queueMaxDepth) ↔
      0 ≤ config.queueMaxDepth ∧ StepsMeet step Requeues (new config) ops := by
  have hbounded : ∀ pre, (after config pre).Bounded ↔
      ((after config pre).queue.length : Int) ≤ config.queueMaxDepth := by
    intro pre
    rw [Bounded, config_after]
  simp only [← hbounded]
  have hiff (hnew : (new config).Bounded) : (∀ pre, pre <+: ops → (after config pre).Bounded) ↔
      StepsMeet step Requeues (new config) ops :=
    throughout_iff_stepsMeet (fun _ op _ h => bounded_step_iff h op) hnew
  constructor
  · intro h
    have hnew : (new config).Bounded := h [] List.nil_prefix
    exact ⟨hnew, (hiff hnew).mp h⟩
  · rintro ⟨hnew, hops⟩
    exact (hiff hnew).mpr hops

/-- Three entries reach the bound of three and are flushed, one more comes,
and the flush fails. -/
theorem requeue_overflows :
    let ops : List (Op Unit Unit) := [.queueUpdate 1 () (), .queueUpdate 2 () (),
      .queueUpdate 3 () (), .queueUpdate 4 () (), .reply 0 .rejected]
    ¬ ∀ pre, pre <+: ops → ((after ⟨50, 25, 3, fun _ => false⟩ pre).queue.length : Int) ≤ 3 := by
  intro ops h
  have hlast := h ops List.prefix_rfl
  revert hlast
  decide

end WriteQueue

end UmansGate.Queue
