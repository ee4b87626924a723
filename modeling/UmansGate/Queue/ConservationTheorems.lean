/-
UmansGate.Queue.ConservationTheorems — where the entries of the write
queue are.

Every entry passed to `queueUpdate` is in one of four places. One step
breaks this: when a flush fails for the tenth time in a row, `flushFailed`
empties the queue without a word to `onDrop` (`conserved_iff`). The proof
carries the multiset of the entries lost that way; every other step keeps
it.
-/
import Mathlib.Algebra.BigOperators.Group.Multiset.Basic
import Mathlib.Algebra.Order.Group.Multiset
import Mathlib.Tactic.Abel
import UmansGate.Queue.WriteQueue

namespace UmansGate.Queue

open UmansGate.Lib

variable {Req Res : Type}

/-- The entries of a list of batches. -/
def entries (batches : List (List (QueuedUpdate Req Res))) : Multiset (QueuedUpdate Req Res) :=
  (batches.map Multiset.ofList).sum

@[simp] theorem entries_nil : entries ([] : List (List (QueuedUpdate Req Res))) = 0 := rfl

@[simp] theorem entries_cons (batch : List (QueuedUpdate Req Res))
    (batches : List (List (QueuedUpdate Req Res))) :
    entries (batch :: batches) = batch + entries batches := rfl

theorem entries_eq_flatten (batches : List (List (QueuedUpdate Req Res))) :
    entries batches = (batches.flatten : Multiset (QueuedUpdate Req Res)) := by
  induction batches with
  | nil => rfl
  | cons batch batches ih => rw [entries_cons, ih, List.flatten_cons, Multiset.coe_add]

@[simp] theorem entries_append (a b : List (List (QueuedUpdate Req Res))) :
    entries (a ++ b) = entries a + entries b := by
  simp [entries]

namespace WriteQueue

/-- The entries in flight. -/
def flying (s : WriteQueue Req Res) : Multiset (QueuedUpdate Req Res) :=
  entries (s.inFlight.map Flush.batch)

/-- The four places an entry can be in. -/
def places (s : WriteQueue Req Res) : Multiset (QueuedUpdate Req Res) :=
  s.queue + s.flying + entries s.committed + s.dropped

/-- Every entry queued is in one of the four places, and every entry
dropped is counted. -/
structure Conserved (s : WriteQueue Req Res) : Prop where
  placed : s.places = s.queued
  counted : s.droppedCount = s.dropped.length
  total : s.queued.length =
    s.queue.length + s.flying.card + (entries s.committed).card + s.droppedCount

/-- The step is the failure of a flush that exhausts the retries. -/
def Exhausts (s : WriteQueue Req Res) : Op Req Res → Prop
  | .reply n .rejected => n < s.inFlight.length ∧ MAX_FLUSH_RETRIES ≤ s.flushRetryCount + 1
  | _ => False

/-- The entries `lost` are in none of the four places. -/
structure Lost (s : WriteQueue Req Res) (lost : Multiset (QueuedUpdate Req Res)) : Prop where
  placed : s.places + lost = s.queued
  counted : s.droppedCount = s.dropped.length
  nonempty : ∀ f ∈ s.inFlight, f.batch ≠ []

variable {s : WriteQueue Req Res} {lost : Multiset (QueuedUpdate Req Res)}

theorem Lost.conserved_iff_eq_zero (h : s.Lost lost) : s.Conserved ↔ lost = 0 := by
  constructor
  · intro hc
    have hplaced := h.placed
    rw [← hc.placed] at hplaced
    exact add_left_cancel (hplaced.trans (add_zero _).symm)
  · rintro rfl
    have hplaced : s.places = s.queued := (add_zero _).symm.trans h.placed
    refine ⟨hplaced, h.counted, ?_⟩
    have hcard := congrArg Multiset.card hplaced
    rw [places, Multiset.card_add, Multiset.card_add, Multiset.card_add, Multiset.coe_card,
      Multiset.coe_card, Multiset.coe_card] at hcard
    rw [h.counted]
    exact hcard.symm

/-! ## What each method moves -/

/-- The fields that no timer or promise handler is part of. -/
theorem Lost.congr {s' : WriteQueue Req Res} (h : s.Lost lost) (hq : s'.queue = s.queue)
    (hf : s'.inFlight = s.inFlight) (hc : s'.committed = s.committed)
    (hd : s'.dropped = s.dropped) (hn : s'.droppedCount = s.droppedCount)
    (hqueued : s'.queued = s.queued) : s'.Lost lost := by
  constructor
  · rw [places, flying, hq, hf, hc, hd, hqueued]
    exact h.placed
  · rw [hn, hd]
    exact h.counted
  · rw [hf]
    exact h.nonempty

theorem Lost.settle (h : s.Lost lost) (guarded ok : Bool) : (s.settle guarded ok).Lost lost := by
  cases guarded with
  | true => exact h.congr rfl rfl rfl rfl rfl rfl
  | false => exact h

theorem Lost.clearFlushTimer (h : s.Lost lost) : s.clearFlushTimer.Lost lost := by
  unfold WriteQueue.clearFlushTimer
  split
  · exact h
  · exact h.congr rfl rfl rfl rfl rfl rfl

/-- `flushNow` moves the queue into one batch. -/
theorem Lost.flushNow (h : s.Lost lost) (guarded : Bool) : (s.flushNow guarded).Lost lost := by
  have h₀ : { s with flushTimer := none }.Lost lost := h.congr rfl rfl rfl rfl rfl rfl
  simp only [WriteQueue.flushNow]
  split
  · exact h₀.settle guarded true
  · rename_i hne
    constructor
    · rw [← h.placed]
      simp only [places, flying, List.map_append, List.map_cons, List.map_nil, entries_append,
        entries_cons, entries_nil, Multiset.coe_nil]
      abel
    · exact h.counted
    · intro f hf
      rcases List.mem_append.mp hf with hf | hf
      · exact h.nonempty f hf
      · rw [List.mem_singleton.mp hf]
        exact hne

theorem Lost.guardedFlush (h : s.Lost lost) : s.guardedFlush.Lost lost := by
  unfold WriteQueue.guardedFlush
  split
  · exact h.congr rfl rfl rfl rfl rfl rfl
  · have h₀ : { s with flushing := some .running }.Lost lost := h.congr rfl rfl rfl rfl rfl rfl
    exact h₀.flushNow true

/-- An entry that leaves the queue is counted and passed to `onDrop`. -/
theorem Lost.drop (h : s.Lost lost) {x : QueuedUpdate Req Res} {rest : List (QueuedUpdate Req Res)}
    (hq : s.queue = x :: rest) : ({ s with queue := rest }.drop x).Lost lost := by
  constructor
  · refine Eq.trans ?_ h.placed
    simp only [places, flying, WriteQueue.drop, hq, ← Multiset.cons_coe, ← Multiset.coe_add,
      ← Multiset.singleton_add, Multiset.coe_nil]
    abel
  · simp only [WriteQueue.drop, List.length_append, List.length_singleton]
    rw [h.counted]
  · exact h.nonempty

theorem Lost.dropOverflow (h : s.Lost lost) : s.dropOverflow.Lost lost := by
  unfold WriteQueue.dropOverflow
  split
  · split
    · exact h
    · exact h.drop ‹_›
  · exact h

theorem Lost.queueUpdate (h : s.Lost lost) (item : QueuedUpdate Req Res) :
    (s.queueUpdate item).Lost lost := by
  have h₀ : { s with queue := s.queue ++ [item], queued := s.queued ++ [item] }.Lost lost := by
    constructor
    · rw [← Multiset.coe_add, ← h.placed]
      simp only [places, flying, ← Multiset.coe_add]
      abel
    · exact h.counted
    · exact h.nonempty
  simp only [WriteQueue.queueUpdate]
  split
  · exact h₀.congr rfl rfl rfl rfl rfl rfl
  · exact h₀.clearFlushTimer.guardedFlush.dropOverflow

theorem Lost.drainLoop (h : s.Lost lost) {rest : List (QueuedUpdate Req Res)}
    (hq : s.queue = rest) : (s.drainLoop rest).Lost lost := by
  induction rest generalizing s with
  | nil => exact h
  | cons x rest ih =>
    have hdrop := h.drop hq
    simp only [WriteQueue.drainLoop]
    split
    · exact hdrop
    · exact ih hdrop rfl

theorem Lost.drainForShutdown (h : s.Lost lost) : s.drainForShutdown.Lost lost := by
  have h₀ : { s.clearFlushTimer with retryTimer := none }.Lost lost :=
    h.clearFlushTimer.congr rfl rfl rfl rfl rfl rfl
  exact h₀.drainLoop rfl

/-- A batch that is neither in flight nor stored. -/
theorem Lost.land (h : s.Lost lost) {n : Nat} {f : Flush Req Res} (hf : s.inFlight[n]? = some f) :
    { s with inFlight := s.inFlight.eraseIdx n }.Lost (f.batch + lost) := by
  obtain ⟨hlt, hget⟩ := List.getElem?_eq_some_iff.mp hf
  have hperm := List.getElem_cons_eraseIdx_perm hlt
  rw [hget] at hperm
  have hflying : s.flying = f.batch + entries ((s.inFlight.eraseIdx n).map Flush.batch) := by
    rw [← entries_cons]
    exact ((hperm.map Flush.batch).map Multiset.ofList).sum_eq.symm
  constructor
  · rw [← h.placed]
    simp only [places, hflying]
    simp only [flying]
    abel
  · exact h.counted
  · intro g hg
    exact h.nonempty g (List.mem_of_mem_eraseIdx hg)

/-- A failed batch returns to the queue, or takes the queue with it. -/
theorem Lost.flushFailed {batch : List (QueuedUpdate Req Res)} (h : s.Lost (batch + lost)) :
    (s.flushRetryCount + 1 < MAX_FLUSH_RETRIES → (s.flushFailed batch).Lost lost) ∧
      (MAX_FLUSH_RETRIES ≤ s.flushRetryCount + 1 →
        (s.flushFailed batch).Lost (batch + s.queue + lost)) := by
  constructor
  · intro hlt
    simp only [WriteQueue.flushFailed, ge_iff_le]
    rw [if_neg (by omega)]
    constructor
    · rw [← h.placed]
      simp only [places, flying, ← Multiset.coe_add]
      abel
    · exact h.counted
    · exact h.nonempty
  · intro hle
    simp only [WriteQueue.flushFailed, ge_iff_le]
    rw [if_pos hle]
    constructor
    · rw [← h.placed]
      simp only [places, flying, Multiset.coe_nil]
      abel
    · exact h.counted
    · exact h.nonempty

theorem Lost.flushDone {batch : List (QueuedUpdate Req Res)} (h : s.Lost (batch + lost)) :
    (s.flushDone batch).Lost lost := by
  constructor
  · refine Eq.trans ?_ h.placed
    simp only [places, flying, WriteQueue.flushDone, entries_append, entries_cons, entries_nil]
    abel
  · exact h.counted
  · exact h.nonempty

/-! ## Runs -/

/-- What one step loses: nothing, unless it exhausts the retries. -/
theorem lost_step (h : s.Lost lost) (op : Op Req Res) :
    ∃ lost', (s.step op).Lost lost' ∧ (lost' = 0 ↔ lost = 0 ∧ ¬ s.Exhausts op) := by
  have hkeep : ∀ {s' : WriteQueue Req Res}, s'.Lost lost → ¬ s.Exhausts op →
      ∃ lost', s'.Lost lost' ∧ (lost' = 0 ↔ lost = 0 ∧ ¬ s.Exhausts op) :=
    fun h' hno => ⟨lost, h', by simp [hno]⟩
  cases op with
  | queueUpdate id reqMeta res => exact hkeep (h.queueUpdate _) not_false
  | flushNow => exact hkeep (h.flushNow false) not_false
  | drainForShutdown => exact hkeep h.drainForShutdown not_false
  | flushTimeout id =>
    refine hkeep ?_ not_false
    simp only [step]
    split
    · exact h
    · split
      · exact Lost.guardedFlush (h.congr rfl rfl rfl rfl rfl rfl)
      · exact h
  | retryTimeout =>
    refine hkeep ?_ not_false
    simp only [step]
    split
    · exact h
    · split
      · exact Lost.guardedFlush (h.congr rfl rfl rfl rfl rfl rfl)
      · exact h
  | reply n reply =>
    simp only [step, resume]
    split
    · rename_i hnone
      have hlen := List.getElem?_eq_none_iff.mp hnone
      refine hkeep h ?_
      cases reply with
      | rejected => exact fun hex => absurd hex.1 (by omega)
      | resolved throws => exact not_false
    · rename_i f hf
      have hland := h.land hf
      have hlen : n < s.inFlight.length := (List.getElem?_eq_some_iff.mp hf).1
      cases reply with
      | resolved throws => exact hkeep (hland.flushDone.settle _ _) not_false
      | rejected =>
        by_cases hex : MAX_FLUSH_RETRIES ≤ s.flushRetryCount + 1
        · have hne : f.batch ≠ [] := h.nonempty f (List.mem_of_getElem? hf)
          refine ⟨_, (hland.flushFailed.2 hex).settle _ _, ?_⟩
          constructor
          · intro hzero
            have hcard := congrArg Multiset.card hzero
            simp only [Multiset.card_add, Multiset.coe_card, Multiset.card_zero] at hcard
            have hpos := List.length_pos_of_ne_nil hne
            omega
          · intro hno
            exact absurd ⟨hlen, hex⟩ hno.2
        · exact hkeep ((hland.flushFailed.1 (Nat.lt_of_not_le hex)).settle _ _)
            fun h' => hex h'.2
  | finallyHandler =>
    refine hkeep ?_ not_false
    simp only [step, finallyHandler]
    split
    · exact h.congr rfl rfl rfl rfl rfl rfl
    · exact h
  | thenHandler =>
    refine hkeep ?_ not_false
    simp only [step, thenHandler]
    split
    · exact h
    · split
      · exact Lost.guardedFlush (h.congr rfl rfl rfl rfl rfl rfl)
      · exact h.congr rfl rfl rfl rfl rfl rfl
  | tick ms => exact hkeep (h.congr rfl rfl rfl rfl rfl rfl) not_false

/-- What a run loses. -/
theorem lost_run (h : s.Lost lost) (ops : List (Op Req Res)) :
    ∃ lost', (Lib.run step s ops).Lost lost' ∧
      (lost' = 0 ↔ lost = 0 ∧ StepsMeet step (fun s op => ¬ s.Exhausts op) s ops) := by
  induction ops generalizing s lost with
  | nil => exact ⟨lost, h, by simp [StepsMeet]⟩
  | cons op ops ih =>
    obtain ⟨lost₁, h₁, hiff₁⟩ := lost_step h op
    obtain ⟨lost₂, h₂, hiff₂⟩ := ih h₁
    refine ⟨lost₂, h₂, ?_⟩
    rw [hiff₂, hiff₁, and_assoc]
    rfl

theorem lost_new (config : QueueConfig Req Res) : (new config).Lost 0 := by
  constructor
  · rfl
  · rfl
  · intro f hf
    exact absurd hf (by simp [new])

/-- In every run each entry ever queued is in the queue, in one batch in
flight, in one stored batch, or dropped with `droppedCount` and `onDrop`
told of it, exactly when no step of the run exhausts the retries of a
flush. -/
theorem conserved_iff (config : QueueConfig Req Res) (ops : List (Op Req Res)) :
    (after config ops).Conserved ↔
      StepsMeet step (fun s op => ¬ s.Exhausts op) (new config) ops := by
  obtain ⟨lost, h, hiff⟩ := lost_run (lost_new config) ops
  rw [after, h.conserved_iff_eq_zero, hiff]
  simp

/-- The store rejects one batch ten times, each time after the backoff. -/
def outage : List (Op Unit Unit) :=
  .queueUpdate 1 () () :: (List.replicate 10
    [.reply 0 .rejected, .finallyHandler, .tick RETRY_MAX_MS, .retryTimeout]).flatten

/-- The entry of that run is gone, and neither `droppedCount` nor `onDrop`
knows. -/
theorem outage_loses_entry :
    (after ⟨50, 1, 100, fun _ => false⟩ outage).droppedCount = 0 ∧
    (after ⟨50, 1, 100, fun _ => false⟩ outage).dropped = [] ∧
    ¬ (after ⟨50, 1, 100, fun _ => false⟩ outage).Conserved :=
  ⟨by decide +kernel, by decide +kernel, fun h => absurd h.total (by decide +kernel)⟩

end WriteQueue

end UmansGate.Queue
