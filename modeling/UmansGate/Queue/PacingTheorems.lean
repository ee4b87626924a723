/-
UmansGate.Queue.PacingTheorems — when the write queue calls the store.

`queueUpdate` flushes at once when a flush timer is armed, whatever the
length of the queue: the second update of an interval goes to the store
right away (`second_update_flushes`). The same branch, the flush timeout
and the chained handlers flush while the retry timer waits for the end of
a backoff. `flush_paced` says what a run without these steps keeps: every
call of the store has its cause, each backoff is sat out, and a batch is
given up only after all of them.

The causes are stated with `Since`, looking back along the run. `Pacing`
is the invariant: what each armed timer and each chained handler stands
for.
-/
import UmansGate.Queue.OrderTheorems
import UmansGate.Queue.WakeTheorems

namespace UmansGate.Queue

open UmansGate.Lib

variable {Req Res : Type}

/-- The backoff after the `n`-th failure in a row. -/
def backoffMs (n : Nat) : Int := (min (RETRY_BASE_MS * 2 ^ (n - 1)) RETRY_MAX_MS : Nat)

/-- The backoffs of the first `n` failures together. -/
def backoffTotal : Nat → Int
  | 0 => 0
  | n + 1 => backoffTotal n + backoffMs (n + 1)

/-- A `queueUpdate` call. -/
def Op.Queues (op : Op Req Res) : Prop := ∃ id reqMeta res, op = .queueUpdate id reqMeta res

/-- The steps of the queue itself and of its store. -/
def Op.Regular : Op Req Res → Prop
  | .flushNow | .drainForShutdown => False
  | _ => True

namespace WriteQueue

/-! ## Causes -/

/-- The step calls `batchUpdate`. -/
def Attempts (s : WriteQueue Req Res) (op : Op Req Res) : Prop :=
  s.inFlight.length < (s.step op).inFlight.length

/-- One more entry makes the queue long enough to be flushed. -/
def Threshold (s : WriteQueue Req Res) : Prop :=
  (s.queue.length : Int) + 1 ≥ s.config.flushBatch ∨
    (s.queue.length : Int) + 1 ≥ s.config.queueMaxDepth

/-- A `batchUpdate` rejects, and its batch will be tried again. -/
def Fails (s : WriteQueue Req Res) (op : Op Req Res) : Prop :=
  ∃ n, op = .reply n .rejected ∧ n < s.inFlight.length ∧ s.flushRetryCount + 1 < MAX_FLUSH_RETRIES

/-- A `batchUpdate` resolves. -/
def Succeeds (s : WriteQueue Req Res) (op : Op Req Res) : Prop :=
  ∃ n throws, op = .reply n (.resolved throws) ∧ n < s.inFlight.length

variable (config : QueueConfig Req Res)

/-- An entry that waits for `flushIntervalMs` at time `t`: since its
`queueUpdate` nothing was flushed or dropped. -/
def Aged (t : Int) (pre : List (Op Req Res)) : Prop :=
  Since step (fun s op => op.Queues ∧ s.now + s.config.flushIntervalMs ≤ t)
    (fun s op => ¬ s.Attempts op ∧ (s.step op).dropped = s.dropped) (new config) pre

/-- Since the last flush the queue was long enough to be flushed. -/
def Full (pre : List (Op Req Res)) : Prop :=
  Since step (fun s op => op.Queues ∧ s.Threshold) (fun s op => ¬ s.Attempts op) (new config) pre

/-- The last flush failed, and its backoff is over at time `t`. -/
def BackedOff (t : Int) (pre : List (Op Req Res)) : Prop :=
  Since step (fun s op => s.Fails op ∧ s.now + backoffMs (s.flushRetryCount + 1) ≤ t)
    (fun s op => ¬ s.Attempts op) (new config) pre

/-- A flush failed, and its backoff ends at time `t`. -/
def Failed (t : Int) (pre : List (Op Req Res)) : Prop :=
  Since step (fun s op => s.Fails op ∧ s.now + backoffMs (s.flushRetryCount + 1) = t)
    (fun _ _ => True) (new config) pre

/-- The store fails since time `t`. -/
def Failing (t : Int) (pre : List (Op Req Res)) : Prop :=
  Since step (fun s op => s.Fails op ∧ s.flushRetryCount = 0 ∧ s.now = t)
    (fun s op => ¬ s.Succeeds op) (new config) pre

/-- What the step `op` after the steps `pre` keeps to. -/
structure Paced (pre : List (Op Req Res)) (op : Op Req Res) : Prop where
  /-- A call of the store has one of the three causes. -/
  cause : (after config pre).Attempts op →
    op.Queues ∧ (after config pre).Threshold ∨ Aged config (after config pre).now pre ∨
      Full config pre ∨ BackedOff config (after config pre).now pre
  /-- It comes after the backoff of every failure. -/
  backoff : (after config pre).Attempts op → ∀ t, Failed config t pre → t ≤ (after config pre).now
  /-- A batch is given up when the store failed for all the backoffs. -/
  exhausted : (after config pre).Exhausts op →
    ∃ t, Failing config t pre ∧ t + backoffTotal (MAX_FLUSH_RETRIES - 1) ≤ (after config pre).now

/-! ## Conditions -/

variable {config} {s s' : WriteQueue Req Res} {op : Op Req Res} {pre : List (Op Req Res)} {t : Int}

/-- The retry timer waits for the end of a backoff. -/
def BacksOff (s : WriteQueue Req Res) : Prop := ∃ due ∈ s.retryTimer, s.now < due

/-- The step does not flush ahead of time: no update below the thresholds
meets an armed flush timer, the flush timeout is the one `flushTimer` names,
the retry timeout meets no flush in flight, and none of them flushes during a
backoff. -/
def OnPace (s : WriteQueue Req Res) : Op Req Res → Prop
  | .queueUpdate .. => (s.flushTimer ≠ none → s.Threshold) ∧
      (s.flushing = none → s.Threshold → ¬ s.BacksOff)
  | .flushTimeout id => ∀ timer ∈ s.flushTimers.find? (·.id = id), timer.due ≤ s.now →
      s.flushTimer = some id ∧ (s.flushing = none → s.queue ≠ [] → ¬ s.BacksOff)
  | .retryTimeout => ∀ due ∈ s.retryTimer, due ≤ s.now → s.flushing = none
  | .thenHandler => 0 < s.resumed → s.flushing = none → s.queue ≠ [] → ¬ s.BacksOff
  | _ => True

/-- Promise handlers run before the next timeout, reply or passing of time,
as in the event loop. -/
def InTurn (s : WriteQueue Req Res) : Op Req Res → Prop
  | .flushTimeout _ | .retryTimeout | .reply _ _ | .tick _ =>
      s.resumed = 0 ∧ ∀ ok, s.flushing ≠ some (.settled ok)
  | _ => True

instance (s : WriteQueue Req Res) : Decidable s.Threshold := inferInstanceAs (Decidable (_ ∨ _))

instance (s : WriteQueue Req Res) : Decidable s.BacksOff :=
  inferInstanceAs (Decidable (∃ due ∈ s.retryTimer, s.now < due))

instance (s : WriteQueue Req Res) : ∀ op : Op Req Res, Decidable (s.OnPace op)
  | .queueUpdate .. => inferInstanceAs (Decidable (_ ∧ _))
  | .flushTimeout id => inferInstanceAs (Decidable
      (∀ timer ∈ s.flushTimers.find? (·.id = id), timer.due ≤ s.now →
        s.flushTimer = some id ∧ (s.flushing = none → s.queue ≠ [] → ¬ s.BacksOff)))
  | .retryTimeout => inferInstanceAs (Decidable
      (∀ due ∈ s.retryTimer, due ≤ s.now → s.flushing = none))
  | .thenHandler => inferInstanceAs (Decidable (_ → _ → _ → _))
  | .flushNow | .drainForShutdown | .reply .. | .finallyHandler | .tick _ => .isTrue trivial

instance (s : WriteQueue Req Res) : ∀ op : Op Req Res, Decidable (s.InTurn op)
  | .flushTimeout _ | .retryTimeout | .reply .. | .tick _ => inferInstanceAs (Decidable
      (s.resumed = 0 ∧ ∀ ok, s.flushing ≠ some (.settled ok)))
  | .queueUpdate .. | .flushNow | .drainForShutdown | .finallyHandler | .thenHandler =>
    .isTrue trivial

/-! ## What a step does -/

theorem guardedFlush_cases (s : WriteQueue Req Res) :
    (s.flushing ≠ none ∧ s.guardedFlush = { s with chained := s.chained + 1 }) ∨
      (s.flushing = none ∧ s.queue = [] ∧
        s.guardedFlush = { s with flushTimer := none, flushing := some (.settled true) }) ∨
      (s.flushing = none ∧ s.queue ≠ [] ∧
        s.guardedFlush = { s with
          flushTimer := none
          flushing := some .running
          queue := []
          inFlight := s.inFlight ++ [⟨s.queue, true⟩] }) := by
  unfold WriteQueue.guardedFlush
  cases hflushing : s.flushing with
  | some flushing => exact .inl ⟨by simp, rfl⟩
  | none =>
    simp only [WriteQueue.flushNow]
    split
    · rename_i hnil
      exact .inr (.inl ⟨trivial, hnil, rfl⟩)
    · rename_i hne
      exact .inr (.inr ⟨trivial, hne, rfl⟩)

theorem clearFlushTimer_eq (s : WriteQueue Req Res) : ∃ timers, (∀ x ∈ timers, x ∈ s.flushTimers) ∧
    s.clearFlushTimer = { s with flushTimer := none, flushTimers := timers } := by
  cases htimer : s.flushTimer with
  | none =>
    refine ⟨s.flushTimers, fun _ h => h, ?_⟩
    simp only [WriteQueue.clearFlushTimer, htimer]
    rw [← htimer]
  | some id =>
    refine ⟨s.flushTimers.filter (·.id ≠ id), fun x h => List.mem_of_mem_filter h, ?_⟩
    simp only [WriteQueue.clearFlushTimer, htimer]

/-- Without a flush in progress nothing is in flight, and while one is over
but not yet cleared away neither. -/
theorem Serial.inFlight_eq_nil (h : s.Serial) (hflushing : s.flushing ≠ some .running) :
    s.inFlight = [] := by
  unfold Serial at h
  split at h
  · exact absurd ‹_› hflushing
  · exact h
  · exact h

/-! ## The invariant -/

/-- What is pending after the steps `pre`, in state `s`, has its cause, and
no backoff is forgotten. -/
structure Pacing (config : QueueConfig Req Res) (pre : List (Op Req Res))
    (s : WriteQueue Req Res) : Prop where
  serial : s.Serial
  idle : s.flushing = none → s.chained = 0
  settled : ∀ ok, s.flushing = some (.settled ok) → s.resumed = 0
  timers : ∀ timer ∈ s.flushTimers, timer.id < s.nextTimer
  timer : ∀ id, s.flushTimer = some id → ∀ timer ∈ s.flushTimers, timer.id = id →
    Aged config timer.due pre
  retry : s.inFlight = [] → ∀ due ∈ s.retryTimer, BackedOff config due pre
  chain : 0 < s.chained ∨ s.flushing = none ∧ 0 < s.resumed →
    Aged config s.now pre ∨ Full config pre
  failed : ∀ t, Failed config t pre →
    t ≤ s.now ∨ s.inFlight = [] ∧ ∃ due ∈ s.retryTimer, t ≤ due
  failing : 0 < s.flushRetryCount → ∃ t, Failing config t pre ∧
    (t + backoffTotal s.flushRetryCount ≤ s.now ∨
      s.inFlight = [] ∧ ∃ due ∈ s.retryTimer, t + backoffTotal s.flushRetryCount ≤ due)

theorem aged_concat (hs : after config pre = s) : Aged config t (pre ++ [op]) ↔
    (op.Queues ∧ s.now + s.config.flushIntervalMs ≤ t ∨ Aged config t pre) ∧
      ¬ s.Attempts op ∧ (s.step op).dropped = s.dropped := by
  subst hs
  exact since_concat

theorem full_concat (hs : after config pre = s) : Full config (pre ++ [op]) ↔
    (op.Queues ∧ s.Threshold ∨ Full config pre) ∧ ¬ s.Attempts op := by
  subst hs
  exact since_concat

theorem backedOff_concat (hs : after config pre = s) : BackedOff config t (pre ++ [op]) ↔
    (s.Fails op ∧ s.now + backoffMs (s.flushRetryCount + 1) ≤ t ∨ BackedOff config t pre) ∧
      ¬ s.Attempts op := by
  subst hs
  exact since_concat

theorem failed_concat (hs : after config pre = s) : Failed config t (pre ++ [op]) ↔
    s.Fails op ∧ s.now + backoffMs (s.flushRetryCount + 1) = t ∨ Failed config t pre := by
  subst hs
  exact since_concat.trans (and_iff_left trivial)

theorem failing_concat (hs : after config pre = s) : Failing config t (pre ++ [op]) ↔
    (s.Fails op ∧ s.flushRetryCount = 0 ∧ s.now = t ∨ Failing config t pre) ∧ ¬ s.Succeeds op := by
  subst hs
  exact since_concat

theorem Aged.mono {t' : Int} (h : Aged config t pre) (hle : t ≤ t') : Aged config t' pre :=
  h.imp (fun _ _ hq => ⟨hq.1, hq.2.trans hle⟩) fun _ _ hn => hn

theorem BackedOff.mono {t' : Int} (h : BackedOff config t pre) (hle : t ≤ t') :
    BackedOff config t' pre :=
  h.imp (fun _ _ hf => ⟨hf.1, hf.2.trans hle⟩) fun _ _ hn => hn

theorem not_attempts (h : (s.step op).inFlight = s.inFlight) : ¬ s.Attempts op := by
  simp [Attempts, h]

/-- Only a reply of the store tells of it. -/
theorem not_reply (hop : ∀ n r, op ≠ .reply n r) : ¬ s.Fails op ∧ ¬ s.Succeeds op := by
  constructor
  · rintro ⟨n, heq, _⟩
    exact hop n _ heq
  · rintro ⟨n, _, heq, _⟩
    exact hop n _ heq

/-- A handler or a timer stands for the same cause one step later. -/
theorem Pacing.reason (h : Pacing config pre s) (hs : after config pre = s)
    (hquiet : ¬ s.Attempts op) (hdropped : (s.step op).dropped = s.dropped) (hnow : s.now ≤ t)
    (hpending : 0 < s.chained ∨ s.flushing = none ∧ 0 < s.resumed) :
    Aged config t (pre ++ [op]) ∨ Full config (pre ++ [op]) := by
  rw [aged_concat hs, full_concat hs]
  refine (h.chain hpending).imp (fun haged => ?_) fun hfull => ?_
  · exact ⟨.inr (haged.mono hnow), hquiet, hdropped⟩
  · exact ⟨.inr hfull, hquiet⟩

/-- A step that calls the store, outside of a backoff. -/
theorem Pacing.attempt (h : Pacing config pre s) (hs : after config pre = s)
    (hop : ¬ s.Fails op ∧ ¬ s.Succeeds op) (hpace : ∀ due ∈ s.retryTimer, due ≤ s.now)
    (hserial : s'.Serial) (hflushing : s'.flushing = some .running) (hchained : s'.chained = 0)
    (hflight : s'.inFlight ≠ []) (htimer : s'.flushTimer = none)
    (htimers : ∀ timer ∈ s'.flushTimers, timer.id < s'.nextTimer) (hnow : s'.now = s.now)
    (hcount : s'.flushRetryCount = s.flushRetryCount) : Pacing config (pre ++ [op]) s' where
  serial := hserial
  idle hnone := by simp [hflushing] at hnone
  settled ok hok := by simp [hflushing] at hok
  timers := htimers
  timer id hid := by simp [htimer] at hid
  retry hnil := absurd hnil hflight
  chain hpending := by simp [hchained, hflushing] at hpending
  failed t ht := by
    rw [hnow]
    rcases (failed_concat hs).mp ht with ⟨hfails, -⟩ | hold
    · exact absurd hfails hop.1
    · rcases h.failed t hold with hle | ⟨-, due, hdue, hle⟩
      · exact .inl hle
      · exact .inl (hle.trans (hpace due hdue))
  failing hpos := by
    rw [hcount] at hpos ⊢
    rw [hnow]
    obtain ⟨t, hfailing, hsum⟩ := h.failing hpos
    refine ⟨t, (failing_concat hs).mpr ⟨.inr hfailing, hop.2⟩, .inl ?_⟩
    rcases hsum with hle | ⟨-, due, hdue, hle⟩
    · exact hle
    · exact hle.trans (hpace due hdue)

/-- A step that does not call the store. -/
theorem Pacing.quiet (h : Pacing config pre s) (hs : after config pre = s)
    (hop : ¬ s.Fails op ∧ ¬ s.Succeeds op) (hstep : s.step op = s') (hserial : s'.Serial)
    (hflight : s'.inFlight = s.inFlight) (hnow : s.now ≤ s'.now)
    (hcount : s'.flushRetryCount = s.flushRetryCount)
    (hretry : s'.retryTimer = s.retryTimer ∨
      s'.retryTimer = none ∧ ∀ due ∈ s.retryTimer, due ≤ s.now)
    (hidle : s'.flushing = none → s'.chained = 0)
    (hsettled : ∀ ok, s'.flushing = some (.settled ok) → s'.resumed = 0)
    (htimers : ∀ timer ∈ s'.flushTimers, timer.id < s'.nextTimer)
    (htimer : ∀ id, s'.flushTimer = some id → ∀ timer ∈ s'.flushTimers, timer.id = id →
      Aged config timer.due (pre ++ [op]))
    (hchain : 0 < s'.chained ∨ s'.flushing = none ∧ 0 < s'.resumed →
      Aged config s'.now (pre ++ [op]) ∨ Full config (pre ++ [op])) :
    Pacing config (pre ++ [op]) s' where
  serial := hserial
  idle := hidle
  settled := hsettled
  timers := htimers
  timer := htimer
  retry hnil due hdue := by
    rw [hflight] at hnil
    rcases hretry with heq | ⟨heq, -⟩
    · rw [heq] at hdue
      exact (backedOff_concat hs).mpr ⟨.inr (h.retry hnil due hdue), not_attempts (hstep ▸ hflight)⟩
    · simp [heq] at hdue
  chain := hchain
  failed t ht := by
    rcases (failed_concat hs).mp ht with ⟨hfails, -⟩ | hold
    · exact absurd hfails hop.1
    · rw [hflight]
      rcases h.failed t hold with hle | ⟨hnil, due, hdue, hle⟩
      · exact .inl (hle.trans hnow)
      · rcases hretry with heq | ⟨-, hover⟩
        · exact .inr ⟨hnil, due, heq ▸ hdue, hle⟩
        · exact .inl ((hle.trans (hover due hdue)).trans hnow)
  failing hpos := by
    rw [hcount] at hpos ⊢
    rw [hflight]
    obtain ⟨t, hfailing, hsum⟩ := h.failing hpos
    refine ⟨t, (failing_concat hs).mpr ⟨.inr hfailing, hop.2⟩, ?_⟩
    rcases hsum with hle | ⟨hnil, due, hdue, hle⟩
    · exact .inl (hle.trans hnow)
    · rcases hretry with heq | ⟨-, hover⟩
      · exact .inr ⟨hnil, due, heq ▸ hdue, hle⟩
      · exact .inl ((hle.trans (hover due hdue)).trans hnow)

/-! ## One step -/

/-- Below the thresholds an update without an armed timer arms one; any
other is flushed with the queue. -/
theorem queueUpdate_cases (s : WriteQueue Req Res) (item : QueuedUpdate Req Res) :
    (¬ s.Threshold ∧ s.flushTimer = none ∧ s.queueUpdate item =
        { s with queue := s.queue ++ [item], queued := s.queued ++ [item] }.armFlushTimer) ∨
      ((s.Threshold ∨ s.flushTimer ≠ none) ∧ s.queueUpdate item =
        { s with
          queue := s.queue ++ [item]
          queued := s.queued ++ [item] }.clearFlushTimer.guardedFlush.dropOverflow) := by
  have hlen : ((s.queue ++ [item]).length : Int) = (s.queue.length : Int) + 1 := by simp
  simp only [WriteQueue.queueUpdate, Threshold, hlen]
  by_cases harm : ¬ ((s.queue.length : Int) + 1 ≥ s.config.flushBatch ∨
      (s.queue.length : Int) + 1 ≥ s.config.queueMaxDepth) ∧ s.flushTimer = none
  · exact .inl ⟨harm.1, harm.2, if_pos harm⟩
  · refine .inr ⟨?_, if_neg harm⟩
    rw [not_and_or, not_not] at harm
    exact harm

/-- An update arms the timer, is chained to the flush in progress, or is
flushed with the queue. -/
theorem Pacing.queueUpdate (h : Pacing config pre s) (hs : after config pre = s)
    {id : Nat} {reqMeta : Req} {res : Res} (hpace : s.OnPace (.queueUpdate id reqMeta res)) :
    Pacing config (pre ++ [.queueUpdate id reqMeta res]) (s.step (.queueUpdate id reqMeta res)) := by
  have hqueues : (Op.queueUpdate id reqMeta res).Queues := ⟨id, reqMeta, res, rfl⟩
  have hreply : ¬ s.Fails (.queueUpdate id reqMeta res) ∧ ¬ s.Succeeds (.queueUpdate id reqMeta res) :=
    not_reply (by simp)
  have hserial : (s.step (.queueUpdate id reqMeta res)).Serial := serial_step h.serial (by simp)
  generalize hstep : s.step (.queueUpdate id reqMeta res) = s' at hserial ⊢
  rcases queueUpdate_cases s ⟨id, reqMeta, res⟩ with ⟨_, _, hdef⟩ | ⟨hcause, hdef⟩
  · replace hdef := hdef.symm.trans hstep
    subst hdef
    have hquiet : ¬ s.Attempts (.queueUpdate id reqMeta res) := not_attempts (by rw [hstep]; rfl)
    have hreason := h.reason hs hquiet (by rw [hstep]; rfl) le_rfl
    refine h.quiet hs hreply hstep hserial rfl le_rfl rfl (.inl rfl) h.idle h.settled ?_ ?_ hreason
    · intro timer hmem
      rcases List.mem_append.mp hmem with hmem | hmem
      · exact Nat.lt_succ_of_lt (h.timers timer hmem)
      · rw [List.mem_singleton.mp hmem]
        exact Nat.lt_succ_self _
    · intro id' hid timer hmem htimer
      obtain rfl := Option.some.inj hid
      rcases List.mem_append.mp hmem with hmem | hmem
      · exact absurd htimer (h.timers timer hmem).ne
      · rw [List.mem_singleton.mp hmem, aged_concat hs]
        exact ⟨.inl ⟨hqueues, le_rfl⟩, not_attempts (by rw [hstep]; rfl), by rw [hstep]; rfl⟩
  · replace hdef := hdef.symm.trans hstep
    have hfull : s.Threshold := hcause.elim (fun h => h) hpace.1
    obtain ⟨timers, hsub, hclear⟩ := clearFlushTimer_eq
      { s with queue := s.queue ++ [⟨id, reqMeta, res⟩], queued := s.queued ++ [⟨id, reqMeta, res⟩] }
    rw [hclear] at hdef
    have htimers : ∀ timer ∈ timers, timer.id < s.nextTimer := fun timer hmem =>
      h.timers timer (hsub timer hmem)
    rcases guardedFlush_cases { s with
        queue := s.queue ++ [⟨id, reqMeta, res⟩]
        queued := s.queued ++ [⟨id, reqMeta, res⟩]
        flushTimer := none
        flushTimers := timers } with
      ⟨hbusy, hflush⟩ | ⟨_, hnil, _⟩ | ⟨hfree, _, hflush⟩
    · rw [hflush] at hdef
      obtain ⟨queue, droppedCount, dropped, hdrop⟩ := dropOverflow_eq { s with
        queue := s.queue ++ [⟨id, reqMeta, res⟩]
        queued := s.queued ++ [⟨id, reqMeta, res⟩]
        flushTimer := none
        flushTimers := timers
        chained := s.chained + 1 }
      rw [hdrop] at hdef
      subst hdef
      refine h.quiet hs hreply hstep hserial rfl le_rfl rfl (.inl rfl) (fun hnone => absurd hnone hbusy)
        h.settled htimers (fun _ hid => by simp at hid) fun _ => ?_
      rw [full_concat hs]
      exact .inr ⟨.inl ⟨hqueues, hfull⟩, not_attempts (by rw [hstep])⟩
    · simp at hnil
    · rw [hflush] at hdef
      have hbackoff : ∀ due ∈ s.retryTimer, due ≤ s.now := fun due hdue =>
        Int.not_lt.mp fun hlt => hpace.2 hfree hfull ⟨due, hdue, hlt⟩
      have hidle := h.idle hfree
      generalize hqueue : s.queue ++ [⟨id, reqMeta, res⟩] = batch at hdef
      obtain ⟨queue, droppedCount, dropped, hdrop⟩ := dropOverflow_eq { s with
        queue := []
        queued := s.queued ++ [⟨id, reqMeta, res⟩]
        flushTimer := none
        flushTimers := timers
        flushing := some .running
        inFlight := s.inFlight ++ [⟨batch, true⟩] }
      rw [hdrop] at hdef
      subst hdef
      exact h.attempt hs hreply hbackoff hserial rfl hidle (by simp) rfl htimers rfl rfl

/-- A timeout or a handler that calls `guardedFlush`: `u` is the state it
calls it in. -/
theorem Pacing.guardedFlush {u : WriteQueue Req Res} (h : Pacing config pre s)
    (hs : after config pre = s) (hop : ¬ s.Fails op ∧ ¬ s.Succeeds op) (hflush : op ≠ .flushNow)
    (hstep : s.step op = u.guardedFlush)
    (hu : ∃ timers resumed, (∀ x ∈ timers, x ∈ s.flushTimers) ∧ resumed ≤ s.resumed ∧
      u = { s with
        flushTimer := u.flushTimer
        flushTimers := timers
        retryTimer := u.retryTimer
        resumed := resumed })
    (htimer : s.flushing ≠ none → u.flushTimer = none)
    (hretry : u.retryTimer = s.retryTimer ∨
      u.retryTimer = none ∧ ∀ due ∈ s.retryTimer, due ≤ s.now)
    (hquiet : s.queue = [] → s.resumed = 0)
    (hreason : s.flushing ≠ none → Aged config s.now (pre ++ [op]) ∨ Full config (pre ++ [op]))
    (hbackoff : s.flushing = none → s.queue ≠ [] → ¬ s.BacksOff) :
    Pacing config (pre ++ [op]) (s.step op) := by
  have hserial := serial_step h.serial hflush
  obtain ⟨timers, resumed, hsub, hresumed, hu⟩ := hu
  have htimers : ∀ timer ∈ timers, timer.id < s.nextTimer := fun timer hmem =>
    h.timers timer (hsub timer hmem)
  generalize u.flushTimer = flushTimer at htimer hu
  generalize u.retryTimer = retryTimer at hretry hu
  subst hu
  rcases guardedFlush_cases { s with
      flushTimer := flushTimer
      flushTimers := timers
      retryTimer := retryTimer
      resumed := resumed } with
    ⟨hbusy, heq⟩ | ⟨hfree, hnil, heq⟩ | ⟨hfree, hne, heq⟩
  · rw [heq] at hstep
    rw [hstep] at hserial ⊢
    refine h.quiet hs hop hstep hserial rfl le_rfl rfl hretry (fun hnone => absurd hnone hbusy)
      (fun ok hok => ?_) htimers (fun id hid => ?_) fun _ => hreason hbusy
    · have := h.settled ok hok
      exact Nat.le_zero.mp (this ▸ hresumed)
    · rw [show flushTimer = none from htimer hbusy] at hid
      cases hid
  · rw [heq] at hstep
    rw [hstep] at hserial ⊢
    have hnone : resumed = 0 := Nat.le_zero.mp (hquiet hnil ▸ hresumed)
    refine h.quiet hs hop hstep hserial rfl le_rfl rfl hretry (fun hnone => by simp at hnone)
      (fun _ _ => hnone) htimers (fun id hid => by simp at hid) fun hpending => ?_
    have hidle := h.idle hfree
    simp [hidle] at hpending
  · rw [heq] at hstep
    rw [hstep] at hserial ⊢
    refine h.attempt hs hop (fun due hdue => ?_) hserial rfl (h.idle hfree) (by simp) rfl htimers rfl rfl
    exact Int.not_lt.mp fun hlt => hbackoff hfree hne ⟨due, hdue, hlt⟩

theorem step_rejected {batch : List (QueuedUpdate Req Res)} (hflight : s.inFlight = [⟨batch, true⟩]) :
    s.step (.reply 0 .rejected) =
      if s.flushRetryCount + 1 < MAX_FLUSH_RETRIES then
        { s with
          inFlight := []
          queue := batch ++ s.queue
          flushRetryCount := s.flushRetryCount + 1
          retryTimer := some (s.now + backoffMs (s.flushRetryCount + 1))
          flushing := some (.settled true) }
      else
        { s with
          inFlight := []
          queue := []
          flushRetryCount := 0
          retryTimer := none
          flushing := some (.settled true) } := by
  simp only [step, WriteQueue.resume, hflight, List.getElem?_cons_zero, List.eraseIdx_cons_zero,
    WriteQueue.flushFailed]
  by_cases hlast : s.flushRetryCount + 1 < MAX_FLUSH_RETRIES
  · rw [if_neg (by simpa using hlast), if_pos hlast]
    rfl
  · rw [if_pos (by simpa using hlast), if_neg hlast]
    rfl

/-- The reply of the store ends the flush in progress. -/
theorem Pacing.reply (h : Pacing config pre s) (hs : after config pre = s) {n : Nat} {r : Reply}
    (hturn : s.InTurn (.reply n r)) : Pacing config (pre ++ [.reply n r]) (s.step (.reply n r)) := by
  have hserial : (s.step (.reply n r)).Serial := serial_step h.serial (by simp)
  by_cases hn : n < s.inFlight.length
  · have hrunning : s.flushing = some .running := by
      by_contra hno
      simp [h.serial.inFlight_eq_nil hno] at hn
    obtain ⟨batch, hflight⟩ : ∃ batch, s.inFlight = [⟨batch, true⟩] := by
      have := h.serial
      simpa only [Serial, hrunning] using this
    obtain rfl : n = 0 := by simpa [hflight] using hn
    have hbusy : s.inFlight ≠ [] := by simp [hflight]
    have hfailed : ∀ t, Failed config t pre → t ≤ s.now := fun t ht =>
      (h.failed t ht).resolve_right fun hidle => hbusy hidle.1
    have hquiet : (s.step (.reply 0 r)).inFlight = [] → ¬ s.Attempts (.reply 0 r) := by
      intro hnil
      simp [Attempts, hnil]
    cases r with
    | resolved throws =>
      have hstep : s.step (.reply 0 (.resolved throws)) = { s with
          inFlight := []
          retryTimer := none
          flushRetryCount := 0
          committed := s.committed ++ [batch]
          flushing := some (.settled (!throws)) } := by
        simp [step, WriteQueue.resume, hflight, WriteQueue.flushDone, WriteQueue.settle]
      have hno := hquiet (by rw [hstep])
      have hsame : (s.step (.reply 0 (.resolved throws))).dropped = s.dropped := by rw [hstep]
      rw [hstep] at hserial ⊢
      refine ⟨hserial, fun hnone => by simp at hnone, fun _ _ => hturn.1, h.timers, ?_,
        fun _ due hdue => by simp at hdue, fun hpending => ?_, fun t ht => ?_,
        fun hpos => by simp at hpos⟩
      · intro id hid timer hmem htimer
        exact (aged_concat hs).mpr ⟨.inr (h.timer id hid timer hmem htimer), hno, hsame⟩
      · exact h.reason hs hno hsame le_rfl (.inl (hpending.resolve_right fun hidle => by simp at hidle))
      · rcases (failed_concat hs).mp ht with ⟨⟨_, heq, _⟩, _⟩ | hold
        · cases heq
        · exact .inl (hfailed t hold)
    | rejected =>
      have hstep := step_rejected hflight
      have hno : ¬ s.Attempts (.reply 0 .rejected) := by
        refine hquiet ?_
        rw [hstep]
        split <;> rfl
      have hsame : (s.step (.reply 0 .rejected)).dropped = s.dropped := by
        rw [hstep]
        split <;> rfl
      have htimer : ∀ id, s.flushTimer = some id → ∀ timer ∈ s.flushTimers, timer.id = id →
          Aged config timer.due (pre ++ [.reply 0 .rejected]) := fun id hid timer hmem htimer =>
        (aged_concat hs).mpr ⟨.inr (h.timer id hid timer hmem htimer), hno, hsame⟩
      have hreason : 0 < s.chained →
          Aged config s.now (pre ++ [.reply 0 .rejected]) ∨ Full config (pre ++ [.reply 0 .rejected]) :=
        fun hpos => h.reason hs hno hsame le_rfl (.inl hpos)
      rw [hstep] at hserial ⊢
      by_cases hlast : s.flushRetryCount + 1 < MAX_FLUSH_RETRIES
      · rw [if_pos hlast] at hserial ⊢
        have hfails : s.Fails (.reply 0 .rejected) := ⟨0, rfl, hn, hlast⟩
        have hnot : ¬ s.Succeeds (.reply 0 .rejected) := by
          rintro ⟨_, _, heq, _⟩
          cases heq
        refine ⟨hserial, fun hnone => by simp at hnone, fun _ _ => hturn.1, h.timers, htimer,
          fun _ due hdue => ?_, fun hpending => ?_, fun t ht => ?_, fun _ => ?_⟩
        · obtain rfl := Option.some.inj hdue
          exact (backedOff_concat hs).mpr ⟨.inl ⟨hfails, le_rfl⟩, hno⟩
        · exact hreason (hpending.resolve_right fun hidle => by simp at hidle)
        · rcases (failed_concat hs).mp ht with ⟨-, rfl⟩ | hold
          · exact .inr ⟨rfl, _, rfl, le_rfl⟩
          · exact .inl (hfailed t hold)
        · rcases Nat.eq_zero_or_pos s.flushRetryCount with hzero | hpos
          · refine ⟨s.now, (failing_concat hs).mpr ⟨.inl ⟨hfails, hzero, rfl⟩, hnot⟩,
              .inr ⟨rfl, _, rfl, ?_⟩⟩
            simp [hzero, backoffTotal]
          · obtain ⟨t, hfailing, hsum⟩ := h.failing hpos
            have hsum := hsum.resolve_right fun hidle => hbusy hidle.1
            refine ⟨t, (failing_concat hs).mpr ⟨.inr hfailing, hnot⟩, .inr ⟨rfl, _, rfl, ?_⟩⟩
            simp only [backoffTotal]
            omega
      · rw [if_neg hlast] at hserial ⊢
        refine ⟨hserial, fun hnone => by simp at hnone, fun _ _ => hturn.1, h.timers, htimer,
          fun _ due hdue => by simp at hdue, fun hpending => ?_, fun t ht => ?_,
          fun hpos => by simp at hpos⟩
        · exact hreason (hpending.resolve_right fun hidle => by simp at hidle)
        · rcases (failed_concat hs).mp ht with ⟨⟨_, _, _, hlt⟩, -⟩ | hold
          · exact absurd hlt hlast
          · exact .inl (hfailed t hold)
  · have hsame : s.step (.reply n r) = s := by
      simp [step, WriteQueue.resume, List.getElem?_eq_none (Nat.not_lt.mp hn)]
    have hop : ¬ s.Fails (.reply n r) ∧ ¬ s.Succeeds (.reply n r) := by
      refine ⟨?_, ?_⟩
      · rintro ⟨_, heq, hlt, _⟩
        cases heq
        exact hn hlt
      · rintro ⟨_, _, heq, hlt⟩
        cases heq
        exact hn hlt
    have hno : ¬ s.Attempts (.reply n r) := not_attempts (by rw [hsame])
    have hdropped : (s.step (.reply n r)).dropped = s.dropped := by rw [hsame]
    rw [hsame] at hserial ⊢
    refine h.quiet hs hop hsame hserial rfl le_rfl rfl (.inl rfl) h.idle h.settled h.timers ?_
      (h.reason hs hno hdropped le_rfl)
    intro id hid timer hmem htimer
    exact (aged_concat hs).mpr ⟨.inr (h.timer id hid timer hmem htimer), hno, hdropped⟩

/-- A step that touches neither the queue nor a timer. -/
theorem Pacing.handler (h : Pacing config pre s) (hs : after config pre = s)
    (hop : ¬ s.Fails op ∧ ¬ s.Succeeds op) (hflush : op ≠ .flushNow)
    (hstep : s.step op = s') (hflight : s'.inFlight = s.inFlight) (hdropped : s'.dropped = s.dropped)
    (hnow : s.now ≤ s'.now) (hcount : s'.flushRetryCount = s.flushRetryCount)
    (hretry : s'.retryTimer = s.retryTimer) (htimer : s'.flushTimer = s.flushTimer)
    (htimers : s'.flushTimers = s.flushTimers) (hnext : s'.nextTimer = s.nextTimer)
    (hidle : s'.flushing = none → s'.chained = 0)
    (hsettled : ∀ ok, s'.flushing = some (.settled ok) → s'.resumed = 0)
    (hpending : 0 < s'.chained ∨ s'.flushing = none ∧ 0 < s'.resumed →
      0 < s.chained ∨ s.flushing = none ∧ 0 < s.resumed) : Pacing config (pre ++ [op]) s' := by
  have hserial : (s.step op).Serial := serial_step h.serial hflush
  have hno : ¬ s.Attempts op := not_attempts (by rw [hstep, hflight])
  have hsame : (s.step op).dropped = s.dropped := by rw [hstep, hdropped]
  rw [hstep] at hserial
  refine h.quiet hs hop hstep hserial hflight hnow hcount (.inl hretry) hidle hsettled ?_ ?_
    fun hp => h.reason hs hno hsame hnow (hpending hp)
  · rw [htimers, hnext]
    exact h.timers
  · rw [htimer, htimers]
    intro id hid timer hmem htimer
    exact (aged_concat hs).mpr ⟨.inr (h.timer id hid timer hmem htimer), hno, hsame⟩

theorem Pacing.finallyHandler (h : Pacing config pre s) (hs : after config pre = s) :
    Pacing config (pre ++ [.finallyHandler]) (s.step .finallyHandler) := by
  have hop : ¬ s.Fails (.finallyHandler : Op Req Res) ∧ ¬ s.Succeeds (.finallyHandler : Op Req Res) :=
    not_reply (by simp)
  generalize hstep : s.step .finallyHandler = s'
  have hdef := hstep
  simp only [step, WriteQueue.finallyHandler] at hdef
  split at hdef
  · rename_i ok hsettled
    subst hdef
    refine h.handler hs hop (by simp) hstep rfl rfl le_rfl rfl rfl rfl rfl rfl (fun _ => rfl)
      (fun ok hok => by simp at hok) fun hpending => ?_
    have hnone := h.settled ok hsettled
    rcases hpending with hpos | ⟨-, hpos⟩
    · simp at hpos
    · left
      cases ok with
      | true => simpa [hnone] using hpos
      | false => simp [hnone] at hpos
  · subst hdef
    exact h.handler hs hop (by simp) hstep rfl rfl le_rfl rfl rfl rfl rfl rfl h.idle h.settled
      (fun hp => hp)

theorem Pacing.thenHandler (h : Pacing config pre s) (hs : after config pre = s)
    (hpace : s.OnPace .thenHandler) : Pacing config (pre ++ [.thenHandler]) (s.step .thenHandler) := by
  have hop : ¬ s.Fails (.thenHandler : Op Req Res) ∧ ¬ s.Succeeds (.thenHandler : Op Req Res) :=
    not_reply (by simp)
  cases hresumed : s.resumed with
  | zero =>
    have hsame : s.step .thenHandler = s := by simp [step, WriteQueue.thenHandler, hresumed]
    rw [hsame]
    exact h.handler hs hop (by simp) hsame rfl rfl le_rfl rfl rfl rfl rfl rfl h.idle h.settled
      (fun hp => hp)
  | succ n =>
    have hpos : 0 < s.resumed := by omega
    by_cases hflush : 0 < s.queue.length ∧ s.flushing = none
    · have hne : s.queue ≠ [] := List.ne_nil_of_length_pos hflush.1
      have hstep : s.step .thenHandler = ({ s with resumed := n } : WriteQueue Req Res).guardedFlush := by
        simp [step, WriteQueue.thenHandler, hresumed, hflush.2, hne]
      refine h.guardedFlush hs hop (by simp) hstep ⟨s.flushTimers, n, fun _ hx => hx, by omega, rfl⟩
        (fun hbusy => absurd hflush.2 hbusy) (.inl rfl) (fun hnil => absurd hnil hne)
        (fun hbusy => absurd hflush.2 hbusy) fun hfree hne => hpace hpos hfree hne
    · have hstep : s.step .thenHandler = { s with resumed := n } := by
        simp only [step, WriteQueue.thenHandler, hresumed, if_neg hflush]
      rw [hstep]
      refine h.handler hs hop (by simp) hstep rfl rfl le_rfl rfl rfl rfl rfl rfl h.idle ?_ ?_
      · intro ok hok
        have := h.settled ok hok
        omega
      · rintro (hp | ⟨hfree, -⟩)
        · exact .inl hp
        · exact .inr ⟨hfree, hpos⟩

theorem Pacing.flushTimeout (h : Pacing config pre s) (hs : after config pre = s) {id : Nat}
    (hturn : s.InTurn (.flushTimeout id)) (hpace : s.OnPace (.flushTimeout id)) :
    Pacing config (pre ++ [.flushTimeout id]) (s.step (.flushTimeout id)) := by
  have hop : ¬ s.Fails (.flushTimeout id) ∧ ¬ s.Succeeds (.flushTimeout id) := not_reply (by simp)
  have hkeep : s.step (.flushTimeout id) = s →
      Pacing config (pre ++ [.flushTimeout id]) (s.step (.flushTimeout id)) := by
    intro hsame
    rw [hsame]
    exact h.handler hs hop (by simp) hsame rfl rfl le_rfl rfl rfl rfl rfl rfl h.idle h.settled
      (fun hp => hp)
  cases hfind : s.flushTimers.find? (·.id = id) with
  | none => exact hkeep (by simp [step, hfind])
  | some timer =>
    by_cases hdue : timer.due ≤ s.now
    · obtain ⟨hnamed, hbackoff⟩ := hpace timer hfind hdue
      have hmem := List.mem_of_find?_eq_some hfind
      have hid : timer.id = id := by simpa using List.find?_some hfind
      have hstep : s.step (.flushTimeout id) = ({ s with
          flushTimers := s.flushTimers.filter (·.id ≠ id)
          flushTimer := none } : WriteQueue Req Res).guardedFlush := by
        simp only [step, hfind, if_pos hdue]
      refine h.guardedFlush hs hop (by simp) hstep
        ⟨_, s.resumed, fun x hx => List.mem_of_mem_filter hx, le_rfl, rfl⟩ (fun _ => rfl) (.inl rfl)
        (fun _ => hturn.1) (fun hbusy => .inl ?_) hbackoff
      have hchained : s.step (.flushTimeout id) = { s with
          flushTimers := s.flushTimers.filter (·.id ≠ id)
          flushTimer := none
          chained := s.chained + 1 } := by
        rw [hstep]
        cases hflushing : s.flushing with
        | none => exact absurd hflushing hbusy
        | some flushing => simp only [WriteQueue.guardedFlush]
      refine (aged_concat hs).mpr ⟨.inr ((h.timer id hnamed timer hmem hid).mono hdue), ?_, ?_⟩
      · exact not_attempts (by rw [hchained])
      · rw [hchained]
    · exact hkeep (by simp [step, hfind, hdue])

theorem Pacing.retryTimeout (h : Pacing config pre s) (hs : after config pre = s)
    (hturn : s.InTurn .retryTimeout) (hpace : s.OnPace .retryTimeout) :
    Pacing config (pre ++ [.retryTimeout]) (s.step .retryTimeout) := by
  have hop : ¬ s.Fails (.retryTimeout : Op Req Res) ∧ ¬ s.Succeeds (.retryTimeout : Op Req Res) :=
    not_reply (by simp)
  have hkeep : s.step .retryTimeout = s →
      Pacing config (pre ++ [.retryTimeout]) (s.step .retryTimeout) := by
    intro hsame
    rw [hsame]
    exact h.handler hs hop (by simp) hsame rfl rfl le_rfl rfl rfl rfl rfl rfl h.idle h.settled
      (fun hp => hp)
  cases hretry : s.retryTimer with
  | none => exact hkeep (by simp [step, hretry])
  | some due =>
    by_cases hdue : due ≤ s.now
    · have hfree := hpace due hretry hdue
      have hstep : s.step .retryTimeout =
          ({ s with retryTimer := none } : WriteQueue Req Res).guardedFlush := by
        simp only [step, hretry, if_pos hdue]
      have hover : ∀ due' ∈ s.retryTimer, due' ≤ s.now := by
        intro due' hdue'
        obtain rfl := Option.some.inj (hretry.symm.trans hdue')
        exact hdue
      refine h.guardedFlush hs hop (by simp) hstep
        ⟨s.flushTimers, s.resumed, fun _ hx => hx, le_rfl, rfl⟩ (fun hbusy => absurd hfree hbusy)
        (.inr ⟨rfl, hover⟩) (fun _ => hturn.1) (fun hbusy => absurd hfree hbusy) fun _ _ => ?_
      rintro ⟨due', hdue', hlt⟩
      exact absurd (hover due' hdue') (Int.not_le.mpr hlt)
    · exact hkeep (by simp [step, hretry, hdue])

theorem pacing_step (h : Pacing config pre s) (hs : after config pre = s) (hreg : op.Regular)
    (hturn : s.InTurn op) (hpace : s.OnPace op) : Pacing config (pre ++ [op]) (s.step op) := by
  cases op with
  | queueUpdate id reqMeta res => exact h.queueUpdate hs hpace
  | flushNow => exact absurd hreg not_false
  | drainForShutdown => exact absurd hreg not_false
  | flushTimeout id => exact h.flushTimeout hs hturn hpace
  | retryTimeout => exact h.retryTimeout hs hturn hpace
  | reply n r => exact h.reply hs hturn
  | finallyHandler => exact h.finallyHandler hs
  | thenHandler => exact h.thenHandler hs hpace
  | tick ms =>
    exact h.handler hs (not_reply (by simp)) (by simp) rfl rfl rfl
      (Int.le_add_of_nonneg_right (Int.natCast_nonneg ms)) rfl rfl rfl rfl rfl h.idle h.settled
      (fun hp => hp)

/-! ## Runs -/

theorem backoffTotal_mono {m n : ℕ} (hle : m ≤ n) : backoffTotal m ≤ backoffTotal n :=
  monotone_nat_of_le_succ (fun _ => Int.le_add_of_nonneg_right (Int.natCast_nonneg _)) hle

theorem attempts_guardedFlush {u : WriteQueue Req Res}
    (h : s.inFlight.length < u.guardedFlush.inFlight.length) (hsame : u.inFlight = s.inFlight) :
    u.flushing = none ∧ u.queue ≠ [] := by
  rw [← hsame] at h
  rcases guardedFlush_cases u with ⟨_, heq⟩ | ⟨_, _, heq⟩ | ⟨hfree, hne, _⟩
  · simp [heq] at h
  · simp [heq] at h
  · exact ⟨hfree, hne⟩

theorem not_attempts_reply (n : Nat) (r : Reply) : ¬ s.Attempts (.reply n r) := by
  have hle : (s.step (.reply n r)).inFlight.length ≤ s.inFlight.length := by
    simp only [step, WriteQueue.resume]
    split
    · exact le_rfl
    · have herase : (s.inFlight.eraseIdx n).length ≤ s.inFlight.length :=
        (List.eraseIdx_sublist s.inFlight n).length_le
      cases r with
      | resolved throws =>
        simp only [WriteQueue.settle, WriteQueue.flushDone]
        split <;> exact herase
      | rejected =>
        simp only [WriteQueue.settle]
        split <;> simpa using herase
  exact Nat.not_lt.mpr hle

/-- A call of the store has its cause and comes outside of a backoff. -/
theorem Pacing.attempt_spec (h : Pacing config pre s) (hreg : op.Regular) (hpace : s.OnPace op)
    (hattempt : s.Attempts op) :
    (op.Queues ∧ s.Threshold ∨ Aged config s.now pre ∨ Full config pre ∨
      BackedOff config s.now pre) ∧ ¬ s.BacksOff := by
  cases op with
  | queueUpdate id reqMeta res =>
    rcases queueUpdate_cases s ⟨id, reqMeta, res⟩ with ⟨_, _, heq⟩ | ⟨hcause, heq⟩
    · exact absurd hattempt (not_attempts (by rw [step, heq]; rfl))
    · have hfull : s.Threshold := hcause.elim (fun h => h) hpace.1
      refine ⟨.inl ⟨⟨id, reqMeta, res, rfl⟩, hfull⟩, ?_⟩
      obtain ⟨timers, -, hclear⟩ := clearFlushTimer_eq { s with
        queue := s.queue ++ [⟨id, reqMeta, res⟩]
        queued := s.queued ++ [⟨id, reqMeta, res⟩] }
      simp only [Attempts, step] at hattempt
      rw [heq, hclear] at hattempt
      obtain ⟨queue, droppedCount, dropped, hdrop⟩ := dropOverflow_eq
        ({ s with
          queue := s.queue ++ [⟨id, reqMeta, res⟩]
          queued := s.queued ++ [⟨id, reqMeta, res⟩]
          flushTimer := none
          flushTimers := timers } : WriteQueue Req Res).guardedFlush
      rw [hdrop] at hattempt
      dsimp only at hattempt
      exact hpace.2 (attempts_guardedFlush hattempt rfl).1 hfull
  | flushNow => exact absurd hreg not_false
  | drainForShutdown => exact absurd hreg not_false
  | flushTimeout id =>
    cases hfind : s.flushTimers.find? (·.id = id) with
    | none => exact absurd hattempt (not_attempts (by simp [step, hfind]))
    | some timer =>
      by_cases hdue : timer.due ≤ s.now
      · obtain ⟨hnamed, hbackoff⟩ := hpace timer hfind hdue
        simp only [Attempts, step, hfind, if_pos hdue] at hattempt
        obtain ⟨hfree, hne⟩ := attempts_guardedFlush hattempt rfl
        have hid : timer.id = id := by simpa using List.find?_some hfind
        have haged := h.timer id hnamed timer (List.mem_of_find?_eq_some hfind) hid
        exact ⟨.inr (.inl (haged.mono hdue)), hbackoff hfree hne⟩
      · exact absurd hattempt (not_attempts (by simp [step, hfind, hdue]))
  | retryTimeout =>
    cases hretry : s.retryTimer with
    | none => exact absurd hattempt (not_attempts (by simp [step, hretry]))
    | some due =>
      by_cases hdue : due ≤ s.now
      · have hfree := hpace due hretry hdue
        have hnil := h.serial.inFlight_eq_nil (by simp [hfree])
        refine ⟨.inr (.inr (.inr ((h.retry hnil due hretry).mono hdue))), ?_⟩
        rintro ⟨due', hdue', hlt⟩
        obtain rfl := Option.some.inj (hretry.symm.trans hdue')
        omega
      · exact absurd hattempt (not_attempts (by simp [step, hretry, hdue]))
  | reply n r => exact absurd hattempt (not_attempts_reply n r)
  | finallyHandler =>
    refine absurd hattempt (not_attempts ?_)
    simp only [step, WriteQueue.finallyHandler]
    split <;> rfl
  | thenHandler =>
    cases hresumed : s.resumed with
    | zero => exact absurd hattempt (not_attempts (by simp [step, WriteQueue.thenHandler, hresumed]))
    | succ =>
      have hpos : 0 < s.resumed := by omega
      by_cases hflush : 0 < s.queue.length ∧ s.flushing = none
      · have hne : s.queue ≠ [] := List.ne_nil_of_length_pos hflush.1
        refine ⟨.inr ?_, hpace hpos hflush.2 hne⟩
        exact (h.chain (.inr ⟨hflush.2, hpos⟩)).imp_right .inl
      · refine absurd hattempt (not_attempts ?_)
        simp only [step, WriteQueue.thenHandler, hresumed, if_neg hflush]
  | tick ms => exact absurd hattempt (not_attempts rfl)

theorem Pacing.paced (h : Pacing config pre (after config pre)) (hreg : op.Regular)
    (hpace : (after config pre).OnPace op) : Paced config pre op where
  cause hattempt := (h.attempt_spec hreg hpace hattempt).1
  backoff hattempt t ht := by
    have hnot := (h.attempt_spec hreg hpace hattempt).2
    rcases h.failed t ht with hle | ⟨-, due, hdue, hle⟩
    · exact hle
    · exact hle.trans (Int.not_lt.mp fun hlt => hnot ⟨due, hdue, hlt⟩)
  exhausted hexhausts := by
    cases op with
    | reply n r =>
      cases r with
      | resolved throws => exact absurd hexhausts not_false
      | rejected =>
        obtain ⟨hn, hcount⟩ := hexhausts
        have hle : MAX_FLUSH_RETRIES - 1 ≤ (after config pre).flushRetryCount := by omega
        have hpos : 0 < (after config pre).flushRetryCount :=
          lt_of_lt_of_le (by decide) hle
        obtain ⟨t, hfailing, hsum⟩ := h.failing hpos
        refine ⟨t, hfailing, ?_⟩
        have hsum := hsum.resolve_right fun hidle => by simp [hidle.1] at hn
        have := backoffTotal_mono hle
        omega
    | _ => exact absurd hexhausts not_false

theorem pacing_new (config : QueueConfig Req Res) : Pacing config [] (new config) where
  serial := rfl
  idle _ := rfl
  settled _ h := by simp [new] at h
  timers _ h := by simp [new] at h
  timer _ h := by simp [new] at h
  retry _ _ h := by simp [new] at h
  chain h := by simp [new] at h
  failed _ h := absurd h not_since_nil
  failing h := by simp [new] at h

/-- What is kept of the past holds after each part of a run. -/
theorem pacing_after (config : QueueConfig Req Res) {ops : List (Op Req Res)}
    (hreg : ∀ op ∈ ops, op.Regular) (hturn : StepsMeet step InTurn (new config) ops)
    (hpace : StepsMeet step OnPace (new config) ops) (pre : List (Op Req Res))
    (hpre : pre <+: ops) : Pacing config pre (after config pre) := by
  induction pre using List.reverseRecOn with
  | nil => exact pacing_new config
  | append_singleton pre op ih =>
    obtain ⟨rest, rfl⟩ := hpre
    have hop := hreg op (by simp)
    obtain ⟨hturn, -⟩ := stepsMeet_append.mp hturn
    obtain ⟨-, hturn, -⟩ := stepsMeet_append.mp hturn
    obtain ⟨hpace, -⟩ := stepsMeet_append.mp hpace
    obtain ⟨-, hpace, -⟩ := stepsMeet_append.mp hpace
    have hafter : after config (pre ++ [op]) = (after config pre).step op :=
      run_append step _ pre [op]
    rw [hafter]
    exact pacing_step (ih ⟨op :: rest, by simp⟩) rfl hop hturn hpace

/-- In a run of updates, replies, timeouts and handlers that run in turn, in
which no step flushes ahead of time, every step is paced. -/
theorem flush_paced (config : QueueConfig Req Res) (ops : List (Op Req Res))
    (hreg : ∀ op ∈ ops, op.Regular) (hturn : StepsMeet step InTurn (new config) ops)
    (hpace : StepsMeet step OnPace (new config) ops) :
    ∀ pre op, pre ++ [op] <+: ops → Paced config pre op := by
  intro pre op hprefix
  have hpre : pre <+: ops := (List.prefix_append pre [op]).trans hprefix
  have hpacing := pacing_after config hreg hturn hpace pre hpre
  obtain ⟨rest, rfl⟩ := hprefix
  obtain ⟨hpace, -⟩ := stepsMeet_append.mp hpace
  obtain ⟨-, hpace, -⟩ := stepsMeet_append.mp hpace
  exact hpacing.paced (hreg op (by simp)) hpace

/-- The second update of an interval goes to the store at once. -/
theorem second_update_flushes :
    let ops : List (Op Unit Unit) := [.queueUpdate 1 () (), .queueUpdate 2 () ()]
    ¬ ∀ pre op, pre ++ [op] <+: ops → Paced ⟨50, 25, 100, fun _ => false⟩ pre op := by
  intro ops h
  have hpaced := h [.queueUpdate 1 () ()] (.queueUpdate 2 () ()) List.prefix_rfl
  have hnone : ∀ {E N : WriteQueue Unit Unit → Op Unit Unit → Prop},
      ¬ E (new ⟨50, 25, 100, fun _ => false⟩) (.queueUpdate 1 () ()) →
      ¬ Since step E N (new ⟨50, 25, 100, fun _ => false⟩) ([] ++ [.queueUpdate 1 () ()]) := by
    intro E N hE hsince
    rw [since_concat] at hsince
    exact hsince.1.elim hE not_since_nil
  have hattempt : (after ⟨50, 25, 100, fun _ => false⟩ [.queueUpdate 1 () ()]).Attempts
      (.queueUpdate 2 () ()) := by
    unfold Attempts
    decide
  rcases hpaced.cause hattempt with ⟨-, hfull⟩ | haged | hfull | hbacked
  · revert hfull
    unfold Threshold
    decide
  · refine hnone ?_ haged
    rintro ⟨-, hdue⟩
    revert hdue
    decide
  · refine hnone ?_ hfull
    rintro ⟨-, hfull⟩
    revert hfull
    unfold Threshold
    decide
  · refine hnone ?_ hbacked
    rintro ⟨⟨n, heq, -⟩, -⟩
    cases heq

/-- An update is flushed by the timer, fails, and is stored after the
backoff. -/
theorem flush_paced_retry :
    let ops : List (Op Unit Unit) := [.queueUpdate 1 () (), .tick 50, .flushTimeout 0,
      .reply 0 .rejected, .finallyHandler, .tick 1000, .retryTimeout, .reply 0 (.resolved false)]
    ∀ pre op, pre ++ [op] <+: ops → Paced ⟨50, 25, 100, fun _ => false⟩ pre op := by
  intro ops
  exact flush_paced _ ops (by simp [ops, Op.Regular]) (by decide) (by decide)

end WriteQueue

end UmansGate.Queue
