/-
UmansGate.Limiter.ReopenTheorems — a concurrency 429 against a half-open
breaker.

`record429` decides about the re-opening as it decides about the opening: by
the number of 429s inside the window. The window may have passed before the
cooldown has, and then the 429 of the probe counts alone. A run re-opens at
every such 429 exactly when the breaker holds enough of them each time
(`half_open_reopens_iff`), as it does with a threshold of one.
-/
import UmansGate.Limiter.Moves

namespace UmansGate.Limiter

open UmansGate.Lib

/-- A call of a method of the breaker, with the clock it reads. -/
inductive BreakerOp where
  | reconfigure (threshold windowMs cooldownMs : Option Int) (now : Int)
  | maybeHalfOpen (now : Int)
  | record429 (type : Type429) (now : Int)
  | recordSuccess
  | resetHalfOpenProbe (now : Int)
  deriving DecidableEq, Repr

namespace CircuitBreaker

def step (b : CircuitBreaker) : BreakerOp → CircuitBreaker
  | .reconfigure threshold windowMs cooldownMs now => b.reconfigure threshold windowMs cooldownMs now
  | .maybeHalfOpen now => (b.maybeHalfOpen now).2
  | .record429 type now => b.record429 type now
  | .recordSuccess => b.recordSuccess
  | .resetHalfOpenProbe now => b.resetHalfOpenProbe now

/-- Just opened, and nobody probes. -/
def FreshlyOpened (b : CircuitBreaker) (now : Int) : Prop :=
  b.state = .opened ∧ b.openedAt = now ∧ b.halfOpenProbeStarted = false

/-- A concurrency 429 against the half-open breaker opens it again. -/
def Reopens (b : CircuitBreaker) (op : BreakerOp) (b' : CircuitBreaker) : Prop :=
  ∀ now, op = .record429 .concurrency now → b.state = .half_open → b'.FreshlyOpened now

/-- The 429s that lie in the window of one that comes now, and this one
itself unless the window is empty. -/
def in429Window (b : CircuitBreaker) (now : Int) : ℕ :=
  b.concurrency429s.countP (fun t => now - t < b.windowMs) + if 0 < b.windowMs then 1 else 0

/-- A concurrency 429 against the half-open breaker is the last one that the
threshold asks for. -/
def MeetsThreshold (b : CircuitBreaker) : BreakerOp → Prop
  | .record429 .concurrency now => b.state = .half_open → b.threshold ≤ b.in429Window now
  | _ => True

instance (b : CircuitBreaker) (op : BreakerOp) : Decidable (b.MeetsThreshold op) := by
  unfold MeetsThreshold
  split <;> infer_instance

variable {b : CircuitBreaker} {op : BreakerOp}

/-- What `record429` counts. -/
theorem length_recent (b : CircuitBreaker) (now : Int) :
    ((b.concurrency429s ++ [now]).filter fun t => now - t < b.windowMs).length =
      b.in429Window now := by
  rw [List.filter_append, List.length_append, ← List.countP_eq_length_filter, in429Window]
  by_cases h : 0 < b.windowMs
  · simp [h]
  · simp [h]

theorem record429_reopens_iff (b : CircuitBreaker) (now : Int) (hhalf : b.state = .half_open) :
    (b.record429 .concurrency now).FreshlyOpened now ↔ b.threshold ≤ b.in429Window now := by
  simp only [record429, ne_eq, not_true_eq_false, if_false, length_recent, ge_iff_le]
  split
  · rename_i hcount
    rw [if_pos (.inr hhalf)]
    exact iff_of_true ⟨rfl, rfl, rfl⟩ hcount
  · rename_i hcount
    refine iff_of_false (fun hfresh => ?_) hcount
    have hopen : b.state = .opened := hfresh.1
    rw [hhalf] at hopen
    cases hopen

theorem reopens_step_iff : b.Reopens op (b.step op) ↔ b.MeetsThreshold op := by
  cases op with
  | reconfigure threshold windowMs cooldownMs now =>
    exact iff_of_true (fun _ h => by cases h) trivial
  | maybeHalfOpen now => exact iff_of_true (fun _ h => by cases h) trivial
  | recordSuccess => exact iff_of_true (fun _ h => by cases h) trivial
  | resetHalfOpenProbe now => exact iff_of_true (fun _ h => by cases h) trivial
  | record429 type now =>
    cases type with
    | rate_limit => exact iff_of_true (fun _ h => by cases h) trivial
    | gateway => exact iff_of_true (fun _ h => by cases h) trivial
    | concurrency =>
      constructor
      · intro h hhalf
        exact (record429_reopens_iff b now hhalf).mp (h now rfl hhalf)
      · rintro h _ ⟨⟩ hhalf
        exact (record429_reopens_iff b now hhalf).mpr (h hhalf)

/-- With a threshold of one every 429 inside its own window is enough. -/
theorem meetsThreshold_of_one (hthreshold : b.threshold ≤ 1) (hwindow : 0 < b.windowMs) :
    b.MeetsThreshold op := by
  unfold MeetsThreshold
  split
  · intro _
    rw [in429Window, if_pos hwindow]
    omega
  · trivial

/-- **Every concurrency 429 against a half-open breaker opens it again**
exactly in the runs where it meets the threshold each time, together with
the 429s that the breaker still holds and that lie in the window. -/
theorem half_open_reopens_iff (threshold windowMs cooldownMs : Int) (ops : List BreakerOp) :
    (∀ pre op, pre ++ [op] <+: ops →
      (run step (new threshold windowMs cooldownMs) pre).Reopens op
        (run step (new threshold windowMs cooldownMs) (pre ++ [op]))) ↔
    StepsMeet step MeetsThreshold (new threshold windowMs cooldownMs) ops :=
  forall_steps_iff_stepsMeet (I := fun _ => True) (P := MeetsThreshold) (Q := Reopens)
    (fun _ _ _ _ => trivial)
    (fun _ _ _ => reopens_step_iff) trivial ops

/-- Two 429s open the breaker, and the one of the probe comes after both
have left the window. -/
def lateProbe : List BreakerOp :=
  [.record429 .concurrency 0, .record429 .concurrency 1, .maybeHalfOpen 25,
    .record429 .concurrency 30]

theorem late_probe_stays_half_open :
    ¬ ∀ (threshold windowMs cooldownMs : Int) (ops pre : List BreakerOp) (op : BreakerOp),
      pre ++ [op] <+: ops → (run step (new threshold windowMs cooldownMs) pre).Reopens op
        (run step (new threshold windowMs cooldownMs) (pre ++ [op])) := by
  intro h
  have hfresh := h 2 10 20 lateProbe (lateProbe.take 3) (.record429 .concurrency 30)
    (List.prefix_refl _) 30 rfl (by decide)
  exact absurd hfresh.1 (by decide)

end CircuitBreaker

/-! ## The breaker of a gate -/

/-- The operation makes this call: outcomes are recorded by the operations
of that name only. -/
def BreakerOp.MadeBy : BreakerOp → Op → Prop
  | .record429 type _, op => op = .record429 type
  | .recordSuccess, op => op = .recordSuccess
  | _, _ => True

section Gates

theorem dequeue_breaker (g : Gate) (w : Waiter) (code : GateErrorCode) (op : Op) :
    ∃ calls : List BreakerOp, (∀ call ∈ calls, call.MadeBy op) ∧
      (g.dequeue w code).breaker = Lib.run CircuitBreaker.step g.breaker calls := by
  simp only [Gate.dequeue]
  split
  · exact ⟨[], by simp, rfl⟩
  · split
    · exact ⟨[.resetHalfOpenProbe g.now], by simp [BreakerOp.MadeBy], rfl⟩
    · exact ⟨[], by simp, rfl⟩

variable [ShareRounding]

/-- A step of the gate calls methods of the breaker. -/
theorem step_breaker_calls (g : Gate) (op : Op) :
    ∃ calls : List BreakerOp, (∀ call ∈ calls, call.MadeBy op) ∧
      (g.step op).breaker = Lib.run CircuitBreaker.step g.breaker calls := by
  cases op with
  | acquire opts =>
    simp only [Gate.step, Gate.acquire]
    split
    · exact ⟨[], by simp, rfl⟩
    · split
      · exact ⟨[.maybeHalfOpen g.now], by simp [BreakerOp.MadeBy], rfl⟩
      · exact ⟨[.maybeHalfOpen g.now], by simp [BreakerOp.MadeBy], grantOrEnqueue_breaker _ _ _⟩
  | queueTimeout id =>
    simp only [Gate.step]
    split
    · exact ⟨[], by simp, rfl⟩
    · split
      · exact ⟨[], by simp, rfl⟩
      · split
        · exact dequeue_breaker g _ _ _
        · exact ⟨[], by simp, rfl⟩
  | abort id =>
    simp only [Gate.step]
    split
    · exact ⟨[], by simp, rfl⟩
    · split
      · exact ⟨[], by simp, rfl⟩
      · exact dequeue_breaker { g with aborted := id :: g.aborted } _ _ _
  | release id => exact ⟨[], by simp, rfl⟩
  | cooldownExpiry =>
    simp only [Gate.step]
    split
    · exact ⟨[], by simp, rfl⟩
    · split
      · exact ⟨[], by simp, rfl⟩
      · exact ⟨[], by simp, rfl⟩
  | tick ms => exact ⟨[], by simp, rfl⟩
  | resize newLimit => exact ⟨[], by simp, afterSetter_breaker g _⟩
  | setHardCap newHardCap => exact ⟨[], by simp, afterSetter_breaker g _⟩
  | setSoftLimit newSoftLimit => exact ⟨[], by simp, afterSetter_breaker g _⟩
  | reconfigure opts =>
    exact ⟨[.reconfigure opts.breakerThreshold opts.breakerWindowMs opts.breakerCooldownMs g.now],
      by simp [BreakerOp.MadeBy], rfl⟩
  | record429 type =>
    refine ⟨[.record429 type g.now], by simp [BreakerOp.MadeBy], ?_⟩
    simp only [Gate.step]
    split
    · rfl
    · rfl
  | recordSuccess =>
    refine ⟨[.recordSuccess], by simp [BreakerOp.MadeBy], ?_⟩
    simp only [Gate.step]
    split
    · rfl
    · rfl
  | shutdown => exact ⟨[], by simp, rfl⟩

/-- So the breaker of a gate is one of the runs above. -/
theorem breaker_after (opts : ConcurrencyGateOptions) (ops : List Op) :
    ∃ calls, (Gate.after opts ops).breaker = Lib.run CircuitBreaker.step
      (.new opts.breakerThreshold opts.breakerWindowMs opts.breakerCooldownMs) calls := by
  refine run_invariant (I := fun g : Gate => ∃ calls, g.breaker =
    Lib.run CircuitBreaker.step
      (.new opts.breakerThreshold opts.breakerWindowMs opts.breakerCooldownMs) calls)
    ?_ ⟨[], rfl⟩ ops
  rintro g op ⟨calls, hcalls⟩
  obtain ⟨calls', -, hstep⟩ := step_breaker_calls g op
  exact ⟨calls ++ calls', by rw [run_append, ← hcalls, hstep]⟩

end Gates

end UmansGate.Limiter
