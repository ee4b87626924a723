/-
UmansGate.Limiter.CooldownTheorems — how long a released permit stays
counted.

The releases of a batch share one timer, and the first of them arms it. A
permit that is released while the timer runs comes back with the batch,
before a cooldown of its own has passed (`early_return`). A cooldown that
`setTimeout` cannot arm is over after 1 ms. Where every release arms the
timer itself with a cooldown in that range, or finds one that comes due no
earlier than its own, each permit stays counted for the whole cooldown
(`cooldown_kept`).
-/
import UmansGate.Limiter.ProgressTheorems

namespace UmansGate.Limiter

open UmansGate.Lib Semaphore

/-- Permit `id` is one of those whose weights `active` holds. -/
def Semaphore.Counts (s : Semaphore) (id : Nat) : Prop :=
  (∃ p, s.permits.get? id = some p ∧ p.stage ≠ .returned) ∧
    s.permits.total Permit.outstanding ≤ s.active

/-- Permit `id` is in use. -/
def Semaphore.Holds (s : Semaphore) (id : Nat) : Prop :=
  ∃ p ∈ s.permits.get? id, p.stage = .held

/-- Permit `id` waits for the timer, which comes due at `due`. -/
structure Semaphore.Cooling (id : Nat) (due : Int) (s : Semaphore) : Prop where
  permit : ∃ p, s.permits.get? id = some p ∧ p.stage = .cooling
  timer : s.releaseTimer = some due

section Cooldown

variable [ShareRounding] {g : Gate} {op : Op} {n id : Nat} {due : Int} {s₀ s s' : Semaphore}

/-- A permit whose `release` is called stays counted until the cooldown from
that call is over, whatever comes in between. -/
def KeepsCooldown (opts : ConcurrencyGateOptions) (ops : List Op) : Prop :=
  ∀ pre id mid, pre ++ .release id :: mid <+: ops → (Gate.after opts pre).semaphore.Holds id →
    (Gate.after opts (pre ++ .release id :: mid)).now <
      (Gate.after opts pre).now + (Gate.after opts pre).semaphore.releaseCooldownMs →
    (Gate.after opts (pre ++ .release id :: mid)).semaphore.Counts id

/-- A release of a permit in use finds no timer that comes due before its own
cooldown is over, one that arms the timer itself has a cooldown in the range
of a timer, and the gate is not shut down. -/
def Gate.OwnTimer (g : Gate) : Op → Prop
  | .release id => g.semaphore.Holds id →
      (∀ due ∈ g.semaphore.releaseTimer, g.now + g.semaphore.releaseCooldownMs ≤ due) ∧
        (g.semaphore.releaseTimer = none → g.semaphore.releaseCooldownMs ≤ 2147483647)
  | .shutdown => False
  | _ => True

omit [ShareRounding] in
theorem Gate.OwnTimer.ne_shutdown (h : g.OwnTimer op) : op ≠ .shutdown := by
  rintro rfl
  exact h

/-! ## Time -/

omit [ShareRounding] in
theorem dequeue_now (g : Gate) (w : Waiter) (code : GateErrorCode) :
    (g.dequeue w code).now = g.now := by
  unfold Gate.dequeue
  split
  · rfl
  · split <;> rfl

theorem acquire_now (g : Gate) (opts : AcquireOptions) : (g.acquire opts).now = g.now := by
  have hin : ∀ (g : Gate) (r : Request) (seen : BreakerState),
      (g.grantOrEnqueue r seen).now = g.now := by
    intro g r seen
    simp only [Gate.grantOrEnqueue]
    split
    · split <;> rfl
    · split <;> rfl
  simp only [Gate.acquire]
  split
  · rfl
  · split
    · rfl
    · exact hin _ _ _

/-- Time does not run backwards. -/
theorem now_le_step (g : Gate) (op : Op) : g.now ≤ (g.step op).now := by
  have hsetter : ∀ r, (g.afterSetter r).now = g.now := by
    intro r
    unfold Gate.afterSetter
    split <;> rfl
  cases op with
  | tick ms => exact Int.le_add_of_nonneg_right (Int.natCast_nonneg ms)
  | acquire opts => exact (acquire_now g opts).ge
  | queueTimeout id =>
    simp only [Gate.step]
    split
    · exact le_rfl
    · split
      · exact le_rfl
      · split
        · exact (dequeue_now _ _ _).ge
        · exact le_rfl
  | abort id =>
    simp only [Gate.step]
    split
    · exact le_rfl
    · split
      · exact le_rfl
      · exact (dequeue_now _ _ _).ge
  | cooldownExpiry =>
    simp only [Gate.step]
    split
    · exact le_rfl
    · split <;> exact le_rfl
  | resize _ => exact (hsetter _).ge
  | setHardCap _ => exact (hsetter _).ge
  | setSoftLimit _ => exact (hsetter _).ge
  | record429 _ =>
    simp only [Gate.step]
    split <;> exact le_rfl
  | recordSuccess =>
    simp only [Gate.step]
    split <;> exact le_rfl
  | release _ | reconfigure _ | shutdown => exact le_rfl

/-! ## A permit that cools -/

omit [ShareRounding] in
theorem Cooling.resolve (h : ∃ p, s.permits.get? id = some p ∧ p.stage = .cooling) (r : Request) :
    ∃ p, (resolvePermit s.permits r).get? id = some p ∧ p.stage = .cooling := by
  obtain ⟨p, hp, hcool⟩ := h
  refine ⟨p, ?_, hcool⟩
  rw [get?_resolvePermit, hp]
  rfl

omit [ShareRounding] in
theorem Cooling.release (h : Cooling id due s) (now : Int) (id' : Nat) :
    Cooling id due (s.release now id') := by
  obtain ⟨p, hp, hcool⟩ := h.permit
  unfold Semaphore.release
  split
  · exact h
  · rename_i p' hp'
    split
    · rename_i hheld
      have hne : id' ≠ id := by
        rintro rfl
        obtain rfl := Option.some.inj (hp'.symm.trans hp)
        rw [hcool] at hheld
        cases hheld
      have hkept : (s.permits.set id' { p' with stage := .cooling }).get? id = some p := by
        rw [Dict.get?_set, if_neg hne, hp]
      unfold releasePermit
      split
      · exact ⟨⟨p, hkept, hcool⟩, h.timer⟩
      · simp only [h.timer, reduceCtorEq, if_false]
        exact ⟨⟨p, hkept, hcool⟩, rfl⟩
    · exact h

/-- Only the timer and a shutdown end the cooling of a permit. -/
theorem Cooling.move (h : Cooling id due s) (hm : Move n op s₀ s s')
    (hop : op ≠ .shutdown) (htimer : op ≠ .cooldownExpiry) : Cooling id due s' := by
  cases hm with
  | note _ => exact { h with }
  | @grantWaiter pre w post _ _ _ ht =>
    rw [Semaphore.grantWaiter, grant_fst, decQueued_eq, ht]
    exact ⟨Cooling.resolve h.permit _, h.timer⟩
  | @grantThrown pre w post visited _ _ _ ht _ _ =>
    rw [Semaphore.grantWaiter, grant_fst, decQueued_eq, ht]
    exact { h with }
  | leave _ _ _ _ =>
    rw [Semaphore.leave, decQueued_eq]
    exact { h with }
  | release _ => exact Cooling.release h _ _
  | applyReleases hop' => exact absurd hop' htimer
  | resize _ => exact { h with }
  | setHardCap _ => exact { h with }
  | setSoftLimit _ => exact { h with }
  | @reconfigure opts _ =>
    simp only [Semaphore.reconfigure]
    split
    · exact { h with }
    · exact { h with }
  | shutdown hop' => exact absurd hop' hop

theorem Cooling.intake {opts : AcquireOptions} (h : Cooling id due s) (hin : Intake n opts s s') :
    Cooling id due s' := by
  cases hin with
  | @grant r _ _ _ _ =>
    rw [grant_fst]
    refine ⟨?_, h.timer⟩
    dsimp only
    split
    · exact h.permit
    · exact Cooling.resolve h.permit r
  | enqueue _ _ _ _ henq =>
    obtain ⟨-, rfl⟩ := enqueue_eq henq
    exact { h with }

/-- The first call of `release` puts the permit behind a timer that comes
due no earlier than its own cooldown. -/
theorem Cooling.of_release (hrunning : g.semaphore.shutdownRequested = false)
    (hheld : g.semaphore.Holds id) (hown : g.OwnTimer (.release id)) :
    ∃ due, Cooling id due (g.step (.release id)).semaphore ∧
      g.now + g.semaphore.releaseCooldownMs ≤ due := by
  obtain ⟨p, hp, hstage⟩ := hheld
  obtain ⟨hdue, hrange⟩ := hown ⟨p, hp, hstage⟩
  have hp : g.semaphore.permits.get? id = some p := hp
  simp only [Gate.step, Semaphore.release, hp, if_pos hstage, releasePermit, hrunning,
    Bool.false_eq_true, if_false]
  have hset : ∃ p', (g.semaphore.permits.set id { p with stage := .cooling }).get? id = some p' ∧
      p'.stage = .cooling := ⟨_, Dict.get?_set_self _ _ _, rfl⟩
  cases htimer : g.semaphore.releaseTimer with
  | none =>
    simp only [if_true]
    have hdelay := le_setTimeoutDelay (hrange htimer)
    exact ⟨_, ⟨hset, rfl⟩, by omega⟩
  | some due =>
    simp only [reduceCtorEq, if_false]
    exact ⟨due, ⟨hset, rfl⟩, hdue due htimer⟩

/-- Until `deadline` permit `id` waits for the timer. -/
structure CoolsUntil (id : Nat) (deadline : Int) (g : Gate) : Prop where
  inOperation : InOperation g.semaphore
  cools : (∃ due, Cooling id due g.semaphore ∧ deadline ≤ due) ∨ deadline ≤ g.now

theorem CoolsUntil.step {deadline : Int} (h : CoolsUntil id deadline g) (hop : op ≠ .shutdown) :
    CoolsUntil id deadline (g.step op) := by
  refine ⟨inOperation_step h.inOperation hop, ?_⟩
  rcases h.cools with ⟨due, hcool, hle⟩ | hover
  · by_cases htimer : op = .cooldownExpiry
    · subst htimer
      by_cases hdue : due ≤ g.now
      · exact .inr ((hle.trans hdue).trans (now_le_step g _))
      · have hsame : g.step .cooldownExpiry = g := by
          simp only [Gate.step, hcool.timer, if_neg hdue]
        rw [hsame]
        exact .inl ⟨due, hcool, hle⟩
    · refine .inl ⟨due, ?_, hle⟩
      refine step_invariant (I := fun _ s => Cooling id due s) ?_ (fun _ hs => hs) ?_ hcool
      · intro m s s' _ hs hm
        exact Cooling.move hs hm hop htimer
      · intro opts s s' _ hs hin
        exact Cooling.intake hs hin
  · exact .inr (hover.trans (now_le_step g op))

/-- In a run without a shutdown, in which no release joins a batch that comes
due before its own cooldown is over, every released permit stays counted for
its cooldown. -/
theorem cooldown_kept (opts : ConcurrencyGateOptions) (ops : List Op)
    (hops : StepsMeet Gate.step Gate.OwnTimer (Gate.new opts) ops) : KeepsCooldown opts ops := by
  rintro pre id mid ⟨rest, rfl⟩ hheld hbefore
  obtain ⟨hmeet, -⟩ := stepsMeet_append.mp hops
  obtain ⟨hpre, hown, hmid⟩ := stepsMeet_append.mp hmeet
  have hinv : InOperation (Gate.after opts pre).semaphore :=
    run_invariant_of_stepsMeet (I := fun g : Gate => InOperation g.semaphore)
      (fun _ _ h hop => inOperation_step h hop.ne_shutdown) (inOperation_new opts) hpre
  obtain ⟨lost, lostOf, hledger⟩ := hinv.ledger
  obtain ⟨due, hcool, hdue⟩ := Cooling.of_release hledger.running hheld hown
  have hafter : Gate.after opts (pre ++ .release id :: mid) =
      Lib.run Gate.step ((Gate.after opts pre).step (.release id)) mid :=
    run_append Gate.step _ pre _
  rw [hafter] at hbefore ⊢
  have hlast : CoolsUntil id _ (Lib.run Gate.step ((Gate.after opts pre).step (.release id)) mid) :=
    run_invariant_of_stepsMeet (fun _ _ h hop => h.step hop.ne_shutdown)
      ⟨inOperation_step hinv (by simp), .inl ⟨due, hcool, hdue⟩⟩ hmid
  obtain ⟨lost, lostOf, hledger⟩ := hlast.inOperation.ledger
  rcases hlast.cools with ⟨due, ⟨⟨p, hp, hstage⟩, -⟩, -⟩ | hover
  · refine ⟨⟨p, hp, by rw [hstage]; simp⟩, ?_⟩
    have := hledger.active_eq
    have := hledger.lost_nonneg
    omega
  · omega

end Cooldown

section Runs

attribute [local instance] exactShare

def twoPermits : List Op := [.acquire {}, .acquire { intention := some "vision" }]

/-- The second permit is released nine milliseconds after the first, and
comes back after one millisecond of its ten. -/
theorem early_return :
    ¬ KeepsCooldown twoSlots
      (twoPermits ++ [.release 0, .tick 9, .release 1, .tick 1, .cooldownExpiry]) := by
  intro h
  have hcounts := h (twoPermits ++ [.release 0, .tick 9]) 1 [.tick 1, .cooldownExpiry]
    List.prefix_rfl ⟨⟨1000, "vision", false, .held⟩, by decide +kernel, rfl⟩ (by decide +kernel)
  obtain ⟨⟨p, hp, hstage⟩, -⟩ := hcounts
  have hreturned : (Gate.after twoSlots (twoPermits ++ [.release 0, .tick 9] ++
      .release 1 :: [.tick 1, .cooldownExpiry])).semaphore.permits.get? 1 =
      some ⟨1000, "vision", false, .returned⟩ := by
    decide +kernel
  obtain rfl := Option.some.inj (hp.symm.trans hreturned)
  exact hstage rfl

/-- Two permits released at the same time. -/
theorem cooldown_kept_twoPermits :
    KeepsCooldown twoSlots (twoPermits ++ [.release 0, .release 1, .tick 9, .cooldownExpiry]) := by
  refine cooldown_kept twoSlots _ ?_
  have hnone : (Gate.after twoSlots twoPermits).semaphore.releaseTimer = none := by
    decide +kernel
  have hfirst : (Gate.after twoSlots twoPermits).semaphore.releaseCooldownMs ≤ 2147483647 := by
    decide +kernel
  have hten : (Gate.after twoSlots (twoPermits ++ [.release 0])).semaphore.releaseTimer =
      some 10 := by
    decide +kernel
  have hcool : (Gate.after twoSlots (twoPermits ++ [.release 0])).now +
      (Gate.after twoSlots (twoPermits ++ [.release 0])).semaphore.releaseCooldownMs = 10 := by
    decide +kernel
  have harms : (Gate.after twoSlots twoPermits).OwnTimer (.release 0) := by
    refine fun _ => ⟨fun due hdue => ?_, fun _ => hfirst⟩
    rw [hnone] at hdue
    cases hdue
  have hjoins : (Gate.after twoSlots (twoPermits ++ [.release 0])).OwnTimer (.release 1) := by
    refine fun _ => ⟨fun due hdue => ?_, fun htimer => ?_⟩
    · rw [hten] at hdue
      obtain rfl := Option.some.inj hdue
      exact hcool.le
    · rw [hten] at htimer
      cases htimer
  exact ⟨trivial, trivial, harms, hjoins, trivial, trivial, trivial⟩

end Runs

end UmansGate.Limiter
