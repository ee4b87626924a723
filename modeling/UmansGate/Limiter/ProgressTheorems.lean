/-
UmansGate.Limiter.ProgressTheorems — when a queued request waits for
nothing but its own timeout.

A stuck gate has waiters, no active permit and no release to come: only a
queue timeout or an abort moves it. `drainWaiters` runs when the last
permit comes back, so a gate gets stuck where that drain grants nobody,
which is when the queue is deadlocked: with every counter at zero nobody
in it fits. Reservations are then smaller than the requests, and what each
intention keeps for itself by its mere demand stops the others
(`halves_deadlock`); or `resize` has made the limit NaN, under which
`canGrant` refuses everything. `Gate.KeepsMoving` excludes exactly these.
-/
import UmansGate.Limiter.WakeupTheorems

namespace UmansGate.Limiter

open UmansGate.Lib Relation

namespace Semaphore

/-- Requests wait, and nothing else is outstanding. -/
def Stuck (s : Semaphore) : Prop := s.active = 0 ∧ s.pendingReleases = [] ∧ s.waiters ≠ []

/-- The semaphore with every permit returned. -/
def idle (s : Semaphore) : Semaphore :=
  { s with active := 0, activeByIntention := s.activeByIntention.mapVals fun _ => 0 }

/-- Requests wait, and none of them would be granted with every permit
returned. -/
def Deadlocked [ShareRounding] (s : Semaphore) : Prop :=
  s.waiters ≠ [] ∧ ∀ w ∈ s.waiters, s.idle.canGrant w.intention w.weight = false

end Semaphore

/-- The step does not leave a queue behind that nothing moves: no request is
queued behind a NaN limit while nothing is outstanding, and the release
timer does not return the last permits to a deadlocked queue. -/
def Gate.KeepsMoving [ShareRounding] (g : Gate) : Op → Prop
  | .acquire opts =>
    ¬ (g.semaphore.limit = .nan ∧ g.semaphore.active = 0 ∧ g.semaphore.pendingReleases = [] ∧
      g.LetsIn opts ∧ (g.semaphore.waiters.length : Int) < g.semaphore.maxQueueDepth)
  | .cooldownExpiry =>
    ¬ ((∃ due ∈ g.semaphore.releaseTimer, due ≤ g.now) ∧
      g.semaphore.active = pendingOf anyIntention g.semaphore.pendingReleases ∧
      g.semaphore.Deadlocked)
  | _ => True

/-- The gate is not shut down, and what is acquired weighs at most one
permit. -/
def Op.OnePermit : Op → Prop
  | .acquire opts => roundNum (opts.weight.getD 1 * SCALE) ≤ SCALE
  | .shutdown => False
  | _ => True

instance (s : Semaphore) : Decidable s.Stuck := inferInstanceAs (Decidable (_ ∧ _ ∧ _))

instance [ShareRounding] (s : Semaphore) : Decidable s.Deadlocked :=
  inferInstanceAs (Decidable (_ ∧ ∀ w ∈ s.waiters, _))

instance : ∀ op : Op, Decidable op.OnePermit
  | .acquire _ => inferInstanceAs (Decidable (_ ≤ _))
  | .shutdown => .isFalse id
  | .queueTimeout _ | .abort _ | .release _ | .cooldownExpiry | .tick _ | .resize _
  | .setHardCap _ | .setSoftLimit _ | .reconfigure _ | .record429 _ | .recordSuccess =>
    .isTrue trivial

instance [ShareRounding] (g : Gate) : ∀ op : Op, Decidable (g.KeepsMoving op)
  | .acquire _ => inferInstanceAs (Decidable (¬ (_ ∧ _ ∧ _ ∧ _ ∧ _)))
  | .cooldownExpiry => inferInstanceAs (Decidable (¬ ((∃ due ∈ g.semaphore.releaseTimer, _) ∧ _ ∧ _)))
  | .shutdown | .queueTimeout _ | .abort _ | .release _ | .tick _ | .resize _
  | .setHardCap _ | .setSoftLimit _ | .reconfigure _ | .record429 _ | .recordSuccess =>
    .isTrue trivial

open Semaphore

/-- The books of a gate whose callbacks may throw: the counters cover what
is outstanding, no queue counter exceeds its waiters, and the limit admits
one permit or is NaN. -/
structure InOperation (s : Semaphore) : Prop where
  ledger : ∃ lost lostOf, Ledger lost lostOf s
  weighted : s.Weighted
  queued_nonneg : ∀ k, 0 ≤ s.queuedByIntention.getD k 0
  queued_le : ∀ k, s.queuedByIntention.getD k 0 ≤ s.waitersOf k
  limit : s.limit = .nan ∨ ∃ l, s.limit = .fin l ∧ SCALE ≤ l

/-! ## The books -/

section BookMoves

variable {n m : Nat} {op : Op} {s₀ s s' : Semaphore} {lost : Int} {lostOf : String → Int}

/-- A grant is counted, and its permit comes back or is lost. -/
theorem Ledger.grant (h : Ledger lost lostOf s) {r : Request} (hw : 0 < r.weight) :
    ∃ lost lostOf, Ledger lost lostOf (s.grant r).1 := by
  have hfst := grant_fst s r
  cases ht : r.onAcquireThrows with
  | true => exact ⟨_, _, h.grant_lost hw (by rw [hfst, ht]; rfl)⟩
  | false =>
    cases hp : s.permits.get? r.id with
    | none => exact ⟨_, _, h.grant_new ht hw hp⟩
    | some p =>
      refine ⟨_, _, h.grant_lost hw ?_⟩
      rw [hfst, ht]
      simp [resolvePermit, hp]

/-- The queue is no part of the ledger. -/
theorem Ledger.requeue (h : Ledger lost lostOf s) (ws : List Waiter) (q : Dict String Int)
    (l : List Event) :
    Ledger lost lostOf { s with waiters := ws, queuedByIntention := q, log := l } := { h with }

theorem ledger_grantWaiter (h : Ledger lost lostOf s) {w : Waiter} (hw : 0 < w.weight)
    (ws : List Waiter) : ∃ lost lostOf, Ledger lost lostOf { s.grantWaiter w with waiters := ws } := by
  rw [grantWaiter_of_waiters, grantWaiter, decQueued_eq]
  exact (h.requeue ws _ _).grant hw

theorem ledger_move [ShareRounding] (h : ∃ lost lostOf, Ledger lost lostOf s) (hw : s.Weighted)
    (hm : Move m op s₀ s s') (hop : op ≠ .shutdown) : ∃ lost lostOf, Ledger lost lostOf s' := by
  obtain ⟨lost, lostOf, h⟩ := h
  cases hm with
  | note _ => exact ⟨lost, lostOf, { h with }⟩
  | @grantWaiter pre w post _ hs _ _ => exact ledger_grantWaiter h (hw w (by simp [hs])) _
  | @grantThrown pre w post visited _ hs _ _ _ _ =>
    exact ledger_grantWaiter h (hw w (by simp [hs])) _
  | leave _ _ _ _ =>
    rw [Semaphore.leave, decQueued_eq]
    exact ⟨lost, lostOf, { h with }⟩
  | @release now id _ => exact ⟨lost, lostOf, h.release now id⟩
  | applyReleases _ => exact ⟨lost, lostOf, h.applyReleases.1⟩
  | resize _ => exact ⟨lost, lostOf, { h with }⟩
  | setHardCap _ => exact ⟨lost, lostOf, { h with }⟩
  | setSoftLimit _ => exact ⟨lost, lostOf, { h with }⟩
  | @reconfigure opts _ => exact ⟨lost, lostOf, h.reconfigure opts⟩
  | shutdown hop' => exact absurd hop' hop

theorem queued_nonneg_move [ShareRounding] (h : ∀ k, 0 ≤ s.queuedByIntention.getD k 0)
    (hm : Move m op s₀ s s') (hop : op ≠ .shutdown) (k : String) :
    0 ≤ s'.queuedByIntention.getD k 0 := by
  cases hm with
  | note _ => exact h k
  | grantWaiter _ _ _ _ =>
    rw [Semaphore.grantWaiter, grant_fst, decQueued_eq]
    exact getD_set_nonneg h (le_max_left _ _) _ k
  | grantThrown _ _ _ _ _ _ =>
    rw [Semaphore.grantWaiter, grant_fst, decQueued_eq]
    exact getD_set_nonneg h (le_max_left _ _) _ k
  | leave _ _ _ _ =>
    rw [Semaphore.leave, decQueued_eq]
    exact getD_set_nonneg h (le_max_left _ _) _ k
  | @release now id _ =>
    rcases s.release_cases now id with heq | ⟨p, timer, _, _, heq⟩ <;> rw [heq] <;> exact h k
  | applyReleases _ =>
    obtain ⟨a, d, es, _, heq⟩ := s.applyReleases_eq
    rw [heq]
    exact h k
  | resize _ => exact h k
  | setHardCap _ => exact h k
  | setSoftLimit _ => exact h k
  | @reconfigure opts _ =>
    simp only [Semaphore.reconfigure]
    split
    · exact h k
    · exact (h k).trans (getD_ensureKeys _ _ k).ge
  | shutdown hop' => exact absurd hop' hop

/-- Taking a waiter off its counter keeps the counters below the queue. -/
theorem queued_le_dequeue (h : ∀ k, s.queuedByIntention.getD k 0 ≤ s.waitersOf k) {w : Waiter}
    {l : List Waiter} (hl : ∀ k, s.waitersOf k ≤
      l.countP (·.intention = k) + if w.intention = k then 1 else 0) (k : String) :
    (s.queuedByIntention.set w.intention (max 0 (s.queuedByIntention.getD w.intention 0 - 1))).getD
      k 0 ≤ (l.countP (·.intention = k) : Int) := by
  have hk := h k
  have hlk := hl k
  rw [Dict.getD_set]
  split
  · rename_i heq
    rw [if_pos heq] at hlk
    rw [heq]
    omega
  · rename_i hne
    rw [if_neg hne] at hlk
    omega

theorem queued_le_move [ShareRounding] (h : ∀ k, s.queuedByIntention.getD k 0 ≤ s.waitersOf k)
    (hm : Move m op s₀ s s') (hop : op ≠ .shutdown) (k : String) :
    s'.queuedByIntention.getD k 0 ≤ s'.waitersOf k := by
  cases hm with
  | note _ => exact h k
  | @grantWaiter pre w post _ hs _ _ =>
    rw [grantWaiter_of_waiters, Semaphore.grantWaiter, grant_fst, decQueued_eq]
    refine queued_le_dequeue h (fun k => ?_) k
    rw [waitersOf, hs, ← countP_middle]
    simp
  | @grantThrown pre w post visited _ hs _ _ hv _ =>
    rw [grantWaiter_of_waiters, Semaphore.grantWaiter, grant_fst, decQueued_eq]
    refine queued_le_dequeue h (fun k => ?_) k
    have hsub : (pre ++ w :: post).countP (·.intention = k) ≤
        (visited ++ w :: post).countP (·.intention = k) :=
      (hv.append (.refl _)).countP_le
    simp only [waitersOf, hs, List.countP_append, List.countP_cons] at hsub ⊢
    omega
  | @leave w code es _ hw _ _ =>
    rw [Semaphore.leave, decQueued_eq]
    refine queued_le_dequeue h (fun k => ?_) k
    rw [waitersOf, ← countP_erase _ hw]
    simp
  | @release now id _ =>
    rcases s.release_cases now id with heq | ⟨p, timer, _, _, heq⟩ <;> rw [heq] <;> exact h k
  | applyReleases _ =>
    obtain ⟨a, d, es, _, heq⟩ := s.applyReleases_eq
    rw [heq]
    exact h k
  | resize _ => exact h k
  | setHardCap _ => exact h k
  | setSoftLimit _ => exact h k
  | @reconfigure opts _ =>
    simp only [Semaphore.reconfigure]
    split
    · exact h k
    · exact (getD_ensureKeys _ _ k).trans_le (h k)
  | shutdown hop' => exact absurd hop' hop

theorem limit_move [ShareRounding] (h : s.limit = .nan ∨ ∃ l, s.limit = .fin l ∧ SCALE ≤ l)
    (hm : Move m op s₀ s s') : s'.limit = .nan ∨ ∃ l, s'.limit = .fin l ∧ SCALE ≤ l := by
  rcases hm.limit_cases with ⟨heq, -⟩ | ⟨x, -, rfl⟩ | ⟨x, softLimit, -, rfl⟩
  · rwa [heq]
  · show s.clampLimit x = _ ∨ _
    cases x with
    | nan => exact .inl rfl
    | negInf => exact .inr ⟨SCALE, rfl, le_rfl⟩
    | fin q => exact .inr ⟨_, rfl, le_max_left _ _⟩
    | posInf => exact .inr ⟨_, rfl, le_max_left _ _⟩
  · dsimp only
    split
    · exact .inr ⟨_, rfl, SCALE_le_scaledCap x⟩
    · exact h

/-- The books survive every change but a shutdown. -/
theorem InOperation.move [ShareRounding] (h₀ : s₀.Weighted) (h : InOperation s)
    (hm : Move m op s₀ s s') (hop : op ≠ .shutdown) : InOperation s' where
  ledger := ledger_move h.ledger h.weighted hm hop
  weighted := hm.weighted h₀ h.weighted
  queued_nonneg := queued_nonneg_move h.queued_nonneg hm hop
  queued_le := queued_le_move h.queued_le hm hop
  limit := limit_move h.limit hm

theorem InOperation.intake [ShareRounding] {opts : AcquireOptions} (h : InOperation s)
    (hin : Intake n opts s s') : InOperation s' := by
  have hlim := hin.limit_eq.1
  refine ⟨?_, hin.weighted h.weighted, ?_, ?_, hlim ▸ h.limit⟩
  · obtain ⟨lost, lostOf, hledger⟩ := h.ledger
    cases hin with
    | grant _ _ hw _ => exact hledger.grant hw
    | enqueue _ _ _ _ henq =>
      obtain ⟨-, rfl⟩ := enqueue_eq henq
      exact ⟨lost, lostOf, hledger.requeue _ _ _⟩
  · cases hin with
    | grant _ _ _ _ =>
      rw [grant_fst]
      exact h.queued_nonneg
    | @enqueue _ w _ _ _ _ henq =>
      obtain ⟨-, rfl⟩ := enqueue_eq henq
      have := h.queued_nonneg w.intention
      exact getD_set_nonneg h.queued_nonneg (by omega) _
  · cases hin with
    | grant _ _ _ _ =>
      rw [grant_fst]
      exact h.queued_le
    | @enqueue _ w _ _ _ _ henq =>
      obtain ⟨-, rfl⟩ := enqueue_eq henq
      intro k
      have hk := h.queued_le k
      show (s.queuedByIntention.set _ _).getD k 0 ≤ (((s.waiters ++ [w]).countP _ : Nat) : Int)
      rw [Dict.getD_set_getD_add, List.countP_append, List.countP_singleton]
      unfold waitersOf at hk
      by_cases hwk : w.intention = k
      · simp only [hwk, decide_true, if_true]
        push_cast
        omega
      · simp only [hwk, Ne.symm hwk, decide_false, Bool.false_eq_true, if_false]
        push_cast
        omega

theorem inOperation_new (opts : ConcurrencyGateOptions) : InOperation (Semaphore.new opts) where
  ledger := ⟨_, _, (accounts_new opts).2.ledger⟩
  weighted := weighted_new opts
  queued_nonneg k := ((accounts_new opts).2.queued_eq k).ge
  queued_le k := ((accounts_new opts).2.queued_eq k).le
  limit := .inr ⟨_, rfl, le_max_left _ _⟩

theorem inOperation_step [ShareRounding] {g : Gate} (h : InOperation g.semaphore) {op : Op}
    (hop : op ≠ .shutdown) : InOperation (g.step op).semaphore := by
  refine step_invariant (I := fun _ s => InOperation s) ?_ (fun _ hs => hs) ?_ h
  · intro m s s' _ hs hm
    exact hs.move h.weighted hm hop
  · intro opts s s' _ hs hin
    exact hs.intake hin

end BookMoves

/-! ## Nothing active -/

section Idle

variable {s s' : Semaphore}

theorem InOperation.active_nonneg (h : InOperation s) : 0 ≤ s.active := by
  obtain ⟨lost, lostOf, hl⟩ := h.ledger
  have hnn : 0 ≤ s.permits.total Permit.outstanding := by
    refine Dict.total_nonneg fun e he => ?_
    have := hl.permit_pos e he
    unfold Permit.outstanding
    split <;> omega
  have := hl.lost_nonneg
  have := hl.active_eq
  omega

/-- With nothing active, nothing is active for any intention. -/
theorem InOperation.byIntention_eq_zero (h : InOperation s) (ha : s.active = 0) (k : String) :
    s.activeByIntention.getD k 0 = 0 := by
  obtain ⟨lost, lostOf, hl⟩ := h.ledger
  have hnn : ∀ k, 0 ≤ s.activeByIntention.getD k 0 := by
    intro k
    have hper : 0 ≤ s.permits.total (Permit.outstandingOf k) := by
      refine Dict.total_nonneg fun e he => ?_
      have := hl.permit_pos e he
      unfold Permit.outstandingOf Permit.outstanding
      split
      · split <;> omega
      · omega
    have := hl.lostOf_nonneg k
    have := hl.byIntention_eq k
    omega
  have hsum := Dict.total_eq_sum_keys hl.keys_nodup
  rw [hl.total_eq, ha] at hsum
  by_cases hk : k ∈ s.activeByIntention.keys
  · refine List.all_zero_of_le_zero_le_of_sum_eq_zero ?_ hsum.symm (List.mem_map.mpr ⟨k, hk, rfl⟩)
    intro x hx
    obtain ⟨k', -, rfl⟩ := List.mem_map.mp hx
    exact hnn k'
  · rw [Dict.getD, Dict.get?_eq_none_of_not_mem hk]
    rfl

variable [ShareRounding]

/-- With nothing active, the gate admits what it would admit idle. -/
theorem canGrant_idle (ha : s.active = 0) (hby : ∀ k, s.activeByIntention.getD k 0 = 0)
    (k : String) (w : Int) : s.idle.canGrant k w = s.canGrant k w := by
  refine canGrant_congr s s.idle rfl rfl ha.symm (fun k => ?_) (fun _ => rfl) k w
  rw [hby]
  exact getD_mapVals_zero _ k

/-- An idle gate without a queue grants whatever fits its limit. -/
theorem canGrant_alone {l : Int} (hl : s.limit = .fin l) (ha : s.active = 0)
    (hby : ∀ k, s.activeByIntention.getD k 0 = 0) (hq : ∀ k, s.queuedByIntention.getD k 0 = 0)
    {w : Int} (hw : w ≤ l) (k : String) : s.canGrant k w = true := by
  obtain ⟨E, -, hE⟩ := effectiveReservations_fin hl
  have hkept : s.kept E k = 0 := by
    refine List.sum_eq_zero fun x hx => ?_
    obtain ⟨k', -, rfl⟩ := List.mem_map.mp hx
    unfold keptFor
    rw [hby, hq]
    split <;> rfl
  rw [canGrant_iff hl hE, ha, hkept]
  exact ⟨by omega, .inr (.inr (by omega))⟩

/-! ## The drain of an idle gate -/

theorem drainLoop_refused (ws : List Waiter) : ∀ (s : Semaphore) (remaining visited : List Waiter),
    (∀ w ∈ ws, s.canGrant w.intention w.weight = false) →
    s.drainLoop remaining visited ws = ({ s with waiters := remaining ++ ws }, false) := by
  induction ws with
  | nil =>
    intro s remaining visited _
    rw [List.append_nil]
    rfl
  | cons next rest ih =>
    intro s remaining visited h
    rw [drainLoop_cons_refused (h next (by simp)), ih s _ _ fun w hw => h w (by simp [hw]),
      List.append_assoc, List.singleton_append]

/-- A drain that refuses everybody changes nothing. -/
theorem drainWaiters_refused (h : ∀ w ∈ s.waiters, s.canGrant w.intention w.weight = false) :
    s.drainWaiters = (s, false) := by
  unfold drainWaiters
  split
  · rfl
  · rw [drainLoop_refused s.waiters s [] [] h]
    rfl

/-- The loop only adds to what is active, and adds something when it could
grant a waiter it was given. -/
theorem drainLoop_active (ws : List Waiter) : ∀ (s : Semaphore) (remaining visited : List Waiter),
    (∀ w ∈ ws, 0 < w.weight) →
    s.active ≤ (s.drainLoop remaining visited ws).1.active ∧
      ((∃ w ∈ ws, s.canGrant w.intention w.weight = true) →
        s.active < (s.drainLoop remaining visited ws).1.active) := by
  induction ws with
  | nil =>
    intro s remaining visited _
    exact ⟨le_rfl, by simp⟩
  | cons next rest ih =>
    intro s remaining visited hpos
    have hnext := hpos next (by simp)
    have hactive : (s.grantWaiter next).active = s.active + next.weight := by
      rw [Semaphore.grantWaiter, grant_fst, decQueued_eq]
    cases hc : s.canGrant next.intention next.weight with
    | false =>
      rw [drainLoop_cons_refused hc]
      obtain ⟨hle, hlt⟩ := ih s (remaining ++ [next]) (visited ++ [next])
        fun w hw => hpos w (by simp [hw])
      refine ⟨hle, ?_⟩
      rintro ⟨w, hw, hcw⟩
      rcases List.mem_cons.mp hw with rfl | hw
      · rw [hc] at hcw
        exact absurd hcw (by simp)
      · exact hlt ⟨w, hw, hcw⟩
    | true =>
      cases ht : next.onAcquireThrows with
      | false =>
        rw [drainLoop_cons_granted hc ht]
        obtain ⟨hle, -⟩ := ih (s.grantWaiter next) remaining
          (visited ++ [{ next with timeout := none }]) fun w hw => hpos w (by simp [hw])
        exact ⟨by omega, fun _ => by omega⟩
      | true =>
        rw [drainLoop_cons_thrown hc ht]
        dsimp only
        exact ⟨by omega, fun _ => by omega⟩

theorem drainWaiters_active (hw : s.Weighted) :
    s.active ≤ s.drainWaiters.1.active ∧
      ((∃ w ∈ s.waiters, s.canGrant w.intention w.weight = true) →
        s.active < s.drainWaiters.1.active) := by
  unfold drainWaiters
  split
  · rename_i hnil
    exact ⟨le_rfl, by simp [hnil]⟩
  · exact drainLoop_active s.waiters s [] [] hw

end Idle

/-! ## The operations -/

section Operations

variable [ShareRounding] {n : Nat} {op : Op} {s₀ s s' : Semaphore} {g : Gate}

omit [ShareRounding] in
theorem not_stuck_of_active (h : 0 < s.active) : ¬ s.Stuck := fun hs => by
  have := hs.1
  omega

/-- Only the release timer, and an `acquire` that queues, can leave a gate
stuck. -/
theorem Move.not_stuck (hin : InOperation s) (h : ¬ s.Stuck) (hm : Move n op s₀ s s')
    (hop : op ≠ .cooldownExpiry) (hop' : op ≠ .shutdown) : ¬ s'.Stuck := by
  have hnn := hin.active_nonneg
  cases hm with
  | note _ => exact h
  | @grantWaiter pre w post _ hs _ _ =>
    have hw := hin.weighted w (by simp [hs])
    refine not_stuck_of_active ?_
    rw [Semaphore.grantWaiter, grant_fst, decQueued_eq]
    show 0 < s.active + w.weight
    omega
  | @grantThrown pre w post visited _ hs _ _ _ _ =>
    have hw := hin.weighted w (by simp [hs])
    refine not_stuck_of_active ?_
    rw [Semaphore.grantWaiter, grant_fst, decQueued_eq]
    show 0 < s.active + w.weight
    omega
  | leave _ _ _ _ =>
    rw [Semaphore.leave, decQueued_eq]
    rintro ⟨ha, hp, hw⟩
    refine h ⟨ha, hp, fun hnil => hw ?_⟩
    show s.waiters.erase _ = []
    rw [hnil]
    rfl
  | @release now id _ =>
    rcases s.release_cases now id with heq | ⟨p, timer, _, _, heq⟩
    · rwa [heq]
    · rw [heq]
      rintro ⟨ha, hp, hw⟩
      refine h ⟨ha, ?_, hw⟩
      dsimp only at hp
      split at hp
      · exact hp
      · exact absurd hp (by simp)
  | applyReleases h => exact absurd h hop
  | resize _ => exact h
  | setHardCap _ => exact h
  | setSoftLimit _ => exact h
  | @reconfigure opts _ =>
    simp only [Semaphore.reconfigure]
    split <;> exact h
  | shutdown h => exact absurd h hop'

/-- An `acquire` leaves the gate stuck when it queues behind a NaN limit, and
only then. -/
theorem acquire_stuck_iff (hin : InOperation g.semaphore) (h : ¬ g.semaphore.Stuck)
    {opts : AcquireOptions} (hop : (Op.acquire opts).OnePermit) :
    ¬ (g.acquire opts).semaphore.Stuck ↔ g.KeepsMoving (.acquire opts) := by
  have hnn := hin.active_nonneg
  have hsame : ∀ l, ¬ ({ g.semaphore with log := l } : Semaphore).Stuck := fun _ => h
  obtain ⟨l, ⟨hno, heq⟩ | ⟨hlet, hc, heq⟩ | ⟨hlet, hc, ⟨hfull, heq⟩ | ⟨hroom, w, hw, heq⟩⟩⟩ :=
    acquire_semaphore g opts
  · rw [heq]
    exact ⟨fun _ hk => hno hk.2.2.2.1, fun _ => hsame l⟩
  · rw [heq]
    have hact : ¬ ({ (g.semaphore.grant (g.request opts)).1 with log := l } : Semaphore).Stuck := by
      refine not_stuck_of_active ?_
      have := hlet.1
      rw [grant_fst]
      dsimp only
      omega
    refine ⟨fun _ hk => ?_, fun _ => hact⟩
    -- a NaN limit grants nothing
    have hrefuse := canGrant_nan hk.1 hlet.1
      (hin.byIntention_eq_zero hk.2.1 (g.request opts).intention).ge
    rw [hc] at hrefuse
    exact absurd hrefuse (by simp)
  · rw [heq]
    exact ⟨fun _ hk => absurd hk.2.2.2.2 (by omega), fun _ => hsame l⟩
  · rw [heq]
    constructor
    · intro hs hk
      exact hs ⟨hk.2.1, hk.2.2.1, by simp⟩
    · rintro hk ⟨ha, hp, -⟩
      refine hk ⟨?_, ha, hp, hlet, hroom⟩
      rcases hin.limit with hl | ⟨limit, hl, hle⟩
      · exact hl
      · -- with nobody waiting the request would have been granted
        have hnil : g.semaphore.waiters = [] := by
          by_contra hne
          exact h ⟨ha, hp, hne⟩
        have hq : ∀ k, g.semaphore.queuedByIntention.getD k 0 = 0 := by
          intro k
          have h₁ := hin.queued_nonneg k
          have h₂ := hin.queued_le k
          rw [waitersOf, hnil, List.countP_nil] at h₂
          omega
        have hgrant := canGrant_alone hl ha (hin.byIntention_eq_zero ha) hq
          (w := (g.request opts).weight) (le_trans hop hle) (g.request opts).intention
        rw [hc] at hgrant
        exact absurd hgrant (by simp)

/-- The release timer leaves the gate stuck when it returns the last permits
to a deadlocked queue, and only then. -/
theorem onReleaseTimer_stuck_iff (hin : InOperation s) :
    ¬ s.onReleaseTimer.Stuck ↔
      ¬ (s.active = pendingOf anyIntention s.pendingReleases ∧ s.Deadlocked) := by
  obtain ⟨lost, lostOf, hl⟩ := hin.ledger
  have hm : Move 0 .cooldownExpiry s s s.applyReleases := .applyReleases rfl
  have hin' := hin.move hin.weighted hm (by simp)
  have hactive := hl.applyReleases.2.2
  have hnn := hin'.active_nonneg
  obtain ⟨a, d, es, -, heq⟩ := s.applyReleases_eq
  have hwait : s.applyReleases.waiters = s.waiters := by rw [heq]
  have hpend : s.applyReleases.pendingReleases = [] := by rw [heq]
  have hidle : s.idle.canGrant = s.applyReleases.idle.canGrant := by
    funext k w
    refine canGrant_congr s.applyReleases.idle s.idle ?_ ?_ rfl (fun k => ?_) (fun k => ?_) k w
    · rw [heq]; rfl
    · rw [heq]; rfl
    · exact (getD_mapVals_zero _ k).trans (getD_mapVals_zero _ k).symm
    · rw [heq]; rfl
  have htimer : s.onReleaseTimer.Stuck ↔ s.applyReleases.drainWaiters.1.Stuck := by
    unfold onReleaseTimer
    split
    · rename_i hd
      rw [hd]
    · rename_i hd
      rw [hd]
      rfl
  obtain ⟨hle, hlt⟩ := drainWaiters_active hin'.weighted
  rw [htimer]
  by_cases ha : s.active = pendingOf anyIntention s.pendingReleases
  · have hzero : s.applyReleases.active = 0 := by omega
    have hcan := canGrant_idle hzero (hin'.byIntention_eq_zero hzero)
    by_cases hdead : s.Deadlocked
    · have hrefused : ∀ w ∈ s.applyReleases.waiters,
          s.applyReleases.canGrant w.intention w.weight = false := by
        intro w hw
        rw [← hcan, ← hidle]
        exact hdead.2 w (hwait ▸ hw)
      rw [drainWaiters_refused hrefused]
      refine ⟨fun hs => absurd ⟨hzero, hpend, ?_⟩ hs, fun hno => absurd ⟨ha, hdead⟩ hno⟩
      rw [hwait]
      exact hdead.1
    · refine ⟨fun _ hk => hdead hk.2, fun _ hs => ?_⟩
      by_cases hnil : s.waiters = []
      · have hdrain : s.applyReleases.drainWaiters.1 = s.applyReleases := by
          rw [drainWaiters, if_pos (hwait.trans hnil)]
        rw [hdrain] at hs
        exact hs.2.2 (hwait.trans hnil)
      · have hsome : ∃ w ∈ s.applyReleases.waiters,
            s.applyReleases.canGrant w.intention w.weight = true := by
          by_contra hnone
          refine hdead ⟨hnil, fun w hw => ?_⟩
          rw [hidle, hcan, ← Bool.not_eq_true]
          exact fun hc => hnone ⟨w, hwait ▸ hw, hc⟩
        have := hlt hsome
        have := hs.1
        omega
  · refine ⟨fun _ hk => ha hk.1, fun _ => not_stuck_of_active ?_⟩
    omega

/-- The step of a gate that is not stuck leaves it so if and only if it is
excluded. -/
theorem step_stuck_iff (hin : InOperation g.semaphore) (h : ¬ g.semaphore.Stuck)
    (hop : op.OnePermit) : ¬ (g.step op).semaphore.Stuck ↔ g.KeepsMoving op := by
  have hshut : op ≠ .shutdown := by
    rintro rfl
    exact hop
  by_cases hacq : ∃ opts, op = .acquire opts
  · obtain ⟨opts, rfl⟩ := hacq
    exact acquire_stuck_iff hin h hop
  · by_cases hexp : op = .cooldownExpiry
    · subst hexp
      simp only [Gate.step, Gate.KeepsMoving]
      split
      · rename_i hnone
        simp [hnone, h]
      · rename_i due hdue
        split
        · rename_i hle
          rw [onReleaseTimer_stuck_iff hin]
          simp [hdue, hle]
        · rename_i hlt
          simp [hdue, hlt, h]
    · have hkeep : g.KeepsMoving op := by
        cases op with
        | acquire opts => exact absurd ⟨opts, rfl⟩ hacq
        | cooldownExpiry => exact absurd rfl hexp
        | _ => trivial
      obtain ⟨-, hm⟩ := step_moves g op fun opts h => hacq ⟨opts, h⟩
      have hinv := hm.invariant (I := fun s => InOperation s ∧ ¬ s.Stuck) (fun a b hab hmv =>
        ⟨hab.1.move hin.weighted hmv hshut, hmv.not_stuck hab.1 hab.2 hexp hshut⟩) ⟨hin, h⟩
      exact ⟨fun _ => hkeep, fun _ => hinv.2⟩

/-! ## Every run -/

theorem not_stuck_iff_of_inOperation (ops : List Op) : ∀ g : Gate, InOperation g.semaphore →
    ¬ g.semaphore.Stuck → (∀ op ∈ ops, op.OnePermit) →
    ((∀ i, ¬ (Lib.run Gate.step g (ops.take i)).semaphore.Stuck) ↔
      StepsMeet Gate.step Gate.KeepsMoving g ops) := by
  induction ops with
  | nil =>
    intro g _ h _
    simpa [StepsMeet] using h
  | cons op ops ih =>
    intro g hin h hops
    have hop := hops op (by simp)
    have hshut : op ≠ .shutdown := by
      rintro rfl
      exact hop
    have hstep := step_stuck_iff hin h hop
    have hrest : ∀ op ∈ ops, op.OnePermit := fun op hmem => hops op (by simp [hmem])
    constructor
    · intro hrun
      have hone := hrun 1
      exact ⟨hstep.mp hone,
        (ih _ (inOperation_step hin hshut) hone hrest).mp fun i => hrun (i + 1)⟩
    · rintro ⟨hkeep, hmeet⟩ i
      cases i with
      | zero => exact h
      | succ i =>
        exact (ih _ (inOperation_step hin hshut) (hstep.mpr hkeep) hrest).mpr hmeet i

/-- In a run before shutdown that acquires at most one permit at a time, the
gate is stuck in no state if and only if no step queues a request behind a
NaN limit or returns the last permits to a deadlocked queue. -/
theorem queue_moves_iff (opts : ConcurrencyGateOptions) (ops : List Op)
    (hops : ∀ op ∈ ops, op.OnePermit) :
    (∀ i, ¬ (Gate.after opts (ops.take i)).semaphore.Stuck) ↔
      StepsMeet Gate.step Gate.KeepsMoving (Gate.new opts) ops :=
  not_stuck_iff_of_inOperation ops (Gate.new opts) (inOperation_new opts)
    (fun h => absurd rfl h.2.2) hops

end Operations

/-! ## Whole reservations

The configuration reserves whole permits, or none: then requests of at most
one permit never deadlock. -/

section Whole

/-- Every reservation is nothing or at least one permit. -/
def Whole (reservations : Dict String Int) : Prop :=
  ∀ k, reservations.getD k 0 = 0 ∨ SCALE ≤ reservations.getD k 0

variable {s : Semaphore} {l : Int} {E : Dict String Int}

/-- Storing a value for each of some new keys adds the keys in their order. -/
theorem foldl_set_append {α : Type} (f : String → α) (keys : List String) : ∀ out : Dict String α,
    keys.Nodup → (∀ k ∈ keys, k ∉ out.keys) →
    keys.foldl (fun out k => out.set k (f k)) out = out ++ keys.map fun k => (k, f k) := by
  induction keys with
  | nil => simp
  | cons key keys ih =>
    intro out hnd hnew
    rw [List.nodup_cons] at hnd
    have hset : out.set key (f key) = out ++ [(key, f key)] :=
      Dict.set_eq_append (Dict.get?_eq_none_of_not_mem (hnew key (by simp))) _
    rw [List.foldl_cons, hset, ih _ hnd.2]
    · simp
    · intro k hk
      simp only [Dict.keys, List.map_append, List.map_singleton, List.mem_append,
        List.mem_singleton, not_or]
      refine ⟨hnew k (by simp [hk]), ?_⟩
      rintro rfl
      exact hnd.1 hk

/-- The proportional split hands out no more than the limit. -/
theorem foldl_share_total (f : String → Int) (keys : List String) : ∀ (E : Dict String Int) (r : Int),
    keys.Nodup → (∀ k ∈ keys, k ∉ E.keys) → 0 ≤ r →
    ∃ (E' : Dict String Int) (r' : Int), 0 ≤ r' ∧ E'.total id + r' = E.total id + r ∧
      E'.keys = E.keys ++ keys ∧
      keys.foldl (fun (acc : Dict String (Num Int) × Num Int) k =>
          (acc.1.set k (Num.max (.fin 0) (Num.min (Num.fin (f k)) acc.2)),
            acc.2.sub (Num.max (.fin 0) (Num.min (Num.fin (f k)) acc.2))))
        (E.mapVals Num.fin, Num.fin r) = (E'.mapVals Num.fin, Num.fin r') := by
  induction keys with
  | nil =>
    intro E r _ _ hr
    exact ⟨E, r, hr, rfl, by simp, rfl⟩
  | cons key keys ih =>
    intro E r hnd hnew hr
    rw [List.nodup_cons] at hnd
    have hset : ∀ v : Int, E.set key v = E ++ [(key, v)] := fun v =>
      Dict.set_eq_append (Dict.get?_eq_none_of_not_mem (hnew key (by simp))) v
    rw [List.foldl_cons]
    simp only [Num.min_fin_fin, Num.max_fin_fin, Num.sub_fin_fin]
    rw [← Dict.mapVals_set]
    obtain ⟨E', r', hr', htotal, hkeys, heq⟩ := ih (E.set key (max 0 (min (f key) r)))
      (r - max 0 (min (f key) r)) hnd.2 (by
        intro k hk
        rw [hset]
        simp only [Dict.keys, List.map_append, List.map_singleton, List.mem_append,
          List.mem_singleton, not_or]
        refine ⟨hnew k (by simp [hk]), ?_⟩
        rintro rfl
        exact hnd.1 hk) (by omega)
    refine ⟨E', r', hr', ?_, ?_, heq⟩
    · rw [htotal, Dict.total_set_of_none (Dict.get?_eq_none_of_not_mem (hnew key (by simp)))]
      simp only [id_eq]
      omega
    · rw [hkeys, hset]
      simp [Dict.keys]

variable [ShareRounding]

omit [ShareRounding] in
theorem mapVals_fin_injective {E E' : Dict String Int}
    (h : E.mapVals Num.fin = E'.mapVals Num.fin) : E = E' := by
  refine List.map_injective_iff.mpr ?_ h
  rintro ⟨k, v⟩ ⟨k', v'⟩ heq
  simp only [Prod.mk.injEq, Num.fin.injEq] at heq
  rw [heq.1, heq.2]

/-- The effective reservations are the reservations, or a split of a limit
that the reservations exceed. -/
theorem effectiveReservations_cases (hl : s.limit = .fin l) (hl₀ : 0 ≤ l)
    (hnd : s.reservations.keys.Nodup) (hE : s.effectiveReservations = E.mapVals Num.fin) :
    E.keys = s.reservations.keys ∧ ((∀ k, E.getD k 0 = s.reservations.getD k 0) ∨
      E.total id ≤ l ∧ l < s.reservations.total id) := by
  rw [Dict.total_eq_sum_keys hnd]
  simp only [effectiveReservations, hl, Num.map_fin, Num.le_fin_fin, decide_eq_true_eq] at hE
  rw [← List.foldl_map (f := fun k => s.reservations.getD k 0), ← List.sum_eq_foldl] at hE
  split at hE
  · -- the reservations fit
    rw [foldl_set_append _ _ [] hnd (by simp [Dict.keys]), List.nil_append] at hE
    have heq : E = s.reservations.keys.map fun k => (k, s.reservations.getD k 0) := by
      refine mapVals_fin_injective (hE.symm.trans ?_)
      simp [Dict.mapVals]
    refine ⟨?_, .inl fun k => ?_⟩
    · rw [heq]
      simp [Dict.keys, Function.comp_def]
    · have hmap : E = s.reservations.map fun e => (e.1, s.reservations.getD e.1 0) := by
        rw [heq, Dict.keys, List.map_map]
        rfl
      rw [Dict.getD, hmap, Dict.get?_map s.reservations fun k _ => s.reservations.getD k 0]
      cases hk : s.reservations.get? k with
      | none => simp [Dict.getD, hk]
      | some v => rfl
  · rename_i hlt
    obtain ⟨E', r', hr', htotal, hkeys, heq⟩ := foldl_share_total (fun k =>
      ShareRounding.floorShare (s.reservations.getD k 0)
        (s.reservations.keys.map fun k => s.reservations.getD k 0).sum l)
      s.reservations.keys [] l hnd (by simp [Dict.keys]) hl₀
    have hE' : E = E' := mapVals_fin_injective (hE.symm.trans (congrArg Prod.fst heq))
    subst hE'
    refine ⟨by simpa [Dict.keys] using hkeys, .inr ⟨?_, by omega⟩⟩
    simp only [Dict.total, List.map_nil, List.sum_nil] at htotal ⊢
    omega

/-- Whole reservations never deadlock requests of at most one permit. -/
theorem not_deadlocked_of_whole (hin : InOperation s) (hl : s.limit = .fin l) (hle : SCALE ≤ l)
    (hone : ∀ w ∈ s.waiters, w.weight ≤ SCALE) (hres : Whole s.reservations)
    (hnd : s.reservations.keys.Nodup) : ¬ s.Deadlocked := by
  rintro ⟨hne, hrefused⟩
  have hidle : s.idle.effectiveReservations = s.effectiveReservations :=
    effectiveReservations_congr rfl rfl
  obtain ⟨E, hEnd, hE⟩ := effectiveReservations_fin hl
  obtain ⟨hkeys, hcases⟩ := effectiveReservations_cases hl (le_trans SCALE_pos.le hle) hnd hE
  -- why a waiter is refused: nothing is over-subscribed, and the others keep too much
  have hwhy : ∀ w ∈ s.waiters, ¬ s.idle.overSubscribed (E.mapVals Num.fin) = true ∧
      E.getD w.intention 0 < w.weight ∧ l < w.weight + s.idle.kept E w.intention := by
    intro w hw
    have hno : ¬ s.idle.canGrant w.intention w.weight = true := by simp [hrefused w hw]
    rw [canGrant_iff (s := s.idle) hl (hidle.trans hE)] at hno
    have hone := hone w hw
    have hzero : s.idle.activeByIntention.getD w.intention 0 = 0 := getD_mapVals_zero _ _
    have hact : s.idle.active = 0 := rfl
    rw [hzero, hact] at hno
    refine ⟨fun h => hno ⟨by omega, .inr (.inl h)⟩, ?_, ?_⟩
    · by_contra h
      exact hno ⟨by omega, .inl (by omega)⟩
    · by_contra h
      exact hno ⟨by omega, .inr (.inr (by omega))⟩
  obtain ⟨w, hw⟩ := List.exists_mem_of_ne_nil _ hne
  obtain ⟨hover, -, hkept⟩ := hwhy w hw
  rcases hcases with hsame | ⟨htotal, hexceed⟩
  · -- something is kept for another intention, which has a waiter of its own
    have hpos : 0 < s.idle.kept E w.intention := by
      have := hone w hw
      omega
    obtain ⟨k, -, hk⟩ : ∃ k ∈ E.keys, 0 < s.idle.keptFor E w.intention k := by
      by_contra hno
      have hle : s.idle.kept E w.intention ≤ (E.keys.map fun _ => (0 : Int)).sum := by
        refine List.sum_le_sum fun k hk => ?_
        by_contra hx
        exact hno ⟨k, hk, by omega⟩
      have hzero : (E.keys.map fun _ => (0 : Int)).sum = 0 := by simp
      omega
    have hzero : s.idle.activeByIntention.getD k 0 = 0 := getD_mapVals_zero _ _
    have hqueued : s.idle.queuedByIntention = s.queuedByIntention := rfl
    unfold keptFor at hk
    rw [hzero, hqueued, hsame] at hk
    split at hk
    · omega
    · split at hk
      · omega
      · have h₀ := hin.queued_nonneg k
        have hle := hin.queued_le k
        obtain ⟨w', hw', hk'⟩ := List.countP_pos_iff.mp (show 0 < s.waitersOf k by omega)
        have hkw : w'.intention = k := by simpa using hk'
        have hown := (hwhy w' hw').2.1
        have hone := hone w' hw'
        rw [hkw, hsame] at hown
        rcases hres k with h | h <;> omega
  · -- a reservation that the split cuts is over-subscribed
    have hle : ∀ k ∈ s.reservations.keys, s.reservations.getD k 0 ≤ E.getD k 0 := by
      intro k hk
      by_contra hlt
      refine hover (List.any_eq_true.mpr ⟨k, hk, ?_⟩)
      have hget : (E.mapVals Num.fin).getD k (.fin 0) = .fin (E.getD k 0) :=
        Dict.getD_mapVals _ _ _ _
      rw [hget, Num.lt_fin_fin, decide_eq_true_eq]
      exact Int.not_le.mp hlt
    rw [Dict.total_eq_sum_keys hEnd, hkeys] at htotal
    rw [Dict.total_eq_sum_keys hnd] at hexceed
    have := List.sum_le_sum hle
    omega

/-- The operation reserves whole permits, and sets no NaN limit. -/
def Op.ReservesWhole : Op → Prop
  | .reconfigure opts => ∀ intentions ∈ opts.intentions, Whole (scaleIntentions intentions)
  | .resize newLimit => newLimit ≠ .nan
  | _ => True

/-- What a run with whole reservations keeps. -/
structure WholeRun (s : Semaphore) : Prop where
  inOperation : InOperation s
  finite : ∃ l, s.limit = .fin l ∧ SCALE ≤ l
  whole : Whole s.reservations
  keys_nodup : s.reservations.keys.Nodup
  onePermit : ∀ w ∈ s.waiters, w.weight ≤ SCALE

theorem Move.reservations_eq {m : Nat} {op : Op} {s₀ s s' : Semaphore} (hm : Move m op s₀ s s') :
    s'.reservations = s.reservations ∨
      ∃ opts intentions, op = .reconfigure opts ∧ opts.intentions = some intentions ∧
        s'.reservations = scaleIntentions intentions := by
  cases hm with
  | note _ => exact .inl rfl
  | grantWaiter _ _ _ _ =>
    exact .inl (by simp only [Semaphore.grantWaiter, grant_fst, decQueued_eq])
  | grantThrown _ _ _ _ _ _ =>
    exact .inl (by simp only [Semaphore.grantWaiter, grant_fst, decQueued_eq])
  | leave _ _ _ _ => exact .inl (by simp only [Semaphore.leave, decQueued_eq])
  | @release now id _ =>
    rcases s.release_cases now id with heq | ⟨p, timer, _, _, heq⟩ <;> rw [heq] <;> exact .inl rfl
  | applyReleases _ =>
    obtain ⟨a, d, es, _, heq⟩ := s.applyReleases_eq
    rw [heq]
    exact .inl rfl
  | resize _ => exact .inl rfl
  | setHardCap _ => exact .inl rfl
  | setSoftLimit _ => exact .inl rfl
  | @reconfigure opts hop =>
    cases hint : opts.intentions with
    | none => exact .inl (by simp only [Semaphore.reconfigure, hint])
    | some intentions =>
      exact .inr ⟨opts, intentions, hop, hint, by simp only [Semaphore.reconfigure, hint]⟩
  | shutdown _ =>
    obtain ⟨q, es, _, heq⟩ := s.shutdown_eq
    rw [heq]
    exact .inl rfl

theorem Move.finite_limit {m : Nat} {op : Op} {s₀ s s' : Semaphore} (hm : Move m op s₀ s s')
    (hop : op.ReservesWhole) (h : ∃ l, s.limit = .fin l ∧ SCALE ≤ l) :
    ∃ l, s'.limit = .fin l ∧ SCALE ≤ l := by
  rcases hm.limit_cases with ⟨heq, -⟩ | ⟨x, rfl, rfl⟩ | ⟨x, softLimit, -, rfl⟩
  · rwa [heq]
  · show ∃ l, s.clampLimit x = .fin l ∧ SCALE ≤ l
    cases x with
    | nan => exact absurd rfl hop
    | negInf => exact ⟨SCALE, rfl, le_rfl⟩
    | fin q => exact ⟨_, rfl, le_max_left _ _⟩
    | posInf => exact ⟨_, rfl, le_max_left _ _⟩
  · dsimp only
    split
    · exact ⟨_, rfl, SCALE_le_scaledCap x⟩
    · exact h

theorem WholeRun.move {m : Nat} {op : Op} {s₀ s s' : Semaphore} (h₀ : WholeRun s₀)
    (h : WholeRun s) (hm : Move m op s₀ s s') (hop : op ≠ .shutdown) (hwhole : op.ReservesWhole) :
    WholeRun s' := by
  refine ⟨h.inOperation.move h₀.inOperation.weighted hm hop, hm.finite_limit hwhole h.finite, ?_, ?_,
    fun x hx => ?_⟩
  · rcases hm.reservations_eq with heq | ⟨opts, intentions, rfl, hint, heq⟩
    · rw [heq]
      exact h.whole
    · rw [heq]
      exact hwhole intentions hint
  · rcases hm.reservations_eq with heq | ⟨opts, intentions, rfl, hint, heq⟩
    · rw [heq]
      exact h.keys_nodup
    · rw [heq]
      exact scaleIntentions_keys_nodup intentions
  · rcases hm.mem_waiters hx with ⟨y, hy, heq⟩ | ⟨y, hy, heq⟩
    · rw [← heq]
      exact h.onePermit y hy
    · rw [← heq]
      exact h₀.onePermit y hy

theorem wholeRun_step {g : Gate} {op : Op} (hop : op.OnePermit) (hwhole : op.ReservesWhole)
    (h : WholeRun g.semaphore) : WholeRun (g.step op).semaphore := by
  have hshut : op ≠ .shutdown := by
    rintro rfl
    exact hop
  by_cases hacq : ∃ opts, op = .acquire opts
  · obtain ⟨opts, rfl⟩ := hacq
    have hin := inOperation_step h.inOperation hshut
    obtain ⟨l, ⟨-, heq⟩ | ⟨-, -, heq⟩ | ⟨-, -, ⟨-, heq⟩ | ⟨-, w, hw, heq⟩⟩⟩ :=
      acquire_semaphore g opts
    · rw [Gate.step, heq] at hin ⊢
      exact ⟨hin, h.finite, h.whole, h.keys_nodup, h.onePermit⟩
    · rw [Gate.step, heq, grant_fst] at hin ⊢
      exact ⟨hin, h.finite, h.whole, h.keys_nodup, h.onePermit⟩
    · rw [Gate.step, heq] at hin ⊢
      exact ⟨hin, h.finite, h.whole, h.keys_nodup, h.onePermit⟩
    · rw [Gate.step, heq] at hin ⊢
      refine ⟨hin, h.finite, h.whole, h.keys_nodup, fun x hx => ?_⟩
      rcases List.mem_append.mp hx with hx | hx
      · exact h.onePermit x hx
      · rw [List.mem_singleton.mp hx, hw]
        exact hop
  · obtain ⟨-, hm⟩ := step_moves g op fun opts heq => hacq ⟨opts, heq⟩
    exact hm.invariant (fun _ _ hs hmv => h.move hs hmv hshut hwhole) h

/-- A gate that reserves whole permits under a limit that is a number never
gets stuck. -/
theorem never_stuck_of_whole (opts : ConcurrencyGateOptions) (ops : List Op)
    (hopts : Whole (scaleIntentions (opts.intentions.getD [("main", 1)])))
    (hops : ∀ op ∈ ops, op.OnePermit ∧ op.ReservesWhole) :
    ¬ (Gate.after opts ops).semaphore.Stuck := by
  have hnew : WholeRun (Gate.new opts).semaphore :=
    ⟨inOperation_new opts, ⟨_, rfl, le_max_left _ _⟩, hopts, scaleIntentions_keys_nodup _,
      fun w hw => absurd hw (by simp [Gate.new, Semaphore.new])⟩
  have h : WholeRun (Gate.after opts ops).semaphore ∧ ¬ (Gate.after opts ops).semaphore.Stuck := by
    refine run_invariant_of_stepsMeet (I := fun g : Gate => WholeRun g.semaphore ∧
      ¬ g.semaphore.Stuck) (P := fun _ (op : Op) => op.OnePermit ∧ op.ReservesWhole) ?_
      ⟨hnew, fun h => absurd rfl h.2.2⟩ (StepsMeet.of_forall hops)
    rintro g op ⟨hrun, hstuck⟩ ⟨hop, hwhole⟩
    refine ⟨wholeRun_step hop hwhole hrun, (step_stuck_iff hrun.inOperation hstuck hop).mpr ?_⟩
    obtain ⟨l, hl, hle⟩ := hrun.finite
    cases op with
    | acquire opts =>
      rintro ⟨hnan, -⟩
      rw [hl] at hnan
      exact absurd hnan (by simp)
    | cooldownExpiry =>
      rintro ⟨-, -, hdead⟩
      exact not_deadlocked_of_whole hrun.inOperation hl hle hrun.onePermit hrun.whole
        hrun.keys_nodup hdead
    | shutdown => exact absurd hop id
    | _ => trivial
  exact h.2

end Whole

section Runs

attribute [local instance] exactShare

/-- One slot, half of it reserved for each intention. -/
def halves : ConcurrencyGateOptions :=
  { twoSlots with hardCap := 1, softLimit := 1, intentions := some [("main", 1 / 2), ("vision", 1 / 2)] }

/-- While a main request runs, another one and a vision request queue; the
first one ends. -/
def bothWait : List Op :=
  [.acquire {}, .acquire {}, .acquire { intention := some "vision" }, .release 0, .tick 10,
    .cooldownExpiry]

/-- Each of the waiting requests is stopped by the half that the other's
demand reserves; and under a NaN limit the first request waits for nothing. -/
theorem halves_deadlock :
    ((∀ op ∈ bothWait, op.OnePermit) ∧ (Gate.after halves bothWait).semaphore.Stuck) ∧
      (Gate.after twoSlots [.resize .nan, .acquire {}]).semaphore.Stuck := by
  decide +kernel

/-- With whole reservations the same run gets on. -/
theorem queue_moves_bothWait :
    (∀ op ∈ bothWait, op.OnePermit) ∧
    ∀ i, ¬ (Gate.after { twoSlots with hardCap := 1, softLimit := 1 }
      (bothWait.take i)).semaphore.Stuck := by
  have hops : ∀ op ∈ bothWait, op.OnePermit := by decide +kernel
  exact ⟨hops, (queue_moves_iff { twoSlots with hardCap := 1, softLimit := 1 } bothWait hops).mpr
    (by decide +kernel)⟩

end Runs

end UmansGate.Limiter
