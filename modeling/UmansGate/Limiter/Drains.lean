/-
UmansGate.Limiter.Drains — the operations that end in `drainWaiters`.

The cooldown timer, `resize` and `setHardCap` first change the semaphore
and then drain its queue. `Gate.drained?` is the semaphore in between, and
`step_drains` takes the operation apart at that point, so that a fact about
a drain is proved once and not once for each of the three.
-/
import UmansGate.Limiter.Moves

namespace UmansGate.Limiter

open UmansGate.Lib Semaphore

section Drains

variable [ShareRounding]

/-- The semaphore whose waiters an operation drains. -/
def Gate.drained? (g : Gate) : Op → Option Semaphore
  | .cooldownExpiry =>
    if ∃ due ∈ g.semaphore.releaseTimer, due ≤ g.now then some g.semaphore.applyReleases else none
  | .resize newLimit =>
    let clamped := g.semaphore.clampLimit newLimit
    if clamped = g.semaphore.limit ∧ clamped ≠ .nan then none
    else some { g.semaphore with limit := clamped }
  | .setHardCap newHardCap =>
    let cap := scaledCap newHardCap
    if cap = g.semaphore.hardCap then none
    else if Num.lt (.fin cap) g.semaphore.limit then
      some { g.semaphore with
        hardCap := cap
        softLimit := if g.semaphore.softLimit > cap then cap else g.semaphore.softLimit
        limit := .fin cap }
    else none
  | _ => none

omit [ShareRounding] in
theorem afterSetter_semaphore (g : Gate) (r : Semaphore × Bool) :
    ∃ l, (g.afterSetter r).semaphore = { r.1 with log := l } := by
  unfold Gate.afterSetter
  split
  · exact ⟨_, rfl⟩
  · exact ⟨_, rfl⟩

/-- Such an operation drains what `drained?` names, or changes the caps at
most; behind the drain it only logs. -/
theorem step_drains {g : Gate} {op : Op} (hop : op.Drains) :
    ∃ l, (∃ s ∈ g.drained? op, (g.step op).semaphore = { s.drainWaiters.1 with log := l }) ∨
      g.drained? op = none ∧ ∃ hardCap softLimit, (g.step op).semaphore =
        { g.semaphore with hardCap := hardCap, softLimit := softLimit, log := l } := by
  cases op with
  | cooldownExpiry =>
    cases htimer : g.semaphore.releaseTimer with
    | none =>
      have hsame : (g.step .cooldownExpiry).semaphore = g.semaphore := by
        simp only [Gate.step, htimer]
      refine ⟨g.semaphore.log, .inr ⟨?_, g.semaphore.hardCap, g.semaphore.softLimit, hsame⟩⟩
      simp [Gate.drained?, htimer]
    | some due =>
      by_cases hdue : due ≤ g.now
      · have hs : g.drained? .cooldownExpiry = some g.semaphore.applyReleases :=
          if_pos ⟨due, htimer, hdue⟩
        cases hdrain : g.semaphore.applyReleases.drainWaiters with
        | mk s threw =>
          have hstep : (g.step .cooldownExpiry).semaphore = if threw then s else s.emitStats := by
            simp only [Gate.step, htimer, if_pos hdue, onReleaseTimer, hdrain]
            cases threw <;> rfl
          cases threw with
          | true => exact ⟨s.log, .inl ⟨_, hs, by rw [hstep, hdrain]; rfl⟩⟩
          | false => exact ⟨s.emitStats.log, .inl ⟨_, hs, by rw [hstep, hdrain]; rfl⟩⟩
      · have hsame : (g.step .cooldownExpiry).semaphore = g.semaphore := by
          simp only [Gate.step, htimer, if_neg hdue]
        refine ⟨g.semaphore.log, .inr ⟨?_, g.semaphore.hardCap, g.semaphore.softLimit, hsame⟩⟩
        simp [Gate.drained?, htimer, hdue]
  | resize x =>
    obtain ⟨l, hl⟩ := afterSetter_semaphore g (g.semaphore.resize x)
    refine ⟨l, ?_⟩
    rw [Gate.step, hl]
    simp only [Semaphore.resize, Gate.drained?]
    by_cases hsame : g.semaphore.clampLimit x = g.semaphore.limit ∧ g.semaphore.clampLimit x ≠ .nan
    · simp only [if_pos hsame]
      exact .inr ⟨trivial, _, _, rfl⟩
    · simp only [if_neg hsame]
      exact .inl ⟨_, rfl, rfl⟩
  | setHardCap x =>
    obtain ⟨l, hl⟩ := afterSetter_semaphore g (g.semaphore.setHardCap x)
    refine ⟨l, ?_⟩
    rw [Gate.step, hl]
    simp only [Semaphore.setHardCap, Gate.drained?]
    by_cases hsame : scaledCap x = g.semaphore.hardCap
    · simp only [if_pos hsame]
      exact .inr ⟨trivial, _, _, rfl⟩
    · simp only [if_neg hsame]
      by_cases hlower : Num.lt (.fin (scaledCap x)) g.semaphore.limit
      · simp only [if_pos hlower]
        exact .inl ⟨_, rfl, rfl⟩
      · simp only [if_neg hlower]
        exact .inr ⟨trivial, _, _, rfl⟩
  | _ => exact absurd hop id

omit [ShareRounding] in
/-- What is drained has the queue of the gate. -/
theorem drained?_waiters {g : Gate} {op : Op} {s : Semaphore} (h : g.drained? op = some s) :
    s.waiters = g.semaphore.waiters := by
  cases op with
  | cooldownExpiry =>
    simp only [Gate.drained?] at h
    split at h
    · obtain ⟨a, d, es, -, heq⟩ := g.semaphore.applyReleases_eq
      rw [← Option.some.inj h, heq]
    · cases h
  | resize x =>
    simp only [Gate.drained?] at h
    split at h
    · cases h
    · rw [← Option.some.inj h]
  | setHardCap x =>
    simp only [Gate.drained?] at h
    split at h
    · cases h
    · split at h
      · rw [← Option.some.inj h]
      · cases h
  | _ => cases h

/-! ## The queue after a drain -/

/-- A drain leaves the waiters in their order: `visited` is the queue up to
the loop's position, and an exception leaves it in place. -/
theorem drainLoop_ids (ws : List Waiter) : ∀ (s : Semaphore) (remaining visited : List Waiter),
    remaining.Sublist visited →
    ((s.drainLoop remaining visited ws).1.waiters.map (·.id)).Sublist
      ((visited ++ ws).map (·.id)) := by
  induction ws with
  | nil =>
    intro s remaining visited h
    rw [List.append_nil]
    exact h.map _
  | cons next rest ih =>
    intro s remaining visited h
    have hassoc : (visited ++ next :: rest).map (·.id) = (visited ++ [next] ++ rest).map (·.id) := by
      simp
    cases hc : s.canGrant next.intention next.weight with
    | false =>
      rw [drainLoop_cons_refused hc, hassoc]
      exact ih s _ _ (h.append (.refl _))
    | true =>
      cases ht : next.onAcquireThrows with
      | true =>
        rw [drainLoop_cons_thrown hc ht]
        simp
      | false =>
        rw [drainLoop_cons_granted hc ht]
        have hrest := ih (s.grantWaiter next) remaining (visited ++ [{ next with timeout := none }])
          (h.trans (List.sublist_append_left _ _))
        simpa using hrest

theorem drainWaiters_ids (s : Semaphore) :
    (s.drainWaiters.1.waiters.map (·.id)).Sublist (s.waiters.map (·.id)) := by
  unfold drainWaiters
  split
  · exact .refl _
  · exact drainLoop_ids s.waiters s [] [] (.refl _)

end Drains

end UmansGate.Limiter
