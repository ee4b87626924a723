/-
UmansGate.Limiter.AcquireTheorems — what becomes of an `acquire` call.

A call is refused by its weight, the breaker or a full queue, granted,
left by the exception of its callback, or queued. `acquire_outcome` is the
case distinction, each case with the semaphore and the log it leaves.
-/
import UmansGate.Limiter.Moves

namespace UmansGate.Limiter

open UmansGate.Lib

/-- Events that settle nobody and queue nobody. -/
def Event.Quiet : Event → Prop
  | .stats _ | .breaker _ | .admitted _ _ => True
  | _ => False

section Acquire

variable [ShareRounding]

/-- The call ends in a rejection: it does not get to the semaphore, or it is
not granted and the queue is full. -/
def Gate.Refuses (g : Gate) (opts : AcquireOptions) : Prop :=
  ¬ g.LetsIn opts ∨
    (g.semaphore.canGrant (g.request opts).intention (g.request opts).weight = false ∧
      g.semaphore.maxQueueDepth ≤ (g.semaphore.waiters.length : Int))

instance (g : Gate) (opts : AcquireOptions) : Decidable (g.Refuses opts) :=
  inferInstanceAs (Decidable (_ ∨ (_ ∧ _)))

/-- What becomes of the call, and the semaphore after it. -/
inductive AcquireOutcome (g : Gate) (opts : AcquireOptions) : Semaphore → Prop where
  | refused {code es} (h : g.Refuses opts)
      (hcode : code = .invalid_weight ∨ code = .circuit_open ∨ code = .queue_full)
      (hes : ∀ e ∈ es, e.Quiet) :
      AcquireOutcome g opts
        { g.semaphore with log := .rejected g.nextId code :: es ++ g.semaphore.log }
  | granted {gr es es'} (hin : g.LetsIn opts)
      (hc : g.semaphore.canGrant (g.request opts).intention (g.request opts).weight = true)
      (ht : opts.onAcquireThrows = false) (hgr : gr.id = g.nextId) (hes : ∀ e ∈ es, e.Quiet)
      (hes' : ∀ e ∈ es', e.Quiet) :
      AcquireOutcome g opts
        { (g.semaphore.grant (g.request opts)).1 with
          log := es' ++ .granted gr :: es ++ g.semaphore.log }
  | thrown {es} (hin : g.LetsIn opts)
      (hc : g.semaphore.canGrant (g.request opts).intention (g.request opts).weight = true)
      (ht : opts.onAcquireThrows = true) (hes : ∀ e ∈ es, e.Quiet) :
      AcquireOutcome g opts
        { (g.semaphore.grant (g.request opts)).1 with
          log := .rejected g.nextId .callbackThrew :: es ++ g.semaphore.log }
  | queued {w es es'} (hin : g.LetsIn opts)
      (hc : g.semaphore.canGrant (g.request opts).intention (g.request opts).weight = false)
      (hroom : (g.semaphore.waiters.length : Int) < g.semaphore.maxQueueDepth)
      (hw : w.toRequest = g.request opts) (hes : ∀ e ∈ es, e.Quiet) (hes' : ∀ e ∈ es', e.Quiet) :
      AcquireOutcome g opts
        { g.semaphore with
          waiters := g.semaphore.waiters ++ [w]
          queuedByIntention := g.semaphore.queuedByIntention.set w.intention
            (g.semaphore.queuedByIntention.getD w.intention 0 + 1)
          log := es' ++ .enqueued g.nextId :: es ++ g.semaphore.log }

omit [ShareRounding] in
/-- Storing a breaker logs at most that its state changed. -/
theorem withBreaker_quiet (g : Gate) (b : CircuitBreaker) :
    ∃ es, (∀ e ∈ es, e.Quiet) ∧ g.withBreaker b =
      { g with breaker := b, semaphore := { g.semaphore with log := es ++ g.semaphore.log } } := by
  unfold Gate.withBreaker
  split
  · exact ⟨[], by simp, rfl⟩
  · exact ⟨[.breaker b.state], by simp [Event.Quiet], rfl⟩

theorem acquire_outcome (g : Gate) (opts : AcquireOptions) :
    AcquireOutcome g opts (g.acquire opts).semaphore := by
  by_cases hw : roundNum (opts.weight.getD 1 * SCALE) ≤ 0
  · have hout : g.Refuses opts := .inl fun h => absurd h.1 (by simpa [Gate.request] using hw)
    simp only [Gate.acquire, if_pos hw]
    exact @AcquireOutcome.refused _ g opts .invalid_weight [] hout (.inl rfl) (by simp)
  · obtain ⟨es, hes, hb⟩ := withBreaker_quiet { g with nextId := g.nextId + 1 }
      (g.breaker.maybeHalfOpen g.now).2
    by_cases hopen : (g.breaker.maybeHalfOpen g.now).1 = .opened
    · simp only [Gate.acquire, if_neg hw, if_pos hopen, hb]
      exact .refused (.inl fun h => h.2 hopen) (.inr (.inl rfl)) hes
    · have hin : g.LetsIn opts := ⟨Int.not_le.mp hw, hopen⟩
      have heq := acquire_of_letsIn hin hb
      have hcan : ({ g.semaphore with log := es ++ g.semaphore.log } : Semaphore).canGrant
          (g.request opts).intention (g.request opts).weight =
          g.semaphore.canGrant (g.request opts).intention (g.request opts).weight := rfl
      rw [heq]
      simp only [Gate.grantOrEnqueue]
      cases hc : g.semaphore.canGrant (g.request opts).intention (g.request opts).weight with
      | true =>
        rw [if_pos (hcan.trans hc)]
        simp only [Semaphore.grant]
        have hsame : (g.request opts).onAcquireThrows = opts.onAcquireThrows := rfl
        cases ht : opts.onAcquireThrows with
        | true =>
          simp only [hsame, ht, if_true]
          have := AcquireOutcome.thrown hin hc ht hes
          rw [Semaphore.grant_fst, hsame, ht] at this
          exact this
        | false =>
          simp only [hsame, ht, Bool.false_eq_true, if_false]
          have hquiet : ∀ e ∈ Event.stats (g.semaphore.active + (g.request opts).weight) :: es,
              e.Quiet := by
            simpa [Event.Quiet] using hes
          have hlast : ∀ e ∈ [Event.admitted g.nextId (g.breaker.maybeHalfOpen g.now).1],
              e.Quiet := by
            simp [Event.Quiet]
          have hgr : Grant.id ⟨g.nextId, (g.request opts).weight,
              g.semaphore.active + (g.request opts).weight, g.semaphore.limit,
              g.semaphore.hardCap⟩ = g.nextId := rfl
          have := AcquireOutcome.granted hin hc ht hgr hquiet hlast
          rw [Semaphore.grant_fst, hsame, ht] at this
          exact this
      | false =>
        rw [if_neg (by rw [hcan, hc]; simp)]
        unfold Semaphore.enqueue
        by_cases hfull : g.semaphore.maxQueueDepth ≤ (g.semaphore.waiters.length : Int)
        · simp only [ge_iff_le, if_pos hfull]
          exact .refused (.inr ⟨hc, hfull⟩) (.inr (.inr rfl)) hes
        · simp only [ge_iff_le, if_neg hfull]
          have hlast : ∀ e ∈ [Event.stats g.semaphore.active,
              .admitted g.nextId (g.breaker.maybeHalfOpen g.now).1], e.Quiet := by
            simp [Event.Quiet]
          exact .queued hin hc (Int.not_le.mp hfull) rfl hes hlast

end Acquire

end UmansGate.Limiter
