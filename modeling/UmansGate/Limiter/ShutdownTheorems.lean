/-
UmansGate.Limiter.ShutdownTheorems — what happens at a gate that is shut
down.

`shutdown` empties the queue, the counters and the pending releases, and a
`release` that comes later does nothing. `acquire` does not look at the
flag: a request that is still in flight gets a permit of the closed gate,
or a place in its queue (`acquire_after_shutdown`). The gate stays closed
exactly as long as every such call is turned away by its weight, by the
breaker or by a full queue.
-/
import UmansGate.Limiter.AcquireTheorems

namespace UmansGate.Limiter

open UmansGate.Lib Relation Semaphore

/-- The gate `g₀` was shut down and `g` comes after it: nothing is active,
nobody waits, no permit was granted since, and every call was rejected. -/
structure Final (g₀ g : Gate) : Prop where
  active : g.semaphore.active = 0
  waiters : g.semaphore.waiters = []
  since : ∃ es, g.semaphore.log = es ++ g₀.semaphore.log ∧ (∀ gr, .granted gr ∉ es) ∧
    ∀ id, g₀.nextId ≤ id → id < g.nextId → ∃ code, .rejected id code ∈ es

/-- The state that a shutdown leaves and no release changes. -/
structure AtRest (s : Semaphore) : Prop where
  active : s.active = 0
  waiters : s.waiters = []
  requested : s.shutdownRequested = true
  timer : s.releaseTimer = none
  pending : s.pendingReleases = []

section Shutdown

variable [ShareRounding]

omit [ShareRounding] in
theorem atRest_shutdown (s : Semaphore) : AtRest s.shutdown := by
  obtain ⟨q, es, -, heq⟩ := s.shutdown_eq
  rw [heq]
  exact ⟨rfl, rfl, rfl, rfl, rfl⟩

/-- Nothing moves a semaphore at rest, and no permit is granted. -/
theorem AtRest.move {n : Nat} {op : Op} {s₀ s s' : Semaphore} (h : AtRest s)
    (hm : Move n op s₀ s s') :
    AtRest s' ∧ LogGrows (fun e => ∀ gr, e ≠ .granted gr) s s' := by
  cases hm with
  | @note e he =>
    refine ⟨{ h with }, [e], rfl, fun e' he' gr => ?_⟩
    obtain rfl := List.mem_singleton.mp he'
    rintro rfl
    exact he
  | grantWaiter _ hs _ _ => simp [h.waiters] at hs
  | grantThrown _ hs _ _ _ _ => simp [h.waiters] at hs
  | leave _ hw _ _ => simp [h.waiters] at hw
  | @release now id _ =>
    refine ⟨?_, ?_⟩
    · unfold Semaphore.release releasePermit
      split
      · exact h
      · split
        · rw [if_pos h.requested]
          exact { h with }
        · exact h
    · rcases s.release_cases now id with heq | ⟨p, timer, _, _, heq⟩ <;> rw [heq]
      · exact .refl _ _
      · exact .refl _ s
  | applyReleases _ =>
    have heq : s.applyReleases = { s with
        releaseTimer := none
        pendingReleases := []
        permits := s.permits.mapVals Permit.applied } := by
      rw [Semaphore.applyReleases, h.pending]
      rfl
    rw [heq]
    exact ⟨⟨h.active, h.waiters, h.requested, rfl, rfl⟩, .refl _ s⟩
  | resize _ => exact ⟨{ h with }, .refl _ s⟩
  | setHardCap _ => exact ⟨{ h with }, .refl _ s⟩
  | setSoftLimit _ => exact ⟨{ h with }, .refl _ s⟩
  | @reconfigure opts _ =>
    simp only [Semaphore.reconfigure]
    split
    · exact ⟨{ h with }, .refl _ s⟩
    · exact ⟨{ h with }, .refl _ s⟩
  | shutdown _ =>
    have hrest := atRest_shutdown s
    obtain ⟨q, es, hes, heq⟩ := s.shutdown_eq
    rw [heq] at hrest ⊢
    refine ⟨hrest, es, rfl, fun e he gr => ?_⟩
    rintro rfl
    rcases hes _ he with hclamp | ⟨w, -, hrej⟩
    · simp at hclamp
    · simp at hrej

/-- An operation that is no `acquire`. -/
theorem final_step {g₀ g : Gate} {op : Op} (hrest : AtRest g.semaphore) (h : Final g₀ g)
    (hop : ∀ opts, op ≠ .acquire opts) :
    AtRest (g.step op).semaphore ∧ Final g₀ (g.step op) := by
  obtain ⟨hid, hm⟩ := step_moves g op hop
  obtain ⟨hrest', es, hlog, hes⟩ := hm.invariant
    (I := fun s => AtRest s ∧ LogGrows (fun e => ∀ gr, e ≠ .granted gr) g.semaphore s)
    (fun a b ha hab => ⟨(ha.1.move hab).1, ha.2.trans (ha.1.move hab).2 fun _ he => he⟩)
    ⟨hrest, .refl _ _⟩
  obtain ⟨es₀, hlog₀, hnone, hrej⟩ := h.since
  refine ⟨hrest', hrest'.active, hrest'.waiters, es ++ es₀, ?_, fun gr hgr => ?_,
    fun id hlow hhigh => ?_⟩
  · rw [hlog, hlog₀, List.append_assoc]
  · rcases List.mem_append.mp hgr with hgr | hgr
    · exact hes _ hgr gr rfl
    · exact hnone gr hgr
  · obtain ⟨code, hcode⟩ := hrej id hlow (hid ▸ hhigh)
    exact ⟨code, List.mem_append_right _ hcode⟩

/-- An `acquire` leaves the gate closed exactly where it is refused. -/
theorem final_acquire_iff {g₀ g : Gate} (hrest : AtRest g.semaphore) (h : Final g₀ g)
    (opts : AcquireOptions) :
    (Final g₀ (g.acquire opts) ↔ g.Refuses opts) ∧
      (Final g₀ (g.acquire opts) → AtRest (g.acquire opts).semaphore) := by
  have hid : (g.acquire opts).nextId = g.nextId + 1 := (acquire_effect g.semaphore g opts).1
  have hout := acquire_outcome g opts
  generalize hs : (g.acquire opts).semaphore = s at hout
  have hraised : g.LetsIn opts →
      s.active = g.semaphore.active + (g.request opts).weight → ¬ Final g₀ (g.acquire opts) := by
    intro hin hact hfinal
    have := hin.1
    have := hfinal.active
    rw [hs, hact, hrest.active] at this
    omega
  have hnot : ∀ hno : ¬ Final g₀ (g.acquire opts), ¬ g.Refuses opts →
      (Final g₀ (g.acquire opts) ↔ g.Refuses opts) ∧ (Final g₀ (g.acquire opts) → AtRest s) :=
    fun hno hin => ⟨iff_of_false hno hin, fun hfinal => absurd hfinal hno⟩
  cases hout with
  | @refused code es hrefused _ hes =>
    refine ⟨iff_of_true ?_ hrefused, fun _ => { hrest with }⟩
    obtain ⟨es₀, hlog₀, hnone, hrej⟩ := h.since
    refine ⟨by rw [hs]; exact hrest.active, by rw [hs]; exact hrest.waiters,
      .rejected g.nextId code :: es ++ es₀, ?_, fun gr hgr => ?_, fun id hlow hhigh => ?_⟩
    · rw [hs]
      simp [hlog₀]
    · rcases List.mem_append.mp hgr with hgr | hgr
      · rcases List.mem_cons.mp hgr with heq | hgr
        · cases heq
        · exact hes _ hgr
      · exact hnone gr hgr
    · by_cases hnew : id = g.nextId
      · exact ⟨code, by simp [hnew]⟩
      · obtain ⟨code', hcode'⟩ := hrej id hlow (by omega)
        exact ⟨code', List.mem_append_right _ hcode'⟩
  | granted hin hc _ _ _ _ =>
    refine hnot (hraised hin (by rw [grant_fst])) ?_
    rintro (hno | ⟨hfalse, -⟩)
    · exact hno hin
    · rw [hc] at hfalse
      cases hfalse
  | thrown hin hc _ _ =>
    refine hnot (hraised hin (by rw [grant_fst])) ?_
    rintro (hno | ⟨hfalse, -⟩)
    · exact hno hin
    · rw [hc] at hfalse
      cases hfalse
  | queued hin _ hroom _ _ _ =>
    refine hnot (fun hfinal => ?_) ?_
    · have := hfinal.waiters
      simp [hs] at this
    · rintro (hno | ⟨-, hfull⟩)
      · exact hno hin
      · omega

/-- After a shutdown of any gate, the gate stays closed through a run
exactly where every `acquire` of the run is refused. -/
theorem shutdown_final_iff (g : Gate) (ops : List Op) :
    (∀ pre, pre <+: ops →
        Final (g.step .shutdown) (Lib.run Gate.step (g.step .shutdown) pre)) ↔
      StepsMeet Gate.step (fun g op => ∀ opts, op = .acquire opts → g.Refuses opts)
        (g.step .shutdown) ops := by
  have hrest₀ : AtRest (g.step .shutdown).semaphore := atRest_shutdown g.semaphore
  have hfinal₀ : Final (g.step .shutdown) (g.step .shutdown) :=
    ⟨hrest₀.active, hrest₀.waiters, [], rfl, by simp, fun id hlow hhigh => by omega⟩
  refine throughout_iff_stepsMeet_of_aux (J := fun g' => AtRest g'.semaphore) ?_ ?_ hrest₀ hfinal₀
  · intro g' op _ hrest h
    cases op with
    | acquire opts =>
      refine (final_acquire_iff hrest h opts).1.trans ⟨fun hr opts' heq => ?_,
        fun hr => hr opts rfl⟩
      cases heq
      exact hr
    | _ => exact iff_of_true (final_step hrest h (by simp)).2 (by simp)
  · intro g' op _ hrest h hnext
    cases op with
    | acquire opts => exact (final_acquire_iff hrest h opts).2 hnext
    | _ => exact (final_step hrest h (by simp)).1

end Shutdown

section Runs

attribute [local instance] exactShare

/-- A gate that is shut down grants the next request. -/
theorem acquire_after_shutdown :
    ¬ ∀ pre, pre <+: [Op.acquire {}] →
      Final ((Gate.new twoSlots).step .shutdown)
        (Lib.run Gate.step ((Gate.new twoSlots).step .shutdown) pre) := by
  intro h
  have hactive := (h [.acquire {}] List.prefix_rfl).active
  revert hactive
  decide +kernel

end Runs

end UmansGate.Limiter
