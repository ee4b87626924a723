/-
UmansGate.Limiter.ProbeTheorems — the half-open probe of the circuit
breaker and the requests that carry it.

While a probe is in flight every `acquire` is turned away, so the flag
`halfOpenProbeStarted` must come with a live probe: a queued request or a
permit in use that was let through as the probe. Three steps lose it: the
probe is refused because the queue is full, its `onAcquire` throws, or
its permit is released with no outcome recorded. `Gate.KeepsProbe`
excludes exactly these, and under it the flag always has its probe.
-/
import UmansGate.Limiter.Moves

namespace UmansGate.Limiter

open UmansGate.Lib Semaphore

/-- The permit is in use and its request was let through as the probe. -/
def Permit.HeldProbe (p : Permit) : Prop := p.wasProbe = true ∧ p.stage = .held

/-- A probe waits in the queue or holds a permit. -/
def LiveProbe (s : Semaphore) : Prop :=
  (∃ w ∈ s.waiters, w.wasProbe = true) ∨ ∃ id p, s.permits.get? id = some p ∧ p.HeldProbe

/-- A probe waits for its permit, or holds one. A waiter that has its permit
can still be in the queue, when another one's callback threw. -/
def OpenProbe (s : Semaphore) : Prop :=
  (∃ w ∈ s.waiters, w.wasProbe = true ∧ s.permits.get? w.id = none) ∨
    ∃ id p, s.permits.get? id = some p ∧ p.HeldProbe

/-- The same, leaving one permit out of account. -/
def OpenProbeBesides (s : Semaphore) (id : Nat) : Prop :=
  (∃ w ∈ s.waiters, w.wasProbe = true ∧ s.permits.get? w.id = none) ∨
    ∃ id' p, id' ≠ id ∧ s.permits.get? id' = some p ∧ p.HeldProbe

/-- Requests before the `n`-th, each known as a probe or not by its number. -/
structure Tags (f : Nat → Bool) (n : Nat) (s : Semaphore) : Prop where
  waiter : ∀ w ∈ s.waiters, w.id < n ∧ w.wasProbe = f w.id
  permit : ∀ id p, s.permits.get? id = some p → id < n ∧ p.wasProbe = f id

/-- The step does not lose the probe: an `acquire` that starts the probe is
granted or queued, and neither `release` nor `shutdown` takes the last
live probe while its outcome is open. -/
def Gate.KeepsProbe [ShareRounding] (g : Gate) : Op → Prop
  | .acquire opts =>
    0 < roundNum (opts.weight.getD 1 * SCALE) →
    (g.breaker.maybeHalfOpen g.now).1 = .half_open →
      if g.semaphore.canGrant (opts.intention.getD "main")
        (roundNum (opts.weight.getD 1 * SCALE)) then opts.onAcquireThrows = false
      else (g.semaphore.waiters.length : Int) < g.semaphore.maxQueueDepth
  | .release id => g.breaker.probing → OpenProbeBesides g.semaphore id
  | .shutdown => g.breaker.probing → ∃ id p, g.semaphore.permits.get? id = some p ∧ p.HeldProbe
  | _ => True

section Keeping

variable [ShareRounding] {f : Nat → Bool} {n m : Nat} {op : Op} {s₀ s s' : Semaphore}

/-! ## Tags -/

omit [ShareRounding] in
theorem Permit.applied_wasProbe (p : Permit) : p.applied.wasProbe = p.wasProbe := by
  unfold Permit.applied
  split <;> rfl

omit [ShareRounding] in
/-- A new permit with the tag of its request. -/
theorem Tags.set (h : Tags f n s) {id : Nat} {p : Permit} (hid : id < n) (hp : p.wasProbe = f id) :
    ∀ id' p', (s.permits.set id p).get? id' = some p' → id' < n ∧ p'.wasProbe = f id' := by
  intro id' p' hget
  rw [Dict.get?_set] at hget
  split at hget
  · rename_i heq
    subst heq
    rw [← Option.some.inj hget]
    exact ⟨hid, hp⟩
  · exact h.permit id' p' hget

omit [ShareRounding] in
/-- A permit that is resolved carries the tag of its request. -/
theorem Tags.resolve (h : Tags f n s) {r : Request} (hid : r.id < n) (hr : r.wasProbe = f r.id) :
    ∀ id' p', (resolvePermit s.permits r).get? id' = some p' → id' < n ∧ p'.wasProbe = f id' := by
  unfold resolvePermit
  split
  · exact h.permit
  · exact h.set hid hr

omit [ShareRounding] in
/-- The next request has no permit yet. -/
theorem Tags.permit_new (h : Tags f n s) : s.permits.get? n = none := by
  cases hp : s.permits.get? n with
  | none => rfl
  | some p => exact absurd (h.permit n p hp).1 (Nat.lt_irrefl n)

theorem Tags.move (h₀ : Tags f n s₀) (h : Tags f n s) (hm : Move m op s₀ s s') : Tags f n s' := by
  have hw : ∀ x ∈ s'.waiters, x.id < n ∧ x.wasProbe = f x.id := by
    intro x hx
    rcases hm.mem_waiters hx with ⟨y, hy, heq⟩ | ⟨y, hy, heq⟩
    · have := h.waiter y hy
      rwa [heq] at this
    · have := h₀.waiter y hy
      rwa [heq] at this
  refine ⟨hw, ?_⟩
  cases hm with
  | note _ => exact h.permit
  | @grantWaiter pre w post _ hs _ ht =>
    obtain ⟨hid, hf⟩ := h.waiter w (by simp [hs])
    rw [Semaphore.grantWaiter, grant_fst, decQueued_eq, ht]
    exact h.resolve hid hf
  | @grantThrown pre w post visited _ hs _ ht _ _ =>
    rw [Semaphore.grantWaiter, grant_fst, decQueued_eq, ht]
    exact h.permit
  | leave _ _ _ _ =>
    rw [Semaphore.leave, decQueued_eq]
    exact h.permit
  | @release now id _ =>
    rcases s.release_cases now id with heq | ⟨p, timer, hp, _, heq⟩
    · rw [heq]
      exact h.permit
    · rw [heq]
      obtain ⟨hid, hf⟩ := h.permit id p hp
      exact h.set hid hf
  | applyReleases _ =>
    obtain ⟨a, d, es, _, heq⟩ := s.applyReleases_eq
    rw [heq]
    intro id p hp
    rw [Dict.get?_mapVals, Option.map_eq_some_iff] at hp
    obtain ⟨p', hp', rfl⟩ := hp
    rw [Permit.applied_wasProbe]
    exact h.permit id p' hp'
  | resize _ => exact h.permit
  | setHardCap _ => exact h.permit
  | setSoftLimit _ => exact h.permit
  | @reconfigure opts _ =>
    simp only [Semaphore.reconfigure]
    split <;> exact h.permit
  | shutdown _ =>
    obtain ⟨q, es, _, heq⟩ := s.shutdown_eq
    rw [heq]
    exact h.permit

omit [ShareRounding] in
theorem Tags.update (h : Tags f n s) (b : Bool) : Tags (Function.update f n b) (n + 1) s := by
  refine ⟨fun w hw => ?_, fun id p hp => ?_⟩
  · obtain ⟨hid, hf⟩ := h.waiter w hw
    rw [Function.update_of_ne (by omega)]
    exact ⟨by omega, hf⟩
  · obtain ⟨hid, hf⟩ := h.permit id p hp
    rw [Function.update_of_ne (by omega)]
    exact ⟨by omega, hf⟩

/-- The new request brings its own tag. -/
theorem Tags.intake {opts : AcquireOptions} (h : Tags f n s) (hin : Intake n opts s s') :
    ∃ f', Tags f' (n + 1) s' := by
  cases hin with
  | @grant r hid _ _ _ =>
    have h' := h.update r.wasProbe
    refine ⟨Function.update f n r.wasProbe, ?_, ?_⟩
    · rw [grant_fst]
      exact h'.waiter
    · rw [grant_fst]
      cases r.onAcquireThrows with
      | true => exact h'.permit
      | false => exact h'.resolve (by omega) (by rw [hid, Function.update_self])
  | @enqueue _ w hid _ _ _ henq =>
    have h' := h.update w.wasProbe
    obtain ⟨-, rfl⟩ := enqueue_eq henq
    refine ⟨Function.update f n w.wasProbe, fun x hx => ?_, h'.permit⟩
    rcases List.mem_append.mp hx with hx | hx
    · exact h'.waiter x hx
    · rw [List.mem_singleton.mp hx, hid, Function.update_self]
      exact ⟨by omega, rfl⟩

theorem tags_step {g : Gate} (h : ∃ f, Tags f g.nextId g.semaphore) (op : Op) :
    ∃ f, Tags f (g.step op).nextId (g.step op).semaphore := by
  obtain ⟨f, hf⟩ := h
  by_cases hop : ∃ opts, op = .acquire opts
  · obtain ⟨opts, rfl⟩ := hop
    obtain ⟨hid, s, s', h₁, h₂, h₃⟩ := acquire_effect g.semaphore g opts
    have hnote : ∀ {f n} {a b : Semaphore}, Tags f n a →
        Move g.nextId (.acquire opts) g.semaphore a b → Tags f n b := by
      intro f n a b ha hm
      obtain ⟨e, -, rfl⟩ := hm.note_of_acquire
      exact ⟨ha.waiter, ha.permit⟩
    have hs : Tags f g.nextId s := h₁.invariant (fun _ _ => hnote) hf
    have hs' : ∃ f', Tags f' (g.nextId + 1) s' := by
      rcases h₂ with rfl | hin
      · exact ⟨_, hs.update false⟩
      · exact hs.intake hin
    obtain ⟨f', hf'⟩ := hs'
    refine ⟨f', ?_⟩
    show Tags f' (g.acquire opts).nextId (g.acquire opts).semaphore
    rw [hid]
    exact h₃.invariant (fun _ _ => hnote) hf'
  · obtain ⟨hid, hm⟩ := step_moves g op fun opts h => hop ⟨opts, h⟩
    refine ⟨f, ?_⟩
    rw [hid]
    exact hm.invariant (fun _ _ h => Tags.move hf h) hf

/-! ## The open probe -/

omit [ShareRounding] in
theorem OpenProbe.live (h : OpenProbe s) : LiveProbe s := by
  rcases h with ⟨w, hw, hprobe, -⟩ | h
  · exact .inl ⟨w, hw, hprobe⟩
  · exact .inr h

omit [ShareRounding] in
/-- A permit that is resolved ends the wait of its request only. -/
theorem OpenProbe.resolve (ht : Tags f n s) {r : Request} (hr : r.wasProbe = f r.id)
    (h : OpenProbe s) (hsub : ∀ x ∈ s.waiters, x ∈ s'.waiters ∨ x.toRequest = r)
    (hper : s'.permits = resolvePermit s.permits r) : OpenProbe s' := by
  rcases h with ⟨x, hx, hxp, hnone⟩ | ⟨id, p, hp, hprobe⟩
  · by_cases hid : r.id = x.id
    · -- the waiter gets the permit
      refine .inr ⟨x.id, ⟨r.weight, r.intention, r.wasProbe, .held⟩, ?_, ?_, rfl⟩
      · rw [hper, get?_resolvePermit, hnone, if_pos hid, Option.none_or]
      · rw [← (ht.waiter x hx).2.symm.trans hxp, ← hid]
        exact hr
    · rcases hsub x hx with hx' | heq
      · refine .inl ⟨x, hx', hxp, ?_⟩
        rw [hper, get?_resolvePermit, hnone, if_neg hid, Option.none_or]
      · exact absurd (congrArg Request.id heq).symm hid
  · refine .inr ⟨id, p, ?_, hprobe⟩
    rw [hper, get?_resolvePermit, hp, Option.some_or]

/-- Only a release, a removal and a shutdown can end an open probe. -/
theorem OpenProbe.move (ht : Tags f n s) (h : OpenProbe s) (hm : Move m op s₀ s s')
    (h₁ : ¬ op.Dequeues) (h₂ : ∀ id, op ≠ .release id) (h₃ : op ≠ .shutdown) : OpenProbe s' := by
  cases hm with
  | note _ => exact h
  | @grantWaiter pre w post _ hs _ htw =>
    refine h.resolve ht (ht.waiter w (by simp [hs])).2 (fun x hx => ?_) ?_
    · rw [hs, List.mem_append, List.mem_cons] at hx
      rcases hx with hx | rfl | hx
      · exact .inl (List.mem_append_left _ hx)
      · exact .inr rfl
      · exact .inl (List.mem_append_right _ hx)
    · rw [Semaphore.grantWaiter, grant_fst, decQueued_eq, htw]
      rfl
  | @grantThrown pre w post visited _ hs _ htw hv _ =>
    have hper : (s.grantWaiter w).permits = s.permits := by
      rw [Semaphore.grantWaiter, grant_fst, decQueued_eq, htw]
      rfl
    rcases h with ⟨x, hx, hxp, hnone⟩ | ⟨id, p, hp, hprobe⟩
    · have hnone' : (s.grantWaiter w).permits.get? x.id = none := by rw [hper, hnone]
      rw [hs, List.mem_append, List.mem_cons] at hx
      rcases hx with hx | rfl | hx
      · exact .inl ⟨x, List.mem_append_left _ (hv.subset hx), hxp, hnone'⟩
      · exact .inl ⟨{ x with timeout := none }, by simp, hxp, hnone'⟩
      · exact .inl ⟨x, by simp [hx], hxp, hnone'⟩
    · refine .inr ⟨id, p, ?_, hprobe⟩
      show (s.grantWaiter w).permits.get? id = _
      rw [hper, hp]
  | leave hop => exact absurd hop h₁
  | release hop => exact absurd hop (h₂ _)
  | applyReleases _ =>
    obtain ⟨a, d, es, _, heq⟩ := s.applyReleases_eq
    rw [heq]
    rcases h with ⟨x, hx, hxp, hnone⟩ | ⟨id, p, hp, hprobe⟩
    · refine .inl ⟨x, hx, hxp, ?_⟩
      show (s.permits.mapVals _).get? x.id = _
      rw [Dict.get?_mapVals, hnone, Option.map_none]
    · refine .inr ⟨id, p, ?_, hprobe⟩
      show (s.permits.mapVals _).get? id = _
      rw [Dict.get?_mapVals, hp, Option.map_some, Permit.applied, if_neg (by simp [hprobe.2])]
  | resize _ => exact h
  | setHardCap _ => exact h
  | setSoftLimit _ => exact h
  | @reconfigure opts _ =>
    simp only [Semaphore.reconfigure]
    split <;> exact h
  | shutdown hop => exact absurd hop h₃

/-! ## The operations -/

/-- A probe that is granted or queued is open. -/
theorem grantOrEnqueue_open (g : Gate) {r : Request} (seen : BreakerState)
    (hr : r.wasProbe = true) (hnew : g.semaphore.permits.get? r.id = none)
    (hroom : if g.semaphore.canGrant r.intention r.weight then r.onAcquireThrows = false
      else (g.semaphore.waiters.length : Int) < g.semaphore.maxQueueDepth) :
    OpenProbe (g.grantOrEnqueue r seen).semaphore := by
  simp only [Gate.grantOrEnqueue]
  split
  · rename_i hc
    rw [if_pos hc] at hroom
    have hsnd := grant_snd g.semaphore r
    have hper : (g.semaphore.grant r).1.permits =
        g.semaphore.permits.set r.id ⟨r.weight, r.intention, r.wasProbe, .held⟩ := by
      rw [grant_fst, hroom, resolvePermit_of_none hnew]
      rfl
    split
    · rename_i s heq
      rw [heq] at hper
      refine .inr ⟨r.id, ⟨r.weight, r.intention, r.wasProbe, .held⟩, ?_, hr, rfl⟩
      show s.permits.get? r.id = _
      rw [hper, Dict.get?_set_self]
    · rename_i s heq
      rw [heq, hroom] at hsnd
      exact absurd hsnd (by simp)
  · rename_i hc
    rw [if_neg hc] at hroom
    split
    · rename_i hfull
      rw [Semaphore.enqueue, if_neg (by omega)] at hfull
      exact absurd hfull (by simp)
    · rename_i s henq
      obtain ⟨-, rfl⟩ := enqueue_eq henq
      exact .inl ⟨_, List.mem_append_right _ (List.mem_singleton.mpr rfl), hr, hnew⟩

omit [ShareRounding] in
theorem withBreaker_open {g : Gate} (h : OpenProbe g.semaphore) (b : CircuitBreaker) :
    OpenProbe (g.withBreaker b).semaphore := by
  unfold Gate.withBreaker
  dsimp only
  split <;> exact h

/-- `acquire` starts a probe only together with an open one. -/
theorem acquire_open {g : Gate} {opts : AcquireOptions} (ht : Tags f g.nextId g.semaphore)
    (h : g.breaker.probing → OpenProbe g.semaphore) (hkeep : g.KeepsProbe (.acquire opts))
    (hp : (g.acquire opts).breaker.probing) : OpenProbe (g.acquire opts).semaphore := by
  simp only [Gate.acquire] at hp ⊢
  split at hp
  · rename_i hw
    rw [if_pos hw]
    exact h hp
  · rename_i hw
    rw [if_neg hw]
    have hcases := g.breaker.maybeHalfOpen_cases g.now
    split at hp
    · rename_i hopen
      rw [if_pos hopen]
      -- the caller is turned away, so the breaker is the old one
      have hb : (g.breaker.maybeHalfOpen g.now).2 = g.breaker := by
        rcases hcases with ⟨hb, _⟩ | ⟨_, _, heq⟩
        · exact hb
        · rw [heq] at hopen
          exact absurd hopen (by simp)
      refine withBreaker_open (g := { g with nextId := g.nextId + 1 }) (h ?_) _
      rwa [← hb]
    · rename_i hopen
      rw [if_neg hopen]
      rw [grantOrEnqueue_breaker] at hp
      have hp : (g.breaker.maybeHalfOpen g.now).2.probing := hp
      have hhalf : (g.breaker.maybeHalfOpen g.now).1 = .half_open := by
        rw [← CircuitBreaker.maybeHalfOpen_state hopen]
        exact hp.1
      have hroom := hkeep (by omega) hhalf
      obtain ⟨es, -, heq⟩ := withBreaker_eq 0 .recordSuccess { g with nextId := g.nextId + 1 }
        (g.breaker.maybeHalfOpen g.now).2
      rw [heq]
      exact grantOrEnqueue_open _ _ (by simp [hhalf]) ht.permit_new hroom

omit [ShareRounding] in
/-- A removal leaves an open probe, or no probe in flight. -/
theorem dequeue_open {g : Gate} {w : Waiter} {code : GateErrorCode}
    (hw : w ∈ g.semaphore.waiters) (h : g.breaker.probing → OpenProbe g.semaphore)
    (hp : (g.dequeue w code).breaker.probing) : OpenProbe (g.dequeue w code).semaphore := by
  obtain ⟨es, -, heq⟩ := dequeue_semaphore 0 .recordSuccess g code hw
  rw [heq, Semaphore.leave, decQueued_eq]
  simp only [Gate.dequeue, Semaphore.removeWaiter, if_pos hw] at hp
  cases hprobe : w.wasProbe with
  | true =>
    rw [if_pos hprobe] at hp
    exact absurd hp (CircuitBreaker.not_probing_resetHalfOpenProbe _ _)
  | false =>
    rw [if_neg (by simp [hprobe])] at hp
    rcases h hp with ⟨x, hx, hxp, hnone⟩ | hper
    · refine .inl ⟨x, ?_, hxp, hnone⟩
      have hne : x ≠ w := by
        rintro rfl
        rw [hprobe] at hxp
        exact absurd hxp (by simp)
      exact (List.mem_erase_of_ne hne).mpr hx
    · exact .inr hper

/-- An operation that leaves the breaker alone and keeps its probes. -/
theorem step_open_of_moves {g : Gate} {op : Op} (ht : ∃ f, Tags f g.nextId g.semaphore)
    (h : g.breaker.probing → OpenProbe g.semaphore) (hb : (g.step op).breaker.probing →
      g.breaker.probing) (h₀ : ¬ op.Acquires) (h₁ : ¬ op.Dequeues) (h₂ : ∀ id, op ≠ .release id)
    (h₃ : op ≠ .shutdown) (hp : (g.step op).breaker.probing) :
    OpenProbe (g.step op).semaphore := by
  obtain ⟨f, hf⟩ := ht
  obtain ⟨-, hm⟩ := step_moves g op fun opts heq => h₀ ⟨opts, heq⟩
  have hinv : Tags f g.nextId (g.step op).semaphore ∧ OpenProbe (g.step op).semaphore := by
    refine hm.invariant (I := fun s => Tags f g.nextId s ∧ OpenProbe s) ?_ ⟨hf, h (hb hp)⟩
    intro a b hp hab
    obtain ⟨hta, hoa⟩ := hp
    exact ⟨hf.move hta hab, hoa.move hta hab h₁ h₂ h₃⟩
  exact hinv.2

/-- What one step preserves. -/
theorem probe_step {g : Gate} {op : Op} (ht : ∃ f, Tags f g.nextId g.semaphore)
    (h : g.breaker.probing → OpenProbe g.semaphore) (hkeep : g.KeepsProbe op) :
    (g.step op).breaker.probing → OpenProbe (g.step op).semaphore := by
  cases op with
  | acquire opts => exact acquire_open ht.choose_spec h hkeep
  | queueTimeout id =>
    simp only [Gate.step]
    split
    · exact h
    · rename_i w hw
      split
      · exact h
      · split
        · exact dequeue_open (waiter?_mem hw).1 h
        · exact h
  | abort id =>
    simp only [Gate.step]
    split
    · exact h
    · split
      · exact h
      · rename_i w hw
        exact dequeue_open (g := { g with aborted := id :: g.aborted }) (waiter?_mem hw).1 h
  | release id =>
    intro hp
    show OpenProbe (g.semaphore.release g.now id)
    rcases g.semaphore.release_cases g.now id with heq | ⟨p, timer, hget, _, heq⟩
    · rw [heq]
      exact h hp
    · rw [heq]
      rcases hkeep hp with ⟨w, hw, hwp, hnone⟩ | ⟨id', p', hne, hget', hprobe⟩
      · refine .inl ⟨w, hw, hwp, ?_⟩
        have hne : id ≠ w.id := by
          rintro rfl
          rw [hnone] at hget
          exact absurd hget (by simp)
        show (g.semaphore.permits.set id _).get? w.id = _
        rw [Dict.get?_set, if_neg hne, hnone]
      · refine .inr ⟨id', p', ?_, hprobe⟩
        show (g.semaphore.permits.set id _).get? id' = _
        rw [Dict.get?_set, if_neg (Ne.symm hne), hget']
  | cooldownExpiry =>
    refine step_open_of_moves ht h ?_ (by simp [Op.Acquires]) (by simp [Op.Dequeues]) (by simp)
      (by simp)
    simp only [Gate.step]
    split
    · exact id
    · split <;> exact id
  | tick ms => exact h
  | resize newLimit =>
    refine step_open_of_moves ht h ?_ (by simp [Op.Acquires]) (by simp [Op.Dequeues]) (by simp)
      (by simp)
    intro hp
    rwa [Gate.step, afterSetter_breaker] at hp
  | setHardCap newHardCap =>
    refine step_open_of_moves ht h ?_ (by simp [Op.Acquires]) (by simp [Op.Dequeues]) (by simp)
      (by simp)
    intro hp
    rwa [Gate.step, afterSetter_breaker] at hp
  | setSoftLimit newSoftLimit =>
    refine step_open_of_moves ht h ?_ (by simp [Op.Acquires]) (by simp [Op.Dequeues]) (by simp)
      (by simp)
    intro hp
    rwa [Gate.step, afterSetter_breaker] at hp
  | reconfigure opts =>
    exact step_open_of_moves ht h (fun hp => hp) (by simp [Op.Acquires]) (by simp [Op.Dequeues])
      (by simp) (by simp)
  | record429 type =>
    refine step_open_of_moves ht h ?_ (by simp [Op.Acquires]) (by simp [Op.Dequeues]) (by simp)
      (by simp)
    intro hp
    have hp : (g.breaker.record429 type g.now).probing := by
      simp only [Gate.step] at hp
      split at hp <;> exact hp
    rcases g.breaker.record429_cases type g.now with ⟨h₁, h₂⟩ | ⟨_, h₁, _⟩
    · exact ⟨h₁ ▸ hp.1, h₂ ▸ hp.2⟩
    · rw [hp.1] at h₁
      exact absurd h₁ (by simp)
  | recordSuccess =>
    refine step_open_of_moves ht h ?_ (by simp [Op.Acquires]) (by simp [Op.Dequeues]) (by simp)
      (by simp)
    intro hp
    have hp : g.breaker.recordSuccess.probing := by
      simp only [Gate.step] at hp
      split at hp <;> exact hp
    rcases g.breaker.recordSuccess_cases with ⟨heq, _⟩ | ⟨_, h₁, _⟩
    · rwa [heq] at hp
    · rw [hp.1] at h₁
      exact absurd h₁ (by simp)
  | shutdown =>
    intro hp
    show OpenProbe g.semaphore.shutdown
    obtain ⟨q, es, _, heq⟩ := g.semaphore.shutdown_eq
    rw [heq]
    exact .inr (hkeep hp)

/-- In every run whose steps keep the probe, a half-open breaker that
turns callers away has a live probe. -/
theorem probe_live (opts : ConcurrencyGateOptions) (ops : List Op)
    (hops : StepsMeet Gate.step Gate.KeepsProbe (Gate.new opts) ops)
    (hp : (Gate.after opts ops).breaker.probing) : LiveProbe (Gate.after opts ops).semaphore := by
  have h : (∃ f, Tags f (Gate.after opts ops).nextId (Gate.after opts ops).semaphore) ∧
      ((Gate.after opts ops).breaker.probing → OpenProbe (Gate.after opts ops).semaphore) := by
    refine run_invariant_of_stepsMeet (I := fun g : Gate =>
      (∃ f, Tags f g.nextId g.semaphore) ∧ (g.breaker.probing → OpenProbe g.semaphore))
      ?_ ⟨⟨fun _ => false, ?_⟩, ?_⟩ hops
    · intro g op hp hkeep
      obtain ⟨ht, hl⟩ := hp
      exact ⟨tags_step ht op, probe_step ht hl hkeep⟩
    · exact ⟨by simp [Gate.new, Semaphore.new], by simp [Gate.new, Semaphore.new]⟩
    · intro hnew
      exact absurd hnew.1 (by simp [Gate.new, CircuitBreaker.new])
  exact (h.2 hp).live

end Keeping

section Runs

attribute [local instance] exactShare

theorem LiveProbe.mem {s : Semaphore} (h : LiveProbe s) :
    (∃ w ∈ s.waiters, w.wasProbe = true) ∨
      ∃ e ∈ s.permits, e.2.wasProbe = true ∧ e.2.stage = .held := by
  rcases h with h | ⟨id, p, hp, hprobe⟩
  · exact .inl h
  · exact .inr ⟨(id, p), Dict.mem_of_get? hp, hprobe⟩

/-- Two requests run, one waits and fills the queue, a 429 opens the
breaker, and the call that half-opens it finds the queue full. -/
def refusedProbe : List Op :=
  [.acquire {}, .acquire {}, .acquire {}, .record429 .concurrency, .tick 20, .acquire {}]

/-- The probe is granted and ends without an outcome that is recorded. -/
def silentProbe : List Op :=
  [.acquire {}, .record429 .concurrency, .tick 20, .acquire {}, .release 1]

/-- The breaker waits for a probe that nobody carries. -/
theorem probe_lost :
    ((Gate.after { twoSlots with maxQueueDepth := 1 } refusedProbe).breaker.probing ∧
      ¬ LiveProbe (Gate.after { twoSlots with maxQueueDepth := 1 } refusedProbe).semaphore) ∧
    (Gate.after twoSlots silentProbe).breaker.probing ∧
      ¬ LiveProbe (Gate.after twoSlots silentProbe).semaphore := by
  refine ⟨⟨by decide +kernel, fun h => ?_⟩, by decide +kernel, fun h => ?_⟩
  · have hno : ¬ ((∃ w ∈ (Gate.after { twoSlots with maxQueueDepth := 1 }
          refusedProbe).semaphore.waiters, w.wasProbe = true) ∨
        ∃ e ∈ (Gate.after { twoSlots with maxQueueDepth := 1 } refusedProbe).semaphore.permits,
          e.2.wasProbe = true ∧ e.2.stage = .held) := by
      decide +kernel
    exact hno h.mem
  · have hno : ¬ ((∃ w ∈ (Gate.after twoSlots silentProbe).semaphore.waiters,
          w.wasProbe = true) ∨
        ∃ e ∈ (Gate.after twoSlots silentProbe).semaphore.permits,
          e.2.wasProbe = true ∧ e.2.stage = .held) := by
      decide +kernel
    exact hno h.mem

/-- Until its permit is released the probe of that run is live. -/
theorem probe_live_silentProbe :
    LiveProbe (Gate.after twoSlots (silentProbe.take 4)).semaphore := by
  refine probe_live twoSlots (silentProbe.take 4) ⟨?_, trivial, trivial, ?_, trivial⟩
    (by decide +kernel)
  · unfold Gate.KeepsProbe
    decide +kernel
  · unfold Gate.KeepsProbe
    decide +kernel

end Runs

end UmansGate.Limiter
