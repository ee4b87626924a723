/-
UmansGate.Limiter.CallbackTheorems — grants whose callback throws.

`grant` raises the counters, runs `onAcquire` and then hands out the
permit. Nothing takes the counts back when the callback throws. On arrival
the caller gets the exception and its slot stays counted; in a drain the
exception leaves the loop, the request stays in the queue without an
answer, and the waiters behind it are not looked at.
`throwing_callback_leaks` covers every such grant of every reachable gate.
`Unsettled` is the invariant under it: a waiter whose callback throws never
has an answer.
-/
import UmansGate.Limiter.AbortTheorems
import UmansGate.Limiter.BorrowTheorems

namespace UmansGate.Limiter

open UmansGate.Lib Relation Semaphore

/-! ## A failed grant and a rejection -/

namespace Semaphore

variable [ShareRounding]

/-- The pass of `drainWaiters` with each request whose callback throws taken
out of the queue and rejected. -/
def rejectingLoop (s : Semaphore) (remaining : List Waiter) : List Waiter → Semaphore
  | [] => { s with waiters := remaining }
  | next :: rest =>
    if s.canGrant next.intention next.weight then
      if next.onAcquireThrows then
        ((s.decQueued next.intention).note (.rejected next.id .callbackThrew)).rejectingLoop
          remaining rest
      else (s.grantWaiter next).rejectingLoop remaining rest
    else s.rejectingLoop (remaining ++ [next]) rest

end Semaphore

/-- The event grants request `id`. -/
def Event.grants (id : Nat) : Event → Bool
  | .granted gr => gr.id = id
  | _ => false

/-- `s` is as `ref`, the state with request `r` rejected instead, for
everybody else, and `r` has its answer. -/
structure CleanFailure (r : Request) (ref s : Semaphore) : Prop where
  active : s.active = ref.active
  byIntention : ∀ k, s.activeByIntention.getD k 0 = ref.activeByIntention.getD k 0
  queued : ∀ k, s.queuedByIntention.getD k 0 = ref.queuedByIntention.getD k 0
  others : ∀ w, w.id ≠ r.id → (w ∈ s.waiters ↔ w ∈ ref.waiters)
  settled : Answered s.log r.id
  /-- Every other waiter is granted as often as the pass grants it. -/
  once : ∀ id, id ≠ r.id → s.log.countP (Event.grants id) = ref.log.countP (Event.grants id)

section Failing

variable [ShareRounding]

/-- The operation makes a grant to `r` whose callback throws: `s` is the
semaphore before that grant, `ref` the one that the operation leaves when it
rejects such requests. -/
inductive Gate.FailsGrant (g : Gate) : Op → Request → Semaphore → Semaphore → Prop where
  | onArrival {opts} (hin : g.LetsIn opts)
      (hc : g.semaphore.canGrant (g.request opts).intention (g.request opts).weight = true)
      (ht : opts.onAcquireThrows = true) :
      FailsGrant g (.acquire opts) (g.request opts) g.semaphore
        (g.semaphore.note (.rejected g.nextId .callbackThrew))
  | inDrain {op s e} (hs : g.drained? op = some s) (he : e ∈ s.drainGrants [] s.waiters)
      (ht : e.2.onAcquireThrows = true) :
      FailsGrant g op e.2.toRequest e.1 (s.rejectingLoop [] s.waiters)

variable {g : Gate} {op : Op} {n m : Nat} {s₀ s s' : Semaphore} {id : Nat}

omit [ShareRounding] in
theorem drained?_drains (h : g.drained? op = some s) : op.Drains := by
  cases op with
  | cooldownExpiry | resize _ | setHardCap _ => trivial
  | _ => simp [Gate.drained?] at h

theorem mem_of_mem_drainGrants (ws : List Waiter) : ∀ (s : Semaphore) (remaining : List Waiter),
    ∀ e ∈ s.drainGrants remaining ws, e.2 ∈ ws := by
  induction ws with
  | nil => simp [drainGrants]
  | cons next rest ih =>
    intro s remaining e he
    rw [drainGrants] at he
    split at he
    · rcases List.mem_cons.mp he with rfl | he
      · exact List.mem_cons_self
      · split at he
        · simp at he
        · exact List.mem_cons_of_mem _ (ih _ _ e he)
    · exact List.mem_cons_of_mem _ (ih _ _ e he)

/-- The grant that ends a drain loop leaves the counters raised. -/
theorem drainLoop_raised (ws : List Waiter) : ∀ (s : Semaphore) (remaining visited : List Waiter),
    ∀ e ∈ s.drainGrants remaining ws, e.2.onAcquireThrows = true →
      (s.drainLoop remaining visited ws).1.active = e.1.active + e.2.weight ∧
      (s.drainLoop remaining visited ws).1.activeByIntention.getD e.2.intention 0 =
        e.1.activeByIntention.getD e.2.intention 0 + e.2.weight := by
  induction ws with
  | nil => simp [drainGrants]
  | cons next rest ih =>
    intro s remaining visited e he ht
    cases hc : s.canGrant next.intention next.weight with
    | false =>
      rw [drainGrants, hc, if_neg (by simp)] at he
      rw [drainLoop_cons_refused hc]
      exact ih _ _ _ e he ht
    | true =>
      rw [drainGrants, if_pos hc] at he
      cases hthrows : next.onAcquireThrows with
      | true =>
        rw [hthrows, if_pos rfl] at he
        obtain rfl := List.mem_singleton.mp he
        rw [drainLoop_cons_thrown hc hthrows, grantWaiter, grant_fst, decQueued_eq]
        simp
      | false =>
        rw [hthrows, if_neg (by simp)] at he
        rw [drainLoop_cons_granted hc hthrows]
        rcases List.mem_cons.mp he with rfl | he
        · rw [hthrows] at ht
          cases ht
        · exact ih _ _ _ e he ht

/-! ## Who gets an answer -/

omit [ShareRounding] in
theorem LogGrows.answered {P : Event → Prop} (h : LogGrows P s s') (hP : ∀ e, P e → ¬ e.Answers id)
    (ha : Answered s'.log id) : Answered s.log id := by
  obtain ⟨es, hlog, hes⟩ := h
  obtain ⟨e, he, hid⟩ := ha
  rw [hlog] at he
  rcases List.mem_append.mp he with he | he
  · exact absurd hid (hP e (hes e he))
  · exact ⟨e, he, hid⟩

omit [ShareRounding] in
theorem answered_decQueued {k : String} (ha : Answered (s.decQueued k).log id) :
    Answered s.log id := by
  refine (decQueued_logGrows (P := fun e => e = .clamped) rfl s k).answered ?_ ha
  rintro e rfl
  exact not_false

omit [ShareRounding] in
/-- A grant out of the queue answers its waiter, unless its callback throws. -/
theorem answered_grantWaiter {w : Waiter} (ha : Answered (s.grantWaiter w).log id) :
    Answered s.log id ∨ (w.id = id ∧ w.onAcquireThrows = false) := by
  obtain ⟨e, he, hid⟩ := ha
  rw [grantWaiter, grant_fst] at he
  cases ht : w.onAcquireThrows with
  | true =>
    simp only [ht, if_true] at he
    exact .inl (answered_decQueued ⟨e, he, hid⟩)
  | false =>
    simp only [ht, Bool.false_eq_true, if_false, List.mem_cons] at he
    rcases he with rfl | rfl | he
    · exact .inr ⟨hid, rfl⟩
    · exact absurd hid not_false
    · exact .inl (answered_decQueued ⟨e, he, hid⟩)

omit [ShareRounding] in
theorem Event.Silent.not_answers {e : Event} (he : e.Silent n op) (hop : ¬ op.Acquires) :
    ¬ e.Answers id := by
  cases e with
  | rejected _ _ => exact absurd he.2.1 hop
  | granted _ => exact absurd he not_false
  | _ => exact not_false

/-- Outside of `acquire` an answer goes to a waiter: in a drain to one whose
callback returns, else to one that leaves the queue. -/
theorem Move.answers (hm : Move n op s₀ s s') (hop : ¬ op.Acquires) (ha : Answered s'.log id) :
    Answered s.log id ∨ ∃ w ∈ s.waiters, w.id = id ∧
      (op.Drains ∧ w.onAcquireThrows = false ∨
        ¬ op.Drains ∧ ((s.waiters.map (·.id)).Nodup → ∀ x ∈ s'.waiters, x.id ≠ id)) := by
  cases hm with
  | @note e he =>
    obtain ⟨e', he', hid⟩ := ha
    rcases List.mem_cons.mp he' with rfl | he'
    · exact absurd hid (he.not_answers hop)
    · exact .inl ⟨e', he', hid⟩
  | @grantWaiter pre w post hdrain hs _ ht =>
    refine (answered_grantWaiter ha).imp_right fun hgrant => ?_
    exact ⟨w, by simp [hs], hgrant.1, .inl ⟨hdrain, ht⟩⟩
  | grantThrown _ _ _ ht _ _ =>
    refine .inl ((answered_grantWaiter ha).resolve_right fun hgrant => ?_)
    rw [ht] at hgrant
    cases hgrant.2
  | @leave w code es hleaves hw _ hes =>
    have hdrain : ¬ op.Drains := by
      cases op with
      | queueTimeout _ | abort _ => exact not_false
      | _ => exact absurd hleaves not_false
    obtain ⟨e, he, hid⟩ := ha
    rw [Semaphore.leave] at he
    rcases List.mem_cons.mp he with rfl | he
    · refine .inr ⟨w, hw, hid, .inr ⟨hdrain, fun hnodup x hx hxid => ?_⟩⟩
      rw [Semaphore.leave, decQueued_eq] at hx
      have hsame : x = w := List.inj_on_of_nodup_map hnodup (List.mem_of_mem_erase hx) hw
        (hxid.trans hid.symm)
      rw [hsame] at hx
      exact (hnodup.of_map _).not_mem_erase hx
    · rcases List.mem_append.mp he with he | he
      · exact absurd hid ((hes e he).not_answers hop)
      · exact .inl (answered_decQueued (s := { s with waiters := s.waiters.erase w }) ⟨e, he, hid⟩)
  | @release now id' _ =>
    rcases s.release_cases now id' with heq | ⟨p, timer, _, _, heq⟩ <;> rw [heq] at ha <;>
      exact .inl ha
  | applyReleases _ =>
    obtain ⟨a, d, es, hes, heq⟩ := s.applyReleases_eq
    have hgrows : LogGrows (fun e => e = .clamped) s s.applyReleases := by
      rw [heq]
      exact ⟨es, rfl, hes⟩
    refine .inl (hgrows.answered ?_ ha)
    rintro e rfl
    exact not_false
  | resize _ => exact .inl ha
  | setHardCap _ => exact .inl ha
  | setSoftLimit _ => exact .inl ha
  | @reconfigure opts _ =>
    simp only [Semaphore.reconfigure] at ha
    split at ha <;> exact .inl ha
  | shutdown hshut =>
    obtain ⟨q, es, hes, heq⟩ := s.shutdown_eq
    obtain ⟨e, he, hid⟩ := ha
    rw [heq] at he ⊢
    rcases List.mem_append.mp he with he | he
    · rcases hes e he with rfl | ⟨w, hw, rfl⟩
      · exact absurd hid not_false
      · exact .inr ⟨w, hw, hid, .inr ⟨by simp [hshut, Op.Drains], by simp⟩⟩
    · exact .inl ⟨e, he, hid⟩

theorem step_requests (hop : ¬ op.Acquires) :
    ∀ x ∈ (g.step op).semaphore.waiters, ∃ y ∈ g.semaphore.waiters, y.toRequest = x.toRequest := by
  obtain ⟨-, hm⟩ := step_moves g op fun opts h => hop ⟨opts, h⟩
  refine hm.invariant
    (I := fun s => ∀ x ∈ s.waiters, ∃ y ∈ g.semaphore.waiters, y.toRequest = x.toRequest) ?_
    fun x hx => ⟨x, hx, rfl⟩
  intro a b ha hab x hx
  rcases hab.mem_waiters hx with ⟨y, hy, heq⟩ | hold
  · obtain ⟨z, hz, hzy⟩ := ha y hy
    exact ⟨z, hz, hzy.trans heq⟩
  · exact hold

/-- A drain answers no request whose callback throws. -/
theorem drain_answers (hop : op.Drains) {id : Nat}
    (ha : Answered (g.step op).semaphore.log id) :
    Answered g.semaphore.log id ∨
      ∃ w ∈ g.semaphore.waiters, w.id = id ∧ w.onAcquireThrows = false := by
  have hacq : ¬ op.Acquires := by
    rintro ⟨opts, rfl⟩
    exact hop
  obtain ⟨-, hm⟩ := step_moves g op fun opts h => hacq ⟨opts, h⟩
  have hinv := hm.invariant
    (I := fun s => (∀ x ∈ s.waiters, ∃ y ∈ g.semaphore.waiters, y.toRequest = x.toRequest) ∧
      (Answered s.log id → Answered g.semaphore.log id ∨
        ∃ w ∈ g.semaphore.waiters, w.id = id ∧ w.onAcquireThrows = false))
    ?_ ⟨fun x hx => ⟨x, hx, rfl⟩, .inl⟩
  · exact hinv.2 ha
  · intro a b hp hab
    obtain ⟨hfrom, hanswers⟩ := hp
    refine ⟨fun x hx => ?_, fun hb => ?_⟩
    · rcases hab.mem_waiters hx with ⟨y, hy, heq⟩ | hold
      · obtain ⟨z, hz, hzy⟩ := hfrom y hy
        exact ⟨z, hz, hzy.trans heq⟩
      · exact hold
    · rcases hab.answers hacq hb with hold | ⟨w, hw, hid, ⟨-, hreturns⟩ | ⟨hno, -⟩⟩
      · exact hanswers hold
      · obtain ⟨y, hy, hyw⟩ := hfrom w hw
        exact .inr ⟨y, hy, (congrArg Request.id hyw).trans hid,
          (congrArg Request.onAcquireThrows hyw).trans hreturns⟩
      · exact absurd hop hno

/-- What is neither a drain nor an `acquire` answers those that leave the
queue. -/
theorem leave_answers (hop : ¬ op.Acquires) (hdrain : ¬ op.Drains)
    (hnodup : (g.semaphore.waiters.map (·.id)).Nodup) {id : Nat}
    (ha : Answered (g.step op).semaphore.log id) :
    Answered g.semaphore.log id ∨ (∃ w ∈ g.semaphore.waiters, w.id = id) ∧
      ∀ x ∈ (g.step op).semaphore.waiters, x.id ≠ id := by
  obtain ⟨-, hm⟩ := step_moves g op fun opts h => hop ⟨opts, h⟩
  have hinv := hm.invariant
    (I := fun s => (s.waiters.map (·.id)).Sublist (g.semaphore.waiters.map (·.id)) ∧
      (Answered s.log id → Answered g.semaphore.log id ∨
        (∃ w ∈ g.semaphore.waiters, w.id = id) ∧ ∀ x ∈ s.waiters, x.id ≠ id))
    ?_ ⟨.refl _, .inl⟩
  · exact hinv.2 ha
  · intro a b hp hab
    obtain ⟨hfrom, hanswers⟩ := hp
    have hids := hab.ids_sublist hdrain
    refine ⟨hids.trans hfrom, fun hb => ?_⟩
    rcases hab.answers hop hb with hold | ⟨w, hw, hid, ⟨hyes, -⟩ | ⟨-, hgone⟩⟩
    · refine (hanswers hold).imp_right fun hgone => ⟨hgone.1, fun x hx hxid => ?_⟩
      obtain ⟨y, hy, hyx⟩ := List.mem_map.mp (hids.subset (List.mem_map_of_mem hx))
      exact hgone.2 y hy (hyx.trans hxid)
    · exact absurd hyes hdrain
    · refine .inr ⟨?_, hgone (hnodup.sublist hfrom)⟩
      obtain ⟨y, hy, hyw⟩ := List.mem_map.mp (hfrom.subset (List.mem_map_of_mem hw))
      exact ⟨y, hy, hyw.trans hid⟩

/-! ## The invariant -/

/-- A waiter whose callback throws has no answer. -/
structure Unsettled (n : Nat) (s : Semaphore) : Prop where
  lined : Lined n s
  lt : ∀ id, Answered s.log id → id < n
  waiting : ∀ w ∈ s.waiters, w.onAcquireThrows = true → ¬ Answered s.log w.id

omit [ShareRounding] in
theorem Unsettled.nodup (h : Unsettled n s) : (s.waiters.map (·.id)).Nodup :=
  h.lined.ascending.imp fun hlt => hlt.ne

/-- Neither has it after a drain. -/
theorem Unsettled.drain (h : Unsettled g.nextId g.semaphore) (hop : op.Drains) {w : Waiter}
    (hw : w ∈ g.semaphore.waiters) (ht : w.onAcquireThrows = true) :
    ¬ Answered (g.step op).semaphore.log w.id := by
  intro ha
  rcases drain_answers hop ha with hold | ⟨x, hx, hid, hreturns⟩
  · exact h.waiting w hw ht hold
  · obtain rfl : x = w := List.inj_on_of_nodup_map h.nodup hx hw hid
    rw [ht] at hreturns
    cases hreturns

theorem Unsettled.acquire (h : Unsettled g.nextId g.semaphore) (opts : AcquireOptions) :
    Unsettled (g.nextId + 1) (g.acquire opts).semaphore := by
  have hlined := h.lined.acquire opts
  have hanswers : ∀ id, Answered (g.acquire opts).semaphore.log id →
      Answered g.semaphore.log id ∨ id = g.nextId := by
    rintro id ⟨e, he, hid⟩
    obtain ⟨es, hlog, hes⟩ := acquire_ofCall g opts
    rw [hlog] at he
    rcases List.mem_append.mp he with he | he
    · have hcall := hes e he
      cases e with
      | granted gr => exact .inr (Eq.trans (Eq.symm hid) hcall)
      | rejected id' code => exact .inr (Eq.trans (Eq.symm hid) hcall.1)
      | _ => exact absurd hid not_false
    · exact .inl ⟨e, he, hid⟩
  refine ⟨hlined, fun id ha => ?_, fun w hw ht ha => ?_⟩
  · rcases hanswers id ha with hold | rfl
    · exact Nat.lt_succ_of_lt (h.lt id hold)
    · exact Nat.lt_succ_self _
  · have hold : ∀ x ∈ g.semaphore.waiters, x.onAcquireThrows = true →
        ¬ Answered (g.acquire opts).semaphore.log x.id := by
      intro x hx hxt hxa
      rcases hanswers _ hxa with hxold | hnew
      · exact h.waiting x hx hxt hxold
      · exact absurd (h.lined.lt x hx) (by omega)
    have hout := acquire_outcome g opts
    generalize (g.acquire opts).semaphore = s at hout hw ha hold
    cases hout with
    | refused _ _ _ => exact hold w hw ht ha
    | granted _ _ _ _ _ _ =>
      rw [grant_fst] at hw ha hold
      exact hold w hw ht ha
    | thrown _ _ _ _ =>
      rw [grant_fst] at hw ha hold
      exact hold w hw ht ha
    | @queued w' es es' _ _ _ hw' hes hes' =>
      rcases List.mem_append.mp hw with hw | hw
      · exact hold w hw ht ha
      · obtain rfl := List.mem_singleton.mp hw
        have hid : w.id = g.nextId := congrArg Request.id hw'
        obtain ⟨e, he, heid⟩ := ha
        have hquiet : ∀ e : Event, e.Quiet → ¬ e.Answers w.id := by
          intro e hq
          cases e with
          | granted _ => exact absurd hq not_false
          | rejected _ _ => exact absurd hq not_false
          | _ => exact not_false
        rcases List.mem_append.mp he with he | he
        · rcases List.mem_append.mp he with he | he
          · exact hquiet e (hes' e he) heid
          · rcases List.mem_cons.mp he with rfl | he
            · exact heid
            · exact hquiet e (hes e he) heid
        · have := h.lt _ ⟨e, he, heid⟩
          omega

theorem unsettled_step (h : Unsettled g.nextId g.semaphore) (op : Op) :
    Unsettled (g.step op).nextId (g.step op).semaphore := by
  by_cases hacq : op.Acquires
  · obtain ⟨opts, rfl⟩ := hacq
    have hid : (g.acquire opts).nextId = g.nextId + 1 := (acquire_effect g.semaphore g opts).1
    simp only [Gate.step, hid]
    exact h.acquire opts
  · have hlined := h.lined.step hacq
    obtain ⟨hid, -⟩ := step_moves g op fun opts heq => hacq ⟨opts, heq⟩
    refine ⟨hlined, fun id ha => ?_, fun w hw ht ha => ?_⟩
    · rw [hid]
      by_cases hdrain : op.Drains
      · rcases drain_answers hdrain ha with hold | ⟨x, hx, rfl, -⟩
        · exact h.lt id hold
        · exact h.lined.lt x hx
      · rcases leave_answers hacq hdrain h.nodup ha with hold | ⟨⟨x, hx, rfl⟩, -⟩
        · exact h.lt id hold
        · exact h.lined.lt x hx
    · obtain ⟨y, hy, hyw⟩ := step_requests hacq w hw
      have hyid : y.id = w.id := congrArg Request.id hyw
      have hyt : y.onAcquireThrows = true := (congrArg Request.onAcquireThrows hyw).trans ht
      by_cases hdrain : op.Drains
      · exact h.drain hdrain hy hyt (hyid ▸ ha)
      · rcases leave_answers hacq hdrain h.nodup ha with hold | ⟨-, hgone⟩
        · exact h.waiting y hy hyt (hyid ▸ hold)
        · exact hgone w hw rfl

omit [ShareRounding] in
theorem unsettled_new (opts : ConcurrencyGateOptions) : Unsettled 0 (Semaphore.new opts) := by
  refine ⟨(heeded_new opts).lined, fun id hanswered => ?_, fun _ hw => absurd hw List.not_mem_nil⟩
  obtain ⟨_, he, _⟩ := hanswered
  exact absurd he List.not_mem_nil

/-! ## Every failed grant -/

/-- A failed grant of a reachable gate leaves the counters raised by its
weight, and never a state in which its request was rejected. -/
theorem throwing_callback_leaks (opts : ConcurrencyGateOptions) (ops : List Op) {op : Op}
    {r : Request} {s ref : Semaphore} (h : (Gate.after opts ops).FailsGrant op r s ref) :
    (Gate.after opts (ops ++ [op])).semaphore.active = s.active + r.weight ∧
      (Gate.after opts (ops ++ [op])).semaphore.activeByIntention.getD r.intention 0 =
        s.activeByIntention.getD r.intention 0 + r.weight ∧
      ¬ CleanFailure r ref (Gate.after opts (ops ++ [op])).semaphore := by
  have hun : Unsettled (Gate.after opts ops).nextId (Gate.after opts ops).semaphore :=
    run_invariant (I := fun g : Gate => Unsettled g.nextId g.semaphore)
      (fun _ op h => unsettled_step h op) (unsettled_new opts) ops
  have hlast : Gate.after opts (ops ++ [op]) = (Gate.after opts ops).step op :=
    run_append Gate.step _ ops [op]
  rw [hlast]
  generalize Gate.after opts ops = g at h hun
  cases h with
  | @onArrival acq hin hc ht =>
    have hout := acquire_outcome g acq
    have hraised : (g.acquire acq).semaphore.active =
          g.semaphore.active + (g.request acq).weight ∧
        (g.acquire acq).semaphore.activeByIntention.getD (g.request acq).intention 0 =
          g.semaphore.activeByIntention.getD (g.request acq).intention 0 +
            (g.request acq).weight := by
      generalize (g.acquire acq).semaphore = s' at hout
      cases hout with
      | refused hno _ _ =>
        rcases hno with hno | ⟨hfalse, -⟩
        · exact absurd hin hno
        · rw [hc] at hfalse
          cases hfalse
      | granted _ _ hreturns _ _ _ =>
        rw [ht] at hreturns
        cases hreturns
      | thrown _ _ _ _ =>
        rw [grant_fst]
        simp
      | queued _ hfalse _ _ _ _ =>
        rw [hc] at hfalse
        cases hfalse
    refine ⟨hraised.1, hraised.2, fun hclean => ?_⟩
    have := hclean.active
    rw [Gate.step, hraised.1] at this
    have := hin.1
    simp only [note] at *
    omega
  | @inDrain _ s' e hs he ht =>
    have hdrain := drained?_drains hs
    have hmem := mem_of_mem_drainGrants _ _ _ e he
    rw [drained?_waiters hs] at hmem
    have hwhole : s'.drainWaiters = s'.drainLoop [] [] s'.waiters := by
      unfold Semaphore.drainWaiters
      split
      · rename_i hnil
        simp [hnil, drainGrants] at he
      · rfl
    have hraised := drainLoop_raised _ _ _ [] e he ht
    obtain ⟨l, ⟨s₁, hs₁, heq⟩ | ⟨hnone, -⟩⟩ := step_drains hdrain
    · obtain rfl : s₁ = s' := Option.some.inj (hs₁.symm.trans hs)
      refine ⟨?_, ?_, fun hclean => hun.drain hdrain hmem ht hclean.settled⟩
      · rw [heq, hwhole]
        exact hraised.1
      · rw [heq, hwhole]
        exact hraised.2
    · rw [hs] at hnone
      cases hnone

end Failing

section Runs

attribute [local instance] exactShare

/-- On a free gate the request with the throwing callback keeps its slot. -/
theorem throwing_callback_keeps_slot :
    ¬ ∀ op r s ref, (Gate.after twoSlots []).FailsGrant op r s ref →
      CleanFailure r ref (Gate.after twoSlots [op]).semaphore := by
  intro h
  have hclean := h (.acquire { onAcquireThrows := true }) _ _ _
    (.onArrival (by decide +kernel) (by decide +kernel) rfl)
  have hactive := hclean.active
  revert hactive
  decide +kernel

/-- Two permits, and two requests behind them, the first with a callback
that throws; the permits come back. -/
def throwInDrain : List Op :=
  [.acquire {}, .acquire visionRequest, .acquire { onAcquireThrows := true }, .acquire {},
    .release 0, .release 1, .tick 10]

/-- The drain of both waiters ends at the first. -/
theorem throwing_callback_leaks_throwInDrain :
    ∃ r s ref, (Gate.after twoSlots throwInDrain).FailsGrant .cooldownExpiry r s ref ∧
      ¬ CleanFailure r ref (Gate.after twoSlots (throwInDrain ++ [.cooldownExpiry])).semaphore := by
  have hs : (Gate.after twoSlots throwInDrain).drained? .cooldownExpiry =
      some (Gate.after twoSlots throwInDrain).semaphore.applyReleases :=
    if_pos ⟨10, by decide +kernel, by decide +kernel⟩
  have he : ∃ e ∈ (Gate.after twoSlots throwInDrain).semaphore.applyReleases.drainGrants []
      (Gate.after twoSlots throwInDrain).semaphore.applyReleases.waiters,
      e.2.onAcquireThrows = true := by
    decide +kernel
  obtain ⟨e, he, ht⟩ := he
  have hfails := Gate.FailsGrant.inDrain hs he ht
  exact ⟨_, _, _, hfails, (throwing_callback_leaks twoSlots throwInDrain hfails).2.2⟩

end Runs

end UmansGate.Limiter
