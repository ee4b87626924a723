/-
UmansGate.Limiter.AbortTheorems — requests whose signal fires.

The abort listener is registered behind the place in the queue, and it
takes a waiter out at once: a signal that fires after its `acquire` call
leaves no dead waiter behind. A signal that has fired before the call is
never looked at, neither by `acquire` nor by the listener, which it does
not wake; such a request is granted or queued like any other
(`aborted_before_acquire`). `signals_iff` says that there is no other way.
`Lined` is the shape of the queue that carries the argument: the waiters
stand in the order of their calls, and who is not answered waits.
-/
import Mathlib.Data.List.Nodup
import UmansGate.Limiter.AcquireTheorems
import UmansGate.Limiter.Drains
import UmansGate.Limiter.GatingTheorems

namespace UmansGate.Limiter

open UmansGate.Lib Relation Semaphore

/-- The event settles the promise of request `id`. -/
def Event.Answers (id : Nat) : Event → Prop
  | .granted gr => gr.id = id
  | .rejected id' _ => id' = id
  | _ => False

def Answered (log : List Event) (id : Nat) : Prop := ∃ e ∈ log, e.Answers id

/-- The operation is the one that has to reject request `id` as aborted: its
`acquire` call after the signal fired, or the signal that fires while it has
no answer. -/
def Op.Aborts (g : Gate) (id : Nat) : Op → Prop
  | .acquire _ => id = g.nextId ∧ id ∈ g.aborted
  | .abort id' => id = id' ∧ id ∉ g.aborted ∧ id < g.nextId ∧ ¬ Answered g.semaphore.log id
  | _ => False

/-- What an operation owes to the signals. -/
structure SignalLaw (g : Gate) (op : Op) (g' : Gate) : Prop where
  /-- No queued waiter has a signal that fired. -/
  waiters : ∀ w ∈ g'.semaphore.waiters, w.id ∉ g'.aborted
  /-- No permit goes to a request whose signal fired before the grant. -/
  granted : ∀ es gr, g'.semaphore.log = es ++ g.semaphore.log → .granted gr ∈ es →
    gr.id ∉ g.aborted
  /-- It is rejected as aborted instead. -/
  rejected : ∀ es id, g'.semaphore.log = es ++ g.semaphore.log → op.Aborts g id →
    .rejected id .aborted ∈ es

/-- The waiters stand in the order of their calls, and a request below `n`
has its answer or waits. -/
structure Lined (n : Nat) (s : Semaphore) : Prop where
  ascending : (s.waiters.map (·.id)).Pairwise (· < ·)
  lt : ∀ w ∈ s.waiters, w.id < n
  answered : ∀ id, id < n → Answered s.log id ∨ ∃ w ∈ s.waiters, w.id = id

section Lining

variable [ShareRounding] {g : Gate} {op : Op} {n m : Nat} {s₀ s s' : Semaphore}

omit [ShareRounding] in
theorem Answered.mono {log log' : List Event} {id : Nat} (h : Answered log id)
    (hsub : ∀ e ∈ log, e ∈ log') : Answered log' id := by
  obtain ⟨e, he, hid⟩ := h
  exact ⟨e, hsub e he, hid⟩

omit [ShareRounding] in
theorem mem_decQueued_log {e : Event} (he : e ∈ s.log) (k : String) : e ∈ (s.decQueued k).log := by
  rw [decQueued_eq]
  dsimp only
  split
  · exact List.mem_cons_of_mem _ he
  · exact he

omit [ShareRounding] in
theorem mem_grantWaiter_log {e : Event} (he : e ∈ s.log) (w : Waiter) :
    e ∈ (s.grantWaiter w).log := by
  have hdec := mem_decQueued_log he w.intention
  rw [Semaphore.grantWaiter, grant_fst]
  dsimp only
  split
  · exact hdec
  · exact List.mem_cons_of_mem _ (List.mem_cons_of_mem _ hdec)

/-! ## The queue -/

/-- A change outside of a drain takes waiters out of the queue at most. -/
theorem Move.ids_sublist (hm : Move n op s₀ s s') (hop : ¬ op.Drains) :
    (s'.waiters.map (·.id)).Sublist (s.waiters.map (·.id)) := by
  cases hm with
  | note _ => exact .refl _
  | leave _ _ _ _ =>
    rw [Semaphore.leave, decQueued_eq]
    exact List.erase_sublist.map _
  | @release now id _ =>
    rcases s.release_cases now id with heq | ⟨p, timer, _, _, heq⟩ <;> rw [heq]
  | setSoftLimit _ => exact .refl _
  | @reconfigure opts _ =>
    simp only [Semaphore.reconfigure]
    split <;> exact .refl _
  | shutdown _ =>
    obtain ⟨q, es, -, heq⟩ := s.shutdown_eq
    rw [heq]
    exact List.nil_sublist _
  | grantWaiter hop' => exact absurd hop' hop
  | grantThrown hop' => exact absurd hop' hop
  | applyReleases hop' => exact absurd (hop' ▸ trivial) hop
  | resize hop' => exact absurd (hop' ▸ trivial) hop
  | setHardCap hop' => exact absurd (hop' ▸ trivial) hop

/-- Only an `acquire` lets somebody into the queue. -/
theorem step_ids (hop : ¬ op.Acquires) :
    ((g.step op).semaphore.waiters.map (·.id)).Sublist (g.semaphore.waiters.map (·.id)) := by
  by_cases hdrain : op.Drains
  · obtain ⟨l, ⟨s, hs, heq⟩ | ⟨-, hardCap, softLimit, heq⟩⟩ := step_drains hdrain
    · rw [heq, ← drained?_waiters hs]
      exact drainWaiters_ids s
    · rw [heq]
  · obtain ⟨-, hm⟩ := step_moves g op fun opts h => hop ⟨opts, h⟩
    exact hm.invariant
      (I := fun s => (s.waiters.map (·.id)).Sublist (g.semaphore.waiters.map (·.id)))
      (fun _ _ ha hab => (hab.ids_sublist hdrain).trans ha) (.refl _)

omit [ShareRounding] in
/-- The rejection loop of `shutdown` notes each of its waiters. -/
theorem rejected_mem_log {w : Waiter} {ws : List Waiter} (hw : w ∈ ws) (s : Semaphore) :
    .rejected w.id .shutdown ∈
      (ws.foldl (fun s w => (s.decQueued w.intention).note (.rejected w.id .shutdown)) s).log := by
  induction ws generalizing s with
  | nil => exact absurd hw (by simp)
  | cons x ws ih =>
    rw [List.foldl_cons]
    rcases List.mem_cons.mp hw with rfl | hw
    · -- what is noted stays in the log
      obtain ⟨q, es, -, heq⟩ := foldl_rejectShutdown_eq ws
        ((s.decQueued w.intention).note (.rejected w.id .shutdown))
      rw [heq]
      exact List.mem_append_right _ List.mem_cons_self
    · exact ih hw _

omit [ShareRounding] in
/-- `shutdown` rejects everybody in the queue. -/
theorem answered_shutdown {w : Waiter} (hw : w ∈ s.waiters) : Answered s.shutdown.log w.id :=
  ⟨_, rejected_mem_log hw s, rfl⟩

/-- Who had an answer or waited has one or waits. -/
theorem Move.answered (hm : Move n op s₀ s s') {id : Nat}
    (h : Answered s.log id ∨ ∃ w ∈ s.waiters, w.id = id) :
    Answered s'.log id ∨ ∃ w ∈ s'.waiters, w.id = id := by
  cases hm with
  | note _ => exact h.imp_left fun h => h.mono fun e he => List.mem_cons_of_mem _ he
  | @grantWaiter pre w post _ hs _ ht =>
    by_cases hid : w.id = id
    · refine .inl ⟨.granted ⟨w.id, w.weight, s.active + w.weight, s.limit, s.hardCap⟩, ?_, hid⟩
      simp [Semaphore.grantWaiter, grant_fst, decQueued_eq, ht]
    · refine h.imp (fun h => h.mono fun e he => mem_grantWaiter_log he w) fun hwaits => ?_
      obtain ⟨x, hx, hxid⟩ := hwaits
      refine ⟨x, ?_, hxid⟩
      have hne : x ≠ w := by
        rintro rfl
        exact hid hxid
      rw [hs] at hx
      simpa [hne] using hx
  | @grantThrown pre w post visited _ hs _ ht hv _ =>
    refine h.imp (fun h => h.mono fun e he => mem_grantWaiter_log he w) fun hwaits => ?_
    obtain ⟨x, hx, hxid⟩ := hwaits
    rw [hs] at hx
    rcases List.mem_append.mp hx with hx | hx
    · exact ⟨x, List.mem_append_left _ (hv.subset hx), hxid⟩
    · rcases List.mem_cons.mp hx with rfl | hx
      · exact ⟨_, List.mem_append_right _ List.mem_cons_self, hxid⟩
      · exact ⟨x, List.mem_append_right _ (List.mem_cons_of_mem _ hx), hxid⟩
  | @leave w code es _ hw _ _ =>
    by_cases hid : w.id = id
    · exact .inl ⟨_, List.mem_cons_self, hid⟩
    · have hlog : ∀ e ∈ s.log, e ∈ (s.leave w code es).log := fun e he =>
        List.mem_append_right _ (mem_decQueued_log (s := { s with waiters := s.waiters.erase w }) he _)
      refine h.imp (fun h => h.mono hlog) fun hwaits => ?_
      obtain ⟨x, hx, hxid⟩ := hwaits
      refine ⟨x, ?_, hxid⟩
      have hne : x ≠ w := by
        rintro rfl
        exact hid hxid
      rw [Semaphore.leave, decQueued_eq]
      exact (List.mem_erase_of_ne hne).mpr hx
  | @release now id' _ =>
    rcases s.release_cases now id' with heq | ⟨p, timer, _, _, heq⟩ <;> rw [heq] <;> exact h
  | applyReleases _ =>
    obtain ⟨a, d, es, _, heq⟩ := s.applyReleases_eq
    rw [heq]
    exact h.imp_left fun h => h.mono fun e he => List.mem_append_right _ he
  | resize _ => exact h
  | setHardCap _ => exact h
  | setSoftLimit _ => exact h
  | @reconfigure opts _ =>
    simp only [Semaphore.reconfigure]
    split <;> exact h
  | shutdown _ =>
    rcases h with h | ⟨w, hw, rfl⟩
    · obtain ⟨q, es, -, heq⟩ := s.shutdown_eq
      rw [heq]
      exact .inl (h.mono fun e he => List.mem_append_right _ he)
    · exact .inl (answered_shutdown hw)

/-- An operation that is no `acquire`. -/
theorem Lined.step (h : Lined g.nextId g.semaphore) (hop : ¬ op.Acquires) :
    Lined (g.step op).nextId (g.step op).semaphore := by
  obtain ⟨hid, hm⟩ := step_moves g op fun opts heq => hop ⟨opts, heq⟩
  have hids := step_ids (g := g) hop
  rw [hid]
  refine ⟨h.ascending.sublist hids, fun w hw => ?_, fun id hlt => ?_⟩
  · obtain ⟨x, hx, hxid⟩ := List.mem_map.mp (hids.subset (List.mem_map_of_mem hw))
    exact hxid ▸ h.lt x hx
  · exact hm.invariant (I := fun s => Answered s.log id ∨ ∃ w ∈ s.waiters, w.id = id)
      (fun _ _ ha hab => hab.answered ha) (h.answered id hlt)

/-- An `acquire` that queues its request queues it at the end. -/
theorem Lined.acquire (h : Lined g.nextId g.semaphore) (opts : AcquireOptions) :
    Lined (g.nextId + 1) (g.acquire opts).semaphore := by
  have hlater : ∀ {s' : Semaphore}, s'.waiters = g.semaphore.waiters →
      (∀ e ∈ g.semaphore.log, e ∈ s'.log) → Answered s'.log g.nextId →
      Lined (g.nextId + 1) s' := by
    intro s' hws hlog hnew
    refine ⟨hws ▸ h.ascending, fun w hw => ?_, fun id hlt => ?_⟩
    · have := h.lt w (hws ▸ hw)
      omega
    · by_cases hid : id = g.nextId
      · exact .inl (hid ▸ hnew)
      · rw [hws]
        exact (h.answered id (by omega)).imp_left fun ha => ha.mono hlog
  have hout := acquire_outcome g opts
  generalize (g.acquire opts).semaphore = s at hout
  cases hout with
  | refused _ _ _ =>
    exact hlater rfl (fun e he => List.mem_append_right _ he) ⟨_, List.mem_cons_self, rfl⟩
  | @granted gr es es' _ _ _ hgr _ _ =>
    rw [grant_fst]
    refine hlater rfl (fun e he => List.mem_append_right _ he) ⟨.granted gr, ?_, hgr⟩
    exact List.mem_append_left _ (List.mem_append_right _ List.mem_cons_self)
  | thrown _ _ _ _ =>
    rw [grant_fst]
    exact hlater rfl (fun e he => List.mem_append_right _ he) ⟨_, List.mem_cons_self, rfl⟩
  | @queued w es es' _ _ _ hw _ _ =>
    have hid : w.id = g.nextId := congrArg Request.id hw
    refine ⟨?_, fun x hx => ?_, fun id hlt => ?_⟩
    · rw [List.map_append, List.pairwise_append]
      refine ⟨h.ascending, List.pairwise_singleton _ _, fun i hi j hj => ?_⟩
      obtain ⟨x, hx, rfl⟩ := List.mem_map.mp hi
      obtain rfl : j = w.id := by simpa using hj
      exact hid ▸ h.lt x hx
    · rcases List.mem_append.mp hx with hx | hx
      · exact Nat.lt_succ_of_lt (h.lt x hx)
      · rw [List.mem_singleton.mp hx, hid]
        exact Nat.lt_succ_self _
    · by_cases hnew : id = g.nextId
      · exact .inr ⟨w, by simp, hid.trans hnew.symm⟩
      · refine (h.answered id (by omega)).imp
          (fun ha => ha.mono fun e he => List.mem_append_right _ he) fun hwaits => ?_
        obtain ⟨x, hx, hxid⟩ := hwaits
        exact ⟨x, List.mem_append_left _ hx, hxid⟩

/-! ## The signals -/

omit [ShareRounding] in
theorem dequeue_aborted (g : Gate) (w : Waiter) (code : GateErrorCode) :
    (g.dequeue w code).aborted = g.aborted := by
  unfold Gate.dequeue
  split
  · rfl
  · split <;> rfl

theorem acquire_aborted (g : Gate) (opts : AcquireOptions) :
    (g.acquire opts).aborted = g.aborted := by
  have hin : ∀ (g : Gate) (r : Request) (seen : BreakerState),
      (g.grantOrEnqueue r seen).aborted = g.aborted := by
    intro g r seen
    simp only [Gate.grantOrEnqueue]
    split
    · split <;> rfl
    · split <;> rfl
  simp only [Gate.acquire]
  split
  · rfl
  · split
    · rfl
    · exact hin _ _ _

/-- A signal fires by its own operation only. -/
theorem step_aborted (hop : ∀ id, op ≠ .abort id) : (g.step op).aborted = g.aborted := by
  have hsetter : ∀ r, (g.afterSetter r).aborted = g.aborted := by
    intro r
    unfold Gate.afterSetter
    split <;> rfl
  cases op with
  | acquire opts => exact acquire_aborted g opts
  | abort id => exact absurd rfl (hop id)
  | queueTimeout id =>
    simp only [Gate.step]
    split
    · rfl
    · split
      · rfl
      · split
        · exact dequeue_aborted _ _ _
        · rfl
  | cooldownExpiry =>
    simp only [Gate.step]
    split
    · rfl
    · split <;> rfl
  | resize _ => exact hsetter _
  | setHardCap _ => exact hsetter _
  | setSoftLimit _ => exact hsetter _
  | record429 _ =>
    simp only [Gate.step]
    split <;> rfl
  | recordSuccess =>
    simp only [Gate.step]
    split <;> rfl
  | release _ | tick _ | reconfigure _ | shutdown => rfl

/-- What the listener of a signal does: its waiter leaves the queue, as
aborted. -/
theorem abort_spec (h : Lined g.nextId g.semaphore) {id : Nat} (hfirst : id ∉ g.aborted) :
    (g.step (.abort id)).aborted = id :: g.aborted ∧
      (∀ w ∈ (g.step (.abort id)).semaphore.waiters, w ∈ g.semaphore.waiters ∧ w.id ≠ id) ∧
      ((∃ w ∈ g.semaphore.waiters, w.id = id) →
        ∃ es, (g.step (.abort id)).semaphore.log = .rejected id .aborted :: es ++ g.semaphore.log) := by
  simp only [Gate.step, if_neg hfirst]
  cases hfind : g.waiter? id with
  | none =>
    have hnone : ∀ w ∈ g.semaphore.waiters, w.id ≠ id := by
      simpa [Gate.waiter?] using hfind
    have hskip : Gate.waiter? { g with aborted := id :: g.aborted } id = none := hfind
    rw [hskip]
    refine ⟨rfl, fun w hw => ⟨hw, hnone w hw⟩, fun hwaits => ?_⟩
    obtain ⟨w, hw, hid⟩ := hwaits
    exact absurd hid (hnone w hw)
  | some w =>
    have hsome : Gate.waiter? { g with aborted := id :: g.aborted } id = some w := hfind
    obtain ⟨hmem, hid⟩ := waiter?_mem hfind
    obtain ⟨es, -, hleave⟩ := dequeue_semaphore 0 (.abort id) { g with aborted := id :: g.aborted }
      .aborted (w := w) hmem
    rw [hsome]
    refine ⟨dequeue_aborted _ _ _, fun x hx => ?_, fun _ => ?_⟩
    · rw [hleave, Semaphore.leave, decQueued_eq] at hx
      refine ⟨List.mem_of_mem_erase hx, fun hxid => ?_⟩
      -- the ids ascend, so `x` would be the waiter that left
      have hids : (g.semaphore.waiters.map (·.id)).Nodup := h.ascending.imp fun hlt => hlt.ne
      have hnodup : g.semaphore.waiters.Nodup := hids.of_map _
      have hinj := List.inj_on_of_nodup_map hids
      have hsame : x = w := hinj (List.mem_of_mem_erase hx) hmem (hxid.trans hid.symm)
      rw [hsame] at hx
      exact hnodup.not_mem_erase hx
    · rw [hleave, Semaphore.leave, decQueued_eq, hid]
      dsimp only
      split
      · exact ⟨es ++ [.clamped], by simp⟩
      · exact ⟨es, rfl⟩

/-- What an `acquire` call for request `id` may log: it never ends in code
`aborted`. -/
def Event.OfCall (id : Nat) : Event → Prop
  | .rejected id' code => id' = id ∧ code ≠ .aborted
  | .granted gr => gr.id = id
  | _ => True

theorem acquire_ofCall (g : Gate) (opts : AcquireOptions) :
    LogGrows (Event.OfCall g.nextId) g.semaphore (g.acquire opts).semaphore := by
  have hquiet : ∀ e : Event, e.Quiet → e.OfCall g.nextId := by
    intro e he
    cases e with
    | rejected _ _ => exact absurd he not_false
    | granted _ => exact absurd he not_false
    | _ => trivial
  have hout := acquire_outcome g opts
  generalize (g.acquire opts).semaphore = s at hout
  cases hout with
  | @refused code es _ hcode hes =>
    refine ⟨.rejected g.nextId code :: es, rfl, fun e he => ?_⟩
    rcases List.mem_cons.mp he with rfl | he
    · refine ⟨rfl, ?_⟩
      rcases hcode with rfl | rfl | rfl <;> simp
    · exact hquiet e (hes e he)
  | @granted gr es es' _ _ _ hid hes hes' =>
    refine ⟨es' ++ .granted gr :: es, rfl, fun e he => ?_⟩
    rcases List.mem_append.mp he with he | he
    · exact hquiet e (hes' e he)
    · rcases List.mem_cons.mp he with rfl | he
      · exact hid
      · exact hquiet e (hes e he)
  | @thrown es _ _ _ hes =>
    refine ⟨.rejected g.nextId .callbackThrew :: es, rfl, fun e he => ?_⟩
    rcases List.mem_cons.mp he with rfl | he
    · exact ⟨rfl, by simp⟩
    · exact hquiet e (hes e he)
  | @queued w es es' _ _ _ _ hes hes' =>
    refine ⟨es' ++ .enqueued g.nextId :: es, rfl, fun e he => ?_⟩
    rcases List.mem_append.mp he with he | he
    · exact hquiet e (hes' e he)
    · rcases List.mem_cons.mp he with rfl | he
      · trivial
      · exact hquiet e (hes e he)

/-- The gate has heeded the signals so far. -/
structure Heeded (g : Gate) : Prop where
  lined : Lined g.nextId g.semaphore
  weighted : g.semaphore.Weighted
  waiters : ∀ w ∈ g.semaphore.waiters, w.id ∉ g.aborted

/-- The signal of the call has not fired before it. -/
def Gate.InTime (g : Gate) (op : Op) : Prop := op.Acquires → g.nextId ∉ g.aborted

theorem Heeded.step (h : Heeded g) (hop : g.InTime op) : Heeded (g.step op) := by
  refine ⟨?_, weighted_step h.weighted op, ?_⟩
  · by_cases hacq : op.Acquires
    · obtain ⟨opts, rfl⟩ := hacq
      have hid : (g.acquire opts).nextId = g.nextId + 1 := (acquire_effect g.semaphore g opts).1
      simp only [Gate.step, hid]
      exact h.lined.acquire opts
    · exact h.lined.step hacq
  · by_cases hacq : op.Acquires
    · obtain ⟨opts, rfl⟩ := hacq
      simp only [Gate.step, acquire_aborted]
      have hout := acquire_outcome g opts
      generalize (g.acquire opts).semaphore = s at hout
      cases hout with
      | refused _ _ _ => exact h.waiters
      | granted _ _ _ _ _ _ =>
        rw [grant_fst]
        exact h.waiters
      | thrown _ _ _ _ =>
        rw [grant_fst]
        exact h.waiters
      | @queued w _ _ _ _ _ hw _ _ =>
        intro x hx
        rcases List.mem_append.mp hx with hx | hx
        · exact h.waiters x hx
        · rw [List.mem_singleton.mp hx, congrArg Request.id hw]
          exact hop ⟨opts, rfl⟩
    · intro w hw
      obtain ⟨-, hids⟩ := step_log hacq h.weighted
      obtain ⟨y, hy, hyid⟩ := hids w hw
      have hold := hyid ▸ h.waiters y hy
      by_cases habort : ∃ id, op = .abort id
      · obtain ⟨id, rfl⟩ := habort
        by_cases hfirst : id ∈ g.aborted
        · simpa only [Gate.step, if_pos hfirst] using hold
        · obtain ⟨haborted, hleft, -⟩ := abort_spec h.lined hfirst
          rw [haborted, List.mem_cons, not_or]
          exact ⟨(hleft w hw).2, hold⟩
      · rw [step_aborted fun id heq => habort ⟨id, heq⟩]
        exact hold

/-- An operation meets the law of the signals exactly where it is no call
with a signal that fired before. -/
theorem signalLaw_iff (h : Heeded g) (op : Op) : SignalLaw g op (g.step op) ↔ g.InTime op := by
  refine ⟨?_, fun hop => ⟨(h.step hop).waiters, ?_, ?_⟩⟩
  · rintro hlaw ⟨opts, rfl⟩ hfired
    obtain ⟨es, hlog, hes⟩ := acquire_ofCall g opts
    exact (hes _ (hlaw.rejected es g.nextId hlog ⟨rfl, hfired⟩)).2 rfl
  · intro es gr hlog hgr
    by_cases hacq : op.Acquires
    · have hfresh := hop hacq
      obtain ⟨opts, rfl⟩ := hacq
      obtain ⟨es', hlog', hes'⟩ := acquire_ofCall g opts
      rw [List.append_cancel_right (hlog.symm.trans hlog')] at hgr
      have hid : gr.id = g.nextId := hes' _ hgr
      rwa [hid]
    · obtain ⟨⟨es', hlog', hserved⟩, -⟩ := step_log hacq h.weighted
      rw [List.append_cancel_right (hlog.symm.trans hlog')] at hgr
      obtain ⟨w, hw, hid⟩ := hserved _ hgr
      exact hid ▸ h.waiters w hw
  · intro es id hlog howed
    cases op with
    | acquire opts =>
      obtain ⟨rfl, hfired⟩ := howed
      exact absurd hfired (hop ⟨opts, rfl⟩)
    | abort id' =>
      obtain ⟨rfl, hfirst, hlt, hopen⟩ := howed
      obtain ⟨-, -, hleft⟩ := abort_spec h.lined hfirst
      obtain ⟨es', hes'⟩ := hleft ((h.lined.answered id hlt).resolve_left hopen)
      rw [List.append_cancel_right (hlog.symm.trans hes')]
      exact List.mem_cons_self
    | _ => exact absurd howed not_false

omit [ShareRounding] in
theorem heeded_new (opts : ConcurrencyGateOptions) : Heeded (Gate.new opts) :=
  ⟨⟨.nil, by simp [Gate.new, Semaphore.new], fun id hlt => absurd hlt (Nat.not_lt_zero id)⟩,
    weighted_new opts, by simp [Gate.new, Semaphore.new]⟩

/-- Every operation of a run meets the law of the signals exactly where no
`acquire` of the run has a signal that fired before the call. -/
theorem signals_iff (opts : ConcurrencyGateOptions) (ops : List Op) :
    (∀ pre op, pre ++ [op] <+: ops →
        SignalLaw (Gate.after opts pre) op (Gate.after opts (pre ++ [op]))) ↔
      StepsMeet Gate.step Gate.InTime (Gate.new opts) ops :=
  forall_steps_iff_stepsMeet (I := Heeded) (Q := SignalLaw) (fun _ _ h hop => h.step hop)
    (fun _ op h => signalLaw_iff h op) (heeded_new opts) ops

end Lining

section Runs

attribute [local instance] exactShare

/-- The signal fires, then its request is granted a permit. -/
theorem aborted_before_acquire :
    ¬ ∀ pre op, pre ++ [op] <+: [Op.abort 0, .acquire {}] →
      SignalLaw (Gate.after twoSlots pre) op (Gate.after twoSlots (pre ++ [op])) := by
  intro h
  have hlaw := h [.abort 0] (.acquire {}) List.prefix_rfl
  have hlog : (Gate.after twoSlots [.abort 0, .acquire {}]).semaphore.log =
      [.admitted 0 .closed, .granted ⟨0, 1000, 1000, .fin 2000, 2000⟩, .stats 1000] ++
        (Gate.after twoSlots [.abort 0]).semaphore.log := by
    decide +kernel
  have hfired : 0 ∈ (Gate.after twoSlots [.abort 0]).aborted := by decide +kernel
  exact hlaw.granted _ ⟨0, 1000, 1000, .fin 2000, 2000⟩ hlog (by simp) hfired

end Runs

end UmansGate.Limiter
