/-
UmansGate.Limiter.FairnessTheorems — requests of one intention and weight
are served in the order in which they asked, until one of them takes the
fast path of `acquire` past another.

The queue and the permits are read as tickets (`Semaphore.tickets`): the
number of a request is that of its `acquire` call, its kind the intention
and weight that `canGrant` looks at. A drain serves a kind in order, since
a waiter that it refuses stays refused to the end of the pass. `acquire`
looks at the counters only: when a waiter is left grantable in the queue
(`lost_wakeup`), the next equal request is granted before it.
-/
import UmansGate.Lib.Tickets
import UmansGate.Limiter.WakeupTheorems

namespace UmansGate.Limiter

open UmansGate.Lib Relation

/-- What the gate tells requests apart by. -/
def Request.kind (r : Request) : String × Int := (r.intention, r.weight)

def Permit.kind (p : Permit) : String × Int := (p.intention, p.weight)

/-- The kind of the request that an `acquire` call makes. -/
def AcquireOptions.kind (opts : AcquireOptions) : String × Int :=
  (opts.intention.getD "main", roundNum (opts.weight.getD 1 * SCALE))

/-- The queue, and the permits in the order in which they were handed out
(`permits` is in insertion order). -/
def Semaphore.tickets (s : Semaphore) : Tickets (String × Int) where
  queue := s.waiters.map fun w => (w.id, w.kind)
  served := s.permits.mapVals Permit.kind

section Admission

variable [ShareRounding]

/-- The call is granted on arrival. -/
def Gate.GrantsOnArrival (g : Gate) (opts : AcquireOptions) : Prop :=
  g.LetsIn opts ∧ g.semaphore.canGrant opts.kind.1 opts.kind.2 = true ∧
    opts.onAcquireThrows = false

/-- The call is granted on arrival while a request of its kind waits in the
queue. -/
def Gate.Overtakes (g : Gate) : Op → Prop
  | .acquire opts => g.GrantsOnArrival opts ∧ ∃ w ∈ g.semaphore.tickets.queue,
      g.semaphore.tickets.served.get? w.1 = none ∧ w.2 = opts.kind
  | _ => False

instance (g : Gate) (opts : AcquireOptions) : Decidable (g.GrantsOnArrival opts) :=
  inferInstanceAs (Decidable (_ ∧ _))

instance (g : Gate) : ∀ op : Op, Decidable (g.Overtakes op)
  | .acquire _ => inferInstanceAs (Decidable (_ ∧ _))
  | .queueTimeout _ | .abort _ | .release _ | .cooldownExpiry | .tick _ | .resize _
  | .setHardCap _ | .setSoftLimit _ | .reconfigure _ | .record429 _ | .recordSuccess
  | .shutdown => .isFalse id

end Admission

/-- What keeps a refused waiter refused. -/
structure Books (s : Semaphore) : Prop where
  byIntention_nonneg : ∀ k, 0 ≤ s.activeByIntention.getD k 0
  weighted : s.Weighted
  settable : s.limit = .nan ∨ ∃ l, s.limit = .fin l

instance (t : Tickets (String × Int)) : Decidable t.InOrder :=
  decidable_of_iff (t.served.Pairwise (fun e e' => e.2 = e'.2 → e.1 < e'.1) ∧
    ∀ w ∈ t.queue, t.served.get? w.1 = none → ∀ e ∈ t.served, e.2 = w.2 → e.1 < w.1)
    ⟨fun h => ⟨h.1, h.2⟩, fun h => ⟨h.1, h.2⟩⟩

open Semaphore

/-! ## What a change does to the tickets -/

section TicketMoves

variable {n m : Nat} {op : Op} {s₀ s s' : Semaphore}

theorem tickets_decQueued (s : Semaphore) (k : String) : (s.decQueued k).tickets = s.tickets := by
  rw [decQueued_eq]
  rfl

theorem mapVals_resolvePermit (permits : Dict Nat Permit) (r : Request) :
    (resolvePermit permits r).mapVals Permit.kind =
      if ((permits.mapVals Permit.kind).get? r.id).isSome then permits.mapVals Permit.kind
      else (permits.mapVals Permit.kind).set r.id r.kind := by
  rw [resolvePermit, Dict.get?_mapVals, Option.isSome_map]
  split
  · rfl
  · rw [Dict.mapVals_set]
    rfl

theorem tickets_grant (s : Semaphore) (r : Request) :
    (s.grant r).1.tickets = if r.onAcquireThrows then s.tickets else s.tickets.serve r.id r.kind := by
  rw [grant_fst]
  cases r.onAcquireThrows with
  | true => rfl
  | false =>
    unfold tickets Tickets.serve
    simp only [Bool.false_eq_true, if_false, mapVals_resolvePermit]

/-- A permit is handed out with the kind of its waiter. -/
theorem tickets_grantWaiter (s : Semaphore) (w : Waiter) :
    (s.grantWaiter w).tickets =
      if w.onAcquireThrows then s.tickets else s.tickets.serve w.id w.kind := by
  rw [Semaphore.grantWaiter, tickets_grant, tickets_decQueued]

/-- Outside a drain nobody is served, and nobody joins the queue. -/
theorem Move.tickets [ShareRounding] (hm : Move m op s₀ s s') (hop : ¬ op.Drains) :
    s'.tickets.queue.Sublist s.tickets.queue ∧ s'.tickets.served = s.tickets.served := by
  cases hm with
  | note _ => exact ⟨.refl _, rfl⟩
  | grantWaiter h => exact absurd h hop
  | grantThrown h => exact absurd h hop
  | leave _ _ _ _ =>
    rw [Semaphore.leave, decQueued_eq]
    exact ⟨List.Sublist.map _ List.erase_sublist, rfl⟩
  | @release now id _ =>
    rcases s.release_cases now id with heq | ⟨p, timer, hp, _, heq⟩
    · rw [heq]
      exact ⟨.refl _, rfl⟩
    · rw [heq]
      refine ⟨.refl _, ?_⟩
      show (s.permits.set id { p with stage := .cooling }).mapVals Permit.kind = _
      rw [Dict.mapVals_set, Dict.set_eq_self]
      · rfl
      · rw [Dict.get?_mapVals, hp]
        rfl
  | applyReleases h =>
    subst h
    exact absurd trivial hop
  | resize _ => exact ⟨.refl _, rfl⟩
  | setHardCap _ => exact ⟨.refl _, rfl⟩
  | setSoftLimit _ => exact ⟨.refl _, rfl⟩
  | @reconfigure opts _ =>
    simp only [Semaphore.reconfigure]
    split <;> exact ⟨.refl _, rfl⟩
  | shutdown _ =>
    obtain ⟨q, es, _, heq⟩ := s.shutdown_eq
    rw [heq]
    exact ⟨List.nil_sublist _, rfl⟩

theorem valid_moves [ShareRounding] (hop : ¬ op.Drains) (h : s.tickets.Valid n)
    (hm : Moves m op s₀ s s') : s'.tickets.Valid n := by
  refine hm.invariant (I := fun s => s.tickets.Valid n) ?_ h
  intro a b ha hab
  obtain ⟨hq, hs⟩ := hab.tickets hop
  have := ha.leave hq
  rw [← hs] at this
  exact this

theorem tickets_applyReleases (s : Semaphore) : s.applyReleases.tickets = s.tickets := by
  obtain ⟨a, d, es, _, heq⟩ := s.applyReleases_eq
  rw [heq]
  simp only [tickets, Dict.mapVals, List.map_map, Function.comp_def, Permit.kind, Permit.applied]
  refine congrArg _ (List.map_congr_left fun e _ => ?_)
  split <;> rfl

end TicketMoves

/-! ## The books of a refusal -/

section BooksMoves

variable {n m : Nat} {op : Op} {s₀ s s' : Semaphore}

theorem byIntention_nonneg_grant (h : ∀ k, 0 ≤ s.activeByIntention.getD k 0) {r : Request}
    (hw : 0 < r.weight) (k : String) : 0 ≤ (s.grant r).1.activeByIntention.getD k 0 := by
  rw [grant_fst]
  have := h r.intention
  exact getD_set_nonneg h (by omega) _ _

theorem byIntention_nonneg_grantWaiter (h : ∀ k, 0 ≤ s.activeByIntention.getD k 0) {w : Waiter}
    (hw : 0 < w.weight) (k : String) : 0 ≤ (s.grantWaiter w).activeByIntention.getD k 0 := by
  refine byIntention_nonneg_grant (fun k => ?_) hw k
  rw [decQueued_eq]
  exact h k

theorem settable_move [ShareRounding] (h : s.limit = .nan ∨ ∃ l, s.limit = .fin l)
    (hm : Move m op s₀ s s') : s'.limit = .nan ∨ ∃ l, s'.limit = .fin l := by
  rcases hm.limit_cases with ⟨heq, -⟩ | ⟨x, -, rfl⟩ | ⟨x, softLimit, -, rfl⟩
  · rwa [heq]
  · exact clampLimit_settable s x
  · dsimp only
    split
    · exact .inr ⟨_, rfl⟩
    · exact h

/-- The books survive every change, exceptions included. -/
theorem Books.move [ShareRounding] (h₀ : s₀.Weighted) (h : Books s) (hm : Move m op s₀ s s') :
    Books s' := by
  refine ⟨?_, hm.weighted h₀ h.weighted, settable_move h.settable hm⟩
  have hnn := h.byIntention_nonneg
  cases hm with
  | note _ => exact hnn
  | @grantWaiter pre w post _ hs _ _ =>
    exact byIntention_nonneg_grantWaiter hnn (h.weighted w (by simp [hs]))
  | @grantThrown pre w post visited _ hs _ _ _ _ =>
    exact byIntention_nonneg_grantWaiter hnn (h.weighted w (by simp [hs]))
  | leave _ _ _ _ =>
    rw [Semaphore.leave, decQueued_eq]
    exact hnn
  | @release now id _ =>
    rcases s.release_cases now id with heq | ⟨p, timer, _, _, heq⟩ <;> rw [heq] <;> exact hnn
  | applyReleases _ => exact byIntention_nonneg_applyReleases hnn
  | resize _ => exact hnn
  | setHardCap _ => exact hnn
  | setSoftLimit _ => exact hnn
  | @reconfigure opts _ =>
    simp only [Semaphore.reconfigure]
    split
    · exact hnn
    · exact fun k => (hnn k).trans (getD_ensureKeys _ _ k).ge
  | shutdown _ =>
    obtain ⟨q, es, _, heq⟩ := s.shutdown_eq
    rw [heq]
    exact fun k => (getD_mapVals_zero _ k).ge

theorem Books.intake [ShareRounding] {opts : AcquireOptions} (h : Books s)
    (hin : Intake n opts s s') : Books s' := by
  refine ⟨?_, hin.weighted h.weighted, ?_⟩
  · cases hin with
    | grant _ _ hw _ => exact byIntention_nonneg_grant h.byIntention_nonneg hw
    | enqueue _ _ _ _ henq =>
      obtain ⟨-, rfl⟩ := enqueue_eq henq
      exact h.byIntention_nonneg
  · rw [hin.limit_eq.1]
    exact h.settable

theorem books_new (opts : ConcurrencyGateOptions) : Books (Semaphore.new opts) where
  byIntention_nonneg := (demand_new opts).byIntention_nonneg
  weighted := weighted_new opts
  settable := .inr ⟨_, rfl⟩

theorem books_step [ShareRounding] {g : Gate} (h : Books g.semaphore) (op : Op) :
    Books (g.step op).semaphore := by
  refine step_invariant (I := fun _ s => Books s) ?_ (fun _ hs => hs) ?_ h
  · intro m s s' _ hs hm
    exact hs.move h.weighted hm
  · intro opts s s' _ hs hin
    exact hs.intake hin

end BooksMoves

/-! ## A drain -/

section Drains

variable [ShareRounding] {n : Nat} {s : Semaphore}

omit [ShareRounding] in
/-- One granted turn of the loop, in the queue as an exception leaves it: the
waiter stays in its place with its timer cleared. -/
theorem tickets_turn (s : Semaphore) (visited rest : List Waiter) (w : Waiter) :
    ({ s.grantWaiter w with
        waiters := visited ++ { w with timeout := none } :: rest } : Semaphore).tickets =
      if w.onAcquireThrows then ({ s with waiters := visited ++ w :: rest } : Semaphore).tickets
      else ({ s with waiters := visited ++ w :: rest } : Semaphore).tickets.serve w.id w.kind := by
  have hserved := congrArg Tickets.served (tickets_grantWaiter s w)
  cases ht : w.onAcquireThrows with
  | true =>
    rw [ht, if_pos rfl] at hserved
    unfold tickets at hserved ⊢
    simp only [List.map_append, List.map_cons, if_true] at hserved ⊢
    rw [hserved]
  | false =>
    rw [ht, if_neg (by simp)] at hserved
    unfold tickets Tickets.serve at hserved ⊢
    simp only [List.map_append, List.map_cons, Bool.false_eq_true, if_false] at hserved ⊢
    rw [hserved]

/-- A pass of the drain serves each kind in the order of the queue:
`visited` is the queue up to the loop's position, and who waits in it was
refused. -/
theorem drainLoop_valid (ws : List Waiter) : ∀ (s : Semaphore) (remaining visited : List Waiter),
    ({ s with waiters := visited ++ ws } : Semaphore).tickets.Valid n →
    (∀ k, 0 ≤ s.activeByIntention.getD k 0) → (∀ w ∈ visited ++ ws, 0 < w.weight) →
    (s.limit = .nan ∨ ∃ l, s.limit = .fin l) → remaining.Sublist visited →
    (∀ w ∈ visited, s.tickets.served.get? w.id = none →
      s.canGrant w.intention w.weight = false) →
    (s.drainLoop remaining visited ws).1.tickets.Valid n := by
  induction ws with
  | nil =>
    intro s remaining visited hv _ _ _ hsub _
    rw [List.append_nil] at hv
    exact hv.leave (l := remaining.map fun w => (w.id, w.kind)) (hsub.map _)
  | cons next rest ih =>
    intro s remaining visited hv hnn hpos hl hsub href
    have hw : 0 < next.weight := hpos next (by simp)
    cases hc : s.canGrant next.intention next.weight with
    | false =>
      rw [drainLoop_cons_refused hc]
      have hassoc : visited ++ [next] ++ rest = visited ++ next :: rest := by simp
      refine ih s _ _ (hassoc ▸ hv) hnn (hassoc ▸ hpos) hl (hsub.append (.refl _)) ?_
      intro w hw hnone
      rcases List.mem_append.mp hw with hw | hw
      · exact href w hw hnone
      · rwa [List.mem_singleton.mp hw]
    | true =>
      have hturn := tickets_turn s visited rest next
      cases ht : next.onAcquireThrows with
      | true =>
        -- no permit is handed out, and the queue stays as it is
        rw [drainLoop_cons_thrown hc ht, hturn, ht]
        exact hv
      | false =>
        rw [drainLoop_cons_granted hc ht]
        rw [ht, if_neg (by simp)] at hturn
        -- an earlier waiter of the kind was refused, so it has its permit
        have hfirst : ∀ x ∈ visited.map (fun w => (w.id, w.kind)),
            s.tickets.served.get? x.1 = none → x.2 ≠ next.kind := by
          intro x hx hnone hk
          obtain ⟨w, hmem, rfl⟩ := List.mem_map.mp hx
          have hrefused := href w hmem hnone
          obtain ⟨hi, hwt⟩ := Prod.mk.inj hk
          rw [hi, hwt, hc] at hrefused
          exact absurd hrefused (by simp)
        have hserve := hv.serve_queued (w := (next.id, next.kind)) (by
          show List.map _ (visited ++ next :: rest) = _
          rw [List.map_append, List.map_cons]) hfirst
        refine ih _ _ _ ?_ (byIntention_nonneg_grantWaiter hnn hw) ?_ ?_
          (hsub.trans (List.sublist_append_left _ _)) ?_
        · rw [List.append_assoc, List.singleton_append, hturn]
          exact hserve
        · intro x hx
          simp only [List.mem_append, List.mem_singleton] at hx
          rcases hx with (hx | rfl) | hx
          · exact hpos x (by simp [hx])
          · exact hw
          · exact hpos x (by simp [hx])
        · rw [Semaphore.grantWaiter, grant_fst, decQueued_eq]
          exact hl
        · intro x hx hnone
          rw [tickets_grantWaiter, ht, if_neg (by simp)] at hnone
          obtain ⟨hne, hnone⟩ := Tickets.of_get?_serve hnone
          rcases List.mem_append.mp hx with hx | hx
          · exact (tighter_grantWaiter hnn hw).refused hl hnn (hpos x (by simp [hx]))
              (href x hx hnone)
          · exact absurd (congrArg Waiter.toRequest (List.mem_singleton.mp hx) ▸ rfl) hne

theorem drainWaiters_valid (h : s.tickets.Valid n) (hb : Books s) :
    s.drainWaiters.1.tickets.Valid n := by
  unfold drainWaiters
  split
  · exact h
  · exact drainLoop_valid s.waiters s [] [] h hb.byIntention_nonneg hb.weighted hb.settable
      (.refl _) (by simp)

theorem onReleaseTimer_valid (h : s.tickets.Valid n) (hb : Books s) :
    s.onReleaseTimer.tickets.Valid n := by
  have hm : Move n .cooldownExpiry s s s.applyReleases := .applyReleases rfl
  have hdrain := drainWaiters_valid (tickets_applyReleases s ▸ h) (hb.move hb.weighted hm)
  unfold onReleaseTimer
  split
  · rename_i heq
    rwa [heq] at hdrain
  · rename_i heq
    rw [heq] at hdrain
    exact hdrain

theorem resize_valid (h : s.tickets.Valid n) (hb : Books s) (newLimit : Num ℚ) :
    (s.resize newLimit).1.tickets.Valid n := by
  simp only [Semaphore.resize]
  split
  · exact h
  · exact drainWaiters_valid h { hb with settable := clampLimit_settable _ _ }

theorem setHardCap_valid (h : s.tickets.Valid n) (hb : Books s) (newHardCap : Num ℚ) :
    (s.setHardCap newHardCap).1.tickets.Valid n := by
  simp only [Semaphore.setHardCap]
  split
  · exact h
  · split
    · exact drainWaiters_valid h { hb with settable := .inr ⟨_, rfl⟩ }
    · exact h

end Drains

/-! ## The operations -/

section Operations

variable [ShareRounding] {g : Gate}

omit [ShareRounding] in
theorem afterSetter_tickets (g : Gate) (r : Semaphore × Bool) :
    (g.afterSetter r).semaphore.tickets = r.1.tickets := by
  unfold Gate.afterSetter
  split <;> rfl

/-- An `acquire` that is not granted on arrival takes a place in the queue,
or none. -/
theorem acquire_cases (g : Gate) (opts : AcquireOptions) :
    (g.GrantsOnArrival opts ∧
      (g.acquire opts).semaphore.tickets = g.semaphore.tickets.serve g.nextId opts.kind) ∨
    (¬ g.GrantsOnArrival opts ∧
      ((g.acquire opts).semaphore.tickets = g.semaphore.tickets ∨
        (g.acquire opts).semaphore.tickets = { g.semaphore.tickets with
          queue := g.semaphore.tickets.queue ++ [(g.nextId, opts.kind)] })) := by
  obtain ⟨l, ⟨hno, heq⟩ | ⟨hin, hc, heq⟩ | ⟨-, hc, ⟨-, heq⟩ | ⟨-, w, hw, heq⟩⟩⟩ :=
    acquire_semaphore g opts
  · refine .inr ⟨fun h => hno h.1, .inl ?_⟩
    rw [heq]
    rfl
  · have hgrant := tickets_grant g.semaphore (g.request opts)
    cases ht : opts.onAcquireThrows with
    | true =>
      rw [if_pos (show (g.request opts).onAcquireThrows = true from ht)] at hgrant
      refine .inr ⟨fun h => by simp [h.2.2] at ht, .inl ?_⟩
      rw [heq]
      exact hgrant
    | false =>
      rw [if_neg (by simp [show (g.request opts).onAcquireThrows = false from ht])] at hgrant
      refine .inl ⟨⟨hin, hc, ht⟩, ?_⟩
      rw [heq]
      exact hgrant
  · refine .inr ⟨fun h => ?_, .inl ?_⟩
    · have hc' := h.2.1
      exact absurd (hc.symm.trans hc') (by simp)
    · rw [heq]
      rfl
  · refine .inr ⟨fun h => ?_, .inr ?_⟩
    · have hc' := h.2.1
      exact absurd (hc.symm.trans hc') (by simp)
    · have hkind : (w.id, w.kind) = (g.nextId, opts.kind) := by
        rw [hw]
        rfl
      rw [heq]
      unfold tickets
      rw [List.map_append, List.map_singleton, hkind]

/-- What one operation preserves. -/
theorem tickets_step (hb : Books g.semaphore) (h : g.semaphore.tickets.Valid g.nextId) {op : Op}
    (hop : ¬ g.Overtakes op) : (g.step op).semaphore.tickets.Valid (g.step op).nextId := by
  by_cases hdrain : op.Drains
  · have hid := (step_moves g op (by rintro opts rfl; exact hdrain)).1
    rw [hid]
    cases op with
    | cooldownExpiry =>
      simp only [Gate.step]
      split
      · exact h
      · split
        · exact onReleaseTimer_valid h hb
        · exact h
    | resize newLimit =>
      rw [Gate.step, afterSetter_tickets]
      exact resize_valid h hb newLimit
    | setHardCap newHardCap =>
      rw [Gate.step, afterSetter_tickets]
      exact setHardCap_valid h hb newHardCap
    | _ => exact absurd hdrain id
  · by_cases hacq : ∃ opts, op = .acquire opts
    · obtain ⟨opts, rfl⟩ := hacq
      rw [Gate.step, (acquire_effect g.semaphore g opts).1]
      rcases acquire_cases g opts with ⟨hnow, heq⟩ | ⟨-, heq | heq⟩
      · rw [heq]
        exact h.serve_arrival fun w hw hnone hk => hop ⟨hnow, w, hw, hnone, hk⟩
      · rw [heq]
        exact h.next
      · rw [heq]
        exact h.join opts.kind
    · obtain ⟨hid, hm⟩ := step_moves g op fun opts h => hacq ⟨opts, h⟩
      rw [hid]
      exact valid_moves hdrain h hm

/-- A permit handed out past a waiting request of its kind is out of order. -/
theorem not_inOrder_of_overtakes (h : g.semaphore.tickets.Valid g.nextId) {op : Op}
    (hop : g.Overtakes op) : ¬ (g.step op).semaphore.tickets.InOrder := by
  cases op with
  | acquire opts =>
    obtain ⟨hnow, w, hw, hnone, hk⟩ := hop
    rcases acquire_cases g opts with ⟨-, heq⟩ | ⟨hlater, -⟩
    · rw [Gate.step, heq]
      exact h.not_inOrder_serve hw hnone hk
    · exact absurd hnow hlater
  | _ => exact absurd hop id

/-! ## Every run -/

theorem inOrder_iff_of_valid (ops : List Op) : ∀ g : Gate, Books g.semaphore →
    g.semaphore.tickets.Valid g.nextId →
    ((∀ i, (Lib.run Gate.step g (ops.take i)).semaphore.tickets.InOrder) ↔
      StepsMeet Gate.step (fun g op => ¬ g.Overtakes op) g ops) := by
  induction ops with
  | nil =>
    intro g _ h
    simpa [StepsMeet] using h.inOrder
  | cons op ops ih =>
    intro g hb h
    constructor
    · intro hord
      have hop : ¬ g.Overtakes op := fun hop => not_inOrder_of_overtakes h hop (hord 1)
      exact ⟨hop, (ih _ (books_step hb op) (tickets_step hb h hop)).mp fun i => hord (i + 1)⟩
    · rintro ⟨hop, hrest⟩ i
      cases i with
      | zero => exact h.inOrder
      | succ i => exact (ih _ (books_step hb op) (tickets_step hb h hop)).mpr hrest i

/-- In a run, requests of one intention and weight get their permits in the
order of their `acquire` calls, and none gets one while an earlier one
waits, if and only if no call takes the fast path past a waiting one. -/
theorem served_in_order_iff (opts : ConcurrencyGateOptions) (ops : List Op) :
    (∀ i, (Gate.after opts (ops.take i)).semaphore.tickets.InOrder) ↔
      StepsMeet Gate.step (fun g op => ¬ g.Overtakes op) (Gate.new opts) ops :=
  inOrder_iff_of_valid ops (Gate.new opts) (books_new opts)
    (Tickets.valid_empty _)

/-- In a settled queue nobody waits whom the fast path would grant. -/
theorem Settled.not_overtakes (h : Settled g.semaphore) (op : Op) : ¬ g.Overtakes op := by
  cases op with
  | acquire opts =>
    rintro ⟨⟨-, hc, -⟩, e, he, -, hk⟩
    obtain ⟨w, hw, rfl⟩ := List.mem_map.mp he
    obtain ⟨hi, hwt⟩ := Prod.mk.inj hk
    have hrefused := h w hw
    rw [hi, hwt] at hrefused
    simp [AcquireOptions.kind, hrefused] at hc
  | _ => exact id

/-- A run that loses no wakeup serves in order. -/
theorem served_in_order_of_losesNoWakeup (opts : ConcurrencyGateOptions) (ops : List Op)
    (hops : StepsMeet Gate.step Gate.LosesNoWakeup (Gate.new opts) ops) :
    (Gate.after opts ops).semaphore.tickets.InOrder := by
  have h := run_invariant_of_stepsMeet (I := fun g : Gate => (Demand g.semaphore ∧
    Settled g.semaphore) ∧ Books g.semaphore ∧ g.semaphore.tickets.Valid g.nextId)
    ?_ ⟨⟨demand_new opts, ?_⟩, books_new opts, Tickets.valid_empty _⟩ hops
  · exact h.2.2.inOrder
  · rintro g op ⟨⟨hd, hs⟩, hb, hv⟩ ⟨hcb, hwake⟩
    exact ⟨⟨demand_step hcb hd, settled_step hcb hd hs hwake⟩, books_step hb op,
      tickets_step hb hv (hs.not_overtakes op)⟩
  · intro w hw
    exact absurd hw (by simp [Gate.new, Semaphore.new])

end Operations

section Runs

attribute [local instance] exactShare

/-- After the abort the small main request (2) fits but stays queued; an
equal request (3) is granted at once. -/
theorem fast_path_overtakes :
    (∀ op ∈ abortedVision, op.CallbackReturns) ∧
    (Gate.after twoSlots
      (abortedVision ++ [.acquire { weight := some (1 / 4) }])).semaphore.tickets =
      ⟨[(2, "main", 250)], [(0, "main", 1250), (3, "main", 250)]⟩ ∧
    ¬ (Gate.after twoSlots
      (abortedVision ++ [.acquire { weight := some (1 / 4) }])).semaphore.tickets.InOrder := by
  decide +kernel

end Runs

end UmansGate.Limiter
