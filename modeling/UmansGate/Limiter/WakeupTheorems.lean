/-
UmansGate.Limiter.WakeupTheorems — when a queued waiter is left waiting
although the gate would grant it.

`resize`, `setHardCap` and the release timer end in `drainWaiters`, after
which nobody in the queue can be granted. A queue timeout, an abort and
`reconfigure` do not drain: when they end the last demand of an intention,
or change the reservations, a waiter can become grantable and stays
queued (`lost_wakeup`). `Gate.WakesNobody` is the condition under which
they do not, and under it every reachable state is settled.
-/
import UmansGate.Limiter.AccountingTheorems
import UmansGate.Limiter.AdmissionTheorems
import UmansGate.Limiter.CapTheorems

namespace UmansGate.Limiter

open UmansGate.Lib

/-- The step hands in no throwing callback. -/
def Op.CallbackReturns : Op → Prop
  | .acquire opts => opts.onAcquireThrows = false
  | _ => True

/-- What the admission of queued waiters relies on. -/
structure Demand (s : Semaphore) : Prop where
  counted : s.Counted
  byIntention_nonneg : ∀ k, 0 ≤ s.activeByIntention.getD k 0
  weighted : s.Weighted
  patient : ∀ w ∈ s.waiters, w.onAcquireThrows = false
  settable : s.limit = .nan ∨ ∃ l, s.limit = .fin l

open Semaphore

/-! ## The books behind the queue -/

theorem getD_set_nonneg {d : Dict String Int} (h : ∀ k, 0 ≤ d.getD k 0) {x : Int} (hx : 0 ≤ x)
    (k k' : String) : 0 ≤ (d.set k x).getD k' 0 := by
  rw [Dict.getD_set]
  split
  · exact hx
  · exact h k'

theorem byIntention_nonneg_applyReleases {s : Semaphore}
    (h : ∀ k, 0 ≤ s.activeByIntention.getD k 0) :
    ∀ k, 0 ≤ s.applyReleases.activeByIntention.getD k 0 := by
  refine List.foldlRecOn (motive := fun a : Semaphore => ∀ k, 0 ≤ a.activeByIntention.getD k 0)
    s.pendingReleases applyRelease h ?_
  intro a ha rel _ k
  exact getD_set_nonneg ha (le_max_left _ _) _ _

theorem clampLimit_settable (s : Semaphore) (x : Num ℚ) :
    s.clampLimit x = .nan ∨ ∃ l, s.clampLimit x = .fin l := by
  cases x with
  | nan => exact .inl rfl
  | negInf => exact .inr ⟨SCALE, rfl⟩
  | fin q => exact .inr ⟨_, rfl⟩
  | posInf => exact .inr ⟨_, rfl⟩

/-- The rejection loop of `shutdown` takes each waiter off its counter. -/
theorem foldl_rejectShutdown_queued (ws : List Waiter) : ∀ s : Semaphore,
    (∀ k, 0 ≤ s.queuedByIntention.getD k 0) →
    ∀ k, (ws.foldl (fun s w => (s.decQueued w.intention).note (.rejected w.id .shutdown))
      s).queuedByIntention.getD k 0 =
        max 0 (s.queuedByIntention.getD k 0 - ws.countP (·.intention = k)) := by
  induction ws with
  | nil =>
    intro s h k
    have := h k
    simp only [List.foldl_nil, List.countP_nil]
    omega
  | cons w ws ih =>
    intro s h k
    have hdec : ∀ k, ((s.decQueued w.intention).note (.rejected w.id .shutdown)
        ).queuedByIntention.getD k 0 =
        max 0 (s.queuedByIntention.getD k 0 - if w.intention = k then 1 else 0) := by
      intro k
      have hk := h k
      rw [decQueued_eq]
      show (s.queuedByIntention.set w.intention
        (max 0 (s.queuedByIntention.getD w.intention 0 - 1))).getD k 0 = _
      rw [Dict.getD_set]
      split
      · rename_i heq
        rw [heq]
      · omega
    rw [List.foldl_cons, ih _ (fun k => ?_) k, hdec, List.countP_cons]
    · simp only [decide_eq_true_eq]
      push_cast
      omega
    · rw [hdec]
      exact le_max_left _ _

theorem counted_shutdown {s : Semaphore} (h : s.Counted) : s.shutdown.Counted := by
  intro k
  have := foldl_rejectShutdown_queued s.waiters s (fun k => by rw [h k]; omega) k
  show (s.waiters.foldl _ s).queuedByIntention.getD k 0 = 0
  rw [this, h k, waitersOf, sub_self, max_self]

section DemandMoves

variable {n : Nat} {op : Op} {s₀ s s' : Semaphore}

theorem Demand.dequeue (h : Demand s) {w : Waiter} {l : List Waiter} (hmem : w ∈ s.waiters)
    (hl : ∀ P : Waiter → Bool, l.countP P + (if P w then 1 else 0) = s.waiters.countP P)
    (hsub : ∀ x ∈ l, x ∈ s.waiters) : Demand ({ s with waiters := l }.decQueued w.intention) := by
  have hc := h.counted.dequeue hmem hl
  rw [decQueued_eq] at hc ⊢
  exact ⟨hc, h.byIntention_nonneg, fun x hx => h.weighted x (hsub x hx),
    fun x hx => h.patient x (hsub x hx), h.settable⟩

theorem Demand.grant (h : Demand s) {r : Request} (hw : 0 < r.weight) : Demand (s.grant r).1 := by
  rw [grant_fst]
  refine ⟨h.counted, fun k => ?_, h.weighted, h.patient, h.settable⟩
  have := h.byIntention_nonneg r.intention
  exact getD_set_nonneg h.byIntention_nonneg (by omega) _ _

theorem Demand.grantWaiter (h : Demand s) {pre post : List Waiter} {w : Waiter}
    (hs : s.waiters = pre ++ w :: post) :
    Demand { s.grantWaiter w with waiters := pre ++ post } := by
  have hmem : w ∈ s.waiters := by simp [hs]
  have hd : Demand ({ s with waiters := pre ++ post }.decQueued w.intention) := by
    refine h.dequeue hmem (fun P => ?_) (fun x hx => ?_)
    · rw [hs]
      exact countP_middle P pre post w
    · rw [hs]
      exact (List.Sublist.append_left (List.sublist_cons_self w post) pre).subset hx
  rw [grantWaiter_of_waiters]
  exact hd.grant (h.weighted w hmem)

/-- The books survive every change. -/
theorem Demand.move [ShareRounding] (h : Demand s) (hm : Move n op s₀ s s') : Demand s' := by
  cases hm with
  | note _ => exact { h with }
  | grantWaiter _ hs _ _ => exact h.grantWaiter hs
  | @grantThrown pre w post visited _ hs _ ht _ _ =>
    have := h.patient w (by simp [hs])
    rw [this] at ht
    exact absurd ht Bool.false_ne_true
  | @leave w code es _ hw _ _ =>
    exact { h.dequeue hw (fun P => countP_erase P hw) fun x => List.mem_of_mem_erase with }
  | @release now id _ =>
    rcases s.release_cases now id with heq | ⟨p, timer, _, _, heq⟩
    · rwa [heq]
    · rw [heq]
      exact { h with }
  | applyReleases _ =>
    have hnn := byIntention_nonneg_applyReleases h.byIntention_nonneg
    obtain ⟨a, d, es, _, heq⟩ := s.applyReleases_eq
    rw [heq] at hnn ⊢
    exact ⟨h.counted, hnn, h.weighted, h.patient, h.settable⟩
  | resize _ => exact { h with settable := clampLimit_settable s _ }
  | setHardCap _ =>
    refine { h with settable := ?_ }
    dsimp only
    split
    · exact .inr ⟨_, rfl⟩
    · exact h.settable
  | setSoftLimit _ => exact { h with }
  | @reconfigure opts _ =>
    simp only [Semaphore.reconfigure]
    split
    · exact { h with }
    · refine { h with counted := fun k => ?_, byIntention_nonneg := fun k => ?_ }
      · exact (getD_ensureKeys _ _ k).trans (h.counted k)
      · exact (h.byIntention_nonneg k).trans (getD_ensureKeys _ _ k).ge
  | shutdown _ =>
    have hc := counted_shutdown h.counted
    obtain ⟨q, es, _, heq⟩ := s.shutdown_eq
    rw [heq] at hc ⊢
    exact ⟨hc, fun k => (getD_mapVals_zero _ k).ge, by simp [Weighted], by simp, h.settable⟩

theorem Demand.intake [ShareRounding] {opts : AcquireOptions} (h : Demand s) (hin : Intake n opts s s')
    (hopts : opts.onAcquireThrows = false) : Demand s' := by
  cases hin with
  | grant _ _ hw _ => exact h.grant hw
  | @enqueue _ w hid ht hw hc henq =>
    have hcounted := h.counted.enqueue henq
    have hweighted := Intake.weighted (.enqueue hid ht hw hc henq) h.weighted
    obtain ⟨-, rfl⟩ := enqueue_eq henq
    refine ⟨hcounted, h.byIntention_nonneg, hweighted, fun x hx => ?_, h.settable⟩
    rcases List.mem_append.mp hx with hx | hx
    · exact h.patient x hx
    · rw [List.mem_singleton.mp hx, ht, hopts]

end DemandMoves

section Settling

variable [ShareRounding] {s s' : Semaphore}

/-! ## Settled queues -/

/-- No queued waiter would be granted if it asked now. -/
def Settled (s : Semaphore) : Prop := ∀ w ∈ s.waiters, s.canGrant w.intention w.weight = false

/-- What was refused stays refused. -/
theorem Semaphore.Tighter.refused {j : String} {b : Int} (ht : Tighter s s' j b)
    (hl : s.limit = .nan ∨ ∃ l, s.limit = .fin l) (hnn : ∀ k, 0 ≤ s.activeByIntention.getD k 0)
    {k : String} {w : Int} (hw : 0 < w) (hc : s.canGrant k w = false) :
    s'.canGrant k w = false := by
  rcases hl with hl | ⟨l, hl⟩
  · have ha := hnn k
    have ha' := ht.byIntention_eq k
    have hb := ht.weight_nonneg
    refine canGrant_nan (ht.limit_eq.trans hl) hw ?_
    split at ha' <;> omega
  · cases hc' : s'.canGrant k w with
    | false => rfl
    | true =>
      rw [Tighter.canGrant ht hl hc'] at hc
      exact hc

omit [ShareRounding] in
theorem tighter_grant (h : Demand s) {r : Request} (hw : 0 < r.weight) :
    Tighter s (s.grant r).1 r.intention r.weight := by
  rw [grant_fst]
  refine ⟨rfl, rfl, hw.le, rfl, fun k => Dict.getD_set_getD_add _ _ k _, fun k hk => ?_⟩
  dsimp only at hk
  rw [Dict.getD_set_getD_add] at hk
  have ha := h.byIntention_nonneg k
  have hq := h.counted k
  split at hk <;> omega

omit [ShareRounding] in
theorem tighter_grantWaiter (h : ∀ k, 0 ≤ s.activeByIntention.getD k 0) {w : Waiter}
    (hw : 0 < w.weight) :
    Tighter s (s.grantWaiter w) w.intention w.weight := by
  rw [Semaphore.grantWaiter, grant_fst, decQueued_eq]
  refine ⟨rfl, rfl, hw.le, rfl, fun k => Dict.getD_set_getD_add _ _ k _, fun k hk => ?_⟩
  dsimp only at hk
  rw [Dict.getD_set_getD_add, Dict.getD_set] at hk
  have ha := h k
  by_cases hkw : k = w.intention
  · -- the permit itself is demand
    subst hkw
    rw [if_pos rfl, if_pos rfl] at hk
    omega
  · rw [if_neg hkw, if_neg (Ne.symm hkw)] at hk
    omega

omit [ShareRounding] in
theorem tighter_enqueue (h : Demand s) {w : Waiter} (henq : s.enqueue w = some s') :
    Tighter s s' w.intention 0 := by
  obtain ⟨-, rfl⟩ := enqueue_eq henq
  refine ⟨rfl, rfl, le_rfl, (Int.add_zero _).symm, fun k => by simp, fun k hk => ?_⟩
  dsimp only at hk
  rw [Dict.getD_set] at hk
  have ha := h.byIntention_nonneg k
  have hq := h.counted k
  by_cases hkw : w.intention = k
  · subst hkw
    rw [if_pos rfl] at hk
    omega
  · rwa [if_neg hkw] at hk

/-- One pass of the drain loop is enough: a waiter that was passed over is
refused until the end of the pass. -/
theorem drainLoop_settled (ws : List Waiter) : ∀ (s : Semaphore) (remaining visited : List Waiter),
    Demand { s with waiters := remaining ++ ws } →
    (∀ w ∈ remaining, s.canGrant w.intention w.weight = false) →
    Settled (s.drainLoop remaining visited ws).1 := by
  induction ws with
  | nil =>
    intro s remaining visited _ hrem w hw
    exact hrem w hw
  | cons next rest ih =>
    intro s remaining visited hd hrem
    have hnext : next ∈ remaining ++ next :: rest := by simp
    cases hc : s.canGrant next.intention next.weight with
    | false =>
      rw [drainLoop_cons_refused hc]
      refine ih s _ _ ?_ fun w hw => ?_
      · rwa [List.append_assoc, List.singleton_append]
      · rcases List.mem_append.mp hw with hw | hw
        · exact hrem w hw
        · rwa [List.mem_singleton.mp hw]
    | true =>
      rw [drainLoop_cons_granted hc (hd.patient next hnext)]
      have hd' : Demand { s.grantWaiter next with waiters := remaining ++ rest } := by
        rw [← grantWaiter_waiters s next (remaining ++ next :: rest)]
        exact hd.grantWaiter rfl
      have ht := tighter_grantWaiter hd.byIntention_nonneg (hd.weighted next hnext)
      rw [← grantWaiter_of_waiters] at ht
      refine ih _ _ _ hd' fun w hw => ?_
      exact ht.refused hd.settable hd.byIntention_nonneg (hd.weighted w (List.mem_append_left _ hw)) (hrem w hw)

theorem drainWaiters_settled (h : Demand s) : Settled s.drainWaiters.1 := by
  unfold drainWaiters
  split
  · rename_i hnil
    intro w hw
    rw [hnil] at hw
    exact absurd hw (by simp)
  · exact drainLoop_settled s.waiters s [] [] h (by simp)

/-! ## The operations -/

theorem canGrant_congr (s s' : Semaphore) (hl : s'.limit = s.limit) (hr : s'.reservations = s.reservations)
    (ha : s'.active = s.active)
    (hby : ∀ k, s'.activeByIntention.getD k 0 = s.activeByIntention.getD k 0)
    (hq : ∀ k, s'.queuedByIntention.getD k 0 = s.queuedByIntention.getD k 0) (k : String)
    (w : Int) : s'.canGrant k w = s.canGrant k w := by
  simp only [Semaphore.canGrant, effectiveReservations_congr hl hr, overSubscribed, capacity, hl,
    hr, ha, hby, hq]

/-- `reconfigure` adds counters but changes none. -/
theorem canGrant_reconfigure {opts : ReconfigureOptions} {intentions : Dict String ℚ}
    (hint : opts.intentions = some intentions) (k : String) (w : Int) :
    (s.reconfigure opts).canGrant k w =
      { s with reservations := scaleIntentions intentions }.canGrant k w := by
  refine canGrant_congr { s with reservations := scaleIntentions intentions }
    (s.reconfigure opts) ?_ ?_ ?_ ?_ ?_ k w <;>
    simp only [Semaphore.reconfigure, hint, getD_ensureKeys, implies_true]

omit [ShareRounding] in
theorem reconfigure_waiters (s : Semaphore) (opts : ReconfigureOptions) :
    (s.reconfigure opts).waiters = s.waiters := by
  simp only [Semaphore.reconfigure]
  split <;> rfl

/-- Taking `v` out of the queue frees nothing that another waiter could
use: `v` is not the last demand of its intention, or reservations are
over-subscribed and play no part, or no waiter fits into what the
reservation of `v`'s intention keeps free. -/
def Semaphore.RemovalFreesNone (s : Semaphore) (v : Waiter) : Prop :=
  let effRes := s.effectiveReservations
  s.activeByIntention.getD v.intention 0 + (s.queuedByIntention.getD v.intention 0 - 1) ≠ 0 ∨
    s.overSubscribed effRes = true ∨
    ∀ w ∈ s.waiters, w.intention ≠ v.intention →
      Num.le (.fin (s.active + w.weight)) ((s.capacity w.intention effRes).add
        (Num.max (.fin 0) (effRes.getD v.intention (.fin 0)))) = false

/-- The waiter that a queue timeout or an abort is about to remove. -/
def Gate.removed (g : Gate) : Op → Option Waiter
  | .queueTimeout id => (g.waiter? id).filter fun w => w.timeout.any fun due => due ≤ g.now
  | .abort id => if id ∈ g.aborted then none else g.waiter? id
  | _ => none

/-- The reservations that `reconfigure` is about to install. -/
def Op.newIntentions : Op → Option (Dict String ℚ)
  | .reconfigure opts => opts.intentions
  | _ => none

/-- The operation makes no waiter grantable without draining the queue: a
removal frees nothing, and under the reservations that `reconfigure`
installs no waiter fits. -/
def Gate.WakesNobody (g : Gate) (op : Op) : Prop :=
  (∀ v ∈ g.removed op, g.semaphore.RemovalFreesNone v) ∧
    ∀ intentions ∈ op.newIntentions, ∀ w ∈ g.semaphore.waiters,
      { g.semaphore with reservations := scaleIntentions intentions }.canGrant w.intention
        w.weight = false

instance (s : Semaphore) : Decidable (Settled s) :=
  inferInstanceAs (Decidable (∀ w ∈ s.waiters, _))

instance (s : Semaphore) (v : Waiter) : Decidable (s.RemovalFreesNone v) :=
  inferInstanceAs (Decidable (_ ∨ _ ∨ ∀ w ∈ s.waiters, _))

instance (g : Gate) (op : Op) : Decidable (g.WakesNobody op) :=
  inferInstanceAs (Decidable (_ ∧ _))

instance : ∀ op : Op, Decidable op.CallbackReturns
  | .acquire opts => inferInstanceAs (Decidable (opts.onAcquireThrows = false))
  | .queueTimeout _ | .abort _ | .release _ | .cooldownExpiry | .tick _ | .resize _
  | .setHardCap _ | .setSoftLimit _ | .reconfigure _ | .record429 _ | .recordSuccess
  | .shutdown => .isTrue trivial

/-- The steps the queue stays settled under. -/
def Gate.LosesNoWakeup (g : Gate) (op : Op) : Prop := op.CallbackReturns ∧ g.WakesNobody op

instance (g : Gate) (op : Op) : Decidable (g.LosesNoWakeup op) :=
  inferInstanceAs (Decidable (_ ∧ _))

omit [ShareRounding] in
/-- The counters a removed waiter leaves behind. -/
theorem leave_fields (hd : Demand s) {v : Waiter} (hv : v ∈ s.waiters) (code : GateErrorCode)
    (es : List Event) :
    (s.leave v code es).limit = s.limit ∧ (s.leave v code es).reservations = s.reservations ∧
      (s.leave v code es).active = s.active ∧
      (s.leave v code es).activeByIntention = s.activeByIntention ∧
      ∀ k, (s.leave v code es).queuedByIntention.getD k 0 =
        s.queuedByIntention.getD k 0 - if k = v.intention then 1 else 0 := by
  have hpos := hd.counted.pos hv
  rw [Semaphore.leave, decQueued_eq]
  refine ⟨rfl, rfl, rfl, rfl, fun k => ?_⟩
  dsimp only
  rw [Dict.getD_set]
  by_cases hk : v.intention = k
  · subst hk
    rw [if_pos rfl, if_pos rfl, max_eq_right (by omega)]
  · rw [if_neg hk, if_neg (Ne.symm hk), sub_zero]

omit [ShareRounding] in
/-- What a removal frees for `k`: nothing while the demand of the removed
waiter's intention lasts, and at most the reservation of that intention. -/
theorem kept_leave (hd : Demand s) {v : Waiter} (hv : v ∈ s.waiters) (code : GateErrorCode)
    (es : List Event) {E : Dict String Int} (hE : E.keys.Nodup) (k : String) :
    (k = v.intention ∨ s.activeByIntention.getD v.intention 0 +
        (s.queuedByIntention.getD v.intention 0 - 1) ≠ 0 →
      (s.leave v code es).kept E k = s.kept E k) ∧
    s.kept E k - max 0 (E.getD v.intention 0) ≤ (s.leave v code es).kept E k := by
  obtain ⟨-, -, -, hby, hq⟩ := leave_fields hd hv code es
  have hpos := hd.counted.pos hv
  have hother : ∀ k', k' ≠ v.intention →
      (s.leave v code es).keptFor E k k' = s.keptFor E k k' := by
    intro k' hk'
    simp only [keptFor, hby, hq, if_neg hk', sub_zero]
  constructor
  · intro hcase
    have hsame : ∀ k', (s.leave v code es).keptFor E k k' = s.keptFor E k k' := by
      intro k'
      by_cases hk' : k' = v.intention
      · subst hk'
        have ha := hd.byIntention_nonneg v.intention
        by_cases hk : v.intention = k
        · rw [keptFor, keptFor, if_pos hk, if_pos hk]
        · have hmore := hcase.resolve_left (Ne.symm hk)
          rw [keptFor, keptFor, if_neg hk, if_neg hk, hby, hq, if_pos rfl, if_neg hmore,
            if_neg (by omega)]
      · exact hother k' hk'
    simp only [kept, funext hsame]
  · refine sum_sub_le (le_max_left _ _) E.keys hE (j := v.intention) ?_ fun k' hk' =>
      (hother k' hk').ge
    have ha := hd.byIntention_nonneg v.intention
    unfold keptFor
    rw [hby]
    split
    · omega
    · split <;> split <;> omega

theorem Settled.leave (h : Settled s) (hd : Demand s) {v : Waiter} {code : GateErrorCode}
    {es : List Event} (hv : v ∈ s.waiters) (hfree : s.RemovalFreesNone v) :
    Settled (s.leave v code es) := by
  intro x hx
  have hx : x ∈ s.waiters := by
    rw [Semaphore.leave, decQueued_eq] at hx
    exact List.mem_of_mem_erase hx
  have hposx := hd.weighted x hx
  obtain ⟨hlim, hres, hact, hby, hq⟩ := leave_fields hd hv code es
  rcases hd.settable with hl | ⟨l, hl⟩
  · refine canGrant_nan (hlim.trans hl) hposx ?_
    rw [hby]
    exact hd.byIntention_nonneg _
  · obtain ⟨E, hnd, hE⟩ := effectiveReservations_fin hl
    have hE' := (effectiveReservations_congr hlim hres).trans hE
    obtain ⟨hsame, hle⟩ := kept_leave hd hv code es hnd x.intention
    have hno : ¬ s.canGrant x.intention x.weight = true := by simp [h x hx]
    have hover : (s.leave v code es).overSubscribed (E.mapVals Num.fin) =
        s.overSubscribed (E.mapVals Num.fin) := by simp only [overSubscribed, hres]
    rw [canGrant_iff hl hE] at hno
    rw [← Bool.not_eq_true, canGrant_iff (hlim.trans hl) hE', hact, hby, hover]
    rintro ⟨hfit, hown | hos | hcap⟩
    · exact hno ⟨hfit, .inl hown⟩
    · exact hno ⟨hfit, .inr (.inl hos)⟩
    · simp only [RemovalFreesNone, hE] at hfree
      by_cases hxv : x.intention = v.intention
      · rw [hsame (.inl hxv)] at hcap
        exact hno ⟨hfit, .inr (.inr hcap)⟩
      · rcases hfree with hmore | hos | hnone
        · rw [hsame (.inr hmore)] at hcap
          exact hno ⟨hfit, .inr (.inr hcap)⟩
        · exact hno ⟨hfit, .inr (.inl hos)⟩
        · have := hnone x hx hxv
          rw [capacity_fin hl, Dict.getD_mapVals, Num.max_fin_fin, Num.add_fin_fin,
            Num.le_fin_fin, decide_eq_false_iff_not] at this
          omega

theorem Settled.intake {n : Nat} {opts : AcquireOptions} (h : Settled s) (hd : Demand s)
    (hin : Intake n opts s s') : Settled s' := by
  cases hin with
  | @grant r _ _ hw _ =>
    have ht := tighter_grant hd hw
    intro x hx
    have hx : x ∈ s.waiters := by rwa [grant_fst] at hx
    exact ht.refused hd.settable hd.byIntention_nonneg (hd.weighted x hx) (h x hx)
  | @enqueue _ w _ _ hw hc henq =>
    have ht := tighter_enqueue hd henq
    intro x hx
    have hx : x ∈ s.waiters ++ [w] := by
      obtain ⟨-, rfl⟩ := enqueue_eq henq
      exact hx
    rcases List.mem_append.mp hx with hx | hx
    · exact ht.refused hd.settable hd.byIntention_nonneg (hd.weighted x hx) (h x hx)
    · rw [List.mem_singleton.mp hx]
      exact ht.refused hd.settable hd.byIntention_nonneg hw hc

theorem Settled.acquire {g : Gate} (h : Settled g.semaphore) (hd : Demand g.semaphore)
    {opts : AcquireOptions} (hopts : opts.onAcquireThrows = false) :
    Settled (g.acquire opts).semaphore := by
  obtain ⟨-, s, s', h₁, h₂, h₃⟩ := acquire_effect g.semaphore g opts
  have hnote : ∀ a b : Semaphore, Settled a ∧ Demand a →
      Move g.nextId (.acquire opts) g.semaphore a b → Settled b ∧ Demand b := by
    rintro a b ⟨ha, hda⟩ hm
    have hdb := hda.move hm
    obtain ⟨e, -, rfl⟩ := hm.note_of_acquire
    exact ⟨ha, hdb⟩
  obtain ⟨hs, hds⟩ := h₁.invariant hnote ⟨h, hd⟩
  have hs' : Settled s' ∧ Demand s' := by
    rcases h₂ with rfl | hin
    · exact ⟨hs, hds⟩
    · exact ⟨hs.intake hds hin, hds.intake hin hopts⟩
  exact (h₃.invariant hnote hs').1

theorem Settled.dequeue {g : Gate} (h : Settled g.semaphore) (hd : Demand g.semaphore)
    {v : Waiter} {code : GateErrorCode} (hv : v ∈ g.semaphore.waiters)
    (hfree : g.semaphore.RemovalFreesNone v) : Settled (g.dequeue v code).semaphore := by
  obtain ⟨es, -, heq⟩ := dequeue_semaphore 0 .recordSuccess g code hv
  rw [heq]
  exact h.leave hd hv hfree

theorem Settled.afterSetter {g : Gate} {r : Semaphore × Bool} (h : Settled r.1) :
    Settled (g.afterSetter r).semaphore := by
  unfold Gate.afterSetter
  split <;> exact h

theorem Settled.withBreaker {g : Gate} (h : Settled g.semaphore) (b : CircuitBreaker) :
    Settled (g.withBreaker b).semaphore := by
  unfold Gate.withBreaker
  dsimp only
  split <;> exact h

/-- What one operation preserves. -/
theorem settled_step {g : Gate} {op : Op} (hcb : op.CallbackReturns) (hd : Demand g.semaphore)
    (h : Settled g.semaphore) (hwake : g.WakesNobody op) : Settled (g.step op).semaphore := by
  cases op with
  | acquire opts => exact h.acquire hd hcb
  | queueTimeout id =>
    simp only [Gate.step]
    split
    · exact h
    · rename_i w hw
      split
      · exact h
      · rename_i due hdue
        split
        · rename_i hle
          refine h.dequeue hd (waiter?_mem hw).1 (hwake.1 w ?_)
          simp [Gate.removed, hw, hdue, hle, Option.filter]
        · exact h
  | abort id =>
    simp only [Gate.step]
    split
    · exact h
    · rename_i hid
      split
      · exact h
      · rename_i w hw
        have hw : g.waiter? id = some w := hw
        refine Settled.dequeue (g := { g with aborted := id :: g.aborted }) h hd
          (waiter?_mem hw).1 (hwake.1 w ?_)
        simp [Gate.removed, hid, hw]
  | release id =>
    show Settled (g.semaphore.release g.now id)
    rcases g.semaphore.release_cases g.now id with heq | ⟨p, timer, _, _, heq⟩ <;> rw [heq] <;>
      exact h
  | cooldownExpiry =>
    simp only [Gate.step]
    split
    · exact h
    · split
      · have hm : Move g.nextId .cooldownExpiry g.semaphore g.semaphore _ := .applyReleases rfl
        have hdrain := drainWaiters_settled (hd.move hm)
        unfold onReleaseTimer
        split
        · rename_i heq
          rwa [heq] at hdrain
        · rename_i heq
          rw [heq] at hdrain
          exact hdrain
      · exact h
  | tick ms => exact h
  | resize newLimit =>
    refine Settled.afterSetter ?_
    simp only [Semaphore.resize]
    split
    · exact h
    · exact drainWaiters_settled { hd with settable := clampLimit_settable _ _ }
  | setHardCap newHardCap =>
    refine Settled.afterSetter ?_
    simp only [Semaphore.setHardCap]
    split
    · exact h
    · split
      · exact drainWaiters_settled { hd with settable := .inr ⟨_, rfl⟩ }
      · exact h
  | setSoftLimit newSoftLimit =>
    refine Settled.afterSetter ?_
    simp only [Semaphore.setSoftLimit]
    split <;> exact h
  | reconfigure opts =>
    show Settled (g.semaphore.reconfigure opts)
    cases hint : opts.intentions with
    | none =>
      simp only [Semaphore.reconfigure, hint]
      exact h
    | some intentions =>
      intro w hw
      rw [canGrant_reconfigure hint]
      rw [reconfigure_waiters] at hw
      exact hwake.2 intentions hint w hw
  | record429 type =>
    simp only [Gate.step]
    split
    · exact h.withBreaker _
    · exact h.withBreaker _
  | recordSuccess =>
    simp only [Gate.step]
    split
    · exact h.withBreaker _
    · exact h.withBreaker _
  | shutdown =>
    intro w hw
    exact absurd hw (by simp [Gate.step, Semaphore.shutdown])

theorem demand_step {g : Gate} {op : Op} (hcb : op.CallbackReturns) (hd : Demand g.semaphore) :
    Demand (g.step op).semaphore := by
  refine step_invariant (I := fun _ s => Demand s) ?_ (fun _ h => h) ?_ hd
  · intro m s s' _ h hm
    exact h.move hm
  · rintro opts s s' rfl h hin
    exact h.intake hin hcb

omit [ShareRounding] in
theorem demand_new (opts : ConcurrencyGateOptions) : Demand (Semaphore.new opts) := by
  have h := (accounts_new opts).2
  refine ⟨h.queued_eq, fun k => (h.byIntention_eq k).ge, weighted_new opts, ?_, .inr ⟨_, rfl⟩⟩
  intro w hw
  exact absurd hw (by simp [Semaphore.new])

/-! ## Every run -/

/-- No waiter sits in the queue while the gate would grant it, in every
run whose steps wake nobody without draining. -/
theorem queue_settled (opts : ConcurrencyGateOptions) (ops : List Op)
    (hops : StepsMeet Gate.step Gate.LosesNoWakeup (Gate.new opts) ops) :
    Settled (Gate.after opts ops).semaphore := by
  have h : Demand (Gate.after opts ops).semaphore ∧ Settled (Gate.after opts ops).semaphore := by
    refine run_invariant_of_stepsMeet (I := fun g : Gate => Demand g.semaphore ∧
      Settled g.semaphore) ?_ ⟨demand_new opts, ?_⟩ hops
    · intro g op hp hq
      obtain ⟨hd, hs⟩ := hp
      obtain ⟨hcb, hwake⟩ := hq
      exact ⟨demand_step hcb hd, settled_step hcb hd hs hwake⟩
    · intro w hw
      exact absurd hw (by simp [Gate.new, Semaphore.new])
  exact h.2

end Settling

section Runs

attribute [local instance] exactShare

/-- A main request of weight 1.25 runs, a vision request and a main request
of weight 0.25 wait for the slot reserved for vision, the vision request
goes away. -/
def abortedVision : List Op :=
  [.acquire { weight := some (5 / 4) }, .acquire { intention := some "vision" },
    .acquire { weight := some (1 / 4) }, .abort 1]

/-- The same two main requests, with the reservation for vision dropped
while a vision request runs. -/
def droppedReservation : List Op :=
  [.acquire { weight := some (1 / 4), intention := some "vision" }, .acquire {},
    .acquire { weight := some (1 / 4) }, .reconfigure { intentions := some [("main", 1)] }]

/-- After the abort, and after the change of reservations, a waiter is left
in the queue that the gate would grant. -/
theorem lost_wakeup :
    ((∀ op ∈ abortedVision, op.CallbackReturns) ∧
      ¬ Settled (Gate.after twoSlots abortedVision).semaphore) ∧
    (∀ op ∈ droppedReservation, op.CallbackReturns) ∧
      ¬ Settled (Gate.after twoSlots droppedReservation).semaphore := by
  decide +kernel

/-- A vision request that waits behind another one of its kind may go. -/
theorem queue_settled_abortedVision :
    Settled (Gate.after twoSlots
      (abortedVision.take 3 ++ [.acquire { intention := some "vision" }, .abort 1])).semaphore :=
  queue_settled twoSlots _ (by decide +kernel)

end Runs

end UmansGate.Limiter
