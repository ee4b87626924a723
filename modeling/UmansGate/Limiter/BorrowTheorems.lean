/-
UmansGate.Limiter.BorrowTheorems — when a borrowed permit takes the place
that another intention has reserved.

A grant beyond the own reservation leaves free what `capacity` keeps for
the other intentions, and `capacity` keeps something for an intention only
while it has demand: an active permit or a queued request on its counter.
So a borrowed permit displaces nobody as long as every waiter is backed by
demand (`keepsReserved_of_demand`). A drain pass that an `onAcquire`
callback leaves by an exception takes the waiters it granted off their
counter and leaves them in the queue; after that a counter can be zero with
a request waiting (`borrowing_displaces`). `Gate.CutAfterGrant` is such a
pass, and without one every waiter is backed (`Backed`).
-/
import UmansGate.Limiter.Drains
import UmansGate.Limiter.FairnessTheorems
import UmansGate.Limiter.ProgressTheorems

namespace UmansGate.Limiter

open UmansGate.Lib Relation

namespace Semaphore

/-- The reservations are not over-subscribed. -/
def ReservationsFit (s : Semaphore) : Prop :=
  Num.le (.fin (s.reservations.total id)) s.limit = true

/-- The request fits within the unused reservation of its intention. -/
def FitsReserved (s : Semaphore) (r : Request) : Prop :=
  s.activeByIntention.getD r.intention 0 + r.weight ≤ s.reservations.getD r.intention 0

section

variable [ShareRounding]

/-- The request is granted beyond the reservation of its intention. -/
def Borrows (s : Semaphore) (r : Request) : Prop :=
  s.canGrant r.intention r.weight = true ∧ ¬ s.FitsReserved r

/-- What a grant to `r` that leads from `s` to `s'` owes the other waiters. -/
def KeepsReserved (s s' : Semaphore) (r : Request) : Prop :=
  ∀ w ∈ s.waiters, w.intention ≠ r.intention → s.FitsReserved w.toRequest →
    s.canGrant w.intention w.weight = true → s'.canGrant w.intention w.weight = true

/-- No grant that borrows displaces a reserved waiter, whether a request is
granted on arrival or out of the queue. -/
def Undisplaced (s : Semaphore) : Prop :=
  s.ReservationsFit → ∀ r, s.Borrows r →
    s.KeepsReserved (s.grant r).1 r ∧
      ∀ w ∈ s.waiters, w.toRequest = r → s.KeepsReserved (s.grantWaiter w) r

/-- The grants of a drain loop: the waiter, and the semaphore it is granted
by, with those in the queue that wait. -/
def drainGrants (s : Semaphore) (remaining : List Waiter) : List Waiter → List (Semaphore × Waiter)
  | [] => []
  | next :: rest =>
    if s.canGrant next.intention next.weight then
      ({ s with waiters := remaining ++ next :: rest }, next) ::
        if next.onAcquireThrows then [] else (s.grantWaiter next).drainGrants remaining rest
    else s.drainGrants (remaining ++ [next]) rest

end

end Semaphore

open Semaphore

section Borrowing

variable [ShareRounding]

/-- The drain of the operation grants a waiter, and later a second one whose
callback throws. -/
def Gate.CutAfterGrant (g : Gate) (op : Op) : Prop :=
  ∃ s ∈ g.drained? op, ∃ e ∈ (s.drainGrants [] s.waiters).tail, e.2.onAcquireThrows = true

/-! ## One grant -/

section Grant

variable {s s' : Semaphore} {l : Int}

/-- Reservations that fit are in force. -/
theorem effectiveReservations_fit (hl : s.limit = .fin l) (hl₀ : 0 ≤ l)
    (hnd : s.reservations.keys.Nodup) (hfit : s.ReservationsFit) :
    ∃ E : Dict String Int, s.effectiveReservations = E.mapVals Num.fin ∧
      E.keys = s.reservations.keys ∧ ∀ k, E.getD k 0 = s.reservations.getD k 0 := by
  obtain ⟨E, -, hE⟩ := effectiveReservations_fin hl
  obtain ⟨hkeys, heq | ⟨-, hover⟩⟩ := effectiveReservations_cases hl hl₀ hnd hE
  · exact ⟨E, hE, hkeys, heq⟩
  · simp only [ReservationsFit, hl, Num.le_fin_fin, decide_eq_true_eq] at hfit
    omega

/-- A borrowed permit leaves free what is reserved for a waiter with demand. -/
theorem keepsReserved_of_demand (hl : s.limit = .fin l) (hl₀ : 0 ≤ l)
    (hnd : s.reservations.keys.Nodup) (hfit : s.ReservationsFit) {r : Request} (hb : s.Borrows r)
    (hlimit : s'.limit = s.limit) (hres : s'.reservations = s.reservations)
    (hact : s'.active = s.active + r.weight)
    (hby : ∀ k, k ≠ r.intention → s'.activeByIntention.getD k 0 = s.activeByIntention.getD k 0)
    (hpos : s.Weighted) (hnn : ∀ k, 0 ≤ s.activeByIntention.getD k 0)
    (hdemand : ∀ w ∈ s.waiters,
      s.activeByIntention.getD w.intention 0 + s.queuedByIntention.getD w.intention 0 ≠ 0) :
    s.KeepsReserved s' r := by
  intro w hw hne hfits hcan
  obtain ⟨E, hE, hkeys, heq⟩ := effectiveReservations_fit hl hl₀ hnd hfit
  have hE' : s'.effectiveReservations = E.mapVals Num.fin :=
    (effectiveReservations_congr hlimit hres).trans hE
  have hweight := hpos w hw
  have hactive := hnn w.intention
  unfold FitsReserved at hfits
  -- what is kept for the waiter's intention is at least its weight
  have hmem : w.intention ∈ E.keys := by
    rw [hkeys]
    by_contra hnot
    have hnone : s.reservations.getD w.intention 0 = 0 := by
      rw [Dict.getD, Dict.get?_eq_none_of_not_mem hnot]
      rfl
    omega
  have hkept : w.weight ≤ s.kept E r.intention := by
    have hone : s.keptFor E r.intention w.intention ≤ s.kept E r.intention := by
      refine List.single_le_sum (fun x hx => ?_) _ (List.mem_map_of_mem hmem)
      obtain ⟨k, -, rfl⟩ := List.mem_map.mp hx
      unfold keptFor
      split
      · exact le_rfl
      · split
        · exact le_rfl
        · exact le_max_left _ _
    rw [keptFor, if_neg hne, if_neg (hdemand w hw), heq] at hone
    omega
  have hover : s.overSubscribed (E.mapVals Num.fin) = false := by
    refine List.any_eq_false.mpr fun k _ => ?_
    rw [Dict.getD_mapVals, heq]
    simp
  obtain ⟨hcan, hbeyond⟩ := hb
  obtain ⟨-, hown | hover' | hroom⟩ := (canGrant_iff hl hE _ _).mp hcan
  · rw [heq] at hown
    exact absurd hown hbeyond
  · simp [hover] at hover'
  · refine (canGrant_iff (hlimit.trans hl) hE' _ _).mpr ⟨?_, .inl ?_⟩
    · rw [hact]
      omega
    · rw [hby _ hne, heq]
      exact hfits

end Grant

/-! ## Every waiter has demand -/

/-- The counters of the intentions cover at least `floor`, for good. -/
def Covered (floor : String → Int) (s : Semaphore) : Prop :=
  (∃ lost, Ledger lost floor s) ∨
    (s.shutdownRequested = true ∧ s.releaseTimer = none ∧
      ∀ k, 0 ≤ floor k ∧ floor k ≤ s.activeByIntention.getD k 0)

/-- The queue counter of an intention is right, or permits of it were lost. -/
structure Backed (s : Semaphore) : Prop where
  books : Books s
  limit : s.limit = .nan ∨ ∃ l, s.limit = .fin l ∧ SCALE ≤ l
  keys_nodup : s.reservations.keys.Nodup
  queued_nonneg : ∀ k, 0 ≤ s.queuedByIntention.getD k 0
  queued_le : ∀ k, s.queuedByIntention.getD k 0 ≤ s.waitersOf k
  floor : ∃ floor, Covered floor s ∧
    ∀ k, floor k = 0 → s.queuedByIntention.getD k 0 = s.waitersOf k

section Backing

variable {s s' : Semaphore} {floor : String → Int}

omit [ShareRounding] in
theorem Covered.bounds (h : Covered floor s) (k : String) :
    0 ≤ floor k ∧ floor k ≤ s.activeByIntention.getD k 0 := by
  rcases h with ⟨lost, h⟩ | ⟨-, -, h⟩
  · have hnn : 0 ≤ s.permits.total (Permit.outstandingOf k) := by
      refine Dict.total_nonneg fun e he => ?_
      have := h.permit_pos e he
      unfold Permit.outstandingOf Permit.outstanding
      split
      · split <;> omega
      · omega
    have := h.lostOf_nonneg k
    have := h.byIntention_eq k
    omega
  · exact h k

omit [ShareRounding] in
/-- The queue is no part of it. -/
theorem Covered.requeue (h : Covered floor s) (ws : List Waiter) (q : Dict String Int)
    (l : List Event) :
    Covered floor { s with waiters := ws, queuedByIntention := q, log := l } := by
  rcases h with ⟨lost, h⟩ | h
  · exact .inl ⟨lost, h.requeue ws q l⟩
  · exact .inr h

omit [ShareRounding] in
/-- A grant raises what is covered where its permit is lost. -/
theorem Covered.grant (h : Covered floor s) {r : Request} (hw : 0 < r.weight) :
    ∃ floor', Covered floor' (s.grant r).1 ∧ (∀ k, floor k ≤ floor' k) ∧
      (r.onAcquireThrows = true → 0 < floor' r.intention) := by
  have hfst := grant_fst s r
  have hbounds := h.bounds
  have hraised : ∀ k, floor k ≤ floor k + if k = r.intention then r.weight else 0 := by
    intro k
    split <;> omega
  have hthrown : 0 < floor r.intention + if r.intention = r.intention then r.weight else 0 := by
    have := (hbounds r.intention).1
    rw [if_pos rfl]
    omega
  rcases h with ⟨lost, h⟩ | ⟨hshut, htimer, h⟩
  · by_cases hper : (s.grant r).1.permits = s.permits
    · exact ⟨_, .inl ⟨_, h.grant_lost hw hper⟩, hraised, fun _ => hthrown⟩
    · rw [hfst] at hper
      cases ht : r.onAcquireThrows with
      | true => exact absurd (by simp [ht]) hper
      | false =>
        cases hp : s.permits.get? r.id with
        | none => exact ⟨floor, .inl ⟨lost, h.grant_new ht hw hp⟩, fun _ => le_rfl, by simp⟩
        | some p => exact absurd (by simp [ht, resolvePermit, hp]) hper
  · refine ⟨_, .inr ⟨by rw [hfst]; exact hshut, by rw [hfst]; exact htimer, fun k => ?_⟩,
      hraised, fun _ => hthrown⟩
    have := hbounds k
    rw [hfst]
    show _ ∧ _ ≤ (s.activeByIntention.set _ _).getD k 0
    rw [Dict.getD_set_getD_add]
    split <;> omega

omit [ShareRounding] in
/-- Every waiter's intention has demand. -/
theorem Backed.demand (h : Backed s) {w : Waiter} (hw : w ∈ s.waiters) :
    s.activeByIntention.getD w.intention 0 + s.queuedByIntention.getD w.intention 0 ≠ 0 := by
  obtain ⟨floor, hcov, hcounted⟩ := h.floor
  have hq := h.queued_nonneg w.intention
  obtain ⟨hnn, hle⟩ := hcov.bounds w.intention
  by_cases hzero : floor w.intention = 0
  · have hwait : 0 < s.waitersOf w.intention := List.countP_pos_iff.mpr ⟨w, hw, by simp⟩
    have := hcounted _ hzero
    omega
  · omega

/-- Where every waiter has demand, borrowing displaces nobody. -/
theorem Backed.undisplaced (h : Backed s) : s.Undisplaced := by
  intro hfit r hb
  rcases h.limit with hnan | ⟨l, hl, hle⟩
  · simp [ReservationsFit, hnan] at hfit
  · have hl₀ : 0 ≤ l := by
      have := SCALE_pos
      omega
    have hother : ∀ k, k ≠ r.intention →
        (s.activeByIntention.set r.intention
          (s.activeByIntention.getD r.intention 0 + r.weight)).getD k 0 =
            s.activeByIntention.getD k 0 := by
      intro k hk
      rw [Dict.getD_set, if_neg (Ne.symm hk)]
    refine ⟨?_, ?_⟩
    · refine keepsReserved_of_demand hl hl₀ h.keys_nodup hfit hb ?_ ?_ ?_ ?_ h.books.weighted
        h.books.byIntention_nonneg fun w hw => h.demand hw
      all_goals rw [grant_fst]
      exact hother
    · rintro w hw rfl
      refine keepsReserved_of_demand hl hl₀ h.keys_nodup hfit hb ?_ ?_ ?_ ?_ h.books.weighted
        h.books.byIntention_nonneg fun w hw => h.demand hw
      all_goals rw [Semaphore.grantWaiter, grant_fst, decQueued_eq]
      exact hother

omit [ShareRounding] in
/-- A waiter is granted: it leaves the queue, or stays in it where its
callback throws. -/
theorem Backed.grantWaiter (h : Backed s) {pre post : List Waiter} {w w' : Waiter}
    (hs : s.waiters = pre ++ w :: post) (hw' : w'.toRequest = w.toRequest) :
    Backed { s.grantWaiter w with
      waiters := if w.onAcquireThrows then pre ++ w' :: post else pre ++ post } := by
  have hmem : w ∈ s.waiters := by simp [hs]
  have hw := h.books.weighted w hmem
  have hint : w'.intention = w.intention := congrArg Request.intention hw'
  obtain ⟨floor, hcov, hcounted⟩ := h.floor
  have hcount : ∀ k, s.waitersOf k =
      (pre ++ post).countP (·.intention = k) + if w.intention = k then 1 else 0 := by
    intro k
    rw [waitersOf, hs, ← countP_middle]
    simp
  have hcount' : ∀ k, s.waitersOf k = (pre ++ w' :: post).countP (·.intention = k) := by
    intro k
    rw [hcount, ← countP_middle _ pre post w', hint]
    simp
  have hle : ∀ k, s.waitersOf k ≤
      (if w.onAcquireThrows then pre ++ w' :: post else pre ++ post).countP (·.intention = k) +
        if w.intention = k then 1 else 0 := by
    intro k
    cases w.onAcquireThrows with
    | true => exact (hcount' k).le.trans (Nat.le_add_right _ _)
    | false => exact (hcount k).le
  rw [grantWaiter_of_waiters, Semaphore.grantWaiter, decQueued_eq]
  obtain ⟨floor', hcov', hraise, hlost⟩ := (hcov.requeue
    (if w.onAcquireThrows then pre ++ w' :: post else pre ++ post)
    (s.queuedByIntention.set w.intention (max 0 (s.queuedByIntention.getD w.intention 0 - 1)))
    (if s.queuedByIntention.getD w.intention 0 - 1 < 0 then .clamped :: s.log else s.log)).grant hw
  have hbooks : ∀ k, 0 ≤ (s.activeByIntention.set w.intention
      (s.activeByIntention.getD w.intention 0 + w.weight)).getD k 0 := by
    have := h.books.byIntention_nonneg w.intention
    exact getD_set_nonneg h.books.byIntention_nonneg (by omega) _
  rw [grant_fst] at hcov' ⊢
  refine ⟨⟨hbooks, fun x hx => ?_, h.books.settable⟩, h.limit, h.keys_nodup,
    getD_set_nonneg h.queued_nonneg (le_max_left _ _) _, queued_le_dequeue h.queued_le hle,
    floor', hcov', fun k hk => ?_⟩
  · dsimp only at hx
    split at hx
    · rcases List.mem_append.mp hx with hx | hx
      · exact h.books.weighted x (by simp [hs, hx])
      · rcases List.mem_cons.mp hx with rfl | hx
        · rw [congrArg Request.weight hw']
          exact hw
        · exact h.books.weighted x (by simp [hs, hx])
    · exact h.books.weighted x (by
        rw [hs]
        exact (List.Sublist.append_left (List.sublist_cons_self w post) pre).subset hx)
  · -- nothing of the intention was lost, so its counter was right
    have hk₀ : s.queuedByIntention.getD k 0 = s.waitersOf k := by
      refine hcounted k ?_
      have := hraise k
      have := (hcov.bounds k).1
      omega
    show (s.queuedByIntention.set w.intention _).getD k 0 = (List.countP _ (ite _ _ _) : Int)
    cases ht : w.onAcquireThrows with
    | true =>
      have hne : w.intention ≠ k := by
        rintro rfl
        have := hlost ht
        omega
      rw [Dict.getD_set, if_neg hne, hk₀, hcount' k]
      rfl
    | false =>
      have hdec := queued_eq_dequeue hk₀ hmem (l := pre ++ post) fun P => by
        rw [hs]
        exact countP_middle P pre post w
      rw [decQueued_eq] at hdec
      exact hdec

/-! ## Every operation keeps them backed -/

omit [ShareRounding] in
theorem Backed.withLog (h : Backed s) (l : List Event) : Backed { s with log := l } := by
  obtain ⟨floor, hcov, hcounted⟩ := h.floor
  exact ⟨{ h.books with }, h.limit, h.keys_nodup, h.queued_nonneg, h.queued_le, floor,
    hcov.requeue s.waiters s.queuedByIntention l, hcounted⟩

omit [ShareRounding] in
/-- After a shutdown the queue and its counters are empty. -/
theorem Backed.shutdown (h : Backed s) : Backed s.shutdown := by
  have hzero : ∀ k, s.shutdown.queuedByIntention.getD k 0 = 0 := by
    intro k
    have := foldl_rejectShutdown_queued s.waiters s h.queued_nonneg k
    have hle := h.queued_le k
    show (s.waiters.foldl _ s).queuedByIntention.getD k 0 = 0
    unfold waitersOf at hle
    omega
  obtain ⟨q, es, -, heq⟩ := s.shutdown_eq
  rw [heq] at hzero ⊢
  refine ⟨⟨fun k => (getD_mapVals_zero _ k).ge, by simp [Weighted], h.books.settable⟩, h.limit,
    h.keys_nodup, fun k => (hzero k).ge, fun k => (hzero k).le, fun _ => 0, .inr ⟨rfl, rfl, ?_⟩,
    fun k _ => hzero k⟩
  exact fun k => ⟨le_rfl, (getD_mapVals_zero _ k).ge⟩

omit [ShareRounding] in
theorem Covered.release (h : Covered floor s) (now : Int) (id : Nat) :
    Covered floor (s.release now id) := by
  rcases h with ⟨lost, h⟩ | ⟨hshut, htimer, hle⟩
  · exact .inl ⟨lost, h.release now id⟩
  · refine .inr ?_
    unfold Semaphore.release
    split
    · exact ⟨hshut, htimer, hle⟩
    · split
      · unfold releasePermit
        rw [if_pos hshut]
        exact ⟨hshut, htimer, hle⟩
      · exact ⟨hshut, htimer, hle⟩

omit [ShareRounding] in
theorem Covered.reconfigure (h : Covered floor s) (opts : ReconfigureOptions) :
    Covered floor (s.reconfigure opts) := by
  rcases h with ⟨lost, h⟩ | ⟨hshut, htimer, hle⟩
  · exact .inl ⟨lost, h.reconfigure opts⟩
  · refine .inr ?_
    simp only [Semaphore.reconfigure]
    split
    · exact ⟨hshut, htimer, hle⟩
    · exact ⟨hshut, htimer, fun k => ⟨(hle k).1, (hle k).2.trans (getD_ensureKeys _ _ k).ge⟩⟩

/-- The books and the limit survive every change. -/
theorem Backed.of_floor {n : Nat} {op : Op} {s₀ : Semaphore} (h : Backed s) (h₀ : s₀.Weighted)
    (hm : Move n op s₀ s s') (hop : op ≠ .shutdown)
    (hfloor : ∃ floor, Covered floor s' ∧
      ∀ k, floor k = 0 → s'.queuedByIntention.getD k 0 = s'.waitersOf k) : Backed s' where
  books := h.books.move h₀ hm
  limit := limit_move h.limit hm
  keys_nodup := by
    rcases hm.reservations_eq with heq | ⟨opts, intentions, -, -, heq⟩
    · rw [heq]
      exact h.keys_nodup
    · rw [heq]
      exact scaleIntentions_keys_nodup intentions
  queued_nonneg := queued_nonneg_move h.queued_nonneg hm hop
  queued_le := queued_le_move h.queued_le hm hop
  floor := hfloor

/-- The changes of an operation that does not drain. -/
theorem Backed.move {n : Nat} {op : Op} {s₀ : Semaphore} (h : Backed s) (h₀ : s₀.Weighted)
    (hm : Move n op s₀ s s') (hop : ¬ op.Drains) : Backed s' := by
  by_cases hshut : op = .shutdown
  · subst hshut
    cases hm with
    | note _ => exact h.withLog _
    | leave hop' => exact absurd hop' (by simp [Op.Dequeues])
    | shutdown => exact h.shutdown
    | grantWaiter hop' => exact absurd hop' hop
    | grantThrown hop' => exact absurd hop' hop
    | release hop' => cases hop'
    | applyReleases hop' => cases hop'
    | resize hop' => cases hop'
    | setHardCap hop' => cases hop'
    | setSoftLimit hop' => cases hop'
    | reconfigure hop' => cases hop'
  · refine h.of_floor h₀ hm hshut ?_
    obtain ⟨floor, hcov, hcounted⟩ := h.floor
    cases hm with
    | @note e he => exact ⟨floor, hcov.requeue s.waiters s.queuedByIntention (e :: s.log), hcounted⟩
    | @leave w code es _ hw _ _ =>
      refine ⟨floor, ?_, fun k hk => ?_⟩
      · rw [Semaphore.leave, decQueued_eq]
        exact hcov.requeue _ _ _
      · exact queued_eq_dequeue (hcounted k hk) hw fun P => countP_erase P hw
    | @release now id _ =>
      refine ⟨floor, hcov.release now id, ?_⟩
      rcases s.release_cases now id with heq | ⟨p, timer, _, _, heq⟩ <;> rw [heq] <;> exact hcounted
    | setSoftLimit _ => exact ⟨floor, hcov.imp (.imp fun _ h => { h with }) id, hcounted⟩
    | @reconfigure opts _ =>
      refine ⟨floor, hcov.reconfigure opts, fun k hk => ?_⟩
      simp only [Semaphore.reconfigure]
      split
      · exact hcounted k hk
      · exact (getD_ensureKeys _ _ k).trans (hcounted k hk)
    | shutdown hop' => exact absurd hop' hshut
    | grantWaiter hop' => exact absurd hop' hop
    | grantThrown hop' => exact absurd hop' hop
    | applyReleases hop' => exact absurd (hop' ▸ trivial) hop
    | resize hop' => exact absurd (hop' ▸ trivial) hop
    | setHardCap hop' => exact absurd (hop' ▸ trivial) hop

omit [ShareRounding] in
/-- A limit that admits one permit, and other caps. -/
theorem Backed.withLimit (h : Backed s) {limit : Num Int}
    (hlimit : limit = .nan ∨ ∃ l, limit = .fin l ∧ SCALE ≤ l) (hardCap softLimit : Int) :
    Backed { s with hardCap := hardCap, softLimit := softLimit, limit := limit } := by
  obtain ⟨floor, hcov, hcounted⟩ := h.floor
  refine ⟨⟨h.books.byIntention_nonneg, h.books.weighted, ?_⟩, hlimit, h.keys_nodup,
    h.queued_nonneg, h.queued_le, floor, hcov.imp (.imp fun _ h => { h with }) id, hcounted⟩
  exact hlimit.imp id (.imp fun _ hl => hl.1)

/-- The taking in of a request. -/
theorem Backed.intake {n : Nat} {opts : AcquireOptions} (h : Backed s) (hin : Intake n opts s s') :
    Backed s' := by
  have hbooks := h.books.intake hin
  have hlimit : s'.limit = .nan ∨ ∃ l, s'.limit = .fin l ∧ SCALE ≤ l := by
    rw [hin.limit_eq.1]
    exact h.limit
  obtain ⟨floor, hcov, hcounted⟩ := h.floor
  cases hin with
  | @grant r hid ht hw hc =>
    obtain ⟨floor', hcov', hraise, -⟩ := hcov.grant hw
    rw [grant_fst] at hbooks hlimit hcov' ⊢
    refine ⟨hbooks, hlimit, h.keys_nodup, h.queued_nonneg, h.queued_le, floor', hcov',
      fun k hk => ?_⟩
    have := hraise k
    have := (hcov.bounds k).1
    exact hcounted k (by omega)
  | @enqueue _ w hid ht hw hc henq =>
    have hqueued : ∀ k, floor k = 0 → s'.queuedByIntention.getD k 0 = s'.waitersOf k :=
      fun k hk => queued_eq_enqueue (hcounted k hk) henq
    obtain ⟨-, rfl⟩ := enqueue_eq henq
    refine ⟨hbooks, hlimit, h.keys_nodup, ?_, fun k => ?_, floor, hcov.requeue _ _ _, hqueued⟩
    · have := h.queued_nonneg w.intention
      exact getD_set_nonneg h.queued_nonneg (by omega) _
    · have hle := h.queued_le k
      show (s.queuedByIntention.set _ _).getD k 0 ≤ (((s.waiters ++ [w]).countP _ : Nat) : Int)
      rw [Dict.getD_set_getD_add, List.countP_append, List.countP_singleton]
      unfold waitersOf at hle
      by_cases hwk : w.intention = k
      · simp only [hwk, decide_true, if_true]
        push_cast
        omega
      · simp only [hwk, Ne.symm hwk, decide_false, Bool.false_eq_true, if_false]
        push_cast
        omega

/-! ## A drain -/

/-- A drain loop that grants at most one waiter before a callback throws:
`visited` is the queue up to the loop's position. -/
theorem Backed.drainLoop (ws : List Waiter) : ∀ (s : Semaphore) (remaining visited : List Waiter),
    Backed { s with waiters := remaining ++ ws } →
    (∀ e ∈ s.drainGrants remaining ws, Backed e.1) ∧
      ((visited = remaining ∧
            ∀ e ∈ (s.drainGrants remaining ws).tail, e.2.onAcquireThrows = false) ∨
          (∀ e ∈ s.drainGrants remaining ws, e.2.onAcquireThrows = false) →
        Backed (s.drainLoop remaining visited ws).1) := by
  induction ws with
  | nil =>
    intro s remaining visited h
    rw [List.append_nil] at h
    exact ⟨by simp [drainGrants], fun _ => h⟩
  | cons next rest ih =>
    intro s remaining visited h
    cases hc : s.canGrant next.intention next.weight with
    | false =>
      rw [drainLoop_cons_refused hc, drainGrants, hc, if_neg (by simp)]
      have hassoc : remaining ++ next :: rest = remaining ++ [next] ++ rest := by simp
      rw [hassoc] at h
      obtain ⟨hgrants, hloop⟩ := ih s _ (visited ++ [next]) h
      refine ⟨hgrants, fun hcut => hloop (hcut.imp (fun hfirst => ⟨?_, hfirst.2⟩) id)⟩
      rw [hfirst.1]
    | true =>
      rw [drainGrants, if_pos hc]
      have hcleared : ({ next with timeout := none } : Waiter).toRequest = next.toRequest := rfl
      have hnext := h.grantWaiter rfl hcleared
      rw [grantWaiter_waiters s next (remaining ++ next :: rest)] at hnext
      cases ht : next.onAcquireThrows with
      | true =>
        rw [drainLoop_cons_thrown hc ht]
        rw [ht, if_pos rfl] at hnext
        refine ⟨by simpa using h, fun hcut => ?_⟩
        rcases hcut with ⟨rfl, -⟩ | hnone
        · exact hnext
        · have := hnone _ List.mem_cons_self
          rw [ht] at this
          exact absurd this (by simp)
      | false =>
        rw [drainLoop_cons_granted hc ht]
        rw [ht, if_neg (by simp)] at hnext
        obtain ⟨hgrants, hloop⟩ := ih (s.grantWaiter next) remaining
          (visited ++ [{ next with timeout := none }]) hnext
        rw [if_neg (by simp)]
        refine ⟨fun e he => ?_, fun hcut => hloop (.inr ?_)⟩
        · rcases List.mem_cons.mp he with rfl | he
          · exact h
          · exact hgrants e he
        · rcases hcut with ⟨-, htail⟩ | hall
          · exact htail
          · exact fun e he => hall e (List.mem_cons_of_mem _ he)

theorem Backed.drainWaiters (h : Backed s) :
    (∀ e ∈ s.drainGrants [] s.waiters, Backed e.1) ∧
      ((∀ e ∈ (s.drainGrants [] s.waiters).tail, e.2.onAcquireThrows = false) →
        Backed s.drainWaiters.1) := by
  obtain ⟨hgrants, hloop⟩ := Backed.drainLoop s.waiters s [] [] h
  refine ⟨hgrants, fun hcut => ?_⟩
  unfold Semaphore.drainWaiters
  split
  · exact h
  · exact hloop (.inl ⟨rfl, hcut⟩)

/-- What an operation drains is backed. -/
theorem Backed.drained {g : Gate} (h : Backed g.semaphore) {op : Op} (hs : g.drained? op = some s) :
    Backed s := by
  cases op with
  | cooldownExpiry =>
    simp only [Gate.drained?] at hs
    split at hs
    · rename_i hdue
      obtain ⟨due, htimer, -⟩ := hdue
      obtain rfl := Option.some.inj hs
      refine h.of_floor h.books.weighted (n := 0) (.applyReleases rfl) (by simp) ?_
      obtain ⟨floor, ⟨lost, hledger⟩ | ⟨-, hnone, -⟩, hcounted⟩ := h.floor
      · have hcov : Covered floor g.semaphore.applyReleases := .inl ⟨lost, hledger.applyReleases.1⟩
        obtain ⟨a, d, es, -, heq⟩ := g.semaphore.applyReleases_eq
        rw [heq] at hcov ⊢
        exact ⟨floor, hcov, hcounted⟩
      · rw [hnone] at htimer
        simp at htimer
    · simp at hs
  | resize x =>
    simp only [Gate.drained?] at hs
    split at hs
    · simp at hs
    · obtain rfl := Option.some.inj hs
      have hm : Move 0 (.resize x) g.semaphore g.semaphore _ := .resize rfl
      exact h.withLimit (limit_move h.limit hm) _ _
  | setHardCap x =>
    simp only [Gate.drained?] at hs
    split at hs
    · simp at hs
    · split at hs
      · obtain rfl := Option.some.inj hs
        exact h.withLimit (.inr ⟨_, rfl, SCALE_le_scaledCap x⟩) _ _
      · simp at hs
  | acquire _ | queueTimeout _ | abort _ | release _ | tick _ | setSoftLimit _ | reconfigure _
  | record429 _ | recordSuccess | shutdown => simp [Gate.drained?] at hs

/-- An operation whose drain is not cut after a grant. -/
theorem Backed.step {g : Gate} {op : Op} (h : Backed g.semaphore) (hcut : ¬ g.CutAfterGrant op) :
    Backed (g.step op).semaphore := by
  by_cases hop : op.Drains
  · obtain ⟨l, ⟨s, hs, heq⟩ | ⟨-, hardCap, softLimit, heq⟩⟩ := step_drains hop
    · rw [heq]
      refine Backed.withLog ((h.drained hs).drainWaiters.2 fun e he => ?_) l
      exact Bool.not_eq_true _ ▸ fun ht => hcut ⟨s, hs, e, he, ht⟩
    · rw [heq]
      exact (h.withLimit h.limit hardCap softLimit).withLog l
  · refine step_invariant (I := fun _ s => Backed s) ?_ (fun _ hs => hs) ?_ h
    · intro m s s' _ hs hm
      exact hs.move h.books.weighted hm hop
    · intro opts s s' _ hs hin
      exact hs.intake hin

omit [ShareRounding] in
theorem backed_new (opts : ConcurrencyGateOptions) : Backed (Semaphore.new opts) where
  books := books_new opts
  limit := (inOperation_new opts).limit
  keys_nodup := scaleIntentions_keys_nodup _
  queued_nonneg := (inOperation_new opts).queued_nonneg
  queued_le := (inOperation_new opts).queued_le
  floor := ⟨fun _ => 0, .inl ⟨0, (accounts_new opts).2.ledger⟩,
    fun k _ => (accounts_new opts).2.queued_eq k⟩

end Backing

/-! ## Every run -/

/-- In a run whose drains are not cut after a grant, borrowing displaces no
reserved waiter, neither between the operations nor within a drain. -/
theorem borrowing_displaces_nobody (opts : ConcurrencyGateOptions) (ops : List Op)
    (hops : StepsMeet Gate.step (fun g op => ¬ g.CutAfterGrant op) (Gate.new opts) ops) :
    (Gate.after opts ops).semaphore.Undisplaced ∧
      ∀ op, ∀ s ∈ (Gate.after opts ops).drained? op, ∀ e ∈ s.drainGrants [] s.waiters,
        e.1.Undisplaced := by
  have h : Backed (Gate.after opts ops).semaphore :=
    run_invariant_of_stepsMeet (I := fun g : Gate => Backed g.semaphore)
      (fun _ _ h hcut => h.step hcut) (backed_new opts) hops
  refine ⟨h.undisplaced, fun op s hs e he => ?_⟩
  exact ((h.drained hs).drainWaiters.1 e he).undisplaced

end Borrowing

section Runs

attribute [local instance] exactShare

instance (s : Semaphore) (r : Request) : Decidable (s.FitsReserved r) :=
  inferInstanceAs (Decidable (_ ≤ _))

instance (g : Gate) (op : Op) : Decidable (g.CutAfterGrant op) :=
  inferInstanceAs (Decidable (∃ s ∈ _, ∃ e ∈ _, _))

/-- Three slots, one of them reserved for each intention. -/
def threeSlots : ConcurrencyGateOptions :=
  { twoSlots with hardCap := 3, softLimit := 3 }

def visionRequest : AcquireOptions := { intention := some "vision" }

/-- Three permits, and behind them a vision request, a main request whose
callback throws and another vision request. The permits come back and the
drain is cut; then the first vision request aborts and releases its permit,
and the callback cuts the next drain. -/
def cutDrains : List Op :=
  [.acquire {}, .acquire {}, .acquire visionRequest, .acquire visionRequest,
    .acquire { onAcquireThrows := true }, .acquire visionRequest, .release 0, .release 1,
    .release 2, .tick 10, .cooldownExpiry, .abort 3, .release 3, .tick 10, .cooldownExpiry]

/-- The second vision request could be granted, and a main request takes
its slot. -/
theorem borrowing_displaces :
    ¬ (Gate.after threeSlots cutDrains).semaphore.Undisplaced := by
  intro h
  have hfit : (Gate.after threeSlots cutDrains).semaphore.ReservationsFit := by
    unfold ReservationsFit
    decide +kernel
  have hborrows : (Gate.after threeSlots cutDrains).semaphore.Borrows
      ⟨6, 1000, "main", false, false⟩ := ⟨by decide +kernel, by decide +kernel⟩
  have hwaits : ∃ w ∈ (Gate.after threeSlots cutDrains).semaphore.waiters, w.intention = "vision" ∧
      (Gate.after threeSlots cutDrains).semaphore.FitsReserved w.toRequest ∧
      (Gate.after threeSlots cutDrains).semaphore.canGrant w.intention w.weight = true ∧
      ((Gate.after threeSlots cutDrains).semaphore.grant ⟨6, 1000, "main", false, false⟩).1.canGrant
        w.intention w.weight = false := by
    decide +kernel
  obtain ⟨w, hw, hint, hfits, hcan, hdisplaced⟩ := hwaits
  have hkept := (h hfit _ hborrows).1 w hw (by rw [hint]; decide) hfits hcan
  rw [hkept] at hdisplaced
  exact absurd hdisplaced (by decide)

/-- Two requests borrow and a vision request waits. -/
def borrowedSlots : List Op :=
  [.acquire {}, .acquire {}, .acquire visionRequest, .acquire visionRequest, .release 0,
    .tick 10, .cooldownExpiry]

theorem borrowing_displaces_nobody_borrowedSlots :
    (Gate.after threeSlots borrowedSlots).semaphore.Undisplaced :=
  (borrowing_displaces_nobody threeSlots borrowedSlots (by decide +kernel)).1

end Runs

end UmansGate.Limiter
