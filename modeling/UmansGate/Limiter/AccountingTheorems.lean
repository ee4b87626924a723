/-
UmansGate.Limiter.AccountingTheorems — the counters of the gate mean what
they are named after.

The counters are compared with the permits that were handed out and with
the queue itself. `Accounts` ties each counter to a sum over the permits,
`Turns` counts how often a request entered and left the queue; both hold
initially and survive every elementary change (`Moves`), so they hold
after every run without a shutdown and without throwing callbacks.
-/
import Mathlib.Algebra.Order.BigOperators.Group.List
import UmansGate.Limiter.Moves

namespace UmansGate.Limiter

open UmansGate.Lib

/-! ## Sums over permits -/

/-- Weight of a permit whose release has not been applied. -/
def Permit.outstanding (p : Permit) : Int := if p.stage = .returned then 0 else p.weight

/-- The same, for permits of one intention. -/
def Permit.outstandingOf (k : String) (p : Permit) : Int :=
  if p.intention = k then p.outstanding else 0

/-- Weight of a permit that waits for the cooldown timer, for the selected
intentions. -/
def Permit.cooling (sel : String → Bool) (p : Permit) : Int :=
  if p.stage = .cooling ∧ sel p.intention then p.weight else 0

/-- Weight of the pending releases of the selected intentions. -/
def pendingOf (sel : String → Bool) (rels : List Release) : Int :=
  (rels.map fun r => if sel r.intention then r.weight else 0).sum

/-- Every intention. -/
def anyIntention : String → Bool := fun _ => true

/-- One intention. -/
def onlyIntention (k : String) : String → Bool := fun k' => decide (k' = k)

@[simp] theorem anyIntention_apply (k : String) : anyIntention k = true := rfl

@[simp] theorem onlyIntention_apply (k k' : String) :
    onlyIntention k k' = decide (k' = k) := rfl

/-! ## Turns in the queue -/

/-- The event ends the wait of request `id`, or grants it on arrival. -/
def Event.leaves (id : Nat) : Event → Bool
  | .granted g => g.id = id
  | .rejected id' code =>
    id' = id && (code = .timeout || code = .aborted || code = .shutdown)
  | _ => false

namespace Semaphore

/-- How often request `id` entered the queue. -/
def entered (s : Semaphore) (id : Nat) : Nat := s.log.count (.enqueued id)

/-- How often request `id` was granted, timed out or was aborted. -/
def left (s : Semaphore) (id : Nat) : Nat := s.log.countP (Event.leaves id)

/-- How often request `id` is in the queue. -/
def waiting (s : Semaphore) (id : Nat) : Nat := s.waiters.countP (·.id = id)

/-- Number of waiters of one intention. -/
def waitersOf (s : Semaphore) (k : String) : Nat := s.waiters.countP (·.intention = k)

/-- Each queue counter is the number of waiters of its intention. -/
def Counted (s : Semaphore) : Prop := ∀ k, s.queuedByIntention.getD k 0 = s.waitersOf k

end Semaphore

/-- Every request enters the queue at most once, and one that entered it
is in the queue or has left it once. -/
structure Turns (n : Nat) (s : Semaphore) : Prop where
  turn : ∀ id, s.entered id = 1 ∧ s.left id + s.waiting id = 1 ∨
    s.entered id = 0 ∧ s.waiting id = 0
  fresh : ∀ id, n ≤ id → s.entered id = 0 ∧ s.left id = 0
  granted : ∀ id, (s.permits.get? id).isSome → 0 < s.left id
  patient : ∀ w ∈ s.waiters, w.onAcquireThrows = false

/-- Every counter is the sum it stands for. -/
structure Accounts (s : Semaphore) : Prop where
  active_eq : s.active = s.permits.total Permit.outstanding
  byIntention_eq : ∀ k,
    s.activeByIntention.getD k 0 = s.permits.total (Permit.outstandingOf k)
  keys_nodup : s.activeByIntention.keys.Nodup
  total_eq : s.activeByIntention.total id = s.active
  queued_eq : s.Counted
  pending_eq : ∀ sel, pendingOf sel s.pendingReleases = s.permits.total (Permit.cooling sel)
  permit_pos : ∀ e ∈ s.permits, 0 < e.2.weight
  pending_pos : ∀ rel ∈ s.pendingReleases, 0 < rel.weight
  waiter_pos : ∀ w ∈ s.waiters, 0 < w.weight
  running : s.shutdownRequested = false
  unclamped : .clamped ∉ s.log

variable {n : Nat} {s s' : Semaphore}

/-! ## Turns survive every change -/

theorem Turns.not_waiting_of_fresh (h : Turns n s) {id : Nat} (hid : n ≤ id) :
    s.waiting id = 0 := by
  have hf := (h.fresh id hid).1
  rcases h.turn id with ⟨h₁, _⟩ | ⟨_, h₂⟩
  · omega
  · exact h₂

/-- A waiter has entered once, has not left, and has no permit. -/
theorem Turns.of_mem (h : Turns n s) {w : Waiter} (hw : w ∈ s.waiters) :
    s.entered w.id = 1 ∧ s.left w.id = 0 ∧ s.waiting w.id = 1 ∧
      s.permits.get? w.id = none := by
  have hpos : 0 < s.waiting w.id := List.countP_pos_iff.mpr ⟨w, hw, by simp⟩
  have hturn : s.entered w.id = 1 ∧ s.left w.id = 0 ∧ s.waiting w.id = 1 := by
    rcases h.turn w.id with ⟨h₁, h₂⟩ | ⟨_, h₂⟩
    · exact ⟨h₁, by omega, by omega⟩
    · omega
  refine ⟨hturn.1, hturn.2.1, hturn.2.2, ?_⟩
  cases hp : s.permits.get? w.id with
  | none => rfl
  | some p =>
    have := h.granted w.id (by simp [hp])
    omega

/-- A change that keeps who is waiting and what was granted. -/
theorem Turns.same (h : Turns n s) (hwait : s'.waiters = s.waiters)
    (hent : ∀ id, s'.entered id = s.entered id) (hleft : ∀ id, s'.left id = s.left id)
    (hper : ∀ id, (s'.permits.get? id).isSome → (s.permits.get? id).isSome) : Turns n s' := by
  have hw : ∀ id, s'.waiting id = s.waiting id := fun id => by
    simp only [Semaphore.waiting, hwait]
  refine ⟨fun id => ?_, fun id hid => ?_, fun id hid => ?_, fun w hmem => ?_⟩
  · rw [hent, hleft, hw]
    exact h.turn id
  · rw [hent, hleft]
    exact h.fresh id hid
  · rw [hleft]
    exact h.granted id (hper id hid)
  · exact h.patient w (hwait ▸ hmem)

/-- A change by which the waiter `w` leaves. -/
theorem Turns.exit (h : Turns n s) {w : Waiter} (hmem : w ∈ s.waiters)
    (hsub : ∀ x ∈ s'.waiters, x ∈ s.waiters)
    (hwait : ∀ id, s'.waiting id + (if w.id = id then 1 else 0) = s.waiting id)
    (hent : ∀ id, s'.entered id = s.entered id)
    (hleft : ∀ id, s'.left id = s.left id + if w.id = id then 1 else 0)
    (hper : ∀ id, (s'.permits.get? id).isSome → w.id = id ∨ (s.permits.get? id).isSome) :
    Turns n s' := by
  have hw := h.of_mem hmem
  refine ⟨fun id => ?_, fun id hid => ?_, fun id hid => ?_, fun x hx => h.patient x (hsub x hx)⟩
  · have hwi := hwait id
    rw [hent, hleft]
    by_cases hid : w.id = id
    · subst hid
      rw [if_pos rfl] at hwi ⊢
      exact .inl ⟨hw.1, by omega⟩
    · rw [if_neg hid] at hwi ⊢
      rcases h.turn id with ⟨h₁, h₂⟩ | ⟨h₁, h₂⟩
      · exact .inl ⟨h₁, by omega⟩
      · exact .inr ⟨h₁, by omega⟩
  · have hne : w.id ≠ id := by
      rintro rfl
      have := (h.fresh _ hid).1
      omega
    rw [hent, hleft, if_neg hne]
    exact h.fresh id hid
  · rw [hleft]
    rcases hper id hid with rfl | hold
    · rw [if_pos rfl]
      omega
    · have := h.granted id hold
      omega

/-- An event that is no turn of any request. -/
def Event.Neutral (e : Event) : Prop :=
  (∀ id, e ≠ .enqueued id) ∧ ∀ id, e.leaves id = false

theorem Event.Silent.neutral {e : Event} {op : Op} (h : e.Silent n op) : e.Neutral := by
  cases e with
  | admitted id seen => exact ⟨fun _ => by simp, fun _ => rfl⟩
  | enqueued id => exact absurd h (by simp [Event.Silent])
  | granted g => exact absurd h (by simp [Event.Silent])
  | rejected id code =>
    obtain ⟨-, -, h₁, h₂, h₃⟩ := h
    exact ⟨fun _ => by simp, fun _ => by simp [Event.leaves, h₁, h₂, h₃]⟩
  | breaker entered => exact ⟨fun _ => by simp, fun _ => rfl⟩
  | clamped => exact absurd h (by simp [Event.Silent])
  | stats active => exact ⟨fun _ => by simp, fun _ => rfl⟩

theorem count_enqueued_append {es l : List Event} (h : ∀ e ∈ es, e.Neutral) (id : Nat) :
    (es ++ l).count (.enqueued id) = l.count (.enqueued id) := by
  rw [List.count_append, List.count_eq_zero_of_not_mem, Nat.zero_add]
  intro hmem
  exact (h _ hmem).1 id rfl

theorem countP_leaves_append {es l : List Event} (h : ∀ e ∈ es, e.Neutral) (id : Nat) :
    (es ++ l).countP (Event.leaves id) = l.countP (Event.leaves id) := by
  rw [List.countP_append, List.countP_eq_zero.mpr, Nat.zero_add]
  intro e he
  rw [(h e he).2 id]
  exact Bool.false_ne_true

/-- New log entries that are no turns, over an unchanged queue. -/
theorem Turns.of_log (h : Turns n s) (es : List Event) (hes : ∀ e ∈ es, e.Neutral)
    (hlog : s'.log = es ++ s.log) (hwait : s'.waiters = s.waiters)
    (hper : ∀ id, (s'.permits.get? id).isSome → (s.permits.get? id).isSome) : Turns n s' := by
  refine h.same hwait (fun id => ?_) (fun id => ?_) hper
  · rw [Semaphore.entered, hlog, count_enqueued_append hes]
    rfl
  · rw [Semaphore.left, hlog, countP_leaves_append hes]
    rfl

/-- Taking one waiter out of the middle of the queue. -/
theorem countP_middle (P : Waiter → Bool) (pre post : List Waiter) (w : Waiter) :
    (pre ++ post).countP P + (if P w then 1 else 0) = (pre ++ w :: post).countP P := by
  rw [List.countP_append, List.countP_append, List.countP_cons, Nat.add_assoc]

theorem countP_erase (P : Waiter → Bool) {l : List Waiter} {w : Waiter} (h : w ∈ l) :
    (l.erase w).countP P + (if P w then 1 else 0) = l.countP P := by
  rw [← List.countP_cons]
  exact (List.perm_cons_erase h).symm.countP_eq P

theorem neutral_of_clamped {es : List Event} (h : ∀ e ∈ es, e = .clamped) :
    ∀ e ∈ es, e.Neutral := by
  intro e he
  rw [h e he]
  exact ⟨fun _ => by simp, fun _ => rfl⟩

/-- The log of a queue decrement, `es` being empty or one clamp. -/
theorem decQueued_log (s : Semaphore) (k : String) :
    ∃ es, (∀ e ∈ es, e = .clamped) ∧ (s.decQueued k).log = es ++ s.log := by
  rw [Semaphore.decQueued_eq]
  by_cases h : s.queuedByIntention.getD k 0 - 1 < 0
  · exact ⟨[.clamped], by simp, by simp [h]⟩
  · exact ⟨[], by simp, by simp [h]⟩

theorem Turns.grantWaiter (h : Turns n s) {pre post : List Waiter} {w : Waiter}
    (hs : s.waiters = pre ++ w :: post) :
    Turns n { s.grantWaiter w with waiters := pre ++ post } := by
  have hmem : w ∈ s.waiters := by simp [hs]
  have ht : w.onAcquireThrows = false := h.patient w hmem
  obtain ⟨es, hes, hlog⟩ := decQueued_log s w.intention
  have hes := neutral_of_clamped hes
  have hlog' : (s.grantWaiter w).log =
      .granted ⟨w.id, w.weight, s.active + w.weight, s.limit, s.hardCap⟩ ::
        .stats (s.active + w.weight) :: (es ++ s.log) := by
    rw [Semaphore.grantWaiter, Semaphore.grant_fst, ht, hlog, Semaphore.decQueued_eq]
    rfl
  have hper : (s.grantWaiter w).permits = Semaphore.resolvePermit s.permits w.toRequest := by
    rw [Semaphore.grantWaiter, Semaphore.grant_fst, ht, Semaphore.decQueued_eq]
    rfl
  refine h.exit hmem (fun x hx => ?_) (fun id => ?_) (fun id => ?_) (fun id => ?_)
    (fun id hid => ?_)
  · rw [hs]
    exact (List.Sublist.append_left (List.sublist_cons_self w post) pre).subset hx
  · have := countP_middle (fun x => decide (x.id = id)) pre post w
    simpa only [Semaphore.waiting, hs, decide_eq_true_eq] using this
  · show (s.grantWaiter w).log.count _ = _
    rw [hlog', List.count_cons_of_ne (by simp), List.count_cons_of_ne (by simp),
      count_enqueued_append hes]
    rfl
  · show (s.grantWaiter w).log.countP _ = _
    rw [hlog', List.countP_cons, List.countP_cons_of_neg (by simp [Event.leaves]),
      countP_leaves_append hes]
    simp only [Event.leaves, decide_eq_true_eq]
    rfl
  · have hid : ((s.grantWaiter w).permits.get? id).isSome := hid
    rw [hper] at hid
    exact Semaphore.isSome_resolvePermit hid

theorem Turns.leave (h : Turns n s) {w : Waiter} {code : GateErrorCode} {es : List Event}
    (hmem : w ∈ s.waiters) (hcode : code = .timeout ∨ code = .aborted)
    (hes : ∀ e ∈ es, e.Neutral) : Turns n (s.leave w code es) := by
  obtain ⟨es', hes', hlog⟩ := decQueued_log { s with waiters := s.waiters.erase w } w.intention
  have hes' := neutral_of_clamped hes'
  have hlog' : (s.leave w code es).log = .rejected w.id code :: (es ++ (es' ++ s.log)) := by
    simp only [Semaphore.leave, hlog, List.cons_append]
  have hfields : (s.leave w code es).waiters = s.waiters.erase w ∧
      (s.leave w code es).permits = s.permits := by
    simp only [Semaphore.leave, Semaphore.decQueued_eq, and_self]
  have hleaves : ∀ id, Event.leaves id (.rejected w.id code) = decide (w.id = id) := by
    intro id
    by_cases hid : w.id = id
    · rcases hcode with rfl | rfl <;> simp [Event.leaves, hid]
    · simp [Event.leaves, hid]
  refine h.exit hmem (fun x hx => ?_) (fun id => ?_) (fun id => ?_) (fun id => ?_)
    (fun id hid => ?_)
  · rw [hfields.1] at hx
    exact List.mem_of_mem_erase hx
  · have := countP_erase (fun x => decide (x.id = id)) hmem
    simpa only [Semaphore.waiting, hfields.1, decide_eq_true_eq] using this
  · show (s.leave w code es).log.count _ = _
    rw [hlog', List.count_cons_of_ne (by simp), count_enqueued_append hes,
      count_enqueued_append hes']
    rfl
  · show (s.leave w code es).log.countP _ = _
    rw [hlog', List.countP_cons, hleaves, countP_leaves_append hes, countP_leaves_append hes']
    simp only [decide_eq_true_eq]
    rfl
  · rw [hfields.2] at hid
    exact .inr hid

/-- Turns survive every change but a shutdown. -/
theorem Turns.move [ShareRounding] {m : Nat} {op : Op} {s₀ : Semaphore} (h : Turns n s)
    (hm : Move m op s₀ s s') (hop : op ≠ .shutdown) : Turns n s' := by
  cases hm with
  | note he =>
    refine h.of_log [_] ?_ rfl rfl fun id hid => hid
    intro e he'
    rw [List.mem_singleton] at he'
    exact he' ▸ he.neutral
  | grantWaiter _ hs _ _ => exact h.grantWaiter hs
  | @grantThrown pre w post visited _ hs _ ht _ _ =>
    have := h.patient w (by simp [hs])
    rw [this] at ht
    exact absurd ht Bool.false_ne_true
  | leave _ hw hcode hes => exact h.leave hw hcode fun e he => (hes e he).neutral
  | @release now id _ =>
    rcases Semaphore.release_cases s now id with heq | ⟨p, timer, hp, _, heq⟩
    · rwa [heq]
    · rw [heq]
      refine h.of_log [] (by simp) rfl rfl fun id' hid => ?_
      rw [Dict.get?_set] at hid
      split at hid
      · rename_i hid'
        rw [← hid', hp]
        rfl
      · exact hid
  | applyReleases _ =>
    obtain ⟨a, d, es, hes, heq⟩ := Semaphore.applyReleases_eq s
    rw [heq]
    refine h.of_log es (neutral_of_clamped hes) rfl rfl fun id hid => ?_
    rw [Dict.get?_mapVals, Option.isSome_map] at hid
    exact hid
  | resize _ => exact h.same rfl (fun _ => rfl) (fun _ => rfl) fun _ hid => hid
  | setHardCap _ => exact h.same rfl (fun _ => rfl) (fun _ => rfl) fun _ hid => hid
  | setSoftLimit _ => exact h.same rfl (fun _ => rfl) (fun _ => rfl) fun _ hid => hid
  | @reconfigure opts _ =>
    simp only [Semaphore.reconfigure]
    split
    · exact h.same rfl (fun _ => rfl) (fun _ => rfl) fun _ hid => hid
    · exact h.same rfl (fun _ => rfl) (fun _ => rfl) fun _ hid => hid
  | shutdown h => exact absurd h hop

theorem Turns.next (h : Turns n s) : Turns (n + 1) s :=
  ⟨h.turn, fun id hid => h.fresh id (by omega), h.granted, h.patient⟩

/-- The new request is granted on arrival. -/
theorem Turns.enter_granted (h : Turns n s) (hwait : s'.waiters = s.waiters)
    (hent : ∀ id, s'.entered id = s.entered id)
    (hleft : ∀ id, s'.left id = s.left id + if n = id then 1 else 0)
    (hper : ∀ id, (s'.permits.get? id).isSome → n = id ∨ (s.permits.get? id).isSome) :
    Turns (n + 1) s' := by
  have hw : ∀ id, s'.waiting id = s.waiting id := fun id => by
    simp only [Semaphore.waiting, hwait]
  refine ⟨fun id => ?_, fun id hle => ?_, fun id hsome => ?_, fun x hx => h.patient x (hwait ▸ hx)⟩
  · rw [hent, hleft, hw]
    by_cases hn : n = id
    · subst hn
      exact .inr ⟨(h.fresh n le_rfl).1, h.not_waiting_of_fresh le_rfl⟩
    · rw [if_neg hn, Nat.add_zero]
      exact h.turn id
  · rw [hent, hleft, if_neg (by omega)]
    exact h.fresh id (by omega)
  · rw [hleft]
    rcases hper id hsome with hn | hold
    · rw [if_pos hn]
      omega
    · have := h.granted id hold
      omega

/-- The new request is enqueued. -/
theorem Turns.enter_queued (h : Turns n s)
    (hwait : ∀ id, s'.waiting id = s.waiting id + if n = id then 1 else 0)
    (hent : ∀ id, s'.entered id = s.entered id + if n = id then 1 else 0)
    (hleft : ∀ id, s'.left id = s.left id)
    (hper : ∀ id, (s'.permits.get? id).isSome → (s.permits.get? id).isSome)
    (hpatient : ∀ w ∈ s'.waiters, w.onAcquireThrows = false) : Turns (n + 1) s' := by
  have hfresh := h.fresh n le_rfl
  have hw := h.not_waiting_of_fresh (le_refl n)
  refine ⟨fun id => ?_, fun id hle => ?_, fun id hsome => ?_, hpatient⟩
  · rw [hent, hleft, hwait]
    by_cases hn : n = id
    · subst hn
      simp only [if_pos]
      exact .inl ⟨by omega, by omega⟩
    · rw [if_neg hn, Nat.add_zero, Nat.add_zero]
      exact h.turn id
  · rw [hent, hleft, if_neg (by omega)]
    exact h.fresh id (by omega)
  · rw [hleft]
    exact h.granted id (hper id hsome)

/-- A new request, granted or queued, takes its first turn. -/
theorem Turns.intake [ShareRounding] {opts : AcquireOptions} (h : Turns n s)
    (hin : Intake n opts s s') (hopts : opts.onAcquireThrows = false) : Turns (n + 1) s' := by
  cases hin with
  | @grant r hid ht hw hc =>
    rw [hopts] at ht
    have hlog : (s.grant r).1.log =
        .granted ⟨r.id, r.weight, s.active + r.weight, s.limit, s.hardCap⟩ ::
          .stats (s.active + r.weight) :: s.log := by
      rw [Semaphore.grant_fst, ht]
      rfl
    refine h.enter_granted (by rw [Semaphore.grant_fst]) (fun id => ?_) (fun id => ?_)
      (fun id hsome => ?_)
    · simp [Semaphore.entered, hlog]
    · simp [Semaphore.left, hlog, List.countP_cons, Event.leaves, hid]
    · rw [Semaphore.grant_fst, ht] at hsome
      simp only [Bool.false_eq_true, if_false] at hsome
      exact (Semaphore.isSome_resolvePermit hsome).imp_left fun h => hid ▸ h
  | @enqueue _ w hid ht hw hc henq =>
    obtain ⟨-, rfl⟩ := Semaphore.enqueue_eq henq
    refine h.enter_queued (fun id => ?_) (fun id => ?_) (fun id => ?_) (fun _ hid => hid)
      (fun x hx => ?_)
    · simp [Semaphore.waiting, List.countP_append, List.countP_cons, hid]
    · simp [Semaphore.entered, List.count_cons, hid]
    · simp [Semaphore.left, Event.leaves]
    · rcases List.mem_append.mp hx with hx | hx
      · exact h.patient x hx
      · rw [List.mem_singleton.mp hx, ht, hopts]

/-! ## The ledger of the counters

Accounts without the queue, and up to what callbacks that threw have left
counted. -/

structure Ledger (lost : Int) (lostOf : String → Int) (s : Semaphore) : Prop where
  active_eq : s.active = s.permits.total Permit.outstanding + lost
  byIntention_eq : ∀ k,
    s.activeByIntention.getD k 0 = s.permits.total (Permit.outstandingOf k) + lostOf k
  lost_nonneg : 0 ≤ lost
  lostOf_nonneg : ∀ k, 0 ≤ lostOf k
  keys_nodup : s.activeByIntention.keys.Nodup
  total_eq : s.activeByIntention.total id = s.active
  pending_eq : ∀ sel, pendingOf sel s.pendingReleases = s.permits.total (Permit.cooling sel)
  permit_pos : ∀ e ∈ s.permits, 0 < e.2.weight
  pending_pos : ∀ rel ∈ s.pendingReleases, 0 < rel.weight
  running : s.shutdownRequested = false

section Ledger

variable {lost : Int} {lostOf : String → Int}

theorem Accounts.ledger (h : Accounts s) : Ledger 0 (fun _ => 0) s where
  active_eq := by rw [h.active_eq, Int.add_zero]
  byIntention_eq k := by rw [h.byIntention_eq, Int.add_zero]
  lost_nonneg := le_rfl
  lostOf_nonneg _ := le_rfl
  keys_nodup := h.keys_nodup
  total_eq := h.total_eq
  pending_eq := h.pending_eq
  permit_pos := h.permit_pos
  pending_pos := h.pending_pos
  running := h.running

theorem Ledger.accounts (h : Ledger 0 (fun _ => 0) s) (hqueued : s.Counted)
    (hwaiter : ∀ w ∈ s.waiters, 0 < w.weight) (hlog : .clamped ∉ s.log) : Accounts s where
  active_eq := by rw [h.active_eq, Int.add_zero]
  byIntention_eq k := by rw [h.byIntention_eq, Int.add_zero]
  keys_nodup := h.keys_nodup
  total_eq := h.total_eq
  queued_eq := hqueued
  pending_eq := h.pending_eq
  permit_pos := h.permit_pos
  pending_pos := h.pending_pos
  waiter_pos := hwaiter
  running := h.running
  unclamped := hlog

/-- A grant of a request without a permit. -/
theorem Ledger.grant_new (h : Ledger lost lostOf s) {r : Request} (ht : r.onAcquireThrows = false)
    (hw : 0 < r.weight) (hnew : s.permits.get? r.id = none) :
    Ledger lost lostOf (s.grant r).1 := by
  rw [Semaphore.grant_fst, ht, Semaphore.resolvePermit_of_none hnew]
  have hset : ∀ f : Permit → Int,
      (s.permits.set r.id ⟨r.weight, r.intention, r.wasProbe, .held⟩).total f =
        s.permits.total f + f ⟨r.weight, r.intention, r.wasProbe, .held⟩ :=
    fun f => Dict.total_set_of_none hnew _
  refine ⟨?_, fun k => ?_, h.lost_nonneg, h.lostOf_nonneg, Dict.nodup_keys_set h.keys_nodup _ _, ?_,
    fun sel => ?_, fun e he => ?_, h.pending_pos, h.running⟩
  · show s.active + r.weight = Dict.total _ (s.permits.set _ _) + lost
    rw [hset, h.active_eq]
    show _ = _ + r.weight + lost
    omega
  · show (s.activeByIntention.set _ _).getD k 0 = Dict.total _ (s.permits.set _ _) + lostOf k
    rw [hset, Dict.getD_set]
    have hk' := h.byIntention_eq k
    by_cases hk : r.intention = k
    · subst hk
      simp only [Permit.outstandingOf, Permit.outstanding, if_true]
      rw [if_neg (by simp), hk']
      omega
    · simp only [Permit.outstandingOf, hk, if_false, Int.add_zero]
      exact hk'
  · show (s.activeByIntention.set _ _).total id = s.active + r.weight
    rw [Dict.total_set_getD_add, h.total_eq]
  · show pendingOf sel s.pendingReleases = Dict.total _ (s.permits.set _ _)
    rw [hset, h.pending_eq sel]
    simp [Permit.cooling]
  · rcases Dict.mem_set he with rfl | he
    · exact hw
    · exact h.permit_pos e he

/-- A grant whose permit nobody gets: the counters stay raised for good. -/
theorem Ledger.grant_lost (h : Ledger lost lostOf s) {r : Request} (hw : 0 < r.weight)
    (hper : (s.grant r).1.permits = s.permits) :
    Ledger (lost + r.weight) (fun k => lostOf k + if k = r.intention then r.weight else 0)
      (s.grant r).1 := by
  have heq := Semaphore.grant_fst s r
  rw [heq] at hper ⊢
  dsimp only at hper
  have hlost := h.lost_nonneg
  refine ⟨?_, fun k => ?_, by omega, fun k => ?_, Dict.nodup_keys_set h.keys_nodup _ _, ?_,
    fun sel => ?_, fun e he => ?_, h.pending_pos, h.running⟩
  · dsimp only
    rw [hper, h.active_eq, Int.add_assoc]
  · dsimp only
    rw [hper, Dict.getD_set_getD_add, h.byIntention_eq, Int.add_assoc]
  · have := h.lostOf_nonneg k
    split <;> omega
  · dsimp only
    rw [Dict.total_set_getD_add, h.total_eq]
  · dsimp only
    rw [hper]
    exact h.pending_eq sel
  · dsimp only at he
    rw [hper] at he
    exact h.permit_pos e he

/-- The first call of a permit's `release` moves its weight to the pending
batch. -/
theorem Ledger.release (h : Ledger lost lostOf s) (now : Int) (id : Nat) :
    Ledger lost lostOf (s.release now id) := by
  rcases Semaphore.release_cases s now id with heq | ⟨p, timer, hp, hheld, heq⟩
  · rwa [heq]
  · have hset : ∀ f : Permit → Int,
        (s.permits.set id { p with stage := .cooling }).total f =
          s.permits.total f - f p + f { p with stage := .cooling } :=
      fun f => Dict.total_set_of_some hp _
    have hpos := h.permit_pos _ (Dict.mem_of_get? hp)
    rw [heq]
    refine ⟨?_, fun k => ?_, h.lost_nonneg, h.lostOf_nonneg, h.keys_nodup, h.total_eq,
      fun sel => ?_, fun e he => ?_, fun rel hrel => ?_, h.running⟩
    · show s.active = Dict.total _ (s.permits.set _ _) + lost
      rw [hset, h.active_eq]
      simp [Permit.outstanding, hheld]
    · show s.activeByIntention.getD k 0 = Dict.total _ (s.permits.set _ _) + lostOf k
      rw [hset, h.byIntention_eq k]
      simp [Permit.outstandingOf, Permit.outstanding, hheld]
    · show pendingOf sel (if _ then _ else _) = Dict.total _ (s.permits.set _ _)
      rw [hset, ← h.pending_eq sel, if_neg (by simp [h.running])]
      simp [pendingOf, Permit.cooling, hheld]
    · rcases Dict.mem_set he with rfl | he
      · exact hpos
      · exact h.permit_pos e he
    · have hrel : rel ∈ if s.shutdownRequested = true then _ else _ := hrel
      rw [if_neg (by simp [h.running]), List.mem_append, List.mem_singleton] at hrel
      rcases hrel with hrel | rfl
      · exact h.pending_pos rel hrel
      · exact hpos

/-- A batch of releases whose weights the counters cover: no clamp, and
each counter falls by its share of the batch. -/
theorem foldl_applyRelease_spec (rels : List Release) : ∀ s : Semaphore,
    (∀ rel ∈ rels, 0 < rel.weight) → pendingOf anyIntention rels ≤ s.active →
    (∀ k, pendingOf (onlyIntention k) rels ≤ s.activeByIntention.getD k 0) →
    s.activeByIntention.keys.Nodup →
    (rels.foldl Semaphore.applyRelease s).active = s.active - pendingOf anyIntention rels ∧
      (∀ k, (rels.foldl Semaphore.applyRelease s).activeByIntention.getD k 0 =
        s.activeByIntention.getD k 0 - pendingOf (onlyIntention k) rels) ∧
      (rels.foldl Semaphore.applyRelease s).activeByIntention.total id =
        s.activeByIntention.total id - pendingOf anyIntention rels ∧
      (rels.foldl Semaphore.applyRelease s).activeByIntention.keys.Nodup ∧
      (rels.foldl Semaphore.applyRelease s).log = s.log := by
  induction rels with
  | nil =>
    intro s _ _ _ hnd
    exact ⟨(sub_zero _).symm, fun k => (sub_zero _).symm, (sub_zero _).symm, hnd, rfl⟩
  | cons rel rels ih =>
    intro s hpos hact hby hnd
    have hrel : 0 < rel.weight := hpos rel (by simp)
    have hnonneg : ∀ sel, 0 ≤ pendingOf sel rels := by
      intro sel
      refine List.sum_nonneg ?_
      intro x hx
      obtain ⟨r, hr, rfl⟩ := List.mem_map.mp hx
      have := hpos r (List.mem_cons_of_mem _ hr)
      split <;> omega
    have hcons : ∀ sel, pendingOf sel (rel :: rels) =
        (if sel rel.intention then rel.weight else 0) + pendingOf sel rels := fun _ => rfl
    have hany := hcons anyIntention
    have hown := hcons (onlyIntention rel.intention)
    simp only [anyIntention_apply, onlyIntention_apply, if_true, decide_true] at hany hown
    have hbyrel := hby rel.intention
    have hnn := hnonneg anyIntention
    have hnn' := hnonneg (onlyIntention rel.intention)
    have hstep : s.applyRelease rel =
        { s with
          active := s.active - rel.weight
          activeByIntention :=
            s.activeByIntention.set rel.intention
              (s.activeByIntention.getD rel.intention 0 + -rel.weight) } := by
      rw [Semaphore.applyRelease, Semaphore.noteClamp_eq, Semaphore.noteClamp_eq,
        if_neg (by omega), if_neg (by omega), max_eq_right (by omega), max_eq_right (by omega),
        sub_eq_add_neg (s.activeByIntention.getD rel.intention 0)]
    obtain ⟨h₁, h₂, h₃, h₄, h₅⟩ := ih (s.applyRelease rel)
      (fun r hr => hpos r (List.mem_cons_of_mem _ hr))
      (by
        rw [hstep]
        show _ ≤ s.active - rel.weight
        omega)
      (by
        intro k
        have hk := hby k
        rw [hcons] at hk
        rw [hstep]
        show _ ≤ (s.activeByIntention.set _ _).getD k 0
        rw [Dict.getD_set]
        by_cases hrk : rel.intention = k
        · subst hrk
          rw [if_pos rfl]
          omega
        · simp only [onlyIntention_apply, hrk, decide_false, Bool.false_eq_true, if_false] at hk ⊢
          omega)
      (by
        rw [hstep]
        exact Dict.nodup_keys_set hnd _ _)
    rw [List.foldl_cons]
    refine ⟨?_, fun k => ?_, ?_, h₄, ?_⟩
    · rw [h₁, hstep, hany]
      show s.active - rel.weight - _ = _
      omega
    · rw [h₂, hstep, hcons]
      show (s.activeByIntention.set _ _).getD k 0 - _ = _
      rw [Dict.getD_set]
      by_cases hrk : rel.intention = k
      · subst hrk
        simp only [onlyIntention_apply, if_true, decide_true]
        omega
      · simp only [onlyIntention_apply, hrk, decide_false, Bool.false_eq_true, if_false]
        omega
    · rw [h₃, hstep, hany]
      show (s.activeByIntention.set _ _).total id - _ = _
      rw [Dict.total_set_getD_add]
      omega
    · rw [h₅, hstep]

/-- Applying a release takes the weight of a cooling permit out. -/
theorem Permit.outstanding_applied (p : Permit) :
    p.applied.outstanding + p.cooling anyIntention = p.outstanding := by
  obtain ⟨w, k, probe, stage⟩ := p
  cases stage <;> simp [Permit.applied, Permit.outstanding, Permit.cooling]

theorem Permit.outstandingOf_applied (k : String) (p : Permit) :
    p.applied.outstandingOf k + p.cooling (onlyIntention k) = p.outstandingOf k := by
  obtain ⟨w, k', probe, stage⟩ := p
  by_cases hk : k' = k <;>
    cases stage <;>
      simp [Permit.applied, Permit.outstandingOf, Permit.outstanding, Permit.cooling, hk]

theorem Permit.cooling_applied (sel : String → Bool) (p : Permit) : p.applied.cooling sel = 0 := by
  obtain ⟨w, k, probe, stage⟩ := p
  cases stage <;> simp [Permit.applied, Permit.cooling]

/-- The cooldown timer takes the weights of the batch off the counters, and
clamps nothing. -/
theorem Ledger.applyReleases (h : Ledger lost lostOf s) :
    Ledger lost lostOf s.applyReleases ∧ s.applyReleases.log = s.log ∧
      s.applyReleases.active = s.active - pendingOf anyIntention s.pendingReleases := by
  have hlost := h.lost_nonneg
  have hcool : ∀ sel, ∀ e ∈ s.permits, e.2.cooling sel ≤ e.2.outstanding ∧
      0 ≤ e.2.outstanding := by
    intro sel e he
    have := h.permit_pos e he
    obtain ⟨id, w, k, probe, stage⟩ := e
    simp only at this
    cases stage <;> simp only [Permit.cooling, Permit.outstanding] <;> split <;> simp_all <;> omega
  have hact : pendingOf anyIntention s.pendingReleases ≤ s.active := by
    rw [h.pending_eq, h.active_eq]
    have := Dict.total_le fun e he => (hcool anyIntention e he).1
    omega
  have hby : ∀ k, pendingOf (onlyIntention k) s.pendingReleases ≤
      s.activeByIntention.getD k 0 := by
    intro k
    rw [h.pending_eq, h.byIntention_eq]
    have hle : s.permits.total (Permit.cooling (onlyIntention k)) ≤
        s.permits.total (Permit.outstandingOf k) := by
      refine Dict.total_le fun e he => ?_
      have := hcool (onlyIntention k) e he
      by_cases hk : e.2.intention = k
      · rw [Permit.outstandingOf, if_pos hk]
        exact this.1
      · simp [Permit.cooling, Permit.outstandingOf, hk]
    have := h.lostOf_nonneg k
    omega
  obtain ⟨h₁, h₂, h₃, h₄, h₅⟩ := foldl_applyRelease_spec s.pendingReleases
    { s with
      releaseTimer := none
      pendingReleases := []
      permits := s.permits.mapVals Permit.applied }
    h.pending_pos hact hby h.keys_nodup
  obtain ⟨a, d, es, hes, heq⟩ := Semaphore.applyReleases_eq s
  have ha : a = s.active - pendingOf anyIntention s.pendingReleases := by
    rw [← h₁]
    exact (congrArg Semaphore.active heq).symm
  have hd : (s.pendingReleases.foldl Semaphore.applyRelease _).activeByIntention = d :=
    congrArg Semaphore.activeByIntention heq
  have hlog : es ++ s.log = s.log := (congrArg Semaphore.log heq).symm.trans h₅
  rw [hd] at h₂ h₃ h₄
  rw [heq]
  refine ⟨⟨?_, fun k => ?_, h.lost_nonneg, h.lostOf_nonneg, h₄, ?_, fun sel => ?_,
    fun e he => ?_, by simp, h.running⟩, hlog, ha⟩
  · show a = Dict.total _ (s.permits.mapVals _) + lost
    have := Dict.total_add (fun p => Permit.outstanding p.applied)
      (Permit.cooling anyIntention) s.permits
    rw [Dict.total_congr fun e _ => Permit.outstanding_applied e.2] at this
    rw [Dict.total_mapVals, ha, h.active_eq, h.pending_eq, this]
    omega
  · show d.getD k 0 = Dict.total _ (s.permits.mapVals _) + lostOf k
    have := Dict.total_add (fun p => Permit.outstandingOf k p.applied)
      (Permit.cooling (onlyIntention k)) s.permits
    rw [Dict.total_congr fun e _ => Permit.outstandingOf_applied k e.2] at this
    rw [h₂, Dict.total_mapVals, h.byIntention_eq, h.pending_eq, this]
    omega
  · show d.total id = a
    rw [h₃, h.total_eq, ha]
  · show 0 = Dict.total _ (s.permits.mapVals _)
    rw [Dict.total_mapVals, Dict.total_congr (g := fun _ => 0)
      fun e _ => Permit.cooling_applied sel e.2]
    simp [Dict.total]
  · obtain ⟨e', he', rfl⟩ := List.mem_map.mp he
    have hw : e'.2.applied.weight = e'.2.weight := by
      unfold Permit.applied
      split <;> rfl
    show 0 < e'.2.applied.weight
    rw [hw]
    exact h.permit_pos e' he'

theorem getD_ensureKeys (keys : List String) (d : Dict String Int) (k : String) :
    (Semaphore.ensureKeys d keys).getD k 0 = d.getD k 0 := by
  unfold Semaphore.ensureKeys
  induction keys generalizing d with
  | nil => rfl
  | cons key keys ih =>
    rw [List.foldl_cons, ih]
    split
    · rename_i hnone
      rw [Dict.getD_set]
      split
      · rename_i hk
        rw [← hk, Dict.getD, Option.isNone_iff_eq_none.mp hnone]
        rfl
      · rfl
    · rfl

theorem ensureKeys_keys_total (keys : List String) (d : Dict String Int) (h : d.keys.Nodup) :
    (Semaphore.ensureKeys d keys).keys.Nodup ∧
      (Semaphore.ensureKeys d keys).total id = d.total id := by
  unfold Semaphore.ensureKeys
  induction keys generalizing d with
  | nil => exact ⟨h, rfl⟩
  | cons key keys ih =>
    rw [List.foldl_cons]
    split
    · rename_i hnone
      obtain ⟨h₁, h₂⟩ := ih _ (Dict.nodup_keys_set h key 0)
      refine ⟨h₁, ?_⟩
      rw [h₂, Dict.total_set_of_none (Option.isNone_iff_eq_none.mp hnone)]
      exact Int.add_zero _
    · exact ih d h

theorem Ledger.reconfigure (h : Ledger lost lostOf s) (opts : ReconfigureOptions) :
    Ledger lost lostOf (s.reconfigure opts) := by
  simp only [Semaphore.reconfigure]
  split
  · exact { h with }
  · rename_i intentions _
    obtain ⟨h₁, h₂⟩ := ensureKeys_keys_total (Semaphore.scaleIntentions intentions).keys
      s.activeByIntention h.keys_nodup
    exact
      { h with
        byIntention_eq := fun k => (getD_ensureKeys _ _ k).trans (h.byIntention_eq k)
        keys_nodup := h₁
        total_eq := h₂.trans h.total_eq }

end Ledger

/-! ## Accounts survive every change -/

theorem Accounts.withLog (h : Accounts s) {l : List Event} (hl : .clamped ∉ l) :
    Accounts { s with log := l } :=
  { h with unclamped := hl }

/-- A grant of a request without a permit. -/
theorem Accounts.grant (h : Accounts s) {r : Request} (ht : r.onAcquireThrows = false)
    (hw : 0 < r.weight) (hnew : s.permits.get? r.id = none) : Accounts (s.grant r).1 := by
  have hledger := h.ledger.grant_new ht hw hnew
  rw [Semaphore.grant_fst, ht] at hledger ⊢
  exact hledger.accounts h.queued_eq h.waiter_pos (by simp [h.unclamped])

/-- A waiter is counted, so taking it off its counter clamps nothing. -/
theorem Semaphore.Counted.pos (h : s.Counted) {w : Waiter} (hmem : w ∈ s.waiters) :
    0 < s.queuedByIntention.getD w.intention 0 := by
  have : 0 < s.waitersOf w.intention := List.countP_pos_iff.mpr ⟨w, hmem, by simp⟩
  rw [h]
  omega

/-- Taking a waiter out of the queue and off its counter: a counter that is
right stays so. -/
theorem queued_eq_dequeue {k : String} (h : s.queuedByIntention.getD k 0 = s.waitersOf k)
    {w : Waiter} {l : List Waiter} (hmem : w ∈ s.waiters)
    (hl : ∀ P : Waiter → Bool, l.countP P + (if P w then 1 else 0) = s.waiters.countP P) :
    ({ s with waiters := l }.decQueued w.intention).queuedByIntention.getD k 0 =
      ({ s with waiters := l }.decQueued w.intention).waitersOf k := by
  have hcount := hl fun x => decide (x.intention = k)
  rw [Semaphore.decQueued_eq]
  show (s.queuedByIntention.set w.intention
    (max 0 (s.queuedByIntention.getD w.intention 0 - 1))).getD k 0 = ((l.countP _ : Nat) : Int)
  rw [Dict.getD_set]
  by_cases hk : w.intention = k
  · subst hk
    have hpos : 0 < s.waitersOf w.intention := List.countP_pos_iff.mpr ⟨w, hmem, by simp⟩
    simp only [decide_true, if_true] at hcount
    rw [if_pos rfl, max_eq_right (by omega), h, Semaphore.waitersOf, ← hcount]
    omega
  · simp only [hk, decide_false, Bool.false_eq_true, if_false, Nat.add_zero] at hcount
    rw [if_neg hk, h, Semaphore.waitersOf, ← hcount]

theorem Semaphore.Counted.dequeue (h : s.Counted) {w : Waiter} {l : List Waiter}
    (hmem : w ∈ s.waiters)
    (hl : ∀ P : Waiter → Bool, l.countP P + (if P w then 1 else 0) = s.waiters.countP P) :
    ({ s with waiters := l }.decQueued w.intention).Counted :=
  fun k => queued_eq_dequeue (h k) hmem hl

/-- A request at the end of the queue is counted. -/
theorem queued_eq_enqueue {k : String} (h : s.queuedByIntention.getD k 0 = s.waitersOf k)
    {w : Waiter} (henq : s.enqueue w = some s') :
    s'.queuedByIntention.getD k 0 = s'.waitersOf k := by
  obtain ⟨-, rfl⟩ := Semaphore.enqueue_eq henq
  show (s.queuedByIntention.set _ _).getD k 0 = (((s.waiters ++ [w]).countP _ : Nat) : Int)
  rw [Dict.getD_set, List.countP_append]
  by_cases hk : w.intention = k
  · subst hk
    rw [if_pos rfl, h]
    simp [Semaphore.waitersOf]
  · rw [if_neg hk, h]
    simp [hk, Semaphore.waitersOf]

theorem Semaphore.Counted.enqueue (h : s.Counted) {w : Waiter} (henq : s.enqueue w = some s') :
    s'.Counted :=
  fun k => queued_eq_enqueue (h k) henq

theorem Accounts.dequeue (h : Accounts s) {w : Waiter} {l : List Waiter} (hmem : w ∈ s.waiters)
    (hl : ∀ P : Waiter → Bool, l.countP P + (if P w then 1 else 0) = s.waiters.countP P)
    (hsub : ∀ x ∈ l, x ∈ s.waiters) :
    Accounts ({ s with waiters := l }.decQueued w.intention) := by
  have hcounted := h.queued_eq.dequeue hmem hl
  have hpos := h.queued_eq.pos hmem
  rw [Semaphore.decQueued_eq] at hcounted ⊢
  simp only [if_neg (show ¬ s.queuedByIntention.getD w.intention 0 - 1 < 0 by omega)]
  exact ⟨h.active_eq, h.byIntention_eq, h.keys_nodup, h.total_eq, hcounted, h.pending_eq,
    h.permit_pos, h.pending_pos, fun x hx => h.waiter_pos x (hsub x hx), h.running, h.unclamped⟩

theorem Accounts.release (h : Accounts s) (now : Int) (id : Nat) :
    Accounts (s.release now id) := by
  have hledger := h.ledger.release now id
  rcases Semaphore.release_cases s now id with heq | ⟨p, timer, hp, hheld, heq⟩
  · rwa [heq]
  · rw [heq] at hledger ⊢
    exact hledger.accounts h.queued_eq h.waiter_pos h.unclamped

theorem Accounts.applyReleases (h : Accounts s) : Accounts s.applyReleases := by
  obtain ⟨hledger, hlog, -⟩ := h.ledger.applyReleases
  obtain ⟨a, d, es, -, heq⟩ := Semaphore.applyReleases_eq s
  rw [heq] at hledger hlog ⊢
  refine hledger.accounts h.queued_eq h.waiter_pos ?_
  rw [hlog]
  exact h.unclamped

theorem Accounts.reconfigure (h : Accounts s) (opts : ReconfigureOptions) :
    Accounts (s.reconfigure opts) := by
  have hledger := h.ledger.reconfigure opts
  simp only [Semaphore.reconfigure] at hledger ⊢
  split at hledger
  · exact hledger.accounts h.queued_eq h.waiter_pos h.unclamped
  · exact hledger.accounts (fun k => (getD_ensureKeys _ _ k).trans (h.queued_eq k)) h.waiter_pos
      h.unclamped

/-- Accounts survive every change but a shutdown. -/
theorem Accounts.move [ShareRounding] {m : Nat} {op : Op} {s₀ : Semaphore} (h : Accounts s)
    (ht : Turns n s) (hm : Move m op s₀ s s') (hop : op ≠ .shutdown) : Accounts s' := by
  cases hm with
  | @note e he =>
    refine h.withLog ?_
    rw [List.mem_cons, not_or]
    refine ⟨?_, h.unclamped⟩
    rintro rfl
    exact he
  | @grantWaiter pre w post _ hs hc htw =>
    have hmem : w ∈ s.waiters := by simp [hs]
    have hd : Accounts ({ s with waiters := pre ++ post }.decQueued w.intention) := by
      refine h.dequeue hmem (fun P => ?_) (fun x hx => ?_)
      · rw [hs]
        exact countP_middle P pre post w
      · rw [hs]
        exact (List.Sublist.append_left (List.sublist_cons_self w post) pre).subset hx
    have hg := hd.grant (r := w.toRequest) htw (h.waiter_pos w hmem) (by
      rw [Semaphore.decQueued_eq]
      exact (ht.of_mem hmem).2.2.2)
    rw [Semaphore.grantWaiter_of_waiters]
    exact hg
  | @grantThrown pre w post visited _ hs _ htw _ _ =>
    have := ht.patient w (by simp [hs])
    rw [this] at htw
    exact absurd htw Bool.false_ne_true
  | @leave w code es _ hw _ hes =>
    have hd := h.dequeue hw (fun P => countP_erase P hw) fun x hx => List.mem_of_mem_erase hx
    refine hd.withLog ?_
    rw [List.cons_append, List.mem_cons, List.mem_append, not_or, not_or]
    refine ⟨by simp, fun hmem => ?_, hd.unclamped⟩
    exact hes _ hmem
  | @release now id _ => exact h.release now id
  | applyReleases _ => exact h.applyReleases
  | resize _ => exact { h with }
  | setHardCap _ => exact { h with }
  | setSoftLimit _ => exact { h with }
  | @reconfigure opts _ => exact h.reconfigure opts
  | shutdown h => exact absurd h hop

/-- Accounts survive the taking in of a request. -/
theorem Accounts.intake [ShareRounding] {opts : AcquireOptions} (h : Accounts s) (ht : Turns n s)
    (hin : Intake n opts s s') (hopts : opts.onAcquireThrows = false) : Accounts s' := by
  cases hin with
  | @grant r hid htr hw hc =>
    refine h.grant (htr.trans hopts) hw ?_
    cases hp : s.permits.get? r.id with
    | none => rfl
    | some p =>
      have h₁ := ht.granted r.id (by rw [hp]; rfl)
      have h₂ := ht.fresh r.id (by omega)
      omega
  | @enqueue _ w hid htw hw hc henq =>
    have hcounted := h.queued_eq.enqueue henq
    obtain ⟨-, rfl⟩ := Semaphore.enqueue_eq henq
    refine ⟨h.active_eq, h.byIntention_eq, h.keys_nodup, h.total_eq, hcounted, h.pending_eq,
      h.permit_pos, h.pending_pos, fun x hx => ?_, h.running, ?_⟩
    · rcases List.mem_append.mp hx with hx | hx
      · exact h.waiter_pos x hx
      · rw [List.mem_singleton.mp hx]
        exact hw
    · rw [List.mem_cons, not_or]
      exact ⟨by simp, h.unclamped⟩

/-! ## Every run -/

theorem getD_mapVals_zero (d : Dict String Int) (k : String) :
    (d.mapVals fun _ => (0 : Int)).getD k 0 = 0 := by
  rw [Dict.getD, Dict.get?_mapVals]
  cases d.get? k <;> rfl

theorem scaleIntentions_keys_nodup (src : Dict String ℚ) :
    (Semaphore.scaleIntentions src).keys.Nodup := by
  unfold Semaphore.scaleIntentions
  refine List.foldlRecOn (motive := fun out : Dict String Int => out.keys.Nodup) src.keys _
    List.nodup_nil ?_
  intro out h key _
  exact Dict.nodup_keys_set h key _

/-- A fresh gate: no permit, no waiter, every counter zero. -/
theorem accounts_new (opts : ConcurrencyGateOptions) :
    Turns 0 (Semaphore.new opts) ∧ Accounts (Semaphore.new opts) := by
  refine ⟨⟨fun id => .inr ⟨rfl, rfl⟩, fun id _ => ⟨rfl, rfl⟩, by simp [Semaphore.new],
    by simp [Semaphore.new]⟩, ?_⟩
  refine ⟨rfl, getD_mapVals_zero _, ?_, ?_, getD_mapVals_zero _, fun sel => rfl,
    by simp [Semaphore.new], by simp [Semaphore.new], by simp [Semaphore.new], rfl,
    by simp [Semaphore.new]⟩
  · have h := scaleIntentions_keys_nodup (opts.intentions.getD [("main", 1)])
    simpa [Semaphore.new, Dict.keys, Dict.mapVals, Function.comp_def] using h
  · simp [Semaphore.new, Dict.total, Dict.mapVals, Function.comp_def]

/-- A step that is no shutdown and hands in no throwing callback. -/
def Op.Orderly : Op → Prop
  | .shutdown => False
  | .acquire opts => opts.onAcquireThrows = false
  | _ => True

/-- One operation preserves the books. -/
theorem accounts_step [ShareRounding] {g : Gate} {op : Op} (hop : op.Orderly)
    (h : Turns g.nextId g.semaphore ∧ Accounts g.semaphore) :
    Turns (g.step op).nextId (g.step op).semaphore ∧ Accounts (g.step op).semaphore := by
  have hshut : op ≠ .shutdown := by
    rintro rfl
    exact hop
  refine step_invariant (I := fun n s => Turns n s ∧ Accounts s) ?_ ?_ ?_ h
  · intro m s s' _ h hm
    exact ⟨h.1.move hm hshut, h.2.move h.1 hm hshut⟩
  · intro s h
    exact ⟨h.1.next, h.2⟩
  · rintro opts s s' rfl h hin
    exact ⟨h.1.intake hin hop, h.2.intake h.1 hin hop⟩

theorem accounts_after [ShareRounding] (opts : ConcurrencyGateOptions) {ops : List Op}
    (hops : ∀ op ∈ ops, op.Orderly) :
    Turns (Gate.after opts ops).nextId (Gate.after opts ops).semaphore ∧
      Accounts (Gate.after opts ops).semaphore :=
  run_invariant_of_stepsMeet (I := fun g : Gate => Turns g.nextId g.semaphore ∧ Accounts g.semaphore)
    (P := fun _ op => Op.Orderly op) (fun _ _ h hop => accounts_step hop h) (accounts_new opts)
    (StepsMeet.of_forall hops)

/-- Gate accounting: after every run without a shutdown and without
throwing callbacks the counters are the sums over the permits and over
the queue, every request that was enqueued is waiting or has left once,
and no clamp has changed a value. -/
theorem gate_accounting [ShareRounding] (opts : ConcurrencyGateOptions) (ops : List Op)
    (hops : ∀ op ∈ ops, op.Orderly) :
    let s := (Gate.after opts ops).semaphore
    s.active = s.permits.total Permit.outstanding ∧
      (∀ k, s.activeByIntention.getD k 0 = s.permits.total (Permit.outstandingOf k)) ∧
      s.activeByIntention.keys.Nodup ∧
      s.active = (s.activeByIntention.keys.map fun k => s.activeByIntention.getD k 0).sum ∧
      (∀ k, s.queuedByIntention.getD k 0 = s.waitersOf k) ∧
      (∀ id, s.entered id = 0 ∧ s.waiting id = 0 ∨
        s.entered id = 1 ∧ s.left id + s.waiting id = 1) ∧
      .clamped ∉ s.log := by
  obtain ⟨ht, h⟩ := accounts_after opts hops
  refine ⟨h.active_eq, h.byIntention_eq, h.keys_nodup, ?_, h.queued_eq,
    fun id => (ht.turn id).symm, h.unclamped⟩
  rw [← Dict.total_eq_sum_keys h.keys_nodup]
  exact h.total_eq.symm

section Runs

attribute [local instance] exactShare

/-- Three requests on two slots; the one that waits gives up, and a permit
is released twice. -/
def abortedWait : List Op :=
  [.acquire {}, .acquire { intention := some "vision" }, .acquire {}, .abort 2, .release 0,
    .release 0, .tick 10, .cooldownExpiry]

theorem gate_accounting_abortedWait :
    (Gate.after twoSlots abortedWait).semaphore.active =
        (Gate.after twoSlots abortedWait).semaphore.permits.total Permit.outstanding ∧
      (Gate.after twoSlots abortedWait).semaphore.active = 1000 :=
  ⟨(gate_accounting twoSlots abortedWait (by simp [abortedWait, Op.Orderly])).1,
    by decide +kernel⟩

end Runs

end UmansGate.Limiter
