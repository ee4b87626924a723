/-
UmansGate.Limiter.Moves — what an operation of the gate can do to its
semaphore, said once.

`Move n op s₀` lists the elementary changes that an operation `op`
started in `s₀` makes while the next `acquire` number is `n`, `Intake`
the one by which an `acquire` takes its request in. `step_effect` shows
that every operation is made of these. An invariant of the semaphore is
then proved by one case per change, without unfolding `step` or its
loops again. `drainLoop` is the only loop that grants: between two
grants its state is read as a queue `remaining ++ rest`, which is what
the queue would be if the source removed each waiter at its grant.
-/
import Mathlib.Logic.Relation
import UmansGate.Limiter.Gate

namespace UmansGate.Limiter

open UmansGate.Lib Relation

/-- The operation is an `acquire` call. -/
def Op.Acquires (op : Op) : Prop := ∃ opts, op = .acquire opts

/-- Events that record neither a grant nor a change of the queue. Only the
`n`-th `acquire` call, if `op` is it, admits or rejects its own request. -/
def Event.Silent (n : Nat) (op : Op) : Event → Prop
  | .stats _ => True
  | .breaker _ => True
  | .admitted id _ => id = n ∧ op.Acquires
  | .rejected id code =>
    id = n ∧ op.Acquires ∧ code ≠ .timeout ∧ code ≠ .aborted ∧ code ≠ .shutdown
  | _ => False

/-- The operations that end in `drainWaiters`. -/
def Op.Drains : Op → Prop
  | .cooldownExpiry => True
  | .resize _ => True
  | .setHardCap _ => True
  | _ => False

/-- The operations that take a waiter out of the queue unserved. -/
def Op.Dequeues : Op → Prop
  | .queueTimeout _ => True
  | .abort _ => True
  | _ => False

namespace Semaphore

/-- The state after the loop of `drainWaiters` granted one waiter, before
its bookkeeping of the queue. -/
def grantWaiter (s : Semaphore) (w : Waiter) : Semaphore :=
  ((s.decQueued w.intention).grant w.toRequest).1

/-- A waiter leaves the queue without a permit; `es` are the events the
handler logs between the removal and the rejection. -/
def leave (s : Semaphore) (w : Waiter) (code : GateErrorCode) (es : List Event) : Semaphore :=
  let s := { s with waiters := s.waiters.erase w }.decQueued w.intention
  { s with log := .rejected w.id code :: es ++ s.log }

/-- The queue plays no part in the grant of a waiter. -/
theorem grantWaiter_waiters (s : Semaphore) (w : Waiter) (l l' : List Waiter) :
    { ({ s with waiters := l }).grantWaiter w with waiters := l' } =
      { s.grantWaiter w with waiters := l' } := by
  simp only [grantWaiter, grant_fst, decQueued_eq]

theorem grantWaiter_of_waiters (s : Semaphore) (w : Waiter) (l : List Waiter) :
    { s.grantWaiter w with waiters := l } = ({ s with waiters := l }).grantWaiter w := by
  simp only [grantWaiter, grant_fst, decQueued_eq]

end Semaphore

open Semaphore

variable [ShareRounding]

/-- The elementary changes of a semaphore, the taking in of a request
apart. -/
inductive Move (n : Nat) (op : Op) (s₀ : Semaphore) : Semaphore → Semaphore → Prop where
  | note {s e} (he : e.Silent n op) : Move n op s₀ s (s.note e)
  | grantWaiter {s pre w post} (hop : op.Drains) (hs : s.waiters = pre ++ w :: post)
      (hc : s.canGrant w.intention w.weight = true) (ht : w.onAcquireThrows = false) :
      Move n op s₀ s { s.grantWaiter w with waiters := pre ++ post }
  | grantThrown {s pre w post visited} (hop : op.Drains) (hs : s.waiters = pre ++ w :: post)
      (hc : s.canGrant w.intention w.weight = true) (ht : w.onAcquireThrows = true)
      (hv : pre.Sublist visited)
      (hv₀ : ∀ x ∈ visited, ∃ y ∈ s₀.waiters, y.toRequest = x.toRequest) :
      Move n op s₀ s
        { s.grantWaiter w with waiters := visited ++ { w with timeout := none } :: post }
  | leave {s w code es} (hop : op.Dequeues) (hw : w ∈ s.waiters) (hcode : code = .timeout ∨ code = .aborted)
      (hes : ∀ e ∈ es, e.Silent n op) : Move n op s₀ s (s.leave w code es)
  | release {s now id} (hop : op = .release id) : Move n op s₀ s (s.release now id)
  | applyReleases {s} (hop : op = .cooldownExpiry) : Move n op s₀ s s.applyReleases
  | resize {s newLimit} (hop : op = .resize newLimit) :
      Move n op s₀ s { s with limit := s.clampLimit newLimit }
  | setHardCap {s newHardCap} (hop : op = .setHardCap newHardCap) :
      Move n op s₀ s
        { s with
          hardCap := scaledCap newHardCap
          softLimit :=
            if s.softLimit > scaledCap newHardCap then scaledCap newHardCap else s.softLimit
          limit :=
            if Num.lt (.fin (scaledCap newHardCap)) s.limit then .fin (scaledCap newHardCap)
            else s.limit }
  | setSoftLimit {s newSoftLimit} (hop : op = .setSoftLimit newSoftLimit) :
      Move n op s₀ s { s with softLimit := scaledCap newSoftLimit }
  | reconfigure {s opts} (hop : op = .reconfigure opts) : Move n op s₀ s (s.reconfigure opts)
  | shutdown {s} (hop : op = .shutdown) : Move n op s₀ s s.shutdown

/-- A sequence of elementary changes. -/
abbrev Moves (n : Nat) (op : Op) (s₀ : Semaphore) : Semaphore → Semaphore → Prop :=
  ReflTransGen (Move n op s₀)

/-- Apart from its request an `acquire` only logs. -/
theorem Move.note_of_acquire {n : Nat} {opts : AcquireOptions} {s₀ s s' : Semaphore}
    (hm : Move n (.acquire opts) s₀ s s') : ∃ e, e.Silent n (.acquire opts) ∧ s' = s.note e := by
  cases hm with
  | note he => exact ⟨_, he, rfl⟩
  | grantWaiter hop => exact absurd hop (by simp [Op.Drains])
  | grantThrown hop => exact absurd hop (by simp [Op.Drains])
  | leave hop => exact absurd hop (by simp [Op.Dequeues])
  | release hop => cases hop
  | applyReleases hop => cases hop
  | resize hop => cases hop
  | setHardCap hop => cases hop
  | setSoftLimit hop => cases hop
  | reconfigure hop => cases hop
  | shutdown hop => cases hop

/-- How the `n`-th `acquire` call takes its request in. -/
inductive Intake (n : Nat) (opts : AcquireOptions) : Semaphore → Semaphore → Prop where
  | grant {s r} (hid : r.id = n) (ht : r.onAcquireThrows = opts.onAcquireThrows)
      (hw : 0 < r.weight) (hc : s.canGrant r.intention r.weight = true) :
      Intake n opts s (s.grant r).1
  | enqueue {s s' w} (hid : w.id = n) (ht : w.onAcquireThrows = opts.onAcquireThrows)
      (hw : 0 < w.weight) (hc : s.canGrant w.intention w.weight = false)
      (h : s.enqueue w = some s') : Intake n opts s s'

variable {n : Nat} {op : Op} {s₀ : Semaphore}

/-- A waiter after a change is a request that waited before it, or when the
operation began. -/
theorem Move.mem_waiters {s s' : Semaphore} (hm : Move n op s₀ s s') {x : Waiter}
    (hx : x ∈ s'.waiters) :
    (∃ y ∈ s.waiters, y.toRequest = x.toRequest) ∨ ∃ y ∈ s₀.waiters, y.toRequest = x.toRequest := by
  cases hm with
  | note _ => exact .inl ⟨x, hx, rfl⟩
  | @grantWaiter pre w post _ hs _ _ =>
    refine .inl ⟨x, ?_, rfl⟩
    rw [hs]
    exact (List.Sublist.append_left (List.sublist_cons_self w post) pre).subset hx
  | @grantThrown pre w post visited _ hs _ _ _ hv₀ =>
    have hx : x ∈ visited ++ { w with timeout := none } :: post := hx
    rw [List.mem_append, List.mem_cons] at hx
    rcases hx with hx | rfl | hx
    · exact .inr (hv₀ x hx)
    · exact .inl ⟨w, by simp [hs], rfl⟩
    · exact .inl ⟨x, by simp [hs, hx], rfl⟩
  | leave _ _ _ _ =>
    rw [Semaphore.leave, decQueued_eq] at hx
    exact .inl ⟨x, List.mem_of_mem_erase hx, rfl⟩
  | @release now id _ =>
    rcases release_cases s now id with heq | ⟨p, timer, _, _, heq⟩
    · rw [heq] at hx
      exact .inl ⟨x, hx, rfl⟩
    · rw [heq] at hx
      exact .inl ⟨x, hx, rfl⟩
  | applyReleases _ =>
    obtain ⟨a, d, es, _, heq⟩ := applyReleases_eq s
    rw [heq] at hx
    exact .inl ⟨x, hx, rfl⟩
  | resize _ => exact .inl ⟨x, hx, rfl⟩
  | setHardCap _ => exact .inl ⟨x, hx, rfl⟩
  | setSoftLimit _ => exact .inl ⟨x, hx, rfl⟩
  | @reconfigure opts _ =>
    refine .inl ⟨x, ?_, rfl⟩
    simp only [Semaphore.reconfigure] at hx
    split at hx <;> exact hx
  | shutdown _ =>
    obtain ⟨q, es, _, heq⟩ := shutdown_eq s
    rw [heq] at hx
    exact absurd hx (by simp)

/-- What every elementary change preserves, a sequence of them preserves. -/
theorem Moves.invariant {I : Semaphore → Prop} (hI : ∀ s s', I s → Move n op s₀ s s' → I s')
    {s s' : Semaphore} (h : Moves n op s₀ s s') (hs : I s) : I s' := by
  induction h with
  | refl => exact hs
  | tail _ hm ih => exact hI _ _ ih hm

theorem Moves.note {e : Event} (he : e.Silent n op) (s : Semaphore) :
    Moves n op s₀ s (s.note e) := ReflTransGen.single (.note he)

theorem Moves.emitStats (s : Semaphore) : Moves n op s₀ s s.emitStats :=
  Moves.note (e := .stats s.active) trivial s

/-! ## What a change logs -/

/-- `s'` has logged more than `s`, and all of it meets `P`. -/
def LogGrows (P : Event → Prop) (s s' : Semaphore) : Prop :=
  ∃ es, s'.log = es ++ s.log ∧ ∀ e ∈ es, P e

omit [ShareRounding] in
theorem LogGrows.refl (P : Event → Prop) (s : Semaphore) : LogGrows P s s :=
  ⟨[], rfl, by simp⟩

omit [ShareRounding] in
theorem LogGrows.trans {P Q : Event → Prop} {a b c : Semaphore} (h₁ : LogGrows P a b)
    (h₂ : LogGrows Q b c) (hQ : ∀ e, Q e → P e) : LogGrows P a c := by
  obtain ⟨es₁, hl₁, hg₁⟩ := h₁
  obtain ⟨es₂, hl₂, hg₂⟩ := h₂
  refine ⟨es₂ ++ es₁, by rw [hl₂, hl₁, List.append_assoc], fun e he => ?_⟩
  rcases List.mem_append.mp he with he | he
  · exact hQ e (hg₂ e he)
  · exact hg₁ e he

/-- A grant out of the counters of `s`. -/
def Grant.From (s : Semaphore) (g : Grant) : Prop :=
  0 < g.weight ∧ (∃ k, s.canGrant k g.weight = true) ∧ g.active = s.active + g.weight ∧
    g.limit = s.limit ∧ g.hardCap = s.hardCap

/-- The weights in the queue are positive. -/
def Semaphore.Weighted (s : Semaphore) : Prop := ∀ w ∈ s.waiters, 0 < w.weight

/-- What a change of `s` by `op` may log: a grant that `canGrant` admitted,
of a waiter unless `op` is an `acquire`, and requests that pass the breaker
only if `op` is an `acquire`. -/
def Event.LoggedBy (op : Op) (s : Semaphore) : Event → Prop
  | .granted g => g.From s ∧ (op.Acquires ∨ ∃ w ∈ s.waiters, w.id = g.id)
  | .admitted _ _ => op.Acquires
  | _ => True

omit [ShareRounding] in
/-- A grant logs itself, with the counters it leaves. -/
theorem grant_logGrows {P : Event → Prop} {s : Semaphore} (r : Request)
    (hP : P (.granted ⟨r.id, r.weight, s.active + r.weight, s.limit, s.hardCap⟩))
    (hstats : P (.stats (s.active + r.weight))) : LogGrows P s (s.grant r).1 := by
  rw [Semaphore.grant_fst]
  cases r.onAcquireThrows with
  | true => exact .refl _ s
  | false =>
    refine ⟨[.granted _, .stats _], rfl, fun e he => ?_⟩
    simp only [List.mem_cons, List.not_mem_nil, or_false] at he
    rcases he with rfl | rfl
    · exact hP
    · exact hstats

omit [ShareRounding] in
theorem decQueued_logGrows {P : Event → Prop} (hP : P .clamped) (s : Semaphore) (k : String) :
    LogGrows P s (s.decQueued k) := by
  rw [Semaphore.decQueued_eq]
  by_cases h : s.queuedByIntention.getD k 0 - 1 < 0
  · exact ⟨[.clamped], by simp [h], by simpa using hP⟩
  · exact ⟨[], by simp [h], by simp⟩

/-- The queue counter is lowered between the check and the grant; the
counters that matter are not touched. -/
theorem grantWaiter_logGrows {s : Semaphore} {w : Waiter} (hmem : w ∈ s.waiters)
    (hw : 0 < w.weight) (hc : s.canGrant w.intention w.weight = true) :
    LogGrows (Event.LoggedBy op s) s (s.grantWaiter w) := by
  have hd := decQueued_logGrows (P := Event.LoggedBy op s) trivial s w.intention
  refine hd.trans (grant_logGrows (P := Event.LoggedBy op s) w.toRequest ?_ trivial) fun e he => he
  rw [Semaphore.decQueued_eq]
  exact ⟨⟨hw, ⟨_, hc⟩, rfl, rfl, rfl⟩, .inr ⟨w, hmem, rfl⟩⟩

omit [ShareRounding] in
theorem Event.Silent.loggedBy [ShareRounding] {e : Event} (h : e.Silent n op) (s : Semaphore) :
    e.LoggedBy op s := by
  cases e with
  | granted g => exact absurd h (by simp [Event.Silent])
  | admitted id seen => exact h.2
  | _ => trivial

/-- Every change only adds to the log. -/
theorem Move.logGrows {s s' : Semaphore} (hm : Move n op s₀ s s') (hw : s.Weighted) :
    LogGrows (Event.LoggedBy op s) s s' := by
  cases hm with
  | @note e he => exact ⟨[e], rfl, by simpa using he.loggedBy s⟩
  | @grantWaiter pre w post _ hs hc _ =>
    have hmem : w ∈ s.waiters := by simp [hs]
    exact grantWaiter_logGrows hmem (hw w hmem) hc
  | @grantThrown pre w post visited _ hs hc _ _ _ =>
    have hmem : w ∈ s.waiters := by simp [hs]
    exact grantWaiter_logGrows hmem (hw w hmem) hc
  | @leave w code es _ _ _ hes =>
    have hd := decQueued_logGrows (P := Event.LoggedBy op s) trivial
      { s with waiters := s.waiters.erase w } w.intention
    refine LogGrows.trans hd (Q := Event.LoggedBy op s) ⟨.rejected w.id code :: es, rfl, ?_⟩
      fun e he => he
    intro e he
    rw [List.mem_cons] at he
    rcases he with rfl | he
    · trivial
    · exact (hes e he).loggedBy s
  | @release now id _ =>
    rcases s.release_cases now id with heq | ⟨p, timer, _, _, heq⟩
    · rw [heq]
      exact .refl _ s
    · rw [heq]
      exact ⟨[], rfl, by simp⟩
  | applyReleases _ =>
    obtain ⟨a, d, es, hes, heq⟩ := s.applyReleases_eq
    rw [heq]
    exact ⟨es, rfl, fun e he => hes e he ▸ trivial⟩
  | resize _ => exact ⟨[], rfl, by simp⟩
  | setHardCap _ => exact ⟨[], rfl, by simp⟩
  | setSoftLimit _ => exact ⟨[], rfl, by simp⟩
  | @reconfigure opts _ =>
    simp only [Semaphore.reconfigure]
    split
    · exact ⟨[], rfl, by simp⟩
    · exact ⟨[], rfl, by simp⟩
  | shutdown _ =>
    obtain ⟨q, es, hes, heq⟩ := s.shutdown_eq
    rw [heq]
    refine ⟨es, rfl, fun e he => ?_⟩
    rcases hes e he with rfl | ⟨w, -, rfl⟩ <;> trivial

theorem Intake.logGrows {opts : AcquireOptions} {s s' : Semaphore} (hin : Intake n opts s s') :
    LogGrows (Event.LoggedBy (.acquire opts) s) s s' := by
  cases hin with
  | @grant r _ _ hw hc =>
    exact grant_logGrows (P := Event.LoggedBy _ s) r
      ⟨⟨hw, ⟨_, hc⟩, rfl, rfl, rfl⟩, .inl ⟨opts, rfl⟩⟩ trivial
  | @enqueue _ w _ _ _ _ henq =>
    obtain ⟨-, rfl⟩ := enqueue_eq henq
    exact ⟨[.enqueued w.id], rfl, by simp [Event.LoggedBy]⟩

theorem Move.weighted {s s' : Semaphore} (hm : Move n op s₀ s s') (h₀ : s₀.Weighted)
    (h : s.Weighted) : s'.Weighted := by
  intro x hx
  rcases hm.mem_waiters hx with ⟨y, hy, heq⟩ | ⟨y, hy, heq⟩
  · rw [← heq]
    exact h y hy
  · rw [← heq]
    exact h₀ y hy

theorem Intake.weighted {opts : AcquireOptions} {s s' : Semaphore} (hin : Intake n opts s s')
    (h : s.Weighted) : s'.Weighted := by
  cases hin with
  | grant _ _ _ _ =>
    rw [Semaphore.grant_fst]
    exact h
  | @enqueue _ w _ _ hw _ henq =>
    obtain ⟨-, rfl⟩ := enqueue_eq henq
    intro x hx
    rcases List.mem_append.mp hx with hx | hx
    · exact h x hx
    · rw [List.mem_singleton.mp hx]
      exact hw

omit [ShareRounding] in
theorem weighted_new (opts : ConcurrencyGateOptions) : (Semaphore.new opts).Weighted := by
  intro w hw
  exact absurd hw (by simp [Semaphore.new])

/-! ## The drain loop -/

/-- One turn of the loop that grants. -/
theorem drainLoop_cons_granted {s : Semaphore} {remaining visited rest : List Waiter}
    {next : Waiter} (hc : s.canGrant next.intention next.weight = true)
    (ht : next.onAcquireThrows = false) :
    s.drainLoop remaining visited (next :: rest) =
      (s.grantWaiter next).drainLoop remaining (visited ++ [{ next with timeout := none }]) rest := by
  have hsnd := grant_snd (s.decQueued next.intention) next.toRequest
  rw [ht] at hsnd
  simp only [drainLoop, hc, if_true, Semaphore.grantWaiter]
  rw [← Prod.mk.eta (p := (s.decQueued next.intention).grant next.toRequest), hsnd]

/-- The turn in which `onAcquire` throws: the loop is left. -/
theorem drainLoop_cons_thrown {s : Semaphore} {remaining visited rest : List Waiter}
    {next : Waiter} (hc : s.canGrant next.intention next.weight = true)
    (ht : next.onAcquireThrows = true) :
    (s.drainLoop remaining visited (next :: rest)).1 =
      { s.grantWaiter next with
        waiters := visited ++ { next with timeout := none } :: rest } := by
  have hsnd := grant_snd (s.decQueued next.intention) next.toRequest
  rw [ht] at hsnd
  simp only [drainLoop, hc, if_true, Semaphore.grantWaiter]
  rw [← Prod.mk.eta (p := (s.decQueued next.intention).grant next.toRequest), hsnd]

theorem drainLoop_cons_refused {s : Semaphore} {remaining visited rest : List Waiter}
    {next : Waiter} (hc : s.canGrant next.intention next.weight = false) :
    s.drainLoop remaining visited (next :: rest) =
      s.drainLoop (remaining ++ [next]) (visited ++ [next]) rest := by
  simp only [drainLoop, hc, Bool.false_eq_true, if_false]

/-- The walk of `drainLoop` as moves. `visited` holds every waiter that was
walked over, so all of them stem from the queue the walk began with. -/
theorem drainLoop_moves (hop : op.Drains) (ws : List Waiter) : ∀ (s : Semaphore) (remaining visited : List Waiter),
    remaining.Sublist visited →
    (∀ x ∈ visited ++ ws, ∃ y ∈ s₀.waiters, y.toRequest = x.toRequest) →
    Moves n op s₀ { s with waiters := remaining ++ ws } (s.drainLoop remaining visited ws).1 := by
  induction ws with
  | nil =>
    intro s remaining visited _ _
    rw [List.append_nil]
    exact ReflTransGen.refl
  | cons next rest ih =>
    intro s remaining visited hv hv₀
    have hnext : ∃ y ∈ s₀.waiters, y.toRequest = next.toRequest := hv₀ next (by simp)
    cases hc : s.canGrant next.intention next.weight with
    | false =>
      have hrest := ih s (remaining ++ [next]) (visited ++ [next]) (hv.append (.refl _))
        (by
          intro x hx
          rw [List.append_assoc, List.singleton_append] at hx
          exact hv₀ x hx)
      rw [List.append_assoc, List.singleton_append] at hrest
      rwa [drainLoop_cons_refused hc]
    | true =>
      cases ht : next.onAcquireThrows with
      | false =>
        have hm : Move n op s₀ { s with waiters := remaining ++ next :: rest }
            { s.grantWaiter next with waiters := remaining ++ rest } := by
          rw [← grantWaiter_waiters s next (remaining ++ next :: rest)]
          exact .grantWaiter hop rfl hc ht
        have hrest := ih (s.grantWaiter next) remaining
          (visited ++ [{ next with timeout := none }])
          (hv.trans (List.sublist_append_left _ _))
          (by
            intro x hx
            rw [List.append_assoc, List.singleton_append, List.mem_append, List.mem_cons] at hx
            rcases hx with hx | rfl | hx
            · exact hv₀ x (List.mem_append_left _ hx)
            · exact hnext
            · exact hv₀ x (by simp [hx]))
        rw [drainLoop_cons_granted hc ht]
        exact ReflTransGen.head hm hrest
      | true =>
        have hm : Move n op s₀ { s with waiters := remaining ++ next :: rest }
            { s.grantWaiter next with
              waiters := visited ++ { next with timeout := none } :: rest } := by
          rw [← grantWaiter_waiters s next (remaining ++ next :: rest)]
          exact .grantThrown hop rfl hc ht hv fun x hx => hv₀ x (List.mem_append_left _ hx)
        rw [drainLoop_cons_thrown hc ht]
        exact ReflTransGen.single hm

theorem drainWaiters_moves (hop : op.Drains) {s : Semaphore} (hs : s.waiters = s₀.waiters) :
    Moves n op s₀ s s.drainWaiters.1 := by
  unfold drainWaiters
  split
  · exact ReflTransGen.refl
  · refine drainLoop_moves hop s.waiters s [] [] (.refl _) ?_
    intro x hx
    rw [List.nil_append, hs] at hx
    exact ⟨x, hx, rfl⟩

/-! ## The operations -/

omit [ShareRounding] in
/-- Storing a breaker touches the log of the semaphore only. -/
theorem withBreaker_eq (n : Nat) (op : Op) (g : Gate) (b : CircuitBreaker) :
    ∃ es, (∀ e ∈ es, e.Silent n op) ∧
      g.withBreaker b =
        { g with breaker := b, semaphore := { g.semaphore with log := es ++ g.semaphore.log } } := by
  unfold Gate.withBreaker
  split
  · exact ⟨[], by simp, rfl⟩
  · exact ⟨[.breaker b.state], by simp [Event.Silent], rfl⟩

theorem withBreaker_moves (g : Gate) (b : CircuitBreaker) :
    Moves n op s₀ g.semaphore (g.withBreaker b).semaphore := by
  unfold Gate.withBreaker
  split
  · exact ReflTransGen.refl
  · exact Moves.note (e := .breaker b.state) trivial _

omit [ShareRounding] in
/-- A queue timeout and an abort take one waiter out, once. -/
theorem dequeue_semaphore (n : Nat) (op : Op) (g : Gate) (code : GateErrorCode) {w : Waiter}
    (hw : w ∈ g.semaphore.waiters) :
    ∃ es, (∀ e ∈ es, e.Silent n op) ∧
      (g.dequeue w code).semaphore = g.semaphore.leave w code es := by
  simp only [Gate.dequeue, removeWaiter, if_pos hw, leave]
  generalize { g.semaphore with waiters := g.semaphore.waiters.erase w }.decQueued w.intention = s
  split
  · obtain ⟨es, hes, h⟩ := withBreaker_eq n op { g with semaphore := s.emitStats }
      (g.breaker.resetHalfOpenProbe g.now)
    rw [h]
    refine ⟨.stats s.active :: es ++ [.stats s.active], ?_, ?_⟩
    · intro e he
      simp only [List.cons_append, List.mem_cons, List.mem_append, List.not_mem_nil,
        or_false] at he
      rcases he with rfl | he | rfl
      · trivial
      · exact hes e he
      · trivial
    · simp only [Gate.reject, Gate.emitStats, Semaphore.emitStats, note,
        List.cons_append, List.append_assoc, List.nil_append]
  · exact ⟨[.stats s.active], by simp [Event.Silent], rfl⟩

theorem dequeue_moves (hop : op.Dequeues) (g : Gate) {w : Waiter} {code : GateErrorCode}
    (hw : w ∈ g.semaphore.waiters) (hcode : code = .timeout ∨ code = .aborted) :
    Moves n op s₀ g.semaphore (g.dequeue w code).semaphore := by
  obtain ⟨es, hes, h⟩ := dequeue_semaphore n op g code hw
  rw [h]
  exact ReflTransGen.single (.leave hop hw hcode hes)

omit [ShareRounding] in
theorem dequeue_nextId (g : Gate) (w : Waiter) (code : GateErrorCode) :
    (g.dequeue w code).nextId = g.nextId := by
  unfold Gate.dequeue
  split
  · rfl
  · split <;> rfl

omit [ShareRounding] in
theorem waiter?_mem {g : Gate} {id : Nat} {w : Waiter} (h : g.waiter? id = some w) :
    w ∈ g.semaphore.waiters ∧ w.id = id := by
  have hid := List.find?_some h
  exact ⟨List.mem_of_find?_eq_some h, by simpa using hid⟩

theorem afterSetter_moves (g : Gate) {r : Semaphore × Bool}
    (h : Moves n op s₀ g.semaphore r.1) :
    Moves n op s₀ g.semaphore (g.afterSetter r).semaphore := by
  unfold Gate.afterSetter
  split
  · exact h.trans (Moves.emitStats _)
  · exact h

omit [ShareRounding] in
theorem afterSetter_nextId (g : Gate) (r : Semaphore × Bool) :
    (g.afterSetter r).nextId = g.nextId := by
  unfold Gate.afterSetter
  split <;> rfl

omit [ShareRounding] in
theorem afterSetter_breaker (g : Gate) (r : Semaphore × Bool) :
    (g.afterSetter r).breaker = g.breaker := by
  unfold Gate.afterSetter
  split <;> rfl

theorem onReleaseTimer_moves (s : Semaphore) :
    Moves n .cooldownExpiry s s s.onReleaseTimer := by
  have hw : s.applyReleases.waiters = s.waiters := by
    obtain ⟨a, d, es, -, h⟩ := applyReleases_eq s
    rw [h]
  have h : Moves n .cooldownExpiry s s s.applyReleases.drainWaiters.1 :=
    ReflTransGen.head (.applyReleases rfl)
      (drainWaiters_moves (show Op.Drains .cooldownExpiry from trivial) hw)
  unfold onReleaseTimer
  split
  · rename_i heq
    rwa [heq] at h
  · rename_i heq
    rw [heq] at h
    exact h.trans (Moves.emitStats _)

theorem resize_moves (s : Semaphore) (newLimit : Num ℚ) :
    Moves n (.resize newLimit) s s (s.resize newLimit).1 := by
  simp only [Semaphore.resize]
  split
  · exact ReflTransGen.refl
  · exact ReflTransGen.head (.resize rfl)
      (drainWaiters_moves (show Op.Drains (.resize newLimit) from trivial) rfl)

theorem setHardCap_moves (s : Semaphore) (newHardCap : Num ℚ) :
    Moves n (.setHardCap newHardCap) s s (s.setHardCap newHardCap).1 := by
  have hm : Move n (.setHardCap newHardCap) s s _ := .setHardCap rfl
  simp only [Semaphore.setHardCap]
  split
  · exact ReflTransGen.refl
  · split
    · rename_i hlt
      rw [if_pos hlt] at hm
      exact ReflTransGen.head hm
        (drainWaiters_moves (show Op.Drains (.setHardCap newHardCap) from trivial) rfl)
    · rename_i hlt
      rw [if_neg hlt] at hm
      exact ReflTransGen.single hm

theorem setSoftLimit_moves (s : Semaphore) (newSoftLimit : Num ℚ) :
    Moves n (.setSoftLimit newSoftLimit) s s (s.setSoftLimit newSoftLimit).1 := by
  simp only [Semaphore.setSoftLimit]
  split
  · exact ReflTransGen.refl
  · exact ReflTransGen.single (.setSoftLimit rfl)

/-- What the part of `acquire` behind the breaker does: the request is
taken in, or refused. -/
theorem grantOrEnqueue_effect (s₀ : Semaphore) (g : Gate) (r : Request) (seen : BreakerState)
    (opts : AcquireOptions) (hid : r.id = n) (ht : r.onAcquireThrows = opts.onAcquireThrows)
    (hw : 0 < r.weight) :
    ∃ s, (s = g.semaphore ∨ Intake n opts g.semaphore s) ∧
      Moves n (.acquire opts) s₀ s (g.grantOrEnqueue r seen).semaphore := by
  have hadmit : (Event.admitted r.id seen).Silent n (.acquire opts) := ⟨hid, opts, rfl⟩
  have hreject : ∀ code, code ≠ .timeout ∧ code ≠ .aborted ∧ code ≠ .shutdown →
      (Event.rejected r.id code).Silent n (.acquire opts) := fun code hcode =>
    ⟨hid, ⟨opts, rfl⟩, hcode⟩
  simp only [Gate.grantOrEnqueue]
  split
  · rename_i hc
    have hin : Intake n opts g.semaphore (g.semaphore.grant r).1 := .grant hid ht hw hc
    refine ⟨_, .inr hin, ?_⟩
    split
    · rename_i s heq
      rw [heq]
      exact Moves.note hadmit s
    · rename_i s heq
      rw [heq]
      exact Moves.note (hreject .callbackThrew (by simp)) s
  · rename_i hc
    split
    · exact ⟨_, .inl rfl, Moves.note (hreject .queue_full (by simp)) _⟩
    · rename_i s heq
      refine ⟨s, .inr (.enqueue hid ht hw (by simpa using hc) heq), ?_⟩
      exact (Moves.note hadmit s).trans (Moves.emitStats _)

theorem grantOrEnqueue_nextId (g : Gate) (r : Request) (seen : BreakerState) :
    (g.grantOrEnqueue r seen).nextId = g.nextId := by
  simp only [Gate.grantOrEnqueue]
  split
  · split <;> rfl
  · split <;> rfl

theorem grantOrEnqueue_breaker (g : Gate) (r : Request) (seen : BreakerState) :
    (g.grantOrEnqueue r seen).breaker = g.breaker := by
  simp only [Gate.grantOrEnqueue]
  split
  · split <;> rfl
  · split <;> rfl

/-- An `acquire` call uses up one number and takes in at most its own
request. -/
theorem acquire_effect (s₀ : Semaphore) (g : Gate) (opts : AcquireOptions) :
    (g.acquire opts).nextId = g.nextId + 1 ∧
      ∃ s s', Moves g.nextId (.acquire opts) s₀ g.semaphore s ∧
        (s' = s ∨ Intake g.nextId opts s s') ∧
        Moves g.nextId (.acquire opts) s₀ s' (g.acquire opts).semaphore := by
  have hreject : ∀ code, code ≠ .timeout ∧ code ≠ .aborted ∧ code ≠ .shutdown →
      (Event.rejected g.nextId code).Silent g.nextId (.acquire opts) := fun code hcode =>
    ⟨rfl, ⟨opts, rfl⟩, hcode⟩
  simp only [Gate.acquire]
  split
  · refine ⟨rfl, _, _, ReflTransGen.refl, .inl rfl, ?_⟩
    exact Moves.note (hreject .invalid_weight (by simp)) _
  · rename_i hw
    have hb : Moves g.nextId (.acquire opts) s₀ g.semaphore _ :=
      withBreaker_moves { g with nextId := g.nextId + 1 } (g.breaker.maybeHalfOpen g.now).2
    split
    · refine ⟨rfl, _, _, hb, .inl rfl, ?_⟩
      exact Moves.note (hreject .circuit_open (by simp)) _
    · obtain ⟨s, hs, hm⟩ := grantOrEnqueue_effect s₀
        (Gate.withBreaker { g with nextId := g.nextId + 1 } (g.breaker.maybeHalfOpen g.now).2)
        ⟨g.nextId, roundNum (opts.weight.getD 1 * SCALE), opts.intention.getD "main",
          opts.onAcquireThrows, (g.breaker.maybeHalfOpen g.now).1 = .half_open⟩
        (g.breaker.maybeHalfOpen g.now).1 opts rfl rfl (by simpa using hw)
      exact ⟨grantOrEnqueue_nextId _ _ _, _, s, hb, hs, hm⟩

/-- The request that an `acquire` call makes. -/
def Gate.request (g : Gate) (opts : AcquireOptions) : Request where
  id := g.nextId
  weight := roundNum (opts.weight.getD 1 * SCALE)
  intention := opts.intention.getD "main"
  onAcquireThrows := opts.onAcquireThrows
  wasProbe := (g.breaker.maybeHalfOpen g.now).1 = .half_open

/-- The call gets to the semaphore: its weight is valid and the breaker lets
it pass. -/
def Gate.LetsIn (g : Gate) (opts : AcquireOptions) : Prop :=
  0 < (g.request opts).weight ∧ (g.breaker.maybeHalfOpen g.now).1 ≠ .opened

instance (g : Gate) (opts : AcquireOptions) : Decidable (g.LetsIn opts) :=
  inferInstanceAs (Decidable (_ ∧ _))

/-- The call that gets to the semaphore, with what storing the breaker logs. -/
theorem acquire_of_letsIn {g : Gate} {opts : AcquireOptions} (h : g.LetsIn opts) {es : List Event}
    (hb : Gate.withBreaker { g with nextId := g.nextId + 1 } (g.breaker.maybeHalfOpen g.now).2 =
      { g with
        nextId := g.nextId + 1
        breaker := (g.breaker.maybeHalfOpen g.now).2
        semaphore := { g.semaphore with log := es ++ g.semaphore.log } }) :
    g.acquire opts = Gate.grantOrEnqueue
      { g with
        nextId := g.nextId + 1
        breaker := (g.breaker.maybeHalfOpen g.now).2
        semaphore := { g.semaphore with log := es ++ g.semaphore.log } }
      (g.request opts) (g.breaker.maybeHalfOpen g.now).1 := by
  have hw : ¬ roundNum (opts.weight.getD 1 * SCALE) ≤ 0 := Int.not_le.mpr h.1
  simp only [Gate.acquire, if_neg hw, if_neg h.2, hb]
  rfl

/-- The semaphore after an `acquire`, up to the log: as before, with the
request granted, or with the request at the end of the queue. -/
theorem acquire_semaphore (g : Gate) (opts : AcquireOptions) :
    ∃ l, (¬ g.LetsIn opts ∧ (g.acquire opts).semaphore = { g.semaphore with log := l }) ∨
      (g.LetsIn opts ∧
        g.semaphore.canGrant (g.request opts).intention (g.request opts).weight = true ∧
        (g.acquire opts).semaphore = { (g.semaphore.grant (g.request opts)).1 with log := l }) ∨
      (g.LetsIn opts ∧
        g.semaphore.canGrant (g.request opts).intention (g.request opts).weight = false ∧
        ((g.semaphore.maxQueueDepth ≤ (g.semaphore.waiters.length : Int) ∧
            (g.acquire opts).semaphore = { g.semaphore with log := l }) ∨
          ((g.semaphore.waiters.length : Int) < g.semaphore.maxQueueDepth ∧
            ∃ w : Waiter, w.toRequest = g.request opts ∧
              (g.acquire opts).semaphore = { g.semaphore with
                waiters := g.semaphore.waiters ++ [w]
                queuedByIntention := g.semaphore.queuedByIntention.set w.intention
                  (g.semaphore.queuedByIntention.getD w.intention 0 + 1)
                log := l }))) := by
  refine ⟨(g.acquire opts).semaphore.log, ?_⟩
  by_cases hw : roundNum (opts.weight.getD 1 * SCALE) ≤ 0
  · refine .inl ⟨fun h => ?_, ?_⟩
    · exact absurd h.1 (by simpa [Gate.request] using hw)
    · simp only [Gate.acquire, if_pos hw]
      rfl
  · obtain ⟨es, -, hb⟩ := withBreaker_eq 0 .recordSuccess { g with nextId := g.nextId + 1 }
      (g.breaker.maybeHalfOpen g.now).2
    by_cases hopen : (g.breaker.maybeHalfOpen g.now).1 = .opened
    · refine .inl ⟨fun h => h.2 hopen, ?_⟩
      simp only [Gate.acquire, if_neg hw, if_pos hopen, hb]
      rfl
    · have hin : g.LetsIn opts := ⟨Int.not_le.mp hw, hopen⟩
      have heq := acquire_of_letsIn hin hb
      rw [heq]
      simp only [Gate.grantOrEnqueue]
      have hcan : ({ g.semaphore with log := es ++ g.semaphore.log } : Semaphore).canGrant
          (g.request opts).intention (g.request opts).weight =
          g.semaphore.canGrant (g.request opts).intention (g.request opts).weight := rfl
      cases hc : g.semaphore.canGrant (g.request opts).intention (g.request opts).weight with
      | true =>
        have hgrant := grant_fst { g.semaphore with log := es ++ g.semaphore.log } (g.request opts)
        rw [if_pos (hcan.trans hc)]
        split
        · rename_i s hs
          rw [hs] at hgrant
          obtain rfl : s = _ := hgrant
          refine .inr (.inl ⟨hin, rfl, ?_⟩)
          rw [grant_fst]
          rfl
        · rename_i s hs
          rw [hs] at hgrant
          obtain rfl : s = _ := hgrant
          refine .inr (.inl ⟨hin, rfl, ?_⟩)
          rw [grant_fst]
          rfl
      | false =>
        rw [if_neg (by rw [hcan, hc]; simp)]
        split
        · rename_i hfull
          unfold enqueue at hfull
          split at hfull
          · rename_i hle
            exact .inr (.inr ⟨hin, rfl, .inl ⟨hle, rfl⟩⟩)
          · exact absurd hfull (by simp)
        · rename_i s henq
          obtain ⟨hroom, rfl⟩ := enqueue_eq henq
          exact .inr (.inr ⟨hin, rfl, .inr ⟨hroom, _, rfl, rfl⟩⟩)

/-- What an operation other than `acquire` does. -/
theorem step_moves (g : Gate) (op : Op) (hop : ∀ opts, op ≠ .acquire opts) :
    (g.step op).nextId = g.nextId ∧
      Moves g.nextId op g.semaphore g.semaphore (g.step op).semaphore := by
  cases op with
  | acquire opts => exact absurd rfl (hop opts)
  | queueTimeout id =>
    simp only [Gate.step]
    split
    · exact ⟨rfl, ReflTransGen.refl⟩
    · rename_i w hw
      split
      · exact ⟨rfl, ReflTransGen.refl⟩
      · split
        · exact ⟨dequeue_nextId _ _ _, dequeue_moves
            (show Op.Dequeues (.queueTimeout id) from trivial) g (waiter?_mem hw).1 (.inl rfl)⟩
        · exact ⟨rfl, ReflTransGen.refl⟩
  | abort id =>
    simp only [Gate.step]
    split
    · exact ⟨rfl, ReflTransGen.refl⟩
    · split
      · exact ⟨rfl, ReflTransGen.refl⟩
      · rename_i w hw
        exact ⟨dequeue_nextId _ _ _, dequeue_moves (show Op.Dequeues (.abort id) from trivial)
          { g with aborted := id :: g.aborted } (waiter?_mem hw).1 (.inr rfl)⟩
  | release id => exact ⟨rfl, ReflTransGen.single (.release rfl)⟩
  | cooldownExpiry =>
    simp only [Gate.step]
    split
    · exact ⟨rfl, ReflTransGen.refl⟩
    · split
      · exact ⟨rfl, onReleaseTimer_moves _⟩
      · exact ⟨rfl, ReflTransGen.refl⟩
  | tick ms => exact ⟨rfl, ReflTransGen.refl⟩
  | resize newLimit => exact ⟨afterSetter_nextId _ _, afterSetter_moves g (resize_moves _ _)⟩
  | setHardCap newHardCap =>
    exact ⟨afterSetter_nextId _ _, afterSetter_moves g (setHardCap_moves _ _)⟩
  | setSoftLimit newSoftLimit =>
    exact ⟨afterSetter_nextId _ _, afterSetter_moves g (setSoftLimit_moves _ _)⟩
  | reconfigure opts =>
    exact ⟨rfl, ReflTransGen.head (.reconfigure rfl) (Moves.emitStats _)⟩
  | record429 type =>
    simp only [Gate.step]
    split
    · exact ⟨rfl, (withBreaker_moves g _).trans (Moves.emitStats _)⟩
    · exact ⟨rfl, withBreaker_moves g _⟩
  | recordSuccess =>
    simp only [Gate.step]
    split
    · exact ⟨rfl, (withBreaker_moves g _).trans (Moves.emitStats _)⟩
    · exact ⟨rfl, withBreaker_moves g _⟩
  | shutdown => exact ⟨rfl, ReflTransGen.single (.shutdown rfl)⟩

/-- The step rule: what the elementary changes of an operation and the
taking in of its request preserve, the operation preserves. `I` carries
the number of the next `acquire` call. -/
theorem step_invariant {I : Nat → Semaphore → Prop} {g : Gate} {op : Op}
    (hmove : ∀ m s s', g.nextId ≤ m → I m s → Move g.nextId op g.semaphore s s' → I m s')
    (hnext : ∀ s, I g.nextId s → I (g.nextId + 1) s)
    (hin : ∀ opts s s', op = .acquire opts → I g.nextId s → Intake g.nextId opts s s' →
      I (g.nextId + 1) s')
    (hg : I g.nextId g.semaphore) : I (g.step op).nextId (g.step op).semaphore := by
  by_cases hop : ∃ opts, op = .acquire opts
  · obtain ⟨opts, rfl⟩ := hop
    obtain ⟨hid, s, s', h₁, h₂, h₃⟩ := acquire_effect g.semaphore g opts
    have hs : I g.nextId s := h₁.invariant (fun a b => hmove _ a b le_rfl) hg
    have hs' : I (g.nextId + 1) s' := by
      rcases h₂ with rfl | h₂
      · exact hnext _ hs
      · exact hin opts s s' rfl hs h₂
    show I (g.acquire opts).nextId (g.acquire opts).semaphore
    rw [hid]
    exact h₃.invariant (fun a b => hmove _ a b (Nat.le_succ _)) hs'
  · obtain ⟨hid, h⟩ := step_moves g op fun opts h => hop ⟨opts, h⟩
    rw [hid]
    exact h.invariant (fun a b => hmove _ a b le_rfl) hg

/-- The run rule for the semaphore alone, over operations that `A` allows. -/
theorem semaphore_invariant {I : Semaphore → Prop} {A : Op → Prop}
    (hmove : ∀ n op s₀ s s', A op → I s₀ → I s → Move n op s₀ s s' → I s')
    (hin : ∀ n opts s s', A (.acquire opts) → I s → Intake n opts s s' → I s')
    {g : Gate} {ops : List Op} (hops : ∀ op ∈ ops, A op) (hg : I g.semaphore) :
    I (Lib.run Gate.step g ops).semaphore := by
  refine run_invariant_of_stepsMeet (I := fun g : Gate => I g.semaphore)
    (P := fun _ op => A op) ?_ hg (StepsMeet.of_forall hops)
  intro g op hI hop
  refine step_invariant (I := fun _ s => I s) ?_ (fun _ h => h) ?_ hI
  · intro m s s' _ h hm
    exact hmove _ _ _ s s' hop hI h hm
  · rintro opts s s' rfl h hi
    exact hin _ opts s s' hop h hi

theorem weighted_step {g : Gate} (h : g.semaphore.Weighted) (op : Op) :
    (g.step op).semaphore.Weighted := by
  refine step_invariant (I := fun _ s => s.Weighted) ?_ (fun _ hs => hs) ?_ h
  · intro m s s' _ hs hm
    exact hm.weighted h hs
  · rintro opts s s' rfl hs hin
    exact hin.weighted hs

theorem weighted_after (opts : ConcurrencyGateOptions) (ops : List Op) :
    (Gate.after opts ops).semaphore.Weighted :=
  run_invariant (I := fun g : Gate => g.semaphore.Weighted) (fun _ op h => weighted_step h op)
    (weighted_new opts) ops

end UmansGate.Limiter
