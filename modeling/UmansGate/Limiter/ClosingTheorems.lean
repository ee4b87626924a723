/-
UmansGate.Limiter.ClosingTheorems — whose success closes the breaker.

`recordSuccess` has no argument: the breaker does not learn who reports.
Here a success is reported by a request that was granted. Whatever request
reports while the breaker is half-open, the breaker closes; it is the probe
of this opening, or was let through before the opening, since the probe is
the only one let through since then (`closed_by_granted`).
-/
import Mathlib.Data.List.TakeWhile
import UmansGate.Limiter.GatingTheorems
import UmansGate.Limiter.ReopenTheorems

namespace UmansGate.Limiter

open UmansGate.Lib

/-- What can happen, with the request that reports a success. -/
inductive RequestOp where
  | gate (op : Op)
  | success (id : ℕ)

/-- The request has been granted a permit. -/
def Granted (log : List Event) (id : ℕ) : Prop := ∃ e ∈ log, ∃ g, e = .granted g ∧ g.id = id

instance (log : List Event) (id : ℕ) : Decidable (Granted log id) :=
  decidable_of_iff (log.any fun e => match e with
      | .granted g => g.id = id
      | _ => false) <| by
    simp only [List.any_eq_true, Granted]
    refine exists_congr fun e => and_congr_right fun _ => ?_
    cases e with
    | granted g => simp
    | _ => simp

/-- The log since the breaker opened last. -/
def sinceOpening (log : List Event) : List Event := log.takeWhile (· ≠ .breaker .opened)

/-- The log up to then. -/
def beforeOpening (log : List Event) : List Event := log.dropWhile (· ≠ .breaker .opened)

/-- The request was let through as the probe of the current opening. -/
def ProbeOfOpening (log : List Event) (id : ℕ) : Prop := .admitted id .half_open ∈ sinceOpening log

/-- The request was let through before the breaker opened. -/
def LetThroughBefore (log : List Event) (id : ℕ) : Prop :=
  ∃ seen, .admitted id seen ∈ beforeOpening log

section Closing

variable [ShareRounding] {g : Gate} {op : Op}

/-- A success counts when its request was granted. -/
def Gate.requestStep (g : Gate) : RequestOp → Gate
  | .gate .recordSuccess => g
  | .gate op => g.step op
  | .success id => if Granted g.semaphore.log id then g.step .recordSuccess else g

def Gate.afterRequests (opts : ConcurrencyGateOptions) (ops : List RequestOp) : Gate :=
  Lib.run Gate.requestStep (.new opts) ops

/-! ## What closes and what opens the breaker -/

omit [ShareRounding] in
theorem CircuitBreaker.step_ne_closed {b : CircuitBreaker} {call : BreakerOp}
    (h : b.state ≠ .closed) (hcall : call ≠ .recordSuccess) : (b.step call).state ≠ .closed := by
  cases call with
  | reconfigure threshold windowMs cooldownMs now => exact h
  | maybeHalfOpen now =>
    rcases b.maybeHalfOpen_cases now with ⟨heq, -⟩ | ⟨-, -, heq⟩
    · simpa [CircuitBreaker.step, heq] using h
    · simp [CircuitBreaker.step, heq]
  | record429 type now =>
    rcases b.record429_cases type now with ⟨heq, -⟩ | ⟨-, heq, -⟩
    · simpa [CircuitBreaker.step, heq] using h
    · simp [CircuitBreaker.step, heq]
  | recordSuccess => exact absurd rfl hcall
  | resetHalfOpenProbe now =>
    rcases b.resetHalfOpenProbe_cases now with ⟨heq, -⟩ | ⟨-, heq, -⟩
    · simpa [CircuitBreaker.step, heq] using h
    · simp [CircuitBreaker.step, heq]

omit [ShareRounding] in
/-- Only a 429 makes a closed breaker another one. -/
theorem CircuitBreaker.step_closed {b : CircuitBreaker} {call : BreakerOp} (h : b.state = .closed)
    (hcall : ∀ type now, call ≠ .record429 type now) : (b.step call).state = .closed := by
  cases call with
  | reconfigure threshold windowMs cooldownMs now => exact h
  | maybeHalfOpen now => simp [CircuitBreaker.step, CircuitBreaker.maybeHalfOpen, h]
  | record429 type now => exact absurd rfl (hcall type now)
  | recordSuccess => simp [CircuitBreaker.step, CircuitBreaker.recordSuccess, h]
  | resetHalfOpenProbe now => simp [CircuitBreaker.step, CircuitBreaker.resetHalfOpenProbe, h]

/-- Only `recordSuccess` closes the breaker. -/
theorem step_ne_closed (h : g.breaker.state ≠ .closed) (hop : op ≠ .recordSuccess) :
    (g.step op).breaker.state ≠ .closed := by
  obtain ⟨calls, hcalls, hrun⟩ := step_breaker_calls g op
  rw [hrun]
  refine run_invariant_of_stepsMeet (I := fun b : CircuitBreaker => b.state ≠ .closed)
    (P := fun _ call => call ≠ .recordSuccess)
    (fun _ _ hb hcall => CircuitBreaker.step_ne_closed hb hcall) h (.of_forall ?_)
  rintro call hmem rfl
  exact hop (hcalls _ hmem)

theorem step_closed (h : g.breaker.state = .closed) (hop : ∀ type, op ≠ .record429 type) :
    (g.step op).breaker.state = .closed := by
  obtain ⟨calls, hcalls, hrun⟩ := step_breaker_calls g op
  rw [hrun]
  refine run_invariant_of_stepsMeet (I := fun b : CircuitBreaker => b.state = .closed)
    (P := fun _ call => ∀ type now, call ≠ .record429 type now)
    (fun _ _ hb hcall => CircuitBreaker.step_closed hb hcall) h (.of_forall ?_)
  rintro call hmem type now rfl
  exact hop type (hcalls _ hmem)

/-! ## The requests let through since the opening -/

/-- Since a breaker that is not closed opened, whom it let through is a
probe. -/
structure ProbesSince (g : Gate) : Prop where
  opening : g.breaker.state ≠ .closed → .breaker .opened ∈ g.semaphore.log
  probes : g.breaker.state ≠ .closed →
    ∀ id seen, .admitted id seen ∈ sinceOpening g.semaphore.log → seen = .half_open

omit [ShareRounding] in
theorem mem_sinceOpening_append {e : Event} {es log : List Event} (h : e ∈ sinceOpening (es ++ log)) :
    e ∈ es ∨ e ∈ sinceOpening log := by
  induction es with
  | nil => exact .inr h
  | cons x es ih =>
    simp only [sinceOpening, List.cons_append, List.takeWhile_cons] at h ih
    split at h
    · rcases List.mem_cons.mp h with rfl | h
      · exact .inl List.mem_cons_self
      · exact (ih h).imp_left (List.mem_cons_of_mem x)
    · cases h

omit [ShareRounding] in
/-- The probes stay as long as nobody else is let through. -/
theorem ProbesSince.append {g' : Gate} (h : ProbesSince g) (hopen : g.breaker.state ≠ .closed)
    (es : List Event) (hes : ∀ id seen, .admitted id seen ∈ es → seen = .half_open)
    (hlog : g'.semaphore.log = es ++ g.semaphore.log) : ProbesSince g' := by
  constructor
  · intro _
    rw [hlog]
    exact List.mem_append_right _ (h.opening hopen)
  · intro _ id seen hmem
    rw [hlog] at hmem
    rcases mem_sinceOpening_append hmem with hmem | hmem
    · exact hes id seen hmem
    · exact h.probes hopen id seen hmem

omit [ShareRounding] in
theorem ProbesSince.of_closed (h : g.breaker.state = .closed) : ProbesSince g :=
  ⟨fun hne => absurd h hne, fun hne => absurd h hne⟩

omit [ShareRounding] in
theorem not_admitted_of_not_admits {es : List Event} (hes : ∀ e ∈ es, ¬ e.Admits) {id : ℕ}
    {seen : BreakerState} (h : .admitted id seen ∈ es) : seen = .half_open :=
  absurd trivial (hes _ h)

theorem ProbesSince.acquire (h : ProbesSince g) (opts : AcquireOptions) :
    ProbesSince (g.acquire opts) := by
  by_cases hclosed : g.breaker.state = .closed
  · have hstep : (g.step (.acquire opts)).breaker.state = .closed := step_closed hclosed (by simp)
    exact .of_closed hstep
  · by_cases hw : roundNum (opts.weight.getD 1 * SCALE) ≤ 0
    · rw [acquire_of_invalid hw]
      exact h.append hclosed [.rejected g.nextId .invalid_weight] (by simp) rfl
    · by_cases hopen : (g.breaker.maybeHalfOpen g.now).1 = .opened
      · rw [acquire_of_opened hopen (by omega)]
        exact h.append hclosed [.rejected g.nextId .circuit_open] (by simp) rfl
      · obtain ⟨es, es', hes, hes', hlog⟩ := acquire_log hw hopen
        rcases hlog with hlog | hlog
        · exact h.append hclosed es (fun _ _ => not_admitted_of_not_admits hes) hlog
        · refine h.append hclosed (es' ++ .admitted g.nextId (g.breaker.maybeHalfOpen g.now).1 :: es)
            ?_ (by rw [hlog]; simp)
          intro id seen hmem
          rcases List.mem_append.mp hmem with hmem | hmem
          · exact not_admitted_of_not_admits hes' hmem
          · rcases List.mem_cons.mp hmem with heq | hmem
            · -- neither closed nor open to its caller
              injection heq with _ hseen
              subst hseen
              cases hseen : (g.breaker.maybeHalfOpen g.now).1 with
              | half_open => rfl
              | closed => exact absurd (CircuitBreaker.maybeHalfOpen_closed hseen) hclosed
              | opened => exact absurd hseen hopen
            · exact not_admitted_of_not_admits hes hmem

/-- The 429 that opens a closed breaker logs that. -/
theorem ProbesSince.record429 (h : g.breaker.state = .closed) (type : Type429) :
    ProbesSince (g.step (.record429 type)) := by
  rcases g.breaker.record429_cases type g.now with ⟨heq, -⟩ | ⟨-, hopen, -⟩
  · refine .of_closed ?_
    simp only [Gate.step]
    split
    · exact heq.trans h
    · exact heq.trans h
  · have hlog : (g.step (.record429 type)).semaphore.log =
        .stats g.semaphore.active :: .breaker .opened :: g.semaphore.log := by
      simp [Gate.step, Gate.withBreaker, Gate.emitStats, Semaphore.emitStats, Semaphore.note, hopen, h]
    exact ⟨fun _ => by simp [hlog], fun _ => by simp [hlog, sinceOpening]⟩

theorem probesSince_step (h : ProbesSince g) (hw : g.semaphore.Weighted) (op : Op) :
    ProbesSince (g.step op) := by
  by_cases hop : op.Acquires
  · obtain ⟨opts, rfl⟩ := hop
    exact h.acquire opts
  · by_cases hclosed : g.breaker.state = .closed
    · by_cases h429 : ∃ type, op = .record429 type
      · obtain ⟨type, rfl⟩ := h429
        exact .record429 hclosed type
      · exact .of_closed (step_closed hclosed fun type heq => h429 ⟨type, heq⟩)
    · obtain ⟨⟨es, hlog, hes⟩, -⟩ := step_log hop hw
      exact h.append hclosed es
        (fun _ _ => not_admitted_of_not_admits fun e he => (hes e he).not_admits) hlog

/-! ## Runs of requests -/

/-- What every step of the requests keeps. -/
structure Traced (g : Gate) : Prop where
  gated : Gated g
  vouched : Vouched g.semaphore
  probes : ProbesSince g

theorem Traced.step (h : Traced g) (op : Op) : Traced (g.step op) :=
  ⟨gated_step h.gated op, vouched_step h.vouched h.gated.weighted op,
    probesSince_step h.probes h.gated.weighted op⟩

theorem traced_requestStep (h : Traced g) (op : RequestOp) : Traced (g.requestStep op) := by
  unfold Gate.requestStep
  split
  · exact h
  · exact h.step _
  · split
    · exact h.step .recordSuccess
    · exact h

theorem traced_afterRequests (opts : ConcurrencyGateOptions) (ops : List RequestOp) :
    Traced (Gate.afterRequests opts ops) :=
  run_invariant (I := Traced) (fun _ op h => traced_requestStep h op)
    ⟨gated_new opts, vouched_after opts [], .of_closed rfl⟩ ops

omit [ShareRounding] in
/-- A granted request is the probe of this opening, or older than it. -/
theorem Traced.granted (h : Traced g) (hopen : g.breaker.state ≠ .closed) {id : ℕ}
    (hgranted : Granted g.semaphore.log id) :
    ProbeOfOpening g.semaphore.log id ∨ LetThroughBefore g.semaphore.log id := by
  obtain ⟨_, hmem, gr, rfl, rfl⟩ := hgranted
  obtain ⟨seen, -, hadmitted⟩ := h.vouched.granted gr hmem
  rw [← List.takeWhile_append_dropWhile (p := (· ≠ .breaker .opened)) (l := g.semaphore.log)]
    at hadmitted
  rcases List.mem_append.mp hadmitted with hsince | hbefore
  · obtain rfl := h.probes.probes hopen gr.id seen hsince
    exact .inl hsince
  · exact .inr ⟨seen, hbefore⟩

omit [ShareRounding] in
/-- The probe of an opening is one request. -/
theorem Traced.probe_unique (h : Traced g) :
    (sinceOpening g.semaphore.log).countP Event.admitsProbe ≤ 1 := by
  refine h.gated.single [] _ (beforeOpening g.semaphore.log) ?_ ?_
  · exact List.takeWhile_append_dropWhile.symm
  · intro hmem
    simpa using List.mem_takeWhile_imp hmem

/-- A granted request's success closes a half-open breaker, whoever it is. -/
theorem requestStep_success_closed {id : ℕ} (hhalf : g.breaker.state = .half_open)
    (hgranted : Granted g.semaphore.log id) :
    (g.requestStep (.success id)).breaker.state = .closed := by
  have hclosed : g.breaker.recordSuccess.state = .closed := by
    simp [CircuitBreaker.recordSuccess, hhalf]
  simp only [Gate.requestStep, if_pos hgranted, Gate.step]
  split
  · exact hclosed
  · exact hclosed

theorem requestStep_success_opened (hopen : g.breaker.state = .opened) (id : ℕ) :
    (g.requestStep (.success id)).breaker.state = .opened := by
  have hsame : g.breaker.recordSuccess = g.breaker := by
    simp [CircuitBreaker.recordSuccess, hopen]
  simp only [Gate.requestStep, Gate.step, hsame]
  split
  · split
    · exact hopen
    · exact hopen
  · exact hopen

/-- Whatever is no success of a granted request leaves a half-open breaker
half-open or opens it. -/
theorem requestStep_closed {op : RequestOp} (hhalf : g.breaker.state ≠ .closed)
    (hclosed : (g.requestStep op).breaker.state = .closed) :
    ∃ id, op = .success id ∧ Granted g.semaphore.log id := by
  unfold Gate.requestStep at hclosed
  split at hclosed
  · exact absurd hclosed hhalf
  · rename_i op hop
    exact absurd hclosed (step_ne_closed hhalf hop)
  · rename_i id
    split at hclosed
    · rename_i hgranted
      exact ⟨id, rfl, hgranted⟩
    · exact absurd hclosed hhalf

/-- **The breaker goes from half-open to closed by a reported success only**,
of the probe of this opening, which is one request, or of a request that was
let through before the opening; any such success closes it, and none closes
an open breaker. -/
theorem closed_by_granted (opts : ConcurrencyGateOptions) (ops : List RequestOp) :
    (∀ op, (Gate.afterRequests opts ops).breaker.state = .half_open →
      ((Gate.afterRequests opts ops).requestStep op).breaker.state = .closed →
      ∃ id, op = .success id ∧ Granted (Gate.afterRequests opts ops).semaphore.log id ∧
        (ProbeOfOpening (Gate.afterRequests opts ops).semaphore.log id ∨
          LetThroughBefore (Gate.afterRequests opts ops).semaphore.log id)) ∧
    (sinceOpening (Gate.afterRequests opts ops).semaphore.log).countP Event.admitsProbe ≤ 1 ∧
    (∀ id, (Gate.afterRequests opts ops).breaker.state = .half_open →
      Granted (Gate.afterRequests opts ops).semaphore.log id →
      ((Gate.afterRequests opts ops).requestStep (.success id)).breaker.state = .closed) ∧
    ∀ id, (Gate.afterRequests opts ops).breaker.state = .opened →
      ((Gate.afterRequests opts ops).requestStep (.success id)).breaker.state = .opened := by
  have h := traced_afterRequests opts ops
  refine ⟨fun op hhalf hclosed => ?_, h.probe_unique,
    fun id hhalf hgranted => requestStep_success_closed hhalf hgranted,
    fun id hopen => requestStep_success_opened hopen id⟩
  have hne : (Gate.afterRequests opts ops).breaker.state ≠ .closed := by simp [hhalf]
  obtain ⟨id, rfl, hgranted⟩ := requestStep_closed hne hclosed
  exact ⟨id, rfl, hgranted, h.granted hne hgranted⟩

end Closing

section Runs

attribute [local instance] exactShare

/-- A request runs when the breaker opens; after the cooldown a second one is
let through as the probe. -/
def probeBesideOld : List RequestOp :=
  [.gate (.acquire {}), .gate (.record429 .concurrency), .gate (.tick 20), .gate (.acquire {})]

/-- The success of the first request closes the breaker before the probe has
an answer. -/
theorem old_success_closes :
    ¬ ∀ (opts : ConcurrencyGateOptions) (ops : List RequestOp) (id : ℕ),
      (Gate.afterRequests opts ops).breaker.state = .half_open →
      ((Gate.afterRequests opts ops).requestStep (.success id)).breaker.state = .closed →
      ProbeOfOpening (Gate.afterRequests opts ops).semaphore.log id := by
  intro h
  have hprobe := h twoSlots probeBesideOld 0 (by decide +kernel) (by decide +kernel)
  revert hprobe
  unfold ProbeOfOpening
  decide +kernel

/-- It is older than the opening. -/
theorem closed_by_granted_probeBesideOld :
    ∃ id, (RequestOp.success 0) = .success id ∧
      Granted (Gate.afterRequests twoSlots probeBesideOld).semaphore.log id ∧
      (ProbeOfOpening (Gate.afterRequests twoSlots probeBesideOld).semaphore.log id ∨
        LetThroughBefore (Gate.afterRequests twoSlots probeBesideOld).semaphore.log id) :=
  (closed_by_granted twoSlots probeBesideOld).1 (.success 0) (by decide +kernel)
    (by decide +kernel)

end Runs

end UmansGate.Limiter
