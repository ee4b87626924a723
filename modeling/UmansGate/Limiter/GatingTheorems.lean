/-
UmansGate.Limiter.GatingTheorems — what the circuit breaker keeps out.

The breaker is consulted by `acquire` and nowhere else: a waiter that was
let in while the breaker was closed is granted by a later drain whatever
the breaker's state is then (`grant_while_open`). What holds is that an
`acquire` of a breaker that is open or probing is turned away, and that
each opening lets through one probe at most. The log is read newest
first; an opening is a `breaker opened` entry.
-/
import UmansGate.Limiter.Moves

namespace UmansGate.Limiter

open UmansGate.Lib Semaphore

section Gating

/-- A request passed the half-open breaker. -/
def Event.admitsProbe : Event → Bool
  | .admitted _ .half_open => true
  | _ => false

/-- A request passed the breaker. -/
def Event.Admits : Event → Prop
  | .admitted _ _ => True
  | _ => False

/-- What an operation that leaves the breaker in `state` may log: it lets
requests through only past a breaker that is not open, and an open one
sees only waiters of the `queue` granted. -/
def Event.PassedBy (state : BreakerState) (queue : List Waiter) : Event → Prop
  | .admitted _ seen => state = seen ∧ seen ≠ .opened
  | .granted gr => state ≠ .opened ∨ ∃ w ∈ queue, w.id = gr.id
  | _ => True

/-- The request passed the breaker while it was not open. -/
def LetThrough (log : List Event) (id : Nat) : Prop :=
  ∃ seen, seen ≠ .opened ∧ .admitted id seen ∈ log

/-- Whoever waits or was granted passed the breaker. -/
structure Vouched (s : Semaphore) : Prop where
  waiting : ∀ w ∈ s.waiters, LetThrough s.log w.id
  granted : ∀ gr, .granted gr ∈ s.log → LetThrough s.log gr.id

/-- In a stretch of the log without an opening at most one request passed
the half-open breaker. -/
def SingleProbe (log : List Event) : Prop :=
  ∀ l₁ l₂ l₃, log = l₁ ++ l₂ ++ l₃ → .breaker .opened ∉ l₂ → l₂.countP Event.admitsProbe ≤ 1

/-- Since the last opening no request passed the half-open breaker. -/
def ProbeFree (log : List Event) : Prop :=
  ∀ l₁ l₂, log = l₁ ++ l₂ → .breaker .opened ∉ l₁ → l₁.countP Event.admitsProbe = 0

/-! ## Stretches of the log -/

variable {log : List Event} {e : Event}

theorem Event.admitsProbe_of_not_admits (h : ¬ e.Admits) : e.admitsProbe = false := by
  cases e with
  | admitted id seen => exact absurd trivial h
  | _ => rfl

theorem ProbeFree.of_opened (log : List Event) : ProbeFree (.breaker .opened :: log) := by
  intro l₁ l₂ heq hno
  cases l₁ with
  | nil => rfl
  | cons x l₁ =>
    rw [List.cons_append, List.cons.injEq] at heq
    exact absurd (by simp [← heq.1]) hno

theorem ProbeFree.cons (h : ProbeFree log) (he : e.admitsProbe = false) : ProbeFree (e :: log) := by
  intro l₁ l₂ heq hno
  cases l₁ with
  | nil => rfl
  | cons x l₁ =>
    rw [List.cons_append, List.cons.injEq] at heq
    rw [List.mem_cons, not_or] at hno
    rw [List.countP_cons, ← heq.1, he, h l₁ l₂ heq.2 hno.2]
    rfl

theorem ProbeFree.append (h : ProbeFree log) {es : List Event}
    (hes : ∀ e ∈ es, e.admitsProbe = false) : ProbeFree (es ++ log) := by
  induction es with
  | nil => exact h
  | cons e es ih =>
    exact ProbeFree.cons (ih fun x hx => hes x (List.mem_cons_of_mem _ hx)) (hes e (by simp))

/-- A stretch of `e :: log` lies in `log` or begins with `e`. -/
theorem stretch_cons {l₁ l₂ l₃ : List Event} (heq : e :: log = l₁ ++ l₂ ++ l₃) :
    (∃ l, log = l ++ l₂ ++ l₃) ∨ l₂ = [] ∨ ∃ l, l₂ = e :: l ∧ log = l ++ l₃ := by
  cases l₁ with
  | cons x l₁ =>
    rw [List.cons_append, List.cons_append, List.cons.injEq] at heq
    exact .inl ⟨l₁, heq.2⟩
  | nil =>
    cases l₂ with
    | nil => exact .inr (.inl rfl)
    | cons x l₂ =>
      rw [List.nil_append, List.cons_append, List.cons.injEq] at heq
      exact .inr (.inr ⟨l₂, by rw [heq.1], heq.2⟩)

theorem SingleProbe.cons (h : SingleProbe log) (he : e.admitsProbe = false ∨ ProbeFree log) :
    SingleProbe (e :: log) := by
  intro l₁ l₂ l₃ heq hno
  rcases stretch_cons heq with ⟨l, hl⟩ | rfl | ⟨l, rfl, hl⟩
  · exact h l l₂ l₃ hl hno
  · simp
  · rw [List.mem_cons, not_or] at hno
    rw [List.countP_cons]
    rcases he with he | hfree
    · have := h [] l l₃ hl hno.2
      rw [he]
      simpa using this
    · rw [hfree l l₃ hl hno.2]
      split <;> omega

theorem SingleProbe.append (h : SingleProbe log) {es : List Event}
    (hes : ∀ e ∈ es, e.admitsProbe = false) : SingleProbe (es ++ log) := by
  induction es with
  | nil => exact h
  | cons e es ih =>
    exact SingleProbe.cons (ih fun x hx => hes x (List.mem_cons_of_mem _ hx))
      (.inl (hes e (by simp)))

/-! ## The breaker and its log -/

/-- A half-open breaker has its probe, and an open one has let none
through since it opened. -/
structure Gated (g : Gate) : Prop where
  started : g.breaker.state = .half_open → g.breaker.halfOpenProbeStarted = true
  free : g.breaker.state = .opened → ProbeFree g.semaphore.log
  single : SingleProbe g.semaphore.log
  weighted : g.semaphore.Weighted

/-- The breaker callers see: it turns them away. -/
def CircuitBreaker.Blocks (b : CircuitBreaker) (now : Int) : Prop :=
  b.state = .opened ∧ now - b.openedAt < b.cooldownMs ∨ b.state = .half_open

theorem Gated.maybeHalfOpen_of_blocks {g : Gate} (h : Gated g)
    (hb : g.breaker.Blocks g.now) : g.breaker.maybeHalfOpen g.now = (.opened, g.breaker) := by
  rcases hb with ⟨hs, hlt⟩ | hs
  · simp only [CircuitBreaker.maybeHalfOpen, hs]
    split
    · rfl
    · rw [if_neg (by omega)]
  · exact g.breaker.maybeHalfOpen_of_probing g.now ⟨hs, h.started hs⟩

theorem withBreaker_log (g : Gate) (b : CircuitBreaker) :
    (∃ es, (∀ e ∈ es, ¬ e.Admits) ∧
      (g.withBreaker b).semaphore.log = es ++ g.semaphore.log) ∧
    (b.state = .opened → g.breaker.state = .opened ∨
      (g.withBreaker b).semaphore.log = .breaker .opened :: g.semaphore.log) := by
  unfold Gate.withBreaker
  dsimp only
  split
  · rename_i heq
    exact ⟨⟨[], by simp, rfl⟩, fun hb => .inl (heq ▸ hb)⟩
  · exact ⟨⟨[.breaker b.state], by simp [Event.Admits], rfl⟩, fun hb => .inr (by rw [hb]; rfl)⟩

/-- What an operation other than `acquire` does to the breaker: it leaves
the state and the probe flag, closes it, or opens it and logs that. -/
theorem step_breaker [ShareRounding] (g : Gate) {op : Op} (hop : ¬ op.Acquires) :
    ((g.step op).breaker.state = g.breaker.state ∧
        (g.step op).breaker.halfOpenProbeStarted = g.breaker.halfOpenProbeStarted) ∨
      (g.step op).breaker.state = .closed ∨
      (g.step op).breaker.state = .opened ∧ ∃ es log, (∀ e ∈ es, e.admitsProbe = false) ∧
        (g.step op).semaphore.log = es ++ .breaker .opened :: log := by
  have hdequeue : ∀ (g : Gate) (w : Waiter) (code : GateErrorCode),
      ((g.dequeue w code).breaker.state = g.breaker.state ∧
        (g.dequeue w code).breaker.halfOpenProbeStarted = g.breaker.halfOpenProbeStarted) ∨
      (g.dequeue w code).breaker.state = .opened ∧ ∃ es log, (∀ e ∈ es, e.admitsProbe = false) ∧
        (g.dequeue w code).semaphore.log = es ++ .breaker .opened :: log := by
    intro g w code
    simp only [Gate.dequeue]
    split
    · exact .inl ⟨rfl, rfl⟩
    · rename_i s _
      split
      · rcases g.breaker.resetHalfOpenProbe_cases g.now with ⟨heq, _⟩ | ⟨hp, hs, _⟩
        · rw [heq]
          exact .inl ⟨rfl, rfl⟩
        · refine .inr ⟨hs, ?_⟩
          have hlog := (withBreaker_log { g with semaphore := s }
            (g.breaker.resetHalfOpenProbe g.now)).2 hs
          have hlog := hlog.resolve_left (by simp [hp.1])
          refine ⟨[.rejected w.id code, .stats (Gate.withBreaker { g with semaphore := s }
            (g.breaker.resetHalfOpenProbe g.now)).semaphore.active], s.log, ?_, ?_⟩
          · simp [Event.admitsProbe]
          · show _ :: _ :: (Gate.withBreaker _ _).semaphore.log = _
            rw [hlog]
            rfl
      · exact .inl ⟨rfl, rfl⟩
  cases op with
  | acquire opts => exact absurd ⟨opts, rfl⟩ hop
  | queueTimeout id =>
    simp only [Gate.step]
    split
    · exact .inl ⟨rfl, rfl⟩
    · split
      · exact .inl ⟨rfl, rfl⟩
      · split
        · exact (hdequeue g _ _).imp_right .inr
        · exact .inl ⟨rfl, rfl⟩
  | abort id =>
    simp only [Gate.step]
    split
    · exact .inl ⟨rfl, rfl⟩
    · split
      · exact .inl ⟨rfl, rfl⟩
      · exact (hdequeue { g with aborted := id :: g.aborted } _ _).imp_right .inr
  | record429 type =>
    simp only [Gate.step]
    rcases g.breaker.record429_cases type g.now with ⟨h₁, h₂⟩ | ⟨hno, h₁, _⟩
    · refine .inl ?_
      split <;> exact ⟨h₁, h₂⟩
    · have hlog := ((withBreaker_log g _).2 h₁).resolve_left hno
      have hb : (g.withBreaker (g.breaker.record429 type g.now)).breaker.state = .opened := h₁
      refine .inr (.inr ?_)
      rw [if_pos hb]
      refine ⟨h₁, [.stats (g.withBreaker (g.breaker.record429 type g.now)).semaphore.active],
        g.semaphore.log, by simp [Event.admitsProbe], ?_⟩
      show _ :: (Gate.withBreaker _ _).semaphore.log = _
      rw [hlog]
      rfl
  | recordSuccess =>
    simp only [Gate.step]
    rcases g.breaker.recordSuccess_cases with ⟨heq, _⟩ | ⟨_, h₁, _⟩
    · refine .inl ?_
      rw [heq]
      split <;> exact ⟨rfl, rfl⟩
    · refine .inr (.inl ?_)
      split <;> exact h₁
  | cooldownExpiry =>
    simp only [Gate.step]
    split
    · exact .inl ⟨rfl, rfl⟩
    · split <;> exact .inl ⟨rfl, rfl⟩
  | resize newLimit =>
    rw [Gate.step, afterSetter_breaker]
    exact .inl ⟨rfl, rfl⟩
  | setHardCap newHardCap =>
    rw [Gate.step, afterSetter_breaker]
    exact .inl ⟨rfl, rfl⟩
  | setSoftLimit newSoftLimit =>
    rw [Gate.step, afterSetter_breaker]
    exact .inl ⟨rfl, rfl⟩
  | _ => exact .inl ⟨rfl, rfl⟩

variable [ShareRounding] {g : Gate} {op : Op}

/-- What an operation other than `acquire` may log: it lets nobody
through, and grants waiters only. -/
def Event.Served (queue : List Waiter) : Event → Prop
  | .admitted _ _ => False
  | .granted gr => ∃ w ∈ queue, w.id = gr.id
  | _ => True

omit [ShareRounding] in
theorem Event.Served.not_admits {queue : List Waiter} {e : Event} (h : e.Served queue) :
    ¬ e.Admits := by
  cases e with
  | admitted id seen => exact absurd h not_false
  | _ => exact not_false

theorem step_log (hop : ¬ op.Acquires) (hw : g.semaphore.Weighted) :
    LogGrows (Event.Served g.semaphore.waiters) g.semaphore (g.step op).semaphore ∧
      ∀ w ∈ (g.step op).semaphore.waiters, ∃ y ∈ g.semaphore.waiters, y.id = w.id := by
  obtain ⟨-, hm⟩ := step_moves g op fun opts h => hop ⟨opts, h⟩
  have hinv : (g.step op).semaphore.Weighted ∧
      LogGrows (Event.Served g.semaphore.waiters) g.semaphore (g.step op).semaphore ∧
      ∀ w ∈ (g.step op).semaphore.waiters, ∃ y ∈ g.semaphore.waiters, y.id = w.id := by
    refine hm.invariant (I := fun s => s.Weighted ∧
      LogGrows (Event.Served g.semaphore.waiters) g.semaphore s ∧
      ∀ w ∈ s.waiters, ∃ y ∈ g.semaphore.waiters, y.id = w.id) ?_
      ⟨hw, .refl _ _, fun w hw => ⟨w, hw, rfl⟩⟩
    intro a b hp hab
    obtain ⟨hwa, hla, hia⟩ := hp
    refine ⟨hab.weighted hw hwa, hla.trans (hab.logGrows hwa) fun e he => ?_, fun w hwb => ?_⟩
    · cases e with
      | admitted id seen => exact absurd he hop
      | granted gr =>
        obtain ⟨w, hmem, hid⟩ := he.2.resolve_left hop
        obtain ⟨y, hy, hyid⟩ := hia w hmem
        exact ⟨y, hy, hyid.trans hid⟩
      | _ => trivial
    · rcases hab.mem_waiters hwb with ⟨y, hy, heq⟩ | ⟨y, hy, heq⟩
      · obtain ⟨x, hx, hid⟩ := hia y hy
        exact ⟨x, hx, hid.trans (congrArg Request.id heq)⟩
      · exact ⟨y, hy, congrArg Request.id heq⟩
  exact hinv.2

/-- What `acquire` logs behind the breaker: at most that its own request
was let through. -/
theorem grantOrEnqueue_log (g : Gate) (r : Request) (seen : BreakerState) :
    ∃ es es', (∀ e ∈ es, ¬ e.Admits) ∧ (∀ e ∈ es', ¬ e.Admits) ∧
      ((g.grantOrEnqueue r seen).semaphore.log = es ++ g.semaphore.log ∨
        (g.grantOrEnqueue r seen).semaphore.log =
          es' ++ .admitted r.id seen :: (es ++ g.semaphore.log)) := by
  simp only [Gate.grantOrEnqueue]
  split
  · have hgrant : LogGrows (fun e => ¬ e.Admits) g.semaphore (g.semaphore.grant r).1 :=
      grant_logGrows (P := fun e => ¬ e.Admits) r not_false not_false
    obtain ⟨es, hlog, hes⟩ := hgrant
    split
    · rename_i s heq
      rw [heq] at hlog
      refine ⟨es, [], hes, by simp, .inr ?_⟩
      show _ :: s.log = _
      rw [hlog]
      rfl
    · rename_i s heq
      rw [heq] at hlog
      refine ⟨.rejected r.id .callbackThrew :: es, [], ?_, by simp, .inl ?_⟩
      · intro e he
        rcases List.mem_cons.mp he with rfl | he
        · exact not_false
        · exact hes e he
      · show _ :: s.log = _
        rw [hlog]
        rfl
  · split
    · exact ⟨[.rejected r.id .queue_full], [], by simp [Event.Admits], by simp, .inl rfl⟩
    · rename_i s henq
      obtain ⟨-, rfl⟩ := enqueue_eq henq
      exact ⟨[.enqueued r.id], [.stats g.semaphore.active], by simp [Event.Admits],
        by simp [Event.Admits], .inr rfl⟩

/-- A caller that the breaker turns away leaves only its rejection. -/
theorem acquire_of_opened (hb : (g.breaker.maybeHalfOpen g.now).1 = .opened)
    {opts : AcquireOptions} (hw : 0 < roundNum (opts.weight.getD 1 * SCALE)) :
    g.acquire opts = { g with
      nextId := g.nextId + 1
      semaphore := g.semaphore.note (.rejected g.nextId .circuit_open) } := by
  have hsame : (g.breaker.maybeHalfOpen g.now).2 = g.breaker := by
    rcases g.breaker.maybeHalfOpen_cases g.now with ⟨heq, _⟩ | ⟨_, _, heq⟩
    · exact heq
    · rw [heq] at hb
      exact absurd hb (by simp)
  simp only [Gate.acquire]
  rw [if_neg (by omega), hsame, if_pos hb]
  simp only [Gate.withBreaker, Gate.reject, if_true]

/-- What an `acquire` that passes the breaker does to the log. -/
theorem acquire_log {opts : AcquireOptions} (hw : ¬ roundNum (opts.weight.getD 1 * SCALE) ≤ 0)
    (hopen : (g.breaker.maybeHalfOpen g.now).1 ≠ .opened) :
    ∃ es es', (∀ e ∈ es, ¬ e.Admits) ∧ (∀ e ∈ es', ¬ e.Admits) ∧
      ((g.acquire opts).semaphore.log = es ++ g.semaphore.log ∨
        (g.acquire opts).semaphore.log = es' ++
          .admitted g.nextId (g.breaker.maybeHalfOpen g.now).1 :: (es ++ g.semaphore.log)) := by
  obtain ⟨⟨es₁, hes₁, hlog₁⟩, -⟩ := withBreaker_log { g with nextId := g.nextId + 1 }
    (g.breaker.maybeHalfOpen g.now).2
  obtain ⟨es, es', hes, hes', hlog⟩ := grantOrEnqueue_log
    (Gate.withBreaker { g with nextId := g.nextId + 1 } (g.breaker.maybeHalfOpen g.now).2)
    ⟨g.nextId, roundNum (opts.weight.getD 1 * SCALE), opts.intention.getD "main",
      opts.onAcquireThrows, (g.breaker.maybeHalfOpen g.now).1 = .half_open⟩
    (g.breaker.maybeHalfOpen g.now).1
  refine ⟨es ++ es₁, es', fun e he => ?_, hes', ?_⟩
  · rcases List.mem_append.mp he with he | he
    · exact hes e he
    · exact hes₁ e he
  · simp only [Gate.acquire]
    rw [if_neg hw, if_neg hopen]
    rw [hlog₁] at hlog
    rw [List.append_assoc]
    exact hlog

theorem acquire_breaker {opts : AcquireOptions}
    (hw : ¬ roundNum (opts.weight.getD 1 * SCALE) ≤ 0)
    (hopen : (g.breaker.maybeHalfOpen g.now).1 ≠ .opened) :
    (g.acquire opts).breaker = (g.breaker.maybeHalfOpen g.now).2 := by
  simp only [Gate.acquire]
  rw [if_neg hw, if_neg hopen, grantOrEnqueue_breaker]
  rfl

theorem acquire_of_invalid {opts : AcquireOptions}
    (hw : roundNum (opts.weight.getD 1 * SCALE) ≤ 0) :
    g.acquire opts = { g with
      nextId := g.nextId + 1
      semaphore := g.semaphore.note (.rejected g.nextId .invalid_weight) } := by
  simp only [Gate.acquire]
  rw [if_pos hw]
  rfl

omit [ShareRounding] in
/-- A log that grows by at most one admission, of a probe only if none was
let through since the last opening. -/
theorem SingleProbe.grow {log log' : List Event} {es es' : List Event} {id : Nat}
    {seen : BreakerState} (h : SingleProbe log) (hes : ∀ e ∈ es, ¬ e.Admits)
    (hes' : ∀ e ∈ es', ¬ e.Admits) (hfree : seen = .half_open → ProbeFree log)
    (hlog : log' = es ++ log ∨ log' = es' ++ .admitted id seen :: (es ++ log)) :
    SingleProbe log' := by
  have hes : ∀ e ∈ es, e.admitsProbe = false := fun e he =>
    Event.admitsProbe_of_not_admits (hes e he)
  have hes' : ∀ e ∈ es', e.admitsProbe = false := fun e he =>
    Event.admitsProbe_of_not_admits (hes' e he)
  rcases hlog with rfl | rfl
  · exact h.append hes
  · refine SingleProbe.append (SingleProbe.cons (h.append hes) ?_) hes'
    cases seen with
    | half_open => exact .inr ((hfree rfl).append hes)
    | closed => exact .inl rfl
    | opened => exact .inl rfl

theorem Gated.acquire (h : Gated g) (opts : AcquireOptions) : Gated (g.acquire opts) := by
  have hweighted : (g.acquire opts).semaphore.Weighted := weighted_step h.weighted (.acquire opts)
  by_cases hw : roundNum (opts.weight.getD 1 * SCALE) ≤ 0
  · rw [acquire_of_invalid hw] at hweighted ⊢
    exact ⟨h.started, fun ho => (h.free ho).cons rfl, h.single.cons (.inl rfl), hweighted⟩
  · by_cases hopen : (g.breaker.maybeHalfOpen g.now).1 = .opened
    · rw [acquire_of_opened hopen (by omega)] at hweighted ⊢
      exact ⟨h.started, fun ho => (h.free ho).cons rfl, h.single.cons (.inl rfl), hweighted⟩
    · have hstate := CircuitBreaker.maybeHalfOpen_state hopen
      have hbreaker := acquire_breaker hw hopen
      -- a caller is let through as the probe by an open breaker only
      have hprobe : (g.breaker.maybeHalfOpen g.now).1 = .half_open →
          ProbeFree g.semaphore.log ∧
            (g.breaker.maybeHalfOpen g.now).2.halfOpenProbeStarted = true := by
        intro hhalf
        rcases g.breaker.maybeHalfOpen_cases g.now with ⟨_, hno⟩ | ⟨ho, _, heq⟩
        · obtain ⟨hs, hp⟩ := hno hhalf
          rw [h.started hs] at hp
          exact absurd hp (by simp)
        · rw [heq]
          exact ⟨h.free ho, rfl⟩
      obtain ⟨es, es', hes, hes', hlog⟩ := acquire_log hw hopen
      constructor
      · intro hs
        rw [hbreaker, hstate] at hs
        rw [hbreaker]
        exact (hprobe hs).2
      · intro ho
        rw [hbreaker, hstate] at ho
        exact absurd ho hopen
      · exact h.single.grow hes hes' (fun hhalf => (hprobe hhalf).1) hlog
      · exact hweighted

/-- What one step preserves. -/
theorem gated_step (h : Gated g) (op : Op) : Gated (g.step op) := by
  by_cases hop : op.Acquires
  · obtain ⟨opts, rfl⟩ := hop
    exact h.acquire opts
  · have hw : (g.step op).semaphore.Weighted := weighted_step h.weighted op
    obtain ⟨⟨es, hlog, hes⟩, -⟩ := step_log hop h.weighted
    have hes : ∀ e ∈ es, e.admitsProbe = false := fun e he =>
      Event.admitsProbe_of_not_admits (hes e he).not_admits
    have hsingle : SingleProbe (g.step op).semaphore.log := by
      rw [hlog]
      exact h.single.append hes
    rcases step_breaker g hop with ⟨h₁, h₂⟩ | hc | ⟨ho, es', log', hes', hlog'⟩
    · constructor
      · intro hs
        rw [h₁] at hs
        rw [h₂]
        exact h.started hs
      · intro ho
        rw [h₁] at ho
        rw [hlog]
        exact (h.free ho).append hes
      · exact hsingle
      · exact hw
    · exact ⟨fun hs => absurd (hc.symm.trans hs) (by simp),
        fun ho => absurd (hc.symm.trans ho) (by simp), hsingle, hw⟩
    · constructor
      · intro hs
        exact absurd (ho.symm.trans hs) (by simp)
      · intro _
        rw [hlog']
        exact (ProbeFree.of_opened log').append hes'
      · exact hsingle
      · exact hw

omit [ShareRounding] in
theorem gated_new (opts : ConcurrencyGateOptions) : Gated (Gate.new opts) := by
  constructor
  · intro hs
    exact absurd hs (by simp [Gate.new, CircuitBreaker.new])
  · intro ho
    exact absurd ho (by simp [Gate.new, CircuitBreaker.new])
  · intro l₁ l₂ l₃ heq _
    have hnil : ([] : List Event) = l₁ ++ l₂ ++ l₃ := heq
    simp only [List.nil_eq, List.append_eq_nil_iff] at hnil
    rw [hnil.1.2]
    exact Nat.zero_le _
  · exact weighted_new opts

theorem gated_after (opts : ConcurrencyGateOptions) (ops : List Op) :
    Gated (Gate.after opts ops) :=
  run_invariant (I := Gated) (fun _ op h => gated_step h op) (gated_new opts) ops

/-! ## Who is granted -/

omit [ShareRounding] in
theorem LetThrough.append {log : List Event} {id : Nat} (h : LetThrough log id)
    (es : List Event) : LetThrough (es ++ log) id := by
  obtain ⟨seen, hseen, hmem⟩ := h
  exact ⟨seen, hseen, List.mem_append_right es hmem⟩

omit [ShareRounding] in
/-- What keeps the invariant: new waiters and new grants are of requests
that are let through by then. -/
theorem Vouched.grow {s s' : Semaphore} (h : Vouched s) (es : List Event)
    (hlog : s'.log = es ++ s.log)
    (hw : ∀ w ∈ s'.waiters, (∃ y ∈ s.waiters, y.id = w.id) ∨ LetThrough s'.log w.id)
    (hes : ∀ gr, .granted gr ∈ es → LetThrough s'.log gr.id) : Vouched s' := by
  constructor
  · intro w hmem
    rcases hw w hmem with ⟨y, hy, hid⟩ | hw
    · rw [hlog, ← hid]
      exact (h.waiting y hy).append es
    · exact hw
  · intro gr hgr
    rw [hlog] at hgr
    rcases List.mem_append.mp hgr with hgr | hgr
    · exact hes gr hgr
    · rw [hlog]
      exact (h.granted gr hgr).append es

omit [ShareRounding] in
theorem Vouched.note {s : Semaphore} (h : Vouched s) {e : Event} (he : ∀ gr, e ≠ .granted gr) :
    Vouched (s.note e) := by
  refine h.grow [e] rfl (fun w hw => .inl ⟨w, hw, rfl⟩) fun gr hgr => ?_
  exact absurd (List.mem_singleton.mp hgr).symm (he gr)

/-- Behind the breaker the request is granted or queued, and its passing
is logged. -/
theorem Vouched.grantOrEnqueue (h : Vouched g.semaphore) (r : Request) {seen : BreakerState}
    (hseen : seen ≠ .opened) : Vouched (g.grantOrEnqueue r seen).semaphore := by
  simp only [Gate.grantOrEnqueue]
  split
  · simp only [Semaphore.grant]
    cases r.onAcquireThrows with
    | true =>
      have hs : Vouched { g.semaphore with
          active := g.semaphore.active + r.weight
          activeByIntention := g.semaphore.activeByIntention.set r.intention
            (g.semaphore.activeByIntention.getD r.intention 0 + r.weight) } :=
        ⟨h.waiting, h.granted⟩
      exact hs.note (by simp)
    | false =>
      have hthrough : ∀ es, LetThrough (.admitted r.id seen :: es) r.id := fun es =>
        ⟨seen, hseen, List.mem_cons_self⟩
      refine h.grow [.admitted r.id seen, .granted _, .stats _] rfl
        (fun w hw => .inl ⟨w, hw, rfl⟩) fun gr hgr => ?_
      simp only [List.mem_cons, reduceCtorEq, Event.granted.injEq, List.not_mem_nil, or_false,
        false_or] at hgr
      rw [hgr]
      exact hthrough _
  · split
    · exact h.note (by simp)
    · rename_i s henq
      obtain ⟨-, rfl⟩ := enqueue_eq henq
      refine h.grow [.stats _, .admitted r.id seen, .enqueued r.id] rfl (fun w hw => ?_)
        fun gr hgr => absurd hgr (by simp)
      rcases List.mem_append.mp hw with hw | hw
      · exact .inl ⟨w, hw, rfl⟩
      · rw [List.mem_singleton.mp hw]
        exact .inr ⟨seen, hseen, List.mem_cons_of_mem _ List.mem_cons_self⟩

theorem Vouched.acquire (h : Vouched g.semaphore) (opts : AcquireOptions) :
    Vouched (g.acquire opts).semaphore := by
  simp only [Gate.acquire]
  split
  · exact h.note (by simp)
  · have hb : Vouched (Gate.withBreaker { g with nextId := g.nextId + 1 }
        (g.breaker.maybeHalfOpen g.now).2).semaphore := by
      unfold Gate.withBreaker
      dsimp only
      split
      · exact h
      · exact h.note (by simp)
    split
    · exact hb.note (by simp)
    · rename_i hopen
      exact hb.grantOrEnqueue _ hopen

theorem vouched_step (h : Vouched g.semaphore) (hw : g.semaphore.Weighted) (op : Op) :
    Vouched (g.step op).semaphore := by
  by_cases hop : op.Acquires
  · obtain ⟨opts, rfl⟩ := hop
    exact h.acquire opts
  · obtain ⟨⟨es, hlog, hes⟩, hwaiters⟩ := step_log hop hw
    refine h.grow es hlog (fun w hmem => .inl (hwaiters w hmem)) fun gr hgr => ?_
    obtain ⟨w, hmem, hid⟩ := hes _ hgr
    rw [hlog, ← hid]
    exact (h.waiting w hmem).append es

theorem vouched_after (opts : ConcurrencyGateOptions) (ops : List Op) :
    Vouched (Gate.after opts ops).semaphore := by
  refine (run_invariant (I := fun g : Gate => g.semaphore.Weighted ∧ Vouched g.semaphore)
    (fun g op h => ⟨weighted_step h.1 op, vouched_step h.2 h.1 op⟩) ⟨weighted_new opts, ?_⟩
    ops).2
  constructor
  · intro w hmem
    exact absurd hmem (by simp [Gate.new, Semaphore.new])
  · intro gr hgr
    exact absurd hgr (by simp [Gate.new, Semaphore.new])

/-- What one operation logs. -/
theorem step_passedBy (hw : g.semaphore.Weighted) (op : Op) :
    LogGrows (Event.PassedBy (g.step op).breaker.state g.semaphore.waiters) g.semaphore
      (g.step op).semaphore := by
  by_cases hop : op.Acquires
  · obtain ⟨opts, rfl⟩ := hop
    show LogGrows (Event.PassedBy (g.acquire opts).breaker.state _) _ (g.acquire opts).semaphore
    by_cases hweight : roundNum (opts.weight.getD 1 * SCALE) ≤ 0
    · rw [acquire_of_invalid hweight]
      exact ⟨[.rejected g.nextId .invalid_weight], rfl, by simp [Event.PassedBy]⟩
    · by_cases hopen : (g.breaker.maybeHalfOpen g.now).1 = .opened
      · rw [acquire_of_opened hopen (by omega)]
        exact ⟨[.rejected g.nextId .circuit_open], rfl, by simp [Event.PassedBy]⟩
      · have hstate : (g.acquire opts).breaker.state = (g.breaker.maybeHalfOpen g.now).1 := by
          rw [acquire_breaker hweight hopen]
          exact CircuitBreaker.maybeHalfOpen_state hopen
        rw [hstate]
        obtain ⟨es, es', hes, hes', hlog⟩ := acquire_log hweight hopen
        have hpass : ∀ e : Event, ¬ e.Admits →
            e.PassedBy (g.breaker.maybeHalfOpen g.now).1 g.semaphore.waiters := by
          intro e he
          cases e with
          | admitted id seen => exact absurd trivial he
          | granted gr => exact .inl hopen
          | _ => trivial
        rcases hlog with hlog | hlog
        · exact ⟨es, hlog, fun e he => hpass e (hes e he)⟩
        · refine ⟨es' ++ .admitted g.nextId (g.breaker.maybeHalfOpen g.now).1 :: es, ?_, ?_⟩
          · rw [hlog, List.append_assoc, List.cons_append]
          · intro e he
            rcases List.mem_append.mp he with he | he
            · exact hpass e (hes' e he)
            · rcases List.mem_cons.mp he with rfl | he
              · exact ⟨rfl, hopen⟩
              · exact hpass e (hes e he)
  · obtain ⟨⟨es, hlog, hes⟩, -⟩ := step_log hop hw
    refine ⟨es, hlog, fun e he => ?_⟩
    have hserved := hes e he
    cases e with
    | admitted id seen => exact absurd hserved not_false
    | granted gr => exact .inr hserved
    | _ => trivial

/-- What the breaker gates is `acquire`. In every reachable state:
a breaker that is open within its cooldown, or half-open, turns a caller
away without a grant or a place in the queue; an operation lets a request
through only past a breaker that is not open, and grants a permit under an
open one only to a waiter; every waiter and every granted request was let
through at its `acquire`; and between two openings at most one request
passes a half-open breaker. -/
theorem breaker_gates_acquire (opts : ConcurrencyGateOptions) (ops : List Op) :
    (∀ o : AcquireOptions, (Gate.after opts ops).breaker.Blocks (Gate.after opts ops).now →
      0 < roundNum (o.weight.getD 1 * SCALE) →
      ((Gate.after opts ops).step (.acquire o)).semaphore =
        (Gate.after opts ops).semaphore.note
          (.rejected (Gate.after opts ops).nextId .circuit_open)) ∧
    (∀ op, LogGrows
      (Event.PassedBy ((Gate.after opts ops).step op).breaker.state
        (Gate.after opts ops).semaphore.waiters)
      (Gate.after opts ops).semaphore ((Gate.after opts ops).step op).semaphore) ∧
    Vouched (Gate.after opts ops).semaphore ∧
    SingleProbe (Gate.after opts ops).semaphore.log := by
  have h := gated_after opts ops
  refine ⟨fun o hb hw => ?_, step_passedBy h.weighted, vouched_after opts ops, h.single⟩
  have hopen : ((Gate.after opts ops).breaker.maybeHalfOpen (Gate.after opts ops).now).1 =
      .opened := by rw [h.maybeHalfOpen_of_blocks hb]
  show ((Gate.after opts ops).acquire o).semaphore = _
  rw [acquire_of_opened hopen hw]

end Gating

section Runs

attribute [local instance] exactShare

/-- Two requests run and one waits when a 429 opens the breaker; one of the
two ends. -/
def waitingAtOpening : List Op :=
  [.acquire {}, .acquire {}, .acquire {}, .record429 .concurrency, .release 0, .tick 10]

/-- The end of the release cooldown grants the waiter while the breaker is
open. -/
theorem grant_while_open :
    (Gate.after twoSlots waitingAtOpening).breaker.state = .opened ∧
    ((Gate.after twoSlots waitingAtOpening).step .cooldownExpiry).breaker.state = .opened ∧
    ∃ gr, .granted gr ∉ (Gate.after twoSlots waitingAtOpening).semaphore.log ∧
      .granted gr ∈ ((Gate.after twoSlots waitingAtOpening).step .cooldownExpiry).semaphore.log :=
  ⟨by decide +kernel, by decide +kernel, ⟨2, 1000, 2000, .fin 2000, 2000⟩, by decide +kernel,
    by decide +kernel⟩

/-- A caller that comes in that state is turned away. -/
theorem breaker_gates_acquire_waitingAtOpening :
    ((Gate.after twoSlots waitingAtOpening).step (.acquire {})).semaphore =
      (Gate.after twoSlots waitingAtOpening).semaphore.note
        (.rejected (Gate.after twoSlots waitingAtOpening).nextId .circuit_open) :=
  (breaker_gates_acquire twoSlots waitingAtOpening).1 {}
    (.inl ⟨by decide +kernel, by decide +kernel⟩) (by decide +kernel)

end Runs

end UmansGate.Limiter
