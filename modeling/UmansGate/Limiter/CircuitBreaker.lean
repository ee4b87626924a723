/-
UmansGate.Limiter.CircuitBreaker — the circuit breaker
(`src/limiter/circuit-breaker.ts`).

Each method takes the clock reading it makes (`Date.now()`) as an
argument. `maybeHalfOpen` returns the state the caller sees next to the
new breaker: the two differ when a probe is already in flight.
-/
import UmansGate.Limiter.Types

namespace UmansGate.Limiter

structure CircuitBreaker where
  state : BreakerState
  concurrency429s : List Int
  openedAt : Int
  threshold : Int
  windowMs : Int
  cooldownMs : Int
  halfOpenProbeStarted : Bool
  deriving DecidableEq, Repr

/-- The class of a 429 response. -/
inductive Type429 where
  | concurrency
  | rate_limit
  | gateway
  deriving DecidableEq, Repr

namespace CircuitBreaker

def new (threshold windowMs cooldownMs : Int) : CircuitBreaker where
  state := .closed
  concurrency429s := []
  openedAt := 0
  threshold := threshold
  windowMs := windowMs
  cooldownMs := cooldownMs
  halfOpenProbeStarted := false

def reconfigure (b : CircuitBreaker) (threshold windowMs cooldownMs : Option Int) (now : Int) :
    CircuitBreaker :=
  let windowMs := windowMs.getD b.windowMs
  { b with
    threshold := threshold.getD b.threshold
    windowMs := windowMs
    cooldownMs := cooldownMs.getD b.cooldownMs
    concurrency429s := b.concurrency429s.filter fun t => now - t < windowMs }

def maybeHalfOpen (b : CircuitBreaker) (now : Int) : BreakerState × CircuitBreaker :=
  match b.state with
  | .opened =>
    if b.halfOpenProbeStarted then (.opened, b)
    else if now - b.openedAt ≥ b.cooldownMs then
      (.half_open, { b with halfOpenProbeStarted := true, state := .half_open })
    else (.opened, b)
  | .half_open => if b.halfOpenProbeStarted then (.opened, b) else (.half_open, b)
  | .closed => (.closed, b)

def record429 (b : CircuitBreaker) (type : Type429) (now : Int) : CircuitBreaker :=
  if type ≠ .concurrency then b
  else
    let recent := (b.concurrency429s ++ [now]).filter fun t => now - t < b.windowMs
    let b := { b with concurrency429s := recent }
    if (recent.length : Int) ≥ b.threshold then
      if b.state = .closed ∨ b.state = .half_open then
        { b with state := .opened, openedAt := now, halfOpenProbeStarted := false }
      else b
    else b

def recordSuccess (b : CircuitBreaker) : CircuitBreaker :=
  if b.state = .half_open then
    { b with state := .closed, concurrency429s := [], halfOpenProbeStarted := false }
  else b

def resetHalfOpenProbe (b : CircuitBreaker) (now : Int) : CircuitBreaker :=
  if b.state = .half_open ∧ b.halfOpenProbeStarted then
    { b with halfOpenProbeStarted := false, state := .opened, openedAt := now }
  else b

/-- A probe is in flight: later callers are turned away. -/
def probing (b : CircuitBreaker) : Prop := b.state = .half_open ∧ b.halfOpenProbeStarted = true

instance (b : CircuitBreaker) : Decidable b.probing :=
  inferInstanceAs (Decidable (_ ∧ _))

/-! ## What each method can do -/

/-- `maybeHalfOpen` leaves the breaker alone, or starts the probe of this
opening and says so to its caller. -/
theorem maybeHalfOpen_cases (b : CircuitBreaker) (now : Int) :
    (b.maybeHalfOpen now).2 = b ∧
        ((b.maybeHalfOpen now).1 = .half_open → b.state = .half_open ∧
          b.halfOpenProbeStarted = false) ∨
      b.state = .opened ∧ b.halfOpenProbeStarted = false ∧
        b.maybeHalfOpen now =
          (.half_open, { b with halfOpenProbeStarted := true, state := .half_open }) := by
  unfold maybeHalfOpen
  split
  · rename_i hs
    split
    · exact .inl ⟨rfl, by simp⟩
    · rename_i hp
      split
      · exact .inr ⟨hs, by simpa using hp, rfl⟩
      · exact .inl ⟨rfl, by simp⟩
  · rename_i hs
    split
    · exact .inl ⟨rfl, by simp⟩
    · rename_i hp
      exact .inl ⟨rfl, fun _ => ⟨hs, by simpa using hp⟩⟩
  · exact .inl ⟨rfl, by simp⟩

/-- A caller is told "closed" by a closed breaker only. -/
theorem maybeHalfOpen_closed {b : CircuitBreaker} {now : Int}
    (h : (b.maybeHalfOpen now).1 = .closed) : b.state = .closed := by
  unfold maybeHalfOpen at h
  split at h
  · split at h
    · simp at h
    · split at h <;> simp at h
  · split at h <;> simp at h
  · assumption

/-- A caller that is let through leaves a breaker that is not open. -/
theorem maybeHalfOpen_state {b : CircuitBreaker} {now : Int}
    (h : (b.maybeHalfOpen now).1 ≠ .opened) :
    (b.maybeHalfOpen now).2.state = (b.maybeHalfOpen now).1 := by
  unfold maybeHalfOpen at h ⊢
  split
  · split
    · simp_all
    · split
      · rfl
      · simp_all
  · split <;> simp_all
  · assumption

/-- While a probe is in flight every caller sees "open". -/
theorem maybeHalfOpen_of_probing {b : CircuitBreaker} (now : Int) (h : b.probing) :
    b.maybeHalfOpen now = (.opened, b) := by
  simp [maybeHalfOpen, h.1, h.2]

/-- `record429` keeps the state and the probe flag, or opens the breaker. -/
theorem record429_cases (b : CircuitBreaker) (type : Type429) (now : Int) :
    ((b.record429 type now).state = b.state ∧
        (b.record429 type now).halfOpenProbeStarted = b.halfOpenProbeStarted) ∨
      b.state ≠ .opened ∧ (b.record429 type now).state = .opened ∧
        (b.record429 type now).halfOpenProbeStarted = false := by
  simp only [record429]
  split
  · exact .inl ⟨rfl, rfl⟩
  · split
    · split
      · rename_i h
        refine .inr ⟨?_, rfl, rfl⟩
        rcases h with h | h <;> simp [h]
      · exact .inl ⟨rfl, rfl⟩
    · exact .inl ⟨rfl, rfl⟩

/-- `recordSuccess` leaves the breaker alone, or closes a half-open one. -/
theorem recordSuccess_cases (b : CircuitBreaker) :
    b.recordSuccess = b ∧ b.state ≠ .half_open ∨
      b.state = .half_open ∧ b.recordSuccess.state = .closed ∧
        b.recordSuccess.halfOpenProbeStarted = false := by
  unfold recordSuccess
  split
  · exact .inr ⟨‹_›, rfl, rfl⟩
  · exact .inl ⟨rfl, ‹_›⟩

/-- `resetHalfOpenProbe` leaves the breaker alone, or re-opens it. -/
theorem resetHalfOpenProbe_cases (b : CircuitBreaker) (now : Int) :
    b.resetHalfOpenProbe now = b ∧ ¬ b.probing ∨
      b.probing ∧ (b.resetHalfOpenProbe now).state = .opened ∧
        (b.resetHalfOpenProbe now).halfOpenProbeStarted = false := by
  unfold resetHalfOpenProbe
  split
  · exact .inr ⟨‹_›, rfl, rfl⟩
  · exact .inl ⟨rfl, ‹_›⟩

/-- After a reset no probe is in flight. -/
theorem not_probing_resetHalfOpenProbe (b : CircuitBreaker) (now : Int) :
    ¬ (b.resetHalfOpenProbe now).probing := by
  rcases resetHalfOpenProbe_cases b now with ⟨h, hp⟩ | ⟨_, h, _⟩
  · rwa [h]
  · simp [probing, h]

@[simp] theorem reconfigure_state (b : CircuitBreaker) (t w c : Option Int) (now : Int) :
    (b.reconfigure t w c now).state = b.state := rfl

@[simp] theorem reconfigure_halfOpenProbeStarted (b : CircuitBreaker) (t w c : Option Int)
    (now : Int) : (b.reconfigure t w c now).halfOpenProbeStarted = b.halfOpenProbeStarted := rfl

end CircuitBreaker

end UmansGate.Limiter
