/-
UmansGate.Limiter.Semaphore — the resizable semaphore of the gate
(`src/limiter/gate.ts`, class `Semaphore`).

Methods are functions on the state record. A method that can be left by
an exception of an `onAcquire` callback returns a flag next to the state
the exception leaves behind. `permits` holds the closures handed out by
`grant` and `log` the events of the run; neither is a field of the
source's class. `assertInvariants` only logs and is left out; the
listeners of `onEmitStats` read the gate and do not change it.
-/
import UmansGate.Limiter.Types

namespace UmansGate.Limiter

open UmansGate.Lib

structure Semaphore where
  active : Int
  limit : Num Int
  hardCap : Int
  softLimit : Int
  releaseCooldownMs : Int
  maxQueueDepth : Int
  queueTimeoutMs : Int
  waiters : List Waiter
  reservations : Dict String Int
  activeByIntention : Dict String Int
  queuedByIntention : Dict String Int
  pendingReleases : List Release
  releaseTimer : Option Int
  shutdownRequested : Bool
  permits : Dict Nat Permit
  log : List Event

namespace Semaphore

/-- `Math.round(src[key] * SCALE)` for every key. -/
def scaleIntentions (src : Dict String ℚ) : Dict String Int :=
  src.keys.foldl (fun out key => out.set key (roundNum (src.getD key 0 * SCALE))) []

def new (opts : ConcurrencyGateOptions) : Semaphore :=
  let hardCap := max 1 (floorNum opts.hardCap) * SCALE
  let softLimit := max 1 (floorNum opts.softLimit) * SCALE
  let reservations := scaleIntentions (opts.intentions.getD [("main", 1)])
  { active := 0
    limit := .fin (max SCALE (min softLimit hardCap))
    hardCap := hardCap
    softLimit := softLimit
    releaseCooldownMs := opts.releaseCooldownMs
    maxQueueDepth := opts.maxQueueDepth
    queueTimeoutMs := opts.queueTimeoutMs
    waiters := []
    reservations := reservations
    activeByIntention := reservations.mapVals fun _ => 0
    queuedByIntention := reservations.mapVals fun _ => 0
    pendingReleases := []
    releaseTimer := none
    shutdownRequested := false
    permits := []
    log := [] }

/-- Give every listed key a counter, keeping the counters that exist. -/
def ensureKeys (counters : Dict String Int) (keys : List String) : Dict String Int :=
  keys.foldl (fun d key => if (d.get? key).isNone then d.set key 0 else d) counters

def reconfigure (s : Semaphore) (opts : ReconfigureOptions) : Semaphore :=
  let s :=
    { s with
      releaseCooldownMs := opts.releaseCooldownMs.getD s.releaseCooldownMs
      maxQueueDepth := opts.maxQueueDepth.getD s.maxQueueDepth
      queueTimeoutMs := opts.queueTimeoutMs.getD s.queueTimeoutMs }
  match opts.intentions with
  | none => s
  | some intentions =>
    let reservations := scaleIntentions intentions
    { s with
      reservations := reservations
      activeByIntention := ensureKeys s.activeByIntention reservations.keys
      queuedByIntention := ensureKeys s.queuedByIntention reservations.keys }

def note (s : Semaphore) (e : Event) : Semaphore := { s with log := e :: s.log }

def emitStats (s : Semaphore) : Semaphore := s.note (.stats s.active)

/-- Record that `Math.max(0, x)` is about to change a counter. -/
def noteClamp (s : Semaphore) (x : Int) : Semaphore :=
  if x < 0 then s.note .clamped else s

theorem noteClamp_eq (s : Semaphore) (x : Int) :
    s.noteClamp x = { s with log := if x < 0 then .clamped :: s.log else s.log } := by
  unfold noteClamp
  split <;> rfl

/-! ## Admission -/

section Admission

variable [ShareRounding]

def effectiveReservations (s : Semaphore) : Dict String (Num Int) :=
  let keys := s.reservations.keys
  let sum := keys.foldl (fun acc k => acc + s.reservations.getD k 0) 0
  if Num.le (.fin sum) s.limit then
    keys.foldl (fun out k => out.set k (Num.fin (s.reservations.getD k 0))) []
  else
    (keys.foldl (fun (acc : Dict String (Num Int) × Num Int) k =>
        let scaled := s.limit.map (ShareRounding.floorShare (s.reservations.getD k 0) sum)
        let v := Num.max (.fin 0) (Num.min scaled acc.2)
        (acc.1.set k v, acc.2.sub v))
      ([], s.limit)).1

def capacity (s : Semaphore) (intention : String) (effRes : Dict String (Num Int)) : Num Int :=
  s.limit.sub
    (effRes.keys.foldl (fun reserved k =>
        if k = intention then reserved
        else
          let active := s.activeByIntention.getD k 0
          let queued := s.queuedByIntention.getD k 0
          -- no demand: the reservation is borrowable
          if active + queued = 0 then reserved
          else reserved.add (Num.max (.fin 0) ((effRes.getD k (.fin 0)).sub (.fin active))))
      (.fin 0))

def overSubscribed (s : Semaphore) (effRes : Dict String (Num Int)) : Bool :=
  s.reservations.keys.any fun k =>
    Num.lt (effRes.getD k (.fin 0)) (.fin (s.reservations.getD k 0))

def canGrant (s : Semaphore) (intention : String) (weight : Int) : Bool :=
  let effRes := s.effectiveReservations
  let reserved := effRes.getD intention (.fin 0)
  if Num.lt s.limit (.fin (s.active + weight)) then false
  else if Num.le (.fin (s.activeByIntention.getD intention 0 + weight)) reserved then true
  else if s.overSubscribed effRes then Num.le (.fin (s.active + weight)) s.limit
  else Num.le (.fin (s.active + weight)) (s.capacity intention effRes)

end Admission

/-! ## Granting and queueing -/

/-- `resolve(permit)`. A promise settles once: a request that has its permit
keeps it, and nobody gets hold of the new one. -/
def resolvePermit (permits : Dict Nat Permit) (r : Request) : Dict Nat Permit :=
  if (permits.get? r.id).isSome then permits
  else permits.set r.id ⟨r.weight, r.intention, r.wasProbe, .held⟩

theorem resolvePermit_of_none {permits : Dict Nat Permit} {r : Request}
    (h : permits.get? r.id = none) :
    resolvePermit permits r = permits.set r.id ⟨r.weight, r.intention, r.wasProbe, .held⟩ := by
  simp [resolvePermit, h]

/-- A permit that was there stays, one that is new is the request's. -/
theorem get?_resolvePermit (permits : Dict Nat Permit) (r : Request) (id : Nat) :
    (resolvePermit permits r).get? id =
      (permits.get? id).or
        (if r.id = id then some ⟨r.weight, r.intention, r.wasProbe, .held⟩ else none) := by
  unfold resolvePermit
  split
  · rename_i hsome
    obtain ⟨p, hp⟩ := Option.isSome_iff_exists.mp hsome
    by_cases h : r.id = id
    · subst h
      simp [hp]
    · simp [h]
  · rename_i hnone
    rw [Dict.get?_set]
    by_cases h : r.id = id
    · subst h
      rw [Option.not_isSome_iff_eq_none.mp hnone]
      simp
    · simp [h]

theorem isSome_resolvePermit {permits : Dict Nat Permit} {r : Request} {id : Nat}
    (h : ((resolvePermit permits r).get? id).isSome) : r.id = id ∨ (permits.get? id).isSome := by
  rw [get?_resolvePermit] at h
  by_cases hid : r.id = id
  · exact .inl hid
  · rw [if_neg hid, Option.or_none] at h
    exact .inr h

/-- Count a grant, run `onAcquire`, hand out the permit. The flag says
that `onAcquire` threw: the counts stay raised and no permit exists. -/
def grant (s : Semaphore) (r : Request) : Semaphore × Bool :=
  let s :=
    { s with
      active := s.active + r.weight
      activeByIntention :=
        s.activeByIntention.set r.intention (s.activeByIntention.getD r.intention 0 + r.weight) }
  if r.onAcquireThrows then (s, true)
  else
    let s := s.emitStats
    ({ s with
        permits := resolvePermit s.permits r
        log := .granted ⟨r.id, r.weight, s.active, s.limit, s.hardCap⟩ :: s.log }, false)

/-- `none` when the queue is full. -/
def enqueue (s : Semaphore) (w : Waiter) : Option Semaphore :=
  if (s.waiters.length : Int) ≥ s.maxQueueDepth then none
  else
    some
      { s with
        waiters := s.waiters ++ [w]
        queuedByIntention :=
          s.queuedByIntention.set w.intention (s.queuedByIntention.getD w.intention 0 + 1)
        log := .enqueued w.id :: s.log }

/-- Otherwise the waiter is at the end of the queue. -/
theorem enqueue_eq {s s' : Semaphore} {w : Waiter} (h : s.enqueue w = some s') :
    (s.waiters.length : Int) < s.maxQueueDepth ∧
      s' = { s with
        waiters := s.waiters ++ [w]
        queuedByIntention :=
          s.queuedByIntention.set w.intention (s.queuedByIntention.getD w.intention 0 + 1)
        log := .enqueued w.id :: s.log } := by
  unfold enqueue at h
  split at h
  · exact absurd h (by simp)
  · exact ⟨by omega, (Option.some.inj h).symm⟩

/-- `queuedByIntention[k] = Math.max(0, queuedByIntention[k] - 1)`. -/
def decQueued (s : Semaphore) (k : String) : Semaphore :=
  let x := s.queuedByIntention.getD k 0 - 1
  { s.noteClamp x with queuedByIntention := s.queuedByIntention.set k (max 0 x) }

theorem grant_snd (s : Semaphore) (r : Request) : (s.grant r).2 = r.onAcquireThrows := by
  unfold grant
  cases r.onAcquireThrows <;> rfl

/-- A grant raises the counters whether or not `onAcquire` throws. -/
theorem grant_fst (s : Semaphore) (r : Request) :
    (s.grant r).1 =
      { s with
        active := s.active + r.weight
        activeByIntention :=
          s.activeByIntention.set r.intention (s.activeByIntention.getD r.intention 0 + r.weight)
        permits :=
          if r.onAcquireThrows then s.permits else resolvePermit s.permits r
        log :=
          if r.onAcquireThrows then s.log
          else
            .granted ⟨r.id, r.weight, s.active + r.weight, s.limit, s.hardCap⟩ ::
              .stats (s.active + r.weight) :: s.log } := by
  unfold grant
  cases r.onAcquireThrows <;> rfl

theorem decQueued_eq (s : Semaphore) (k : String) :
    s.decQueued k =
      { s with
        queuedByIntention := s.queuedByIntention.set k (max 0 (s.queuedByIntention.getD k 0 - 1))
        log :=
          if s.queuedByIntention.getD k 0 - 1 < 0 then .clamped :: s.log else s.log } := by
  simp only [decQueued, noteClamp_eq]

/-- `none` when the waiter is not in the queue. -/
def removeWaiter (s : Semaphore) (w : Waiter) : Option Semaphore :=
  if w ∈ s.waiters then
    some ({ s with waiters := s.waiters.erase w }.decQueued w.intention).emitStats
  else none

section Drain

variable [ShareRounding]

/-- The loop of `drainWaiters`: `remaining` collects the waiters that stay,
`visited` is the part of `this.waiters` already walked over (with the
timers of granted waiters cleared), which is what an exception leaves. -/
def drainLoop (s : Semaphore) (remaining visited : List Waiter) : List Waiter → Semaphore × Bool
  | [] => ({ s with waiters := remaining }, false)
  | next :: rest =>
    if s.canGrant next.intention next.weight then
      let next' := { next with timeout := none }
      match (s.decQueued next.intention).grant next.toRequest with
      | (s, false) => drainLoop s remaining (visited ++ [next']) rest
      | (s, true) => ({ s with waiters := visited ++ next' :: rest }, true)
    else drainLoop s (remaining ++ [next]) (visited ++ [next]) rest

def drainWaiters (s : Semaphore) : Semaphore × Bool :=
  if s.waiters = [] then (s, false) else s.drainLoop [] [] s.waiters

end Drain

/-! ## Releasing -/

/-- `releasePermit`: the release is batched until the cooldown timer. -/
def releasePermit (s : Semaphore) (now weight : Int) (intention : String) : Semaphore :=
  if s.shutdownRequested then s
  else
    let s := { s with pendingReleases := s.pendingReleases ++ [⟨weight, intention⟩] }
    if s.releaseTimer = none then
      { s with releaseTimer := some (now + setTimeoutDelay s.releaseCooldownMs) }
    else s

/-- The `release` closure of a permit: only its first call has an effect. -/
def release (s : Semaphore) (now : Int) (id : Nat) : Semaphore :=
  match s.permits.get? id with
  | none => s
  | some p =>
    if p.stage = .held then
      { s with permits := s.permits.set id { p with stage := .cooling } }.releasePermit now
        p.weight p.intention
    else s

/-- A call of `release` has no effect, or it is the first one for a permit
in use. -/
theorem release_cases (s : Semaphore) (now : Int) (id : Nat) :
    s.release now id = s ∨
      ∃ p timer, s.permits.get? id = some p ∧ p.stage = .held ∧
        s.release now id =
          { s with
            permits := s.permits.set id { p with stage := .cooling }
            pendingReleases :=
              if s.shutdownRequested then s.pendingReleases
              else s.pendingReleases ++ [⟨p.weight, p.intention⟩]
            releaseTimer := timer } := by
  unfold release
  split
  · exact .inl rfl
  · rename_i p hp
    split
    · rename_i hheld
      refine .inr ⟨p, ?_⟩
      simp only [releasePermit]
      cases s.shutdownRequested with
      | true => exact ⟨s.releaseTimer, hp, hheld, rfl⟩
      | false =>
        simp only [Bool.false_eq_true, if_false]
        split
        · exact ⟨some (now + setTimeoutDelay s.releaseCooldownMs), hp, hheld, rfl⟩
        · exact ⟨s.releaseTimer, hp, hheld, rfl⟩
    · exact .inl rfl

/-- One turn of the release loop. -/
def applyRelease (s : Semaphore) (rel : Release) : Semaphore :=
  let active := s.active - rel.weight
  let byIntention := s.activeByIntention.getD rel.intention 0 - rel.weight
  { (s.noteClamp active).noteClamp byIntention with
    active := max 0 active
    activeByIntention := s.activeByIntention.set rel.intention (max 0 byIntention) }

/-- The release loop lowers counters and nothing else. -/
theorem foldl_applyRelease_eq (rels : List Release) (s : Semaphore) :
    ∃ active byIntention es, (∀ e ∈ es, e = .clamped) ∧
      rels.foldl applyRelease s =
        { s with active := active, activeByIntention := byIntention, log := es ++ s.log } := by
  induction rels generalizing s with
  | nil => exact ⟨s.active, s.activeByIntention, [], by simp, rfl⟩
  | cons rel rels ih =>
    obtain ⟨a, d, es, hes, h⟩ := ih (s.applyRelease rel)
    have hlog : ∃ es', (∀ e ∈ es', e = Event.clamped) ∧ (s.applyRelease rel).log = es' ++ s.log := by
      simp only [applyRelease, noteClamp_eq]
      split <;> split
      · exact ⟨[.clamped, .clamped], by simp, rfl⟩
      · exact ⟨[.clamped], by simp, rfl⟩
      · exact ⟨[.clamped], by simp, rfl⟩
      · exact ⟨[], by simp, rfl⟩
    obtain ⟨es', hes', hlog⟩ := hlog
    refine ⟨a, d, es ++ es', ?_, ?_⟩
    · intro e he
      exact (List.mem_append.mp he).elim (hes e) (hes' e)
    · rw [List.foldl_cons, h, hlog, List.append_assoc]
      simp only [applyRelease, noteClamp_eq]

/-- The release loop of the cooldown timer over the whole batch. -/
def applyReleases (s : Semaphore) : Semaphore :=
  s.pendingReleases.foldl applyRelease
    { s with
      releaseTimer := none
      pendingReleases := []
      permits := s.permits.mapVals Permit.applied }

theorem applyReleases_eq (s : Semaphore) :
    ∃ active byIntention es, (∀ e ∈ es, e = .clamped) ∧
      s.applyReleases =
        { s with
          active := active
          activeByIntention := byIntention
          log := es ++ s.log
          releaseTimer := none
          pendingReleases := []
          permits := s.permits.mapVals Permit.applied } := by
  obtain ⟨a, d, es, hes, h⟩ := foldl_applyRelease_eq s.pendingReleases
    { s with
      releaseTimer := none
      pendingReleases := []
      permits := s.permits.mapVals Permit.applied }
  exact ⟨a, d, es, hes, h⟩

section Timer

variable [ShareRounding]

/-- The callback of the release-cooldown timer. -/
def onReleaseTimer (s : Semaphore) : Semaphore :=
  match s.applyReleases.drainWaiters with
  | (s, true) => s
  | (s, false) => s.emitStats

/-! ## Limits -/

/-- The limit `resize` computes: NaN stays NaN. -/
def clampLimit (s : Semaphore) (newLimit : Num ℚ) : Num Int :=
  let scaled := newLimit.map fun q => roundNum (q * SCALE)
  Num.max (.fin SCALE) (Num.min scaled (.fin s.hardCap))

/-- The flag is the return value: `false` also stands for an exception,
after which the caller does not emit. -/
def resize (s : Semaphore) (newLimit : Num ℚ) : Semaphore × Bool :=
  let clamped := s.clampLimit newLimit
  -- `===`: NaN differs from itself
  if clamped = s.limit ∧ clamped ≠ .nan then (s, false)
  else
    match { s with limit := clamped }.drainWaiters with
    | (s, threw) => (s, !threw)

/-- The cap `setHardCap` and `setSoftLimit` compute: a non-finite argument
counts as 1. -/
def scaledCap (arg : Num ℚ) : Int :=
  let safe := match arg with
    | .fin q => q
    | _ => 1
  max 1 (floorNum safe) * SCALE

def setHardCap (s : Semaphore) (newHardCap : Num ℚ) : Semaphore × Bool :=
  let cap := scaledCap newHardCap
  if cap = s.hardCap then (s, false)
  else
    let s := { s with hardCap := cap, softLimit := if s.softLimit > cap then cap else s.softLimit }
    if Num.lt (.fin cap) s.limit then
      match { s with limit := .fin cap }.drainWaiters with
      | (s, threw) => (s, !threw)
    else (s, true)

end Timer

def setSoftLimit (s : Semaphore) (newSoftLimit : Num ℚ) : Semaphore × Bool :=
  let v := scaledCap newSoftLimit
  if v = s.softLimit then (s, false) else ({ s with softLimit := v }, true)

def shutdown (s : Semaphore) : Semaphore :=
  let s := s.waiters.foldl
    (fun s w => (s.decQueued w.intention).note (.rejected w.id .shutdown)) s
  { s with
    shutdownRequested := true
    releaseTimer := none
    pendingReleases := []
    waiters := []
    active := 0
    activeByIntention := s.activeByIntention.mapVals fun _ => 0 }

/-- The rejection loop of `shutdown` touches the queue counters only. -/
theorem foldl_rejectShutdown_eq (ws : List Waiter) (s : Semaphore) :
    ∃ queued es, (∀ e ∈ es, e = .clamped ∨ ∃ w ∈ ws, e = .rejected w.id .shutdown) ∧
      ws.foldl (fun s w => (s.decQueued w.intention).note (.rejected w.id .shutdown)) s =
        { s with queuedByIntention := queued, log := es ++ s.log } := by
  induction ws generalizing s with
  | nil => exact ⟨s.queuedByIntention, [], by simp, rfl⟩
  | cons w ws ih =>
    obtain ⟨q, es, hes, h⟩ := ih ((s.decQueued w.intention).note (.rejected w.id .shutdown))
    obtain ⟨es', hes', hlog⟩ : ∃ es', (∀ e ∈ es', e = Event.clamped) ∧
        (s.decQueued w.intention).log = es' ++ s.log := by
      rw [decQueued_eq]
      by_cases hx : s.queuedByIntention.getD w.intention 0 - 1 < 0
      · exact ⟨[.clamped], by simp, by simp [hx]⟩
      · exact ⟨[], by simp, by simp [hx]⟩
    refine ⟨q, es ++ .rejected w.id .shutdown :: es', ?_, ?_⟩
    · intro e he
      simp only [List.mem_append, List.mem_cons] at he
      rcases he with he | rfl | he
      · exact (hes e he).imp_right (.imp fun _ hx => ⟨List.mem_cons_of_mem _ hx.1, hx.2⟩)
      · exact .inr ⟨w, List.mem_cons_self, rfl⟩
      · exact .inl (hes' e he)
    · rw [List.foldl_cons, h]
      simp only [note, hlog, List.append_assoc, List.cons_append]
      rw [decQueued_eq]

theorem shutdown_eq (s : Semaphore) :
    ∃ queued es, (∀ e ∈ es, e = .clamped ∨ ∃ w ∈ s.waiters, e = .rejected w.id .shutdown) ∧
      s.shutdown =
        { s with
          queuedByIntention := queued
          log := es ++ s.log
          shutdownRequested := true
          releaseTimer := none
          pendingReleases := []
          waiters := []
          active := 0
          activeByIntention := s.activeByIntention.mapVals fun _ => 0 } := by
  obtain ⟨q, es, hes, h⟩ := foldl_rejectShutdown_eq s.waiters s
  refine ⟨q, es, hes, ?_⟩
  rw [shutdown, h]

end Semaphore

end UmansGate.Limiter
