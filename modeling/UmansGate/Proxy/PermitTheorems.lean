/-
UmansGate.Proxy.PermitTheorems — the permit of a request and its upstream
fetches.

The watchdog is armed once, at the acquisition, while every attempt gets a
timeout of its own. The permit covers every fetch in flight as long as no
fetch outlasts the watchdog, no attempt starts behind it, and nothing
throws while a fetch is in flight (`permit_covers_fetches`). A second
attempt can outlast it (`retry_outlives_permit`).
-/
import UmansGate.Proxy.Outcomes

namespace UmansGate.Proxy

open UmansGate.Lib

/-- While a fetch is in flight the permit is held. -/
def Covered (s : ProxyContext) : Prop :=
  ∀ f ∈ s.fetches, f.live = true → s.permit = true ∧ s.permitReleased = false

/-- What a step must meet: a fetch starts before the watchdog has fired, and
neither the watchdog fires nor an exception strikes while a fetch is in
flight. -/
def KeepsCover (deps : ProxyDeps) (s : ProxyContext) : Step → Prop
  | .attempt _ => s.aborted = true ∨ s.watchdogFired = false
  | .errorBody overloaded rewritten =>
    (overloaded && deps.rewriteEligible && rewritten) = true →
      s.aborted = true ∨ s.watchdogFired = false
  | .watchdogTimeout => s.watchdogTimer.any s.dueFirst = true → ∀ f ∈ s.fetches, f.live = false
  | .auditThrows => ∀ f ∈ s.fetches, f.live = false
  | .throws => ∀ f ∈ s.fetches, f.live = false
  | _ => True

instance (deps : ProxyDeps) (s : ProxyContext) : ∀ e : Step, Decidable (KeepsCover deps s e)
  | .attempt _ => inferInstanceAs (Decidable (_ ∨ _))
  | .errorBody _ _ => inferInstanceAs (Decidable (_ → _ ∨ _))
  | .watchdogTimeout => inferInstanceAs (Decidable (_ → ∀ f ∈ s.fetches, _))
  | .auditThrows | .throws => inferInstanceAs (Decidable (∀ f ∈ s.fetches, _))
  | .tick _ | .reload _ | .clientAbort | .rateLimited _ | .gateRejects _ | .acquired
  | .fetchResolves _ | .fetchRejects _ _ | .errorBodyRejects | .firstChunk _ | .readRejects _ _
  | .status _ | .ttftTimeout | .cooldownOver | .upstreamTimeout _ | .bodyEnd | .bodyError
  | .cancel | .flush => .isTrue trivial

instance (s : ProxyContext) : Decidable (Covered s) := inferInstanceAs (Decidable (∀ _ ∈ _, _))

/-- The fetch the phase waits for, or whose body it reads. -/
def Phase.Awaits : Phase → ℕ → Prop
  | .fetching id, i => i = id
  | .escalating id, i => i = id
  | .errorBody id _, i => i = id
  | .rewriting id _ _, i => i = id
  | .firstChunk source _, i => source = .fetched i
  | .streaming source _ stream, i => stream = .opened ∧ source = .fetched i
  | _, _ => False

/-- `forwardUpstream` runs and has returned no response. -/
def Phase.Running : Phase → Prop
  | .arriving => False
  | .streaming _ _ _ => False
  | .returned => False
  | _ => True

/-- Only fetches with these numbers are in flight. -/
def LiveOnly (fetches : List Fetch) (p : ℕ → Prop) : Prop :=
  ∀ id f, fetches[id]? = some f → f.live = true → p id

def Quiet (fetches : List Fetch) : Prop := LiveOnly fetches fun _ => False

/-- Behind the abort of the request every signal has fired. -/
def Signals (s : ProxyContext) : Prop :=
  s.aborted = true → ∀ f ∈ s.fetches, f.fired = true

/-- Only the watchdog takes the permit of a request that has no response. -/
def Kept (s : ProxyContext) : Prop :=
  s.permit = true ∧ (s.watchdogFired = false → s.permitReleased = false)

/-- The invariant of the runs that keep the cover. -/
structure Held (s : ProxyContext) : Prop where
  awaited : LiveOnly s.fetches s.phase.Awaits
  covered : Covered s
  kept : s.phase.Running → Kept s
  signals : Signals s
  arriving : s.phase = .arriving → s.permit = false ∧ s.permitReleased = false

/-! ## Fetches -/

section

variable {fetches : List Fetch} {f : Fetch} {id : ℕ} {p : ℕ → Prop}

theorem Fetch.not_live_of_fired (h : f.fired = true) : f.live = false := by
  simp [Fetch.live, h]

theorem Fetch.fired_eq_false (h : f.live = true) : f.fired = false := by
  cases hf : f.fired with
  | false => rfl
  | true => exact absurd h (by simp [Fetch.live, hf])

theorem LiveOnly.mono {q : ℕ → Prop} (h : LiveOnly fetches p) (hpq : ∀ i, p i → q i) :
    LiveOnly fetches q :=
  fun i f hf hlive => hpq i (h i f hf hlive)

theorem Quiet.of_forall (h : ∀ f ∈ fetches, f.live = false) : Quiet fetches := by
  intro i f hf hlive
  rw [h f (List.mem_of_getElem? hf)] at hlive
  exact Bool.false_ne_true hlive

theorem Quiet.not_live (h : Quiet fetches) (hf : f ∈ fetches) : f.live = false := by
  obtain ⟨i, hi⟩ := List.getElem?_of_mem hf
  cases hlive : f.live with
  | false => rfl
  | true => exact absurd (h i f hi hlive) id

/-- The fetch that is over was the only one in flight. -/
theorem quiet_modify (h : LiveOnly fetches (· = id)) :
    Quiet (fetches.modify id fun f => { f with ended := true }) := by
  intro i f hf hlive
  rw [List.getElem?_modify] at hf
  obtain ⟨g, hg, rfl⟩ := Option.map_eq_some_iff.mp hf
  by_cases hid : id = i
  · exact absurd hlive (by simp [hid, Fetch.live])
  · rw [if_neg hid] at hlive
    exact hid (h i g hg hlive).symm

theorem fired_modify (h : ∀ f ∈ fetches, f.fired = true) :
    ∀ f ∈ fetches.modify id fun f => { f with ended := true }, f.fired = true := by
  intro f hf
  obtain ⟨i, hi⟩ := List.getElem?_of_mem hf
  rw [List.getElem?_modify] at hi
  obtain ⟨g, hg, rfl⟩ := Option.map_eq_some_iff.mp hi
  have hg' := h g (List.mem_of_getElem? hg)
  split
  · exact hg'
  · exact hg'

end

namespace ProxyContext

variable {deps : ProxyDeps} {s t : ProxyContext} {source : Source} {upstream : Upstream}

theorem releasePermit_eq (s : ProxyContext) : ∃ timer released releases, s.releasePermit =
    { s with watchdogTimer := timer, permitReleased := released, releases := releases } := by
  unfold releasePermit
  split
  · simp only []
    split
    · exact ⟨_, _, _, rfl⟩
    · exact ⟨_, _, _, rfl⟩
  · exact ⟨_, _, _, rfl⟩

theorem flushCapture_eq (s : ProxyContext) (upstream : Upstream) : ∃ flushed updates,
    s.flushCapture upstream = { s with flushed := flushed, updates := updates } := by
  unfold flushCapture
  split
  · exact ⟨_, _, rfl⟩
  · exact ⟨_, _, rfl⟩

theorem flushRelease_eq (s : ProxyContext) (upstream : Upstream) :
    ∃ timer released releases flushed updates, (s.flushCapture upstream).releasePermit =
      { s with
        watchdogTimer := timer
        permitReleased := released
        releases := releases
        flushed := flushed
        updates := updates } := by
  obtain ⟨flushed, updates, hflush⟩ := flushCapture_eq s upstream
  obtain ⟨timer, released, releases, hrelease⟩ := releasePermit_eq (s.flushCapture upstream)
  rw [hrelease, hflush]
  exact ⟨_, _, _, _, _, rfl⟩

theorem onAbort_eq (s : ProxyContext) (upstream : Upstream) :
    ∃ timer released releases flushed updates, s.onAbort upstream =
      { s with
        watchdogTimer := timer
        permitReleased := released
        releases := releases
        flushed := flushed
        updates := updates } := by
  unfold onAbort
  split
  · exact ⟨_, _, _, _, _, rfl⟩
  · exact flushRelease_eq s upstream

theorem listenAbort_eq (s : ProxyContext) (source : Source) (upstream : Upstream) :
    ∃ timer released releases flushed updates, s.listenAbort source upstream =
      { s with
        watchdogTimer := timer
        permitReleased := released
        releases := releases
        flushed := flushed
        updates := updates } := by
  have haborted : ∃ timer released releases flushed updates,
      (if s.aborted then (s.flushCapture upstream).releasePermit else s) =
        { s with
          watchdogTimer := timer
          permitReleased := released
          releases := releases
          flushed := flushed
          updates := updates } := by
    split
    · exact flushRelease_eq s upstream
    · exact ⟨_, _, _, _, _, rfl⟩
  obtain ⟨_, _, _, _, _, heq⟩ := haborted
  unfold listenAbort
  simp only [heq]
  split
  · obtain ⟨_, _, _, _, _, habort⟩ := onAbort_eq
      (if s.aborted then (s.flushCapture upstream).releasePermit else s) upstream
    rw [heq] at habort
    rw [habort]
    exact ⟨_, _, _, _, _, rfl⟩
  · exact ⟨_, _, _, _, _, rfl⟩

theorem respondWith_eq (s : ProxyContext) (status : ℕ) (reason : Option GateReason) :
    ∃ timer released releases updates, s.respondWith status reason =
      { s with
        watchdogTimer := timer
        permitReleased := released
        releases := releases
        updates := updates
        phase := .returned } := by
  unfold respondWith finish
  split
  · exact ⟨_, _, _, _, rfl⟩
  · obtain ⟨timer, released, releases, heq⟩ := releasePermit_eq (s.queueUpdate status reason)
    rw [heq]
    exact ⟨_, _, _, _, rfl⟩

end ProxyContext

/-! ## What the functions keep of the cover -/

section

open ProxyContext

variable {deps : ProxyDeps} {s t : ProxyContext} {source : Source} {upstream : Upstream}

theorem Held.of_quiet (hq : Quiet s.fetches) (hk : s.phase.Running → Kept s) (hs : Signals s)
    (ha : s.phase = .arriving → s.permit = false ∧ s.permitReleased = false) : Held s where
  awaited := hq.mono fun _ h => h.elim
  covered := fun f hf hlive => absurd hlive (by simp [hq.not_live hf])
  kept := hk
  signals := hs
  arriving := ha

theorem Kept.of_keeps (h : Keeps s t) (hk : Kept s) : Kept t := by
  rw [Kept, h.permit, h.watchdogFired, h.permitReleased]
  exact hk

theorem Signals.of_keeps (h : Keeps s t) (hs : Signals s) : Signals t := by
  rw [Signals, h.aborted, h.fetches]
  exact hs

theorem Covered.of_keeps (h : Keeps s t) (hc : Covered s) : Covered t := by
  rw [Covered, h.permit, h.permitReleased, h.fetches]
  exact hc

theorem held_respondWith (hq : Quiet s.fetches) (hs : Signals s) (status : ℕ)
    (reason : Option GateReason) : Held (s.respondWith status reason) := by
  obtain ⟨timer, released, releases, updates, heq⟩ := respondWith_eq s status reason
  rw [heq]
  exact Held.of_quiet hq (fun h => h.elim) hs fun h => absurd h (by simp)

theorem held_settles (hq : Quiet s.fetches) (hk : Kept s) (hs : Signals s) (h : Settles s t) :
    Held t := by
  cases h with
  | waits keeps resting =>
    have hphase : t.phase ≠ .arriving := by
      rcases resting with h | ⟨due, h⟩
      · simp [h]
      · simp [h]
    exact Held.of_quiet (keeps.fetches ▸ hq) (fun _ => hk.of_keeps keeps) (hs.of_keeps keeps)
      fun h => absurd h hphase
  | returns keeps status reason =>
    exact held_respondWith (keeps.fetches ▸ hq) (hs.of_keeps keeps) status reason

/-- No listener runs when neither signal has fired. -/
theorem listenAbort_of_not_fired (s : ProxyContext) (source : Source) (upstream : Upstream)
    (ha : s.aborted = false) (hf : s.signalFired source.signal = false) :
    s.listenAbort source upstream = s := by
  unfold listenAbort
  simp [ha, hf]

theorem respond_hasBody_eq (hbody : upstream.hasBody = true) :
    s.respond source upstream =
      { { s with
          reports := s.reports ++ s.pendingRecord.toList
          flushCaptureRef := some upstream }.listenAbort source upstream with
        streamingStarted := true, phase := .streaming source upstream .opened } :=
  if_pos hbody

theorem endBody_quiet (h : LiveOnly s.fetches fun i => source = .fetched i) :
    Quiet (s.endBody source).fetches := by
  cases source with
  | fetched id =>
    refine quiet_modify (h.mono fun i hi => ?_)
    cases hi
    rfl
  | errorText signal => exact h.mono fun i hi => absurd hi (by simp)

theorem endBody_signals (hs : Signals s) : Signals (s.endBody source) := by
  cases source with
  | fetched id => exact fun ha => fired_modify (hs ha)
  | errorText signal => exact hs

theorem held_respond (hlive : LiveOnly s.fetches fun i => source = .fetched i)
    (hc : Covered s) (hs : Signals s) : Held (s.respond source upstream) := by
  cases hbody : upstream.hasBody with
  | false =>
    unfold respond
    simp only []
    rw [if_neg (by simp [hbody])]
    refine held_respondWith ?_ ?_ _ _
    · exact endBody_quiet (s := { s with reports := s.reports ++ s.pendingRecord.toList }) hlive
    · exact endBody_signals (s := { s with reports := s.reports ++ s.pendingRecord.toList }) hs
  | true =>
    have hcovered : Covered (s.respond source upstream) := by
      intro f hf hl
      have hf' : f ∈ s.fetches := by
        rw [respond_hasBody_eq hbody] at hf
        obtain ⟨_, _, _, _, _, heq⟩ := listenAbort_eq
          { s with
            reports := s.reports ++ s.pendingRecord.toList
            flushCaptureRef := some upstream } source upstream
        rw [heq] at hf
        exact hf
      obtain ⟨i, hi⟩ := List.getElem?_of_mem hf'
      -- a fetch in flight: neither the request nor its own signal was aborted
      have ha : s.aborted = false := by
        cases ha : s.aborted with
        | false => rfl
        | true => exact absurd (hs ha f hf') (by simp [Fetch.fired_eq_false hl])
      have hfired : s.signalFired source.signal = false := by
        simp [hlive i f hi hl, signalFired, Source.signal, hi, Fetch.fired_eq_false hl]
      have heq := listenAbort_of_not_fired
        { s with
          reports := s.reports ++ s.pendingRecord.toList
          flushCaptureRef := some upstream } source upstream ha hfired
      rw [respond_hasBody_eq hbody, heq]
      exact hc f hf' hl
    rw [respond_hasBody_eq hbody] at hcovered ⊢
    obtain ⟨_, _, _, _, _, heq⟩ := listenAbort_eq
      { s with
        reports := s.reports ++ s.pendingRecord.toList
        flushCaptureRef := some upstream } source upstream
    rw [heq] at hcovered ⊢
    exact ⟨hlive.mono fun i hi => ⟨rfl, hi⟩, hcovered, fun h => h.elim, hs,
      fun h => absurd h (by simp)⟩

theorem held_arrives (hlive : LiveOnly s.fetches fun i => source = .fetched i)
    (hc : Covered s) (hk : Kept s) (hs : Signals s) (h : Arrives source upstream s t) :
    Held t := by
  cases h with
  | waits keeps phase =>
    refine ⟨?_, hc.of_keeps keeps, fun _ => hk.of_keeps keeps, hs.of_keeps keeps,
      fun h => absurd h (by simp [phase])⟩
    rw [keeps.fetches, phase]
    exact hlive
  | responds keeps =>
    exact held_respond (keeps.fetches ▸ hlive) (hc.of_keeps keeps) (hs.of_keeps keeps)

/-- A fetch starts while the permit is held. -/
theorem held_startFetch {p : Phase} {timeout : ℚ} {controller : Option ℕ}
    (hp : p.Awaits s.fetches.length) (hq : Quiet s.fetches) (hk : Kept s) (hs : Signals s)
    (hheld : s.aborted = true ∨ s.watchdogFired = false) :
    Held { s.startFetch timeout controller with phase := p } := by
  have hnew : ∀ f ∈ s.fetches ++ [⟨s.now, s.now + timeout, controller, s.aborted, false⟩],
      f ∈ s.fetches ∨ f = ⟨s.now, s.now + timeout, controller, s.aborted, false⟩ := by
    intro f hf
    rcases List.mem_append.mp hf with hf | hf
    · exact .inl hf
    · exact .inr (List.mem_singleton.mp hf)
  refine ⟨?_, ?_, fun _ => hk, ?_, fun h => ?_⟩
  · intro i f hf hlive
    have hf' : (s.fetches ++ [⟨s.now, s.now + timeout, controller, s.aborted, false⟩])[i]? =
        some f := hf
    rcases Nat.lt_trichotomy i s.fetches.length with hlt | rfl | hgt
    · rw [List.getElem?_append_left hlt] at hf'
      exact (hq i f hf' hlive).elim
    · exact hp
    · rw [List.getElem?_eq_none (by simp; omega)] at hf'
      exact absurd hf' (by simp)
  · intro f hf hlive
    rcases hnew f hf with hf | rfl
    · exact absurd hlive (by simp [hq.not_live hf])
    · refine ⟨hk.1, ?_⟩
      rcases hheld with ha | hw
      · exact absurd hlive (by simp [Fetch.live, ha])
      · exact hk.2 hw
  · intro ha f hf
    rcases hnew f hf with hf | rfl
    · exact hs ha f hf
    · exact ha
  · have hphase : p = .arriving := h
    rw [hphase] at hp
    exact hp.elim

theorem Held.of_keeps (h : Held s) (hk : Keeps s t) (hp : t.phase = s.phase) : Held t := by
  refine ⟨?_, h.covered.of_keeps hk, fun hr => ?_, h.signals.of_keeps hk, fun ha => ?_⟩
  · rw [hk.fetches, hp]
    exact h.awaited
  · exact (h.kept (hp ▸ hr)).of_keeps hk
  · rw [hk.permit, hk.permitReleased]
    exact h.arriving (hp ▸ ha)

/-! ## Signals -/

theorem getElem?_fireSignal {p : ℕ → Fetch → Bool} {i : ℕ} {f : Fetch}
    (h : (s.fireSignal p).fetches[i]? = some f) :
    ∃ g, s.fetches[i]? = some g ∧
      ((p i g = true ∧ f = { g with fired := true }) ∨ p i g = false ∧ f = g) := by
  have h' : (s.fetches.mapIdx fun id f => if p id f then { f with fired := true } else f)[i]? =
      some f := h
  rw [List.getElem?_mapIdx] at h'
  obtain ⟨g, hg, rfl⟩ := Option.map_eq_some_iff.mp h'
  refine ⟨g, hg, ?_⟩
  cases hp : p i g with
  | false => exact .inr ⟨rfl, by simp⟩
  | true => exact .inl ⟨rfl, by simp⟩

theorem liveOnly_fireSignal {p : ℕ → Fetch → Bool} {q : ℕ → Prop} (h : LiveOnly s.fetches q) :
    LiveOnly (s.fireSignal p).fetches q := by
  intro i f hf hlive
  obtain ⟨g, hg, ⟨_, rfl⟩ | ⟨_, rfl⟩⟩ := getElem?_fireSignal hf
  · exact absurd hlive (by simp [Fetch.live])
  · exact h i f hg hlive

/-- Signals fire: the listener of the stream releases the permit only when
the fetch of the stream is one of those aborted. -/
theorem held_abort {p : ℕ → Fetch → Bool} (h : LiveOnly s.fetches s.phase.Awaits)
    (hc : Covered s) (hk : s.phase.Running → Kept s)
    (hs : s.aborted = true → ∀ i f, s.fetches[i]? = some f → f.fired = true ∨ p i f = true)
    (ha : s.phase = .arriving → s.permit = false ∧ s.permitReleased = false) :
    Held (s.abort p) := by
  have hsignals : Signals (s.fireSignal p) := by
    intro haborted f hf
    obtain ⟨i, hi⟩ := List.getElem?_of_mem hf
    obtain ⟨g, hg, ⟨_, rfl⟩ | ⟨hpg, rfl⟩⟩ := getElem?_fireSignal hi
    · rfl
    · rcases hs haborted i f hg with hfired | hpf
      · exact hfired
      · exact absurd (hpg.symm.trans hpf) Bool.false_ne_true
  have hheld : Held (s.fireSignal p) := by
    refine ⟨liveOnly_fireSignal h, ?_, hk, hsignals, ha⟩
    intro f hf hlive
    obtain ⟨i, hi⟩ := List.getElem?_of_mem hf
    obtain ⟨g, hg, ⟨_, rfl⟩ | ⟨_, rfl⟩⟩ := getElem?_fireSignal hi
    · exact absurd hlive (by simp [Fetch.live])
    · exact hc f (List.mem_of_getElem? hg) hlive
  unfold ProxyContext.abort
  simp only []
  split
  · rename_i source upstream stream hphase
    split
    · rename_i hfires
      have hphase' : (s.fireSignal p).phase = .streaming source upstream stream := hphase
      have hquiet : Quiet (s.fireSignal p).fetches := by
        intro i f hf hlive
        have hawaits := hheld.awaited i f hf hlive
        rw [hphase'] at hawaits
        have hfired := hfires.2.2
        rw [signalFired, hawaits.2, Source.signal, hf] at hfired
        exact absurd hlive (by simp [Fetch.not_live_of_fired hfired])
      obtain ⟨_, _, _, _, _, heq⟩ := onAbort_eq (s.fireSignal p) upstream
      rw [heq]
      refine Held.of_quiet hquiet (fun hr => ?_) hsignals fun harr => ?_
      · have hr' : (s.fireSignal p).phase.Running := hr
        rw [hphase'] at hr'
        exact hr'.elim
      · exact absurd (hphase'.symm.trans harr) (by simp)
    · exact hheld
  · exact hheld

/-! ## Steps -/

theorem endFetch_signals {id : ℕ} (h : Signals s) : Signals (s.endFetch id) :=
  fun ha => fired_modify (h ha)

theorem Quiet.liveOnly {fetches : List Fetch} (h : Quiet fetches) (p : ℕ → Prop) :
    LiveOnly fetches p :=
  h.mono fun _ hf => hf.elim

theorem Covered.of_quiet (h : Quiet s.fetches) : Covered s :=
  fun f hf hlive => absurd hlive (by simp [h.not_live hf])

/-- The awaited fetch fails: nothing is in flight. -/
theorem Held.endFetch_quiet {id : ℕ} (h : Held s) (hp : s.phase.Awaits = (· = id)) :
    Quiet (s.endFetch id).fetches :=
  quiet_modify (hp ▸ h.awaited)

/-- Nothing is in flight in a phase that awaits no fetch. -/
theorem Held.quiet (h : Held s) (hp : ∀ i, ¬ s.phase.Awaits i) : Quiet s.fetches :=
  h.awaited.mono hp

theorem held_fetchResolves (h : Held s) (response : Upstream) :
    Held (s.fetchResolves deps response) := by
  have harrive : ∀ id, s.phase.Awaits = (· = id) →
      LiveOnly s.fetches fun i => Source.fetched id = .fetched i := by
    intro id hp
    refine h.awaited.mono fun i hi => ?_
    rw [hp] at hi
    rw [hi]
  unfold fetchResolves
  split
  · rename_i id hphase
    have hk := h.kept (by rw [hphase]; trivial)
    split
    · rcases classify_cases deps s id response with ⟨hkeeps, hp⟩ | harr
      · refine ⟨?_, h.covered.of_keeps hkeeps, fun _ => hk.of_keeps hkeeps,
          h.signals.of_keeps hkeeps, fun ha => absurd ha (by simp [hp])⟩
        rw [hkeeps.fetches, hp]
        have hawaited := h.awaited
        rw [hphase] at hawaited
        exact hawaited
      · exact held_arrives (harrive id (by rw [hphase]; rfl)) h.covered hk h.signals harr
    · exact h
  · rename_i id hphase
    split
    · exact held_arrives (harrive id (by rw [hphase]; rfl)) h.covered
        (h.kept (by rw [hphase]; trivial)) h.signals (upstreamArrived_arrives _ _)
    · exact h
  · rename_i id first upstream hphase
    split
    · exact held_arrives (harrive id (by rw [hphase]; rfl)) h.covered
        (h.kept (by rw [hphase]; trivial)) h.signals (upstreamArrived_arrives _ _)
    · exact h
  · exact h

theorem held_fetchRejects (h : Held s) (err : FetchError) (stats : Option GateStats) :
    Held (s.fetchRejects deps err stats) := by
  unfold fetchRejects
  split
  · rename_i id hphase
    exact held_settles (h.endFetch_quiet (by rw [hphase]; rfl)) (h.kept (by rw [hphase]; trivial))
      (endFetch_signals h.signals) (upstreamFailed_settles _ _ _)
  · rename_i id hphase
    exact held_settles (h.endFetch_quiet (by rw [hphase]; rfl)) (h.kept (by rw [hphase]; trivial))
      (endFetch_signals h.signals) (escalationFailed_settles _)
  · rename_i id first upstream hphase
    have hquiet : Quiet (s.endFetch id).fetches := h.endFetch_quiet (by rw [hphase]; rfl)
    exact held_arrives (hquiet.liveOnly _) (Covered.of_quiet hquiet)
      (h.kept (by rw [hphase]; trivial)) (endFetch_signals h.signals)
      (upstreamArrived_arrives _ _)
  · exact h

theorem held_auditThrows (h : Held s) (hq : Quiet s.fetches) : Held s.auditThrows := by
  unfold auditThrows
  split
  · rename_i id hphase
    split
    · exact held_settles hq (h.kept (by rw [hphase]; trivial)) h.signals
        (escalationFailed_settles _)
    · exact h
  · rename_i id first upstream hphase
    split
    · exact held_arrives (hq.liveOnly _) h.covered (h.kept (by rw [hphase]; trivial)) h.signals
        (upstreamArrived_arrives _ _)
    · exact h
  · exact h

theorem held_errorBody (h : Held s) {overloaded rewritten : Bool}
    (hg : KeepsCover deps s (.errorBody overloaded rewritten)) :
    Held (s.errorBody deps overloaded rewritten) := by
  unfold errorBody
  split
  · rename_i id upstream hphase
    have hquiet : Quiet (s.endFetch id).fetches := h.endFetch_quiet (by rw [hphase]; rfl)
    have hk := h.kept (by rw [hphase]; trivial)
    split
    · rcases rewriteOverloaded_cases deps s id upstream overloaded rewritten
        with ⟨hretry, ⟨timeout, response, heq⟩ | hsettles⟩ | harr
      · rw [heq]
        exact held_startFetch rfl hquiet hk (endFetch_signals h.signals) (hg hretry)
      · exact held_settles hquiet hk (endFetch_signals h.signals) hsettles
      · exact held_arrives (hquiet.liveOnly _) (Covered.of_quiet hquiet) hk
          (endFetch_signals h.signals) harr
    · exact h
  · exact h

theorem held_attempt (h : Held s) (hphase : s.phase = .ready) {rewritten : Bool}
    (hg : KeepsCover deps s (.attempt rewritten)) : Held (s.startAttempt deps rewritten) := by
  have hquiet : Quiet s.fetches := h.quiet (by simp [hphase, Phase.Awaits])
  have hk := h.kept (by rw [hphase]; trivial)
  rcases startAttempt_cases deps s rewritten with
    ⟨t, timeout, controller, hkeeps, heq | heq⟩ | hsettles
  · rw [heq]
    refine held_startFetch rfl (hkeeps.fetches ▸ hquiet) (hk.of_keeps hkeeps)
      (h.signals.of_keeps hkeeps) ?_
    rw [hkeeps.aborted, hkeeps.watchdogFired]
    exact hg
  · rw [heq]
    refine held_startFetch rfl (hkeeps.fetches ▸ hquiet) (hk.of_keeps hkeeps)
      (h.signals.of_keeps hkeeps) ?_
    rw [hkeeps.aborted, hkeeps.watchdogFired]
    exact hg
  · exact held_settles hquiet hk h.signals hsettles

theorem held_firstChunk (h : Held s) (done : Bool) : Held (s.firstChunk done) := by
  unfold firstChunk
  split
  · rename_i source upstream hphase
    have hlive : LiveOnly s.fetches fun i => source = .fetched i := by
      have hawaited := h.awaited
      rw [hphase] at hawaited
      exact hawaited
    split
    · simp only []
      split
      · have hquiet := endBody_quiet (s := { s with ttftTimer := none }) hlive
        exact held_respond (hquiet.liveOnly _) (Covered.of_quiet hquiet)
          (endBody_signals (s := { s with ttftTimer := none }) h.signals)
      · exact held_respond (s := { s with ttftTimer := none }) hlive h.covered h.signals
    · exact h
  · exact h

theorem held_readRejects (h : Held s) (err : FetchError) (stats : Option GateStats) :
    Held (s.readRejects deps err stats) := by
  unfold readRejects
  split
  · rename_i id upstream hphase
    have hquiet : Quiet (s.endFetch id).fetches := by
      refine quiet_modify (h.awaited.mono fun i hi => ?_)
      rw [hphase] at hi
      cases hi
      rfl
    exact held_settles hquiet (h.kept (by rw [hphase]; trivial)) (endFetch_signals h.signals)
      (upstreamFailed_settles _ _ _)
  · exact h

theorem releasePermit_of_not_permit (h : s.permit = false) : s.releasePermit = s := by
  unfold releasePermit
  rw [if_neg (by simp [h])]

/-- The watchdog takes the permit while nothing is in flight. -/
theorem held_release (hq : Quiet s.fetches)
    (hk : s.phase.Running → s.permit = true ∧ s.watchdogFired = true) (hs : Signals s)
    (ha : s.phase = .arriving → s.permit = false ∧ s.permitReleased = false) :
    Held s.releasePermit := by
  have hreleased : s.phase = .arriving → s.releasePermit.permitReleased = false := by
    intro harr
    rw [releasePermit_of_not_permit (ha harr).1]
    exact (ha harr).2
  obtain ⟨timer, released, releases, heq⟩ := releasePermit_eq s
  rw [heq] at hreleased ⊢
  refine Held.of_quiet hq (fun hr => ⟨(hk hr).1, fun hf => ?_⟩) hs fun harr =>
    ⟨(ha harr).1, hreleased harr⟩
  exact absurd ((hk hr).2.symm.trans hf) (by simp)

/-- The watchdog fires while nothing is in flight. -/
theorem held_watchdogTimeout (h : Held s) (hg : KeepsCover deps s .watchdogTimeout) :
    Held s.watchdogTimeout := by
  unfold watchdogTimeout
  split
  · rename_i hdue
    have hquiet : Quiet s.fetches := Quiet.of_forall (hg hdue)
    have hfired := held_release (s := { s with watchdogTimer := none, watchdogFired := true })
      hquiet (fun hr => ⟨(h.kept hr).1, rfl⟩) h.signals h.arriving
    have hflushed : ∀ upstream, Held (({ s with watchdogTimer := none, watchdogFired := true
        }.flushCapture upstream).releasePermit) := by
      intro upstream
      obtain ⟨flushed, updates, heq⟩ := flushCapture_eq
        { s with watchdogTimer := none, watchdogFired := true } upstream
      rw [heq]
      exact held_release hquiet (fun hr => ⟨(h.kept hr).1, rfl⟩) h.signals h.arriving
    simp only []
    split
    · exact hfired
    · exact hflushed _
  · exact h

/-- The request is answered before it has a permit. -/
theorem held_refused (h : Held s) (hphase : s.phase = .arriving) (status : ℕ)
    (reason : Option GateReason) : Held (s.respondWith status reason) :=
  held_respondWith (h.quiet (by simp [hphase, Phase.Awaits])) h.signals status reason

theorem held_acquirePermit (h : Held s) (hphase : s.phase = .arriving) : Held s.acquirePermit := by
  have hquiet : Quiet s.fetches := h.quiet (by simp [hphase, Phase.Awaits])
  exact Held.of_quiet hquiet (fun _ => ⟨rfl, fun _ => (h.arriving hphase).2⟩) h.signals
    fun ha => absurd ha (by simp [acquirePermit])

theorem held_clientAbort (h : Held s) : Held s.clientAbort :=
  held_abort (s := { s with aborted := true }) h.awaited h.covered h.kept
    (fun _ _ _ _ => .inr rfl) h.arriving

theorem held_ttftTimeout (h : Held s) : Held s.ttftTimeout := by
  unfold ttftTimeout
  split
  · exact held_abort (s := { s with ttftTimer := none, ttftAborted := true }) h.awaited h.covered
      h.kept (fun ha i f hf => .inl (h.signals ha f (List.mem_of_getElem? hf))) h.arriving
  · exact h

theorem held_upstreamTimeout (h : Held s) (id : ℕ) : Held (s.upstreamTimeout id) := by
  unfold upstreamTimeout
  split
  · exact held_abort h.awaited h.covered h.kept
      (fun ha i f hf => .inl (h.signals ha f (List.mem_of_getElem? hf))) h.arriving
  · exact h

theorem held_statusResolves (h : Held s) (modelP50 : Num ℚ) : Held (s.statusResolves modelP50) := by
  unfold statusResolves
  split
  · simp only []
    split
    · split
      · exact h.of_keeps (by rfl) rfl
      · exact h.of_keeps (by rfl) rfl
    · exact h.of_keeps (by rfl) rfl
  · exact h

theorem held_cooldownOver (h : Held s) : Held s.cooldownOver := by
  unfold cooldownOver
  split
  · rename_i due hphase
    split
    · have hquiet : Quiet s.fetches := h.quiet (by simp [hphase, Phase.Awaits])
      exact Held.of_quiet hquiet (fun _ => h.kept (by rw [hphase]; trivial)) h.signals
        fun ha => absurd ha (by simp)
    · exact h
  · exact h

theorem held_errorBodyRejects (h : Held s) : Held s.errorBodyRejects := by
  unfold errorBodyRejects
  split
  · rename_i id upstream hphase
    have hquiet : Quiet (s.endFetch id).fetches := h.endFetch_quiet (by rw [hphase]; rfl)
    exact held_respondWith hquiet (endFetch_signals h.signals) _ _
  · exact h

theorem held_throws (h : Held s) (hq : Quiet s.fetches) : Held s.throws := by
  unfold throws
  split
  · exact h
  · exact h
  · exact h
  · exact held_respondWith hq h.signals _ _

/-- The stream has left its source: nothing is in flight. -/
theorem held_endBody (h : Held s) {stream stream' : Stream}
    (hphase : s.phase = .streaming source upstream stream) :
    Held { s.endBody source with phase := .streaming source upstream stream' } := by
  have hlive : LiveOnly s.fetches fun i => source = .fetched i := by
    have hawaited := h.awaited
    rw [hphase] at hawaited
    exact hawaited.mono fun i hi => hi.2
  have hsignals : Signals (s.endBody source) := endBody_signals h.signals
  exact Held.of_quiet (endBody_quiet hlive) (fun hr => hr.elim) hsignals
    fun ha => absurd ha (by simp)

theorem held_bodyEnd (h : Held s) : Held s.bodyEnd := by
  unfold bodyEnd
  split
  · rename_i source upstream hphase
    split
    · exact held_endBody h hphase
    · exact h
  · exact h

theorem held_bodyError (h : Held s) : Held s.bodyError := by
  unfold bodyError
  split
  · rename_i id upstream hphase
    split
    · exact h
    · exact held_endBody h hphase
  · exact h

theorem held_cancel (h : Held s) : Held s.cancel := by
  unfold cancel
  split
  · rename_i source upstream stream hphase
    split
    · exact held_endBody h hphase
    · exact h
  · exact h

theorem held_flush (h : Held s) : Held s.flush := by
  unfold flush
  split
  · rename_i source upstream hphase
    have hquiet : Quiet s.fetches := h.quiet (by simp [hphase, Phase.Awaits])
    obtain ⟨_, _, _, _, _, heq⟩ := flushRelease_eq s upstream
    rw [heq]
    exact Held.of_quiet hquiet (fun hr => hr.elim) h.signals fun ha => absurd ha (by simp)
  · exact h

/-- A step that keeps the cover keeps the invariant. -/
theorem held_step (s : ProxyContext) (e : Step) (h : Held s) (hg : KeepsCover deps s e) :
    Held (s.step deps e) := by
  cases e with
  | tick ms =>
    simp only [step]
    split
    · exact h.of_keeps (by rfl) rfl
    · exact h
  | reload config => exact h.of_keeps (by rfl) rfl
  | clientAbort => exact held_clientAbort h
  | rateLimited retryAfter =>
    simp only [step]
    split
    · exact held_refused h ‹_› _ _
    · exact h
  | gateRejects code =>
    simp only [step]
    split
    · exact held_refused h ‹_› _ _
    · exact h
  | acquired =>
    simp only [step]
    split
    · exact held_acquirePermit h ‹_›
    · exact h
  | attempt rewritten =>
    simp only [step]
    split
    · exact held_attempt h ‹_› hg
    · exact h
  | fetchResolves response => exact held_fetchResolves h response
  | fetchRejects err stats => exact held_fetchRejects h err stats
  | auditThrows => exact held_auditThrows h (Quiet.of_forall hg)
  | errorBody overloaded rewritten => exact held_errorBody h hg
  | errorBodyRejects => exact held_errorBodyRejects h
  | firstChunk done => exact held_firstChunk h done
  | readRejects err stats => exact held_readRejects h err stats
  | status modelP50 => exact held_statusResolves h modelP50
  | ttftTimeout => exact held_ttftTimeout h
  | cooldownOver => exact held_cooldownOver h
  | upstreamTimeout id => exact held_upstreamTimeout h id
  | watchdogTimeout => exact held_watchdogTimeout h hg
  | throws => exact held_throws h (Quiet.of_forall hg)
  | bodyEnd => exact held_bodyEnd h
  | bodyError => exact held_bodyError h
  | cancel => exact held_cancel h
  | flush => exact held_flush h

theorem held_new (config : ProxyConfig) (now : ℚ) (aborted : Bool) :
    Held (new config now aborted) := by
  have hquiet : Quiet (new config now aborted).fetches := fun i f hf _ =>
    absurd hf (by simp [new])
  exact Held.of_quiet hquiet (fun hr => hr.elim) (fun _ f hf => absurd hf (by simp [new]))
    fun _ => ⟨rfl, rfl⟩

/-! ## The cover -/

/-- In a run that keeps the cover, the permit covers every fetch in
flight. -/
theorem permit_covers_fetches (deps : ProxyDeps) (config : ProxyConfig) (now : ℚ) (aborted : Bool)
    (steps : List Step)
    (hsteps : StepsMeet (step deps) (KeepsCover deps) (new config now aborted) steps) :
    Covered (after deps config now aborted steps) :=
  (run_invariant_of_stepsMeet held_step (held_new config now aborted) hsteps).covered

end

/-- Two attempts at most within 10 s, each given up without a first chunk
in 5 s. -/
def tenSeconds : ProxyConfig where
  upstreamTimeoutMs := 10000
  experimentTtftWatchdog := true
  ttftTimeoutMs := 5000
  ttftRetryMaxAttempts := .fin 2
  ttftRetryGateSaturationPct := 100
  ttftRetryCooldownMs := 5000
  ttftWatchdogMultiplier := .fin 2
  ttftWatchdogHardCapMs := .fin 5000
  experimentRewriteIds := false

def plainDeps : ProxyDeps := ⟨false, false, 0, false⟩

def sseOk : Upstream := ⟨200, .gateway, true, true⟩

/-- The second attempt gets its response in time. -/
def retryInTime : List Step :=
  [.acquired, .attempt false, .tick 5000, .ttftTimeout, .fetchRejects .AbortError none,
    .tick 5000, .cooldownOver, .attempt false, .tick 1000, .fetchResolves sseOk, .firstChunk false]

theorem permit_covers_fetches_retryInTime :
    Covered (ProxyContext.after plainDeps tenSeconds 0 false retryInTime) :=
  permit_covers_fetches plainDeps tenSeconds 0 false retryInTime (by decide +kernel)

/-- The second attempt starts 10 s after the acquisition and may take 10 s;
the watchdog takes the permit behind 15 s. -/
def retryTooLate : List Step :=
  [.acquired, .attempt false, .tick 5000, .ttftTimeout, .fetchRejects .AbortError none,
    .tick 5000, .cooldownOver, .attempt false, .tick 5000, .watchdogTimeout]

theorem retry_outlives_permit :
    ¬ Covered (ProxyContext.after plainDeps tenSeconds 0 false retryTooLate) := by
  decide +kernel

end UmansGate.Proxy
