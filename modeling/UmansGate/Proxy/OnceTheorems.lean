/-
UmansGate.Proxy.OnceTheorems — the permit is released at most once, and the
capture has at most one final update.

This holds in every run, also where the watchdog fires before there is a
response. A release is counted where `permitReleased` is set (`Counted`). Up to
the response nothing is written (`Unwritten`); a stream writes what its flush
writes (`Flushable`), and a response without a stream one update (`Written`).
-/
import UmansGate.Proxy.PermitTheorems

namespace UmansGate.Proxy

open UmansGate.Lib

/-- The releases are those that `permitReleased` tells of. -/
def Counted (s : ProxyContext) : Prop := s.releases = s.permitReleased.toNat

/-- There is no response yet. -/
structure Unwritten (s : ProxyContext) : Prop where
  counted : Counted s
  updates : s.updates = []
  flushed : s.flushed = false
  flushCaptureRef : s.flushCaptureRef = none

/-- A stream: its only update is that of its flush. -/
structure Flushable (s : ProxyContext) : Prop where
  counted : Counted s
  updates : s.updates.length = s.flushed.toNat

/-- A response without a stream: the watchdog has nothing to flush. -/
structure Written (s : ProxyContext) : Prop where
  counted : Counted s
  updates : s.updates.length = 1
  flushCaptureRef : s.flushCaptureRef = none

/-- The invariant of every run. -/
structure Once (s : ProxyContext) : Prop where
  waiting : s.phase = .arriving ∨ s.phase.Running → Unwritten s
  streaming : ∀ source upstream stream, s.phase = .streaming source upstream stream → Flushable s
  returned : s.phase = .returned → Written s

section

open ProxyContext

variable {deps : ProxyDeps} {s t : ProxyContext} {source : Source} {upstream : Upstream}
  {stream : Stream}

theorem Once.of_running (hr : s.phase.Running) (h : Unwritten s) : Once s where
  waiting := fun _ => h
  streaming := fun _ _ _ hp => absurd hr (by simp [hp, Phase.Running])
  returned := fun hp => absurd hr (by simp [hp, Phase.Running])

theorem Once.of_streaming (hp : s.phase = .streaming source upstream stream) (h : Flushable s) :
    Once s where
  waiting := by
    rintro (ha | hr)
    · exact absurd (hp.symm.trans ha) (by simp)
    · exact absurd hr (by simp [hp, Phase.Running])
  streaming := fun _ _ _ _ => h
  returned := fun hr => absurd (hp.symm.trans hr) (by simp)

theorem Once.of_returned (hp : s.phase = .returned) (h : Written s) : Once s where
  waiting := by
    rintro (ha | hr)
    · exact absurd (hp.symm.trans ha) (by simp)
    · exact absurd hr (by simp [hp, Phase.Running])
  streaming := fun _ _ _ hs => absurd (hp.symm.trans hs) (by simp)
  returned := fun _ => h

theorem Counted.of_keeps (hk : Keeps s t) (h : Counted s) : Counted t := by
  rw [Counted, hk.releases, hk.permitReleased]
  exact h

theorem Unwritten.of_keeps (hk : Keeps s t) (h : Unwritten s) : Unwritten t where
  counted := h.counted.of_keeps hk
  updates := hk.updates.trans h.updates
  flushed := hk.flushed.trans h.flushed
  flushCaptureRef := hk.flushCaptureRef.trans h.flushCaptureRef

theorem Once.of_keeps (h : Once s) (hk : Keeps s t) (hp : t.phase = s.phase) : Once t where
  waiting := by
    rw [hp]
    exact fun hw => (h.waiting hw).of_keeps hk
  streaming := by
    rw [hp]
    intro source upstream stream hs
    have hflushable := h.streaming source upstream stream hs
    exact ⟨hflushable.counted.of_keeps hk, by rw [hk.updates, hk.flushed, hflushable.updates]⟩
  returned := by
    rw [hp]
    intro hr
    have hwritten := h.returned hr
    exact ⟨hwritten.counted.of_keeps hk, by rw [hk.updates, hwritten.updates],
      hk.flushCaptureRef.trans hwritten.flushCaptureRef⟩

/-! ## Releases and flushes -/

theorem counted_releasePermit (h : Counted s) : Counted s.releasePermit := by
  unfold releasePermit
  split
  · simp only []
    split
    · exact h
    · rename_i hreleased
      have hzero : s.releases = 0 := by
        rw [h, Bool.eq_false_iff.mpr hreleased]
        rfl
      show s.releases + 1 = 1
      rw [hzero]
  · exact h

theorem flushable_releasePermit (h : Flushable s) : Flushable s.releasePermit := by
  have hcounted := counted_releasePermit h.counted
  obtain ⟨_, _, _, heq⟩ := releasePermit_eq s
  rw [heq] at hcounted ⊢
  exact ⟨hcounted, h.updates⟩

theorem flushable_flushCapture (upstream : Upstream) (h : Flushable s) :
    Flushable (s.flushCapture upstream) := by
  unfold flushCapture
  split
  · exact h
  · rename_i hflushed
    have hlength : s.updates.length = 0 := by
      rw [h.updates, Bool.eq_false_iff.mpr hflushed]
      rfl
    refine ⟨h.counted, ?_⟩
    show (s.updates ++ [_]).length = 1
    rw [List.length_append, hlength]
    rfl

theorem flushable_onAbort (upstream : Upstream) (h : Flushable s) :
    Flushable (s.onAbort upstream) := by
  unfold ProxyContext.onAbort
  split
  · exact h
  · exact flushable_releasePermit (flushable_flushCapture upstream h)

theorem flushable_listenAbort (source : Source) (upstream : Upstream) (h : Flushable s) :
    Flushable (s.listenAbort source upstream) := by
  have hsignal : ∀ s : ProxyContext, Flushable s →
      Flushable (if s.signalFired source.signal then s.onAbort upstream else s) := by
    intro s h
    split
    · exact flushable_onAbort upstream h
    · exact h
  unfold ProxyContext.listenAbort
  refine hsignal _ ?_
  split
  · exact flushable_releasePermit (flushable_flushCapture upstream h)
  · exact h

/-- A release changes nothing else. -/
theorem once_releasePermit (h : Once s) : Once s.releasePermit := by
  have hcounted := counted_releasePermit (s := s)
  obtain ⟨_, _, _, heq⟩ := releasePermit_eq s
  rw [heq] at hcounted ⊢
  refine ⟨fun hw => ?_, fun source upstream stream hp => ?_, fun hr => ?_⟩
  · have hunwritten := h.waiting hw
    exact ⟨hcounted hunwritten.counted, hunwritten.2, hunwritten.3, hunwritten.4⟩
  · have hflushable := h.streaming source upstream stream hp
    exact ⟨hcounted hflushable.counted, hflushable.updates⟩
  · have hwritten := h.returned hr
    exact ⟨hcounted hwritten.counted, hwritten.updates, hwritten.flushCaptureRef⟩

/-- Only a stream has its capture to flush. -/
theorem once_flushCapture (h : Once s) (href : s.flushCaptureRef ≠ none) :
    Once (s.flushCapture upstream) := by
  cases hphase : s.phase with
  | streaming source other stream =>
    have hflushable := flushable_flushCapture upstream (h.streaming source other stream hphase)
    obtain ⟨_, _, heq⟩ := flushCapture_eq s upstream
    rw [heq] at hflushable ⊢
    exact Once.of_streaming hphase hflushable
  | returned => exact absurd (h.returned hphase).flushCaptureRef href
  | arriving => exact absurd (h.waiting (.inl hphase)).flushCaptureRef href
  | _ => exact absurd (h.waiting (.inr (by rw [hphase]; trivial))).flushCaptureRef href

/-! ## Responses -/

theorem once_respondWith (h : Unwritten s) (status : ℕ) (reason : Option GateReason) :
    Once (s.respondWith status reason) := by
  have hlength : (s.queueUpdate status reason).updates.length = 1 := by
    simp [queueUpdate, h.updates]
  have hcounted : Counted (s.queueUpdate status reason) := h.counted
  unfold respondWith finish
  refine Once.of_returned rfl ?_
  split
  · exact ⟨hcounted, hlength, h.flushCaptureRef⟩
  · have hreleased := counted_releasePermit hcounted
    obtain ⟨_, _, _, heq⟩ := releasePermit_eq (s.queueUpdate status reason)
    rw [heq] at hreleased ⊢
    exact ⟨hreleased, hlength, h.flushCaptureRef⟩

theorem once_settles (h : Unwritten s) (hsettles : Settles s t) : Once t := by
  cases hsettles with
  | waits keeps resting =>
    refine Once.of_running ?_ (h.of_keeps keeps)
    rcases resting with hp | ⟨due, hp⟩
    · simp [hp, Phase.Running]
    · simp [hp, Phase.Running]
  | returns keeps status reason => exact once_respondWith (h.of_keeps keeps) status reason

theorem unwritten_endFetch (id : ℕ) (h : Unwritten s) : Unwritten (s.endFetch id) :=
  ⟨h.1, h.2, h.3, h.4⟩

theorem unwritten_endBody (source : Source) (h : Unwritten s) : Unwritten (s.endBody source) := by
  cases source with
  | fetched id => exact unwritten_endFetch id h
  | errorText signal => exact h

theorem once_respond (h : Unwritten s) : Once (s.respond source upstream) := by
  cases hbody : upstream.hasBody with
  | false =>
    have hreported : Unwritten { s with reports := s.reports ++ s.pendingRecord.toList } :=
      h.of_keeps (by rfl)
    unfold respond
    simp only []
    rw [if_neg (by simp [hbody])]
    exact once_respondWith (unwritten_endBody source hreported) _ _
  | true =>
    have hflushable : Flushable { s with
        reports := s.reports ++ s.pendingRecord.toList
        flushCaptureRef := some upstream } :=
      ⟨h.counted, by simp [h.updates, h.flushed]⟩
    have hlistened := flushable_listenAbort source upstream hflushable
    rw [respond_hasBody_eq hbody]
    exact Once.of_streaming rfl ⟨hlistened.counted, hlistened.updates⟩

theorem once_arrives (h : Unwritten s) (harrives : Arrives source upstream s t) : Once t := by
  cases harrives with
  | waits keeps phase =>
    exact Once.of_running (by simp [phase, Phase.Running]) (h.of_keeps keeps)
  | responds keeps => exact once_respond (h.of_keeps keeps)

theorem once_startFetch {p : Phase} {timeout : ℚ} {controller : Option ℕ} (hr : p.Running)
    (h : Unwritten s) : Once { s.startFetch timeout controller with phase := p } :=
  Once.of_running hr ⟨h.1, h.2, h.3, h.4⟩

/-! ## Steps -/

theorem once_abort (h : Once s) (aborted : Bool) (p : ℕ → Fetch → Bool) :
    Once ({ s with aborted := aborted }.abort p) := by
  have hfired : Once ({ s with aborted := aborted }.fireSignal p) := by
    refine ⟨fun hw => ?_, fun source upstream stream hp => ?_, fun hr => ?_⟩
    · have hunwritten := h.waiting hw
      exact ⟨hunwritten.1, hunwritten.2, hunwritten.3, hunwritten.4⟩
    · have hflushable := h.streaming source upstream stream hp
      exact ⟨hflushable.1, hflushable.2⟩
    · have hwritten := h.returned hr
      exact ⟨hwritten.1, hwritten.2, hwritten.3⟩
  unfold ProxyContext.abort
  simp only []
  split
  · rename_i source upstream stream hphase
    split
    · have hflushable := flushable_onAbort upstream
        (hfired.streaming source upstream stream hphase)
      obtain ⟨_, _, _, _, _, heq⟩ :=
        onAbort_eq ({ s with aborted := aborted }.fireSignal p) upstream
      rw [heq] at hflushable ⊢
      exact Once.of_streaming hphase hflushable
    · exact hfired
  · exact hfired

theorem once_fetchResolves (h : Once s) (response : Upstream) :
    Once (s.fetchResolves deps response) := by
  unfold fetchResolves
  split
  · rename_i id hphase
    have hunwritten := h.waiting (.inr (by rw [hphase]; trivial))
    split
    · rcases classify_cases deps s id response with ⟨hkeeps, hp⟩ | harr
      · exact Once.of_running (by rw [hp]; trivial) (hunwritten.of_keeps hkeeps)
      · exact once_arrives hunwritten harr
    · exact h
  · rename_i id hphase
    split
    · exact once_arrives (h.waiting (.inr (by rw [hphase]; trivial)))
        (upstreamArrived_arrives _ _)
    · exact h
  · rename_i id first upstream hphase
    split
    · exact once_arrives (h.waiting (.inr (by rw [hphase]; trivial)))
        (upstreamArrived_arrives _ _)
    · exact h
  · exact h

theorem once_fetchRejects (h : Once s) (err : FetchError) (stats : Option GateStats) :
    Once (s.fetchRejects deps err stats) := by
  unfold fetchRejects
  split
  · rename_i id hphase
    exact once_settles (unwritten_endFetch id (h.waiting (.inr (by rw [hphase]; trivial))))
      (upstreamFailed_settles _ _ _)
  · rename_i id hphase
    exact once_settles (unwritten_endFetch id (h.waiting (.inr (by rw [hphase]; trivial))))
      (escalationFailed_settles _)
  · rename_i id first upstream hphase
    exact once_arrives (unwritten_endFetch id (h.waiting (.inr (by rw [hphase]; trivial))))
      (upstreamArrived_arrives _ _)
  · exact h

theorem once_auditThrows (h : Once s) : Once s.auditThrows := by
  unfold auditThrows
  split
  · rename_i id hphase
    split
    · exact once_settles (h.waiting (.inr (by rw [hphase]; trivial))) (escalationFailed_settles _)
    · exact h
  · rename_i id first upstream hphase
    split
    · exact once_arrives (h.waiting (.inr (by rw [hphase]; trivial)))
        (upstreamArrived_arrives _ _)
    · exact h
  · exact h

theorem once_errorBody (h : Once s) (overloaded rewritten : Bool) :
    Once (s.errorBody deps overloaded rewritten) := by
  unfold errorBody
  split
  · rename_i id upstream hphase
    have hunwritten := unwritten_endFetch id (h.waiting (.inr (by rw [hphase]; trivial)))
    split
    · rcases rewriteOverloaded_cases deps s id upstream overloaded rewritten
        with ⟨_, ⟨timeout, response, heq⟩ | hsettles⟩ | harr
      · rw [heq]
        exact once_startFetch trivial hunwritten
      · exact once_settles hunwritten hsettles
      · exact once_arrives hunwritten harr
    · exact h
  · exact h

theorem once_attempt (h : Once s) (hphase : s.phase = .ready) (rewritten : Bool) :
    Once (s.startAttempt deps rewritten) := by
  have hunwritten := h.waiting (.inr (by rw [hphase]; trivial))
  rcases startAttempt_cases deps s rewritten with
    ⟨t, timeout, controller, hkeeps, heq | heq⟩ | hsettles
  · rw [heq]
    exact once_startFetch trivial (hunwritten.of_keeps hkeeps)
  · rw [heq]
    exact once_startFetch trivial (hunwritten.of_keeps hkeeps)
  · exact once_settles hunwritten hsettles

theorem once_firstChunk (h : Once s) (done : Bool) : Once (s.firstChunk done) := by
  unfold firstChunk
  split
  · rename_i source upstream hphase
    have hunwritten : Unwritten { s with ttftTimer := none } :=
      (h.waiting (.inr (by rw [hphase]; trivial))).of_keeps (by rfl)
    split
    · simp only []
      split
      · exact once_respond (unwritten_endBody source hunwritten)
      · exact once_respond hunwritten
    · exact h
  · exact h

theorem once_readRejects (h : Once s) (err : FetchError) (stats : Option GateStats) :
    Once (s.readRejects deps err stats) := by
  unfold readRejects
  split
  · rename_i id upstream hphase
    exact once_settles (unwritten_endFetch id (h.waiting (.inr (by rw [hphase]; trivial))))
      (upstreamFailed_settles _ _ _)
  · exact h

theorem once_errorBodyRejects (h : Once s) : Once s.errorBodyRejects := by
  unfold errorBodyRejects
  split
  · rename_i id upstream hphase
    exact once_respondWith (unwritten_endFetch id (h.waiting (.inr (by rw [hphase]; trivial)))) _ _
  · exact h

theorem once_statusResolves (h : Once s) (modelP50 : Num ℚ) : Once (s.statusResolves modelP50) := by
  unfold statusResolves
  split
  · simp only []
    split
    · split
      · exact h.of_keeps (by rfl) rfl
      · exact h.of_keeps (by rfl) rfl
    · exact h.of_keeps (by rfl) rfl
  · exact h

theorem once_cooldownOver (h : Once s) : Once s.cooldownOver := by
  unfold cooldownOver
  split
  · rename_i due hphase
    have hunwritten := h.waiting (.inr (by rw [hphase]; trivial))
    split
    · exact Once.of_running trivial (Unwritten.of_keeps (s := s) (by rfl) hunwritten)
    · exact h
  · exact h

theorem once_throws (h : Once s) : Once s.throws := by
  have hinternal : s.phase.Running → Once s.internalError := fun hr =>
    once_respondWith (h.waiting (.inr hr)) _ _
  unfold throws
  cases hphase : s.phase with
  | arriving => exact h
  | streaming source upstream stream => exact h
  | returned => exact h
  | ready => exact hinternal (by rw [hphase]; trivial)
  | fetching id => exact hinternal (by rw [hphase]; trivial)
  | escalating id => exact hinternal (by rw [hphase]; trivial)
  | errorBody id upstream => exact hinternal (by rw [hphase]; trivial)
  | rewriting id first upstream => exact hinternal (by rw [hphase]; trivial)
  | firstChunk source upstream => exact hinternal (by rw [hphase]; trivial)
  | cooldown due => exact hinternal (by rw [hphase]; trivial)

theorem once_ttftTimeout (h : Once s) : Once s.ttftTimeout := by
  unfold ttftTimeout
  split
  · have hs : Once { s with ttftTimer := none, ttftAborted := true } := h.of_keeps (by rfl) rfl
    exact once_abort hs s.aborted _
  · exact h

theorem once_upstreamTimeout (h : Once s) (id : ℕ) : Once (s.upstreamTimeout id) := by
  unfold upstreamTimeout
  split
  · exact once_abort h s.aborted _
  · exact h

/-- The stream goes on or ends, without its flush. -/
theorem once_endBody (h : Once s) {stream' : Stream}
    (hphase : s.phase = .streaming source upstream stream) :
    Once { s.endBody source with phase := .streaming source upstream stream' } := by
  have hflushable := h.streaming source upstream stream hphase
  refine Once.of_streaming rfl ?_
  cases source with
  | fetched id => exact ⟨hflushable.1, hflushable.2⟩
  | errorText signal => exact ⟨hflushable.1, hflushable.2⟩

theorem once_bodyEnd (h : Once s) : Once s.bodyEnd := by
  unfold bodyEnd
  split
  · rename_i source upstream hphase
    split
    · exact once_endBody h hphase
    · exact h
  · exact h

theorem once_bodyError (h : Once s) : Once s.bodyError := by
  unfold bodyError
  split
  · rename_i id upstream hphase
    split
    · exact h
    · exact once_endBody h hphase
  · exact h

theorem once_cancel (h : Once s) : Once s.cancel := by
  unfold cancel
  split
  · rename_i source upstream stream hphase
    split
    · exact once_endBody h hphase
    · exact h
  · exact h

theorem once_flush (h : Once s) : Once s.flush := by
  unfold flush
  split
  · rename_i source upstream hphase
    have hflushable := flushable_releasePermit
      (flushable_flushCapture upstream (h.streaming source upstream .ended hphase))
    exact Once.of_streaming rfl ⟨hflushable.1, hflushable.2⟩
  · exact h

/-- The watchdog releases the permit, and flushes a stream. -/
theorem once_watchdogTimeout (h : Once s) : Once s.watchdogTimeout := by
  unfold watchdogTimeout
  split
  · have hfired : Once { s with watchdogTimer := none, watchdogFired := true } := by
      refine ⟨fun hw => ?_, fun source upstream stream hp => ?_, fun hr => ?_⟩
      · exact ⟨(h.waiting hw).1, (h.waiting hw).2, (h.waiting hw).3, (h.waiting hw).4⟩
      · exact ⟨(h.streaming source upstream stream hp).1, (h.streaming source upstream stream hp).2⟩
      · exact ⟨(h.returned hr).1, (h.returned hr).2, (h.returned hr).3⟩
    simp only []
    split
    · exact once_releasePermit hfired
    · rename_i upstream href
      exact once_releasePermit (once_flushCapture hfired (by simp [href]))
  · exact h

/-- Every step keeps the invariant. -/
theorem once_step (s : ProxyContext) (e : Step) (h : Once s) : Once (s.step deps e) := by
  cases e with
  | tick ms =>
    simp only [step]
    split
    · exact h.of_keeps (by rfl) rfl
    · exact h
  | reload config => exact h.of_keeps (by rfl) rfl
  | clientAbort => exact once_abort h true _
  | rateLimited retryAfter =>
    simp only [step]
    split
    · exact once_respondWith (h.waiting (.inl ‹_›)) _ _
    · exact h
  | gateRejects code =>
    simp only [step]
    split
    · exact once_respondWith (h.waiting (.inl ‹_›)) _ _
    · exact h
  | acquired =>
    simp only [step]
    split
    · rename_i hphase
      have hunwritten := h.waiting (.inl hphase)
      exact Once.of_running trivial ⟨hunwritten.1, hunwritten.2, hunwritten.3, hunwritten.4⟩
    · exact h
  | attempt rewritten =>
    simp only [step]
    split
    · exact once_attempt h ‹_› rewritten
    · exact h
  | fetchResolves response => exact once_fetchResolves h response
  | fetchRejects err stats => exact once_fetchRejects h err stats
  | auditThrows => exact once_auditThrows h
  | errorBody overloaded rewritten => exact once_errorBody h overloaded rewritten
  | errorBodyRejects => exact once_errorBodyRejects h
  | firstChunk done => exact once_firstChunk h done
  | readRejects err stats => exact once_readRejects h err stats
  | status modelP50 => exact once_statusResolves h modelP50
  | ttftTimeout => exact once_ttftTimeout h
  | cooldownOver => exact once_cooldownOver h
  | upstreamTimeout id => exact once_upstreamTimeout h id
  | watchdogTimeout => exact once_watchdogTimeout h
  | throws => exact once_throws h
  | bodyEnd => exact once_bodyEnd h
  | bodyError => exact once_bodyError h
  | cancel => exact once_cancel h
  | flush => exact once_flush h

theorem once_new (config : ProxyConfig) (now : ℚ) (aborted : Bool) :
    Once (new config now aborted) where
  waiting := fun _ => ⟨rfl, rfl, rfl, rfl⟩
  streaming := fun _ _ _ hp => absurd hp (by simp [new])
  returned := fun hp => absurd hp (by simp [new])

theorem once_after (deps : ProxyDeps) (config : ProxyConfig) (now : ℚ) (aborted : Bool)
    (steps : List Step) : Once (after deps config now aborted steps) :=
  run_invariant once_step (once_new config now aborted) steps

/-- The permit is never released twice, and the capture never has two final
updates. -/
theorem Once.at_most_once (h : Once s) : s.releases ≤ 1 ∧ s.updates.length ≤ 1 := by
  have hcounted : Counted s → s.releases ≤ 1 := by
    intro hc
    rw [hc]
    exact Bool.toNat_le _
  have hwaiting : Unwritten s → s.releases ≤ 1 ∧ s.updates.length ≤ 1 := by
    intro hu
    exact ⟨hcounted hu.counted, by simp [hu.updates]⟩
  cases hphase : s.phase with
  | arriving => exact hwaiting (h.waiting (.inl hphase))
  | returned => exact ⟨hcounted (h.returned hphase).counted, (h.returned hphase).updates.le⟩
  | streaming source upstream stream =>
    have hflushable := h.streaming source upstream stream hphase
    exact ⟨hcounted hflushable.counted, hflushable.updates ▸ Bool.toNat_le _⟩
  | _ => exact hwaiting (h.waiting (.inr (by rw [hphase]; trivial)))

end

end UmansGate.Proxy
