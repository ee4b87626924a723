/-
UmansGate.Proxy.FinalityTheorems — one release of the permit and one final
update of the capture when the response has terminated.

A request without a stream is answered by one update and one release. A
stream that closes, or whose signal fires, flushes its capture and releases
the permit. A stream that fails with no signal leaves both to the watchdog
(`permit_and_capture_final`). The watchdog must not have fired before the
stream is there: a released permit keeps `onAbort` from the capture.
-/
import UmansGate.Proxy.OnceTheorems

namespace UmansGate.Proxy

open UmansGate.Lib

/-- The stream is closed, errored or cancelled, or there is none to come. -/
def Phase.Terminated : Phase → Prop
  | .streaming _ _ stream => stream = .closed ∨ stream = .errored ∨ stream = .cancelled
  | .returned => True
  | _ => False

/-- The fetches the phase speaks of. -/
def Phase.Names : Phase → ℕ → Prop
  | .fetching id, i => i = id
  | .escalating id, i => i = id
  | .errorBody id _, i => i = id
  | .rewriting id first _, i => i = id ∨ i = first
  | .firstChunk source _, i => i = source.signal
  | .streaming source _ _, i => i = source.signal
  | _, _ => False

/-- The permit is released once, if there is one, and the capture has one
final update. -/
structure Finalised (s : ProxyContext) : Prop where
  releases : s.releases = s.permit.toNat
  updates : s.updates.length = 1

/-- A failed stream whose signals are silent: the armed watchdog has the
capture to flush and the permit to release. -/
structure AwaitsWatchdog (s : ProxyContext) : Prop where
  failed : ∃ source upstream stream, s.phase = .streaming source upstream stream ∧
    (stream = .errored ∨ stream = .cancelled) ∧ s.flushCaptureRef = some upstream ∧
    s.signalFired source.signal = false
  aborted : s.aborted = false
  watchdogFired : s.watchdogFired = false
  watchdogTimer : s.watchdogTimer.isSome = true
  permit : s.permit = true
  releases : s.releases = 0
  updates : s.updates = []

/-- The watchdog fires on a response only. -/
def FiresBehindResponse (s : ProxyContext) : Step → Prop
  | .watchdogTimeout => s.phase.Running → s.watchdogTimer.any s.dueFirst = false
  | _ => True

instance : ∀ p : Phase, Decidable p.Running
  | .arriving | .streaming _ _ _ | .returned => .isFalse id
  | .ready | .fetching _ | .escalating _ | .errorBody _ _ | .rewriting _ _ _ | .firstChunk _ _
  | .cooldown _ => .isTrue trivial

instance (s : ProxyContext) : ∀ e : Step, Decidable (FiresBehindResponse s e)
  | .watchdogTimeout => inferInstanceAs (Decidable (_ → _))
  | .tick _ | .reload _ | .clientAbort | .rateLimited _ | .gateRejects _ | .acquired | .attempt _
  | .fetchResolves _ | .fetchRejects _ _ | .auditThrows | .errorBody _ _ | .errorBodyRejects
  | .firstChunk _ | .readRejects _ _ | .status _ | .ttftTimeout | .cooldownOver
  | .upstreamTimeout _ | .throws | .bodyEnd | .bodyError | .cancel | .flush => .isTrue trivial

/-! ## The invariant -/

/-- Nothing is released and nothing is written. -/
structure Fresh (s : ProxyContext) : Prop where
  permitReleased : s.permitReleased = false
  releases : s.releases = 0
  updates : s.updates = []
  flushed : s.flushed = false
  streamingStarted : s.streamingStarted = false
  watchdogFired : s.watchdogFired = false

/-- The permit is held and watched. -/
structure Armed (s : ProxyContext) : Prop where
  permit : s.permit = true
  watchdogTimer : s.watchdogTimer.isSome = true

structure Answered (s : ProxyContext) : Prop where
  watchdogTimer : s.watchdogTimer = none
  permitReleased : s.permitReleased = s.permit
  releases : s.releases = s.permit.toNat
  updates : s.updates.length = 1

/-- The permit is released if and only if the capture is flushed. -/
structure Books (s : ProxyContext) (upstream : Upstream) : Prop where
  permit : s.permit = true
  flushCaptureRef : s.flushCaptureRef = some upstream
  flushed : s.flushed = s.permitReleased
  releases : s.releases = s.permitReleased.toNat
  updates : s.updates.length = s.permitReleased.toNat

/-- Neither a signal nor the watchdog has fired. -/
structure Watched (s : ProxyContext) (source : Source) : Prop where
  watchdogTimer : s.watchdogTimer.isSome = true
  watchdogFired : s.watchdogFired = false
  aborted : s.aborted = false
  signal : s.signalFired source.signal = false

/-- The permit of a stream that is not closed is held while it is watched. -/
structure Streams (s : ProxyContext) (source : Source) (upstream : Upstream) (stream : Stream) :
    Prop where
  books : Books s upstream
  watched : s.permitReleased = false → Watched s source
  closed : stream = .closed → s.permitReleased = true

/-- The invariant of the runs whose watchdog fires on a response only. -/
structure Ledger (s : ProxyContext) : Prop where
  named : ∀ i, s.phase.Names i → i < s.fetches.length
  arriving : s.phase = .arriving → Fresh s ∧ s.permit = false ∧ s.watchdogTimer = none
  running : s.phase.Running → Fresh s ∧ Armed s
  streaming : ∀ source upstream stream, s.phase = .streaming source upstream stream →
    Streams s source upstream stream
  returned : s.phase = .returned → Answered s

section

open ProxyContext

variable {deps : ProxyDeps} {s t : ProxyContext} {source : Source} {upstream : Upstream}
  {stream : Stream}

theorem Ledger.of_running (hr : s.phase.Running) (hn : ∀ i, s.phase.Names i → i < s.fetches.length)
    (hf : Fresh s) (ha : Armed s) : Ledger s where
  named := hn
  arriving := fun h => absurd hr (by simp [h, Phase.Running])
  running := fun _ => ⟨hf, ha⟩
  streaming := fun _ _ _ h => absurd hr (by simp [h, Phase.Running])
  returned := fun h => absurd hr (by simp [h, Phase.Running])

theorem Ledger.of_streaming (hp : s.phase = .streaming source upstream stream)
    (hn : source.signal < s.fetches.length) (h : Streams s source upstream stream) :
    Ledger s where
  named := by
    rw [hp]
    intro i hi
    rw [hi]
    exact hn
  arriving := fun ha => absurd (hp.symm.trans ha) (by simp)
  running := fun hr => absurd hr (by simp [hp, Phase.Running])
  streaming := by
    intro source' upstream' stream' hp'
    cases hp.symm.trans hp'
    exact h
  returned := fun hr => absurd (hp.symm.trans hr) (by simp)

theorem Ledger.of_returned (hp : s.phase = .returned) (h : Answered s) : Ledger s where
  named := fun i hi => absurd hi (by simp [hp, Phase.Names])
  arriving := fun ha => absurd (hp.symm.trans ha) (by simp)
  running := fun hr => absurd hr (by simp [hp, Phase.Running])
  streaming := fun _ _ _ hs => absurd (hp.symm.trans hs) (by simp)
  returned := fun _ => h

theorem Fresh.of_keeps (h : Keeps s t) (hf : Fresh s) : Fresh t where
  permitReleased := h.permitReleased.trans hf.permitReleased
  releases := h.releases.trans hf.releases
  updates := h.updates.trans hf.updates
  flushed := h.flushed.trans hf.flushed
  streamingStarted := h.streamingStarted.trans hf.streamingStarted
  watchdogFired := h.watchdogFired.trans hf.watchdogFired

theorem Armed.of_keeps (h : Keeps s t) (ha : Armed s) : Armed t where
  permit := h.permit.trans ha.permit
  watchdogTimer := by
    rw [h.watchdogTimer]
    exact ha.watchdogTimer

/-! ## Releases and updates -/

theorem releasePermit_of_held (hp : s.permit = true) (hr : s.permitReleased = false) :
    s.releasePermit =
      { s with watchdogTimer := none, permitReleased := true, releases := s.releases + 1 } := by
  unfold releasePermit
  simp [hp, hr]

theorem releasePermit_of_released (hp : s.permit = true) (hr : s.permitReleased = true) :
    s.releasePermit = { s with watchdogTimer := none } := by
  unfold releasePermit
  simp [hp, hr]

theorem flushCapture_of_not_flushed (hf : s.flushed = false) :
    s.flushCapture upstream = { s with
      flushed := true
      updates := s.updates ++ [⟨upstream.status, none, s.retryAttempt, s.ttftFired⟩] } := by
  unfold flushCapture
  simp [hf, queueUpdate]

theorem flushCapture_of_flushed (hf : s.flushed = true) : s.flushCapture upstream = s := by
  unfold flushCapture
  simp [hf]

/-- The capture is flushed and the permit released, each for the first time
or not at all. -/
theorem Books.flushRelease (h : Books s upstream) :
    Books (s.flushCapture upstream).releasePermit upstream ∧
      (s.flushCapture upstream).releasePermit.permitReleased = true := by
  obtain ⟨flushed, updates, heq⟩ := flushCapture_eq s upstream
  have hp : (s.flushCapture upstream).permit = true := by
    rw [heq]
    exact h.permit
  have hkeep : (s.flushCapture upstream).permitReleased = s.permitReleased := by
    rw [heq]
  cases hr : s.permitReleased with
  | true =>
    have hf : s.flushed = true := h.flushed.trans hr
    rw [releasePermit_of_released hp (hkeep.trans hr), flushCapture_of_flushed hf]
    exact ⟨⟨h.permit, h.flushCaptureRef, h.flushed, h.releases, h.updates⟩, hr⟩
  | false =>
    have hf : s.flushed = false := h.flushed.trans hr
    have hreleases : s.releases = 0 := by simpa [hr] using h.releases
    have hupdates : s.updates = [] := by simpa [hr] using h.updates
    rw [releasePermit_of_held hp (hkeep.trans hr), flushCapture_of_not_flushed hf]
    exact ⟨⟨h.permit, h.flushCaptureRef, rfl, by simp [hreleases], by simp [hupdates]⟩, rfl⟩

theorem Books.onAbort (h : Books s upstream) :
    Books (s.onAbort upstream) upstream ∧ (s.onAbort upstream).permitReleased = true := by
  unfold ProxyContext.onAbort
  split
  · rename_i hr
    exact ⟨h, hr⟩
  · exact h.flushRelease

/-- Behind the abort listeners the permit is released, or no signal has
fired. -/
theorem Books.listenAbort (source : Source) (h : Books s upstream)
    (hw : s.permitReleased = false → s.watchdogTimer.isSome = true ∧ s.watchdogFired = false) :
    Books (s.listenAbort source upstream) upstream ∧
      ((s.listenAbort source upstream).permitReleased = false →
        Watched (s.listenAbort source upstream) source) := by
  cases ha : s.aborted with
  | true =>
    have heq : s.listenAbort source upstream =
        if (s.flushCapture upstream).releasePermit.signalFired source.signal then
          (s.flushCapture upstream).releasePermit.onAbort upstream
        else (s.flushCapture upstream).releasePermit := by
      unfold ProxyContext.listenAbort
      simp [ha]
    obtain ⟨hbooks, hreleased⟩ := h.flushRelease
    rw [heq]
    split
    · exact ⟨hbooks.onAbort.1, fun hr => absurd hr (by simp [hbooks.onAbort.2])⟩
    · exact ⟨hbooks, fun hr => absurd hr (by simp [hreleased])⟩
  | false =>
    cases hf : s.signalFired source.signal with
    | true =>
      have heq : s.listenAbort source upstream = s.onAbort upstream := by
        unfold ProxyContext.listenAbort
        simp [ha, hf]
      rw [heq]
      exact ⟨h.onAbort.1, fun hr => absurd hr (by simp [h.onAbort.2])⟩
    | false =>
      rw [listenAbort_of_not_fired s source upstream ha hf]
      exact ⟨h, fun hr => ⟨(hw hr).1, (hw hr).2, ha, hf⟩⟩

/-! ## Responses -/

/-- The update of a response without a stream, and the release in its
`finally`. -/
theorem ledger_respondWith (hf : Fresh s) (hw : s.permit = true ∨ s.watchdogTimer = none)
    (status : ℕ) (reason : Option GateReason) : Ledger (s.respondWith status reason) := by
  have heq : s.respondWith status reason =
      { (s.queueUpdate status reason).releasePermit with phase := .returned } := by
    unfold respondWith finish
    rw [if_neg]
    simp [queueUpdate, hf.streamingStarted]
  rw [heq]
  refine Ledger.of_returned rfl ?_
  have hlength : (s.queueUpdate status reason).updates.length = 1 := by
    simp [queueUpdate, hf.updates]
  cases hp : s.permit with
  | false =>
    rw [releasePermit_of_not_permit (s := s.queueUpdate status reason) hp]
    have htimer : s.watchdogTimer = none := by simpa [hp] using hw
    exact ⟨htimer, hf.permitReleased.trans hp.symm, by simp [queueUpdate, hf.releases, hp],
      hlength⟩
  | true =>
    rw [releasePermit_of_held (s := s.queueUpdate status reason) hp hf.permitReleased]
    exact ⟨rfl, hp.symm, by simp [queueUpdate, hf.releases, hp], hlength⟩

theorem ledger_settles (hf : Fresh s) (ha : Armed s) (h : Settles s t) : Ledger t := by
  cases h with
  | waits keeps resting =>
    rcases resting with hp | ⟨due, hp⟩
    · exact Ledger.of_running (by simp [hp, Phase.Running]) (by simp [hp, Phase.Names])
        (hf.of_keeps keeps) (ha.of_keeps keeps)
    · exact Ledger.of_running (by simp [hp, Phase.Running]) (by simp [hp, Phase.Names])
        (hf.of_keeps keeps) (ha.of_keeps keeps)
  | returns keeps status reason =>
    exact ledger_respondWith (hf.of_keeps keeps) (.inl (ha.of_keeps keeps).permit) status reason

theorem endFetch_fresh (id : ℕ) (h : Fresh s) : Fresh (s.endFetch id) :=
  ⟨h.1, h.2, h.3, h.4, h.5, h.6⟩

theorem endFetch_armed (id : ℕ) (h : Armed s) : Armed (s.endFetch id) := ⟨h.1, h.2⟩

theorem endBody_fresh (h : Fresh s) : Fresh (s.endBody source) := by
  cases source with
  | fetched id => exact endFetch_fresh id h
  | errorText signal => exact h

theorem endBody_armed (source : Source) (h : Armed s) : Armed (s.endBody source) := by
  cases source with
  | fetched id => exact endFetch_armed id h
  | errorText signal => exact h

theorem ledger_respond (hn : source.signal < s.fetches.length) (hf : Fresh s) (ha : Armed s) :
    Ledger (s.respond source upstream) := by
  cases hbody : upstream.hasBody with
  | false =>
    have hfresh : Fresh { s with reports := s.reports ++ s.pendingRecord.toList } :=
      hf.of_keeps (by rfl)
    have harmed : Armed { s with reports := s.reports ++ s.pendingRecord.toList } :=
      ha.of_keeps (by rfl)
    have hpermit := (endBody_armed source harmed).permit
    unfold respond
    simp only []
    rw [if_neg (by simp [hbody])]
    exact ledger_respondWith (endBody_fresh hfresh) (.inl hpermit) _ _
  | true =>
    have hbooks : Books { s with
        reports := s.reports ++ s.pendingRecord.toList
        flushCaptureRef := some upstream } upstream :=
      ⟨ha.permit, rfl, hf.flushed.trans hf.permitReleased.symm,
        by simp [hf.releases, hf.permitReleased], by simp [hf.updates, hf.permitReleased]⟩
    obtain ⟨hbooks', hwatched⟩ := hbooks.listenAbort source
      fun _ => ⟨ha.watchdogTimer, hf.watchdogFired⟩
    have hfetches := (listenAbort_eq { s with
        reports := s.reports ++ s.pendingRecord.toList
        flushCaptureRef := some upstream } source upstream)
    obtain ⟨_, _, _, _, _, heq⟩ := hfetches
    rw [respond_hasBody_eq hbody]
    refine Ledger.of_streaming rfl ?_ ⟨?_, ?_, fun h => absurd h (by simp)⟩
    · rw [heq]
      exact hn
    · exact ⟨hbooks'.1, hbooks'.2, hbooks'.3, hbooks'.4, hbooks'.5⟩
    · intro hr
      have hw := hwatched hr
      exact ⟨hw.1, hw.2, hw.3, hw.4⟩

theorem ledger_arrives (h : Arrives source upstream s t) (hn : source.signal < s.fetches.length)
    (hf : Fresh s) (ha : Armed s) : Ledger t := by
  cases h with
  | waits keeps phase =>
    refine Ledger.of_running (by simp [phase, Phase.Running]) ?_ (hf.of_keeps keeps)
      (ha.of_keeps keeps)
    rw [phase, keeps.fetches]
    intro i hi
    rw [hi]
    exact hn
  | responds keeps =>
    exact ledger_respond (by rw [keeps.fetches]; exact hn) (hf.of_keeps keeps) (ha.of_keeps keeps)

theorem ledger_startFetch {p : Phase} {timeout : ℚ} {controller : Option ℕ} (hr : p.Running)
    (hn : ∀ i, p.Names i → i ≤ s.fetches.length) (hf : Fresh s) (ha : Armed s) :
    Ledger { s.startFetch timeout controller with phase := p } := by
  have hnamed : ∀ i, p.Names i →
      i < (s.fetches ++ [(⟨s.now, s.now + timeout, controller, s.aborted, false⟩ : Fetch)]).length := by
    intro i hi
    rw [List.length_append]
    exact Nat.lt_succ_of_le (hn i hi)
  exact Ledger.of_running (s := { s.startFetch timeout controller with phase := p }) hr hnamed
    ⟨hf.1, hf.2, hf.3, hf.4, hf.5, hf.6⟩ ⟨ha.1, ha.2⟩

/-! ## Signals -/

theorem length_fireSignal (p : ℕ → Fetch → Bool) :
    (s.fireSignal p).fetches.length = s.fetches.length :=
  List.length_mapIdx

theorem length_endFetch (id : ℕ) : (s.endFetch id).fetches.length = s.fetches.length :=
  List.length_modify _ _ _

theorem length_endBody : (s.endBody source).fetches.length = s.fetches.length := by
  cases source with
  | fetched id => exact length_endFetch id
  | errorText signal => rfl

theorem signalFired_of_fires {p : ℕ → Fetch → Bool} {id : ℕ} (hid : id < s.fetches.length)
    (hp : ∀ i f, p i f = true) : (s.fireSignal p).signalFired id = true := by
  simp [signalFired, fireSignal, List.getElem?_mapIdx, List.getElem?_eq_getElem hid, hp]

/-- Signals fire, also those of the request. -/
theorem ledger_abort {p : ℕ → Fetch → Bool} (h : Ledger s) (aborted : Bool)
    (ha : aborted = s.aborted ∨ ∀ i f, p i f = true) :
    Ledger ({ s with aborted := aborted }.abort p) := by
  have hlength := length_fireSignal (s := { s with aborted := aborted }) p
  unfold ProxyContext.abort
  simp only []
  split
  · rename_i source upstream stream hphase
    have hid : source.signal < s.fetches.length := h.named _ (by rw [hphase]; rfl)
    have hstreams := h.streaming source upstream stream hphase
    have hbooks : Books ({ s with aborted := aborted }.fireSignal p) upstream :=
      ⟨hstreams.books.1, hstreams.books.2, hstreams.books.3, hstreams.books.4, hstreams.books.5⟩
    split
    · obtain ⟨hbooks', hreleased⟩ := hbooks.onAbort
      obtain ⟨_, _, _, _, _, heq⟩ := onAbort_eq ({ s with aborted := aborted }.fireSignal p) upstream
      have hp' : (({ s with aborted := aborted }.fireSignal p).onAbort upstream).phase =
          .streaming source upstream stream := by
        rw [heq]
        exact hphase
      have hid' : source.signal <
          (({ s with aborted := aborted }.fireSignal p).onAbort upstream).fetches.length := by
        rw [heq]
        exact hlength ▸ hid
      exact Ledger.of_streaming hp' hid'
        ⟨hbooks', fun hr => absurd hr (by simp [hreleased]), fun _ => hreleased⟩
    · rename_i hsilent
      refine Ledger.of_streaming hphase (hlength ▸ hid) ⟨hbooks, fun hr => ?_, hstreams.closed⟩
      have hw := hstreams.watched hr
      have hopen : stream ≠ .closed := fun hc => absurd (hstreams.closed hc) (by
        have hr' : s.permitReleased = false := hr
        simp [hr'])
      have hsignal : ({ s with aborted := aborted }.fireSignal p).signalFired source.signal =
          false := by
        cases hfired : ({ s with aborted := aborted }.fireSignal p).signalFired source.signal with
        | false => rfl
        | true => exact absurd ⟨hopen, hw.signal, hfired⟩ hsilent
      have haborted : aborted = false := by
        rcases ha with ha | hall
        · exact ha.trans hw.aborted
        · have hfired := signalFired_of_fires (s := { s with aborted := aborted }) hid hall
          exact absurd (hsignal.symm.trans hfired) (by simp)
      exact ⟨hw.1, hw.2, haborted, hsignal⟩
  · rename_i hphase
    refine ⟨?_, ?_, ?_, ?_, ?_⟩
    · rw [hlength]
      exact h.named
    · intro harr
      obtain ⟨hf, hrest⟩ := h.arriving harr
      exact ⟨⟨hf.1, hf.2, hf.3, hf.4, hf.5, hf.6⟩, hrest⟩
    · intro hr
      obtain ⟨hf, harmed⟩ := h.running hr
      exact ⟨⟨hf.1, hf.2, hf.3, hf.4, hf.5, hf.6⟩, harmed.1, harmed.2⟩
    · intro source upstream stream hp
      exact absurd hp (hphase source upstream stream)
    · intro hr
      have hanswered := h.returned hr
      exact ⟨hanswered.1, hanswered.2, hanswered.3, hanswered.4⟩

/-! ## Steps -/

theorem Streams.of_keeps (hk : Keeps s t) (h : Streams s source upstream stream) :
    Streams t source upstream stream where
  books := by
    obtain ⟨hp, href, hflushed, hreleases, hupdates⟩ := h.books
    rw [← hk.permit] at hp
    rw [← hk.flushCaptureRef] at href
    rw [← hk.flushed, ← hk.permitReleased] at hflushed
    rw [← hk.releases, ← hk.permitReleased] at hreleases
    rw [← hk.updates, ← hk.permitReleased] at hupdates
    exact ⟨hp, href, hflushed, hreleases, hupdates⟩
  watched := by
    rw [hk.permitReleased]
    intro hr
    obtain ⟨htimer, hfired, haborted, hsignal⟩ := h.watched hr
    refine ⟨?_, hk.watchdogFired.trans hfired, hk.aborted.trans haborted, ?_⟩
    · rw [hk.watchdogTimer]
      exact htimer
    · unfold signalFired
      rw [hk.fetches]
      exact hsignal
  closed := by
    rw [hk.permitReleased]
    exact h.closed

theorem Ledger.of_keeps (h : Ledger s) (hk : Keeps s t) (hp : t.phase = s.phase) : Ledger t where
  named := by
    rw [hp, hk.fetches]
    exact h.named
  arriving := by
    rw [hp, hk.permit, hk.watchdogTimer]
    intro ha
    exact ⟨(h.arriving ha).1.of_keeps hk, (h.arriving ha).2⟩
  running := by
    rw [hp]
    intro hr
    exact ⟨(h.running hr).1.of_keeps hk, (h.running hr).2.of_keeps hk⟩
  streaming := by
    rw [hp]
    intro source upstream stream hs
    exact (h.streaming source upstream stream hs).of_keeps hk
  returned := by
    rw [hp]
    intro hr
    obtain ⟨htimer, hreleased, hreleases, hupdates⟩ := h.returned hr
    rw [← hk.watchdogTimer] at htimer
    rw [← hk.permitReleased, ← hk.permit] at hreleased
    rw [← hk.releases, ← hk.permit] at hreleases
    rw [← hk.updates] at hupdates
    exact ⟨htimer, hreleased, hreleases, hupdates⟩

theorem ledger_fetchResolves (h : Ledger s) (response : Upstream) :
    Ledger (s.fetchResolves deps response) := by
  unfold fetchResolves
  split
  · rename_i id hphase
    obtain ⟨hf, ha⟩ := h.running (by rw [hphase]; trivial)
    have hid : id < s.fetches.length := h.named id (by rw [hphase]; rfl)
    split
    · rcases classify_cases deps s id response with ⟨hkeeps, hp⟩ | harr
      · refine Ledger.of_running (by rw [hp]; trivial) ?_ (hf.of_keeps hkeeps) (ha.of_keeps hkeeps)
        rw [hp, hkeeps.fetches]
        intro i hi
        rw [hi]
        exact hid
      · exact ledger_arrives harr hid hf ha
    · exact h
  · rename_i id hphase
    obtain ⟨hf, ha⟩ := h.running (by rw [hphase]; trivial)
    split
    · exact ledger_arrives (upstreamArrived_arrives _ _) (h.named id (by rw [hphase]; rfl)) hf ha
    · exact h
  · rename_i id first upstream hphase
    obtain ⟨hf, ha⟩ := h.running (by rw [hphase]; trivial)
    split
    · exact ledger_arrives (upstreamArrived_arrives _ _)
        (h.named id (by rw [hphase]; exact .inl rfl)) hf ha
    · exact h
  · exact h

theorem ledger_fetchRejects (h : Ledger s) (err : FetchError) (stats : Option GateStats) :
    Ledger (s.fetchRejects deps err stats) := by
  unfold fetchRejects
  split
  · rename_i id hphase
    obtain ⟨hf, ha⟩ := h.running (by rw [hphase]; trivial)
    exact ledger_settles (endFetch_fresh id hf) (endFetch_armed id ha)
      (upstreamFailed_settles _ _ _)
  · rename_i id hphase
    obtain ⟨hf, ha⟩ := h.running (by rw [hphase]; trivial)
    exact ledger_settles (endFetch_fresh id hf) (endFetch_armed id ha) (escalationFailed_settles _)
  · rename_i id first upstream hphase
    obtain ⟨hf, ha⟩ := h.running (by rw [hphase]; trivial)
    have hfirst : first < (s.endFetch id).fetches.length := by
      rw [length_endFetch]
      exact h.named first (by rw [hphase]; exact .inr rfl)
    exact ledger_arrives (upstreamArrived_arrives _ _) hfirst (endFetch_fresh id hf)
      (endFetch_armed id ha)
  · exact h

theorem ledger_auditThrows (h : Ledger s) : Ledger s.auditThrows := by
  unfold auditThrows
  split
  · rename_i id hphase
    obtain ⟨hf, ha⟩ := h.running (by rw [hphase]; trivial)
    split
    · exact ledger_settles hf ha (escalationFailed_settles _)
    · exact h
  · rename_i id first upstream hphase
    obtain ⟨hf, ha⟩ := h.running (by rw [hphase]; trivial)
    split
    · exact ledger_arrives (upstreamArrived_arrives _ _)
        (h.named first (by rw [hphase]; exact .inr rfl)) hf ha
    · exact h
  · exact h

theorem ledger_errorBody (h : Ledger s) (overloaded rewritten : Bool) :
    Ledger (s.errorBody deps overloaded rewritten) := by
  unfold errorBody
  split
  · rename_i id upstream hphase
    obtain ⟨hf, ha⟩ := h.running (by rw [hphase]; trivial)
    have hid : id < (s.endFetch id).fetches.length := by
      rw [length_endFetch]
      exact h.named id (by rw [hphase]; rfl)
    split
    · rcases rewriteOverloaded_cases deps s id upstream overloaded rewritten
        with ⟨_, ⟨timeout, response, heq⟩ | hsettles⟩ | harr
      · rw [heq]
        refine ledger_startFetch trivial (fun i hi => ?_) (endFetch_fresh id hf)
          (endFetch_armed id ha)
        rcases hi with rfl | rfl
        · exact le_rfl
        · exact hid.le
      · exact ledger_settles (endFetch_fresh id hf) (endFetch_armed id ha) hsettles
      · exact ledger_arrives harr hid (endFetch_fresh id hf) (endFetch_armed id ha)
    · exact h
  · exact h

theorem ledger_attempt (h : Ledger s) (hphase : s.phase = .ready) (rewritten : Bool) :
    Ledger (s.startAttempt deps rewritten) := by
  obtain ⟨hf, ha⟩ := h.running (by rw [hphase]; trivial)
  rcases startAttempt_cases deps s rewritten with
    ⟨t, timeout, controller, hkeeps, heq | heq⟩ | hsettles
  · rw [heq]
    exact ledger_startFetch trivial (fun i hi => le_of_eq hi) (hf.of_keeps hkeeps)
      (ha.of_keeps hkeeps)
  · rw [heq]
    exact ledger_startFetch trivial (fun i hi => le_of_eq hi) (hf.of_keeps hkeeps)
      (ha.of_keeps hkeeps)
  · exact ledger_settles hf ha hsettles

theorem ledger_firstChunk (h : Ledger s) (done : Bool) : Ledger (s.firstChunk done) := by
  unfold firstChunk
  split
  · rename_i source upstream hphase
    obtain ⟨hf, ha⟩ := h.running (by rw [hphase]; trivial)
    have hid : source.signal < s.fetches.length := h.named _ (by rw [hphase]; rfl)
    have hfresh : Fresh { s with ttftTimer := none } := hf.of_keeps (by rfl)
    have harmed : Armed { s with ttftTimer := none } := ha.of_keeps (by rfl)
    split
    · simp only []
      split
      · exact ledger_respond (by rw [length_endBody]; exact hid) (endBody_fresh hfresh)
          (endBody_armed source harmed)
      · exact ledger_respond (s := { s with ttftTimer := none }) hid hfresh harmed
    · exact h
  · exact h

theorem ledger_readRejects (h : Ledger s) (err : FetchError) (stats : Option GateStats) :
    Ledger (s.readRejects deps err stats) := by
  unfold readRejects
  split
  · rename_i id upstream hphase
    obtain ⟨hf, ha⟩ := h.running (by rw [hphase]; trivial)
    exact ledger_settles (endFetch_fresh id hf) (endFetch_armed id ha)
      (upstreamFailed_settles _ _ _)
  · exact h

theorem ledger_errorBodyRejects (h : Ledger s) : Ledger s.errorBodyRejects := by
  unfold errorBodyRejects
  split
  · rename_i id upstream hphase
    obtain ⟨hf, ha⟩ := h.running (by rw [hphase]; trivial)
    exact ledger_respondWith (endFetch_fresh id hf) (.inl ha.permit) _ _
  · exact h

theorem ledger_statusResolves (h : Ledger s) (modelP50 : Num ℚ) :
    Ledger (s.statusResolves modelP50) := by
  unfold statusResolves
  split
  · simp only []
    split
    · split
      · exact h.of_keeps (by rfl) rfl
      · exact h.of_keeps (by rfl) rfl
    · exact h.of_keeps (by rfl) rfl
  · exact h

theorem ledger_cooldownOver (h : Ledger s) : Ledger s.cooldownOver := by
  unfold cooldownOver
  split
  · rename_i due hphase
    obtain ⟨hf, ha⟩ := h.running (by rw [hphase]; trivial)
    split
    · exact Ledger.of_running trivial (fun i hi => hi.elim)
        (Fresh.of_keeps (s := s) (by rfl) hf) (Armed.of_keeps (s := s) (by rfl) ha)
    · exact h
  · exact h

theorem ledger_throws (h : Ledger s) : Ledger s.throws := by
  have hinternal : s.phase.Running → Ledger s.internalError := fun hr =>
    ledger_respondWith (h.running hr).1 (.inl (h.running hr).2.permit) _ _
  unfold throws
  cases hphase : s.phase with
  | arriving => exact h
  | streaming source upstream stream => exact h
  | returned => exact h
  | ready => exact hinternal (by rw [hphase]; trivial)
  | fetching id => exact hinternal (by rw [hphase]; trivial)
  | escalating id => exact hinternal (by rw [hphase]; trivial)
  | errorBody id upstream => exact hinternal (by rw [hphase]; trivial)
  | rewriting id first upstream => exact hinternal (by rw [hphase]; trivial)
  | firstChunk source upstream => exact hinternal (by rw [hphase]; trivial)
  | cooldown due => exact hinternal (by rw [hphase]; trivial)

theorem ledger_ttftTimeout (h : Ledger s) : Ledger s.ttftTimeout := by
  unfold ttftTimeout
  split
  · have hs : Ledger { s with ttftTimer := none, ttftAborted := true } := h.of_keeps (by rfl) rfl
    exact ledger_abort hs s.aborted (.inl rfl)
  · exact h

theorem ledger_upstreamTimeout (h : Ledger s) (id : ℕ) : Ledger (s.upstreamTimeout id) := by
  unfold upstreamTimeout
  split
  · exact ledger_abort h s.aborted (.inl rfl)
  · exact h

theorem signalFired_endFetch (s : ProxyContext) (id i : ℕ) :
    (s.endFetch id).signalFired i = s.signalFired i := by
  unfold signalFired endFetch
  rw [List.getElem?_modify]
  cases s.fetches[i]? with
  | none => rfl
  | some f =>
    by_cases hid : id = i
    · simp [hid]
    · simp [hid]

theorem signalFired_endBody (s : ProxyContext) (source : Source) (i : ℕ) :
    (s.endBody source).signalFired i = s.signalFired i := by
  cases source with
  | fetched id => exact signalFired_endFetch s id i
  | errorText signal => rfl

theorem endBody_books (h : Books s upstream) : Books (s.endBody source) upstream := by
  cases source with
  | fetched id => exact ⟨h.1, h.2, h.3, h.4, h.5⟩
  | errorText signal => exact h

theorem endBody_watched (h : Watched s source) : Watched (s.endBody source) source := by
  have hsignal := (signalFired_endBody s source source.signal).trans h.signal
  cases source with
  | fetched id => exact ⟨h.1, h.2, h.3, hsignal⟩
  | errorText signal => exact h

/-- The source of the stream is done, and `flush` has not run. -/
theorem ledger_endBody (h : Ledger s) {stream' : Stream}
    (hphase : s.phase = .streaming source upstream stream) (hs : stream' ≠ .closed) :
    Ledger { s.endBody source with phase := .streaming source upstream stream' } := by
  have hstreams := h.streaming source upstream stream hphase
  have hid : source.signal < (s.endBody source).fetches.length := by
    rw [length_endBody]
    exact h.named _ (by rw [hphase]; rfl)
  have hbooks : Books (s.endBody source) upstream := endBody_books hstreams.books
  have hwatched : (s.endBody source).permitReleased = false → Watched (s.endBody source) source := by
    intro hr
    refine endBody_watched (hstreams.watched ?_)
    cases source with
    | fetched id => exact hr
    | errorText signal => exact hr
  refine Ledger.of_streaming rfl hid ⟨?_, fun hr => ?_, fun hc => absurd hc hs⟩
  · exact ⟨hbooks.1, hbooks.2, hbooks.3, hbooks.4, hbooks.5⟩
  · obtain ⟨htimer, hfired, haborted, hsignal⟩ := hwatched hr
    exact ⟨htimer, hfired, haborted, hsignal⟩

theorem ledger_bodyEnd (h : Ledger s) : Ledger s.bodyEnd := by
  unfold bodyEnd
  split
  · rename_i source upstream hphase
    split
    · exact ledger_endBody h hphase (by simp)
    · exact h
  · exact h

theorem ledger_bodyError (h : Ledger s) : Ledger s.bodyError := by
  unfold bodyError
  split
  · rename_i id upstream hphase
    split
    · exact h
    · exact ledger_endBody h hphase (by simp)
  · exact h

theorem ledger_cancel (h : Ledger s) : Ledger s.cancel := by
  unfold cancel
  split
  · rename_i source upstream stream hphase
    split
    · exact ledger_endBody h hphase (by simp)
    · exact h
  · exact h

theorem ledger_flush (h : Ledger s) : Ledger s.flush := by
  unfold flush
  split
  · rename_i source upstream hphase
    obtain ⟨hbooks, hreleased⟩ := (h.streaming source upstream .ended hphase).books.flushRelease
    have hid : source.signal < (s.flushCapture upstream).releasePermit.fetches.length := by
      obtain ⟨_, _, _, _, _, heq⟩ := flushRelease_eq s upstream
      rw [heq]
      exact h.named _ (by rw [hphase]; rfl)
    refine Ledger.of_streaming rfl hid ⟨?_, fun hr => ?_, fun _ => hreleased⟩
    · exact ⟨hbooks.1, hbooks.2, hbooks.3, hbooks.4, hbooks.5⟩
    · exact absurd (hreleased.symm.trans hr) (by simp)
  · exact h

theorem watchdogTimeout_of_stream (hdue : s.watchdogTimer.any s.dueFirst = true)
    (href : s.flushCaptureRef = some upstream) :
    s.watchdogTimeout = ({ s with watchdogTimer := none, watchdogFired := true
      }.flushCapture upstream).releasePermit := by
  unfold watchdogTimeout
  rw [if_pos hdue]
  simp only []
  split
  · rename_i hnone
    exact absurd (href.symm.trans hnone) (by simp)
  · rename_i other hother
    cases href.symm.trans hother
    rfl

/-- The watchdog fires on a response: it flushes the capture of a stream
that is not closed, and releases its permit. -/
theorem ledger_watchdogTimeout (h : Ledger s)
    (hg : s.phase.Running → s.watchdogTimer.any s.dueFirst = false) :
    Ledger s.watchdogTimeout := by
  cases hdue : s.watchdogTimer.any s.dueFirst with
  | false =>
    have hsame : s.watchdogTimeout = s := by
      unfold watchdogTimeout
      rw [if_neg (by simp [hdue])]
    rw [hsame]
    exact h
  | true =>
    cases hphase : s.phase with
    | arriving =>
      have htimer := (h.arriving hphase).2.2
      exact absurd hdue (by simp [htimer])
    | returned =>
      have htimer := (h.returned hphase).watchdogTimer
      exact absurd hdue (by simp [htimer])
    | streaming source upstream stream =>
      obtain ⟨hp, href, hflushed, hreleases, hupdates⟩ :=
        (h.streaming source upstream stream hphase).books
      have hbooks : Books { s with watchdogTimer := none, watchdogFired := true } upstream :=
        ⟨hp, href, hflushed, hreleases, hupdates⟩
      obtain ⟨hbooks', hreleased⟩ := hbooks.flushRelease
      obtain ⟨_, _, _, _, _, heq⟩ :=
        flushRelease_eq { s with watchdogTimer := none, watchdogFired := true } upstream
      rw [watchdogTimeout_of_stream hdue href]
      rw [heq] at hbooks' hreleased ⊢
      exact Ledger.of_streaming hphase (h.named _ (by rw [hphase]; rfl))
        ⟨hbooks', fun hr => absurd (hreleased.symm.trans hr) (by simp), fun _ => hreleased⟩
    | _ => exact absurd (hg (by rw [hphase]; trivial)) (by simp [hdue])

/-- The request is answered before it has a permit. -/
theorem ledger_refused (h : Ledger s) (hphase : s.phase = .arriving) (status : ℕ)
    (reason : Option GateReason) : Ledger (s.respondWith status reason) := by
  obtain ⟨hf, _, htimer⟩ := h.arriving hphase
  exact ledger_respondWith hf (.inr htimer) status reason

theorem ledger_acquirePermit (h : Ledger s) (hphase : s.phase = .arriving) :
    Ledger s.acquirePermit := by
  obtain ⟨hf, _⟩ := h.arriving hphase
  exact Ledger.of_running trivial (fun i hi => hi.elim)
    ⟨hf.1, hf.2, hf.3, hf.4, hf.5, hf.6⟩ ⟨rfl, rfl⟩

/-- A step keeps the invariant, unless the watchdog fires before the
response. -/
theorem ledger_step (s : ProxyContext) (e : Step) (h : Ledger s) (hg : FiresBehindResponse s e) :
    Ledger (s.step deps e) := by
  cases e with
  | tick ms =>
    simp only [step]
    split
    · exact h.of_keeps (by rfl) rfl
    · exact h
  | reload config => exact h.of_keeps (by rfl) rfl
  | clientAbort => exact ledger_abort h true (.inr fun _ _ => rfl)
  | rateLimited retryAfter =>
    simp only [step]
    split
    · exact ledger_refused h ‹_› _ _
    · exact h
  | gateRejects code =>
    simp only [step]
    split
    · exact ledger_refused h ‹_› _ _
    · exact h
  | acquired =>
    simp only [step]
    split
    · exact ledger_acquirePermit h ‹_›
    · exact h
  | attempt rewritten =>
    simp only [step]
    split
    · exact ledger_attempt h ‹_› rewritten
    · exact h
  | fetchResolves response => exact ledger_fetchResolves h response
  | fetchRejects err stats => exact ledger_fetchRejects h err stats
  | auditThrows => exact ledger_auditThrows h
  | errorBody overloaded rewritten => exact ledger_errorBody h overloaded rewritten
  | errorBodyRejects => exact ledger_errorBodyRejects h
  | firstChunk done => exact ledger_firstChunk h done
  | readRejects err stats => exact ledger_readRejects h err stats
  | status modelP50 => exact ledger_statusResolves h modelP50
  | ttftTimeout => exact ledger_ttftTimeout h
  | cooldownOver => exact ledger_cooldownOver h
  | upstreamTimeout id => exact ledger_upstreamTimeout h id
  | watchdogTimeout => exact ledger_watchdogTimeout h hg
  | throws => exact ledger_throws h
  | bodyEnd => exact ledger_bodyEnd h
  | bodyError => exact ledger_bodyError h
  | cancel => exact ledger_cancel h
  | flush => exact ledger_flush h

theorem ledger_new (config : ProxyConfig) (now : ℚ) (aborted : Bool) :
    Ledger (new config now aborted) where
  named := fun i hi => hi.elim
  arriving := fun _ => ⟨⟨rfl, rfl, rfl, rfl, rfl, rfl⟩, rfl, rfl⟩
  running := fun hr => hr.elim
  streaming := fun _ _ _ hp => absurd hp (by simp [new])
  returned := fun hp => absurd hp (by simp [new])

/-! ## Finality -/

theorem Answered.finalised (h : Answered s) : Finalised s := ⟨h.releases, h.updates⟩

theorem Streams.finalised (h : Streams s source upstream stream) (hr : s.permitReleased = true) :
    Finalised s where
  releases := by
    rw [h.books.releases, h.books.permit, hr]
  updates := by
    rw [h.books.updates, hr]
    rfl

theorem Ledger.final (h : Ledger s) (hp : s.phase.Terminated) : Finalised s ∨ AwaitsWatchdog s := by
  cases hphase : s.phase with
  | returned => exact .inl (h.returned hphase).finalised
  | streaming source upstream stream =>
    have hstreams := h.streaming source upstream stream hphase
    cases hr : s.permitReleased with
    | true => exact .inl (hstreams.finalised hr)
    | false =>
      have hw := hstreams.watched hr
      have hfailed : stream = .errored ∨ stream = .cancelled := by
        rw [hphase] at hp
        rcases hp with hc | hfailed
        · exact absurd ((hstreams.closed hc).symm.trans hr) (by simp)
        · exact hfailed
      right
      exact
        { failed := ⟨source, upstream, stream, hphase, hfailed, hstreams.books.flushCaptureRef,
            hw.signal⟩
          aborted := hw.aborted
          watchdogFired := hw.watchdogFired
          watchdogTimer := hw.watchdogTimer
          permit := hstreams.books.permit
          releases := by simpa [hr] using hstreams.books.releases
          updates := by simpa [hr] using hstreams.books.updates }
  | _ =>
    rw [hphase] at hp
    exact hp.elim

end

/-- The body of the second attempt fails, and the watchdog fires. -/
def failedStream : List Step := retryInTime ++ [.bodyError, .tick 4000, .watchdogTimeout]

end UmansGate.Proxy
