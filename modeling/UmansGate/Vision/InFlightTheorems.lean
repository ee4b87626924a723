/-
UmansGate.Vision.InFlightTheorems — what the waiters of an in-flight vision
call end with.

`WellInformed` is what a waiter may return when its leader has ended:
the leader's description where the call succeeded, else a failure
placeholder that is not empty and does not speak of another client. A
vision call that ends with an answer of its own informs its waiters so, but
a leader that fails before or beside the call resolves the promise with the
empty string, and an exception between the transcoding and the call leaves
it open (`misinforms`). The invariant `Deduped` ties every entry of
`inflight` to a leader under its own key.
-/
import UmansGate.Lib.Transition
import UmansGate.Vision.CacheTheorems
import UmansGate.Vision.FastPathTheorems
import UmansGate.Vision.InFlight

namespace UmansGate.Vision

open UmansGate.Lib

/-! ## Descriptions -/

@[simp] theorem isFailurePlaceholder_failurePlaceholder (reason : FailureReason)
    (detail : JsString) : isFailurePlaceholder (failurePlaceholder reason detail) = true := by
  simp [isFailurePlaceholder, failurePlaceholder, List.append_assoc, List.isPrefixOf_iff_prefix]

theorem ne_nil_of_isFailurePlaceholder {d : JsString} (h : isFailurePlaceholder d = true) :
    d ≠ [] := by
  rintro rfl
  exact absurd h (by decide)

theorem failurePlaceholder_ne_nil (reason : FailureReason) (detail : JsString) :
    failurePlaceholder reason detail ≠ [] :=
  ne_nil_of_isFailurePlaceholder (isFailurePlaceholder_failurePlaceholder reason detail)

theorem wrapDescription_injective : Function.Injective wrapDescription :=
  fun _ _ h => List.append_cancel_left h

/-- A vision call never describes an image with the empty text. -/
theorem callVisionRecorded_ne_nil (call : VisionCallConfig) (timeoutMs : ℕ)
    (outcome : VisionOutcome) : callVisionRecorded call timeoutMs outcome ≠ [] := by
  unfold callVisionRecorded
  split
  · cases outcome with
    | content text =>
      by_cases htext : text = []
      · simp [htext, failurePlaceholder_ne_nil]
      · simp [htext]
    | abortError => exact failurePlaceholder_ne_nil _ _
    | timeoutError => exact failurePlaceholder_ne_nil _ _
    | gateError => exact failurePlaceholder_ne_nil _ _
    | fetchError => exact failurePlaceholder_ne_nil _ _
    | httpStatus status => exact failurePlaceholder_ne_nil _ _
    | notJson => exact failurePlaceholder_ne_nil _ _
  · exact failurePlaceholder_ne_nil _ _

/-! ## Waiters -/

/-- What a waiter for `client` may return when its leader ended so. -/
structure WellInformed (gone : List ℕ) (client : ℕ) (leader : CallState)
    (result : ImageProcessResult) : Prop where
  ended : leader.ended = true
  outcome : match leader.description? with
    | some text => result.description = text
    | none => ∃ d, isFailurePlaceholder d = true ∧ result.description = wrapDescription d
  notEmpty : result.description ≠ wrapDescription []
  ownClient : result.description = wrapDescription (failurePlaceholder .aborted []) →
    client ∈ gone

/-- Every waiter waits for a call that still runs, or returned what it may. -/
structure Informed (gone : List ℕ) (calls : List ImageCall) : Prop where
  waiting : ∀ (i : ℕ) (w : ImageCall) (leader : ℕ), calls[i]? = some w →
    w.state = .waiting leader → ∃ c : ImageCall, calls[leader]? = some c ∧ c.state.running = true
  awaited : ∀ (i : ℕ) (w : ImageCall) (leader : ℕ) (result : ImageProcessResult),
    calls[i]? = some w → w.state = .awaited leader result →
    ∃ c : ImageCall, calls[leader]? = some c ∧ WellInformed gone w.client c.state result

theorem WellInformed.mono {gone gone' : List ℕ} {client : ℕ} {leader : CallState}
    {result : ImageProcessResult} (h : WellInformed gone client leader result)
    (hsub : gone ⊆ gone') : WellInformed gone' client leader result :=
  ⟨h.ended, h.outcome, h.notEmpty, fun hd => hsub (h.ownClient hd)⟩

namespace Informed

variable {gone : List ℕ} {calls : List ImageCall} {call new : ImageCall} {id : ℕ}
  {state : CallState} {desc : JsString}

theorem mono {gone' : List ℕ} (h : Informed gone calls) (hsub : gone ⊆ gone') :
    Informed gone' calls := by
  refine ⟨h.waiting, fun i w leader result hw hstate => ?_⟩
  obtain ⟨c, hc, hinf⟩ := h.awaited i w leader result hw hstate
  exact ⟨c, hc, hinf.mono hsub⟩

theorem nil : Informed gone [] :=
  ⟨by simp, by simp⟩

/-- A new call that waits, waits for a leader that runs. -/
theorem push (h : Informed gone calls)
    (hwait : ∀ leader, new.state = .waiting leader →
      ∃ c : ImageCall, calls[leader]? = some c ∧ c.state.running = true)
    (hfresh : ∀ leader result, new.state ≠ .awaited leader result) :
    Informed gone (calls ++ [new]) := by
  have hold : ∀ {i : ℕ} {c : ImageCall}, calls[i]? = some c → (calls ++ [new])[i]? = some c := fun hc => by
    rw [List.getElem?_append_left (List.getElem?_eq_some_iff.mp hc).1, hc]
  have hcases : ∀ {i : ℕ} {w : ImageCall}, (calls ++ [new])[i]? = some w → calls[i]? = some w ∨ w = new := by
    intro i w hw
    rcases Nat.lt_or_ge i calls.length with hi | hi
    · rw [List.getElem?_append_left hi] at hw
      exact .inl hw
    · rw [List.getElem?_append_right hi, List.getElem?_singleton] at hw
      split at hw
      · exact .inr (Option.some.inj hw).symm
      · cases hw
  constructor
  · intro i w leader hw hstate
    rcases hcases hw with hw | rfl
    · obtain ⟨c, hc, hrun⟩ := h.waiting i w leader hw hstate
      exact ⟨c, hold hc, hrun⟩
    · obtain ⟨c, hc, hrun⟩ := hwait leader hstate
      exact ⟨c, hold hc, hrun⟩
  · intro i w leader result hw hstate
    rcases hcases hw with hw | rfl
    · obtain ⟨c, hc, hinf⟩ := h.awaited i w leader result hw hstate
      exact ⟨c, hold hc, hinf⟩
    · exact absurd hstate (hfresh leader result)

/-- The call of a place keeps its state, if that had ended. -/
theorem getElem?_set_of_ended {c : ImageCall} {i : ℕ} (hcall : calls[id]? = some call)
    (hrun : call.state.running = true) (hc : calls[i]? = some c) (hended : c.state.ended = true) :
    (calls.set id new)[i]? = some c := by
  have hne : id ≠ i := by
    rintro rfl
    obtain rfl : call = c := Option.some.inj (hcall.symm.trans hc)
    cases hstate : call.state <;> simp [hstate, CallState.ended, CallState.running] at hended hrun
  rw [List.getElem?_set_ne hne, hc]

/-- A leader goes on: it still runs, or nobody waits for it. -/
theorem setState (h : Informed gone calls) (hcall : calls[id]? = some call)
    (hrun : call.state.running = true) (hwait : ∀ leader, state ≠ .waiting leader)
    (hfresh : ∀ leader result, state ≠ .awaited leader result)
    (hnext : state.running = true ∨ ∀ w ∈ calls, w.state ≠ .waiting id) :
    Informed gone (calls.set id { call with state := state }) := by
  have hid : id < calls.length := (List.getElem?_eq_some_iff.mp hcall).1
  constructor
  · intro i w leader hw hstate
    have hw' : calls[i]? = some w := by
      rw [List.getElem?_set] at hw
      split at hw
      · obtain rfl := Option.some.inj hw
        exact absurd hstate (hwait leader)
      · exact hw
    obtain ⟨c, hc, hcrun⟩ := h.waiting i w leader hw' hstate
    by_cases hleader : id = leader
    · subst hleader
      rcases hnext with hnext | hnone
      · exact ⟨_, List.getElem?_set_self hid, hnext⟩
      · exact absurd hstate (hnone w (List.mem_of_getElem? hw'))
    · exact ⟨c, by rw [List.getElem?_set_ne hleader, hc], hcrun⟩
  · intro i w leader result hw hstate
    rw [List.getElem?_set] at hw
    split at hw
    · obtain rfl := Option.some.inj hw
      exact absurd hstate (hfresh leader result)
    · obtain ⟨c, hc, hinf⟩ := h.awaited i w leader result hw hstate
      exact ⟨c, getElem?_set_of_ended hcall hrun hc hinf.ended, hinf⟩

open ImageProcessor in
/-- A leader ends, and its waiters return what the promise is resolved
with. -/
theorem settle (h : Informed gone calls) (hcall : calls[id]? = some call)
    (hrun : call.state.running = true) (hended : state.ended = true)
    (hfresh : ∀ leader result, state ≠ .awaited leader result)
    (hwake : ∀ w ∈ calls, w.state = .waiting id →
      WellInformed gone w.client state (cacheHit desc)) :
    Informed gone ((calls.set id { call with state := state }).map (wake id desc)) := by
  have hid : id < calls.length := (List.getElem?_eq_some_iff.mp hcall).1
  have hkept : ∀ {i : ℕ} {c : ImageCall}, calls[i]? = some c → c.state.ended = true →
      ((calls.set id { call with state := state }).map (wake id desc))[i]? = some c := by
    intro i c hc hcended
    rw [List.getElem?_map, getElem?_set_of_ended hcall hrun hc hcended, Option.map_some, wake,
      if_neg]
    intro hwaits
    rw [hwaits] at hcended
    cases hcended
  have hself : ((calls.set id { call with state := state }).map (wake id desc))[id]? =
      some { call with state := state } := by
    rw [List.getElem?_map, List.getElem?_set_self hid, Option.map_some, wake, if_neg]
    rintro rfl
    cases hended
  -- a call of the new list is the leader, a woken waiter or as it was
  have hcases : ∀ {i : ℕ} {w : ImageCall},
      ((calls.set id { call with state := state }).map (wake id desc))[i]? = some w →
      w = { call with state := state } ∨
        ∃ w₀, calls[i]? = some w₀ ∧ i ≠ id ∧ w = wake id desc w₀ := by
    intro i w hw
    by_cases hi : i = id
    · subst hi
      rw [hself] at hw
      exact .inl (Option.some.inj hw).symm
    · rw [List.getElem?_map, List.getElem?_set_ne (Ne.symm hi)] at hw
      obtain ⟨w₀, hw₀, rfl⟩ := Option.map_eq_some_iff.mp hw
      exact .inr ⟨w₀, hw₀, hi, rfl⟩
  constructor
  · intro i w leader hw hstate
    rcases hcases hw with rfl | ⟨w₀, hw₀, -, rfl⟩
    · rw [show state = .waiting leader from hstate] at hended
      cases hended
    · unfold wake at hstate
      split at hstate
      · cases hstate
      · rename_i hother
        obtain ⟨c, hc, hcrun⟩ := h.waiting i w₀ leader hw₀ hstate
        have hleader : id ≠ leader := by
          rintro rfl
          exact hother hstate
        refine ⟨c, ?_, hcrun⟩
        rw [List.getElem?_map, List.getElem?_set_ne hleader, hc, Option.map_some, wake, if_neg]
        intro hwaits
        rw [hwaits] at hcrun
        cases hcrun
  · intro i w leader result hw hstate
    rcases hcases hw with rfl | ⟨w₀, hw₀, -, rfl⟩
    · exact absurd hstate (hfresh leader result)
    · unfold wake at hstate ⊢
      split at hstate
      · rename_i hwaits
        obtain ⟨rfl, rfl⟩ := CallState.awaited.inj hstate
        rw [if_pos hwaits]
        exact ⟨_, hself, hwake w₀ (List.mem_of_getElem? hw₀) hwaits⟩
      · rename_i hother
        rw [if_neg hother]
        obtain ⟨c, hc, hinf⟩ := h.awaited i w₀ leader result hw₀ hstate
        exact ⟨c, hkept hc hinf.ended, hinf⟩

end Informed

/-! ## The map -/

namespace ImageProcessor

/-- The descriptions that the cache may have. -/
def Kept (_ : Int) (d : JsString) : Prop := d ≠ [] ∧ isFailurePlaceholder d = false

section

variable (sha256 : List UInt8 → JsString) (handoff : HandoffConfig) (timeoutMs : ℕ)

/-- The cache has no failure, and every promise of the map is open or was
abandoned by an exception of its leader, under the key of its image. -/
structure Deduped (ttlMs : Int) (s : ImageProcessor) : Prop where
  cached : s.cache.Holds Kept ttlMs
  inflight : ∀ key leader, s.inflight.get? key = some leader →
    ∃ c : ImageCall, s.calls[leader]? = some c ∧ cacheKey sha256 handoff c.decoded = key ∧
      (c.state.running = true ∨ c.state = .threw)

variable {sha256 handoff timeoutMs} {ttlMs : Int} {s : ImageProcessor} {id : ℕ}
  {call : ImageCall} {state : CallState}

theorem holds_lookupDescription {c : Descriptions} {now : Int} {decoded : List UInt8}
    {contextHash : Option JsString} (h : c.Holds Kept ttlMs) :
    (lookupDescription sha256 handoff now decoded contextHash c).1.Holds Kept ttlMs :=
  (DescriptionCache.served_getOrCompute h (by simp) fun _ _ hd _ => hd).holds

/-- What a vision call leaves is its own description or a kept one. -/
theorem storeDescription_spec (call : ImageCall) {description : JsString} (fails : Bool × Bool)
    (h : s.cache.Holds Kept ttlMs) (hne : description ≠ []) :
    (storeDescription sha256 handoff s call description fails).1.Holds Kept ttlMs ∧
      ((storeDescription sha256 handoff s call description fails).2 = description ∨
        Kept s.now (storeDescription sha256 handoff s call description fails).2) := by
  have hcompute : ∀ d, some description = some d → (!isFailurePlaceholder d) = true →
      Kept s.now d := by
    rintro d ⟨⟩ hok
    exact ⟨hne, by simpa using hok⟩
  unfold storeDescription
  generalize hr : DescriptionCache.getOrCompute s.cache s.now _ _ (some description) _ fails = r
  have hserved : DescriptionCache.Served Kept ttlMs s.now (some description) r := by
    rw [← hr]
    exact DescriptionCache.served_getOrCompute h hcompute fun _ _ hd _ => hd
  have hsome : r.2.isSome := by
    rw [← hr]
    exact DescriptionCache.isSome_getOrCompute
  obtain ⟨c, _ | stored⟩ := r
  · cases hsome
  · refine ⟨hserved.holds, ?_⟩
    rcases hserved.live stored rfl with hvalue | ⟨_, hkept, -⟩
    · exact .inl (Option.some.inj hvalue).symm
    · exact .inr hkept

/-- The two ways a leader's promise is looked at. -/
theorem transcoding?_eq_some (h : s.transcoding? id = some call) :
    s.calls[id]? = some call ∧ call.state = .transcoding := by
  simpa [transcoding?, Option.filter_eq_some_iff] using h

theorem calling?_eq_some {start : Int} (h : s.calling? id = some (call, start)) :
    s.calls[id]? = some call ∧ call.state = .calling start := by
  obtain ⟨c, hc, hstate⟩ := Option.bind_eq_some_iff.mp h
  split at hstate
  · rename_i start' hcalling
    obtain ⟨rfl, rfl⟩ := Prod.mk.inj (Option.some.inj hstate)
    exact ⟨hc, hcalling⟩
  · cases hstate

theorem Deduped.push (h : Deduped sha256 handoff ttlMs s) {c : Descriptions} {new : ImageCall}
    (hc : c.Holds Kept ttlMs) :
    Deduped sha256 handoff ttlMs ({ s with cache := c }.push new) := by
  refine ⟨hc, fun key leader hkey => ?_⟩
  obtain ⟨l, hl, hlead⟩ := h.inflight key leader hkey
  refine ⟨l, ?_, hlead⟩
  simp only [ImageProcessor.push]
  rw [List.getElem?_append_left (List.getElem?_eq_some_iff.mp hl).1, hl]

/-- A call that found no promise leads under the key of its image. -/
theorem Deduped.lead (h : Deduped sha256 handoff ttlMs s) {c : Descriptions} (new : ImageCall)
    (hc : c.Holds Kept ttlMs) (hnew : new.state.running = true) :
    Deduped sha256 handoff ttlMs ({ s with
      cache := c
      inflight := s.inflight.set (cacheKey sha256 handoff new.decoded) s.calls.length }.push
        new) := by
  refine ⟨hc, fun key leader hkey => ?_⟩
  simp only [ImageProcessor.push, Dict.get?_set] at hkey ⊢
  split at hkey
  · rename_i heq
    obtain rfl := Option.some.inj hkey
    exact ⟨new, by simp, heq, .inl hnew⟩
  · obtain ⟨l, hl, hlead⟩ := h.inflight key leader hkey
    exact ⟨l, by rw [List.getElem?_append_left (List.getElem?_eq_some_iff.mp hl).1, hl], hlead⟩

theorem Deduped.setState (h : Deduped sha256 handoff ttlMs s) (hcall : s.calls[id]? = some call)
    (hstate : state.running = true ∨ state = .threw) :
    Deduped sha256 handoff ttlMs (s.setState id call state) := by
  refine ⟨h.cached, fun key leader hkey => ?_⟩
  obtain ⟨l, hl, hlkey, hlead⟩ := h.inflight key leader hkey
  simp only [ImageProcessor.setState]
  by_cases hleader : id = leader
  · subst hleader
    obtain rfl : call = l := Option.some.inj (hcall.symm.trans hl)
    exact ⟨_, List.getElem?_set_self (List.getElem?_eq_some_iff.mp hcall).1, hlkey, hstate⟩
  · exact ⟨l, by rw [List.getElem?_set_ne hleader, hl], hlkey, hlead⟩

theorem Deduped.settle (h : Deduped sha256 handoff ttlMs s) (hcall : s.calls[id]? = some call)
    {desc : JsString} : Deduped sha256 handoff ttlMs (settle sha256 handoff s id call state desc) := by
  refine ⟨h.cached, fun key leader hkey => ?_⟩
  simp only [ImageProcessor.settle, ImageProcessor.setState, Dict.get?_erase] at hkey ⊢
  split at hkey
  · cases hkey
  · rename_i hne
    obtain ⟨l, hl, hlkey, hlead⟩ := h.inflight key leader hkey
    -- the deleted key is the leader's own, so another leader stays
    have hleader : id ≠ leader := by
      rintro rfl
      obtain rfl : call = l := Option.some.inj (hcall.symm.trans hl)
      exact hne hlkey
    refine ⟨l, ?_, hlkey, hlead⟩
    rw [List.getElem?_map, List.getElem?_set_ne hleader, hl, Option.map_some, wake, if_neg]
    intro hwaits
    rw [hwaits] at hlead
    simp [CallState.running] at hlead

/-- The cache changes, the calls do not. -/
theorem Deduped.setCache (h : Deduped sha256 handoff ttlMs s) {c : Descriptions}
    (hc : c.Holds Kept ttlMs) : Deduped sha256 handoff ttlMs { s with cache := c } :=
  ⟨hc, h.inflight⟩

theorem deduped_start (h : Deduped sha256 handoff ttlMs s) (client : ℕ) (decoded : List UInt8)
    (contextHash : Option JsString) :
    Deduped sha256 handoff ttlMs (start sha256 handoff s client decoded contextHash) := by
  have hlookup : (lookupDescription sha256 handoff s.now decoded contextHash s.cache).1.Holds Kept
      ttlMs := holds_lookupDescription h.cached
  unfold start
  rcases hc : lookupDescription sha256 handoff s.now decoded contextHash s.cache with
    ⟨c, _ | cached⟩
  · rw [hc] at hlookup
    simp only
    split
    · exact h.push hlookup
    · exact h.lead ⟨client, decoded, contextHash, .transcoding⟩ hlookup rfl
  · rw [hc] at hlookup
    exact h.push hlookup

theorem deduped_step (h : Deduped sha256 handoff ttlMs s) (op : ImageOp) :
    Deduped sha256 handoff ttlMs (step sha256 handoff timeoutMs s op) := by
  cases op with
  | wait ms => exact ⟨h.cached, h.inflight⟩
  | disconnect client => exact ⟨h.cached, h.inflight⟩
  | start client decoded contextHash => exact deduped_start h client decoded contextHash
  | transcoded id =>
    simp only [step]
    split
    · exact h
    · rename_i call hcall
      exact h.setState (transcoding?_eq_some hcall).1 (.inl rfl)
  | transcodeFails id code =>
    simp only [step]
    split
    · exact h
    · rename_i call hcall
      exact h.settle (transcoding?_eq_some hcall).1
  | insertThrows id =>
    simp only [step]
    split
    · exact h
    · rename_i call hcall
      exact h.setState (transcoding?_eq_some hcall).1 (.inr rfl)
  | visionEnds id outcome fails =>
    simp only [step, visionEnds]
    split
    · exact h
    · rename_i call began hcall
      split
      · exact h
      · have hanswer := callVisionRecorded_ne_nil handoff.call timeoutMs outcome
        exact (h.setCache (storeDescription_spec call fails h.cached hanswer).1).settle
          (calling?_eq_some hcall).1
  | visionThrows id =>
    simp only [step]
    split
    · exact h
    · rename_i call began hcall
      exact h.settle (calling?_eq_some hcall).1
  | lookup decoded => exact h.setCache (holds_lookupDescription h.cached)
  | warmIntoCache limit fails => exact h.setCache (h.cached.warmIntoCache fun _ _ hd => hd)
  | flushNow fails => exact h.setCache (h.cached.mapPersistent fun _ hp => hp.flushNow)
  | restart fails => exact ⟨h.cached.restart, by simp [step]⟩

/-! ## Steps -/

/-- The step leaves a waiter without a description: a leader fails while
somebody waits for it, a vision call tells of another client's
disconnection, or a call awaits a promise that an exception left open. -/
def misinforms (sha256 : List UInt8 → JsString) (handoff : HandoffConfig) (timeoutMs : ℕ)
    (s : ImageProcessor) : ImageOp → Bool
  | .start _ decoded contextHash =>
    (lookupDescription sha256 handoff s.now decoded contextHash s.cache).2 = none ∧
      (s.inflight.get? (cacheKey sha256 handoff decoded)).any fun leader =>
        s.calls[leader]?.any (·.state = .threw)
  | .transcodeFails id _ => (s.transcoding? id).isSome ∧ s.calls.any (·.state = .waiting id)
  | .insertThrows id => (s.transcoding? id).isSome ∧ s.calls.any (·.state = .waiting id)
  | .visionThrows id => (s.calling? id).isSome ∧ s.calls.any (·.state = .waiting id)
  | .visionEnds id outcome _ =>
    callVisionRecorded handoff.call timeoutMs outcome = failurePlaceholder .aborted [] ∧
      (s.calling? id).isSome ∧
      s.calls.any fun w => w.state = .waiting id ∧ w.client ∉ s.gone
  | _ => false

theorem informed_start (hd : Deduped sha256 handoff ttlMs s) (h : Informed s.gone s.calls)
    {client : ℕ} {decoded : List UInt8} {contextHash : Option JsString}
    (hop : misinforms sha256 handoff timeoutMs s (.start client decoded contextHash) = false) :
    Informed (start sha256 handoff s client decoded contextHash).gone
      (start sha256 handoff s client decoded contextHash).calls := by
  simp only [misinforms] at hop
  unfold start
  rcases hc : lookupDescription sha256 handoff s.now decoded contextHash s.cache with
    ⟨c, _ | cached⟩
  · rw [hc] at hop
    simp only
    split
    · rename_i leader hleader
      refine h.push ?_ (by simp)
      rintro leader' ⟨⟩
      obtain ⟨l, hl, -, hrun | hthrew⟩ := hd.inflight _ _ hleader
      · exact ⟨l, hl, hrun⟩
      · simp [hleader, hl, hthrew] at hop
    · exact h.push (by simp) (by simp)
  · exact h.push (by simp) (by simp)

theorem informed_visionEnds (hd : Deduped sha256 handoff ttlMs s) (h : Informed s.gone s.calls)
    {outcome : VisionOutcome} {fails : Bool × Bool}
    (hop : misinforms sha256 handoff timeoutMs s (.visionEnds id outcome fails) = false) :
    Informed (visionEnds sha256 handoff timeoutMs s id outcome fails).gone
      (visionEnds sha256 handoff timeoutMs s id outcome fails).calls := by
  unfold visionEnds
  split
  · exact h
  · rename_i call began hcall
    obtain ⟨hcall', hcalling⟩ := calling?_eq_some hcall
    split
    · exact h
    · have hanswer := callVisionRecorded_ne_nil handoff.call timeoutMs outcome
      generalize hr : storeDescription sha256 handoff s call _ fails = r
      have hstored : r.2 = callVisionRecorded handoff.call timeoutMs outcome ∨ Kept s.now r.2 := by
        rw [← hr]
        exact (storeDescription_spec call fails hd.cached hanswer).2
      obtain ⟨c, stored⟩ := r
      have hne : stored ≠ [] := by
        rcases hstored with rfl | hkept
        · exact hanswer
        · exact hkept.1
      refine h.settle hcall' (by rw [hcalling]; rfl) rfl (by simp) fun w hw hwaits => ?_
      refine ⟨rfl, ?_, fun hempty => hne (wrapDescription_injective hempty), fun habort => ?_⟩
      · cases hfailure : isFailurePlaceholder stored with
        | true => simpa [CallState.description?, hfailure] using ⟨stored, hfailure, rfl⟩
        | false => simp [CallState.description?, hfailure, cacheHit]
      · -- a kept description is no failure, so the call itself was aborted
        obtain rfl : stored = failurePlaceholder .aborted [] := wrapDescription_injective habort
        rcases hstored with haborted | hkept
        · by_contra hgone
          simp only [misinforms, ← haborted, hcall] at hop
          simp only [decide_eq_false_iff_not, not_and] at hop
          refine hop trivial rfl (List.any_eq_true.mpr ⟨w, hw, ?_⟩)
          simp [hwaits, hgone]
        · simp [Kept] at hkept

theorem informed_step (hd : Deduped sha256 handoff ttlMs s) (h : Informed s.gone s.calls)
    (op : ImageOp) (hop : misinforms sha256 handoff timeoutMs s op = false) :
    Informed (step sha256 handoff timeoutMs s op).gone
      (step sha256 handoff timeoutMs s op).calls := by
  cases op with
  | wait ms => exact h
  | disconnect client => exact h.mono (List.subset_cons_self client s.gone)
  | start client decoded contextHash => exact informed_start hd h hop
  | transcoded id =>
    simp only [step]
    split
    · exact h
    · rename_i call hcall
      obtain ⟨hcall', htranscoding⟩ := transcoding?_eq_some hcall
      exact h.setState hcall' (by rw [htranscoding]; rfl) (by simp) (by simp) (.inl rfl)
  | transcodeFails id code =>
    simp only [step]
    split
    · exact h
    · rename_i call hcall
      obtain ⟨hcall', htranscoding⟩ := transcoding?_eq_some hcall
      have hnone : ∀ w ∈ s.calls, w.state ≠ .waiting id := by
        simpa [misinforms, hcall] using hop
      exact h.settle hcall' (by rw [htranscoding]; rfl) rfl (by simp)
        fun w hw hwaits => absurd hwaits (hnone w hw)
  | insertThrows id =>
    simp only [step]
    split
    · exact h
    · rename_i call hcall
      obtain ⟨hcall', htranscoding⟩ := transcoding?_eq_some hcall
      have hnone : ∀ w ∈ s.calls, w.state ≠ .waiting id := by
        simpa [misinforms, hcall] using hop
      exact h.setState hcall' (by rw [htranscoding]; rfl) (by simp) (by simp) (.inr hnone)
  | visionEnds id outcome fails => exact informed_visionEnds hd h hop
  | visionThrows id =>
    simp only [step]
    split
    · exact h
    · rename_i call began hcall
      obtain ⟨hcall', hcalling⟩ := calling?_eq_some hcall
      have hnone : ∀ w ∈ s.calls, w.state ≠ .waiting id := by
        simpa [misinforms, hcall] using hop
      exact h.settle hcall' (by rw [hcalling]; rfl) rfl (by simp)
        fun w hw hwaits => absurd hwaits (hnone w hw)
  | lookup decoded => exact h
  | warmIntoCache limit fails => exact h
  | flushNow fails => exact h
  | restart fails => exact Informed.nil

/-! ## Runs -/

theorem deduped_init (start : Int) (maxSize : ℕ) (store : Option (ℕ × ℕ)) :
    Deduped sha256 handoff ttlMs (init start maxSize ttlMs store) := by
  refine ⟨DescriptionCache.Holds.new fun p hp => ?_, by simp [init]⟩
  obtain ⟨_, -, rfl⟩ := Option.map_eq_some_iff.mp hp
  exact .new (by simp)

/-- **The promises of the map are those of running leaders, and of leaders
that an exception took.** -/
theorem deduped_run (start : Int) (maxSize : ℕ) (ttlMs : Int) (store : Option (ℕ × ℕ))
    (ops : List ImageOp) : Deduped sha256 handoff ttlMs
      (run (step sha256 handoff timeoutMs) (init start maxSize ttlMs store) ops) :=
  run_invariant (I := Deduped sha256 handoff ttlMs) (fun _ op h => deduped_step h op)
    (deduped_init start maxSize store) ops

/-- **Every waiter is informed** in a run where no leader fails or is
aborted over the heads of its waiters. -/
theorem waiters_informed_of_not_misinforms (sha256 : List UInt8 → JsString)
    (handoff : HandoffConfig) (timeoutMs : ℕ) (start : Int) (maxSize : ℕ) (ttlMs : Int)
    (store : Option (ℕ × ℕ)) (ops : List ImageOp)
    (h : StepsMeet (step sha256 handoff timeoutMs)
      (fun s op => misinforms sha256 handoff timeoutMs s op = false)
      (init start maxSize ttlMs store) ops) :
    Informed (run (step sha256 handoff timeoutMs) (init start maxSize ttlMs store) ops).gone
      (run (step sha256 handoff timeoutMs) (init start maxSize ttlMs store) ops).calls :=
  (run_invariant_of_stepsMeet
    (I := fun s => Deduped sha256 handoff ttlMs s ∧ Informed s.gone s.calls)
    (fun _ op hs hop => ⟨deduped_step hs.1 op, informed_step hs.1 hs.2 op hop⟩)
    ⟨deduped_init start maxSize store, Informed.nil⟩ h).2

/-! ## Two clients with one image -/

variable (sha256 handoff)

/-- A first call leads. -/
theorem step_first_start : step sha256 handoff 1000 (init 0 100 1000 none) (.start 0 [1] none) =
    { init 0 100 1000 none with
      inflight := [(cacheKey sha256 handoff [1], 0)]
      calls := [⟨0, [1], none, .transcoding⟩] } := by
  simp [step, start, init, lookupDescription, DescriptionCache.new,
    DescriptionCache.getOrCompute, Lru.has, Lru.find?, DescriptionCache.takePersisted,
    DescriptionCache.persistentGet, DescriptionCache.takeImageOnly,
    DescriptionCache.storeComputed, ImageProcessor.push, Dict.set, truthy?]

theorem run_two_starts (ops : List ImageOp) :
    run (step sha256 handoff 1000) (init 0 100 1000 none)
      (.start 0 [1] none :: .start 1 [1] none :: ops) =
    run (step sha256 handoff 1000)
      { init 0 100 1000 none with
        inflight := [(cacheKey sha256 handoff [1], 0)]
        calls := [⟨0, [1], none, .transcoding⟩, ⟨1, [1], none, .waiting 0⟩] } ops := by
  rw [run_cons, run_cons, step_first_start]
  simp [step, start, init, lookupDescription, DescriptionCache.new,
    DescriptionCache.getOrCompute, Lru.has, Lru.find?, DescriptionCache.takePersisted,
    DescriptionCache.persistentGet, DescriptionCache.takeImageOnly,
    DescriptionCache.storeComputed, ImageProcessor.push, Dict.get?, truthy?]

theorem gone_visionEnds (s : ImageProcessor) (id : ℕ) (outcome : VisionOutcome)
    (fails : Bool × Bool) :
    (visionEnds sha256 handoff timeoutMs s id outcome fails).gone = s.gone := by
  unfold visionEnds
  split
  · rfl
  · split
    · rfl
    · rfl

theorem storeDescription_empty (s : ImageProcessor) (call : ImageCall) (description : JsString)
    (h : s.cache = .new 100 1000 none) (hctx : call.contextHash = none) :
    (storeDescription sha256 handoff s call description (false, false)).2 = description := by
  simp [storeDescription, h, hctx, DescriptionCache.new, DescriptionCache.getOrCompute, Lru.has,
    Lru.find?, DescriptionCache.takePersisted, DescriptionCache.persistentGet,
    DescriptionCache.takeImageOnly, DescriptionCache.storeComputed]
  split <;> rfl

/-- Where the calls stand, with their clients. -/
def states (s : ImageProcessor) : List (ℕ × CallState) := s.calls.map fun c => (c.client, c.state)

/-- The vision call of the first ends, and both have its description. -/
theorem states_visionEnds (outcome : VisionOutcome) (gone : List ℕ)
    (habort : outcome = .abortError → 0 ∈ gone) :
    states (visionEnds sha256 handoff 1000 { init 0 100 1000 none with
      inflight := [(cacheKey sha256 handoff [1], 0)]
      calls := [⟨0, [1], none, .calling 0⟩, ⟨1, [1], none, .waiting 0⟩]
      gone := gone } 0 outcome (false, false)) =
      [(0, .described (callVisionRecorded handoff.call 1000 outcome)
          ⟨wrapDescription (callVisionRecorded handoff.call 1000 outcome), false, true, true, 0⟩),
        (1, .awaited 0 (cacheHit (callVisionRecorded handoff.call 1000 outcome)))] := by
  have hstored := storeDescription_empty sha256 handoff { init 0 100 1000 none with
      inflight := [(cacheKey sha256 handoff [1], 0)]
      calls := [⟨0, [1], none, .calling 0⟩, ⟨1, [1], none, .waiting 0⟩]
      gone := gone } ⟨0, [1], none, .calling 0⟩ (callVisionRecorded handoff.call 1000 outcome)
    rfl rfl
  have hgone : ¬ (outcome = .abortError ∧ 0 ∉ gone) := fun h => h.2 (habort h.1)
  simp only [visionEnds, calling?, List.getElem?_cons_zero, Option.bind_some, if_neg hgone]
  generalize storeDescription sha256 handoff _ _ _ _ = r at hstored ⊢
  obtain ⟨c, stored⟩ := r
  obtain rfl : stored = _ := hstored
  simp [states, settle, setState, wake, init]

theorem not_informed_of_empty {s : ImageProcessor} {client leader : ℕ}
    (h : (states s)[1]? = some (client, .awaited leader (cacheHit []))) :
    ¬ Informed s.gone s.calls := by
  intro hinf
  rw [states, List.getElem?_map] at h
  obtain ⟨w, hw, hstate⟩ := Option.map_eq_some_iff.mp h
  obtain ⟨_, -, hwell⟩ := hinf.awaited 1 w leader _ hw (congrArg Prod.snd hstate)
  exact hwell.notEmpty rfl

theorem not_informed_of_aborted {s : ImageProcessor} {client leader : ℕ}
    (h : (states s)[1]? =
      some (client, .awaited leader (cacheHit (failurePlaceholder .aborted []))))
    (hgone : client ∉ s.gone) : ¬ Informed s.gone s.calls := by
  intro hinf
  rw [states, List.getElem?_map] at h
  obtain ⟨w, hw, hstate⟩ := Option.map_eq_some_iff.mp h
  obtain ⟨_, -, hwell⟩ := hinf.awaited 1 w leader _ hw (congrArg Prod.snd hstate)
  obtain rfl : w.client = client := congrArg Prod.fst hstate
  exact hgone (hwell.ownClient rfl)

/-- The waiter returns the description that the leader's call left. -/
theorem success_is_shared :
    let ops : List ImageOp := [.start 0 [1] none, .start 1 [1] none, .transcoded 0,
      .visionEnds 0 (.content (js "a cat")) (false, false)]
    let s := run (step hexDigest oneImageHandoff 1000) (init 0 100 1000 none) ops
    StepsMeet (step hexDigest oneImageHandoff 1000)
      (fun s op => misinforms hexDigest oneImageHandoff 1000 s op = false)
      (init 0 100 1000 none) ops ∧
    states s = [(0, .described (js "a cat") ⟨wrapDescription (js "a cat"), false, true, true, 0⟩),
      (1, .awaited 0 (cacheHit (js "a cat")))] ∧
    Informed s.gone s.calls := by
  have hmeet : StepsMeet (step hexDigest oneImageHandoff 1000)
      (fun s op => misinforms hexDigest oneImageHandoff 1000 s op = false)
      (init 0 100 1000 none) [.start 0 [1] none, .start 1 [1] none, .transcoded 0,
        .visionEnds 0 (.content (js "a cat")) (false, false)] := by
    have hanswer : callVisionRecorded oneImageHandoff.call 1000 (.content (js "a cat")) ≠
        failurePlaceholder .aborted [] := by
      rw [show callVisionRecorded oneImageHandoff.call 1000 (.content (js "a cat")) = js "a cat"
        from rfl]
      decide
    refine ⟨by simp [misinforms, init], ?_, rfl, by simp [misinforms, hanswer], trivial⟩
    rw [step_first_start]
    simp [misinforms, Dict.get?]
  refine ⟨hmeet, ?_, waiters_informed_of_not_misinforms hexDigest oneImageHandoff 1000 0 100 1000
    none _ hmeet⟩
  rw [run_two_starts]
  exact (states_visionEnds hexDigest oneImageHandoff (.content (js "a cat")) [] (by simp)).trans rfl

/-- A waiter wraps the empty description of a failed transcoding, or is told
of the disconnection of its leader's client. -/
theorem failure_misinforms_waiter :
    let undecodable := run (step hexDigest oneImageHandoff 1000) (init 0 100 1000 none)
      [.start 0 [1] none, .start 1 [1] none, .transcodeFails 0 (some .decodeFailed)]
    let aborted := run (step hexDigest oneImageHandoff 1000) (init 0 100 1000 none)
      [.start 0 [1] none, .start 1 [1] none, .transcoded 0, .disconnect 0,
        .visionEnds 0 .abortError (false, false)]
    (states undecodable =
      [(0, .returned (noCall (failurePlaceholder .generic (js "transcode decode_failed")))),
        (1, .awaited 0 (cacheHit []))] ∧
      ¬ Informed undecodable.gone undecodable.calls) ∧
    (states aborted = [(0, .described (failurePlaceholder .aborted [])
          ⟨wrapDescription (failurePlaceholder .aborted []), false, true, true, 0⟩),
        (1, .awaited 0 (cacheHit (failurePlaceholder .aborted [])))] ∧
      1 ∉ aborted.gone ∧ ¬ Informed aborted.gone aborted.calls) := by
  intro undecodable aborted
  have hundecodable : states undecodable =
      [(0, .returned (noCall (failurePlaceholder .generic (js "transcode decode_failed")))),
        (1, .awaited 0 (cacheHit []))] := by
    simp only [undecodable, run_two_starts]
    simp [step, transcoding?, settle, setState, wake, init, states, transcodeMessage,
      TranscodeErrorCode.name]
    decide
  have haborted : states aborted = [(0, .described (failurePlaceholder .aborted [])
          ⟨wrapDescription (failurePlaceholder .aborted []), false, true, true, 0⟩),
        (1, .awaited 0 (cacheHit (failurePlaceholder .aborted [])))] := by
    simp only [aborted, run_two_starts]
    exact (states_visionEnds hexDigest oneImageHandoff .abortError [0] (by simp)).trans rfl
  have hgone : 1 ∉ aborted.gone := by
    have hgone' : aborted.gone = [0] := by
      simp only [aborted]
      rw [run_two_starts, run_cons, run_cons, run_cons, run_nil]
      exact gone_visionEnds hexDigest oneImageHandoff _ 0 .abortError (false, false)
    simp [hgone']
  exact ⟨⟨hundecodable, not_informed_of_empty (by rw [hundecodable]; rfl)⟩, haborted, hgone,
    not_informed_of_aborted (by rw [haborted]; rfl) hgone⟩

end

end ImageProcessor

end UmansGate.Vision
