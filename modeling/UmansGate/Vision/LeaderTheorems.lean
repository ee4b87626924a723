/-
UmansGate.Vision.LeaderTheorems — whether a leader leaves its promise open.

The `try` with the `finally` that settles the promise begins behind the
insert of the capture. An exception before it leaves the entry in the map
with a promise that nobody settles (`leavesOpen`): of the insert, of the
first `setState`, and of the record of a failed transcoding. On every other
path the leader settles its promise and deletes its entry, whatever throws
and whatever other calls do meanwhile.
-/
import UmansGate.Vision.Leader
import UmansGate.Vision.RequestTheorems

namespace UmansGate.Vision

open UmansGate.Lib

/-! ## What a piece of code leaves -/

namespace LeaderM

variable {α β : Type}

/-- The map that a piece of code leaves. -/
def left : EStateM.Result LeaderException Flights α → Flights
  | .ok _ s => s
  | .error _ s => s

/-- Whatever it returns or throws, the map is as it was. -/
def Frame (m : LeaderM α) : Prop := ∀ s, left (m.run s) = s

variable {m : LeaderM α} {f : α → LeaderM β} {s : Flights}

theorem frame_pure (a : α) : Frame (pure a) := fun _ => rfl

theorem frame_throw (e : LeaderException) : Frame (throw e : LeaderM α) := fun _ => rfl

theorem frame_mayThrow (throws : Bool) (e : LeaderException) : Frame (mayThrow throws e) := by
  cases throws with
  | false => exact frame_pure ()
  | true => exact frame_throw e

theorem run_bind : (m >>= f).run s =
    match m.run s with
    | .ok a s' => (f a).run s'
    | .error e s' => .error e s' := by
  simp only [EStateM.run, bind, EStateM.bind]
  cases m s with
  | ok a s' => rfl
  | error e s' => rfl

theorem run_tryCatch (handle : LeaderException → LeaderM α) : (tryCatch m handle).run s =
    match m.run s with
    | .ok a s' => .ok a s'
    | .error e s' => (handle e).run s' := by
  simp only [EStateM.run, tryCatch, tryCatchThe, MonadExceptOf.tryCatch, EStateM.tryCatch]
  cases m s with
  | ok a s' => rfl
  | error e s' => rfl

theorem left_tryFinally' (h : Option α → LeaderM β) : left ((tryFinally' m h).run s) =
    match m.run s with
    | .ok a s' => left ((h (some a)).run s')
    | .error _ s' => left ((h none).run s') := by
  simp only [EStateM.run, tryFinally']
  cases m s with
  | ok a s' =>
    simp only
    cases h (some a) s' with
    | ok b s'' => rfl
    | error e s'' => rfl
  | error e s' =>
    simp only
    cases h none s' with
    | ok b s'' => rfl
    | error e' s'' => rfl

theorem frame_bind (hm : Frame m) (hf : ∀ a, Frame (f a)) : Frame (m >>= f) := by
  intro s
  have hleft := hm s
  rw [run_bind]
  cases h : m.run s with
  | ok a s' =>
    rw [h] at hleft
    obtain rfl : s' = s := hleft
    exact hf a s'
  | error e s' =>
    rw [h] at hleft
    exact hleft

theorem frame_tryCatch {handle : LeaderException → LeaderM α} (hm : Frame m)
    (hhandle : ∀ e, Frame (handle e)) : Frame (tryCatch m handle) := by
  intro s
  have hleft := hm s
  rw [run_tryCatch]
  cases h : m.run s with
  | ok a s' =>
    rw [h] at hleft
    exact hleft
  | error e s' =>
    rw [h] at hleft
    obtain rfl : s' = s := hleft
    exact hhandle e s'

theorem left_map (g : α → β) : left ((g <$> m).run s) = left (m.run s) := by
  simp only [EStateM.run, Functor.map, EStateM.map]
  cases m s with
  | ok a s' => rfl
  | error e s' => rfl

theorem frame_tryFinally {final : LeaderM β} (hm : Frame m) (hfinal : Frame final) :
    Frame (tryFinally m final) := by
  intro s
  have hleft := hm s
  unfold tryFinally
  rw [left_map, left_tryFinally']
  cases h : m.run s with
  | ok a s' =>
    rw [h] at hleft
    obtain rfl : s' = s := hleft
    exact hfinal s'
  | error e s' =>
    rw [h] at hleft
    obtain rfl : s' = s := hleft
    exact hfinal s'

/-- Code that leaves the map alone does not change what is left behind it. -/
theorem left_bind_frame (hf : ∀ a, Frame (f a)) : left ((m >>= f).run s) = left (m.run s) := by
  rw [run_bind]
  cases m.run s with
  | ok a s' => exact hf a s'
  | error e s' => rfl

end LeaderM

open LeaderM

/-! ## The parts of a leader -/

theorem frame_fetched (v : VisionCall) : Frame v.fetched := by
  refine frame_tryCatch ?_ ?_
  · cases v.acquire with
    | some error => exact frame_throw _
    | none =>
      cases v.fetch with
      | error error => exact frame_throw _
      | ok response => exact frame_pure _
  · intro e
    cases e with
    | fetch error => exact frame_pure _
    | prepare => exact frame_throw _
    | response => exact frame_throw _
    | release => exact frame_throw _
    | cache => exact frame_throw _
    | record => exact frame_throw _
    | database => exact frame_throw _

theorem frame_visionCall (v : VisionCall) (call : VisionCallConfig) (timeoutMs : ℕ) :
    Frame (v.run call timeoutMs) := by
  unfold VisionCall.run
  split
  · refine frame_bind (frame_mayThrow _ _) fun _ => ?_
    refine frame_tryFinally (frame_bind (frame_fetched v) fun fetched => ?_) (frame_mayThrow _ _)
    cases fetched with
    | error outcome => exact frame_pure _
    | ok response => exact frame_bind (frame_mayThrow _ _) fun _ => frame_pure _
  · exact frame_pure _

theorem frame_setCaptureState (db : Option CaptureCalls) (visionDbId : ℕ)
    (throws : CaptureCalls → Bool) : Frame (setCaptureState db visionDbId throws) :=
  frame_mayThrow _ _

theorem frame_finish (r : LeaderCalls) (visionDbId : ℕ) : Frame (r.finish visionDbId) :=
  frame_bind (frame_tryCatch (frame_setCaptureState _ _ _) fun _ => frame_setCaptureState _ _ _)
    fun _ => frame_mayThrow _ _

section

variable {key : JsString} {promise : ℕ} {s : Flights} {ops : List FlightOp}

/-! ## Other calls -/

/-- Another call neither replaces nor deletes the entry of a leader, nor
settles its promise. -/
theorem Flights.other_keeps (op : FlightOp) (h : s.inflight.get? key = some promise) :
    (s.other promise op).inflight.get? key = some promise ∧
      (s.other promise op).resolved.get? promise = s.resolved.get? promise := by
  cases op with
  | register key' promise' =>
    simp only [Flights.other]
    split
    · rename_i hguard
      have hne : key' ≠ key := by
        rintro rfl
        rw [h] at hguard
        exact absurd hguard.1 (by simp)
      refine ⟨?_, rfl⟩
      simp only [Flights.register, Dict.get?_set, if_neg hne, h]
    · exact ⟨h, rfl⟩
  | settle key' promise' desc =>
    simp only [Flights.other]
    split
    · rename_i hguard
      have hne : key' ≠ key := by
        rintro rfl
        rw [h] at hguard
        exact hguard.2 (Option.some.inj hguard.1).symm
      refine ⟨?_, ?_⟩
      · simp only [Flights.settle, Dict.get?_erase, if_neg hne, h]
      · simp only [Flights.settle, Dict.get?_set, if_neg hguard.2]
    · exact ⟨h, rfl⟩

theorem Flights.others_keep (h : s.inflight.get? key = some promise) :
    (Flights.others promise ops s).inflight.get? key = some promise ∧
      (Flights.others promise ops s).resolved.get? promise = s.resolved.get? promise := by
  induction ops generalizing s with
  | nil => exact ⟨h, rfl⟩
  | cons op ops ih =>
    obtain ⟨hentry, hresolved⟩ := Flights.other_keeps op h
    obtain ⟨hentry', hresolved'⟩ := ih hentry
    exact ⟨hentry', hresolved'.trans hresolved⟩

/-! ## The exit -/

/-- The map after the first await. -/
def held (key : JsString) (promise : ℕ) (transcoding : List FlightOp) (s : Flights) : Flights :=
  Flights.others promise transcoding (s.register key promise)

/-- An exception comes between the registration and the `try` that settles
the promise. -/
def LeaderCalls.leavesOpen (r : LeaderCalls) : Bool :=
  match r.transcode with
  | .error _ => r.failedRecordThrows
  | .ok () => r.db.any fun db =>
    match db.insertVisionCapture with
    | none => true
    | some visionDbId => visionDbId ≠ 0 && db.setStreamingThrows

/-- The key is not in the map, and the promise is settled. -/
structure CleanedUp (key : JsString) (promise : ℕ) (s : Flights) : Prop where
  absent : s.inflight.get? key = none
  settled : s.resolved.get? promise ≠ none

theorem cleanedUp_settle (s : Flights) (desc : JsString) :
    CleanedUp key promise (s.settle key promise desc) :=
  ⟨by simp [Flights.settle, Dict.get?_erase], by simp [Flights.settle]⟩

theorem get?_register (s : Flights) :
    (s.register key promise).inflight.get? key = some promise :=
  Dict.get?_set_self s.inflight key promise

theorem held_keeps (transcoding : List FlightOp) :
    (held key promise transcoding s).inflight.get? key = some promise ∧
      (held key promise transcoding s).resolved.get? promise = s.resolved.get? promise :=
  Flights.others_keep (get?_register s)

variable (call : VisionCallConfig) (timeoutMs : ℕ) (key) (promise)

theorem left_describe (r : LeaderCalls) (describing : List FlightOp) (s : Flights) :
    left ((r.describe call timeoutMs promise describing).run s) =
      Flights.others promise describing s := by
  cases hstored : r.stored with
  | none =>
    have hrest : Frame (r.vision.run call timeoutMs >>= fun _ => (throw .cache : LeaderM JsString)) :=
      frame_bind (frame_visionCall _ _ _) fun _ => frame_throw _
    simp only [LeaderCalls.describe, hstored]
    exact hrest (Flights.others promise describing s)
  | some stored =>
    have hrest : Frame (r.vision.run call timeoutMs >>= fun _ => (pure stored : LeaderM JsString)) :=
      frame_bind (frame_visionCall _ _ _) fun _ => frame_pure _
    simp only [LeaderCalls.describe, hstored]
    exact hrest (Flights.others promise describing s)

/-- The `finally` settles the promise, whatever the vision call and the
`catch` throw. -/
theorem left_settled (r : LeaderCalls) (visionDbId : ℕ) (describing : List FlightOp)
    (s : Flights) :
    ∃ desc, left ((tryFinally'
      (tryCatch (r.describe call timeoutMs promise describing) fun e => do
        setCaptureState r.db visionDbId CaptureCalls.setFailedThrows
        throw e)
      fun stored => (modify fun s => s.settle key promise (stored.getD []) : LeaderM Unit)).run s) =
      (Flights.others promise describing s).settle key promise desc := by
  have htry : left ((tryCatch (r.describe call timeoutMs promise describing) fun e => do
      setCaptureState r.db visionDbId CaptureCalls.setFailedThrows
      throw e).run s) = Flights.others promise describing s := by
    rw [← left_describe promise call timeoutMs r describing s, run_tryCatch]
    cases (r.describe call timeoutMs promise describing).run s with
    | ok stored s' => rfl
    | error e s' =>
      exact frame_bind (frame_setCaptureState _ _ _) (fun _ => frame_throw e) s'
  rw [left_tryFinally']
  generalize (tryCatch (r.describe call timeoutMs promise describing) fun e => do
    setCaptureState r.db visionDbId CaptureCalls.setFailedThrows
    throw e).run s = result at htry
  cases result with
  | ok stored s' =>
    obtain rfl : s' = _ := htry
    exact ⟨stored, rfl⟩
  | error e s' =>
    obtain rfl : s' = _ := htry
    exact ⟨[], rfl⟩

/-- From the `try` on the leader settles its promise. -/
theorem left_rest (r : LeaderCalls) (visionDbId : ℕ) (describing : List FlightOp) (s : Flights) :
    ∃ (s' : Flights) (desc : JsString), left ((do
      let (stored, _) ← tryFinally'
        (tryCatch (r.describe call timeoutMs promise describing) fun e => do
          setCaptureState r.db visionDbId CaptureCalls.setFailedThrows
          throw e)
        fun stored => modify (·.settle key promise (stored.getD []))
      r.finish visionDbId
      pure ⟨wrapDescription stored, false, true, true, r.elapsed⟩ :
        LeaderM ImageProcessResult).run s) = s'.settle key promise desc := by
  obtain ⟨desc, hsettled⟩ := left_settled key promise call timeoutMs r visionDbId
    describing s
  refine ⟨Flights.others promise describing s, desc, Eq.trans (left_bind_frame ?_) hsettled⟩
  rintro ⟨stored, _⟩
  exact frame_bind (frame_finish r visionDbId) fun _ => frame_pure _

/-- What the leader leaves. -/
theorem left_exit (r : LeaderCalls) (transcoding describing : List FlightOp) (s : Flights) :
    if r.leavesOpen then
      left (r.exit call timeoutMs key promise transcoding describing s) =
        held key promise transcoding s
    else ∃ (s' : Flights) (desc : JsString),
      left (r.exit call timeoutMs key promise transcoding describing s) =
        s'.settle key promise desc := by
  cases htranscode : r.transcode with
  | error code =>
    cases hrecord : r.failedRecordThrows with
    | true =>
      simp only [LeaderCalls.leavesOpen, htranscode, hrecord, if_true]
      simp only [LeaderCalls.exit, LeaderCalls.lead, htranscode, hrecord]
      rfl
    | false =>
      simp only [LeaderCalls.leavesOpen, htranscode, hrecord, Bool.false_eq_true, if_false]
      simp only [LeaderCalls.exit, LeaderCalls.lead, htranscode, hrecord]
      exact ⟨held key promise transcoding s, [], rfl⟩
  | ok transcoded =>
    have hrest := fun visionDbId => left_rest key promise call timeoutMs r visionDbId describing
      (held key promise transcoding s)
    cases hdb : r.db with
    | none =>
      simp only [LeaderCalls.leavesOpen, htranscode, hdb, Option.any_none, Bool.false_eq_true,
        if_false]
      have hinsert : insertVisionCapture r.db = pure 0 := by rw [hdb]; rfl
      simp only [LeaderCalls.exit, LeaderCalls.lead, htranscode, hinsert]
      exact hrest 0
    | some db =>
      cases hinsert : db.insertVisionCapture with
      | none =>
        simp only [LeaderCalls.leavesOpen, htranscode, hdb, Option.any_some, hinsert, if_true]
        simp only [LeaderCalls.exit, LeaderCalls.lead, htranscode, hdb, insertVisionCapture,
          hinsert]
        rfl
      | some visionDbId =>
        have hrow : insertVisionCapture r.db = pure visionDbId := by
          rw [hdb]
          simp only [insertVisionCapture, hinsert]
        simp only [LeaderCalls.leavesOpen, htranscode, hdb, Option.any_some, hinsert]
        simp only [LeaderCalls.exit, LeaderCalls.lead, htranscode, hrow, pure_bind]
        cases hset : decide (visionDbId ≠ 0) && db.setStreamingThrows with
        | true =>
          have hthrow : setCaptureState r.db visionDbId CaptureCalls.setStreamingThrows =
              throw .database := by
            rw [hdb, setCaptureState, Option.any_some, hset]
            rfl
          rw [hthrow, if_pos rfl]
          rfl
        | false =>
          have hpure : setCaptureState r.db visionDbId CaptureCalls.setStreamingThrows =
              pure () := by
            rw [hdb, setCaptureState, Option.any_some, hset]
            rfl
          rw [hpure, if_neg Bool.false_ne_true]
          exact hrest visionDbId

/-- A leader cleans up exactly if nothing throws between the registration of
its promise and the `try` that settles it. -/
theorem cleanedUp_exit_iff (r : LeaderCalls) (transcoding describing : List FlightOp)
    (s : Flights) :
    CleanedUp key promise (left (r.exit call timeoutMs key promise transcoding describing s)) ↔
      r.leavesOpen = false := by
  have hleft := left_exit key promise call timeoutMs r transcoding describing s
  cases hopen : r.leavesOpen with
  | true =>
    rw [hopen, if_pos rfl] at hleft
    rw [hleft]
    refine ⟨fun h => absurd h.absent ?_, nofun⟩
    rw [(held_keeps transcoding).1]
    exact Option.some_ne_none promise
  | false =>
    rw [hopen, if_neg Bool.false_ne_true] at hleft
    obtain ⟨s', desc, hleft⟩ := hleft
    rw [hleft]
    exact ⟨fun _ => rfl, fun _ => cleanedUp_settle s' desc⟩

/-- What is abandoned stays: the entry, and the promise that its waiters
await, whatever other calls do from then on. -/
theorem abandoned_stays (r : LeaderCalls) (transcoding describing later : List FlightOp)
    (s : Flights) (hopen : r.leavesOpen = true) (hnew : s.resolved.get? promise = none) :
    let s' := Flights.others promise later
      (left (r.exit call timeoutMs key promise transcoding describing s))
    s'.inflight.get? key = some promise ∧ s'.resolved.get? promise = none := by
  have hleft := left_exit key promise call timeoutMs r transcoding describing s
  rw [hopen, if_pos rfl] at hleft
  rw [hleft]
  obtain ⟨hentry, hresolved⟩ : (held key promise transcoding s).inflight.get? key = some promise ∧
      (held key promise transcoding s).resolved.get? promise = s.resolved.get? promise :=
    held_keeps transcoding
  obtain ⟨hentry', hresolved'⟩ : (Flights.others promise later
      (held key promise transcoding s)).inflight.get? key = some promise ∧
        (Flights.others promise later (held key promise transcoding s)).resolved.get? promise =
          (held key promise transcoding s).resolved.get? promise :=
    Flights.others_keep hentry
  exact ⟨hentry', hresolved'.trans (hresolved.trans hnew)⟩

end

/-! ## A failed insert -/

/-- All goes well but the insert of the capture. -/
def failedInsert : LeaderCalls where
  transcode := .ok ()
  failedRecordThrows := false
  db := some ⟨none, false, false, false, false⟩
  vision := ⟨false, none, .ok ⟨true, 200, some (js "a cat")⟩, false, false⟩
  stored := some (js "a cat")
  recordThrows := false
  elapsed := 5

/-- The next request for the image finds the promise, and it stays open. -/
theorem failed_insert_leaves_open :
    (left (failedInsert.exit autoConfig 0 (js "key") 7 [] [] ⟨[], []⟩)).inflight.get? (js "key") =
        some 7 ∧
      (left (failedInsert.exit autoConfig 0 (js "key") 7 [] [] ⟨[], []⟩)).resolved.get? 7 = none ∧
      ¬ CleanedUp (js "key") 7
        (left (failedInsert.exit autoConfig 0 (js "key") 7 [] [] ⟨[], []⟩)) := by
  have hentry : (left (failedInsert.exit autoConfig 0 (js "key") 7 [] []
      ⟨[], []⟩)).inflight.get? (js "key") = some 7 := by
    decide
  refine ⟨hentry, by decide, fun h => ?_⟩
  rw [h.absent] at hentry
  cases hentry

end UmansGate.Vision
