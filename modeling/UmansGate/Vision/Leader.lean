/-
UmansGate.Vision.Leader — one call of `processImage` from the registration
of its promise to its exit (`src/vision/image-processor.ts`).

Every call that can throw is a parameter, so is what it returns; `try`,
`catch` and `finally` stand where the source has them. While the leader
awaits its transcoding or its vision call other calls run, which lead or
have led other keys. The code of the leader does not touch the map between
the awaits of a vision call, so one list of other steps stands for them all.
The hash of the image and the two clocks do not throw and are left out.
-/
import UmansGate.Vision.InFlight

namespace UmansGate.Vision

open UmansGate.Lib

/-! ## Promises -/

/-- The map `inflight`, and what the promises are resolved with. A promise
is written as a number. -/
structure Flights where
  inflight : Dict JsString ℕ
  resolved : Dict ℕ JsString
  deriving DecidableEq, Repr

/-- A step of another call. -/
inductive FlightOp where
  | register (key : JsString) (promise : ℕ)
  | settle (key : JsString) (promise : ℕ) (desc : JsString)
  deriving DecidableEq, Repr

namespace Flights

/-- `this.inflight.set(cacheKey, inflightPromise)`. -/
def register (s : Flights) (key : JsString) (promise : ℕ) : Flights :=
  { s with inflight := s.inflight.set key promise }

/-- `resolveInflight(desc)` and `this.inflight.delete(cacheKey)`. -/
def settle (s : Flights) (key : JsString) (promise : ℕ) (desc : JsString) : Flights where
  inflight := s.inflight.erase key
  resolved := s.resolved.set promise desc

/-- Another call than that of `promise` leads a key that nobody leads, or
settles the promise that it leads with. -/
def other (promise : ℕ) (s : Flights) : FlightOp → Flights
  | .register key promise' =>
    if s.inflight.get? key = none ∧ promise' ≠ promise then s.register key promise' else s
  | .settle key promise' desc =>
    if s.inflight.get? key = some promise' ∧ promise' ≠ promise then s.settle key promise' desc
    else s

def others (promise : ℕ) (ops : List FlightOp) (s : Flights) : Flights :=
  ops.foldl (other promise) s

end Flights

/-! ## The calls that can throw -/

/-- What `gate.acquire` or `fetch` throws. -/
inductive FetchError where
  | abortError
  | timeoutError
  | gateError
  | other
  deriving DecidableEq, Repr

inductive LeaderException where
  | fetch (error : FetchError)
  | prepare
  | response
  | release
  | cache
  | record
  | database
  deriving DecidableEq, Repr

/-- The answer to a vision call; `content` is what `extractOpenAIContent`
finds, none where the body is no JSON. -/
structure VisionResponse where
  ok : Bool
  status : ℕ
  content : Option JsString
  deriving DecidableEq, Repr

/-- What `callVisionRecorded` meets: the crafting and the building of the
request, the gate, the fetch, the reading of the answer and the release of
the permit. -/
structure VisionCall where
  prepareThrows : Bool
  acquire : Option FetchError
  fetch : Except FetchError VisionResponse
  responseThrows : Bool
  releaseThrows : Bool

/-- What the capture database does; `insertVisionCapture` is none where it
throws. -/
structure CaptureCalls where
  insertVisionCapture : Option ℕ
  setStreamingThrows : Bool
  setFailedThrows : Bool
  updateThrows : Bool
  setUpdateFailedThrows : Bool

/-- What a leader meets; `stored` is what `getOrCompute` returns, none where
it throws. The sink of the records may throw. -/
structure LeaderCalls where
  transcode : Except (Option TranscodeErrorCode) Unit
  failedRecordThrows : Bool
  db : Option CaptureCalls
  vision : VisionCall
  stored : Option JsString
  recordThrows : Bool
  elapsed : ℤ

/-- A piece of the leader's code; what it did to the map stays when it
throws. -/
abbrev LeaderM := EStateM LeaderException Flights

def mayThrow (throws : Bool) (e : LeaderException) : LeaderM Unit :=
  if throws then throw e else pure ()

/-! ## The leader -/

def FetchError.outcome : FetchError → VisionOutcome
  | .abortError => .abortError
  | .timeoutError => .timeoutError
  | .gateError => .gateError
  | .other => .fetchError

def VisionResponse.outcome (response : VisionResponse) : VisionOutcome :=
  if !response.ok then .httpStatus response.status
  else
    match response.content with
    | none => .notJson
    | some text => .content text

/-- The permit and the answer; the answer of a call that throws is the
placeholder that its `catch` returns. -/
def VisionCall.fetched (v : VisionCall) : LeaderM (Except VisionOutcome VisionResponse) :=
  tryCatch
    (do
      match v.acquire with
      | some error => throw (.fetch error)
      | none => pure ()
      match v.fetch with
      | .error error => throw (.fetch error)
      | .ok response => pure (.ok response))
    fun
      | .fetch error => pure (.error error.outcome)
      | e => throw e

/-- `callVisionRecorded`: the description of its result. -/
def VisionCall.run (v : VisionCall) (call : VisionCallConfig) (timeoutMs : ℕ) :
    LeaderM JsString := do
  match truthy? call.target, truthy? call.model with
  | some _, some _ =>
    mayThrow v.prepareThrows .prepare
    tryFinally
      (do
        match ← v.fetched with
        | .error outcome => pure (callVisionRecorded call timeoutMs outcome)
        | .ok response =>
          mayThrow v.responseThrows .response
          pure (callVisionRecorded call timeoutMs response.outcome))
      (mayThrow (v.acquire.isNone && v.releaseThrows) .release)
  | _, _ => pure (callVisionRecorded call timeoutMs .fetchError)

/-- `this.db?.insertVisionCapture(...)`; the row of no database is 0. -/
def insertVisionCapture (db : Option CaptureCalls) : LeaderM ℕ :=
  match db with
  | none => pure 0
  | some db =>
    match db.insertVisionCapture with
    | none => throw .database
    | some visionDbId => pure visionDbId

/-- `if (visionDbId) this.db?.setState(visionDbId, ...)`. -/
def setCaptureState (db : Option CaptureCalls) (visionDbId : ℕ) (throws : CaptureCalls → Bool) :
    LeaderM Unit :=
  mayThrow (visionDbId ≠ 0 && db.any throws) .database

/-- What follows the `finally`: the row and the record of the call. -/
def LeaderCalls.finish (r : LeaderCalls) (visionDbId : ℕ) : LeaderM Unit := do
  tryCatch (setCaptureState r.db visionDbId CaptureCalls.updateThrows)
    fun _ => setCaptureState r.db visionDbId CaptureCalls.setUpdateFailedThrows
  mayThrow r.recordThrows .record

variable (call : VisionCallConfig) (timeoutMs : ℕ) (key : JsString) (promise : ℕ)

/-- `visionPromise`, while other calls run. -/
def LeaderCalls.describe (r : LeaderCalls) (meanwhile : List FlightOp) : LeaderM JsString := do
  modify (Flights.others promise meanwhile)
  let _ ← r.vision.run call timeoutMs
  match r.stored with
  | none => throw .cache
  | some stored => pure stored

/-- `processImage` from the registration on. -/
def LeaderCalls.lead (r : LeaderCalls) (transcoding describing : List FlightOp) :
    LeaderM ImageProcessResult := do
  modify (·.register key promise)
  modify (Flights.others promise transcoding)
  match r.transcode with
  | .error code =>
    mayThrow r.failedRecordThrows .record
    modify (·.settle key promise [])
    pure (noCall (failurePlaceholder .generic (transcodeMessage code)))
  | .ok () =>
    let visionDbId ← insertVisionCapture r.db
    setCaptureState r.db visionDbId CaptureCalls.setStreamingThrows
    let (stored, _) ← tryFinally'
      (tryCatch (r.describe call timeoutMs promise describing) fun e => do
        setCaptureState r.db visionDbId CaptureCalls.setFailedThrows
        throw e)
      fun stored => modify (·.settle key promise (stored.getD []))
    r.finish visionDbId
    pure ⟨wrapDescription stored, false, true, true, r.elapsed⟩

/-- How the leader ends from a state of the map, and what it leaves. -/
def LeaderCalls.exit (r : LeaderCalls) (transcoding describing : List FlightOp) (s : Flights) :
    EStateM.Result LeaderException Flights ImageProcessResult :=
  (r.lead call timeoutMs key promise transcoding describing).run s

end UmansGate.Vision
