/-
UmansGate.Vision.InFlight — calls of `processImage` that run at the same
time (`src/vision/image-processor.ts`).

A call that misses the cache leads or waits. The map `inflight` has the
promise of a leader under the key of its image without a context, so a
waiter can have another context than its leader. A promise is written as
the number of its call; it is settled and its entry deleted in one step.

A step is what one call does between two awaits, in any order. What a call
awaits is a parameter of its step: the transcoding, and of the vision call
the outcome. Records and the rows of the captures are left out, but not the
exception of an insert, which no `try` catches.
-/
import UmansGate.Vision.CachedHandoff

namespace UmansGate.Vision

open UmansGate.Lib

inductive TranscodeErrorCode where
  | unsupported
  | decodeFailed
  | encodeFailed
  | tooLarge
  deriving DecidableEq, Repr

def TranscodeErrorCode.name : TranscodeErrorCode → JsString
  | .unsupported => js "unsupported"
  | .decodeFailed => js "decode_failed"
  | .encodeFailed => js "encode_failed"
  | .tooLarge => js "too_large"

/-- The message of a failed transcoding; none is an error without a code. -/
def transcodeMessage : Option TranscodeErrorCode → JsString
  | some code => js "transcode " ++ code.name
  | none => js "transcode failed"

/-- How the fetch of a vision call ended; `content` is the text that
`extractOpenAIContent` finds. -/
inductive VisionOutcome where
  | abortError
  | timeoutError
  | gateError
  | fetchError
  | httpStatus (status : ℕ)
  | notJson
  | content (text : JsString)
  deriving DecidableEq, Repr

/-- The description of `callVisionRecorded`, which sends nothing without a
target and a model. -/
def callVisionRecorded (call : VisionCallConfig) (timeoutMs : ℕ) (outcome : VisionOutcome) :
    JsString :=
  match truthy? call.target, truthy? call.model with
  | some _, some _ =>
    match outcome with
    | .abortError => failurePlaceholder .aborted (js "client disconnected")
    | .timeoutError => failurePlaceholder .timeout (numberString timeoutMs)
    | .gateError => failurePlaceholder .generic (js "vision gate rejected")
    | .fetchError => failurePlaceholder .generic (js "vision fetch failed")
    | .httpStatus status => failurePlaceholder .httpStatus (numberString status)
    | .notJson => failurePlaceholder .parse []
    | .content text => if text = [] then failurePlaceholder .empty [] else text
  | _, _ => failurePlaceholder .generic (js "vision target or model not configured")

/-- Where a call of `processImage` stands. -/
inductive CallState where
  | waiting (leader : ℕ)
  | transcoding
  | calling (start : Int)
  /-- The result over the promise of `leader`. -/
  | awaited (leader : ℕ) (result : ImageProcessResult)
  /-- The result of a cache hit or of a failed transcoding. -/
  | returned (result : ImageProcessResult)
  /-- The result of a vision call, with the description it left. -/
  | described (stored : JsString) (result : ImageProcessResult)
  | threw
  deriving DecidableEq, Repr

namespace CallState

/-- A leader whose promise is open. -/
def running : CallState → Bool
  | .transcoding => true
  | .calling _ => true
  | _ => false

def ended : CallState → Bool
  | .waiting _ => false
  | state => !state.running

/-- The text of a leader whose vision call succeeded. -/
def description? : CallState → Option JsString
  | .described stored result =>
    if isFailurePlaceholder stored then none else some result.description
  | _ => none

end CallState

/-- A call of `processImage` for a client. -/
structure ImageCall where
  client : ℕ
  decoded : List UInt8
  contextHash : Option JsString
  state : CallState
  deriving DecidableEq, Repr

/-- A call is known by its place in `calls`. -/
structure ImageProcessor where
  now : Int
  cache : Descriptions
  inflight : Dict JsString ℕ
  calls : List ImageCall
  /-- The clients that have disconnected. -/
  gone : List ℕ
  deriving DecidableEq, Repr

/-- What can happen. `lookup` is the read of the cache-only path; `restart`
ends the process and opens the database again. -/
inductive ImageOp where
  | wait (ms : ℕ)
  | disconnect (client : ℕ)
  | start (client : ℕ) (decoded : List UInt8) (contextHash : Option JsString)
  | transcoded (id : ℕ)
  | transcodeFails (id : ℕ) (code : Option TranscodeErrorCode)
  | insertThrows (id : ℕ)
  | visionEnds (id : ℕ) (outcome : VisionOutcome) (fails : Bool × Bool)
  | visionThrows (id : ℕ)
  | lookup (decoded : List UInt8)
  | warmIntoCache (limit : ℕ) (fails : Bool)
  | flushNow (fails : Bool)
  | restart (fails : Bool)
  deriving DecidableEq, Repr

namespace ImageProcessor

section

variable (sha256 : List UInt8 → JsString) (handoff : HandoffConfig) (timeoutMs : ℕ)

def cacheKey (decoded : List UInt8) : JsString := descriptionCacheKey sha256 handoff.call decoded none

def push (s : ImageProcessor) (call : ImageCall) : ImageProcessor :=
  { s with calls := s.calls ++ [call] }

def setState (s : ImageProcessor) (id : ℕ) (call : ImageCall) (state : CallState) :
    ImageProcessor :=
  { s with calls := s.calls.set id { call with state := state } }

/-- A waiter takes what the promise is resolved with. -/
def wake (id : ℕ) (desc : JsString) (call : ImageCall) : ImageCall :=
  if call.state = .waiting id then { call with state := .awaited id (cacheHit desc) } else call

/-- `resolveInflight(desc)` and `this.inflight.delete(cacheKey)`. -/
def settle (s : ImageProcessor) (id : ℕ) (call : ImageCall) (state : CallState) (desc : JsString) :
    ImageProcessor :=
  { s.setState id call state with
    calls := (s.setState id call state).calls.map (wake id desc)
    inflight := s.inflight.erase (cacheKey sha256 handoff call.decoded) }

def transcoding? (s : ImageProcessor) (id : ℕ) : Option ImageCall :=
  s.calls[id]?.filter (·.state = .transcoding)

def calling? (s : ImageProcessor) (id : ℕ) : Option (ImageCall × Int) :=
  s.calls[id]?.bind fun call =>
    match call.state with
    | .calling start => some (call, start)
    | _ => none

/-- A call up to its first await. -/
def start (s : ImageProcessor) (client : ℕ) (decoded : List UInt8)
    (contextHash : Option JsString) : ImageProcessor :=
  match lookupDescription sha256 handoff s.now decoded contextHash s.cache with
  | (c, some cached) =>
    { s with cache := c }.push ⟨client, decoded, contextHash, .returned (cacheHit cached)⟩
  | (c, none) =>
    match s.inflight.get? (cacheKey sha256 handoff decoded) with
    | some leader => { s with cache := c }.push ⟨client, decoded, contextHash, .waiting leader⟩
    | none =>
      { s with
        cache := c
        inflight := s.inflight.set (cacheKey sha256 handoff decoded) s.calls.length }.push
          ⟨client, decoded, contextHash, .transcoding⟩

/-- The description of a vision call, stored unless it is a failure
placeholder. -/
def storeDescription (s : ImageProcessor) (call : ImageCall) (description : JsString)
    (fails : Bool × Bool) : Descriptions × JsString :=
  let (c, stored) := s.cache.getOrCompute s.now (cacheKey sha256 handoff call.decoded)
    ((truthy? call.contextHash).map fun hash =>
      descriptionCacheKey sha256 handoff.call call.decoded (some hash))
    (some description) (fun desc => !isFailurePlaceholder desc) fails
  (c, stored.getD [])

/-- Only the client of the leader can abort its fetch. -/
def visionEnds (s : ImageProcessor) (id : ℕ) (outcome : VisionOutcome) (fails : Bool × Bool) :
    ImageProcessor :=
  match s.calling? id with
  | none => s
  | some (call, start) =>
    if outcome = .abortError ∧ call.client ∉ s.gone then s
    else
      let (c, stored) := storeDescription sha256 handoff s call
        (callVisionRecorded handoff.call timeoutMs outcome) fails
      let result := ⟨wrapDescription stored, false, true, true, s.now - start⟩
      settle sha256 handoff { s with cache := c } id call (.described stored result) stored

def step (s : ImageProcessor) : ImageOp → ImageProcessor
  | .wait ms => { s with now := s.now + ms }
  | .disconnect client => { s with gone := client :: s.gone }
  | .start client decoded contextHash => start sha256 handoff s client decoded contextHash
  | .transcoded id =>
    match s.transcoding? id with
    | none => s
    | some call => s.setState id call (.calling s.now)
  | .transcodeFails id code =>
    match s.transcoding? id with
    | none => s
    | some call =>
      settle sha256 handoff s id call
        (.returned (noCall (failurePlaceholder .generic (transcodeMessage code)))) []
  | .insertThrows id =>
    match s.transcoding? id with
    | none => s
    | some call => s.setState id call .threw
  | .visionEnds id outcome fails => visionEnds sha256 handoff timeoutMs s id outcome fails
  | .visionThrows id =>
    match s.calling? id with
    | none => s
    | some (call, _) => settle sha256 handoff s id call .threw []
  | .lookup decoded =>
    { s with cache := (lookupDescription sha256 handoff s.now decoded none s.cache).1 }
  | .warmIntoCache limit fails => { s with cache := s.cache.warmIntoCache s.now limit fails }
  | .flushNow fails =>
    { s with cache := { s.cache with persistent := s.cache.persistent.map (·.flushNow fails) } }
  | .restart fails =>
    let reopened := s.cache.persistent.map fun p =>
      PersistentDescriptionStore.new p.ttlMs p.maxRows p.flushBatch (p.close fails).rows
    { s with
      cache := DescriptionCache.new s.cache.cache.max s.cache.cache.ttl reopened
      inflight := []
      calls := [] }

end

/-- The processor over an empty database. -/
def init (now : Int) (maxSize : ℕ) (ttlMs : Int) (store : Option (ℕ × ℕ)) : ImageProcessor where
  now := now
  cache := .new maxSize ttlMs (store.map fun (maxRows, flushBatch) =>
    .new ttlMs maxRows flushBatch [])
  inflight := []
  calls := []
  gone := []

end ImageProcessor

end UmansGate.Vision
