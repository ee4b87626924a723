/-
UmansGate.Vision.CachedHandoff — the two paths of a handoff over the
description cache (`src/vision/handoff.ts`, `processImage` of
`src/vision/image-processor.ts`).

A path looks its images up one after the other, each in the cache as the
lookup before left it. What an image comes to that the cache does not have
is a parameter: the awaited description of another request's call, a failed
transcode, the answer of its own call, or an exception. So are the
sub-questions of a decomposed batch. The clock moves while a call is
awaited; other requests do not run meanwhile.
-/
import UmansGate.Vision.DescriptionCache
import UmansGate.Vision.Handoff
import UmansGate.Vision.ImageProcessor

namespace UmansGate.Vision

open UmansGate.Lib

/-- What `VisionHandoff` is constructed with. -/
structure HandoffConfig where
  config : VisionConfig
  call : VisionCallConfig
  catalog : Option (JsString → Option VisionTristate)
  systemPromptMaxChars : ℕ
  recentMessagesCount : ℕ

/-- What an image comes to that the cache does not have. -/
inductive Missed where
  | inflight (desc : JsString)
  | transcodeFailed (errMsg : JsString)
  | answered (description : JsString) (latencyMs : ℕ) (fails : Bool × Bool)
  | threw

abbrev Descriptions := DescriptionCache JsString JsString

/-- A tier of the cache: the entries of the images, or those of a context. -/
inductive CacheTier where
  | imageOnly
  | context (hash : JsString)
  deriving DecidableEq, Repr

def VISION_RECENT_MESSAGE_MAX_CHARS : ℕ := 1000

def extractRecentUserMessages (body : Json) (count : ℕ) : List RecentMessage :=
  let userMsgs := ((body.items? (js "messages")).getD []).filterMap fun m =>
    if m.str? (js "role") = some (js "user") then
      let text := match m.get? (js "content") with
        | some (.str s) => s
        | some (.arr parts) => concatTextBlocks parts
        | _ => []
      some ⟨js "user", text.take VISION_RECENT_MESSAGE_MAX_CHARS⟩
    else none
  userMsgs.drop (userMsgs.length - count)

section

variable (sha256 : List UInt8 → JsString) (decodeBase64 : JsString → Option (List UInt8))
  (handoff : HandoffConfig)

/-- `getOrCompute` with a `compute` that throws; an empty description counts
as a miss. -/
def lookupDescription (now : Int) (decoded : List UInt8) (contextHash : Option JsString)
    (c : Descriptions) : Descriptions × Option JsString :=
  let (c, cached) := c.getOrCompute now (descriptionCacheKey sha256 handoff.call decoded none)
    ((truthy? contextHash).map fun hash =>
      descriptionCacheKey sha256 handoff.call decoded (some hash))
    none (fun _ => true) (false, false)
  (c, truthy? cached)

/-! ## `processBody` -/

/-- The sub-questions, if the batch is decomposed. -/
def batchQuestions (kept : List ImagePart) (decomposition : Option (List JsString)) :
    Option (List JsString) :=
  let batchTriage := resolveTriageStrategy handoff.call.intentStrategy
    ⟨kept.head?.bind ImagePart.adjacentText, kept.head?.any ImagePart.isToolResult, kept.length⟩
  if batchTriage = .decomposed ∧ handoff.call.decompositionEnabled then decomposition else none

def visionContext (body : Json) (kept : List ImagePart) (decomposition : Option (List JsString))
    (part : ImagePart) : VisionContext where
  adjacentText := part.adjacentText
  isToolResult := part.isToolResult
  positionInBatch := part.positionInBatch
  batchSize := part.batchSize
  recentMessages := extractRecentUserMessages body handoff.recentMessagesCount
  perImageQuestion :=
    (batchQuestions handoff kept decomposition).bind (·[part.positionInBatch - 1]?)
  originalSystemPrompt :=
    (truthy? (kept.head?.bind ImagePart.originalSystemPrompt)).map
      (·.take handoff.systemPromptMaxChars)

def cacheHit (cached : JsString) : ImageProcessResult :=
  ⟨wrapDescription cached, true, false, false, 0⟩

def noCall (placeholder : JsString) : ImageProcessResult :=
  ⟨placeholder, false, false, false, 0⟩

/-- The result of an image behind a miss, none where the call throws, with
the clock and the cache. -/
def processMissed (now : Int) (decoded : List UInt8) (contextHash : Option JsString)
    (c : Descriptions) : Missed → (Int × Descriptions) × Option ImageProcessResult
  | .inflight desc => ((now, c), some (cacheHit desc))
  | .transcodeFailed errMsg => ((now, c), some (noCall (failurePlaceholder .generic errMsg)))
  | .answered description latencyMs fails =>
    let now := now + latencyMs
    let (c, stored) := c.getOrCompute now (descriptionCacheKey sha256 handoff.call decoded none)
      ((truthy? contextHash).map fun hash =>
        descriptionCacheKey sha256 handoff.call decoded (some hash))
      (some description) (fun desc => !isFailurePlaceholder desc) fails
    ((now, c), some ⟨wrapDescription (stored.getD []), false, true, true, latencyMs⟩)
  | .threw => ((now, c), none)

def processImage (context : VisionContext) (missed : Missed) (s : Int × Descriptions)
    (part : ImagePart) : (Int × Descriptions) × Option ImageProcessResult :=
  if part.encoding = .url then
    (s, some (noCall (failurePlaceholder .generic (js "url images unsupported in v1"))))
  else
    match decodeBase64 part.data with
    | none => (s, some (noCall (failurePlaceholder .parse (js "invalid base64 image data"))))
    | some decoded =>
      let hash := contextHash sha256 handoff.call context
      match lookupDescription sha256 handoff s.1 decoded hash s.2 with
      | (c, some cached) => ((s.1, c), some (cacheHit cached))
      | (c, none) => processMissed sha256 handoff s.1 decoded hash c missed

/-- The kept images, one after the other. -/
def processInTurn (context : ImagePart → VisionContext) :
    List Missed → Int × Descriptions → List ImagePart → List (Option ImageProcessResult)
  | _, _, [] => []
  | missed, s, part :: rest =>
    let (s, result) := processImage sha256 decodeBase64 handoff (context part)
      (missed.headD .threw) s part
    result :: processInTurn context missed.tail s rest

def keptParts (body : Json) (kind : ApiKind) (modelName : Option JsString) : List ImagePart :=
  (applyMaxImagesPolicy (handoffParts handoff.config handoff.catalog body kind modelName)
    handoff.config.maxImages).1

/-- `processBody`; `missed` says what the images come to, in order. -/
def processBodyCached (decomposition : Option (List JsString)) (missed : List Missed)
    (s : Int × Descriptions) (body : Json) (kind : ApiKind) (modelName : Option JsString) :
    ProcessBodyResult :=
  let kept := keptParts handoff body kind modelName
  let results := processInTurn sha256 decodeBase64 handoff
    (visionContext handoff body kept decomposition) missed s kept
  processBody handoff.config handoff.catalog (fun i _ => results[i]?.join) body kind modelName

/-! ## `processBodyCacheOnly` -/

/-- The descriptions of the kept images under their image-only keys, if the
cache has all of them. -/
def cachedInTurn (now : Int) : Descriptions → List ImagePart → Descriptions × Option (List JsString)
  | c, [] => (c, some [])
  | c, part :: rest =>
    if part.encoding = .url then (c, none)
    else
      match decodeBase64 part.data with
      | none => (c, none)
      | some decoded =>
        match lookupDescription sha256 handoff now decoded none c with
        | (c, none) => (c, none)
        | (c, some cached) =>
          let (c, descriptions) := cachedInTurn now c rest
          (c, descriptions.map (wrapDescription cached :: ·))

def processBodyCacheOnlyCached (decomposition : Option (List JsString)) (missed : List Missed)
    (s : Int × Descriptions) (body : Json) (kind : ApiKind) (modelName : Option JsString) :
    ProcessBodyResult :=
  let kept := keptParts handoff body kind modelName
  if handoffParts handoff.config handoff.catalog body kind modelName = [] then ⟨body, false, .zero⟩
  else
    match cachedInTurn sha256 decodeBase64 handoff s.1 s.2 kept with
    | (c, none) =>
      processBodyCached sha256 decodeBase64 handoff decomposition missed (s.1, c) body kind modelName
    | (_, some descriptions) =>
      ⟨replaceImageBlocks (cloneBody body) kind descriptions [] (some (kept.map position)), true,
        { VisionStats.zero with handoffCount := kept.length, cacheHits := kept.length }⟩

/-! ## The tiers that the paths ask -/

/-- The tiers that `getOrCompute` asks for an image, up to the one that has it. -/
def tiersAsked (now : Int) (decoded : List UInt8) (contextHash : Option JsString)
    (c : Descriptions) : List CacheTier :=
  match truthy? contextHash with
  | none => [.imageOnly]
  | some hash =>
    match (c.lookup now (descriptionCacheKey sha256 handoff.call decoded (some hash))).2 with
    | some _ => [.context hash]
    | none => [.context hash, .imageOnly]

/-- The tiers that `processImage` asks before it calls. -/
def tiersOfImage (context : VisionContext) (s : Int × Descriptions) (part : ImagePart) :
    List CacheTier :=
  if part.encoding = .url then []
  else
    match decodeBase64 part.data with
    | none => []
    | some decoded =>
      tiersAsked sha256 handoff s.1 decoded (contextHash sha256 handoff.call context) s.2

/-- The tiers that `processBody` asks for each kept image. -/
def tiersInTurn (context : ImagePart → VisionContext) :
    List Missed → Int × Descriptions → List ImagePart → List (List CacheTier)
  | _, _, [] => []
  | missed, s, part :: rest =>
    let (next, _) := processImage sha256 decodeBase64 handoff (context part)
      (missed.headD .threw) s part
    tiersOfImage sha256 decodeBase64 handoff (context part) s part ::
      tiersInTurn context missed.tail next rest

/-- The tiers that `processBodyCacheOnly` asks for each kept image, up to the
first one that it falls through at. -/
def cachedTiersInTurn (now : Int) : Descriptions → List ImagePart → List (List CacheTier)
  | _, [] => []
  | c, part :: rest =>
    if part.encoding = .url then []
    else
      match decodeBase64 part.data with
      | none => []
      | some decoded =>
        tiersAsked sha256 handoff now decoded none c ::
          match lookupDescription sha256 handoff now decoded none c with
          | (_, none) => []
          | (c, some _) => cachedTiersInTurn now c rest

end

end UmansGate.Vision
