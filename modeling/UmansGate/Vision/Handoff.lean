/-
UmansGate.Vision.Handoff — the vision handoff of one request body
(`src/vision/handoff.ts`).

What an image's vision call returns, and what the cache holds for it, are
parameters. The triage, the decomposition of a batch and the recent
messages shape the prompt of a call and nothing else of the result; they
are left out with the prompts.
-/
import UmansGate.Vision.Signal
import UmansGate.Vision.Wrapper

namespace UmansGate.Vision

open UmansGate.Lib

/-- What the catalog says about the vision of a model. -/
inductive VisionTristate where
  | supported
  | unsupported
  | viaHandoff
  deriving DecidableEq, Repr

inductive RewriteStrategy where
  | never
  | catalog
  | always
  deriving DecidableEq, Repr

def shouldRewrite (strategy : RewriteStrategy) (supports : Option VisionTristate)
    (apiKind : ApiKind) (forceInterceptCapable : Bool) : Bool :=
  match strategy, supports with
  | .never, _ => false
  | .always, _ => true
  | .catalog, none => false
  | .catalog, some .unsupported => true
  | .catalog, some .viaHandoff => apiKind = .openai
  | .catalog, some .supported => forceInterceptCapable

/-- The settings that `processBody` itself reads. -/
structure VisionConfig where
  strategy : RewriteStrategy
  maxImages : ℤ
  forceInterceptCapable : Bool
  deriving Repr

/-- `ImageProcessResult`. -/
structure ImageProcessResult where
  description : JsString
  cacheHit : Bool
  cacheMiss : Bool
  visionCall : Bool
  latencyMs : ℤ
  deriving DecidableEq, Repr

structure VisionStats where
  handoffCount : ℕ
  cacheHits : ℕ
  cacheMisses : ℕ
  visionCalls : ℕ
  latencyMs : List ℤ
  deriving Repr

structure ProcessBodyResult where
  body : Json
  changed : Bool
  stats : VisionStats

def VisionStats.zero : VisionStats := ⟨0, 0, 0, 0, []⟩

/-! ## The overflow policy -/

/-- The index `slice` reads off a number. -/
def sliceIndex (n : ℤ) (length : ℕ) : ℕ :=
  if n < 0 then (length + n).toNat else min n.toNat length

def overflowPlaceholder (i : ℕ) : JsString :=
  js ("[Image omitted: not delivered to model — do not describe or reference it. (overflow " ++
    toString (i + 1) ++ ")]")

/-- The kept parts and one placeholder for each part beyond them. -/
def applyMaxImagesPolicy (parts : List ImagePart) (maxImages : ℤ) :
    List ImagePart × List JsString :=
  let i := sliceIndex maxImages parts.length
  (parts.take i, (parts.drop i).mapIdx fun i _ => overflowPlaceholder i)

/-! ## The clone -/

mutual

/-- `JSON.parse(JSON.stringify(body))`: a number that is not finite is lost,
and the sign of zero. -/
def cloneBody : Json → Json
  | .null => .null
  | .bool b => .bool b
  | .num n => if n.isFinite then .num (if n == 0 then 0 else n) else .null
  | .str s => .str s
  | .arr items => .arr (cloneItems items)
  | .obj fields => .obj (cloneFields fields)

def cloneItems : List Json → List Json
  | [] => []
  | v :: rest => cloneBody v :: cloneItems rest

def cloneFields : List (JsString × Json) → List (JsString × Json)
  | [] => []
  | (key, v) :: rest => (key, cloneBody v) :: cloneFields rest

end

/-! ## `processBody` -/

/-- The catalog's gate, for a named model. -/
def intercepts (config : VisionConfig) (catalog : Option (JsString → Option VisionTristate))
    (apiKind : ApiKind) (modelName : Option JsString) : Bool :=
  match catalog, modelName with
  | some supports, some name =>
    if config.strategy = .catalog ∧ name ≠ [] then
      shouldRewrite config.strategy (supports name) apiKind config.forceInterceptCapable
    else true
  | _, _ => true

/-- The text the signal is read from. -/
def bodyStr : Json → JsString
  | .str s => s
  | body => stringify body

def position (part : ImagePart) : Position := ⟨part.positionInBatch, part.batchSize⟩

/-- `failurePlaceholder("generic", "unexpected error")` with no call. -/
def failedImage : ImageProcessResult where
  description := js "[Image analysis failed: unexpected error. The active model cannot see this image.]"
  cacheHit := false
  cacheMiss := false
  visionCall := false
  latencyMs := 0

/-- The results of the kept parts, one each; `processImage` is none where
the call throws. -/
def processImages (processImage : ℕ → ImagePart → Option ImageProcessResult)
    (kept : List ImagePart) : List ImageProcessResult :=
  kept.mapIdx fun i part => (processImage i part).getD failedImage

def VisionStats.of (results : List ImageProcessResult) : VisionStats where
  handoffCount := results.length
  cacheHits := results.countP ImageProcessResult.cacheHit
  cacheMisses := results.countP ImageProcessResult.cacheMiss
  visionCalls := results.countP ImageProcessResult.visionCall
  latencyMs := (results.filter ImageProcessResult.visionCall).map ImageProcessResult.latencyMs

/-- The image parts of a body behind the two early exits. -/
def handoffParts (config : VisionConfig) (catalog : Option (JsString → Option VisionTristate))
    (body : Json) (apiKind : ApiKind) (modelName : Option JsString) : List ImagePart :=
  if intercepts config catalog apiKind modelName ∧ cheapImageSignal (bodyStr body) then
    findImageParts apiKind body
  else []

def processBody (config : VisionConfig) (catalog : Option (JsString → Option VisionTristate))
    (processImage : ℕ → ImagePart → Option ImageProcessResult) (body : Json) (apiKind : ApiKind)
    (modelName : Option JsString) : ProcessBodyResult :=
  let parts := handoffParts config catalog body apiKind modelName
  if parts = [] then ⟨body, false, .zero⟩
  else
    let (kept, overflow) := applyMaxImagesPolicy parts config.maxImages
    let results := processImages processImage kept
    let wrappedDescriptions := results.map ImageProcessResult.description
    ⟨replaceImageBlocks (cloneBody body) apiKind wrappedDescriptions overflow
      (some (kept.map position)), true, .of results⟩

/-! ## `processBodyCacheOnly` -/

def wrapDescription (desc : JsString) : JsString :=
  js ("[Image content — analyzed by vision module, shown as text because the active model " ++
    "cannot see images:]\n") ++ desc

/-- The descriptions of the kept parts, if the cache has all of them;
`cached` is none for bytes that do not decode and for a miss. -/
def cachedDescriptions (cached : ImagePart → Option JsString) :
    List ImagePart → Option (List JsString)
  | [] => some []
  | part :: rest =>
    if part.encoding = .url then none
    else
      match (cached part).filter (· ≠ []), cachedDescriptions cached rest with
      | some text, some descriptions => some (wrapDescription text :: descriptions)
      | _, _ => none

/-- A part the cache does not have is processed in the foreground. -/
def processBodyCacheOnly (config : VisionConfig)
    (catalog : Option (JsString → Option VisionTristate)) (cached : ImagePart → Option JsString)
    (processImage : ℕ → ImagePart → Option ImageProcessResult) (body : Json) (apiKind : ApiKind)
    (modelName : Option JsString) : ProcessBodyResult :=
  let parts := handoffParts config catalog body apiKind modelName
  if parts = [] then ⟨body, false, .zero⟩
  else
    let (kept, _) := applyMaxImagesPolicy parts config.maxImages
    match cachedDescriptions cached kept with
    | none => processBody config catalog processImage body apiKind modelName
    | some descriptions =>
      ⟨replaceImageBlocks (cloneBody body) apiKind descriptions [] (some (kept.map position)), true,
        { VisionStats.zero with handoffCount := kept.length, cacheHits := kept.length }⟩

end UmansGate.Vision
