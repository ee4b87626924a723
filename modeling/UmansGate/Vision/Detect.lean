/-
UmansGate.Vision.Detect — finding the images of a request body
(`src/vision/detect.ts`).

A value that is no object has no properties here, so the source's checks
`typeof part !== "object" || part === null` need no branch of their own:
the tests of `type` that follow them fail. The regular expressions work on
code units, as those of the source without the `u` flag do.
-/
import UmansGate.Lib.Json

namespace UmansGate.Vision

open UmansGate.Lib

inductive Encoding where
  | base64
  | url
  deriving DecidableEq, Repr

/-- A detected image part, normalised across the two APIs. -/
structure ImagePart where
  mediaType : Option JsString
  encoding : Encoding
  data : JsString
  adjacentText : Option JsString
  isToolResult : Bool
  positionInBatch : ℕ
  batchSize : ℕ
  originalSystemPrompt : Option JsString
  deriving DecidableEq, Repr

/-- Which API shape the body follows. -/
inductive ApiKind where
  | openai
  | anthropic
  deriving DecidableEq, Repr

def DEFAULT_MAX_CHARS : ℕ := 1000

def truncateText (s : JsString) (maxChars : ℕ) : Option JsString :=
  if maxChars = 0 ∨ s = [] then none else some (s.take maxChars)

/-- The `type` of a part is this string. -/
def hasType (part : Json) (type : String) : Bool := part.str? (js "type") = some (js type)

/-- Concatenate the `text` fields of the `{type:"text"}` parts. -/
def concatTextBlocks (arr : List Json) : JsString :=
  arr.flatMap fun part => if hasType part "text" then (part.str? (js "text")).getD [] else []

/-- The text of a prompt that is a string or an array of parts. -/
def promptText (prompt : Option Json) (maxChars : ℕ) : Option JsString :=
  match prompt with
  | some (.str s) => truncateText s maxChars
  | some (.arr parts) => truncateText (concatTextBlocks parts) maxChars
  | _ => none

def extractOpenAISystemPrompt (messages : List Json) (maxChars : ℕ) : Option JsString :=
  match messages.find? fun m => m.str? (js "role") = some (js "system") with
  | none => none
  | some m => promptText (m.get? (js "content")) maxChars

def extractAnthropicSystemPrompt (system : Option Json) (maxChars : ℕ) : Option JsString :=
  promptText system maxChars

/-- `p.type === "tool_result" && Array.isArray(p.content)`. -/
def toolContent? (p : Json) : Option (List Json) :=
  if hasType p "tool_result" then p.items? (js "content") else none

theorem sizeOf_toolContent?_lt {p : Json} {items : List Json} (h : toolContent? p = some items) :
    sizeOf items < sizeOf p := by
  unfold toolContent? at h
  split at h
  · exact Json.sizeOf_items?_lt h
  · exact absurd h (by simp)

def countAnthropicImages : List Json → ℕ
  | [] => 0
  | p :: rest =>
    (if hasType p "image" then 1
      else
        match _h : toolContent? p with
        | some content => countAnthropicImages content
        | none => 0) + countAnthropicImages rest
termination_by arr => sizeOf arr
decreasing_by
  · have := sizeOf_toolContent?_lt _h
    simp only [List.cons.sizeOf_spec]
    omega
  · simp only [List.cons.sizeOf_spec]
    omega

def asciiLower (u : UInt16) : UInt16 := if 65 ≤ u ∧ u ≤ 90 then u + 32 else u

/-- `/\.(png|jpe?g|webp|gif|bmp|tiff?|heic|heif|svg)$/i`, and the media
type of the extension. -/
def inferExtFromUrl (url : JsString) : Option JsString :=
  let exts := ["png", "jpg", "jpeg", "webp", "gif", "bmp", "tif", "tiff", "heic", "heif", "svg"]
  match exts.find? fun ext => (js ("." ++ ext)).isSuffixOf (url.map asciiLower) with
  | none => none
  | some ext =>
    if ext = "jpg" then some (js "image/jpeg")
    else if ext = "tif" ∨ ext = "tiff" then some (js "image/tiff")
    else some (js ("image/" ++ ext))

/-- The units `.` does not match. -/
def isLineTerminator (u : UInt16) : Bool := u = 0x0A || u = 0x0D || u = 0x2028 || u = 0x2029

/-- `/^data:([^;]+);base64,(.+)$/`: the two groups. -/
def matchDataUrl (url : JsString) : Option (JsString × JsString) :=
  if (js "data:").isPrefixOf url then
    let (mediaType, rest) := (url.drop 5).span (· ≠ 59)
    let data := rest.drop 8
    if mediaType ≠ [] ∧ (js ";base64,").isPrefixOf rest ∧ data ≠ [] ∧
        data.all (!isLineTerminator ·) then
      some (mediaType, data)
    else none
  else none

/-- What the finder reads off an image block. -/
structure ImageSource where
  mediaType : Option JsString
  encoding : Encoding
  data : JsString
  deriving DecidableEq, Repr

def ImagePart.source (part : ImagePart) : ImageSource := ⟨part.mediaType, part.encoding, part.data⟩

/-- The image of an Anthropic `source`, of a known type. -/
def anthropicSource (src : Json) : Option ImageSource :=
  if hasType src "base64" then
    some ⟨src.str? (js "media_type"), .base64, (src.str? (js "data")).getD []⟩
  else if hasType src "url" then
    let url := (src.str? (js "url")).getD []
    some ⟨inferExtFromUrl url, .url, url⟩
  else none

/-- The image of an OpenAI `image_url` part with a url. -/
def openAISource (part : Json) : Option ImageSource :=
  let url := ((part.get? (js "image_url")).bind fun imageUrl => imageUrl.str? (js "url")).getD []
  if url = [] then none
  else
    match matchDataUrl url with
    | some (mediaType, data) => some ⟨some mediaType, .base64, data⟩
    | none => some ⟨inferExtFromUrl url, .url, url⟩

/-- The fields of a part that do not depend on its own block. -/
structure ImageMeta where
  adjacentText : Option JsString
  isToolResult : Bool
  batchSize : ℕ
  originalSystemPrompt : Option JsString

def ImageMeta.part (m : ImageMeta) (source : ImageSource) (positionInBatch : ℕ) : ImagePart where
  mediaType := source.mediaType
  encoding := source.encoding
  data := source.data
  adjacentText := if m.isToolResult then none else m.adjacentText
  isToolResult := m.isToolResult
  positionInBatch := positionInBatch
  batchSize := m.batchSize
  originalSystemPrompt := m.originalSystemPrompt

/-- The depth-first walk of an Anthropic `content[]`: the cursor and the
parts it leaves. An image whose source is an object advances the cursor,
also when its type is unknown. -/
def emitAnthropicImages (m : ImageMeta) (position : ℕ) : List Json → ℕ × List ImagePart
  | [] => (position, [])
  | p :: rest =>
    let (position, out) :=
      match (p.get? (js "source")).filter fun src => hasType p "image" && src.isObject with
      | some src =>
        (position + 1, ((anthropicSource src).map (m.part · (position + 1))).toList)
      | none =>
        match _h : toolContent? p with
        | some content => emitAnthropicImages { m with isToolResult := true } position content
        | none => (position, [])
    let (position, out') := emitAnthropicImages m position rest
    (position, out ++ out')
termination_by arr => sizeOf arr
decreasing_by
  · have := sizeOf_toolContent?_lt _h
    simp only [List.cons.sizeOf_spec]
    omega
  · simp only [List.cons.sizeOf_spec]
    omega

def findAnthropicImageParts (body : Json) (maxChars : ℕ) : List ImagePart :=
  match body.items? (js "messages") with
  | none => []
  | some messages =>
    let originalSystemPrompt := extractAnthropicSystemPrompt (body.get? (js "system")) maxChars
    messages.flatMap fun msg =>
      match msg.items? (js "content") with
      | none => []
      | some content =>
        let batchSize := countAnthropicImages content
        if batchSize = 0 then []
        else
          let adjacentText := truncateText (concatTextBlocks content) maxChars
          (emitAnthropicImages ⟨adjacentText, false, batchSize, originalSystemPrompt⟩ 0 content).2

/-- Pass 2 of `findOpenAIImageParts` over one message. -/
def emitOpenAIImages (m : ImageMeta) (positionInBatch : ℕ) : List Json → List ImagePart
  | [] => []
  | part :: rest =>
    if hasType part "image_url" then
      match openAISource part with
      | none => emitOpenAIImages m positionInBatch rest
      | some source =>
        m.part source (positionInBatch + 1) :: emitOpenAIImages m (positionInBatch + 1) rest
    else emitOpenAIImages m positionInBatch rest

def findOpenAIImageParts (body : Json) (maxChars : ℕ) : List ImagePart :=
  match body.items? (js "messages") with
  | none => []
  | some messages =>
    let originalSystemPrompt := extractOpenAISystemPrompt messages maxChars
    messages.flatMap fun msg =>
      match msg.items? (js "content") with
      | none => []
      | some content =>
        let batchSize := content.countP (hasType · "image_url")
        if batchSize = 0 then []
        else
          let adjacentText := truncateText (concatTextBlocks content) maxChars
          emitOpenAIImages ⟨adjacentText, false, batchSize, originalSystemPrompt⟩ 0 content

/-- The finder of an API. -/
def findImageParts (kind : ApiKind) (body : Json) : List ImagePart :=
  match kind with
  | .openai => findOpenAIImageParts body DEFAULT_MAX_CHARS
  | .anthropic => findAnthropicImageParts body DEFAULT_MAX_CHARS

example : inferExtFromUrl (js "https://h/a.JPG") = some (js "image/jpeg") := by decide

end UmansGate.Vision
