/-
UmansGate.Vision.Wrapper — replacing the images of a request body with
their descriptions (`src/vision/wrapper.ts`).

The source changes the body in place; here each walk returns the new
arrays. `descIdx` is the cursor into the descriptions.
-/
import UmansGate.Vision.Detect

namespace UmansGate.Vision

open UmansGate.Lib

inductive FailureReason where
  | timeout
  | httpStatus
  | parse
  | empty
  | generic
  | aborted
  deriving DecidableEq, Repr

def FAILURE_PLACEHOLDER_PREFIX : JsString := js "[Image analysis failed:"

def failurePlaceholder (reason : FailureReason) (detail : JsString) : JsString :=
  let reasonText := match reason with
    | .timeout => js "vision model timed out after " ++ detail
    | .httpStatus => js "vision model returned HTTP " ++ detail
    | .parse => js "vision model returned an unparseable response"
    | .empty => js "vision model returned an empty description"
    | .generic => detail
    | .aborted => js "client disconnected before vision model responded"
  FAILURE_PLACEHOLDER_PREFIX ++ js " " ++ reasonText ++
    js ". The active model cannot see this image.]"

def isFailurePlaceholder (description : JsString) : Bool :=
  FAILURE_PLACEHOLDER_PREFIX.isPrefixOf description

/-- The place of an image among those of its message. -/
structure Position where
  positionInBatch : ℕ
  batchSize : ℕ
  deriving DecidableEq, Repr

/-- A description with its label when the batch has several images. -/
def wrapWithPosition (descriptions : List JsString) (descIdx : ℕ)
    (positions : Option (List Position)) : JsString :=
  let desc := descriptions.getD descIdx []
  match positions.bind (·[descIdx]?) with
  | some pos =>
    if pos.batchSize > 1 then
      js ("[Image " ++ toString pos.positionInBatch ++ ":\n") ++ desc ++ js "]"
    else desc
  | none => desc

/-- The text block that replaces an image. -/
def textBlock (kind : ApiKind) (text : JsString) : Json :=
  match kind with
  | .openai => .obj [(js "type", .str (js "text")), (js "text", .str text)]
  | .anthropic =>
    .obj [(js "type", .str (js "text")), (js "text", .str text),
      (js "cache_control", .obj [(js "type", .str (js "ephemeral"))])]

/-- The content blocks and the cursor after the replacement. -/
def replaceInContentArray (kind : ApiKind) (descriptions : List JsString)
    (positions : Option (List Position)) (descIdx : ℕ) : List Json → List Json × ℕ
  | [] => ([], descIdx)
  | part :: rest =>
    let (part, descIdx) :=
      if kind = .openai ∧ hasType part "image_url" = true ∨
          kind = .anthropic ∧ hasType part "image" = true then
        if descIdx < descriptions.length then
          (textBlock kind (wrapWithPosition descriptions descIdx positions), descIdx + 1)
        else (part, descIdx)
      else
        match _h : (toolContent? part).filter fun _ => kind = .anthropic with
        | some content =>
          let (content, descIdx) :=
            replaceInContentArray kind descriptions positions descIdx content
          (part.set (js "content") (.arr content), descIdx)
        | none => (part, descIdx)
    let (rest, descIdx) := replaceInContentArray kind descriptions positions descIdx rest
    (part :: rest, descIdx)
termination_by content => sizeOf content
decreasing_by
  · have := sizeOf_toolContent?_lt (Option.filter_eq_some_iff.mp _h).1
    simp only [List.cons.sizeOf_spec]
    omega
  · simp only [List.cons.sizeOf_spec]
    omega

/-- `overflow.join("\n")`. -/
def joinLines (lines : List JsString) : JsString := List.intercalate (js "\n") lines

/-- The loop of `replaceImageBlocks` over the messages. -/
def replaceInMessages (kind : ApiKind) (descriptions overflow : List JsString)
    (positions : Option (List Position)) (descIdx overflowIdx : ℕ) : List Json → List Json
  | [] => []
  | msg :: rest =>
    match msg.items? (js "content") with
    | none =>
      msg :: replaceInMessages kind descriptions overflow positions descIdx overflowIdx rest
    | some content =>
      let (content, descIdx) := replaceInContentArray kind descriptions positions descIdx content
      if joinLines overflow ≠ [] ∧ descIdx ≥ descriptions.length ∧
          overflowIdx < overflow.length then
        let content := content ++ [textBlock .openai (joinLines overflow)]
        msg.set (js "content") (.arr content) ::
          replaceInMessages kind descriptions overflow positions descIdx overflow.length rest
      else
        msg.set (js "content") (.arr content) ::
          replaceInMessages kind descriptions overflow positions descIdx overflowIdx rest

def replaceImageBlocks (body : Json) (kind : ApiKind) (descriptions overflow : List JsString)
    (positions : Option (List Position)) : Json :=
  match body.items? (js "messages") with
  | none => body
  | some messages =>
    body.set (js "messages")
      (.arr (replaceInMessages kind descriptions overflow positions 0 0 messages))

end UmansGate.Vision
