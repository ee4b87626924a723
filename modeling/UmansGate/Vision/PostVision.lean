/-
UmansGate.Vision.PostVision — the request body behind the vision stage
(`src/proxy.ts`, `parseInbound`, `runVisionHandoff`, `stampPostVision`).

The bytes of the body are written as the value they parse to. They are
written anew behind the pipeline if a step reported a change, behind the
handoff if it replaced images, and behind the second walk for the ttl; an
exception of that walk leaves them as the handoff wrote them. A body that is
falsy skips the stage.
-/
import UmansGate.Stamp.Inbound
import UmansGate.Vision.Handoff

namespace UmansGate.Vision

open UmansGate.Lib UmansGate.Stamp

/-- What a handoff is constructed with, and what its calls come to. -/
structure VisionStage where
  config : VisionConfig
  catalog : Option (JsString → Option VisionTristate)
  backgroundVision : Bool
  cached : ImagePart → Option JsString
  processImage : ℕ → ImagePart → Option ImageProcessResult

def VisionStage.process (stage : VisionStage) (body : Json) (apiKind : ApiKind)
    (modelName : Option JsString) : ProcessBodyResult :=
  if stage.backgroundVision then
    processBodyCacheOnly stage.config stage.catalog stage.cached stage.processImage body apiKind
      modelName
  else processBody stage.config stage.catalog stage.processImage body apiKind modelName

def stampPostVision (body : Json) (ctx : StampContext) : Stamped :=
  if CacheTtlStep.applies ctx && body.isObject then CacheTtlStep.apply body ctx
  else .returned body false

/-- What the vision stage gets: the value of `reqBuf` and the stamped body. -/
structure StampedRequest where
  reqBody : Json
  body : Json

def stampRequest (ctx : StampContext) (fault : Option ℕ) (body : Json) : StampedRequest :=
  match stampRun ctx fault body with
  | .returned stamped true => ⟨stamped, stamped⟩
  | .returned stamped false => ⟨body, stamped⟩
  | .threw stamped => ⟨body, stamped⟩

theorem stampRequest_body (ctx : StampContext) (fault : Option ℕ) (body : Json) :
    (stampRequest ctx fault body).body = (stampRun ctx fault body).body := by
  unfold stampRequest
  cases stampRun ctx fault body with
  | returned stamped changed =>
    cases changed with
    | false => rfl
    | true => rfl
  | threw stamped => rfl

/-- The value of `reqBuf` behind the stage; `handed` is the body whose images
were replaced. -/
structure Outbound where
  reqBody : Json
  handed : Option Json

def runVisionHandoff (config : StampPipelineConfig) (isOpenAi : Bool) (catalog : Catalog)
    (vision : Option VisionStage) (reqModelName : Option JsString) (request : StampedRequest) :
    Outbound :=
  match vision.filter fun _ => request.body.truthy with
  | none => ⟨request.reqBody, none⟩
  | some stage =>
    let result := stage.process request.body (if isOpenAi then .openai else .anthropic) reqModelName
    if result.changed then
      match stampPostVision result.body (requestContext config isOpenAi catalog result.body) with
      | .returned stamped true => ⟨stamped, some request.body⟩
      | _ => ⟨result.body, some request.body⟩
    else ⟨request.reqBody, none⟩

/-- A request from its parsed body to the bytes that go upstream. -/
def upstream (config : StampPipelineConfig) (isOpenAi : Bool) (catalog : Catalog)
    (fault : Option ℕ) (vision : Option VisionStage) (body : Json) : Outbound :=
  let ctx := requestContext config isOpenAi catalog body
  runVisionHandoff config isOpenAi catalog vision ctx.modelName (stampRequest ctx fault body)

end UmansGate.Vision
