/-
UmansGate.Models.ModelInfo — the answer of `/v1/models/info`
(`src/model-info-parser.ts`, `src/models/fetch-info.ts`).
-/
import UmansGate.Stamp.Catalog
import UmansGate.Vision.Handoff

namespace UmansGate.Models

open UmansGate.Lib UmansGate.Stamp UmansGate.Vision

structure BaseModel where
  name : JsString
  provider : Option JsString
  family : Option JsString
  oss_base : Option JsString

structure Reasoning where
  supported : Bool
  can_disable : Bool
  levels : List JsString
  default_level : Option JsString

structure Capabilities where
  max_completion_tokens : Float
  recommended_max_tokens : Float
  context_window : Float
  supports_vision : VisionTristate
  supports_tools : Bool
  reasoning : Reasoning

structure ModelWeights where
  precision : Option JsString
  hf_url : Option JsString

structure Lifecycle where
  production_start_date : Option JsString
  playground_start_date : Option JsString

structure ParsedModelInfo where
  name : JsString
  display_name : JsString
  description : JsString
  base_model : BaseModel
  capabilities : Capabilities
  benchmarks : Json
  weights : ModelWeights
  stage : Option JsString
  lifecycle : Option Lifecycle
  stamps : StampPolicy

/-- `v[key] ?? {}`: on everything but an object the properties read below
are absent all the same. -/
def part (v : Json) (key : JsString) : Json := (v.get? key).getD (.obj [])

/-- A number property, or zero. -/
def numberOr0 (v : Json) (key : JsString) : Float :=
  match v.get? key with
  | some (.num n) => n
  | _ => 0

def isTrue (v : Json) (key : JsString) : Bool := v.propIs key (.bool true)

def supportsVision (caps : Json) : VisionTristate :=
  if isTrue caps (js "supports_vision") then .supported
  else if caps.propIs (js "supports_vision") (.str (js "via-handoff")) then .viaHandoff
  else .unsupported

/-- The string elements of an array property. -/
def stringItems (v : Json) (key : JsString) : List JsString :=
  ((v.items? key).getD []).filterMap fun
    | .str s => some s
    | _ => none

def parseLifecycle (v : Json) : Option Lifecycle :=
  match v.get? (js "lifecycle") with
  | none => none
  | some lifecycle =>
    if lifecycle.truthy then
      some
        { production_start_date := lifecycle.str? (js "production_start_date")
          playground_start_date := lifecycle.str? (js "playground_start_date") }
    else none

/-- The entry under `key`. -/
def parseModelInfo (key : JsString) (v : Json) : ParsedModelInfo :=
  let caps := part v (js "capabilities")
  let bm := part v (js "base_model")
  let w := part v (js "weights")
  let reasoning := part caps (js "reasoning")
  let name := (v.str? (js "name")).getD key
  { name
    display_name := (v.str? (js "display_name")).getD []
    description := (v.str? (js "description")).getD []
    base_model :=
      { name := (bm.str? (js "name")).getD []
        provider := bm.str? (js "provider")
        family := bm.str? (js "family")
        oss_base := bm.str? (js "oss_base") }
    capabilities :=
      { max_completion_tokens := numberOr0 caps (js "max_completion_tokens")
        recommended_max_tokens := numberOr0 caps (js "recommended_max_tokens")
        context_window := numberOr0 caps (js "context_window")
        supports_vision := supportsVision caps
        supports_tools := isTrue caps (js "supports_tools")
        reasoning :=
          { supported := isTrue reasoning (js "supported")
            can_disable := isTrue reasoning (js "can_disable")
            levels := stringItems reasoning (js "levels")
            default_level := reasoning.str? (js "default_level") } }
    benchmarks :=
      match v.get? (js "benchmarks") with
      | some benchmarks => if benchmarks.isObject then benchmarks else .obj []
      | none => .obj []
    weights :=
      { precision := w.str? (js "precision")
        hf_url := w.str? (js "hf_url") }
    stage := v.str? (js "stage")
    lifecycle := parseLifecycle v
    stamps :=
      { matchStampOverlay name with
        canDisableThinking := isTrue reasoning (js "can_disable") } }

/-- Entries whose value is no object are skipped; any other body has none. -/
def parseModelInfoResponse (body : Json) : Dict JsString ParsedModelInfo :=
  if body.isObject then
    body.spread.foldl (fun out entry =>
      if entry.2.isObject then out.set entry.1 (parseModelInfo entry.1 entry.2) else out) []
  else []

/-- What a GET gives: nothing (an error, a timeout), or a response whose
body parses or does not. -/
inductive Answer where
  | failed
  | answered (ok : Bool) (body : Option Json)

/-- The parsed body of an ok response; none where the fetch throws. -/
def fetchModelsInfo (answer : Answer) : Option (Dict JsString ParsedModelInfo) :=
  match answer with
  | .answered true (some body) => some (parseModelInfoResponse body)
  | _ => none

end UmansGate.Models
