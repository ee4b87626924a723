/-
UmansGate.Models.Client — the list of models and the catalog of their infos
(`src/models.ts`).

A refresh is one GET of `/v1/models` and one of `/v1/models/info`. Calls of
`refresh` while one is under way join it, so refreshes follow one another.
The timers that call it, the callback and the log are left out.
-/
import UmansGate.Models.ModelInfo

namespace UmansGate.Models

open UmansGate.Lib UmansGate.Stamp UmansGate.Vision

def CHEAP_OUTPUT_THRESHOLD : Float := 2
def CHEAP_MODEL_WEIGHT : Float := 0.5
def CHEAPEST_OUTPUT_THRESHOLD : Float := 0.9
def CHEAPEST_MODEL_WEIGHT : Float := 0.25
def DEFAULT_MODEL_WEIGHT : Float := 1

structure ModelPricing where
  input : Float
  output : Float

structure ModelEntry where
  id : JsString
  context_length : Float
  pricing : Option ModelPricing
  weight : Float
  info : Option ParsedModelInfo

structure ModelsClient where
  entries : Dict JsString ModelEntry
  parsedCatalog : Dict JsString ParsedModelInfo
  fetchedAt : Int
  ok : Bool

/-- What the constructor makes. -/
def ModelsClient.new : ModelsClient := ⟨[], [], 0, false⟩

/-! ## One refresh -/

def pricingOf (raw : Json) : Option ModelPricing :=
  match raw.get? (js "pricing") with
  | some pricing =>
    if pricing.isObject then
      some { input := numberOr0 pricing (js "input"), output := numberOr0 pricing (js "output") }
    else none
  | none => none

def weightOf (pricing : Option ModelPricing) : Float :=
  match pricing with
  | some pricing =>
    if pricing.output < CHEAPEST_OUTPUT_THRESHOLD then CHEAPEST_MODEL_WEIGHT
    else if pricing.output < CHEAP_OUTPUT_THRESHOLD then CHEAP_MODEL_WEIGHT
    else DEFAULT_MODEL_WEIGHT
  | none => DEFAULT_MODEL_WEIGHT

def entryOf (infoMap : Option (Dict JsString ParsedModelInfo)) (id : JsString) (raw : Json) :
    ModelEntry :=
  let pricing := pricingOf raw
  { id
    context_length := numberOr0 raw (js "context_length")
    pricing
    weight := weightOf pricing
    info := infoMap.bind fun m => m.get? id }

def isNull : Json → Bool
  | .null => true
  | _ => false

/-- The id of a listed model; the others are skipped. -/
def idOf (raw : Json) : Option JsString := (raw.str? (js "id")).filter (· ≠ [])

/-- The new entries; reading the id of a `null` throws. -/
def nextEntries (infoMap : Option (Dict JsString ParsedModelInfo)) (data : List Json) :
    Option (Dict JsString ModelEntry) :=
  data.foldlM (fun next raw =>
    if isNull raw then none
    else
      match idOf raw with
      | some id => some (next.set id (entryOf infoMap id raw))
      | none => some next) []

/-- The `data` of an ok response, if it is an array. -/
def dataOf (models : Answer) : Option (List Json) :=
  match models with
  | .answered true (some parsed) => parsed.items? (js "data")
  | _ => none

/-- The catalog is replaced before the list is read. -/
def ModelsClient.doFetch (client : ModelsClient) (models info : Answer) (now : Int) :
    ModelsClient × Bool :=
  match dataOf models with
  | none => ({ client with ok := false }, false)
  | some data =>
    let infoMap := fetchModelsInfo info
    let client := { client with parsedCatalog := infoMap.getD [] }
    match nextEntries infoMap data with
    | none => ({ client with ok := false }, false)
    | some next => ({ client with entries := next, fetchedAt := now, ok := true }, true)

/-! ## Lookups -/

def ModelsClient.isReady (client : ModelsClient) : Bool := 0 < client.fetchedAt

def ModelsClient.getWeight (client : ModelsClient) (modelId : JsString) : Float :=
  ((client.entries.get? modelId).map ModelEntry.weight).getD DEFAULT_MODEL_WEIGHT

def ModelsClient.getVisionSupport (client : ModelsClient) (modelName : JsString) :
    Option VisionTristate :=
  match client.entries.get? modelName with
  | some entry => entry.info.map fun info => info.capabilities.supports_vision
  | none => none

def ModelsClient.getParsedCatalog (client : ModelsClient) : Dict JsString ParsedModelInfo :=
  client.parsedCatalog

/-- What the stamps read of the catalog. -/
def stampCatalog (catalog : Dict JsString ParsedModelInfo) : Catalog :=
  catalog.mapVals ParsedModelInfo.stamps

end UmansGate.Models
