/-
UmansGate.Stamp.Catalog — stamp policies and per-model rules
(`src/stamp-catalog.ts`, the stamp types of `src/types.ts`).

Of a catalog entry only its `stamps` are read. The values of a rule come
from config.json, so its extra body is any properties.
-/
import UmansGate.Lib.JsonObject

namespace UmansGate.Stamp

open UmansGate.Lib

inductive Effort where
  | high
  | max
  deriving DecidableEq, Repr

def Effort.toJson : Effort → Json
  | high => .str (js "high")
  | max => .str (js "max")

inductive ThinkingConfig where
  | adaptive
  | enabledKeep
  | enabledClear (clearThinking : Bool)
  | enabled
  deriving DecidableEq, Repr

def ThinkingConfig.toJson : ThinkingConfig → Json
  | adaptive => .obj [(js "type", .str (js "adaptive"))]
  | enabledKeep => .obj [(js "type", .str (js "enabled")), (js "keep", .str (js "all"))]
  | enabledClear clearThinking =>
    .obj [(js "type", .str (js "enabled")), (js "clear_thinking", .bool clearThinking)]
  | enabled => .obj [(js "type", .str (js "enabled"))]

structure StampPolicy where
  max_tokens : Float
  effort : Effort
  thinking : Bool
  top_k : Option Float
  canDisableThinking : Bool
  thinkingShape : ThinkingConfig
  deriving DecidableEq, Repr

/-- `{ effort: policy.effort }`. -/
def StampPolicy.outputConfig (policy : StampPolicy) : Json :=
  .obj [(js "effort", policy.effort.toJson)]

structure PerModelRule where
  pattern : JsString
  anthropicThinkingShape : Option ThinkingConfig
  openaiThinkingShape : Option ThinkingConfig
  openaiExtraBody : Option Fields
  openaiVetoReasoningEffort : Bool
  forceThinkingWhenAbsent : Bool

abbrev Catalog := Dict JsString StampPolicy

/-! ## Patterns -/

def star : JsString := js "*"

/-- A trailing star matches any rest of the name. -/
def patternMatches (pattern modelName : JsString) : Bool :=
  if pattern = star then true
  else if star.isSuffixOf pattern then pattern.dropLast.isPrefixOf modelName
  else modelName = pattern

/-! ## Policies -/

/-- The fallback entry of the overlay. -/
def defaultPolicy : StampPolicy where
  max_tokens := 32767
  effort := .high
  thinking := true
  top_k := none
  canDisableThinking := true
  thinkingShape := .adaptive

def STAMP_OVERLAY : List (JsString × StampPolicy) :=
  [(js "umans-glm*", { defaultPolicy with max_tokens := 131071, effort := .max, top_k := some 20 }),
    (js "umans-coder", { defaultPolicy with canDisableThinking := false }),
    (js "umans-flash", defaultPolicy),
    (js "umans-deepseek-v4-flash-0731", { defaultPolicy with thinkingShape := .enabled }),
    (js "umans-kimi-k3", { defaultPolicy with max_tokens := 131071, effort := .max }),
    (js "umans-kimi*", { defaultPolicy with canDisableThinking := false }),
    (js "umans-qwen*", defaultPolicy),
    (star, defaultPolicy)]

def matchStampOverlay (modelName : JsString) : StampPolicy :=
  match STAMP_OVERLAY.find? fun entry => patternMatches entry.1 modelName with
  | some entry => entry.2
  | none => defaultPolicy

def resolveStampPolicy (modelName : Option JsString) (catalog : Catalog) : StampPolicy :=
  match modelName with
  | some name => (catalog.get? name).getD (matchStampOverlay name)
  | none => defaultPolicy

/-! ## Rules -/

def resolvePerModelRule (modelName : Option JsString) (rules : List PerModelRule) :
    Option PerModelRule :=
  match modelName with
  | some name => rules.find? fun rule => patternMatches rule.pattern name
  | none => none

end UmansGate.Stamp
