/-
UmansGate.Stamp.Fields — the stamps of top-level fields
(`src/stamp-thinking.ts`, `src/stamp-reasoning.ts`, `src/stamp-topk.ts`,
`src/stamp-temperature.ts`, `src/models/name.ts`).

Each stamp mutates the body and returns whether it did; here it returns
both. A field set on an array is not part of its JSON value, so `set`
leaves an array as it is.
-/
import UmansGate.Stamp.Catalog

namespace UmansGate.Stamp

open UmansGate.Lib

def extractModelName (body : Json) : Option JsString := body.str? (js "model")

/-- One mutation after another, and whether either was made. -/
def andThen (first : Json × Bool) (second : Json → Json × Bool) : Json × Bool :=
  ((second first.1).1, first.2 || (second first.1).2)

/-! ## Thinking -/

/-- `value == null`. -/
def isNullish : Option Json → Bool
  | none => true
  | some .null => true
  | some _ => false

/-- The lower case of ASCII letters; no other unit has one that occurs in the
words it is compared with. -/
def toLowerCase (s : JsString) : JsString := s.map fun u => if 65 ≤ u ∧ u ≤ 90 then u + 32 else u

def DISABLED_THINKING_TYPES : List JsString := [js "disabled", js "off", js "none"]

def isThinkingDisabled (thinking : Option Json) : Bool :=
  match thinking with
  | some t =>
    (match t.str? (js "type") with
      | some type => DISABLED_THINKING_TYPES.contains (toLowerCase type)
      | none => false) || t.propIs (js "enabled") (.bool false)
  | none => false

def isThinkingEnabled (thinking : Option Json) : Bool :=
  !isNullish thinking && !isThinkingDisabled thinking

/-- `a[key] === b[key]`. -/
def sameProp (a b : Json) (key : JsString) : Bool :=
  match b.get? key with
  | some y => a.propIs key y
  | none => !a.has key

def thinkingEquals (a b : Json) : Bool :=
  if !sameProp a b (js "type") then false
  else if b.propIs (js "type") (.str (js "enabled")) then
    if a.has (js "keep") && b.has (js "keep") then sameProp a b (js "keep")
    else if a.has (js "clear_thinking") && b.has (js "clear_thinking") then
      sameProp a b (js "clear_thinking")
    else !a.has (js "keep") && !b.has (js "keep") && !a.has (js "clear_thinking") &&
      !b.has (js "clear_thinking")
  else true

inductive OutputConfigOption where
  | off
  | on
  | config (effort : Effort)

structure StampOptions where
  maxTokens : Bool
  outputConfig : OutputConfigOption
  thinking : Bool
  policy : Option StampPolicy

/-- The policy of the options, or the overlay's for the body's own model. -/
def policyFor (policy : Option StampPolicy) (body : Json) : StampPolicy :=
  policy.getD (matchStampOverlay ((extractModelName body).getD []))

def stampMaxTokens (maxTokens : Bool) (policy : StampPolicy) (body : Json) : Json × Bool :=
  if maxTokens && isThinkingEnabled (body.get? (js "thinking")) then
    (body.set (js "max_tokens") (.num policy.max_tokens), true)
  else (body, false)

/-- Every thinking that is not respected is forced to the policy's shape. -/
def forceThinking (thinking : Bool) (policy : StampPolicy) (body : Json) : Json × Bool :=
  match body.get? (js "thinking") with
  | some current =>
    if thinking && !isNullish (some current) &&
        (!isThinkingDisabled (some current) || !policy.canDisableThinking) then
      if thinkingEquals current policy.thinkingShape.toJson then (body, false)
      else (body.set (js "thinking") policy.thinkingShape.toJson, true)
    else (body, false)
  | none => (body, false)

def stampOutputConfig (outputConfig : OutputConfigOption) (policy : StampPolicy) (body : Json) :
    Json × Bool :=
  if isThinkingEnabled (body.get? (js "thinking")) && policy.thinking then
    match outputConfig with
    | .off => (body, false)
    | .on => (body.set (js "output_config") policy.outputConfig, true)
    | .config effort => (body.set (js "output_config") (.obj [(js "effort", effort.toJson)]), true)
  else (body, false)

def stampThinking (body : Json) (options : StampOptions) : Json × Bool :=
  let policy := policyFor options.policy body
  andThen
    (andThen (stampMaxTokens options.maxTokens policy body) (forceThinking options.thinking policy))
    (stampOutputConfig options.outputConfig policy)

/-! ## Reasoning effort -/

structure StampReasoningOptions where
  reasoningEffort : Option Effort
  policy : Option StampPolicy
  vetoReasoningEffort : Bool

def DISABLED_EFFORT_VALUES : List JsString := [js "off", js "none", js "null"]

def isReasoningEffortDisabled (value : Option Json) : Bool :=
  match value with
  | some (.str s) => DISABLED_EFFORT_VALUES.contains (toLowerCase s)
  | value => isNullish value

/-- `delete body[key]` where the key is in the body. -/
def strip (key : JsString) (body : Json) : Json × Bool :=
  if body.has key then (body.remove key, true) else (body, false)

def STAMP_TEMPERATURE_VALUE : Float := 1.0

def forceTemperature (body : Json) : Json × Bool :=
  if body.propIs (js "temperature") (.num STAMP_TEMPERATURE_VALUE) then (body, false)
  else (body.set (js "temperature") (.num STAMP_TEMPERATURE_VALUE), true)

/-- What active reasoning does to the other fields of an OpenAI body. -/
def stripForReasoning (body : Json) : Json × Bool :=
  andThen (andThen (strip (js "output_config") body) (strip (js "context_management")))
    forceTemperature

def stampReasoning (body : Json) (options : StampReasoningOptions) : Json × Bool :=
  let policy := policyFor options.policy body
  let thinking := body.get? (js "thinking")
  let effort := body.get? (js "reasoning_effort")
  let stamped := body.set (js "reasoning_effort") policy.effort.toJson
  if options.reasoningEffort = none then (body, false)
  else if effort.isNone && thinking.isNone then (body, false)
  else if options.vetoReasoningEffort then
    if thinking.isNone || isThinkingDisabled thinking then (body, false)
    else stripForReasoning body
  else if effort.isNone then
    if isThinkingDisabled thinking || !policy.thinking then (body, false)
    else andThen (stamped, true) stripForReasoning
  else if isReasoningEffortDisabled effort && policy.canDisableThinking then (body, false)
  else andThen (stamped, true) stripForReasoning

/-! ## Top-K and temperature -/

/-- The properties but `model` and `top_k`. -/
def otherFields (fields : Fields) : Fields :=
  ((Dict.keys fields).filter fun k => k ≠ js "model" ∧ k ≠ js "top_k").filterMap fun k =>
    (Dict.get? fields k).map fun v => (k, v)

/-- `model`, `top_k`, then the other properties; a property of the body's own
under `__proto__` is lost here. -/
def rebuild (fields : Fields) (model : JsString) (topK : Float) : Json :=
  (Json.obj [(js "model", .str model), (js "top_k", .num topK)]).assignAll (otherFields fields)

/-- The body is emptied and gets the rebuilt properties. -/
def stampTopK (body : Json) (topK : Float) (policy : Option StampPolicy) : Json × Bool :=
  match body, extractModelName body with
  | .obj fields, some model =>
    if (policyFor policy body).top_k = none then (body, false)
    else if body.has (js "top_k") then (body, false)
    else (rebuild fields model topK, true)
  | _, _ => (body, false)

def stampTemperature (body : Json) (temperature : Float) : Json × Bool :=
  if !body.isRecord then (body, false)
  else if body.propIs (js "temperature") (.num temperature) then (body, false)
  else (body.set (js "temperature") (.num temperature), true)

end UmansGate.Stamp
