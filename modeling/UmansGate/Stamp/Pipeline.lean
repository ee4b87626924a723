/-
UmansGate.Stamp.Pipeline — the steps and their order
(`src/stamp-pipeline.ts`).

Of the context the steps only log the headers, the url and the method;
these are left out with the log lines. A body that is an array has no
field a step reads, and its model name is undefined, so no rule matches.
-/
import UmansGate.Stamp.Breakpoints

namespace UmansGate.Stamp

open UmansGate.Lib

structure StampPipelineConfig where
  stampClaudeCode : Bool
  stampModelRules : List PerModelRule
  stampReasoningEffort : Option Effort
  experimentStripOmoReminder : Bool

structure StampContext where
  config : StampPipelineConfig
  isOpenAi : Bool
  modelName : Option JsString
  catalog : Catalog

namespace StampContext

variable (ctx : StampContext)

/-- The policy of the request's model. -/
def policy : StampPolicy := resolveStampPolicy ctx.modelName ctx.catalog

/-- The rule of the request's model. -/
def rule : Option PerModelRule := resolvePerModelRule ctx.modelName ctx.config.stampModelRules

/-- The Claude Code bundle is on and the route is Anthropic's. -/
def claudeCode : Bool := ctx.config.stampClaudeCode && !ctx.isOpenAi

/-- The OpenAI bundle is on and the route is OpenAI's. -/
def openAiReasoning : Bool := ctx.isOpenAi && ctx.config.stampReasoningEffort.isSome

end StampContext

/-- The context `parseInbound` builds: the model name is the body's own. -/
def requestContext (config : StampPipelineConfig) (isOpenAi : Bool) (catalog : Catalog)
    (body : Json) : StampContext where
  config := config
  isOpenAi := isOpenAi
  modelName := extractModelName body
  catalog := catalog

structure StampStep where
  applies : StampContext → Bool
  apply : Json → StampContext → Stamped

/-- A step that only works on objects. -/
def onObject (apply : Json → StampContext → Stamped) (body : Json) (ctx : StampContext) : Stamped :=
  if body.isObject then apply body ctx else .returned body false

/-- A step that mutates the fields of an object and does not throw. -/
def StampStep.ofStamp (applies : StampContext → Bool) (stamp : StampContext → Json → Json × Bool) :
    StampStep where
  applies := applies
  apply := onObject fun body ctx => .returned (stamp ctx body).1 (stamp ctx body).2

def STAMP_CACHE_TTL_VALUE : JsString := js "1h"

def STAMP_TOP_K_VALUE : Float := 20

def STAMP_CONTEXT_MANAGEMENT_VALUE : Json :=
  .obj [(js "edits", .arr [.obj [(js "type", .str (js "clear_thinking_20251015")),
    (js "keep", .str (js "all"))]])]

/-- The changed fields are copied back into the body. -/
def RestampBreakpointsStep : StampStep where
  applies := StampContext.claudeCode
  apply := onObject fun body _ =>
    match restampBreakpoints body with
    | .same => .returned body false
    | .rebuilt cleaned => .returned cleaned true
    | .threw => .threw body

def CacheTtlStep : StampStep where
  applies := StampContext.claudeCode
  apply := onObject fun body _ =>
    match stampCacheTtl body STAMP_CACHE_TTL_VALUE with
    | (body, n, false) => .returned body (n > 0)
    | (body, _, true) => .threw body

/-- `AnthropicBodyStep.apply` of an object. -/
def stampAnthropicBody (policy : StampPolicy) (body : Json) : Json × Bool :=
  andThen
    (stampThinking body
      { maxTokens := true, outputConfig := .config policy.effort, thinking := true,
        policy := some policy })
    (strip (js "reasoning_effort"))

def AnthropicBodyStep : StampStep :=
  .ofStamp StampContext.claudeCode fun ctx => stampAnthropicBody ctx.policy

/-! ## The per-model rule -/

/-- The OpenAI route forces the shape where reasoning is active, or where the
body has no reasoning field and the rule says so. -/
def forcesOpenAi (rule : PerModelRule) (body : Json) : Bool :=
  let existing := body.get? (js "thinking")
  let reasoningEffort := body.get? (js "reasoning_effort")
  let reasoningActive := isThinkingEnabled existing || !isReasoningEffortDisabled reasoningEffort
  let reasoningTrulyAbsent := isNullish reasoningEffort && isNullish existing
  reasoningActive || rule.forceThinkingWhenAbsent && reasoningTrulyAbsent

/-- The Anthropic route forces the shape where thinking is enabled, where the
model cannot disable it, or where it is absent and the rule says so. -/
def forcesAnthropic (policy : StampPolicy) (rule : PerModelRule) (existing : Option Json) : Bool :=
  isThinkingEnabled existing || !policy.canDisableThinking ||
    rule.forceThinkingWhenAbsent && isNullish existing

/-- Thinking that was disabled or absent comes with the fields that
`AnthropicBodyStep` skipped. -/
def revive (policy : StampPolicy) (existing : Option Json) (body : Json) : Json :=
  if isThinkingEnabled existing then body
  else (body.set (js "max_tokens") (.num policy.max_tokens)).set (js "output_config")
    policy.outputConfig

def applyThinkingShape (ctx : StampContext) (rule : PerModelRule) (body : Json) : Json × Bool :=
  let existing := body.get? (js "thinking")
  if ctx.isOpenAi then
    match rule.openaiThinkingShape with
    | some shape =>
      if forcesOpenAi rule body then (body.set (js "thinking") shape.toJson, true) else (body, false)
    | none => (body, false)
  else
    match rule.anthropicThinkingShape with
    | some shape =>
      if forcesAnthropic ctx.policy rule existing then
        (revive ctx.policy existing (body.set (js "thinking") shape.toJson), true)
      else (body, false)
    | none => (body, false)

/-- The source puts the objects of the rule itself into the body; no step behind
this one writes into them. -/
def mergeExtraBody (rule : PerModelRule) (body : Json) : Json × Bool :=
  match rule.openaiExtraBody with
  | some extra => (body.assignAll extra, true)
  | none => (body, false)

def stampModelRule (ctx : StampContext) (body : Json) : Json × Bool :=
  match ctx.rule with
  | some rule => andThen (applyThinkingShape ctx rule body) (mergeExtraBody rule)
  | none => (body, false)

def PerModelRuleStep : StampStep := .ofStamp (fun ctx => ctx.rule.isSome) stampModelRule

/-! ## The steps behind it -/

/-- A step that only works on bodies with thinking enabled. -/
def whenThinking (stamp : Json → Json × Bool) (body : Json) : Json × Bool :=
  if isThinkingEnabled (body.get? (js "thinking")) then stamp body else (body, false)

def ContextManagementStep : StampStep :=
  .ofStamp StampContext.claudeCode fun _ => whenThinking fun body =>
    (body.set (js "context_management") STAMP_CONTEXT_MANAGEMENT_VALUE, true)

/-- The options that `OpenAiReasoningStep` passes. -/
def reasoningOptions (ctx : StampContext) : StampReasoningOptions where
  reasoningEffort := ctx.config.stampReasoningEffort
  policy := some ctx.policy
  vetoReasoningEffort := ctx.rule.any PerModelRule.openaiVetoReasoningEffort

def OpenAiReasoningStep : StampStep :=
  .ofStamp StampContext.openAiReasoning fun ctx body => stampReasoning body (reasoningOptions ctx)

/-- The stream asks for its usage already. -/
def includesUsage (body : Json) : Bool :=
  match body.get? (js "stream_options") with
  | some options => options.propIs (js "include_usage") (.bool true)
  | none => false

def stampStreamUsage (body : Json) : Json × Bool :=
  if !body.propIs (js "stream") (.bool true) then (body, false)
  else if includesUsage body then (body, false)
  else (body.set (js "stream_options") (.obj [(js "include_usage", .bool true)]), true)

def OpenAiStreamUsageStep : StampStep :=
  .ofStamp StampContext.openAiReasoning fun _ => stampStreamUsage

/-- The body has the field that says reasoning is on. -/
def reasons (ctx : StampContext) (body : Json) : Bool :=
  if ctx.isOpenAi then body.has (js "reasoning_effort")
  else isThinkingEnabled (body.get? (js "thinking"))

def stampBodyTopK (ctx : StampContext) (body : Json) : Json × Bool :=
  if reasons ctx body then stampTopK body STAMP_TOP_K_VALUE (some ctx.policy) else (body, false)

def TopKStep : StampStep :=
  .ofStamp (fun ctx => (ctx.claudeCode || ctx.openAiReasoning) && ctx.policy.top_k.isSome)
    stampBodyTopK

def TemperatureStep : StampStep :=
  .ofStamp StampContext.claudeCode fun _ => whenThinking fun body =>
    stampTemperature body STAMP_TEMPERATURE_VALUE

def StripOmoReminderStep : StampStep where
  applies := fun ctx => ctx.config.experimentStripOmoReminder && !ctx.isOpenAi
  apply := onObject fun body _ =>
    match stripOmoReminder body with
    | some cleaned => .returned cleaned true
    | none => .returned body false

/-! ## The pipeline -/

def STAMP_PIPELINE : List StampStep :=
  [RestampBreakpointsStep,
    CacheTtlStep,
    AnthropicBodyStep,
    PerModelRuleStep,
    ContextManagementStep,
    OpenAiReasoningStep,
    OpenAiStreamUsageStep,
    TopKStep,
    TemperatureStep,
    StripOmoReminderStep]

/-- The steps that apply, one after the other, until one throws. -/
def runSteps (ctx : StampContext) : List StampStep → Json → Bool → Stamped
  | [], body, changed => .returned body changed
  | step :: rest, body, changed =>
    if step.applies ctx then
      match step.apply body ctx with
      | .returned body stepChanged => runSteps ctx rest body (changed || stepChanged)
      | .threw body => .threw body
    else runSteps ctx rest body changed

def runPipeline (ctx : StampContext) (body : Json) : Stamped := runSteps ctx STAMP_PIPELINE body false

end UmansGate.Stamp
