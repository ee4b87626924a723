/-
UmansGate.Usage.Extract — the usage metrics of a response
(`usage/extract.ts`, `usage/helpers.ts`).

The loops over a streamed response keep what the events report
(`AnthropicTokens`, `OpenAiSeen`) apart from when they arrived, so that the
counts are a fold over the values alone. A metric that is null is none.
-/
import UmansGate.Stamp.Fields
import UmansGate.Usage.SseParse

namespace UmansGate.Usage

open UmansGate.Lib
open UmansGate.Stamp (extractModelName)

inductive Provider where
  | anthropic
  | openai
  deriving DecidableEq, Repr

structure UsageMetrics where
  provider : Provider
  streaming : Bool
  input_tokens : Option Float
  output_tokens : Option Float
  cache_creation_tokens : Option Float
  cache_read_tokens : Option Float
  total_input_tokens : Option Float
  total_output_tokens : Option Float
  thinking_tokens : Option Json
  thinking_block_count : Option ℕ
  ttft_ms : Option Float
  duration_ms : Option Float
  tps : Option Float
  usage_missing : Bool
  model : Option JsString

/-! ## Numbers -/

def numOr (v : Option Json) (fallback : Float) : Float :=
  match v with
  | some (.num n) => if n.isFinite then n else fallback
  | _ => fallback

def num (v : Option Json) : Float := numOr v 0

/-- The property, if it is neither null nor undefined. -/
def present (v : Json) (key : JsString) : Option Json :=
  match v.get? key with
  | some .null => none
  | w => w

/-- `v?.key1?.key2`. -/
def nested (v : Json) (key1 key2 : JsString) : Option Json :=
  (v.get? key1).bind (·.get? key2)

/-- `v?.[0]`. -/
def first? : Json → Option Json
  | .arr items => items.head?
  | v => v.get? (Json.indexKey 0)

/-- A number that is a true condition. -/
def trueNumber (n : Option Float) : Option Float := n.filter fun t => !(t == 0 || t.isNaN)

/-- `Math.max`. -/
def mathMax (x y : Float) : Float := if y.isNaN || x < y then y else x

def computeTps (output durationMs ttftMs : Option Float) : Option Float :=
  match output, durationMs with
  | some output, some durationMs =>
    if output ≤ 0 then none
    else
      let genMs := match ttftMs with
        | some ttftMs => if 0 < ttftMs then durationMs - ttftMs else durationMs
        | none => durationMs
      if genMs < 1000 then none else some (output / genMs * 1000)
  | _, _ => none

def emptyMetrics (provider : Provider) (streaming : Bool) (durationMs : Option Float) :
    UsageMetrics :=
  { provider, streaming, input_tokens := none, output_tokens := none, cache_creation_tokens := none,
    cache_read_tokens := none, total_input_tokens := none, total_output_tokens := none,
    thinking_tokens := none, thinking_block_count := none, ttft_ms := none,
    duration_ms := durationMs, tps := none, usage_missing := true, model := none }

/-- The wall clock is a floor for the time of the events. -/
def streamDuration (eventDurationMs wallClockDurationMs : Option Float) : Option Float :=
  match wallClockDurationMs with
  | some wall => some (mathMax (eventDurationMs.getD 0) wall)
  | none => eventDurationMs

/-- A property that is a true condition. -/
def trueProp (v : Json) (key : JsString) : Option Json := (v.get? key).filter Json.truthy

/-! ## Anthropic -/

def extractAnthropicNonStreaming (body : Json) (durationMs : Option Float) : UsageMetrics :=
  match trueProp body (js "usage") with
  | none => emptyMetrics .anthropic false durationMs
  | some u =>
    let input := num (u.get? (js "input_tokens"))
    let output := num (u.get? (js "output_tokens"))
    let cacheCreate := numOr (u.get? (js "cache_creation_input_tokens")) 0
    let cacheRead := numOr (u.get? (js "cache_read_input_tokens")) 0
    { provider := .anthropic
      streaming := false
      input_tokens := some input
      output_tokens := some output
      cache_creation_tokens := some cacheCreate
      cache_read_tokens := some cacheRead
      total_input_tokens := some (input + cacheCreate + cacheRead)
      total_output_tokens := some output
      thinking_tokens := (u.get? (js "output_tokens_details")).bind (present · (js "thinking_tokens"))
      thinking_block_count := none
      ttft_ms := none
      duration_ms := durationMs
      tps := computeTps (some output) durationMs none
      usage_missing := false
      model := none }

/-- What the events seen so far report. -/
structure AnthropicTokens where
  input : Option Float := none
  output : Option Float := none
  cacheCreate : Float := 0
  cacheRead : Float := 0
  thinking : Option Json := none
  sawUsage : Bool := false

/-- `ev.type === type`. -/
def isEvent (ev : Json) (type : String) : Bool := ev.propIs (js "type") (.str (js type))

/-- The `usage` of a `message_start`. Its `output_tokens` is a placeholder. -/
def messageStartUsage (ev : Json) : Option Json :=
  (nested ev (js "message") (js "usage")).filter Json.truthy

def seenStart (st : AnthropicTokens) (u : Json) : AnthropicTokens :=
  { st with
    input := some (num (u.get? (js "input_tokens")))
    cacheCreate := numOr (u.get? (js "cache_creation_input_tokens")) 0
    cacheRead := numOr (u.get? (js "cache_read_input_tokens")) 0
    sawUsage := true }

/-- The counts are cumulative: one that is present replaces the one before. -/
def seenDelta (st : AnthropicTokens) (u : Json) : AnthropicTokens :=
  { input := match present u (js "input_tokens") with
      | some v => some (num (some v))
      | none => st.input
    output := match present u (js "output_tokens") with
      | some v => some (num (some v))
      | none => st.output
    cacheCreate := match present u (js "cache_creation_input_tokens") with
      | some v => num (some v)
      | none => st.cacheCreate
    cacheRead := match present u (js "cache_read_input_tokens") with
      | some v => num (some v)
      | none => st.cacheRead
    thinking :=
      match (u.get? (js "output_tokens_details")).bind (present · (js "thinking_tokens")) with
      | some v => some v
      | none => st.thinking
    sawUsage := st.sawUsage || (present u (js "output_tokens")).isSome }

def AnthropicTokens.seen (st : AnthropicTokens) (ev : Json) : AnthropicTokens :=
  if isEvent ev "message_start" then
    match messageStartUsage ev with
    | some u => seenStart st u
    | none => st
  else if isEvent ev "message_delta" then
    match trueProp ev (js "usage") with
    | some u => seenDelta st u
    | none => st
  else st

/-- The variables of the loop over the events. -/
structure AnthropicStream where
  tokens : AnthropicTokens := {}
  ttftMs : Option Float := none
  lastEventAt : Option Float := none

def AnthropicStream.event (requestStartedAt : Float) (st : AnthropicStream)
    (ev : Stamped (Option Float)) : AnthropicStream :=
  let at? := trueNumber ev.received_at
  { tokens := st.tokens.seen ev.value
    lastEventAt := at?.or st.lastEventAt
    ttftMs :=
      if isEvent ev.value "content_block_delta" && st.ttftMs.isNone then
        at?.map (· - requestStartedAt)
      else st.ttftMs }

def extractAnthropicStreaming (events : List (Stamped (Option Float))) (requestStartedAt : Float)
    (wallClockDurationMs : Option Float) : UsageMetrics :=
  let st := events.foldl (AnthropicStream.event requestStartedAt) {}
  let eventDurationMs := (trueNumber st.lastEventAt).map (· - requestStartedAt)
  let durationMs := streamDuration eventDurationMs wallClockDurationMs
  { provider := .anthropic
    streaming := true
    input_tokens := st.tokens.input
    output_tokens := st.tokens.output
    cache_creation_tokens := some st.tokens.cacheCreate
    cache_read_tokens := some st.tokens.cacheRead
    total_input_tokens :=
      st.tokens.input.map fun input => input + st.tokens.cacheCreate + st.tokens.cacheRead
    total_output_tokens := st.tokens.output
    thinking_tokens := st.tokens.thinking
    thinking_block_count := none
    ttft_ms := st.ttftMs
    duration_ms := durationMs
    tps := computeTps st.tokens.output durationMs st.ttftMs
    usage_missing := !st.tokens.sawUsage
    model := none }

/-! ## OpenAI -/

def extractOpenAiNonStreaming (body : Json) (durationMs : Option Float) : UsageMetrics :=
  match trueProp body (js "usage") with
  | none => emptyMetrics .openai false durationMs
  | some u =>
    let prompt := num (u.get? (js "prompt_tokens"))
    let completion := num (u.get? (js "completion_tokens"))
    let cached := numOr (nested u (js "prompt_tokens_details") (js "cached_tokens")) 0
    let reasoningContent := (((body.get? (js "choices")).bind first?).bind fun choice =>
      nested choice (js "message") (js "reasoning_content"))
    { provider := .openai
      streaming := false
      input_tokens := some prompt
      output_tokens := some completion
      cache_creation_tokens := none
      cache_read_tokens := some cached
      total_input_tokens := some prompt
      total_output_tokens := some completion
      thinking_tokens :=
        (u.get? (js "completion_tokens_details")).bind (present · (js "reasoning_tokens"))
      thinking_block_count := match reasoningContent with
        | some (.str s) => some (if s = [] then 0 else 1)
        | _ => some 0
      ttft_ms := none
      duration_ms := durationMs
      tps := computeTps (some completion) durationMs none
      usage_missing := false
      model := none }

/-- What the chunks seen so far report. -/
structure OpenAiSeen where
  usage : Option Json := none
  sawReasoningContent : Bool := false

/-- `ch.choices?.[0]?.delta`. -/
def firstDelta (ch : Json) : Option Json :=
  ((ch.get? (js "choices")).bind first?).bind (·.get? (js "delta"))

def OpenAiSeen.seen (st : OpenAiSeen) (ch : Json) : OpenAiSeen :=
  { usage := match present ch (js "usage") with
      | some u => some u
      | none => st.usage
    sawReasoningContent := st.sawReasoningContent ||
      ((firstDelta ch).bind (trueProp · (js "reasoning_content"))).isSome }

/-- The variables of the loop over the chunks. -/
structure OpenAiStream where
  seen : OpenAiSeen := {}
  ttftMs : Option Float := none
  lastChunkAt : Option Float := none

/-- A first delta of an array of choices with content of any kind. -/
def hasDelta (ch : Json) : Bool :=
  match ch.get? (js "choices") with
  | some (.arr (choice :: _)) =>
    match trueProp choice (js "delta") with
    | some d => [js "content", js "reasoning_content", js "tool_calls"].any fun key =>
        (trueProp d key).isSome
    | none => false
  | _ => false

def OpenAiStream.event (requestStartedAt : Float) (st : OpenAiStream)
    (ch : Stamped (Option Float)) : OpenAiStream :=
  let at? := trueNumber ch.received_at
  { seen := st.seen.seen ch.value
    lastChunkAt := at?.or st.lastChunkAt
    ttftMs :=
      if st.ttftMs.isNone && hasDelta ch.value then at?.map (· - requestStartedAt)
      else st.ttftMs }

def extractOpenAiStreaming (chunks : List (Stamped (Option Float))) (requestStartedAt : Float)
    (wallClockDurationMs : Option Float) : UsageMetrics :=
  let st := chunks.foldl (OpenAiStream.event requestStartedAt) {}
  let eventDurationMs := (trueNumber st.lastChunkAt).map (· - requestStartedAt)
  let durationMs := streamDuration eventDurationMs wallClockDurationMs
  let blocks := if st.seen.sawReasoningContent then 1 else 0
  match st.seen.usage.filter Json.truthy with
  | none =>
    { emptyMetrics .openai true durationMs with
      ttft_ms := st.ttftMs
      tps := computeTps none durationMs st.ttftMs
      thinking_block_count := some blocks
      usage_missing := true }
  | some usage =>
    let prompt := num (usage.get? (js "prompt_tokens"))
    let completion := num (usage.get? (js "completion_tokens"))
    { provider := .openai
      streaming := true
      input_tokens := some prompt
      output_tokens := some completion
      cache_creation_tokens := none
      cache_read_tokens :=
        some (numOr (nested usage (js "prompt_tokens_details") (js "cached_tokens")) 0)
      total_input_tokens := some prompt
      total_output_tokens := some completion
      thinking_tokens :=
        (usage.get? (js "completion_tokens_details")).bind (present · (js "reasoning_tokens"))
      thinking_block_count := some blocks
      ttft_ms := st.ttftMs
      duration_ms := durationMs
      tps := computeTps (some completion) durationMs st.ttftMs
      usage_missing := false
      model := none }

/-! ## Either provider -/

def extractModel (requestBody : Json) : JsString :=
  match extractModelName requestBody with
  | some model => if model = [] then js "unknown" else model
  | none => js "unknown"

/-- The metrics of a response, with the model of its request; none where a text
is no JSON or a parser throws. -/
def extractUsage (provider : Provider) (streaming : Bool) (requestBody responseBody : JsString)
    (durationMs requestStartedAt : Float) (chunks : List TimedChunk) :
    Option (JsString × UsageMetrics) :=
  match Json.parse requestBody with
  | none => none
  | some parsedBody =>
    let metrics? := match provider, streaming with
      | .anthropic, true =>
        some (extractAnthropicStreaming (parseAnthropicSse chunks) requestStartedAt
          (some durationMs))
      | .anthropic, false =>
        (Json.parse responseBody).map (extractAnthropicNonStreaming · (some durationMs))
      | .openai, true =>
        (parseOpenAiSse chunks).map (extractOpenAiStreaming · requestStartedAt (some durationMs))
      | .openai, false =>
        (Json.parse responseBody).map (extractOpenAiNonStreaming · (some durationMs))
    metrics?.map fun metrics =>
      let model := extractModel parsedBody
      (model, { metrics with model := some model })

end UmansGate.Usage
