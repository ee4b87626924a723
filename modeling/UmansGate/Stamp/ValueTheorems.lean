/-
UmansGate.Stamp.ValueTheorems — the value of every field of the body that
leaves the pipeline.

Up to the rule a field is the client's, the policy's or the rule's; behind
it the two routes differ. The equations are stated on the client's body,
since the block steps leave every field but the system and the messages.
-/
import UmansGate.Stamp.FrameTheorems
import UmansGate.Stamp.IdleTheorems

namespace UmansGate.Stamp

open UmansGate.Lib

variable {ctx : StampContext} {body b a : Json} {key : JsString}

/-! ## Thinking up to the rule -/

/-- Thinking behind `AnthropicBodyStep`, where that step applies. -/
def gatedThinking (ctx : StampContext) (thinking : Option Json) : Option Json :=
  if ctx.claudeCode then forcedThinking ctx.policy thinking else thinking

/-- The rule forces its shape on thinking that is disabled or absent. -/
def revives (ctx : StampContext) (existing : Option Json) : Bool :=
  match ctx.rule with
  | some rule => rule.anthropicThinkingShape.isSome &&
      forcesAnthropic ctx.policy rule existing && !isThinkingEnabled existing
  | none => false

/-- The client's thinking gets the policy's `max_tokens`: from
`AnthropicBodyStep` if it is enabled, from the rule if it is revived. -/
def stampsMaxTokens (ctx : StampContext) (thinking : Option Json) : Bool :=
  ctx.claudeCode && isThinkingEnabled thinking || revives ctx (gatedThinking ctx thinking)

/-- It gets the policy's `output_config`. -/
def stampsOutputConfig (ctx : StampContext) (thinking : Option Json) : Bool :=
  ctx.claudeCode && isThinkingEnabled (gatedThinking ctx thinking) && ctx.policy.thinking ||
    revives ctx (gatedThinking ctx thinking)

/-- The body with the shape of its rule. -/
def shapedBody (ctx : StampContext) (b : Json) : Json :=
  match ctx.rule with
  | some rule => (applyThinkingShape ctx rule b).1
  | none => b

theorem get?_gatedBody_thinking (ctx : StampContext) (b : Json) :
    (applyIf ctx.claudeCode (stampAnthropicBody ctx.policy) b).1.get? (js "thinking") =
      gatedThinking ctx (b.get? (js "thinking")) := by
  unfold applyIf gatedThinking
  split
  · exact get?_stampAnthropicBody_thinking ctx.policy b
  · rfl

/-- The extra body is assigned to the shaped one. -/
theorem get?_stampModelRule_shaped (ctx : StampContext) (hrec : b.isRecord = true)
    (hproto : key ≠ Json.protoKey) :
    (applyIf ctx.rule.isSome (stampModelRule ctx) b).1.get? key =
      (ctx.stored key).or ((shapedBody ctx b).get? key) := by
  unfold applyIf stampModelRule StampContext.stored shapedBody
  cases ctx.rule with
  | none => rfl
  | some rule =>
    have hshaped := (within_applyThinkingShape ctx rule).record b hrec
    simp only [Option.isSome_some, if_true, andThen, Option.bind_some, mergeExtraBody]
    cases rule.openaiExtraBody with
    | none => rfl
    | some extra => exact Json.get?_assignAll hshaped fun h => absurd h hproto

/-- On the Anthropic route the shape brings its two fields where it revives. -/
theorem get?_shapedBody_revived (hroute : ctx.isOpenAi = false) (hrec : b.isRecord = true) :
    (shapedBody ctx b).get? (js "max_tokens") =
        (if revives ctx (b.get? (js "thinking")) then some (.num ctx.policy.max_tokens)
          else b.get? (js "max_tokens")) ∧
      (shapedBody ctx b).get? (js "output_config") =
        (if revives ctx (b.get? (js "thinking")) then some ctx.policy.outputConfig
          else b.get? (js "output_config")) := by
  unfold shapedBody
  cases hrule : ctx.rule with
  | none =>
    have hrevives : revives ctx (b.get? (js "thinking")) = false := by simp [revives, hrule]
    rw [hrevives]
    exact ⟨rfl, rfl⟩
  | some rule =>
    have hrevives : revives ctx (b.get? (js "thinking")) =
        (rule.anthropicThinkingShape.isSome &&
          forcesAnthropic ctx.policy rule (b.get? (js "thinking")) &&
          !isThinkingEnabled (b.get? (js "thinking"))) := by simp [revives, hrule]
    rw [hrevives]
    simp only [applyThinkingShape, hroute, Bool.false_eq_true, if_false]
    cases rule.anthropicThinkingShape with
    | none => exact ⟨rfl, rfl⟩
    | some shape =>
      cases forcesAnthropic ctx.policy rule (b.get? (js "thinking")) with
      | false => exact ⟨rfl, rfl⟩
      | true =>
        obtain ⟨-, hmax, hout⟩ := get?_revive ctx.policy (b.get? (js "thinking")) hrec shape
        simp only [if_true, Option.isSome_some, Bool.true_and]
        rw [hmax, hout]
        cases isThinkingEnabled (b.get? (js "thinking")) <;> exact ⟨rfl, rfl⟩

theorem get?_ruledBody_maxTokens (hroute : ctx.isOpenAi = false) (hrec : b.isRecord = true) :
    (ruledBody ctx b).get? (js "max_tokens") = (ctx.stored (js "max_tokens")).or
      (if stampsMaxTokens ctx (b.get? (js "thinking")) then some (.num ctx.policy.max_tokens)
        else b.get? (js "max_tokens")) := by
  have hgated := (within_gatedBody ctx).record b hrec
  rw [ruledBody, get?_stampModelRule_shaped ctx hgated (by decide),
    (get?_shapedBody_revived hroute hgated).1, get?_gatedBody_thinking, stampsMaxTokens]
  congr 1
  cases revives ctx (gatedThinking ctx (b.get? (js "thinking"))) with
  | true => simp
  | false =>
    rw [Bool.or_false, if_neg Bool.false_ne_true, applyIf]
    cases ctx.claudeCode with
    | false => rfl
    | true => exact get?_stampAnthropicBody_maxTokens ctx.policy b

theorem get?_ruledBody_outputConfig (hroute : ctx.isOpenAi = false) (hrec : b.isRecord = true) :
    (ruledBody ctx b).get? (js "output_config") = (ctx.stored (js "output_config")).or
      (if stampsOutputConfig ctx (b.get? (js "thinking")) then some ctx.policy.outputConfig
        else b.get? (js "output_config")) := by
  have hgated := (within_gatedBody ctx).record b hrec
  rw [ruledBody, get?_stampModelRule_shaped ctx hgated (by decide),
    (get?_shapedBody_revived hroute hgated).2, get?_gatedBody_thinking, stampsOutputConfig]
  congr 1
  cases revives ctx (gatedThinking ctx (b.get? (js "thinking"))) with
  | true => simp
  | false =>
    rw [Bool.or_false, if_neg Bool.false_ne_true, applyIf, gatedThinking]
    cases ctx.claudeCode with
    | false => rfl
    | true => exact get?_stampAnthropicBody_outputConfig ctx.policy b

/-- On the OpenAI route the shape of a rule is its thinking alone. -/
theorem get?_ruledBody_openAi (hroute : ctx.isOpenAi = true) (hrec : b.isRecord = true)
    (hproto : key ≠ Json.protoKey) (hkey : key ≠ js "thinking") :
    (ruledBody ctx b).get? key = ctx.given b key := by
  have hcc : ctx.claudeCode = false := by simp [StampContext.claudeCode, hroute]
  have hgated : (applyIf ctx.claudeCode (stampAnthropicBody ctx.policy) b).1 = b := by
    rw [hcc]
    rfl
  have hshaped : (shapedBody ctx b).get? key = b.get? key := by
    unfold shapedBody applyThinkingShape
    simp only [hroute, if_true]
    cases ctx.rule with
    | none => rfl
    | some rule =>
      simp only
      split
      · split
        · exact Json.get?_set_of_ne (Ne.symm hkey) _
        · rfl
      · rfl
  rw [ruledBody, hgated, get?_stampModelRule_shaped ctx hrec hproto, hshaped, StampContext.given]

/-- On the Anthropic route `reasoning_effort` is the rule's where the step
strips it. -/
theorem get?_ruledBody_strippedEffort (hcc : ctx.claudeCode = true) (hrec : b.isRecord = true) :
    (ruledBody ctx b).get? (js "reasoning_effort") = ctx.stored (js "reasoning_effort") := by
  have hstripped : (applyIf ctx.claudeCode (stampAnthropicBody ctx.policy) b).1.get?
      (js "reasoning_effort") = none := by
    rw [hcc, applyIf, if_pos rfl]
    exact (congrArg (Json.get? · _) (strip_fst _ _)).trans
      ((Json.get?_remove _ _ _).trans (if_pos rfl))
  rw [ruledBody, get?_stampModelRule ctx ((within_gatedBody ctx).record b hrec) (by decide)
    (by decide), hstripped, Option.or_none]

/-- Without the bundle the step strips nothing. -/
theorem get?_ruledBody_effort_of_off (hcc : ctx.claudeCode = false) (hrec : b.isRecord = true) :
    (ruledBody ctx b).get? (js "reasoning_effort") = ctx.given b (js "reasoning_effort") := by
  rw [ruledBody, get?_stampModelRule ctx ((within_gatedBody ctx).record b hrec) (by decide)
    (by decide), hcc]
  rfl

/-- No assignment gives the body a `__proto__` of its own. -/
theorem get?_ruledBody_proto (hrec : b.isRecord = true) :
    (ruledBody ctx b).get? Json.protoKey =
      if (b.get? Json.protoKey).isSome then ctx.given b Json.protoKey else none := by
  have hgated := (within_gatedBody ctx).record b hrec
  have hproto := (within_gatedBody ctx).get? b Json.protoKey (by decide)
  rw [ruledBody, StampContext.given, ← hproto]
  generalize (applyIf ctx.claudeCode (stampAnthropicBody ctx.policy) b).1 = g at hgated
  unfold applyIf stampModelRule StampContext.stored
  cases ctx.rule with
  | none =>
    simp only [Option.isSome_none, Bool.false_eq_true, if_false, Option.bind_none, Option.none_or]
    cases g.get? Json.protoKey <;> rfl
  | some rule =>
    have hshaped := (within_applyThinkingShape ctx rule).record g hgated
    have hkept := (within_applyThinkingShape ctx rule).get? g Json.protoKey (by decide)
    simp only [Option.isSome_some, if_true, andThen, Option.bind_some, mergeExtraBody]
    cases rule.openaiExtraBody with
    | none =>
      simp only [Option.none_or]
      rw [hkept]
      cases g.get? Json.protoKey <;> rfl
    | some extra =>
      simp only
      cases hown : g.get? Json.protoKey with
      | none =>
        rw [hown] at hkept
        exact Json.get?_assignAll_proto hkept
      | some v =>
        rw [hown] at hkept
        have hne : (applyThinkingShape ctx rule g).1.get? Json.protoKey ≠ none := by
          rw [hkept]
          exact Option.some_ne_none v
        rw [Json.get?_assignAll hshaped fun _ => hne, hkept]
        rfl

/-! ## Temperature -/

/-- A temperature behind the step that forces it. -/
def forcedTemperature (temperature : Option Json) : Option Json :=
  if temperature.any fun v => v.strictEquals (.num STAMP_TEMPERATURE_VALUE) then temperature
  else some (.num STAMP_TEMPERATURE_VALUE)

theorem forcedTemperature_forcedTemperature (temperature : Option Json) :
    forcedTemperature (forcedTemperature temperature) = forcedTemperature temperature := by
  have hconstant : (some (Json.num STAMP_TEMPERATURE_VALUE)).any
      (fun v => v.strictEquals (.num STAMP_TEMPERATURE_VALUE)) = true := by decide
  by_cases hequals : temperature.any (fun v => v.strictEquals (.num STAMP_TEMPERATURE_VALUE)) = true
  · rw [forcedTemperature, forcedTemperature, if_pos hequals, if_pos hequals]
  · rw [forcedTemperature, forcedTemperature, if_neg hequals, if_pos hconstant]

theorem get?_forceTemperature (hrec : b.isRecord = true) :
    (forceTemperature b).1.get? (js "temperature") = forcedTemperature (b.get? (js "temperature")) := by
  have hany : b.propIs (js "temperature") (.num STAMP_TEMPERATURE_VALUE) =
      (b.get? (js "temperature")).any fun v => v.strictEquals (.num STAMP_TEMPERATURE_VALUE) := by
    unfold Json.propIs
    cases b.get? (js "temperature") <;> rfl
  unfold forceTemperature forcedTemperature
  rw [hany]
  split
  · rfl
  · exact (Json.get?_set_record hrec _).trans (if_pos rfl)

theorem get?_stampTemperature (hrec : b.isRecord = true) :
    (stampTemperature b STAMP_TEMPERATURE_VALUE).1.get? (js "temperature") =
      forcedTemperature (b.get? (js "temperature")) := by
  rw [← get?_forceTemperature hrec, stampTemperature, hrec]
  rfl

/-! ## `OpenAiReasoningStep` and `OpenAiStreamUsageStep` -/

theorem get?_stripForReasoning_temperature (hrec : b.isRecord = true) :
    (stripForReasoning b).1.get? (js "temperature") =
      forcedTemperature (b.get? (js "temperature")) := by
  have hstripped : ((b.remove (js "output_config")).remove (js "context_management")).isRecord =
      true := by simp [hrec]
  show (forceTemperature (strip (js "context_management") (strip (js "output_config") b).1).1).1.get?
    (js "temperature") = _
  rw [strip_fst, strip_fst, get?_forceTemperature hstripped, Json.get?_remove,
    if_neg (by decide), Json.get?_remove, if_neg (by decide)]

/-- The step stamps the body. -/
def stampsReasoning (ctx : StampContext) (a : Json) : Bool :=
  ctx.openAiReasoning && !reasoningSkips ctx a

/-- It sets the effort, too. -/
def setsEffort (ctx : StampContext) (a : Json) : Bool :=
  stampsReasoning ctx a && !(reasoningOptions ctx).vetoReasoningEffort

/-- The body behind the step. -/
def reasoningBody (ctx : StampContext) (a : Json) : Json :=
  (applyIf ctx.openAiReasoning (fun body => stampReasoning body (reasoningOptions ctx)) a).1

/-- The step leaves the body alone, or strips it behind the effort it sets. -/
theorem reasoningBody_eq (ctx : StampContext) (a : Json) : reasoningBody ctx a =
    if stampsReasoning ctx a then
      (stripForReasoning (if setsEffort ctx a then
        a.set (js "reasoning_effort") ctx.policy.effort.toJson else a)).1
    else a := by
  unfold reasoningBody setsEffort stampsReasoning applyIf
  cases hopen : ctx.openAiReasoning with
  | false => rfl
  | true =>
    simp only [if_true, Bool.true_and]
    rw [stampReasoning_eq hopen]
    cases reasoningSkips ctx a with
    | true => rfl
    | false => cases (reasoningOptions ctx).vetoReasoningEffort <;> rfl

theorem get?_reasoningBody_effort (hrec : a.isRecord = true) :
    (reasoningBody ctx a).get? (js "reasoning_effort") =
      if setsEffort ctx a then some ctx.policy.effort.toJson
      else a.get? (js "reasoning_effort") := by
  rw [reasoningBody_eq]
  cases hstamps : stampsReasoning ctx a with
  | false => simp [setsEffort, hstamps]
  | true =>
    rw [if_pos rfl, get?_stripForReasoning_effort]
    split
    · exact (Json.get?_set_record hrec _).trans (if_pos rfl)
    · rfl

/-- What active reasoning takes away. -/
theorem get?_reasoningBody_stripped (hrec : a.isRecord = true)
    (hkey : key = js "output_config" ∨ key = js "context_management") :
    (reasoningBody ctx a).get? key = if stampsReasoning ctx a then none else a.get? key := by
  rw [reasoningBody_eq]
  split
  · have hset : (if setsEffort ctx a then
        a.set (js "reasoning_effort") ctx.policy.effort.toJson else a).isRecord = true := by
      split <;> simp [hrec]
    have hstamped := reasoningStamped_stripForReasoning hset
    rcases hkey with rfl | rfl
    · exact hstamped.outputConfig
    · exact hstamped.contextManagement
  · rfl

theorem get?_reasoningBody_temperature (hrec : a.isRecord = true) :
    (reasoningBody ctx a).get? (js "temperature") =
      if stampsReasoning ctx a then forcedTemperature (a.get? (js "temperature"))
      else a.get? (js "temperature") := by
  rw [reasoningBody_eq]
  split
  · split
    · rw [get?_stripForReasoning_temperature (by simp [hrec]), Json.get?_set_of_ne (by decide)]
    · exact get?_stripForReasoning_temperature hrec
  · rfl

theorem within_reasoningBody (ctx : StampContext) :
    Within [js "reasoning_effort", js "output_config", js "context_management", js "temperature"]
      fun a => (reasoningBody ctx a, false) := by
  have hstep := within_applyIf ctx.openAiReasoning (within_stampReasoning (reasoningOptions ctx))
  exact ⟨hstep.fixed, hstep.record, hstep.get?⟩

/-- The options of a stream that asks for its usage. -/
def usageOptions : Json := .obj [(js "include_usage", .bool true)]

/-- `stream_options` behind its step. -/
def stampedOptions (ctx : StampContext) (stream options : Option Json) : Option Json :=
  if ctx.openAiReasoning && stream.any (fun v => v.strictEquals (.bool true)) &&
      !options.any (fun v => v.propIs (js "include_usage") (.bool true)) then some usageOptions
  else options

theorem get?_streamUsage (ctx : StampContext) (hrec : a.isRecord = true) :
    (applyIf ctx.openAiReasoning stampStreamUsage a).1.get? (js "stream_options") =
      stampedOptions ctx (a.get? (js "stream")) (a.get? (js "stream_options")) := by
  have hstream : a.propIs (js "stream") (.bool true) =
      (a.get? (js "stream")).any fun v => v.strictEquals (.bool true) := by
    unfold Json.propIs
    cases a.get? (js "stream") <;> rfl
  have husage : includesUsage a = (a.get? (js "stream_options")).any
      fun v => v.propIs (js "include_usage") (.bool true) := by
    unfold includesUsage
    cases a.get? (js "stream_options") <;> rfl
  unfold applyIf stampedOptions stampStreamUsage
  rw [hstream, husage]
  cases ctx.openAiReasoning with
  | false => rfl
  | true =>
    cases (a.get? (js "stream")).any fun v => v.strictEquals (.bool true) with
    | false => rfl
    | true =>
      cases (a.get? (js "stream_options")).any
          fun v => v.propIs (js "include_usage") (.bool true) with
      | true => rfl
      | false => exact (Json.get?_set_record hrec _).trans (if_pos rfl)

theorem stampedOptions_stampedOptions (ctx : StampContext) (stream options : Option Json) :
    stampedOptions ctx stream (stampedOptions ctx stream options) =
      stampedOptions ctx stream options := by
  have hconstant : (some usageOptions).any
      (fun v => v.propIs (js "include_usage") (.bool true)) = true := by decide
  by_cases hstamps : (ctx.openAiReasoning && stream.any (fun v => v.strictEquals (.bool true)) &&
      !options.any (fun v => v.propIs (js "include_usage") (.bool true))) = true
  · simp [stampedOptions, hstamps, hconstant]
  · rw [stampedOptions, stampedOptions, if_neg hstamps, if_neg hstamps]

/-! ## Behind every step -/

/-- The body behind `TopKStep`. -/
def topKBody (ctx : StampContext) (b : Json) : Json :=
  (applyIf ((ctx.claudeCode || ctx.openAiReasoning) && ctx.policy.top_k.isSome) (stampBodyTopK ctx)
    (usageBody ctx (ruledBody ctx b))).1

theorem stampFields_eq_topKBody (ctx : StampContext) (b : Json) : (stampFields ctx b).1 =
    (applyIf ctx.claudeCode (whenThinking fun body => stampTemperature body STAMP_TEMPERATURE_VALUE)
      (topKBody ctx b)).1 :=
  rfl

theorem isRecord_topKBody (hrec : b.isRecord = true) : (topKBody ctx b).isRecord = true :=
  (within_applyIf _ (within_stampBodyTopK ctx)).record _
    ((within_usageBody ctx).record _ (isRecord_ruledBody hrec))

/-- A rebuilt body has a `top_k` and no `__proto__`. -/
theorem get?_topKBody (hrec : b.isRecord = true) (key : JsString) : (topKBody ctx b).get? key =
    if getsTopK ctx b then
      if key = js "top_k" then some (.num STAMP_TOP_K_VALUE)
      else if key = Json.protoKey then none
      else (usageBody ctx (ruledBody ctx b)).get? key
    else (usageBody ctx (ruledBody ctx b)).get? key := by
  rw [← getsTopK_eq hrec, topKBody, applyIf]
  cases (ctx.claudeCode || ctx.openAiReasoning) && ctx.policy.top_k.isSome with
  | false => rfl
  | true =>
    simp only [if_true, Bool.true_and]
    unfold stampBodyTopK
    cases reasons ctx (usageBody ctx (ruledBody ctx b)) with
    | false => rfl
    | true =>
      rw [if_pos rfl, Bool.true_and]
      exact get?_stampTopK _ _ _

theorem get?_stampFields_of_ne (hrec : b.isRecord = true)
    (hkey : key ∉ [js "temperature", js "top_k", Json.protoKey]) :
    (stampFields ctx b).1.get? key = (usageBody ctx (ruledBody ctx b)).get? key := by
  simp only [List.mem_cons, List.not_mem_nil, or_false, not_or] at hkey
  rw [stampFields_eq_topKBody, (within_applyIf ctx.claudeCode (within_whenThinking
    (within_stampTemperature STAMP_TEMPERATURE_VALUE))).get? _ key (by simp [hkey.1]),
    get?_topKBody hrec, if_neg hkey.2.1, if_neg hkey.2.2, ite_self]

/-! ## The body that leaves the pipeline -/

/-- The body behind `ContextManagementStep`. -/
def contextBody (ctx : StampContext) (a : Json) : Json :=
  (applyIf ctx.claudeCode (whenThinking fun body =>
    (body.set (js "context_management") STAMP_CONTEXT_MANAGEMENT_VALUE, true)) a).1

theorem within_contextBody (ctx : StampContext) :
    Within [js "context_management"] fun a => (contextBody ctx a, false) := by
  have hstep := within_applyIf ctx.claudeCode (within_whenThinking
    (Within.set (js "context_management") (fun _ => STAMP_CONTEXT_MANAGEMENT_VALUE) true))
  exact ⟨hstep.fixed, hstep.record, hstep.get?⟩

theorem get?_contextBody (ctx : StampContext) (hrec : a.isRecord = true) :
    (contextBody ctx a).get? (js "context_management") =
      if ctx.claudeCode && isThinkingEnabled (a.get? (js "thinking")) then
        some STAMP_CONTEXT_MANAGEMENT_VALUE
      else a.get? (js "context_management") := by
  unfold contextBody applyIf whenThinking
  cases ctx.claudeCode with
  | false => rfl
  | true =>
    rw [if_pos rfl, Bool.true_and]
    split
    · exact (Json.get?_set_record hrec _).trans (if_pos rfl)
    · rfl

theorem usageBody_eq (ctx : StampContext) (a : Json) : usageBody ctx a =
    (applyIf ctx.openAiReasoning stampStreamUsage (reasoningBody ctx (contextBody ctx a))).1 :=
  rfl

/-- Only its own step writes `stream_options`. -/
theorem get?_usageBody_reasoning (ctx : StampContext) (a : Json) (hkey : key ≠ js "stream_options") :
    (usageBody ctx a).get? key = (reasoningBody ctx (contextBody ctx a)).get? key :=
  (within_applyIf ctx.openAiReasoning within_stampStreamUsage).get? _ key (by simp [hkey])

theorem given_blockBody (ctx : StampContext) (body : Json) (hsystem : js "system" ≠ key)
    (hmessages : js "messages" ≠ key) : ctx.given (blockBody ctx body) key = ctx.given body key := by
  rw [StampContext.given, get?_blockBody_of_ne ctx body hsystem hmessages, StampContext.given]

/-- What the rule leaves of a body with the blocks stamped. -/
def ruledRequest (ctx : StampContext) (body : Json) : Json := ruledBody ctx (blockBody ctx body)

theorem isRecord_ruledRequest (hrec : body.isRecord = true) :
    (ruledRequest ctx body).isRecord = true :=
  isRecord_ruledBody (isRecord_blockBody hrec)

theorem isRecord_finalBody (hrec : body.isRecord = true) : (finalBody ctx body).isRecord = true := by
  have hfields := (within_stampFields ctx).record _ (isRecord_blockBody hrec : (blockBody ctx body).isRecord = true)
  unfold finalBody stripBody
  split <;> simp [hfields]

theorem get?_finalBody_usage (ctx : StampContext) (hrec : body.isRecord = true)
    (hkey : key ∉ [js "messages", js "temperature", js "top_k", Json.protoKey]) :
    (finalBody ctx body).get? key = (usageBody ctx (ruledRequest ctx body)).get? key := by
  simp only [List.mem_cons, List.not_mem_nil, or_false, not_or] at hkey
  rw [get?_finalBody_of_ne ctx body (Ne.symm hkey.1), get?_stampFields_of_ne (isRecord_blockBody hrec)
    (by simp [hkey.2]), ruledRequest]

theorem get?_finalBody_thinking (ctx : StampContext) (hrec : body.isRecord = true) :
    (finalBody ctx body).get? (js "thinking") = ruledThinking ctx body := by
  rw [get?_finalBody_usage ctx hrec (by decide), get?_usageBody (by decide), ruledRequest,
    get?_ruledBody_thinking (isRecord_blockBody hrec), ruledThinking_blockBody]

/-- A field that no step writes is the rule's or the client's. -/
theorem get?_finalBody_given (ctx : StampContext) (hrec : body.isRecord = true)
    (hkey : key ∉ Json.protoKey :: stampedFields) (hsystem : key ≠ js "system")
    (hmessages : key ≠ js "messages") : (finalBody ctx body).get? key = ctx.given body key := by
  rw [get?_finalBody_of_ne ctx body (Ne.symm hmessages), get?_stampFields (isRecord_blockBody hrec) hkey,
    ← given_blockBody ctx body (Ne.symm hsystem) (Ne.symm hmessages), StampContext.given]

theorem get?_finalBody_topK (ctx : StampContext) (hrec : body.isRecord = true) :
    (finalBody ctx body).get? (js "top_k") =
      if getsTopK ctx body then some (.num STAMP_TOP_K_VALUE) else ctx.given body (js "top_k") := by
  have hblock : (blockBody ctx body).isRecord = true := isRecord_blockBody hrec
  rw [get?_finalBody_of_ne ctx body (by decide), stampFields_eq_topKBody, (within_applyIf ctx.claudeCode
    (within_whenThinking (within_stampTemperature STAMP_TEMPERATURE_VALUE))).get? _ _ (by decide),
    get?_topKBody hblock, getsTopK_blockBody, if_pos rfl, get?_usageBody (by decide),
    get?_ruledBody hblock (by decide) (by decide), given_blockBody ctx body (by decide) (by decide)]

theorem get?_finalBody_proto (ctx : StampContext) (hrec : body.isRecord = true) :
    (finalBody ctx body).get? Json.protoKey =
      if getsTopK ctx body then none
      else if (body.get? Json.protoKey).isSome then ctx.given body Json.protoKey else none := by
  have hblock : (blockBody ctx body).isRecord = true := isRecord_blockBody hrec
  rw [get?_finalBody_of_ne ctx body (by decide), stampFields_eq_topKBody, (within_applyIf ctx.claudeCode
    (within_whenThinking (within_stampTemperature STAMP_TEMPERATURE_VALUE))).get? _ _ (by decide),
    get?_topKBody hblock, getsTopK_blockBody, if_neg (show Json.protoKey ≠ js "top_k" by decide),
    if_pos rfl, get?_usageBody (by decide), get?_ruledBody_proto hblock,
    given_blockBody ctx body (by decide) (by decide),
    get?_blockBody_of_ne ctx body (by decide) (by decide)]

theorem get?_finalBody_streamOptions (ctx : StampContext) (hrec : body.isRecord = true) :
    (finalBody ctx body).get? (js "stream_options") =
      stampedOptions ctx (ctx.given body (js "stream")) (ctx.given body (js "stream_options")) := by
  have hblock : (blockBody ctx body).isRecord = true := isRecord_blockBody hrec
  have hcontext : (contextBody ctx (ruledRequest ctx body)).isRecord = true :=
    (within_contextBody ctx).record _ (isRecord_ruledRequest hrec)
  have hvalue : ∀ key, key ∉ [js "reasoning_effort", js "output_config", js "context_management",
      js "temperature", js "max_tokens", js "thinking", js "system", js "messages", Json.protoKey] →
      (reasoningBody ctx (contextBody ctx (ruledRequest ctx body))).get? key = ctx.given body key := by
    intro key hkey
    simp only [List.mem_cons, List.not_mem_nil, or_false, not_or] at hkey
    rw [(within_reasoningBody ctx).get? _ key (by simp [hkey]),
      (within_contextBody ctx).get? _ key (by simp [hkey]), ruledRequest,
      get?_ruledBody hblock (by simp [hkey]) (by simp [hkey]),
      given_blockBody ctx body (Ne.symm (by simp [hkey])) (Ne.symm (by simp [hkey]))]
  rw [get?_finalBody_usage ctx hrec (by decide), usageBody_eq,
    get?_streamUsage ctx ((within_reasoningBody ctx).record _ hcontext), hvalue _ (by decide),
    hvalue _ (by decide)]

/-! ## The OpenAI route -/

section OpenAi

variable (hroute : ctx.isOpenAi = true) (hrec : body.isRecord = true)

include hroute

theorem claudeCode_of_isOpenAi : ctx.claudeCode = false := by
  simp [StampContext.claudeCode, hroute]

theorem contextBody_of_openAi (a : Json) : contextBody ctx a = a := by
  simp [contextBody, claudeCode_of_isOpenAi hroute, applyIf]

include hrec

/-- The four fields that go with reasoning are `stampReasoning`'s. -/
theorem get?_finalBody_openAi
    (hkey : key ∉ [js "messages", js "top_k", js "stream_options", Json.protoKey]) :
    (finalBody ctx body).get? key = (reasoningBody ctx (ruledRequest ctx body)).get? key := by
  simp only [List.mem_cons, List.not_mem_nil, or_false, not_or] at hkey
  have hcc := claudeCode_of_isOpenAi hroute
  have hblock : (blockBody ctx body).isRecord = true := isRecord_blockBody hrec
  have htopK : (topKBody ctx (blockBody ctx body)).get? key =
      (usageBody ctx (ruledRequest ctx body)).get? key := by
    rw [get?_topKBody hblock, if_neg hkey.2.1, if_neg hkey.2.2.2, ite_self, ruledRequest]
  rw [get?_finalBody_of_ne ctx body (Ne.symm hkey.1), stampFields_eq_topKBody, hcc, applyIf,
    if_neg Bool.false_ne_true, htopK, get?_usageBody_reasoning ctx _ hkey.2.2.1,
    contextBody_of_openAi hroute]

/-- The rule leaves the given fields but for thinking. -/
theorem get?_ruledRequest_openAi (hkey : key ∉ [js "system", js "messages", js "thinking",
    Json.protoKey]) : (ruledRequest ctx body).get? key = ctx.given body key := by
  simp only [List.mem_cons, List.not_mem_nil, or_false, not_or] at hkey
  rw [ruledRequest, get?_ruledBody_openAi hroute (isRecord_blockBody hrec) hkey.2.2.2 hkey.2.2.1,
    given_blockBody ctx body (Ne.symm hkey.1) (Ne.symm hkey.2.1)]

omit hroute in
theorem get?_ruledRequest_thinking :
    (ruledRequest ctx body).get? (js "thinking") = ruledThinking ctx body := by
  rw [ruledRequest, get?_ruledBody_thinking (isRecord_blockBody hrec), ruledThinking_blockBody]

theorem get?_finalBody_effort_openAi : (finalBody ctx body).get? (js "reasoning_effort") =
    if setsEffort ctx (ruledRequest ctx body) then some ctx.policy.effort.toJson
    else ctx.given body (js "reasoning_effort") := by
  rw [get?_finalBody_openAi hroute hrec (by decide),
    get?_reasoningBody_effort (isRecord_ruledRequest hrec),
    get?_ruledRequest_openAi hroute hrec (by decide)]

theorem get?_finalBody_stripped (hkey : key = js "output_config" ∨ key = js "context_management") :
    (finalBody ctx body).get? key =
      if stampsReasoning ctx (ruledRequest ctx body) then none else ctx.given body key := by
  have hfinal : key ∉ [js "messages", js "top_k", js "stream_options", Json.protoKey] := by
    rcases hkey with rfl | rfl <;> decide
  have hruled : key ∉ [js "system", js "messages", js "thinking", Json.protoKey] := by
    rcases hkey with rfl | rfl <;> decide
  rw [get?_finalBody_openAi hroute hrec hfinal,
    get?_reasoningBody_stripped (isRecord_ruledRequest hrec) hkey,
    get?_ruledRequest_openAi hroute hrec hruled]

theorem get?_finalBody_temperature_openAi : (finalBody ctx body).get? (js "temperature") =
    if stampsReasoning ctx (ruledRequest ctx body) then
      forcedTemperature (ctx.given body (js "temperature"))
    else ctx.given body (js "temperature") := by
  rw [get?_finalBody_openAi hroute hrec (by decide),
    get?_reasoningBody_temperature (isRecord_ruledRequest hrec),
    get?_ruledRequest_openAi hroute hrec (by decide)]

theorem get?_finalBody_maxTokens_openAi :
    (finalBody ctx body).get? (js "max_tokens") = ctx.given body (js "max_tokens") := by
  rw [get?_finalBody_openAi hroute hrec (by decide), (within_reasoningBody ctx).get? _ _ (by decide),
    get?_ruledRequest_openAi hroute hrec (by decide)]

end OpenAi

/-! ## The Anthropic route -/

section Anthropic

variable (hroute : ctx.isOpenAi = false) (hrec : body.isRecord = true)

include hroute

theorem reasoningBody_of_anthropic (a : Json) : reasoningBody ctx a = a := by
  simp [reasoningBody, StampContext.openAiReasoning, hroute, applyIf]

include hrec

/-- `ContextManagementStep` comes right behind the rule. -/
theorem get?_finalBody_anthropic
    (hkey : key ∉ [js "messages", js "temperature", js "top_k", js "stream_options",
      Json.protoKey]) :
    (finalBody ctx body).get? key = (contextBody ctx (ruledRequest ctx body)).get? key := by
  simp only [List.mem_cons, List.not_mem_nil, or_false, not_or] at hkey
  rw [get?_finalBody_usage ctx hrec (by simp [hkey]), get?_usageBody_reasoning ctx _ hkey.2.2.2.1,
    reasoningBody_of_anthropic hroute]

theorem get?_finalBody_maxTokens : (finalBody ctx body).get? (js "max_tokens") =
    (ctx.stored (js "max_tokens")).or
      (if stampsMaxTokens ctx (body.get? (js "thinking")) then some (.num ctx.policy.max_tokens)
        else body.get? (js "max_tokens")) := by
  rw [get?_finalBody_anthropic hroute hrec (by decide), (within_contextBody ctx).get? _ _ (by decide),
    ruledRequest, get?_ruledBody_maxTokens hroute (isRecord_blockBody hrec),
    get?_blockBody_of_ne ctx body (by decide) (by decide),
    get?_blockBody_of_ne ctx body (by decide) (by decide)]

theorem get?_finalBody_outputConfig : (finalBody ctx body).get? (js "output_config") =
    (ctx.stored (js "output_config")).or
      (if stampsOutputConfig ctx (body.get? (js "thinking")) then some ctx.policy.outputConfig
        else body.get? (js "output_config")) := by
  rw [get?_finalBody_anthropic hroute hrec (by decide), (within_contextBody ctx).get? _ _ (by decide),
    ruledRequest, get?_ruledBody_outputConfig hroute (isRecord_blockBody hrec),
    get?_blockBody_of_ne ctx body (by decide) (by decide),
    get?_blockBody_of_ne ctx body (by decide) (by decide)]

theorem get?_finalBody_contextManagement : (finalBody ctx body).get? (js "context_management") =
    if ctx.claudeCode && isThinkingEnabled (ruledThinking ctx body) then
      some STAMP_CONTEXT_MANAGEMENT_VALUE
    else ctx.given body (js "context_management") := by
  rw [get?_finalBody_anthropic hroute hrec (by decide),
    get?_contextBody ctx (isRecord_ruledRequest hrec), get?_ruledRequest_thinking hrec, ruledRequest,
    get?_ruledBody (isRecord_blockBody hrec) (by decide) (by decide),
    given_blockBody ctx body (by decide) (by decide)]

/-- With the bundle a client's effort is stripped. -/
theorem get?_finalBody_effort_anthropic : (finalBody ctx body).get? (js "reasoning_effort") =
    if ctx.claudeCode then ctx.stored (js "reasoning_effort")
    else ctx.given body (js "reasoning_effort") := by
  rw [get?_finalBody_anthropic hroute hrec (by decide), (within_contextBody ctx).get? _ _ (by decide),
    ruledRequest]
  cases hcc : ctx.claudeCode with
  | true => exact get?_ruledBody_strippedEffort hcc (isRecord_blockBody hrec)
  | false =>
    rw [get?_ruledBody_effort_of_off hcc (isRecord_blockBody hrec),
      given_blockBody ctx body (by decide) (by decide)]
    rfl

theorem get?_finalBody_temperature_anthropic : (finalBody ctx body).get? (js "temperature") =
    if ctx.claudeCode && isThinkingEnabled (ruledThinking ctx body) then
      forcedTemperature (ctx.given body (js "temperature"))
    else ctx.given body (js "temperature") := by
  have hblock : (blockBody ctx body).isRecord = true := isRecord_blockBody hrec
  have htopK : ∀ key, key ∉ [js "context_management", js "reasoning_effort", js "output_config",
      js "stream_options", js "top_k", Json.protoKey] →
      (topKBody ctx (blockBody ctx body)).get? key = (ruledRequest ctx body).get? key := by
    intro key hkey
    simp only [List.mem_cons, List.not_mem_nil, or_false, not_or] at hkey
    rw [get?_topKBody hblock, if_neg hkey.2.2.2.2.1, if_neg hkey.2.2.2.2.2, ite_self,
      get?_usageBody_reasoning ctx _ hkey.2.2.2.1, reasoningBody_of_anthropic hroute,
      (within_contextBody ctx).get? _ key (by simp [hkey]), ruledRequest]
  have hgiven : (topKBody ctx (blockBody ctx body)).get? (js "temperature") =
      ctx.given body (js "temperature") := by
    rw [htopK _ (by decide), ruledRequest, get?_ruledBody hblock (by decide) (by decide),
      given_blockBody ctx body (by decide) (by decide)]
  have hthinking : (topKBody ctx (blockBody ctx body)).get? (js "thinking") =
      ruledThinking ctx body := by
    rw [htopK _ (by decide), get?_ruledRequest_thinking hrec]
  rw [get?_finalBody_of_ne ctx body (by decide), stampFields_eq_topKBody, applyIf, whenThinking,
    hthinking]
  cases ctx.claudeCode with
  | false => exact hgiven
  | true =>
    rw [if_pos rfl, Bool.true_and]
    split
    · rw [get?_stampTemperature (isRecord_topKBody hblock), hgiven]
    · exact hgiven

end Anthropic

end UmansGate.Stamp
