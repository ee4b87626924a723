/-
UmansGate.Stamp.FrameTheorems — what the pipeline leaves of a request as
the client sent it.

Every field outside the stamped ones is kept, and so are the system and the
messages but for `cache_control` and the reminder. Two steps break this:
`stampTopK` empties the body and assigns its properties again, which loses
one under `__proto__`, and a breakpoint turns a block that is no object
into one.
-/
import UmansGate.Stamp.BlockFrameTheorems
import UmansGate.Stamp.ThinkingTheorems

namespace UmansGate.Stamp

open UmansGate.Lib

variable {ctx : StampContext} {body b : Json} {rule : PerModelRule}

/-! ## The fields behind the per-model rule -/

/-- A field the rule's extra body brings, or the client's. -/
def StampContext.given (ctx : StampContext) (body : Json) (key : JsString) : Option Json :=
  (ctx.stored key).or (body.get? key)

/-- Thinking under the shape of a rule. -/
def shapedThinking (ctx : StampContext) (rule : PerModelRule) (body : Json) (existing : Option Json) :
    Option Json :=
  if ctx.isOpenAi then
    if forcesOpenAi rule body then (rule.openaiThinkingShape.map ThinkingConfig.toJson).or existing
    else existing
  else if forcesAnthropic ctx.policy rule existing then
    (rule.anthropicThinkingShape.map ThinkingConfig.toJson).or existing
  else existing

/-- Thinking behind the rule: the client's, forced to the shape of the policy
and of the rule, or what the rule's extra body brings. -/
def ruledThinking (ctx : StampContext) (body : Json) : Option Json :=
  let existing := body.get? (js "thinking")
  let forced := if ctx.claudeCode then forcedThinking ctx.policy existing else existing
  (ctx.stored (js "thinking")).or
    (match ctx.rule with
      | some rule => shapedThinking ctx rule body forced
      | none => forced)

/-- The OpenAI route is left with a `reasoning_effort`: there is one, or
thinking asks for it. -/
def effortBehindRule (ctx : StampContext) (body : Json) : Bool :=
  (ctx.given body (js "reasoning_effort")).isSome ||
    !(reasoningOptions ctx).vetoReasoningEffort && (ruledThinking ctx body).isSome &&
      !isThinkingDisabled (ruledThinking ctx body) && ctx.policy.thinking

/-- The request gets a `top_k`. -/
def getsTopK (ctx : StampContext) (body : Json) : Bool :=
  (ctx.claudeCode || ctx.openAiReasoning) && ctx.policy.top_k.isSome &&
    (match ctx.given body (js "model") with
      | some (.str _) => true
      | _ => false) &&
    (ctx.given body (js "top_k")).isNone &&
    (if ctx.isOpenAi then effortBehindRule ctx body else isThinkingEnabled (ruledThinking ctx body))

/-- The body behind `PerModelRuleStep`. -/
def ruledBody (ctx : StampContext) (b : Json) : Json :=
  (applyIf ctx.rule.isSome (stampModelRule ctx)
    (applyIf ctx.claudeCode (stampAnthropicBody ctx.policy) b).1).1

theorem within_gatedBody (ctx : StampContext) :
    Within [js "max_tokens", js "thinking", js "output_config", js "reasoning_effort"]
      (applyIf ctx.claudeCode (stampAnthropicBody ctx.policy)) :=
  within_applyIf _ (within_stampAnthropicBody ctx.policy)

theorem isRecord_ruledBody (hrec : b.isRecord = true) : (ruledBody ctx b).isRecord = true :=
  (within_applyIf _ (within_stampModelRule ctx)).record _ ((within_gatedBody ctx).record b hrec)

theorem get?_ruledBody (hrec : b.isRecord = true) {key : JsString} (hproto : key ≠ Json.protoKey)
    (hkey : key ∉ [js "max_tokens", js "thinking", js "output_config", js "reasoning_effort"]) :
    (ruledBody ctx b).get? key = ctx.given b key := by
  have hrule : key ∉ [js "thinking", js "max_tokens", js "output_config"] := by
    simp only [List.mem_cons, List.not_mem_nil, or_false, not_or] at hkey ⊢
    exact ⟨hkey.2.1, hkey.1, hkey.2.2.1⟩
  rw [ruledBody, get?_stampModelRule ctx ((within_gatedBody ctx).record b hrec) hproto hrule,
    (within_gatedBody ctx).get? b key hkey, StampContext.given]

/-- The shape a rule forces. -/
theorem get?_applyThinkingShape (ctx : StampContext) (rule : PerModelRule) (hrec : b.isRecord = true) :
    (applyThinkingShape ctx rule b).1.get? (js "thinking") =
      shapedThinking ctx rule b (b.get? (js "thinking")) := by
  have hset : ∀ shape : ThinkingConfig,
      (b.set (js "thinking") shape.toJson).get? (js "thinking") = some shape.toJson := fun shape => by
    rw [Json.get?_set_record hrec, if_pos rfl]
  unfold applyThinkingShape shapedThinking
  simp only
  split
  · cases rule.openaiThinkingShape with
    | none => simp
    | some shape =>
      simp only
      split
      · exact hset shape
      · rfl
  · cases rule.anthropicThinkingShape with
    | none => simp
    | some shape =>
      simp only
      split
      · exact (get?_revive ctx.policy _ hrec shape).1
      · rfl

/-- Thinking behind the rule's step. -/
theorem get?_stampModelRule_thinking (ctx : StampContext) (hrec : b.isRecord = true) :
    (applyIf ctx.rule.isSome (stampModelRule ctx) b).1.get? (js "thinking") =
      (ctx.stored (js "thinking")).or
        (match ctx.rule with
          | some rule => shapedThinking ctx rule b (b.get? (js "thinking"))
          | none => b.get? (js "thinking")) := by
  unfold applyIf stampModelRule StampContext.stored
  cases ctx.rule with
  | none => rfl
  | some rule =>
    have hshape := get?_applyThinkingShape ctx rule hrec
    have hshaped := (within_applyThinkingShape ctx rule).record b hrec
    simp only [Option.isSome_some, if_true, andThen, Option.bind_some, mergeExtraBody]
    cases rule.openaiExtraBody with
    | none => exact hshape
    | some extra =>
      rw [← hshape]
      exact Json.get?_assignAll hshaped fun hproto => absurd hproto (by decide)

/-- On the Anthropic route the shape of a rule depends on thinking alone. -/
theorem shapedThinking_congr (hroute : ctx.isOpenAi = false) (rule : PerModelRule) (b b' : Json)
    (existing : Option Json) :
    shapedThinking ctx rule b existing = shapedThinking ctx rule b' existing := by
  simp [shapedThinking, hroute]

theorem get?_ruledBody_thinking (hrec : b.isRecord = true) :
    (ruledBody ctx b).get? (js "thinking") = ruledThinking ctx b := by
  rw [ruledBody, get?_stampModelRule_thinking ctx ((within_gatedBody ctx).record b hrec)]
  unfold ruledThinking
  cases hcc : ctx.claudeCode with
  | false => rfl
  | true =>
    simp only [applyIf, if_true, get?_stampAnthropicBody_thinking]
    cases ctx.rule with
    | none => rfl
    | some rule =>
      exact congrArg _ (shapedThinking_congr (isOpenAi_of_claudeCode hcc) rule _ b _)

/-- The OpenAI route stamps nothing before the rule. -/
theorem get?_ruledBody_effort (hroute : ctx.isOpenAi = true) (hrec : b.isRecord = true) :
    (ruledBody ctx b).get? (js "reasoning_effort") = ctx.given b (js "reasoning_effort") := by
  have hcc : ctx.claudeCode = false := by simp [StampContext.claudeCode, hroute]
  rw [ruledBody, get?_stampModelRule ctx ((within_gatedBody ctx).record b hrec) (by decide)
    (by decide), hcc]
  rfl

/-! ## The steps behind the rule -/

theorem get?_stripForReasoning_effort (b : Json) :
    (stripForReasoning b).1.get? (js "reasoning_effort") = b.get? (js "reasoning_effort") :=
  within_stripForReasoning.get? b _ (by decide)

/-- A `reasoning_effort` is there behind its step where it was before, or
where thinking asks for it. -/
theorem isSome_stampReasoning (hopen : ctx.openAiReasoning = true) (hrec : b.isRecord = true) :
    ((stampReasoning b (reasoningOptions ctx)).1.get? (js "reasoning_effort")).isSome =
      ((b.get? (js "reasoning_effort")).isSome ||
        !(reasoningOptions ctx).vetoReasoningEffort && (b.get? (js "thinking")).isSome &&
          !isThinkingDisabled (b.get? (js "thinking")) && ctx.policy.thinking) := by
  have heffort : (reasoningOptions ctx).reasoningEffort ≠ none := by
    simp only [StampContext.openAiReasoning, Bool.and_eq_true] at hopen
    exact Option.isSome_iff_ne_none.mp hopen.2
  have hset : ∀ v : Json,
      (stripForReasoning (b.set (js "reasoning_effort") v)).1.get? (js "reasoning_effort") =
        some v := fun v => by
    rw [get?_stripForReasoning_effort, Json.get?_set_record hrec, if_pos rfl]
  have hpolicy : policyFor (reasoningOptions ctx).policy b = ctx.policy := rfl
  unfold stampReasoning
  simp only [heffort, if_false, andThen, hpolicy]
  cases hget : b.get? (js "reasoning_effort") with
  | some effort =>
    simp only [Option.isNone_some, Bool.false_and, Bool.false_eq_true, if_false, Option.isSome_some,
      Bool.true_or]
    split
    · split
      · simp [hget]
      · simp [get?_stripForReasoning_effort, hget]
    · split
      · simp [hget]
      · simp [hset]
  | none =>
    cases hthinking : b.get? (js "thinking") with
    | none => simp [hget]
    | some thinking =>
      simp only [Option.isNone_none, Option.isNone_some, Bool.true_and, Bool.false_eq_true, if_false,
        Option.isSome_none, Option.isSome_some, Bool.false_or, Bool.and_true, if_true]
      cases (reasoningOptions ctx).vetoReasoningEffort with
      | true =>
        simp only [if_true]
        split
        · simp [hget]
        · simp [get?_stripForReasoning_effort, hget]
      | false =>
        have hskips : (isThinkingDisabled (some thinking) || !ctx.policy.thinking) =
            !(!isThinkingDisabled (some thinking) && ctx.policy.thinking) := by simp
        simp only [hskips, Bool.not_false, Bool.true_and, Bool.false_eq_true, if_false]
        cases !isThinkingDisabled (some thinking) && ctx.policy.thinking with
        | true => simp [hset]
        | false => simp [hget]

/-- The body `TopKStep` gets. -/
def usageBody (ctx : StampContext) (a : Json) : Json :=
  (applyIf ctx.openAiReasoning stampStreamUsage
    (applyIf ctx.openAiReasoning (fun body => stampReasoning body (reasoningOptions ctx))
      (applyIf ctx.claudeCode (whenThinking fun body =>
        (body.set (js "context_management") STAMP_CONTEXT_MANAGEMENT_VALUE, true)) a).1).1).1

theorem within_usageBody (ctx : StampContext) :
    Within [js "context_management", js "reasoning_effort", js "output_config", js "temperature",
      js "stream_options"] fun a => (usageBody ctx a, false) := by
  have hcontext := within_applyIf ctx.claudeCode
    (within_whenThinking (Within.set (js "context_management")
      (fun _ => STAMP_CONTEXT_MANAGEMENT_VALUE) true))
  have hreasoning := within_applyIf ctx.openAiReasoning (within_stampReasoning (reasoningOptions ctx))
  have husage := within_applyIf ctx.openAiReasoning within_stampStreamUsage
  have hall : Within [js "context_management", js "reasoning_effort", js "output_config",
      js "temperature", js "stream_options"] _ :=
    ((hcontext.mono (by simp)).andThen (hreasoning.mono (by simp))).andThen (husage.mono (by simp))
  exact ⟨hall.fixed, hall.record, hall.get?⟩

theorem get?_usageBody {key : JsString}
    (hkey : key ∉ [js "context_management", js "reasoning_effort", js "output_config",
      js "temperature", js "stream_options"]) (a : Json) :
    (usageBody ctx a).get? key = a.get? key :=
  (within_usageBody ctx).get? a key hkey

/-- The OpenAI route has its `reasoning_effort` when `TopKStep` looks. -/
theorem has_usageBody_effort (hroute : ctx.isOpenAi = true) (hopen : ctx.openAiReasoning = true)
    (hrec : b.isRecord = true) :
    (usageBody ctx (ruledBody ctx b)).has (js "reasoning_effort") = effortBehindRule ctx b := by
  have hcc : ctx.claudeCode = false := by simp [StampContext.claudeCode, hroute]
  have heffort := isSome_stampReasoning hopen (isRecord_ruledBody hrec : (ruledBody ctx b).isRecord = true)
  rw [get?_ruledBody_effort hroute hrec, get?_ruledBody_thinking hrec] at heffort
  simp only [usageBody, applyIf, hcc, hopen, Bool.false_eq_true, if_false, if_true]
  rw [Json.has, within_stampStreamUsage.get? _ _ (by decide), heffort, effortBehindRule]

/-- Whether `TopKStep` stamps is read off the request. -/
theorem getsTopK_eq (hrec : b.isRecord = true) :
    ((ctx.claudeCode || ctx.openAiReasoning) && ctx.policy.top_k.isSome &&
      (reasons ctx (usageBody ctx (ruledBody ctx b)) &&
        addsTopK ctx.policy (usageBody ctx (ruledBody ctx b)))) = getsTopK ctx b := by
  have hmodel : (extractModelName (usageBody ctx (ruledBody ctx b))).isSome =
      (match ctx.given b (js "model") with
        | some (.str _) => true
        | _ => false) := by
    unfold extractModelName Json.str?
    rw [get?_usageBody (by decide), get?_ruledBody hrec (by decide) (by decide)]
    cases ctx.given b (js "model") with
    | none => rfl
    | some v => cases v <;> rfl
  have htopK : (usageBody ctx (ruledBody ctx b)).has (js "top_k") =
      (ctx.given b (js "top_k")).isSome := by
    rw [Json.has, get?_usageBody (by decide), get?_ruledBody hrec (by decide) (by decide)]
  cases hgate : ctx.claudeCode || ctx.openAiReasoning with
  | false => simp [getsTopK, hgate]
  | true =>
    have hreasons : reasons ctx (usageBody ctx (ruledBody ctx b)) =
        (if ctx.isOpenAi then effortBehindRule ctx b
          else isThinkingEnabled (ruledThinking ctx b)) := by
      unfold reasons
      split
      · rename_i hroute
        have hcc : ctx.claudeCode = false := by simp [StampContext.claudeCode, hroute]
        rw [hcc, Bool.false_or] at hgate
        exact has_usageBody_effort hroute hgate hrec
      · rw [get?_usageBody (by decide), get?_ruledBody_thinking hrec]
    rw [getsTopK, hgate, hreasons, addsTopK, hmodel, htopK]
    generalize (match ctx.given b (js "model") with
      | some (.str _) => true
      | _ => false) = named
    generalize (if ctx.isOpenAi then effortBehindRule ctx b
      else isThinkingEnabled (ruledThinking ctx b)) = asks
    cases ctx.policy.top_k.isSome <;> cases named <;> cases asks <;> simp

/-- A property under `__proto__` is lost where a `top_k` is stamped. -/
theorem get?_stampFields_proto (hrec : b.isRecord = true) (hextra : Json.protoKey ∉ ctx.extraKeys) :
    (stampFields ctx b).1.get? Json.protoKey =
      if getsTopK ctx b then none else b.get? Json.protoKey := by
  have hruled : (ruledBody ctx b).get? Json.protoKey = b.get? Json.protoKey := by
    have hkeys : Json.protoKey ∉
        [js "thinking", js "max_tokens", js "output_config"] ++ ctx.extraKeys := by
      rw [List.mem_append, not_or]
      exact ⟨by decide, hextra⟩
    rw [ruledBody, (within_applyIf _ (within_stampModelRule ctx)).get? _ _ hkeys,
      (within_gatedBody ctx).get? b _ (by decide)]
  have husage : (usageBody ctx (ruledBody ctx b)).get? Json.protoKey = b.get? Json.protoKey := by
    rw [get?_usageBody (by decide), hruled]
  have htemperature := (within_applyIf ctx.claudeCode (within_whenThinking
    (within_stampTemperature STAMP_TEMPERATURE_VALUE))).get?
    (applyIf ((ctx.claudeCode || ctx.openAiReasoning) && ctx.policy.top_k.isSome)
      (stampBodyTopK ctx) (usageBody ctx (ruledBody ctx b))).1 Json.protoKey (by decide)
  refine htemperature.trans ?_
  rw [← getsTopK_eq hrec, applyIf]
  cases (ctx.claudeCode || ctx.openAiReasoning) && ctx.policy.top_k.isSome with
  | false => exact husage
  | true =>
    rw [if_pos rfl, Bool.true_and, stampBodyTopK]
    cases reasons ctx (usageBody ctx (ruledBody ctx b)) with
    | false => exact husage
    | true =>
      rw [if_pos rfl, Bool.true_and, get?_stampTopK, husage]
      rfl

/-! ## The frame -/

/-- What is left of a request: every field outside the stamped ones, and the
system and the messages, unless the rule brings its own. `strip` takes the
reminder out. -/
structure Framed (ctx : StampContext) (rule : JsString → Option Json) (strip : Json → Json)
    (body out : Json) : Prop where
  fields : ∀ key, key ∉ stampedFields → key ≠ js "system" → key ≠ js "messages" →
    key ∉ ctx.extraKeys → out.get? key = body.get? key
  /-- On the OpenAI route system and messages are the client's. -/
  openAi : ctx.isOpenAi = true → ∀ key ∈ [js "system", js "messages"],
    out.get? key = (rule key).or (body.get? key)
  /-- On the Anthropic route they are but for `cache_control`. -/
  system : ctx.isOpenAi = false → (out.get? (js "system")).map eraseSystem =
    ((rule (js "system")).or (body.get? (js "system"))).map eraseSystem
  messages : ctx.isOpenAi = false → (out.get? (js "messages")).map eraseMessages =
    ((rule (js "messages")).or (body.get? (js "messages"))).map (eraseMessages ∘ strip)

/-- A run that throws has not come to the rule and to the reminder. -/
def FramedRun (ctx : StampContext) (body : Json) : Stamped → Prop
  | .returned out _ => Framed ctx ctx.stored (stripValue ctx) body out
  | .threw out => Framed ctx (fun _ => none) id body out

/-- When the pipeline keeps the frame of a request. -/
structure FrameKept (ctx : StampContext) (body : Json) : Prop where
  /-- No property under `__proto__` meets a `top_k`. -/
  proto : walks ctx body = true → getsTopK ctx body = true → Json.protoKey ∉ ctx.extraKeys →
    body.get? Json.protoKey = none
  /-- The first system block gets no breakpoint, or is an object. -/
  system : ctx.claudeCode = true → hasMessages body = true →
    (walks ctx body = true → ctx.stored (js "system") = none) →
    ∀ blocks, body.items? (js "system") = some blocks → ¬ spreadsHead blocks
  /-- So is the last block of the last user message. -/
  messages : ctx.claudeCode = true → (hasMessages body && systemThrows body) = false →
    (walks ctx body = true → ctx.stored (js "messages") = none) →
    ∀ messages, body.items? (js "messages") = some messages → ¬ SpreadsMessage messages

theorem stored_eq_none {key : JsString} (h : key ∉ ctx.extraKeys) : ctx.stored key = none := by
  unfold StampContext.extraKeys PerModelRule.extraKeys at h
  unfold StampContext.stored
  cases hrule : ctx.rule with
  | none => rfl
  | some rule =>
    simp only [hrule, Option.bind_some] at h ⊢
    cases hextra : rule.openaiExtraBody with
    | none => rfl
    | some extra =>
      simp only [hextra] at h
      apply Dict.get?_eq_none_of_not_mem
      simpa [Dict.keys] using h

theorem ruledThinking_blockBody (ctx : StampContext) (body : Json) :
    ruledThinking ctx (blockBody ctx body) = ruledThinking ctx body := by
  have hthinking := get?_blockBody_of_ne ctx body (show js "system" ≠ js "thinking" by decide) (by decide)
  have heffort := get?_blockBody_of_ne ctx body (show js "system" ≠ js "reasoning_effort" by decide)
    (by decide)
  have hforces : ∀ rule, forcesOpenAi rule (blockBody ctx body) = forcesOpenAi rule body :=
    fun rule => by simp only [forcesOpenAi, hthinking, heffort]
  have hshaped : ∀ rule existing, shapedThinking ctx rule (blockBody ctx body) existing =
      shapedThinking ctx rule body existing :=
    fun rule existing => by rw [shapedThinking, hforces, shapedThinking]
  unfold ruledThinking
  simp only [hthinking]
  cases ctx.rule with
  | none => rfl
  | some rule => exact congrArg _ (hshaped rule _)

/-- Whether a `top_k` is stamped does not depend on the blocks. -/
theorem getsTopK_blockBody (ctx : StampContext) (body : Json) :
    getsTopK ctx (blockBody ctx body) = getsTopK ctx body := by
  have hgiven : ∀ key, js "system" ≠ key → js "messages" ≠ key →
      ctx.given (blockBody ctx body) key = ctx.given body key := fun key hsystem hmessages => by
    rw [StampContext.given, get?_blockBody_of_ne ctx body hsystem hmessages, StampContext.given]
  unfold getsTopK effortBehindRule
  rw [ruledThinking_blockBody, hgiven (js "model") (by decide) (by decide),
    hgiven (js "top_k") (by decide) (by decide), hgiven (js "reasoning_effort") (by decide) (by decide)]

section Parts

variable (rule : JsString → Option Json)

theorem eraseSystem_iff :
    ((rule (js "system")).or ((blockBody ctx body).get? (js "system"))).map eraseSystem =
        ((rule (js "system")).or (body.get? (js "system"))).map eraseSystem ↔
      (ctx.claudeCode = true → hasMessages body = true → rule (js "system") = none →
        ∀ blocks, body.items? (js "system") = some blocks → ¬ spreadsHead blocks) := by
  cases rule (js "system") with
  | some v => simp
  | none =>
    simp only [Option.none_or, true_implies]
    constructor
    · intro heq hcc hmsgs blocks hblocks hspreads
      exact eraseSystem_blockBody_ne hcc hmsgs hblocks hspreads heq
    · exact eraseSystem_blockBody

theorem eraseMessages_iff {strip : Json → Json} (hstrip : strip = stripValue ctx ∨ strip = id) :
    ((rule (js "messages")).or ((blockBody ctx body).get? (js "messages"))).map
          (eraseMessages ∘ strip) =
        ((rule (js "messages")).or (body.get? (js "messages"))).map (eraseMessages ∘ strip) ↔
      (ctx.claudeCode = true → rule (js "messages") = none →
        ∀ messages, body.items? (js "messages") = some messages → ¬ SpreadsMessage messages) := by
  cases rule (js "messages") with
  | some v => simp
  | none =>
    simp only [Option.none_or, true_implies]
    constructor
    · intro heq hcc messages hitems hspreads
      exact eraseMessages_blockBody_ne hcc hitems hspreads hstrip heq
    · intro hkept
      have herase := eraseMessages_blockBody hkept
      rcases hstrip with rfl | rfl
      · have hcomm : eraseMessages ∘ stripValue ctx = stripValue ctx ∘ eraseMessages :=
          funext fun v => eraseMessages_stripValue ctx v
        rw [hcomm, ← Option.map_map, ← Option.map_map, herase]
      · exact herase

end Parts

/-- The fields of the body that leaves the pipeline. -/
theorem fields_finalBody_iff (hrec : body.isRecord = true) :
    (∀ key, key ∉ stampedFields → key ≠ js "system" → key ≠ js "messages" →
        key ∉ ctx.extraKeys → (finalBody ctx body).get? key = body.get? key) ↔
      (getsTopK ctx body = true → Json.protoKey ∉ ctx.extraKeys →
        body.get? Json.protoKey = none) := by
  have hblock : (blockBody ctx body).isRecord = true := isRecord_blockBody hrec
  have hproto : Json.protoKey ∉ ctx.extraKeys → (finalBody ctx body).get? Json.protoKey =
      if getsTopK ctx body then none else body.get? Json.protoKey := by
    intro hextra
    rw [get?_finalBody_of_ne ctx body (by decide), get?_stampFields_proto hblock hextra,
      getsTopK_blockBody, get?_blockBody_of_ne ctx body (by decide) (by decide)]
  constructor
  · intro hfields hgets hextra
    have hkept := hfields Json.protoKey (by decide) (by decide) (by decide) hextra
    rw [hproto hextra, hgets, if_pos rfl] at hkept
    exact hkept.symm
  · intro hkept key hkey hsystem hmessages hextra
    by_cases heq : key = Json.protoKey
    · subst heq
      rw [hproto hextra]
      split
      · exact (hkept ‹_› hextra).symm
      · rfl
    · rw [get?_finalBody_of_ne ctx body (Ne.symm hmessages),
        get?_stampFields hblock (by simp [heq, hkey]), stored_eq_none hextra, Option.none_or,
        get?_blockBody_of_ne ctx body (Ne.symm hsystem) (Ne.symm hmessages)]

/-- A run that returns keeps the frame. -/
theorem framed_finalBody_iff (hrec : body.isRecord = true) (hwalks : walks ctx body = true) :
    Framed ctx ctx.stored (stripValue ctx) body (finalBody ctx body) ↔ FrameKept ctx body := by
  have hfields : _ ↔ (getsTopK ctx body = true → _) := fields_finalBody_iff hrec
  obtain ⟨hgetSystem, hgetMessages⟩ := get?_finalBody ctx hrec
  constructor
  · intro hframed
    refine ⟨fun _ => hfields.mp hframed.fields, fun hcc hmsgs hnone => ?_, fun hcc _ hnone => ?_⟩
    · have hkept := hframed.system (isOpenAi_of_claudeCode hcc)
      rw [hgetSystem] at hkept
      exact (eraseSystem_iff ctx.stored).mp hkept hcc hmsgs (hnone hwalks)
    · have hkept := hframed.messages (isOpenAi_of_claudeCode hcc)
      rw [hgetMessages, Option.map_map] at hkept
      exact (eraseMessages_iff ctx.stored (.inl rfl)).mp hkept hcc (hnone hwalks)
  · intro hkept
    refine ⟨hfields.mpr (hkept.proto hwalks), fun hroute key hkey => ?_, fun _ => ?_, fun _ => ?_⟩
    · have hcc : ctx.claudeCode = false := by simp [StampContext.claudeCode, hroute]
      have hblock : blockBody ctx body = body := by simp [blockBody, hcc]
      have hstrip : stripValue ctx = id := by
        funext v
        cases v <;> simp [stripValue, strips, hroute]
      rw [hblock] at hgetSystem hgetMessages
      rcases List.mem_pair.mp hkey with rfl | rfl
      · exact hgetSystem
      · rw [hgetMessages, hstrip, Option.map_id, id_eq]
    · rw [hgetSystem]
      exact (eraseSystem_iff ctx.stored).mpr fun hcc hmsgs hnone =>
        hkept.system hcc hmsgs fun _ => hnone
    · rw [hgetMessages, Option.map_map]
      refine (eraseMessages_iff ctx.stored (.inl rfl)).mpr fun hcc hnone =>
        hkept.messages hcc ?_ fun _ => hnone
      simp only [walks, hcc, Bool.not_true, Bool.false_or, Bool.and_eq_true] at hwalks
      exact (Bool.not_eq_true' _).mp hwalks.1

/-- A run that throws keeps it likewise. -/
theorem framed_blockBody_iff (hobj : body.isObject = true) (hwalks : walks ctx body = false) :
    FramedRun ctx body (runPipeline ctx body) ↔ FrameKept ctx body := by
  have hcc : ctx.claudeCode = true := by
    by_contra hno
    simp [walks, hno] at hwalks
  have hroute := isOpenAi_of_claudeCode hcc
  have hvacuous : ∀ P : Prop, (walks ctx body = true → P) := fun P h => by
    rw [hwalks] at h
    cases h
  rw [runPipeline_threw hobj hwalks]
  cases hsys : hasMessages body && systemThrows body with
  | true =>
    rw [if_pos rfl]
    refine ⟨fun _ => ⟨fun h => hvacuous _ h, fun _ _ _ blocks hblocks hspreads => ?_,
      fun _ hno => absurd hsys (by simp [hno])⟩,
      fun _ => ⟨fun _ _ _ _ _ => rfl, fun _ _ _ => rfl, fun _ => rfl, fun _ => rfl⟩⟩
    rw [Bool.and_eq_true, systemThrows, hblocks] at hsys
    cases blocks with
    | nil => exact hspreads
    | cons b rest =>
      cases b with
      | null => exact absurd hspreads.1 (by simp [isTextBlock])
      | _ => exact absurd hsys.2 (by simp [startsWithNull])
  | false =>
    rw [if_neg Bool.false_ne_true]
    constructor
    · intro hframed
      refine ⟨fun h => hvacuous _ h, fun _ hmsgs _ => ?_, fun _ _ _ => ?_⟩
      · exact (eraseSystem_iff fun _ => none).mp (hframed.system hroute) hcc hmsgs rfl
      · exact (eraseMessages_iff (fun _ => none) (.inr rfl)).mp (hframed.messages hroute) hcc rfl
    · intro hkept
      refine ⟨fun key _ hsystem hmessages _ =>
        get?_blockBody_of_ne ctx body (Ne.symm hsystem) (Ne.symm hmessages),
        fun hopen => absurd hopen (by simp [hroute]), fun _ => ?_, fun _ => ?_⟩
      · exact (eraseSystem_iff fun _ => none).mpr fun _ hmsgs _ =>
          hkept.system hcc hmsgs (hvacuous _)
      · exact (eraseMessages_iff (fun _ => none) (.inr rfl)).mpr fun _ _ =>
          hkept.messages hcc hsys (hvacuous _)

/-- A body that is no record of fields comes out as it went in. -/
theorem runPipeline_of_not_record (ctx : StampContext) (hrec : body.isRecord = false) :
    ∃ changed, runPipeline ctx body = .returned body changed := by
  cases hobj : body.isObject with
  | false => exact ⟨false, runPipeline_of_not_object ctx hobj⟩
  | true =>
    have hblock : blockBody ctx body = body := by
      simp [blockBody, ttlBody, layoutBody, restampedBody, Json.mapItems_of_not_record hrec]
    have hfinal : finalBody ctx body = body := by
      rw [finalBody, hblock, (within_stampFields ctx).fixed body hrec, stripBody,
        Json.mapItems_of_not_record hrec, ite_self]
    have hwalks : walks ctx body = true := by
      simp [walks, hasMessages, iterates, Json.items?, Json.get?_of_not_record hrec]
    obtain ⟨changed, hrun⟩ := runPipeline_returned hobj hwalks
    exact ⟨changed, by rw [hrun, hfinal]⟩

theorem framedRun_of_not_record (hrec : body.isRecord = false) (hrule : ctx.rule = none) :
    FramedRun ctx body (runPipeline ctx body) ∧ FrameKept ctx body := by
  have hget : ∀ key, body.get? key = none := Json.get?_of_not_record hrec
  have hitems : ∀ key, body.items? key = none := fun key => by simp [Json.items?, hget]
  have hstored : ∀ key, ctx.stored key = none := fun key => by simp [StampContext.stored, hrule]
  have hsame : Framed ctx ctx.stored (stripValue ctx) body body := by
    refine ⟨fun _ _ _ _ _ => rfl, fun _ key _ => ?_, fun _ => ?_, fun _ => ?_⟩ <;>
      simp [hget, hstored]
  refine ⟨?_, fun _ _ _ => hget _, fun _ _ _ blocks hblocks => ?_, fun _ _ _ messages hmsgs => ?_⟩
  · obtain ⟨changed, hrun⟩ := runPipeline_of_not_record ctx hrec
    rw [hrun]
    exact hsame
  · rw [hitems] at hblocks
    cases hblocks
  · rw [hitems] at hmsgs
    cases hmsgs

theorem not_framedRun (hrec : body.isRecord = true) (hwalks : walks ctx body = true)
    (hkept : ¬ FrameKept ctx body) : ¬ FramedRun ctx body (runPipeline ctx body) := by
  obtain ⟨changed, hrun⟩ := runPipeline_returned (Json.isObject_of_isRecord hrec) hwalks
  rw [hrun]
  exact fun hframed => hkept ((framed_finalBody_iff hrec hwalks).mp hframed)

/-- A request for thinking to a model that gets a `top_k`, with a property of
its own under `__proto__`. -/
def protoRequest : Json :=
  .obj [(js "model", .str (js "umans-glm-5.2")), (js "thinking", .obj [(js "type", .str (js "enabled"))]),
    (js "__proto__", .obj [(js "tag", .num 1)])]

/-- A question whose block is a string. -/
def stringBlockRequest : Json :=
  .obj [(js "model", .str (js "umans-coder")),
    (js "messages", .arr [message "user" (.arr [.str (js "Hi")])])]

end UmansGate.Stamp
