/-
UmansGate.Stamp.ThinkingTheorems — thinking and the fields that go with it
on the Anthropic route (`docs/reference/request-body-matrix.md`).

`AnthropicBodyStep` looks at the client's thinking for `max_tokens` and at
the forced one for `output_config`. Where it forces thinking the client
disabled, the steps behind it see thinking that is enabled, and none of
them stamps the `max_tokens` it skipped.
-/
import UmansGate.Stamp.RunTheorems

namespace UmansGate.Stamp

open UmansGate.Lib

variable {ctx : StampContext} {body b : Json} {policy : StampPolicy} {rule : PerModelRule}
  {thinking : Option Json}

theorem isThinkingEnabled_shape (shape : ThinkingConfig) :
    isThinkingEnabled (some shape.toJson) = true := by
  cases shape with
  | enabledClear clear => cases clear <;> decide
  | _ => decide

theorem isThinkingEnabled_ne_none (h : isThinkingEnabled thinking = true) : thinking ≠ none := by
  rintro rfl
  cases h

theorem isThinkingEnabled_eq (thinking : Option Json) :
    isThinkingEnabled thinking = (!isNullish thinking && !isThinkingDisabled thinking) :=
  rfl

theorem isNullish_of_disabled (h : isThinkingDisabled thinking = true) :
    isNullish thinking = false := by
  cases thinking with
  | none => cases h
  | some t =>
    cases t with
    | null => cases h
    | _ => rfl

/-! ## `AnthropicBodyStep` -/

/-- Thinking behind `forceThinking`. -/
def forcedThinking (policy : StampPolicy) (thinking : Option Json) : Option Json :=
  match thinking with
  | some current =>
    if !isNullish (some current) &&
        (!isThinkingDisabled (some current) || !policy.canDisableThinking) &&
        !thinkingEquals current policy.thinkingShape.toJson then
      some policy.thinkingShape.toJson
    else some current
  | none => none

theorem get?_forceThinking (policy : StampPolicy) (b : Json) :
    (forceThinking true policy b).1.get? (js "thinking") =
      forcedThinking policy (b.get? (js "thinking")) := by
  unfold forceThinking forcedThinking
  cases hget : b.get? (js "thinking") with
  | none => exact hget
  | some current =>
    have hrec := Json.isRecord_of_get? hget
    simp only [Bool.true_and]
    by_cases hforce : (!isNullish (some current) &&
        (!isThinkingDisabled (some current) || !policy.canDisableThinking)) = true
    · rw [if_pos hforce, hforce, Bool.true_and]
      cases thinkingEquals current policy.thinkingShape.toJson with
      | true => exact hget
      | false => exact Json.get?_set hget _
    · rw [if_neg hforce, (Bool.not_eq_true _).mp hforce]
      exact hget

/-- Thinking that was enabled stays so. -/
theorem isThinkingEnabled_forced (h : isThinkingEnabled thinking = true) :
    isThinkingEnabled (forcedThinking policy thinking) = true := by
  unfold forcedThinking
  cases thinking with
  | none => cases h
  | some current =>
    simp only
    split
    · exact isThinkingEnabled_shape policy.thinkingShape
    · exact h

/-- Thinking is forced on: the client disabled it, in a form the policy's own
shape differs from, and the model cannot. -/
def forcedOn (policy : StampPolicy) (thinking : Option Json) : Bool :=
  match thinking with
  | some current =>
    isThinkingDisabled (some current) && !policy.canDisableThinking &&
      !thinkingEquals current policy.thinkingShape.toJson
  | none => false

/-- Forced thinking is enabled where the client's was, or where it is forced
on. -/
theorem isThinkingEnabled_forcedThinking (policy : StampPolicy) (thinking : Option Json) :
    isThinkingEnabled (forcedThinking policy thinking) =
      (isThinkingEnabled thinking || forcedOn policy thinking) := by
  cases henabled : isThinkingEnabled thinking with
  | true => rw [isThinkingEnabled_forced henabled, Bool.true_or]
  | false =>
    rw [Bool.false_or]
    cases thinking with
    | none => rfl
    | some current =>
      simp only [forcedThinking, forcedOn]
      cases hdisabled : isThinkingDisabled (some current) with
      | true =>
        rw [isNullish_of_disabled hdisabled]
        simp only [Bool.not_false, Bool.true_and, Bool.not_true, Bool.false_or]
        split
        · rename_i hforce
          rw [hforce]
          exact isThinkingEnabled_shape policy.thinkingShape
        · rename_i hforce
          rw [(Bool.not_eq_true _).mp hforce]
          exact henabled
      | false =>
        have hnull : isNullish (some current) = true := by
          simpa [isThinkingEnabled_eq, hdisabled] using henabled
        simp [hnull, henabled]

/-- Thinking behind `AnthropicBodyStep`. -/
theorem get?_stampAnthropicBody_thinking (policy : StampPolicy) (b : Json) :
    (stampAnthropicBody policy b).1.get? (js "thinking") =
      forcedThinking policy (b.get? (js "thinking")) := by
  have hmax := (within_stampMaxTokens policy true).get? b (js "thinking") (by decide)
  have hforce := get?_forceThinking policy (stampMaxTokens true policy b).1
  rw [hmax] at hforce
  have hout := (within_stampOutputConfig policy (.config policy.effort)).get?
    (forceThinking true policy (stampMaxTokens true policy b).1).1 (js "thinking") (by decide)
  exact ((within_strip (js "reasoning_effort")).get? _ (js "thinking") (by decide)).trans
    (hout.trans hforce)

/-- `max_tokens` is stamped where the client's own thinking is enabled. -/
theorem get?_stampAnthropicBody_maxTokens (policy : StampPolicy) (b : Json) :
    (stampAnthropicBody policy b).1.get? (js "max_tokens") =
      if isThinkingEnabled (b.get? (js "thinking")) then some (.num policy.max_tokens)
      else b.get? (js "max_tokens") := by
  have hmax : (stampMaxTokens true policy b).1.get? (js "max_tokens") =
      if isThinkingEnabled (b.get? (js "thinking")) then some (.num policy.max_tokens)
      else b.get? (js "max_tokens") := by
    unfold stampMaxTokens
    cases hthinking : isThinkingEnabled (b.get? (js "thinking")) with
    | true =>
      obtain ⟨t, ht⟩ := Option.ne_none_iff_exists'.mp (isThinkingEnabled_ne_none hthinking)
      simp [Json.get?_set_record (Json.isRecord_of_get? ht)]
    | false => rfl
  have hforce := (within_forceThinking policy true).get? (stampMaxTokens true policy b).1
    (js "max_tokens") (by decide)
  have hout := (within_stampOutputConfig policy (.config policy.effort)).get?
    (forceThinking true policy (stampMaxTokens true policy b).1).1 (js "max_tokens") (by decide)
  exact ((within_strip (js "reasoning_effort")).get? _ (js "max_tokens") (by decide)).trans
    (hout.trans (hforce.trans hmax))

/-- `output_config` is stamped where the forced thinking is enabled. -/
theorem get?_stampAnthropicBody_outputConfig (policy : StampPolicy) (b : Json) :
    (stampAnthropicBody policy b).1.get? (js "output_config") =
      if isThinkingEnabled (forcedThinking policy (b.get? (js "thinking"))) && policy.thinking then
        some policy.outputConfig
      else b.get? (js "output_config") := by
  have hmaxThinking := (within_stampMaxTokens policy true).get? b (js "thinking") (by decide)
  have hmaxOut := (within_stampMaxTokens policy true).get? b (js "output_config") (by decide)
  have hthinking := get?_forceThinking policy (stampMaxTokens true policy b).1
  rw [hmaxThinking] at hthinking
  have hforceOut := ((within_forceThinking policy true).get? (stampMaxTokens true policy b).1
    (js "output_config") (by decide)).trans hmaxOut
  refine ((within_strip (js "reasoning_effort")).get? _ (js "output_config") (by decide)).trans ?_
  show (stampOutputConfig (.config policy.effort) policy
    (forceThinking true policy (stampMaxTokens true policy b).1).1).1.get? (js "output_config") = _
  unfold stampOutputConfig
  rw [hthinking]
  split
  · rename_i hstamps
    rw [Bool.and_eq_true] at hstamps
    rw [← hthinking] at hstamps
    obtain ⟨t, ht⟩ := Option.ne_none_iff_exists'.mp (isThinkingEnabled_ne_none hstamps.1)
    exact (Json.get?_set_record (Json.isRecord_of_get? ht) _).trans (if_pos rfl)
  · exact hforceOut

/-! ## `PerModelRuleStep` -/

/-- The matching rule has no extra body. -/
def NoExtraBody (ctx : StampContext) : Prop :=
  ∀ rule, ctx.rule = some rule → rule.openaiExtraBody = none

/-- On the Anthropic route a rule without an extra body leaves the body alone
or forces its shape. -/
theorem stampModelRule_cases (hroute : ctx.isOpenAi = false) (hextra : NoExtraBody ctx) (b : Json) :
    (applyIf ctx.rule.isSome (stampModelRule ctx) b).1 = b ∨
      ∃ (rule : PerModelRule) (shape : ThinkingConfig),
        forcesAnthropic ctx.policy rule (b.get? (js "thinking")) = true ∧
        (applyIf ctx.rule.isSome (stampModelRule ctx) b).1 =
          revive ctx.policy (b.get? (js "thinking")) (b.set (js "thinking") shape.toJson) := by
  unfold applyIf stampModelRule
  cases hrule : ctx.rule with
  | none => exact .inl rfl
  | some rule =>
    simp only [Option.isSome_some, if_true, andThen, mergeExtraBody, hextra rule hrule,
      applyThinkingShape, hroute, Bool.false_eq_true, if_false]
    cases rule.anthropicThinkingShape with
    | none => exact .inl rfl
    | some shape =>
      simp only
      split
      · rename_i hforces
        exact .inr ⟨rule, shape, hforces, rfl⟩
      · exact .inl rfl

/-- The shape is forced, with the fields that were skipped where thinking was
not enabled. -/
theorem get?_revive (policy : StampPolicy) (thinking : Option Json) (hrec : b.isRecord = true)
    (shape : ThinkingConfig) :
    let out := revive policy thinking (b.set (js "thinking") shape.toJson)
    out.get? (js "thinking") = some shape.toJson ∧
      out.get? (js "max_tokens") =
        (if isThinkingEnabled thinking then b.get? (js "max_tokens")
          else some (.num policy.max_tokens)) ∧
      out.get? (js "output_config") =
        (if isThinkingEnabled thinking then b.get? (js "output_config")
          else some policy.outputConfig) := by
  unfold revive
  cases isThinkingEnabled thinking with
  | true =>
    simp only [if_true, Json.get?_set_record hrec]
    exact ⟨trivial, if_neg (by decide), if_neg (by decide)⟩
  | false =>
    simp only [Bool.false_eq_true, if_false, Json.get?_set_record, Json.isRecord_set, hrec]
    exact ⟨rfl, rfl, rfl⟩

/-! ## The steps behind it -/

section Behind

variable (hgate : ctx.claudeCode = true)

include hgate

theorem isOpenAi_of_claudeCode : ctx.isOpenAi = false := by
  simp only [StampContext.claudeCode, Bool.and_eq_true, Bool.not_eq_true'] at hgate
  exact hgate.2

theorem openAiReasoning_of_claudeCode : ctx.openAiReasoning = false := by
  simp [StampContext.openAiReasoning, isOpenAi_of_claudeCode hgate]

/-- Without thinking nothing more is stamped. -/
theorem stampBehindRule_of_disabled (h : isThinkingEnabled (b.get? (js "thinking")) = false) :
    (stampBehindRule ctx b).1 = b := by
  simp [stampBehindRule, andThen, applyIf, whenThinking, h, openAiReasoning_of_claudeCode hgate,
    stampBodyTopK, reasons, isOpenAi_of_claudeCode hgate]

/-- With thinking the three fields behind the rule are stamped one after the
other. -/
theorem stampBehindRule_of_enabled (h : isThinkingEnabled (b.get? (js "thinking")) = true) :
    let afterContext := b.set (js "context_management") STAMP_CONTEXT_MANAGEMENT_VALUE
    let afterTopK := (applyIf ctx.policy.top_k.isSome (stampBodyTopK ctx) afterContext).1
    (stampBehindRule ctx b).1 = (stampTemperature afterTopK STAMP_TEMPERATURE_VALUE).1 := by
  intro afterContext afterTopK
  have hcontext : isThinkingEnabled (afterContext.get? (js "thinking")) = true := by
    rw [Json.get?_set_of_ne (by decide)]
    exact h
  have htopK : isThinkingEnabled (afterTopK.get? (js "thinking")) = true := by
    rw [(within_applyIf ctx.policy.top_k.isSome (within_stampBodyTopK ctx)).get? afterContext
      (js "thinking") (by decide)]
    exact hcontext
  have hopen := openAiReasoning_of_claudeCode hgate
  simp only [stampBehindRule, andThen, applyIf, hgate, hopen, if_true, Bool.false_eq_true, if_false,
    whenThinking, h, Bool.true_or, Bool.true_and]
  exact congrArg Prod.fst (if_pos htopK)

end Behind

/-! ## The whole pipeline -/

/-- The context `parseInbound` runs the pipeline of an Anthropic request in. -/
def anthropicContext (config : StampPipelineConfig) (catalog : Catalog) (body : Json) :
    StampContext where
  config := config
  isOpenAi := false
  modelName := extractModelName body
  catalog := catalog

/-- The fields that go with thinking. -/
def thinkingFields : List JsString :=
  [js "thinking", js "max_tokens", js "output_config", js "context_management", js "top_k",
    js "temperature"]

/-- Every field that goes with active thinking is stamped. -/
structure StampedCompletely (policy : StampPolicy) (body out : Json) : Prop where
  maxTokens : out.get? (js "max_tokens") = some (.num policy.max_tokens)
  outputConfig : policy.thinking = true →
    out.get? (js "output_config") = some policy.outputConfig
  contextManagement : out.get? (js "context_management") = some STAMP_CONTEXT_MANAGEMENT_VALUE
  temperature : out.propIs (js "temperature") (.num STAMP_TEMPERATURE_VALUE) = true
  topK : policy.top_k ≠ none → ∃ v, out.get? (js "top_k") = some v ∧
    ∀ w, body.get? (js "top_k") = some w → v = w

/-- Thinking that may be disabled stays as the client has it, and active thinking
comes with all that is stamped for it. -/
structure ThinkingRespected (policy : StampPolicy) (body out : Json) : Prop where
  disabled : policy.canDisableThinking = true →
    isThinkingDisabled (body.get? (js "thinking")) = true →
    ∀ key ∈ thinkingFields, out.get? key = body.get? key
  active : isThinkingEnabled (out.get? (js "thinking")) = true → StampedCompletely policy body out

/-- The body behind `AnthropicBodyStep` and `PerModelRuleStep`. -/
def afterRule (ctx : StampContext) (b : Json) : Json :=
  (applyIf ctx.rule.isSome (stampModelRule ctx) (stampAnthropicBody ctx.policy b).1).1

section Stamped

variable (hgate : ctx.claudeCode = true) (hextra : NoExtraBody ctx)

theorem stampFields_fst (hgate : ctx.claudeCode = true) :
    (stampFields ctx b).1 = (stampBehindRule ctx (afterRule ctx b)).1 := by
  simp [stampFields, andThen, afterRule, applyIf, hgate]

include hgate hextra

/-- Disabled thinking that may be disabled is left alone. -/
theorem stampFields_of_disabled (hcan : ctx.policy.canDisableThinking = true)
    (hdisabled : isThinkingDisabled (b.get? (js "thinking")) = true) (key : JsString)
    (hkey : key ∈ thinkingFields) : (stampFields ctx b).1.get? key = b.get? key := by
  have hnot : isThinkingEnabled (b.get? (js "thinking")) = false := by
    simp [isThinkingEnabled_eq, hdisabled]
  have hforced : forcedThinking ctx.policy (b.get? (js "thinking")) = b.get? (js "thinking") := by
    unfold forcedThinking
    cases hget : b.get? (js "thinking") with
    | none => rfl
    | some current =>
      rw [hget] at hdisabled
      simp [hdisabled, hcan]
  have hbody : ∀ key ∈ thinkingFields,
      (stampAnthropicBody ctx.policy b).1.get? key = b.get? key := by
    intro key hkey
    by_cases hthinking : key = js "thinking"
    · rw [hthinking, get?_stampAnthropicBody_thinking, hforced]
    by_cases hmax : key = js "max_tokens"
    · rw [hmax, get?_stampAnthropicBody_maxTokens, hnot]
      rfl
    by_cases hout : key = js "output_config"
    · rw [hout, get?_stampAnthropicBody_outputConfig, hforced, hnot]
      rfl
    · refine (within_stampAnthropicBody ctx.policy).get? b key ?_
      revert hkey
      simp only [thinkingFields, List.mem_cons, List.not_mem_nil, or_false, hthinking, hmax, hout,
        false_or]
      rintro (rfl | rfl | rfl) <;> decide
  have hthinking := hbody (js "thinking") (by decide)
  have hrule : afterRule ctx b = (stampAnthropicBody ctx.policy b).1 := by
    rcases stampModelRule_cases (isOpenAi_of_claudeCode hgate) hextra
      (stampAnthropicBody ctx.policy b).1 with hsame | ⟨rule, shape, hforces, _⟩
    · exact hsame
    · rw [hthinking, forcesAnthropic, hnot, hcan, isNullish_of_disabled hdisabled] at hforces
      simp at hforces
  rw [stampFields_fst hgate, hrule,
    stampBehindRule_of_disabled hgate (by rw [hthinking]; exact hnot)]
  exact hbody key hkey

/-- Behind the rule thinking comes with its `output_config`, and with its
`max_tokens` unless it was forced on. -/
theorem get?_afterRule (h : isThinkingEnabled ((afterRule ctx b).get? (js "thinking")) = true) :
    (afterRule ctx b).get? (js "max_tokens") =
        (if forcedOn ctx.policy (b.get? (js "thinking")) then b.get? (js "max_tokens")
          else some (.num ctx.policy.max_tokens)) ∧
      (ctx.policy.thinking = true →
        (afterRule ctx b).get? (js "output_config") = some ctx.policy.outputConfig) := by
  have hthinking := get?_stampAnthropicBody_thinking ctx.policy b
  have hmax := get?_stampAnthropicBody_maxTokens ctx.policy b
  have hout := get?_stampAnthropicBody_outputConfig ctx.policy b
  have henabled := isThinkingEnabled_forcedThinking ctx.policy (b.get? (js "thinking"))
  have hboth : forcedOn ctx.policy (b.get? (js "thinking")) = true →
      isThinkingEnabled (b.get? (js "thinking")) = false := by
    intro hforced
    unfold forcedOn at hforced
    cases hget : b.get? (js "thinking") with
    | none => rfl
    | some current =>
      rw [hget] at hforced
      simp only [Bool.and_eq_true] at hforced
      simp [isThinkingEnabled_eq, hforced.1.1]
  rcases stampModelRule_cases (isOpenAi_of_claudeCode hgate) hextra
    (stampAnthropicBody ctx.policy b).1 with hsame | ⟨rule, shape, hforces, hrevive⟩
  · have hafter : afterRule ctx b = (stampAnthropicBody ctx.policy b).1 := hsame
    rw [hafter, hthinking] at h
    rw [hafter, hmax, hout, h]
    rw [h] at henabled
    refine ⟨?_, fun hpolicy => by simp [hpolicy]⟩
    cases hforced : forcedOn ctx.policy (b.get? (js "thinking")) with
    | true => simp [hboth hforced]
    | false =>
      rw [hforced, Bool.or_false] at henabled
      simp [← henabled]
  · have hrec : (stampAnthropicBody ctx.policy b).1.isRecord = true := by
      obtain ⟨t, ht⟩ := Option.ne_none_iff_exists'.mp (isThinkingEnabled_ne_none h)
      have hwithin := within_applyIf ctx.rule.isSome (within_stampModelRule ctx)
      exact (hwithin.isRecord _).symm.trans (Json.isRecord_of_get? ht)
    have hafter : afterRule ctx b = _ := hrevive
    obtain ⟨_, hmax', hout'⟩ := get?_revive ctx.policy
      ((stampAnthropicBody ctx.policy b).1.get? (js "thinking")) hrec shape
    rw [hafter, hmax', hout', hthinking, hmax, hout, henabled]
    cases hforced : forcedOn ctx.policy (b.get? (js "thinking")) with
    | true => simp +contextual [hboth hforced]
    | false => cases isThinkingEnabled (b.get? (js "thinking")) <;> simp +contextual

/-- Forced thinking is enabled behind the rule. -/
theorem isThinkingEnabled_afterRule_of_forcedOn
    (h : forcedOn ctx.policy (b.get? (js "thinking")) = true) :
    isThinkingEnabled ((afterRule ctx b).get? (js "thinking")) = true := by
  have henabled := isThinkingEnabled_forcedThinking ctx.policy (b.get? (js "thinking"))
  rw [h, Bool.or_true, ← get?_stampAnthropicBody_thinking] at henabled
  obtain ⟨t, ht⟩ := Option.ne_none_iff_exists'.mp (isThinkingEnabled_ne_none henabled)
  rcases stampModelRule_cases (isOpenAi_of_claudeCode hgate) hextra
    (stampAnthropicBody ctx.policy b).1 with hsame | ⟨rule, shape, _, hrevive⟩
  · rw [afterRule, hsame]
    exact henabled
  · rw [afterRule, hrevive, (get?_revive ctx.policy _ (Json.isRecord_of_get? ht) shape).1]
    exact isThinkingEnabled_shape shape

omit hgate in
/-- A field neither step writes. -/
theorem get?_afterRule_of_ne {key : JsString}
    (hkey : key ∉ [js "max_tokens", js "thinking", js "output_config", js "reasoning_effort"]) :
    (afterRule ctx b).get? key = b.get? key := by
  have hrule := within_applyIf ctx.rule.isSome (within_stampModelRule ctx)
  have hkeys : key ∉ [js "thinking", js "max_tokens", js "output_config"] ++ ctx.extraKeys := by
    have hnone : ctx.extraKeys = [] := by
      unfold StampContext.extraKeys
      cases hr : ctx.rule with
      | none => rfl
      | some rule => simp [PerModelRule.extraKeys, hextra rule hr]
    rw [hnone, List.append_nil]
    simp only [List.mem_cons, List.not_mem_nil, or_false, not_or] at hkey ⊢
    exact ⟨hkey.2.1, hkey.1, hkey.2.2.1⟩
  exact (hrule.get? _ key hkeys).trans ((within_stampAnthropicBody ctx.policy).get? b key hkey)

end Stamped

section Active

variable {a : Json} (hgate : ctx.claudeCode = true)
  (h : isThinkingEnabled (a.get? (js "thinking")) = true)

include hgate h

/-- A field that only the OpenAI steps or none of the steps behind the rule
write. -/
theorem get?_stampBehindRule_of_ne {key : JsString}
    (hkey : key ∉ [js "context_management", js "top_k", Json.protoKey, js "temperature"]) :
    (stampBehindRule ctx a).1.get? key = a.get? key := by
  simp only [List.mem_cons, List.not_mem_nil, or_false, not_or] at hkey
  rw [stampBehindRule_of_enabled hgate h,
    (within_stampTemperature STAMP_TEMPERATURE_VALUE).get? _ key (by simp [hkey]),
    (within_applyIf ctx.policy.top_k.isSome (within_stampBodyTopK ctx)).get? _ key (by simp [hkey]),
    Json.get?_set_of_ne (Ne.symm hkey.1)]

theorem get?_stampBehindRule_contextManagement :
    (stampBehindRule ctx a).1.get? (js "context_management") =
      some STAMP_CONTEXT_MANAGEMENT_VALUE := by
  obtain ⟨t, ht⟩ := Option.ne_none_iff_exists'.mp (isThinkingEnabled_ne_none h)
  rw [stampBehindRule_of_enabled hgate h,
    (within_stampTemperature STAMP_TEMPERATURE_VALUE).get? _ _ (by decide),
    (within_applyIf ctx.policy.top_k.isSome (within_stampBodyTopK ctx)).get? _ _ (by decide),
    Json.get?_set_record (Json.isRecord_of_get? ht), if_pos rfl]

theorem propIs_stampBehindRule_temperature :
    (stampBehindRule ctx a).1.propIs (js "temperature") (.num STAMP_TEMPERATURE_VALUE) = true := by
  obtain ⟨t, ht⟩ := Option.ne_none_iff_exists'.mp (isThinkingEnabled_ne_none h)
  rw [stampBehindRule_of_enabled hgate h]
  have hrec : (applyIf ctx.policy.top_k.isSome (stampBodyTopK ctx)
      (a.set (js "context_management") STAMP_CONTEXT_MANAGEMENT_VALUE)).1.isRecord = true := by
    refine (within_applyIf ctx.policy.top_k.isSome (within_stampBodyTopK ctx)).record _ ?_
    rw [Json.isRecord_set, Json.isRecord_of_get? ht]
  simp only [stampTemperature, hrec, Bool.not_true, Bool.false_eq_true, if_false]
  split
  · assumption
  · unfold Json.propIs
    rw [Json.get?_set_record hrec, if_pos rfl]
    decide

/-- `top_k` is there behind the steps, the client's own if it had one. -/
theorem get?_stampBehindRule_topK (hpolicy : ctx.policy.top_k ≠ none)
    (hmodel : (extractModelName a).isSome = true) :
    ∃ v, (stampBehindRule ctx a).1.get? (js "top_k") = some v ∧
      ∀ w, a.get? (js "top_k") = some w → v = w := by
  have hcontext : ∀ key, js "context_management" ≠ key →
      (a.set (js "context_management") STAMP_CONTEXT_MANAGEMENT_VALUE).get? key = a.get? key :=
    fun key hne => Json.get?_set_of_ne hne _
  have hreasons : reasons ctx (a.set (js "context_management") STAMP_CONTEXT_MANAGEMENT_VALUE) =
      true := by
    rw [reasons, isOpenAi_of_claudeCode hgate, if_neg Bool.false_ne_true, hcontext _ (by decide), h]
  have hadds : addsTopK ctx.policy
      (a.set (js "context_management") STAMP_CONTEXT_MANAGEMENT_VALUE) =
      !a.has (js "top_k") := by
    have hname : extractModelName (a.set (js "context_management") STAMP_CONTEXT_MANAGEMENT_VALUE) =
        extractModelName a := by
      unfold extractModelName Json.str?
      rw [hcontext _ (by decide)]
    rw [addsTopK, hname, hmodel, Option.isSome_iff_ne_none.mpr hpolicy, Json.has, Json.has,
      hcontext _ (by decide)]
    rfl
  rw [stampBehindRule_of_enabled hgate h,
    (within_stampTemperature STAMP_TEMPERATURE_VALUE).get? _ _ (by decide), applyIf,
    if_pos (Option.isSome_iff_ne_none.mpr hpolicy), stampBodyTopK, if_pos hreasons, get?_stampTopK,
    hadds, hcontext _ (by decide)]
  cases hget : a.get? (js "top_k") with
  | none => exact ⟨.num STAMP_TOP_K_VALUE, by simp [Json.has, hget], fun w hw => by cases hw⟩
  | some w =>
    refine ⟨w, by simp [Json.has, hget], fun w' hw => ?_⟩
    rw [Option.some.injEq] at hw
    exact hw

end Active

/-! ## The body that leaves the pipeline -/

section Final

variable (hgate : ctx.claudeCode = true) (hextra : NoExtraBody ctx)

include hgate hextra

omit hextra in
/-- Thinking behind the rule is the thinking that leaves the pipeline. -/
theorem isThinkingEnabled_finalBody (body : Json) :
    isThinkingEnabled ((finalBody ctx body).get? (js "thinking")) =
      isThinkingEnabled ((afterRule ctx (blockBody ctx body)).get? (js "thinking")) := by
  rw [get?_finalBody_of_ne ctx body (by decide), stampFields_fst hgate]
  cases h : isThinkingEnabled ((afterRule ctx (blockBody ctx body)).get? (js "thinking")) with
  | true => rw [get?_stampBehindRule_of_ne hgate h (by decide), h]
  | false => rw [stampBehindRule_of_disabled hgate h, h]

/-- Thinking that leaves the pipeline has all of its fields but perhaps
`max_tokens`. -/
theorem stamped_of_enabled (body : Json)
    (hmodel : ctx.policy.top_k ≠ none → (extractModelName body).isSome = true)
    (h : isThinkingEnabled ((finalBody ctx body).get? (js "thinking")) = true)
    (hmax : forcedOn ctx.policy (body.get? (js "thinking")) = true →
      body.get? (js "max_tokens") = some (.num ctx.policy.max_tokens)) :
    StampedCompletely ctx.policy body (finalBody ctx body) := by
  rw [isThinkingEnabled_finalBody hgate] at h
  have hblock : ∀ key, js "system" ≠ key → js "messages" ≠ key →
      (blockBody ctx body).get? key = body.get? key :=
    fun key => get?_blockBody_of_ne ctx body
  obtain ⟨hmaxTokens, houtput⟩ := get?_afterRule hgate hextra h
  have hfinal : ∀ key, js "messages" ≠ key → (finalBody ctx body).get? key =
      (stampBehindRule ctx (afterRule ctx (blockBody ctx body))).1.get? key := by
    intro key hne
    rw [get?_finalBody_of_ne ctx body hne, stampFields_fst hgate]
  constructor
  · rw [hfinal _ (by decide), get?_stampBehindRule_of_ne hgate h (by decide), hmaxTokens,
      hblock _ (by decide) (by decide), hblock _ (by decide) (by decide)]
    split
    · exact hmax ‹_›
    · rfl
  · intro hthinking
    rw [hfinal _ (by decide), get?_stampBehindRule_of_ne hgate h (by decide), houtput hthinking]
  · rw [hfinal _ (by decide), get?_stampBehindRule_contextManagement hgate h]
  · have htemperature := propIs_stampBehindRule_temperature hgate h
    unfold Json.propIs at htemperature ⊢
    rw [hfinal _ (by decide)]
    exact htemperature
  · intro hpolicy
    have hname : extractModelName (afterRule ctx (blockBody ctx body)) = extractModelName body := by
      unfold extractModelName Json.str?
      rw [get?_afterRule_of_ne hextra (by decide), hblock _ (by decide) (by decide)]
    obtain ⟨v, hv, hkept⟩ := get?_stampBehindRule_topK hgate h hpolicy
      (by rw [hname]; exact hmodel hpolicy)
    refine ⟨v, (hfinal _ (by decide)).trans hv, fun w hw => hkept w ?_⟩
    rw [get?_afterRule_of_ne hextra (by decide), hblock _ (by decide) (by decide), hw]

theorem disabled_respected (body : Json) (hcan : ctx.policy.canDisableThinking = true)
    (hdisabled : isThinkingDisabled (body.get? (js "thinking")) = true) :
    ∀ key ∈ thinkingFields, (finalBody ctx body).get? key = body.get? key := by
  have hblock : ∀ key ∈ thinkingFields, (blockBody ctx body).get? key = body.get? key := by
    intro key hkey
    have hnot : ∀ k ∈ thinkingFields, js "system" ≠ k ∧ js "messages" ≠ k := by decide
    exact get?_blockBody_of_ne ctx body (hnot key hkey).1 (hnot key hkey).2
  intro key hkey
  have hne : ∀ k ∈ thinkingFields, js "messages" ≠ k := by decide
  rw [get?_finalBody_of_ne ctx body (hne key hkey), stampFields_of_disabled hgate hextra hcan
    (by rw [hblock _ (by decide)]; exact hdisabled) key hkey, hblock key hkey]

/-- The forced thinking that leaves the pipeline has the client's
`max_tokens`. -/
theorem maxTokens_of_forcedOn (body : Json)
    (h : forcedOn ctx.policy (body.get? (js "thinking")) = true) :
    isThinkingEnabled ((finalBody ctx body).get? (js "thinking")) = true ∧
      (finalBody ctx body).get? (js "max_tokens") = body.get? (js "max_tokens") := by
  have hblock : ∀ key, js "system" ≠ key → js "messages" ≠ key →
      (blockBody ctx body).get? key = body.get? key :=
    fun key => get?_blockBody_of_ne ctx body
  have hforced : forcedOn ctx.policy ((blockBody ctx body).get? (js "thinking")) = true := by
    rw [hblock _ (by decide) (by decide)]
    exact h
  have henabled := isThinkingEnabled_afterRule_of_forcedOn hgate hextra hforced
  refine ⟨(isThinkingEnabled_finalBody hgate body).trans henabled, ?_⟩
  rw [get?_finalBody_of_ne ctx body (by decide), stampFields_fst hgate,
    get?_stampBehindRule_of_ne hgate henabled (by decide),
    (get?_afterRule hgate hextra henabled).1, if_pos hforced, hblock _ (by decide) (by decide)]

end Final

/-- The policy has a `top_k` for named models only. -/
theorem extractModelName_of_topK (config : StampPipelineConfig) (catalog : Catalog) (body : Json)
    (h : (anthropicContext config catalog body).policy.top_k ≠ none) :
    (extractModelName body).isSome = true := by
  cases hname : extractModelName body with
  | some name => rfl
  | none =>
    have hpolicy : (anthropicContext config catalog body).policy = defaultPolicy := by
      simp [StampContext.policy, anthropicContext, hname, resolveStampPolicy]
    exact absurd (congrArg StampPolicy.top_k hpolicy) h

/-- `max_tokens` is not what goes with the thinking the model is forced into. -/
def MissesMaxTokens (policy : StampPolicy) (body : Json) : Prop :=
  forcedOn policy (body.get? (js "thinking")) = true ∧
    body.get? (js "max_tokens") ≠ some (.num policy.max_tokens)

/-- Every body the pipeline returns for a request respects its thinking. -/
def RespectsThinking (ctx : StampContext) (body : Json) : Prop :=
  ∀ out changed, runPipeline ctx body = .returned out changed →
    ThinkingRespected ctx.policy body out

/-- The client's own `max_tokens` leaves the pipeline beside the forced
thinking. -/
theorem not_respectsThinking (hgate : ctx.claudeCode = true) (hextra : NoExtraBody ctx)
    (hwalks : walks ctx body = true) (hmisses : MissesMaxTokens ctx.policy body) :
    ¬ RespectsThinking ctx body := by
  intro hrespects
  have hobj : body.isObject = true := by
    obtain ⟨hforced, _⟩ := hmisses
    unfold forcedOn at hforced
    cases hget : body.get? (js "thinking") with
    | none =>
      rw [hget] at hforced
      cases hforced
    | some t => exact Json.isObject_of_get? hget
  obtain ⟨changed, hrun⟩ := runPipeline_returned hobj hwalks
  obtain ⟨henabled, hmax⟩ := maxTokens_of_forcedOn hgate hextra body hmisses.1
  have hstamped := (hrespects _ changed hrun).active henabled
  exact hmisses.2 (hmax.symm.trans hstamped.maxTokens)

/-- A client's thinking is respected, and stamped completely where it is
active, unless it was forced on beside a `max_tokens` that is not the
policy's. -/
theorem thinking_respected_iff (config : StampPipelineConfig) (catalog : Catalog) (body : Json)
    (hcc : config.stampClaudeCode = true)
    (hextra : NoExtraBody (anthropicContext config catalog body)) :
    RespectsThinking (anthropicContext config catalog body) body ↔
      (walks (anthropicContext config catalog body) body = true →
        ¬ MissesMaxTokens (anthropicContext config catalog body).policy body) := by
  have hgate : (anthropicContext config catalog body).claudeCode = true := by
    simp [StampContext.claudeCode, anthropicContext, hcc]
  have hmodel := extractModelName_of_topK config catalog body
  generalize anthropicContext config catalog body = ctx at *
  constructor
  · intro hrespects hwalks hmisses
    exact not_respectsThinking hgate hextra hwalks hmisses hrespects
  · intro hkept out changed hrun
    cases hobj : body.isObject with
    | false =>
      rw [runPipeline_of_not_object ctx hobj] at hrun
      cases hrun
      have hnone : body.get? (js "thinking") = none := by
        cases body with
        | obj fields => cases hobj
        | _ => rfl
      constructor
      · intro _ hdisabled
        rw [hnone] at hdisabled
        cases hdisabled
      · intro henabled
        rw [hnone] at henabled
        cases henabled
    | true =>
      cases hwalks : walks ctx body with
      | false =>
        rw [runPipeline_threw hobj hwalks] at hrun
        cases hrun
      | true =>
        obtain ⟨changed', hreturned⟩ := runPipeline_returned hobj hwalks
        rw [hreturned] at hrun
        cases hrun
        refine ⟨disabled_respected hgate hextra body, fun henabled =>
          stamped_of_enabled hgate hextra body hmodel henabled fun hforced => ?_⟩
        by_contra hne
        exact hkept hwalks ⟨hforced, hne⟩

/-! ### Two requests -/

/-- The Claude Code bundle alone. -/
def claudeCodeConfig : StampPipelineConfig where
  stampClaudeCode := true
  stampModelRules := []
  stampReasoningEffort := none
  experimentStripOmoReminder := false

/-- A request to a model whose thinking cannot be disabled. -/
def coderRequest (thinking : String) : Json :=
  .obj [(js "model", .str (js "umans-coder")), (js "max_tokens", .num 1000),
    (js "thinking", .obj [(js "type", .str (js thinking))])]

theorem noExtraBody_claudeCodeConfig (body : Json) :
    NoExtraBody (anthropicContext claudeCodeConfig [] body) := by
  intro rule hrule
  unfold StampContext.rule resolvePerModelRule at hrule
  split at hrule <;> cases hrule

/-- Thinking is forced on, and 1000 tokens stay its limit. -/
theorem disabled_coder_misses_maxTokens :
    ¬ RespectsThinking (anthropicContext claudeCodeConfig [] (coderRequest "disabled"))
      (coderRequest "disabled") := by
  refine not_respectsThinking rfl (noExtraBody_claudeCodeConfig _) (by decide) ⟨by decide, ?_⟩
  intro heq
  have hget : (coderRequest "disabled").get? (js "max_tokens") = some (.num 1000) := by rfl
  rw [hget, Option.some.injEq, Json.num.injEq] at heq
  revert heq
  decide +kernel

/-- Thinking the client enabled gets the model's own limit. -/
theorem enabled_coder_respected :
    RespectsThinking (anthropicContext claudeCodeConfig [] (coderRequest "enabled"))
      (coderRequest "enabled") :=
  (thinking_respected_iff claudeCodeConfig [] (coderRequest "enabled") rfl
    (noExtraBody_claudeCodeConfig _)).mpr fun _ hmisses => by
      have hforced := hmisses.1
      revert hforced
      decide

end UmansGate.Stamp
