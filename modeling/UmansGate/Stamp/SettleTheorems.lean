/-
UmansGate.Stamp.SettleTheorems — the fields a second run of the pipeline
finds, and what it makes of them.

A field that only its own step writes is left alone by the second run, and
so is one whose step reads what the first run left as it was. What is left
is `max_tokens` and `output_config` on the Anthropic route, which go by the
client's thinking where it comes out as another, and thinking on the OpenAI
route, which goes by an effort that a later step or the rule may set.
-/
import UmansGate.Stamp.CoherenceTheorems

namespace UmansGate.Stamp

open UmansGate.Lib

variable {ctx : StampContext} {body v w : Json} {key : JsString} {thinking gated : Option Json}

/-- What the first run takes from the rule or from the client, the second one
takes too. -/
theorem given_again (h : v.get? key = ctx.given body key) :
    ctx.given v key = ctx.given body key := by
  unfold StampContext.given at h ⊢
  rw [h]
  cases ctx.stored key <;> rfl

/-! ## Thinking on the Anthropic route -/

/-- Thinking behind the shape of the rule on the Anthropic route. -/
def shapedBy (ctx : StampContext) (gated : Option Json) : Option Json :=
  match ctx.rule with
  | some rule =>
    if forcesAnthropic ctx.policy rule gated then
      (rule.anthropicThinkingShape.map ThinkingConfig.toJson).or gated
    else gated
  | none => gated

theorem ruledThinking_of_anthropic (hroute : ctx.isOpenAi = false) (body : Json) :
    ruledThinking ctx body = (ctx.stored (js "thinking")).or
      (shapedBy ctx (gatedThinking ctx (body.get? (js "thinking")))) := by
  unfold ruledThinking shapedBy gatedThinking
  cases ctx.rule with
  | none => rfl
  | some rule => simp only [shapedThinking, hroute, Bool.false_eq_true, if_false]

theorem revives_of_enabled (h : isThinkingEnabled thinking = true) :
    revives ctx thinking = false := by
  unfold revives
  cases ctx.rule with
  | none => rfl
  | some rule => simp [h]

/-- The rule leaves thinking alone, or forces its shape, as it then does with
any thinking that is enabled. -/
theorem shapedBy_cases (ctx : StampContext) (gated : Option Json) :
    (shapedBy ctx gated = gated ∧ revives ctx gated = false) ∨
      ∃ shape : ThinkingConfig, shapedBy ctx gated = some shape.toJson ∧
        revives ctx gated = (!isThinkingEnabled gated) ∧
        ∀ t, isThinkingEnabled t = true → shapedBy ctx t = some shape.toJson := by
  unfold shapedBy revives
  cases ctx.rule with
  | none => exact .inl ⟨rfl, rfl⟩
  | some rule =>
    simp only
    cases rule.anthropicThinkingShape with
    | none => exact .inl ⟨by simp, rfl⟩
    | some shape =>
      cases forcesAnthropic ctx.policy rule gated with
      | false => exact .inl ⟨rfl, rfl⟩
      | true =>
        refine .inr ⟨shape, rfl, rfl, fun t ht => ?_⟩
        rw [if_pos (by simp [forcesAnthropic, ht])]
        rfl

theorem forcedThinking_forcedThinking (policy : StampPolicy) (thinking : Option Json) :
    forcedThinking policy (forcedThinking policy thinking) = forcedThinking policy thinking := by
  cases thinking with
  | none => rfl
  | some current =>
    by_cases hforce : (!isNullish (some current) &&
        (!isThinkingDisabled (some current) || !policy.canDisableThinking) &&
        !thinkingEquals current policy.thinkingShape.toJson) = true
    · simp only [forcedThinking, hforce, if_true, thinkingEquals_shape, Bool.not_true,
        Bool.and_false, Bool.false_eq_true, if_false]
    · simp only [forcedThinking, if_neg hforce]

theorem gatedThinking_gatedThinking (ctx : StampContext) (thinking : Option Json) :
    gatedThinking ctx (gatedThinking ctx thinking) = gatedThinking ctx thinking := by
  unfold gatedThinking
  cases ctx.claudeCode with
  | false => rfl
  | true => exact forcedThinking_forcedThinking ctx.policy thinking

theorem isThinkingEnabled_gatedThinking (ctx : StampContext) (thinking : Option Json) :
    isThinkingEnabled (gatedThinking ctx thinking) =
      (isThinkingEnabled thinking || ctx.claudeCode && forcedOn ctx.policy thinking) := by
  unfold gatedThinking
  cases ctx.claudeCode with
  | false => simp
  | true => simpa using isThinkingEnabled_forcedThinking ctx.policy thinking

/-- Thinking that left the Anthropic route leaves it again. -/
theorem ruledThinking_again_anthropic (hroute : ctx.isOpenAi = false)
    (hget : v.get? (js "thinking") = ruledThinking ctx body) :
    ruledThinking ctx v = ruledThinking ctx body := by
  rw [ruledThinking_of_anthropic hroute v, hget, ruledThinking_of_anthropic hroute body]
  cases ctx.stored (js "thinking") with
  | some own => rfl
  | none =>
    simp only [Option.none_or]
    rcases shapedBy_cases ctx (gatedThinking ctx (body.get? (js "thinking"))) with
      ⟨hsame, -⟩ | ⟨shape, hshape, -, hagain⟩
    · rw [hsame, gatedThinking_gatedThinking, hsame]
    · rw [hshape]
      refine hagain _ ?_
      rw [isThinkingEnabled_gatedThinking, isThinkingEnabled_shape, Bool.true_or]

/-- The thinking a second run finds gets the policy's `max_tokens`: it is the
rule's own, or the client's that was forced on. -/
def stampsMaxTokensAgain (ctx : StampContext) (thinking : Option Json) : Bool :=
  match ctx.stored (js "thinking") with
  | some own => stampsMaxTokens ctx (some own)
  | none => ctx.claudeCode && forcedOn ctx.policy thinking

/-- It gets the policy's `output_config`. -/
def stampsOutputConfigAgain (ctx : StampContext) : Bool :=
  (ctx.stored (js "thinking")).any fun own => stampsOutputConfig ctx (some own)

theorem stampsMaxTokens_again (hroute : ctx.isOpenAi = false)
    (hno : stampsMaxTokens ctx (body.get? (js "thinking")) = false) :
    stampsMaxTokens ctx (ruledThinking ctx body) =
      stampsMaxTokensAgain ctx (body.get? (js "thinking")) := by
  rw [ruledThinking_of_anthropic hroute, stampsMaxTokensAgain]
  cases ctx.stored (js "thinking") with
  | some own => rfl
  | none =>
    rw [Option.none_or]
    have henabled := isThinkingEnabled_gatedThinking ctx (body.get? (js "thinking"))
    obtain ⟨hclient, hrevives⟩ := Bool.or_eq_false_iff.mp hno
    rcases shapedBy_cases ctx (gatedThinking ctx (body.get? (js "thinking"))) with
      ⟨hsame, -⟩ | ⟨shape, hshape, hrevived, -⟩
    · rw [hsame, stampsMaxTokens, gatedThinking_gatedThinking, hrevives, Bool.or_false, henabled,
        Bool.and_or_distrib_left, hclient, Bool.false_or, ← Bool.and_assoc, Bool.and_self]
    · -- The rule forced its shape on thinking that was on behind the step before.
      rw [hrevives, eq_comm, Bool.not_eq_false', henabled] at hrevived
      have hshaped : isThinkingEnabled (gatedThinking ctx (some shape.toJson)) = true := by
        rw [isThinkingEnabled_gatedThinking, isThinkingEnabled_shape, Bool.true_or]
      rw [hshape, stampsMaxTokens, revives_of_enabled hshaped, isThinkingEnabled_shape]
      cases hcc : ctx.claudeCode with
      | false => rfl
      | true =>
        rw [hcc, Bool.true_and] at hclient hrevived
        rw [hclient, Bool.false_or] at hrevived
        rw [hrevived]
        rfl

theorem stampsOutputConfig_again (hroute : ctx.isOpenAi = false)
    (hno : stampsOutputConfig ctx (body.get? (js "thinking")) = false) :
    stampsOutputConfig ctx (ruledThinking ctx body) = stampsOutputConfigAgain ctx := by
  rw [ruledThinking_of_anthropic hroute, stampsOutputConfigAgain]
  cases ctx.stored (js "thinking") with
  | some own => rfl
  | none =>
    rw [Option.none_or, Option.any_none]
    obtain ⟨hclient, hrevives⟩ := Bool.or_eq_false_iff.mp hno
    rcases shapedBy_cases ctx (gatedThinking ctx (body.get? (js "thinking"))) with
      ⟨hsame, -⟩ | ⟨shape, hshape, hrevived, -⟩
    · rw [hsame, stampsOutputConfig, gatedThinking_gatedThinking]
      exact hno
    · rw [hrevives, eq_comm, Bool.not_eq_false'] at hrevived
      have hshaped : isThinkingEnabled (gatedThinking ctx (some shape.toJson)) = true := by
        rw [isThinkingEnabled_gatedThinking, isThinkingEnabled_shape, Bool.true_or]
      rw [hshape, stampsOutputConfig, revives_of_enabled hshaped, hshaped, Bool.or_false]
      rw [hrevived] at hclient
      exact hclient

/-! ## Thinking on the OpenAI route -/

/-- The client's body with the fields of the rule's extra body. -/
def withExtra (ctx : StampContext) (body : Json) : Json :=
  match ctx.rule with
  | some rule => (mergeExtraBody rule body).1
  | none => body

theorem get?_withExtra (hrec : body.isRecord = true) (hproto : key ≠ Json.protoKey) :
    (withExtra ctx body).get? key = ctx.given body key := by
  unfold withExtra StampContext.given StampContext.stored
  cases ctx.rule with
  | none => rfl
  | some rule =>
    simp only [Option.bind_some, mergeExtraBody]
    cases rule.openaiExtraBody with
    | none => rfl
    | some extra => exact Json.get?_assignAll hrec fun h => absurd h hproto

section Signals

variable (hthinking : v.get? (js "thinking") = w.get? (js "thinking"))
  (heffort : v.get? (js "reasoning_effort") = w.get? (js "reasoning_effort"))

include hthinking heffort

theorem ruleSees_congr : ruleSees ctx v = ruleSees ctx w := by
  simp only [ruleSees, forcesOpenAi, hthinking, heffort]

theorem stampsReasoning_congr : stampsReasoning ctx v = stampsReasoning ctx w := by
  simp only [stampsReasoning, reasoningSkips, hthinking, heffort]

theorem setsEffort_congr : setsEffort ctx v = setsEffort ctx w := by
  rw [setsEffort, setsEffort, stampsReasoning_congr hthinking heffort]

end Signals

theorem isReasoningEffortDisabled_toJson (effort : Effort) :
    isReasoningEffortDisabled (some effort.toJson) = false := by
  cases effort <;> decide

/-- Thinking of the rule's own comes out again; a shape is not forced by the
second run only. -/
def ThinkingSettles (ctx : StampContext) (body : Json) : Prop :=
  ctx.stored (js "thinking") = none → ctx.openAiShape.isSome = true → ruleSees ctx body = false →
    ruleSees ctx (withExtra ctx body) = false ∧ setsEffort ctx (withExtra ctx body) = false

section OpenAi

variable (hroute : ctx.isOpenAi = true) (hrec : body.isRecord = true)

include hroute hrec

/-- The second run sees a signal where the rule's fields or the effort set by
the first one are one. -/
theorem ruleSees_again (hshape : ctx.openAiShape.isSome = true) (hsees : ruleSees ctx body = false) :
    ruleSees ctx (finalBody ctx body) =
      (ruleSees ctx (withExtra ctx body) || setsEffort ctx (withExtra ctx body)) := by
  have hthinking : ruledThinking ctx body = (withExtra ctx body).get? (js "thinking") := by
    rw [ruledThinking_of_isOpenAi hroute, hsees, if_neg Bool.false_ne_true,
      get?_withExtra hrec (by decide), StampContext.given]
  have heffort : (ruledRequest ctx body).get? (js "reasoning_effort") =
      (withExtra ctx body).get? (js "reasoning_effort") := by
    rw [get?_ruledRequest_openAi hroute hrec (by decide), get?_withExtra hrec (by decide)]
  have hsets : setsEffort ctx (ruledRequest ctx body) = setsEffort ctx (withExtra ctx body) :=
    setsEffort_congr ((get?_ruledRequest_thinking hrec).trans hthinking) heffort
  have hfinal := get?_finalBody_effort_openAi hroute hrec
  rw [hsets] at hfinal
  cases hset : setsEffort ctx (withExtra ctx body) with
  | false =>
    rw [hset, if_neg Bool.false_ne_true, ← get?_withExtra hrec (by decide)] at hfinal
    rw [Bool.or_false]
    exact ruleSees_congr ((get?_finalBody_thinking ctx hrec).trans hthinking) hfinal
  | true =>
    rw [hset, if_pos rfl] at hfinal
    rw [Bool.or_true]
    obtain ⟨rule, hrule⟩ := rule_of_openAiShape hshape
    simp [ruleSees, hrule, forcesOpenAi, hfinal, isReasoningEffortDisabled_toJson]

/-- Thinking that left the OpenAI route leaves it again where no new signal
is seen. -/
theorem ruledThinking_again_openAi (hsettles : ThinkingSettles ctx body) :
    ruledThinking ctx (finalBody ctx body) = ruledThinking ctx body := by
  have hget := get?_finalBody_thinking ctx hrec
  rw [ruledThinking_of_isOpenAi hroute (finalBody ctx body), hget,
    ruledThinking_of_isOpenAi hroute body]
  cases hstored : ctx.stored (js "thinking") with
  | some own => rfl
  | none =>
    simp only [Option.none_or]
    cases hshape : ctx.openAiShape with
    | none => simp
    | some shape =>
      cases hsees : ruleSees ctx body with
      | true => simp
      | false =>
        have hsome : ctx.openAiShape.isSome = true := by rw [hshape]; rfl
        obtain ⟨hextra, hset⟩ := hsettles hstored hsome hsees
        rw [ruleSees_again hroute hrec hsome hsees, hextra, hset]
        rfl

/-- Otherwise it comes out as the shape, which no thinking that is off is
deep-equal to. -/
theorem thinkingSettles_of_rel (hrel : Option.Rel Json.DeepEqual
    (ruledThinking ctx (finalBody ctx body)) (ruledThinking ctx body)) :
    ThinkingSettles ctx body := by
  intro hstored hshape hsees
  rw [← Bool.or_eq_false_iff, ← ruleSees_again hroute hrec hshape hsees]
  by_contra hagain
  obtain ⟨shape, hsome⟩ := Option.isSome_iff_exists.mp hshape
  rw [ruledThinking_of_isOpenAi hroute (finalBody ctx body), ruledThinking_of_isOpenAi hroute body,
    hstored, Option.none_or, Option.none_or, hsees, if_neg Bool.false_ne_true,
    if_pos (by simpa using hagain), hsome, Option.map_some, Option.some_or] at hrel
  generalize hget : body.get? (js "thinking") = o at hrel
  cases hrel with
  | some hequal =>
    have henabled := (isThinkingEnabled_congr hequal).symm.trans (isThinkingEnabled_shape shape)
    rw [← hget] at henabled
    rw [ruleSees_of_enabled henabled hshape] at hsees
    cases hsees

/-- Where thinking comes out again the step stamps again what it stamped. -/
theorem stampsReasoning_again
    (hagain : ruledThinking ctx (finalBody ctx body) = ruledThinking ctx body) :
    stampsReasoning ctx (ruledRequest ctx (finalBody ctx body)) =
        stampsReasoning ctx (ruledRequest ctx body) ∧
      setsEffort ctx (ruledRequest ctx (finalBody ctx body)) =
        setsEffort ctx (ruledRequest ctx body) := by
  have hrec' : (finalBody ctx body).isRecord = true := isRecord_finalBody hrec
  have hthinking : (ruledRequest ctx (finalBody ctx body)).get? (js "thinking") =
      (ruledRequest ctx body).get? (js "thinking") := by
    rw [get?_ruledRequest_thinking hrec', get?_ruledRequest_thinking hrec, hagain]
  have hfinal := get?_finalBody_effort_openAi hroute hrec
  have hgiven := get?_ruledRequest_openAi hroute hrec'
    (show js "reasoning_effort" ∉ [js "system", js "messages", js "thinking", Json.protoKey] by
      decide)
  have hsame : ctx.given (finalBody ctx body) (js "reasoning_effort") =
      ctx.given body (js "reasoning_effort") →
      stampsReasoning ctx (ruledRequest ctx (finalBody ctx body)) =
          stampsReasoning ctx (ruledRequest ctx body) ∧
        setsEffort ctx (ruledRequest ctx (finalBody ctx body)) =
          setsEffort ctx (ruledRequest ctx body) := by
    intro h
    have heffort := hgiven.trans (h.trans (get?_ruledRequest_openAi hroute hrec (by decide)).symm)
    exact ⟨stampsReasoning_congr hthinking heffort, setsEffort_congr hthinking heffort⟩
  cases hset : setsEffort ctx (ruledRequest ctx body) with
  | false =>
    rw [hset, if_neg Bool.false_ne_true] at hfinal
    rw [← hset]
    exact hsame (given_again hfinal)
  | true =>
    rw [hset, if_pos rfl] at hfinal
    cases hstored : ctx.stored (js "reasoning_effort") with
    | some own =>
      rw [← hset]
      refine hsame ?_
      rw [StampContext.given, StampContext.given, hstored]
      rfl
    | none =>
      rw [StampContext.given, hstored, hfinal, Option.none_or] at hgiven
      obtain ⟨hstamps, hveto⟩ := Bool.and_eq_true_iff.mp hset
      rw [Bool.not_eq_true'] at hveto
      have hopen := (Bool.and_eq_true_iff.mp hstamps).1
      have hagain' : stampsReasoning ctx (ruledRequest ctx (finalBody ctx body)) = true := by
        simp [stampsReasoning, hopen, reasoningSkips, hgiven, hveto,
          isReasoningEffortDisabled_toJson]
      rw [setsEffort, hagain', hstamps, hveto]
      exact ⟨rfl, rfl⟩

end OpenAi

/-! ## The other fields -/

/-- A stamp that is there already is made no second time, on the rule's field
or on the client's. -/
theorem or_again {f : Option Json → Option Json} (hf : ∀ x, f (f x) = f x) (own x : Option Json) :
    f (own.or (f (own.or x))) = f (own.or x) := by
  cases own with
  | some v => rfl
  | none => exact hf x

section Again

variable (hrec : body.isRecord = true)
  (hagain : ruledThinking ctx (finalBody ctx body) = ruledThinking ctx body)

include hrec

theorem given_again_of_notMem (hkey : key ∉ Json.protoKey :: stampedFields)
    (hsystem : key ≠ js "system") (hmessages : key ≠ js "messages") :
    ctx.given (finalBody ctx body) key = ctx.given body key :=
  given_again (get?_finalBody_given ctx hrec hkey hsystem hmessages)

theorem get?_again_streamOptions : (finalBody ctx (finalBody ctx body)).get? (js "stream_options") =
    (finalBody ctx body).get? (js "stream_options") := by
  have hgiven : ctx.given (finalBody ctx body) (js "stream_options") =
      (ctx.stored (js "stream_options")).or (stampedOptions ctx (ctx.given body (js "stream"))
        (ctx.given body (js "stream_options"))) := by
    rw [StampContext.given, get?_finalBody_streamOptions ctx hrec]
  rw [get?_finalBody_streamOptions ctx (isRecord_finalBody hrec), hgiven,
    given_again_of_notMem hrec (by decide) (by decide) (by decide),
    get?_finalBody_streamOptions ctx hrec]
  exact or_again (stampedOptions_stampedOptions ctx _) _ _

include hagain

theorem effortBehindRule_again (hroute : ctx.isOpenAi = true) :
    effortBehindRule ctx (finalBody ctx body) = effortBehindRule ctx body := by
  have hfinal := get?_finalBody_effort_openAi hroute hrec
  unfold effortBehindRule
  rw [hagain]
  cases hset : setsEffort ctx (ruledRequest ctx body) with
  | false =>
    rw [hset, if_neg Bool.false_ne_true] at hfinal
    rw [given_again hfinal]
  | true =>
    -- The effort was set beside another one, or for thinking.
    have hsome : (ctx.given (finalBody ctx body) (js "reasoning_effort")).isSome = true := by
      rw [hset, if_pos rfl] at hfinal
      rw [StampContext.given, hfinal, Option.isSome_or, Option.isSome_some, Bool.or_true]
    obtain ⟨hstamps, hveto⟩ := Bool.and_eq_true_iff.mp hset
    have hskips := (Bool.and_eq_true_iff.mp hstamps).2
    simp only [reasoningSkips, get?_ruledRequest_openAi hroute hrec
      (show js "reasoning_effort" ∉ [js "system", js "messages", js "thinking", Json.protoKey] by
        decide), get?_ruledRequest_thinking hrec] at hskips
    rw [hsome, Bool.true_or, eq_comm]
    cases hgiven : ctx.given body (js "reasoning_effort") with
    | some effort => rfl
    | none =>
      rw [hgiven] at hskips
      simp only [Bool.not_eq_true'] at hveto
      simpa [hveto, Bool.or_eq_false_iff, and_assoc] using hskips

/-- A second `top_k` is not stamped. -/
theorem getsTopK_again : getsTopK ctx (finalBody ctx body) = false := by
  have hmodel : ctx.given (finalBody ctx body) (js "model") = ctx.given body (js "model") :=
    given_again_of_notMem hrec (by decide) (by decide) (by decide)
  have hfinal := get?_finalBody_topK ctx hrec
  cases hgets : getsTopK ctx body with
  | true =>
    rw [hgets, if_pos rfl] at hfinal
    have hsome : (ctx.given (finalBody ctx body) (js "top_k")).isNone = false := by
      rw [StampContext.given, hfinal]
      cases ctx.stored (js "top_k") <;> rfl
    simp [getsTopK, hsome]
  | false =>
    rw [hgets, if_neg Bool.false_ne_true] at hfinal
    rw [← hgets, getsTopK, getsTopK, hmodel, given_again hfinal, hagain]
    cases hroute : ctx.isOpenAi with
    | false => rfl
    | true => rw [if_pos rfl, if_pos rfl, effortBehindRule_again hrec hagain hroute]

theorem get?_again_topK : (finalBody ctx (finalBody ctx body)).get? (js "top_k") =
    (finalBody ctx body).get? (js "top_k") := by
  have hfinal := get?_finalBody_topK ctx hrec
  rw [get?_finalBody_topK ctx (isRecord_finalBody hrec), getsTopK_again hrec hagain,
    if_neg Bool.false_ne_true]
  cases hgets : getsTopK ctx body with
  | false =>
    rw [hgets, if_neg Bool.false_ne_true] at hfinal
    rw [given_again hfinal, hfinal]
  | true =>
    have hnone : ctx.stored (js "top_k") = none := by
      simp only [getsTopK, Bool.and_eq_true, Option.isNone_iff_eq_none] at hgets
      exact (Option.or_eq_none_iff.mp hgets.1.2).1
    rw [StampContext.given, hnone, Option.none_or]

theorem get?_again_proto : (finalBody ctx (finalBody ctx body)).get? Json.protoKey =
    (finalBody ctx body).get? Json.protoKey := by
  rw [get?_finalBody_proto ctx (isRecord_finalBody hrec), getsTopK_again hrec hagain,
    if_neg Bool.false_ne_true, StampContext.given, get?_finalBody_proto ctx hrec]
  cases getsTopK ctx body with
  | true => rfl
  | false =>
    cases hown : (body.get? Json.protoKey).isSome with
    | false => rfl
    | true =>
      simp only [Bool.false_eq_true, if_false, if_true]
      unfold StampContext.given
      obtain ⟨v, hv⟩ := Option.isSome_iff_exists.mp hown
      rw [hv]
      cases ctx.stored Json.protoKey <;> rfl

end Again

/-! ## What the second run leaves -/

/-- A field stamped by the second run only is there already. -/
theorem rel_late (own x : Option Json) (first second : Bool) (value : Json) :
    Option.Rel Json.DeepEqual
        (own.or (if second then some value else own.or (if first then some value else x)))
        (own.or (if first then some value else x)) ↔
      (own = none → second = true → first = false → ∃ v, x = some v ∧ Json.DeepEqual value v) := by
  cases own with
  | some v => simp [Json.DeepEqual.refl]
  | none =>
    cases first with
    | true => cases second <;> simp [Json.DeepEqual.refl]
    | false =>
      cases second with
      | false => simp [Json.optionRel_refl]
      | true =>
        simp only [Option.none_or, if_true, Bool.false_eq_true, if_false, true_implies]
        constructor
        · intro hrel
          cases hrel with
          | some hequal => exact ⟨_, rfl, hequal⟩
        · rintro ⟨v, rfl, hequal⟩
          exact .some hequal

/-- The fields that go by thinking or bring it on are there behind the first
run, where the second one would stamp them. -/
structure FieldsSettle (ctx : StampContext) (body : Json) : Prop where
  maxTokens : ctx.isOpenAi = false → ctx.stored (js "max_tokens") = none →
    stampsMaxTokensAgain ctx (body.get? (js "thinking")) = true →
    stampsMaxTokens ctx (body.get? (js "thinking")) = false →
    body.get? (js "max_tokens") = some (.num ctx.policy.max_tokens)
  outputConfig : ctx.isOpenAi = false → ctx.stored (js "output_config") = none →
    stampsOutputConfigAgain ctx = true →
    stampsOutputConfig ctx (body.get? (js "thinking")) = false →
    ∃ config, body.get? (js "output_config") = some config ∧
      Json.DeepEqual ctx.policy.outputConfig config
  thinking : ctx.isOpenAi = true → ThinkingSettles ctx body

section Anthropic

variable (hroute : ctx.isOpenAi = false) (hrec : body.isRecord = true)

include hroute hrec

theorem rel_again_maxTokens : Option.Rel Json.DeepEqual
      ((finalBody ctx (finalBody ctx body)).get? (js "max_tokens"))
      ((finalBody ctx body).get? (js "max_tokens")) ↔
    (ctx.stored (js "max_tokens") = none →
      stampsMaxTokensAgain ctx (body.get? (js "thinking")) = true →
      stampsMaxTokens ctx (body.get? (js "thinking")) = false →
      body.get? (js "max_tokens") = some (.num ctx.policy.max_tokens)) := by
  have hvalue : (∃ v, body.get? (js "max_tokens") = some v ∧
      Json.DeepEqual (.num ctx.policy.max_tokens) v) ↔
      body.get? (js "max_tokens") = some (.num ctx.policy.max_tokens) := by
    constructor
    · rintro ⟨v, hv, hequal⟩
      cases hequal
      exact hv
    · intro hv
      exact ⟨_, hv, .refl _⟩
  rw [get?_finalBody_maxTokens hroute (isRecord_finalBody hrec), get?_finalBody_thinking ctx hrec,
    get?_finalBody_maxTokens hroute hrec, rel_late, hvalue]
  refine imp_congr_right fun _ => ⟨fun h hsecond hfirst => h ?_ hfirst, fun h hsecond hfirst =>
    h ?_ hfirst⟩
  · rw [stampsMaxTokens_again hroute hfirst]
    exact hsecond
  · rw [← stampsMaxTokens_again hroute hfirst]
    exact hsecond

theorem rel_again_outputConfig : Option.Rel Json.DeepEqual
      ((finalBody ctx (finalBody ctx body)).get? (js "output_config"))
      ((finalBody ctx body).get? (js "output_config")) ↔
    (ctx.stored (js "output_config") = none → stampsOutputConfigAgain ctx = true →
      stampsOutputConfig ctx (body.get? (js "thinking")) = false →
      ∃ config, body.get? (js "output_config") = some config ∧
        Json.DeepEqual ctx.policy.outputConfig config) := by
  rw [get?_finalBody_outputConfig hroute (isRecord_finalBody hrec),
    get?_finalBody_thinking ctx hrec, get?_finalBody_outputConfig hroute hrec, rel_late]
  refine imp_congr_right fun _ => ⟨fun h hsecond hfirst => h ?_ hfirst, fun h hsecond hfirst =>
    h ?_ hfirst⟩
  · rw [stampsOutputConfig_again hroute hfirst]
    exact hsecond
  · rw [← stampsOutputConfig_again hroute hfirst]
    exact hsecond

/-- The other fields of the Anthropic route. -/
theorem get?_again_anthropic (hagain : ruledThinking ctx (finalBody ctx body) = ruledThinking ctx body)
    (hkey : key ∈ [js "context_management", js "reasoning_effort", js "temperature"]) :
    (finalBody ctx (finalBody ctx body)).get? key = (finalBody ctx body).get? key := by
  have hrec' : (finalBody ctx body).isRecord = true := isRecord_finalBody hrec
  simp only [List.mem_cons, List.not_mem_nil, or_false] at hkey
  rcases hkey with rfl | rfl | rfl
  · have hfinal := get?_finalBody_contextManagement hroute hrec
    rw [get?_finalBody_contextManagement hroute hrec', hagain]
    split at hfinal
    · rw [if_pos ‹_›, hfinal]
    · rw [if_neg ‹_›, given_again hfinal, hfinal]
  · have hfinal := get?_finalBody_effort_anthropic hroute hrec
    rw [get?_finalBody_effort_anthropic hroute hrec']
    split at hfinal
    · rw [if_pos ‹_›, hfinal]
    · rw [if_neg ‹_›, given_again hfinal, hfinal]
  · have hfinal := get?_finalBody_temperature_anthropic hroute hrec
    rw [get?_finalBody_temperature_anthropic hroute hrec', hagain]
    split at hfinal
    · rw [if_pos ‹_›, StampContext.given, hfinal]
      exact or_again forcedTemperature_forcedTemperature _ _
    · rw [if_neg ‹_›, given_again hfinal, hfinal]

end Anthropic

/-- The fields that go with reasoning on the OpenAI route. -/
theorem get?_again_openAi (hroute : ctx.isOpenAi = true) (hrec : body.isRecord = true)
    (hagain : ruledThinking ctx (finalBody ctx body) = ruledThinking ctx body)
    (hkey : key ∈ [js "max_tokens", js "output_config", js "context_management",
      js "reasoning_effort", js "temperature"]) :
    (finalBody ctx (finalBody ctx body)).get? key = (finalBody ctx body).get? key := by
  have hrec' : (finalBody ctx body).isRecord = true := isRecord_finalBody hrec
  obtain ⟨hstamps, hsets⟩ := stampsReasoning_again hroute hrec hagain
  have hstripped : ∀ k, k = js "output_config" ∨ k = js "context_management" →
      (finalBody ctx (finalBody ctx body)).get? k = (finalBody ctx body).get? k := by
    intro k hk
    have hfinal := get?_finalBody_stripped hroute hrec hk
    rw [get?_finalBody_stripped hroute hrec' hk, hstamps]
    split at hfinal
    · rw [if_pos ‹_›, hfinal]
    · rw [if_neg ‹_›, given_again hfinal, hfinal]
  simp only [List.mem_cons, List.not_mem_nil, or_false] at hkey
  rcases hkey with rfl | rfl | rfl | rfl | rfl
  · have hfinal := get?_finalBody_maxTokens_openAi hroute hrec
    rw [get?_finalBody_maxTokens_openAi hroute hrec', given_again hfinal, hfinal]
  · exact hstripped _ (.inl rfl)
  · exact hstripped _ (.inr rfl)
  · have hfinal := get?_finalBody_effort_openAi hroute hrec
    rw [get?_finalBody_effort_openAi hroute hrec', hsets]
    split at hfinal
    · rw [if_pos ‹_›, hfinal]
    · rw [if_neg ‹_›, given_again hfinal, hfinal]
  · have hfinal := get?_finalBody_temperature_openAi hroute hrec
    rw [get?_finalBody_temperature_openAi hroute hrec', hstamps]
    split at hfinal
    · rw [if_pos ‹_›, StampContext.given, hfinal]
      exact or_again forcedTemperature_forcedTemperature _ _
    · rw [if_neg ‹_›, given_again hfinal, hfinal]

/-- Behind the second run every field but the system and the messages is what
it was, exactly if the fields settle. -/
theorem fieldsSettle_iff (hrec : body.isRecord = true) : FieldsSettle ctx body ↔
    ∀ key, key ≠ js "system" → key ≠ js "messages" → Option.Rel Json.DeepEqual
      ((finalBody ctx (finalBody ctx body)).get? key) ((finalBody ctx body).get? key) := by
  have hrec' : (finalBody ctx body).isRecord = true := isRecord_finalBody hrec
  have hthinking : (finalBody ctx (finalBody ctx body)).get? (js "thinking") =
      ruledThinking ctx (finalBody ctx body) := get?_finalBody_thinking ctx hrec'
  have hsame : ∀ {v w : Json} {key : JsString}, v.get? key = w.get? key →
      Option.Rel Json.DeepEqual (v.get? key) (w.get? key) := fun h => h ▸ Json.optionRel_refl _
  constructor
  · intro hsettle key hsystem hmessages
    have hagain : ruledThinking ctx (finalBody ctx body) = ruledThinking ctx body := by
      cases hroute : ctx.isOpenAi with
      | false => exact ruledThinking_again_anthropic hroute (get?_finalBody_thinking ctx hrec)
      | true => exact ruledThinking_again_openAi hroute hrec (hsettle.thinking hroute)
    by_cases hgiven : key ∉ Json.protoKey :: stampedFields
    · apply hsame
      have hfirst := get?_finalBody_given ctx hrec hgiven hsystem hmessages
      rw [get?_finalBody_given ctx hrec' hgiven hsystem hmessages, given_again hfirst, hfirst]
    · simp only [stampedFields, List.mem_cons, List.not_mem_nil, or_false, not_not] at hgiven
      rcases hgiven with rfl | rfl | rfl | rfl | rfl | rfl | rfl | rfl | rfl
      · exact hsame (get?_again_proto hrec hagain)
      · rw [hthinking, hagain, ← get?_finalBody_thinking ctx hrec]
        exact Json.optionRel_refl _
      · cases hroute : ctx.isOpenAi with
        | false => exact (rel_again_maxTokens hroute hrec).mpr (hsettle.maxTokens hroute)
        | true => exact hsame (get?_again_openAi hroute hrec hagain (by decide))
      · cases hroute : ctx.isOpenAi with
        | false => exact (rel_again_outputConfig hroute hrec).mpr (hsettle.outputConfig hroute)
        | true => exact hsame (get?_again_openAi hroute hrec hagain (by decide))
      · cases hroute : ctx.isOpenAi with
        | false => exact hsame (get?_again_anthropic hroute hrec hagain (by decide))
        | true => exact hsame (get?_again_openAi hroute hrec hagain (by decide))
      · cases hroute : ctx.isOpenAi with
        | false => exact hsame (get?_again_anthropic hroute hrec hagain (by decide))
        | true => exact hsame (get?_again_openAi hroute hrec hagain (by decide))
      · exact hsame (get?_again_topK hrec hagain)
      · cases hroute : ctx.isOpenAi with
        | false => exact hsame (get?_again_anthropic hroute hrec hagain (by decide))
        | true => exact hsame (get?_again_openAi hroute hrec hagain (by decide))
      · exact hsame (get?_again_streamOptions hrec)
  · intro hrel
    refine ⟨fun hroute => (rel_again_maxTokens hroute hrec).mp (hrel _ (by decide) (by decide)),
      fun hroute => (rel_again_outputConfig hroute hrec).mp (hrel _ (by decide) (by decide)),
      fun hroute => thinkingSettles_of_rel hroute hrec ?_⟩
    have hthought := hrel (js "thinking") (by decide) (by decide)
    rwa [hthinking, get?_finalBody_thinking ctx hrec] at hthought

end UmansGate.Stamp
