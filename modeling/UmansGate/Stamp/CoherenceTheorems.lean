/-
UmansGate.Stamp.CoherenceTheorems — whether the reasoning fields of a
request on the OpenAI route fit together when it leaves.

`PerModelRuleStep` asks for a reasoning signal before `stampReasoning` may
force one, and takes enabled thinking or an effort for it;
`stampReasoning` goes by the effort where there is one. So a request can
leave with thinking on and nothing stripped, and with an effort and without
the thinking of its rule.
-/
import UmansGate.Stamp.ShapeTheorems
import UmansGate.Stamp.ValueTheorems

namespace UmansGate.Stamp

open UmansGate.Lib

variable {ctx : StampContext} {body : Json} {key : JsString} {t w : Json}

/-! ## Coherent requests -/

/-- The rule's shape for the OpenAI route. -/
def StampContext.openAiShape (ctx : StampContext) : Option ThinkingConfig :=
  ctx.rule.bind PerModelRule.openaiThinkingShape

/-- The body has an active reasoning signal. -/
def ReasoningActive (out : Json) : Prop :=
  isThinkingEnabled (out.get? (js "thinking")) = true ∨
    isReasoningEffortDisabled (out.get? (js "reasoning_effort")) = false

/-- The fields beside the signal fit it. -/
structure Coherent (shape : Option ThinkingConfig) (out : Json) : Prop where
  stamped : ReasoningStamped out
  shaped : ∀ s ∈ shape, ∃ t, out.get? (js "thinking") = some t ∧ Json.DeepEqual t s.toJson

/-- Every body the pipeline returns fits its signal, if it has one. -/
def ReasoningCoherent (ctx : StampContext) (body : Json) : Prop :=
  ∀ out changed, runPipeline ctx body = .returned out changed → ReasoningActive out →
    Coherent ctx.openAiShape out

/-! ## What decides it -/

/-- `PerModelRuleStep` sees a reason to force the rule's shape. -/
def ruleSees (ctx : StampContext) (body : Json) : Bool :=
  ctx.rule.any fun rule => forcesOpenAi rule body

/-- Thinking is on behind the rule: the client's, or the shape it forces. -/
def thinkingOn (ctx : StampContext) (body : Json) : Bool :=
  isThinkingEnabled (body.get? (js "thinking")) || ctx.openAiShape.isSome && ruleSees ctx body

/-- `stampReasoning` respects the effort: the model has no thinking to go with
a missing one, or a disabled one may be. -/
def respectsEffort (ctx : StampContext) (body : Json) : Bool :=
  match body.get? (js "reasoning_effort") with
  | none => !ctx.policy.thinking
  | some effort => isReasoningEffortDisabled (some effort) && ctx.policy.canDisableThinking

/-- Thinking is on and the effort is respected, so nothing is stripped. -/
def LeftAlone (ctx : StampContext) (body : Json) : Prop :=
  thinkingOn ctx body = true ∧ respectsEffort ctx body = true

/-- An effort is forced where the rule saw no reasoning: beside a thinking of
`null`, or over a disabled effort of a model that cannot disable it. -/
structure ForcedBehindRule (ctx : StampContext) (body : Json) : Prop where
  shape : ctx.openAiShape.isSome = true
  unseen : ruleSees ctx body = false
  forced : match body.get? (js "reasoning_effort") with
    | none => body.get? (js "thinking") = some .null ∧ ctx.policy.thinking = true
    | some _ => ctx.policy.canDisableThinking = false

/-! ## Thinking by its value -/

theorem isThinkingEnabled_congr (h : Json.DeepEqual t w) :
    isThinkingEnabled (some t) = isThinkingEnabled (some w) := by
  have hnull : isNullish (some t) = isNullish (some w) := by
    cases h <;> rfl
  have hdisabled : isThinkingDisabled (some t) = isThinkingDisabled (some w) := by
    simp only [isThinkingDisabled, h.str?, h.propIs]
  rw [isThinkingEnabled_eq, isThinkingEnabled_eq, hnull, hdisabled]

/-- Only a shape is deep-equal to thinking that is a shape. -/
theorem not_deepEqual_shape {shape : ThinkingConfig} (h : isThinkingEnabled (some t) = false) :
    ¬ Json.DeepEqual t shape.toJson := by
  intro hequal
  rw [isThinkingEnabled_congr hequal, isThinkingEnabled_shape] at h
  cases h

/-! ## Thinking behind the rule -/

theorem isOpenAi_of_openAiReasoning (hopen : ctx.openAiReasoning = true) : ctx.isOpenAi = true := by
  simp only [StampContext.openAiReasoning, Bool.and_eq_true] at hopen
  exact hopen.1

/-- The rule's own thinking, the shape it forces, or the client's. -/
theorem ruledThinking_of_isOpenAi (hroute : ctx.isOpenAi = true) (body : Json) :
    ruledThinking ctx body = (ctx.stored (js "thinking")).or
      (if ruleSees ctx body then
        (ctx.openAiShape.map ThinkingConfig.toJson).or (body.get? (js "thinking"))
      else body.get? (js "thinking")) := by
  unfold ruledThinking ruleSees StampContext.openAiShape
  simp only [claudeCode_of_isOpenAi hroute, Bool.false_eq_true, if_false]
  cases ctx.rule with
  | none => rfl
  | some rule => simp only [shapedThinking, hroute, if_true, Option.any_some, Option.bind_some]

theorem rule_of_openAiShape (hshape : ctx.openAiShape.isSome = true) :
    ∃ rule, ctx.rule = some rule := by
  unfold StampContext.openAiShape at hshape
  cases hrule : ctx.rule with
  | none =>
    rw [hrule] at hshape
    cases hshape
  | some rule => exact ⟨rule, rfl⟩

/-- The rule sees thinking that is enabled. -/
theorem ruleSees_of_enabled (h : isThinkingEnabled (body.get? (js "thinking")) = true)
    (hshape : ctx.openAiShape.isSome = true) : ruleSees ctx body = true := by
  obtain ⟨rule, hrule⟩ := rule_of_openAiShape hshape
  simp [ruleSees, hrule, forcesOpenAi, h]

theorem stored_of_noExtraBody (hextra : NoExtraBody ctx) (key : JsString) :
    ctx.stored key = none := by
  unfold StampContext.stored
  cases hrule : ctx.rule with
  | none => rfl
  | some rule => simp [hextra rule hrule]

section Plain

variable (hopen : ctx.openAiReasoning = true) (hextra : NoExtraBody ctx)
  (hveto : (reasoningOptions ctx).vetoReasoningEffort = false)

include hopen hextra

theorem ruledThinking_openAi (body : Json) : ruledThinking ctx body =
    if ruleSees ctx body then
      (ctx.openAiShape.map ThinkingConfig.toJson).or (body.get? (js "thinking"))
    else body.get? (js "thinking") := by
  rw [ruledThinking_of_isOpenAi (isOpenAi_of_openAiReasoning hopen), stored_of_noExtraBody hextra,
    Option.none_or]

/-- What a plain rule leaves is the client's but for thinking. -/
theorem get?_ruledRequest_plain (hrec : body.isRecord = true)
    (hkey : key ∉ [js "system", js "messages", js "thinking", Json.protoKey]) :
    (ruledRequest ctx body).get? key = body.get? key := by
  rw [get?_ruledRequest_openAi (isOpenAi_of_openAiReasoning hopen) hrec hkey, StampContext.given,
    stored_of_noExtraBody hextra, Option.none_or]

theorem isThinkingEnabled_ruledThinking (body : Json) :
    isThinkingEnabled (ruledThinking ctx body) = thinkingOn ctx body := by
  rw [ruledThinking_openAi hopen hextra, thinkingOn]
  cases hshape : ctx.openAiShape with
  | none => simp
  | some shape =>
    cases hsees : ruleSees ctx body with
    | true => simp [isThinkingEnabled_shape]
    | false => simp

/-- Behind a shape that the rule did not force thinking is off. -/
theorem ruledThinking_of_unseen (hsees : ruleSees ctx body = false) :
    ruledThinking ctx body = body.get? (js "thinking") := by
  rw [ruledThinking_openAi hopen hextra, hsees, if_neg Bool.false_ne_true]

include hveto

/-- `stampReasoning` skips a request without a signal and one whose effort it
respects. -/
theorem reasoningSkips_ruledRequest (hrec : body.isRecord = true) :
    reasoningSkips ctx (ruledRequest ctx body) =
      match body.get? (js "reasoning_effort") with
      | none => (ruledThinking ctx body).isNone || isThinkingDisabled (ruledThinking ctx body) ||
          !ctx.policy.thinking
      | some _ => respectsEffort ctx body := by
  unfold reasoningSkips respectsEffort
  rw [get?_ruledRequest_thinking hrec, get?_ruledRequest_plain hopen hextra hrec (by decide), hveto]
  cases body.get? (js "reasoning_effort") with
  | none => simp [Bool.or_assoc]
  | some effort => simp

/-- Nothing is stripped from a request whose thinking is on exactly where the
effort is respected. -/
theorem leftAlone_iff (hrec : body.isRecord = true) : LeftAlone ctx body ↔
    reasoningSkips ctx (ruledRequest ctx body) = true ∧ thinkingOn ctx body = true := by
  rw [LeftAlone, and_comm, and_congr_left_iff]
  intro hon
  rw [reasoningSkips_ruledRequest hopen hextra hveto hrec, respectsEffort]
  rw [← isThinkingEnabled_ruledThinking hopen hextra] at hon
  cases body.get? (js "reasoning_effort") with
  | some effort => rfl
  | none =>
    rw [isThinkingEnabled_eq, Bool.and_eq_true, Bool.not_eq_true', Bool.not_eq_true'] at hon
    cases hthinking : ruledThinking ctx body with
    | none =>
      rw [hthinking] at hon
      cases hon.1
    | some t =>
      rw [hthinking] at hon
      simp [hon.2]

/-- An effort is forced behind the rule exactly where the step stamps and the
rule did not force its shape. -/
theorem forcedBehindRule_iff (hrec : body.isRecord = true) : ForcedBehindRule ctx body ↔
    reasoningSkips ctx (ruledRequest ctx body) = false ∧ ctx.openAiShape.isSome = true ∧
      ruleSees ctx body = false := by
  constructor
  · intro hp
    obtain ⟨hshape, hunseen, hforced⟩ := hp
    refine ⟨?_, hshape, hunseen⟩
    rw [reasoningSkips_ruledRequest hopen hextra hveto hrec, ruledThinking_of_unseen hopen hextra
      hunseen, respectsEffort]
    cases heffort : body.get? (js "reasoning_effort") with
    | none =>
      rw [heffort] at hforced
      obtain ⟨hnull, hpolicy⟩ := hforced
      rw [hnull, hpolicy]
      rfl
    | some effort =>
      rw [heffort] at hforced
      simp [show ctx.policy.canDisableThinking = false from hforced]
  · intro hp
    obtain ⟨hskips, hshape, hunseen⟩ := hp
    refine ⟨hshape, hunseen, ?_⟩
    have hoff : thinkingOn ctx body = false := by
      rw [← isThinkingEnabled_ruledThinking hopen hextra,
        ruledThinking_of_unseen hopen hextra hunseen]
      by_contra hon
      rw [ruleSees_of_enabled (by simpa using hon) hshape] at hunseen
      cases hunseen
    have hthinking : isThinkingEnabled (body.get? (js "thinking")) = false := by
      rw [thinkingOn, Bool.or_eq_false_iff] at hoff
      exact hoff.1
    rw [reasoningSkips_ruledRequest hopen hextra hveto hrec, ruledThinking_of_unseen hopen hextra
      hunseen, respectsEffort] at hskips
    cases heffort : body.get? (js "reasoning_effort") with
    | none =>
      rw [heffort] at hskips
      simp only [Bool.or_eq_false_iff, Bool.not_eq_false'] at hskips
      obtain ⟨⟨hsome, hdisabled⟩, hpolicy⟩ := hskips
      refine ⟨?_, hpolicy⟩
      cases hget : body.get? (js "thinking") with
      | none =>
        rw [hget] at hsome
        cases hsome
      | some t =>
        rw [hget] at hthinking hdisabled
        rw [isThinkingEnabled_eq, hdisabled, Bool.not_false, Bool.and_true,
          Bool.not_eq_false'] at hthinking
        cases t with
        | null => rfl
        | _ => cases hthinking
    | some effort =>
      rw [heffort] at hskips
      have hdisabled : isReasoningEffortDisabled (some effort) = true := by
        obtain ⟨rule, hrule, _⟩ : ∃ rule, ctx.rule = some rule ∧
            rule.openaiThinkingShape.isSome = true := by
          unfold StampContext.openAiShape at hshape
          cases hrule : ctx.rule with
          | none =>
            rw [hrule] at hshape
            cases hshape
          | some rule =>
            rw [hrule] at hshape
            exact ⟨rule, rfl, hshape⟩
        simp only [ruleSees, hrule, Option.any_some, forcesOpenAi, heffort, Bool.or_eq_false_iff,
          Bool.not_eq_false'] at hunseen
        exact hunseen.1.2
      simpa [hdisabled] using hskips

/-! ### The two cases of the step -/

/-- A skipped request leaves with the client's fields. -/
theorem coherent_of_skips (hrec : body.isRecord = true)
    (hskips : reasoningSkips ctx (ruledRequest ctx body) = true) :
    (ReasoningActive (finalBody ctx body) → Coherent ctx.openAiShape (finalBody ctx body)) ↔
      (thinkingOn ctx body = true → ReasoningStamped body) := by
  have hroute := isOpenAi_of_openAiReasoning hopen
  have hstamps : stampsReasoning ctx (ruledRequest ctx body) = false := by
    rw [stampsReasoning, hskips, Bool.not_true, Bool.and_false]
  have hthinking : (finalBody ctx body).get? (js "thinking") = ruledThinking ctx body :=
    get?_finalBody_thinking ctx hrec
  have hfield : ∀ key, key ∉ [js "messages", js "top_k", js "stream_options", Json.protoKey] →
      js "system" ≠ key → key ≠ js "thinking" → (finalBody ctx body).get? key = body.get? key := by
    intro key hkey hsystem hne
    simp only [List.mem_cons, List.not_mem_nil, or_false, not_or] at hkey
    rw [get?_finalBody_openAi hroute hrec (by simp [hkey]), reasoningBody_eq, hstamps,
      if_neg Bool.false_ne_true, get?_ruledRequest_plain hopen hextra hrec
      (by simp [hkey, Ne.symm hsystem, hne])]
  have heffort := hfield (js "reasoning_effort") (by decide) (by decide) (by decide)
  have hfields : ReasoningStamped (finalBody ctx body) ↔ ReasoningStamped body := by
    have htemperature : (finalBody ctx body).propIs (js "temperature")
        (.num STAMP_TEMPERATURE_VALUE) = body.propIs (js "temperature")
        (.num STAMP_TEMPERATURE_VALUE) := by
      unfold Json.propIs
      rw [hfield _ (by decide) (by decide) (by decide)]
    have hout := hfield (js "output_config") (by decide) (by decide) (by decide)
    have hcontext := hfield (js "context_management") (by decide) (by decide) (by decide)
    exact ⟨fun h => ⟨hout ▸ h.outputConfig, hcontext ▸ h.contextManagement,
        htemperature ▸ h.temperature⟩,
      fun h => ⟨hout.trans h.outputConfig, hcontext.trans h.contextManagement,
        htemperature.trans h.temperature⟩⟩
  -- An effort that is left alone is no signal.
  have hactive : ReasoningActive (finalBody ctx body) ↔ thinkingOn ctx body = true := by
    rw [ReasoningActive, hthinking, heffort, isThinkingEnabled_ruledThinking hopen hextra,
      or_iff_left_iff_imp]
    intro henabled
    rw [reasoningSkips_ruledRequest hopen hextra hveto hrec, respectsEffort] at hskips
    cases hget : body.get? (js "reasoning_effort") with
    | none =>
      rw [hget] at henabled
      cases henabled
    | some effort =>
      rw [hget] at henabled hskips
      simp only [henabled, Bool.false_and] at hskips
      cases hskips
  rw [hactive]
  refine imp_congr_right fun hon => ⟨fun h => hfields.mp h.stamped, fun h => ⟨hfields.mpr h, ?_⟩⟩
  intro s hs
  have hsees : ruleSees ctx body = true := by
    rw [thinkingOn, Bool.or_eq_true, Bool.and_eq_true] at hon
    rcases hon with henabled | hshaped
    · exact ruleSees_of_enabled henabled (by rw [Option.mem_def.mp hs]; rfl)
    · exact hshaped.2
  refine ⟨s.toJson, ?_, .refl _⟩
  rw [hthinking, ruledThinking_openAi hopen hextra, hsees, if_pos rfl, Option.mem_def.mp hs]
  rfl

/-- A stamped request fits its signal up to the rule's shape. -/
theorem coherent_of_stamps (hrec : body.isRecord = true)
    (hskips : reasoningSkips ctx (ruledRequest ctx body) = false) :
    (ReasoningActive (finalBody ctx body) → Coherent ctx.openAiShape (finalBody ctx body)) ↔
      ¬ (ctx.openAiShape.isSome = true ∧ ruleSees ctx body = false) := by
  have hroute := isOpenAi_of_openAiReasoning hopen
  have hstamps : stampsReasoning ctx (ruledRequest ctx body) = true := by
    rw [stampsReasoning, hskips, hopen]
    rfl
  have hsets : setsEffort ctx (ruledRequest ctx body) = true := by
    rw [setsEffort, hstamps, hveto]
    rfl
  have hruled : (ruledRequest ctx body).isRecord = true := isRecord_ruledRequest hrec
  have hthinking : (finalBody ctx body).get? (js "thinking") = ruledThinking ctx body :=
    get?_finalBody_thinking ctx hrec
  have hactive : ReasoningActive (finalBody ctx body) := by
    right
    rw [get?_finalBody_openAi hroute hrec (by decide), get?_reasoningBody_effort hruled, hsets,
      if_pos rfl]
    cases ctx.policy.effort <;> decide
  have hfields : ReasoningStamped (finalBody ctx body) := by
    have hset : ((ruledRequest ctx body).set (js "reasoning_effort")
        ctx.policy.effort.toJson).isRecord = true := by simp [hruled]
    have hstamped := reasoningStamped_stripForReasoning hset
    have hbody : reasoningBody ctx (ruledRequest ctx body) = (stripForReasoning
        ((ruledRequest ctx body).set (js "reasoning_effort") ctx.policy.effort.toJson)).1 := by
      rw [reasoningBody_eq, hstamps, if_pos rfl, hsets, if_pos rfl]
    refine ⟨?_, ?_, ?_⟩
    · rw [get?_finalBody_openAi hroute hrec (by decide), hbody, hstamped.outputConfig]
    · rw [get?_finalBody_openAi hroute hrec (by decide), hbody, hstamped.contextManagement]
    · have htemperature := hstamped.temperature
      rw [← hbody] at htemperature
      unfold Json.propIs at htemperature ⊢
      rw [get?_finalBody_openAi hroute hrec (by decide)]
      exact htemperature
  constructor
  · intro hcoherent hp
    obtain ⟨hshape, hunseen⟩ := hp
    obtain ⟨s, hs⟩ := Option.isSome_iff_exists.mp hshape
    obtain ⟨t, ht, hequal⟩ := (hcoherent hactive).shaped s hs
    rw [hthinking, ruledThinking_of_unseen hopen hextra hunseen] at ht
    cases henabled : isThinkingEnabled (some t) with
    | true =>
      rw [← ht] at henabled
      rw [ruleSees_of_enabled henabled hshape] at hunseen
      cases hunseen
    | false => exact not_deepEqual_shape henabled hequal
  · intro hseen _
    refine ⟨hfields, fun s hs => ⟨s.toJson, ?_, .refl _⟩⟩
    have hsees : ruleSees ctx body = true := by
      by_contra hunseen
      exact hseen ⟨by rw [Option.mem_def.mp hs]; rfl, (Bool.not_eq_true _).mp hunseen⟩
    rw [hthinking, ruledThinking_openAi hopen hextra, hsees, if_pos rfl, Option.mem_def.mp hs]
    rfl

/-- A request that is a record of fields. -/
theorem reasoningCoherent_record_iff (hrec : body.isRecord = true) :
    ReasoningCoherent ctx body ↔
      (LeftAlone ctx body → ReasoningStamped body) ∧ ¬ ForcedBehindRule ctx body := by
  have hwalks : walks ctx body = true := by 
    simp [walks, claudeCode_of_isOpenAi (isOpenAi_of_openAiReasoning hopen)]
  obtain ⟨changed, hrun⟩ := runPipeline_returned (Json.isObject_of_isRecord hrec) hwalks
  have hfinal : ReasoningCoherent ctx body ↔
      (ReasoningActive (finalBody ctx body) → Coherent ctx.openAiShape (finalBody ctx body)) := by
    constructor
    · intro h
      exact h _ changed hrun
    · intro h out changed' hout
      rw [hrun] at hout
      cases hout
      exact h
  rw [hfinal, leftAlone_iff hopen hextra hveto hrec, forcedBehindRule_iff hopen hextra hveto hrec]
  cases hskips : reasoningSkips ctx (ruledRequest ctx body) with
  | true =>
    rw [coherent_of_skips hopen hextra hveto hrec hskips]
    simp
  | false =>
    rw [coherent_of_stamps hopen hextra hveto hrec hskips]
    simp

end Plain

/-- The reasoning fields that leave the OpenAI route fit together exactly if
the request is not left alone with thinking on and fields that do not go with
it, and no effort is forced behind a rule that saw no reasoning. -/
theorem reasoningCoherent_iff (config : StampPipelineConfig) (catalog : Catalog) (body : Json)
    (heffort : config.stampReasoningEffort ≠ none)
    (hrule : ∀ rule, (requestContext config true catalog body).rule = some rule →
      rule.openaiVetoReasoningEffort = false ∧ rule.openaiExtraBody = none) :
    ReasoningCoherent (requestContext config true catalog body) body ↔
      (LeftAlone (requestContext config true catalog body) body → ReasoningStamped body) ∧
        ¬ ForcedBehindRule (requestContext config true catalog body) body := by
  cases hrec : body.isRecord with
  | true =>
    refine reasoningCoherent_record_iff ?_ (fun rule h => (hrule rule h).2) ?_ hrec
    · simp [StampContext.openAiReasoning, requestContext, Option.isSome_iff_ne_none.mpr heffort]
    · unfold reasoningOptions
      cases hmatch : (requestContext config true catalog body).rule with
      | none => rfl
      | some rule => exact (hrule rule hmatch).1
  | false =>
    have hget : ∀ key, body.get? key = none := Json.get?_of_not_record hrec
    have hnone : (requestContext config true catalog body).rule = none := by
      have hname : extractModelName body = none := by simp [extractModelName, Json.str?, hget]
      simp [StampContext.rule, requestContext, hname, resolvePerModelRule]
    have hshape : (requestContext config true catalog body).openAiShape = none := by
      rw [StampContext.openAiShape, hnone, Option.bind_none]
    refine iff_of_true ?_ ⟨fun hleft => ?_, fun hforced => ?_⟩
    · intro out changed hout hactive
      obtain ⟨changed', hrun⟩ := runPipeline_of_not_record
        (requestContext config true catalog body) hrec
      rw [hrun] at hout
      cases hout
      rw [ReasoningActive, hget, hget] at hactive
      rcases hactive with h | h <;> cases h
    · have hon := hleft.1
      rw [thinkingOn, hget, hshape] at hon
      cases hon
    · have hsome := hforced.shape
      rw [hshape] at hsome
      cases hsome

/-! ### A model that cannot disable its thinking -/

theorem mem_of_rule {rule : PerModelRule} (h : ctx.rule = some rule) :
    rule ∈ ctx.config.stampModelRules := by
  unfold StampContext.rule resolvePerModelRule at h
  cases hname : ctx.modelName with
  | none =>
    rw [hname] at h
    cases h
  | some name =>
    rw [hname] at h
    exact List.mem_of_find?_eq_some h

/-- The reasoning bundle and a plain rule for one model. -/
def kimiConfig : StampPipelineConfig where
  stampClaudeCode := true
  stampModelRules := [{
    pattern := js "umans-kimi-k2.7"
    anthropicThinkingShape := none
    openaiThinkingShape := some .enabledKeep
    openaiExtraBody := none
    openaiVetoReasoningEffort := false
    forceThinkingWhenAbsent := false }]
  stampReasoningEffort := some .high
  experimentStripOmoReminder := false

/-- A request to it. -/
def kimiRequest (effort : String) : Json :=
  .obj [(js "model", .str (js "umans-kimi-k2.7")), (js "reasoning_effort", .str (js effort))]

theorem rule_kimiConfig (effort : String) (rule : PerModelRule)
    (h : (requestContext kimiConfig true [] (kimiRequest effort)).rule = some rule) :
    rule.openaiVetoReasoningEffort = false ∧ rule.openaiExtraBody = none := by
  have hmem := mem_of_rule h
  rw [requestContext, kimiConfig, List.mem_singleton] at hmem
  rw [hmem]
  exact ⟨rfl, rfl⟩

/-- The effort is forced, and the request leaves without the thinking of its
rule. -/
theorem none_effort_forced_alone :
    ¬ ReasoningCoherent (requestContext kimiConfig true [] (kimiRequest "none"))
      (kimiRequest "none") := by
  intro hcoherent
  have hopen : (requestContext kimiConfig true [] (kimiRequest "none")).openAiReasoning = true := by
    decide
  have hiff := reasoningCoherent_record_iff hopen
    (fun rule h => (rule_kimiConfig "none" rule h).2) (by decide)
    (show (kimiRequest "none").isRecord = true from rfl)
  have hcan : (requestContext kimiConfig true [] (kimiRequest "none")).policy.canDisableThinking =
      false := by decide
  exact (hiff.mp hcoherent).2 ⟨by decide, by decide, hcan⟩

/-- An effort the rule sees comes with it. -/
theorem low_effort_coherent :
    ReasoningCoherent (requestContext kimiConfig true [] (kimiRequest "low"))
      (kimiRequest "low") := by
  have hrespects : respectsEffort (requestContext kimiConfig true [] (kimiRequest "low"))
      (kimiRequest "low") = false := by decide
  have hsees : ruleSees (requestContext kimiConfig true [] (kimiRequest "low"))
      (kimiRequest "low") = true := by decide
  refine (reasoningCoherent_iff kimiConfig [] (kimiRequest "low") (by decide)
    (rule_kimiConfig "low")).mpr ⟨fun hleft => ?_, fun hforced => ?_⟩
  · rw [LeftAlone, hrespects] at hleft
    cases hleft.2
  · have hunseen := hforced.unseen
    rw [hsees] at hunseen
    cases hunseen

end UmansGate.Stamp
