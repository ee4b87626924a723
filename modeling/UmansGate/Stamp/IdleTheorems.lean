/-
UmansGate.Stamp.IdleTheorems — the bodies that carry every stamp already,
and that these are the ones each step leaves alone.

There is one condition for each step, on the client's body.
-/
import UmansGate.Stamp.BlockFrameTheorems
import UmansGate.Stamp.ThinkingTheorems

namespace UmansGate.Stamp

open UmansGate.Lib

variable {ctx : StampContext} {body b m : Json} {messages blocks content : List Json}
  {lastUser : Option ℕ} {mi : ℕ} {policy : StampPolicy}

/-! ## `RestampBreakpointsStep` -/

theorem stripBreakpoint_eq_self_iff (b : Json) : stripBreakpoint b = b ↔ hasBreakpoint b = false := by
  constructor
  · intro heq
    rw [← heq]
    exact hasBreakpoint_stripBreakpoint b
  · intro hno
    exact restampBlock_eq_self hno

theorem withBreakpoint_eq_self_iff (b : Json) : withBreakpoint b = b ↔ hasBreakpoint b = true := by
  constructor
  · intro heq
    rw [← heq]
    exact hasBreakpoint_withBreakpoint b
  · intro hyes
    exact restampBlock_eq_self hyes

/-- A map changes nothing exactly if it changes no element. -/
theorem map_eq_self_iff (f : Json → Json) (items : List Json) :
    items.map f = items ↔ ∀ x ∈ items, f x = x := by
  induction items with
  | nil => simp
  | cons x items ih => simp [ih]

/-- The system is in Layout B: no block but the first carries a breakpoint, and
the first does if it is a text block. -/
def SystemInLayout (blocks : List Json) : Prop :=
  ∀ b rest, blocks = b :: rest → (isTextBlock b = some true → hasBreakpoint b = true) ∧
    ∀ x ∈ rest, hasBreakpoint x = false

theorem restampBlocks_eq_self_iff (blocks : List Json) :
    restampBlocks blocks = blocks ↔ SystemInLayout blocks := by
  cases blocks with
  | nil => simp [restampBlocks, SystemInLayout]
  | cons b rest =>
    have htail : rest.map stripBreakpoint = rest ↔ ∀ x ∈ rest, hasBreakpoint x = false := by
      simp [map_eq_self_iff, stripBreakpoint_eq_self_iff]
    have hhead : (if isTextBlock b = some true then withBreakpoint b else b) = b ↔
        (isTextBlock b = some true → hasBreakpoint b = true) := by
      split
      · rename_i htext
        simp [htext, withBreakpoint_eq_self_iff]
      · rename_i htext
        simp [htext]
    rw [restampBlocks, List.cons.injEq, hhead, htail]
    constructor
    · rintro hlaid _ _ ⟨rfl, rfl⟩
      exact hlaid
    · exact fun hlaid => hlaid b rest rfl

theorem restampContent_eq_self_iff (lastUser : Option ℕ) (mi : ℕ) (content : List Json) :
    restampContent lastUser mi content = content ↔ ContentLaidOut (lastUser = some mi) content := by
  rcases List.eq_nil_or_concat content with rfl | ⟨init, b, rfl⟩
  · refine iff_of_true rfl fun init b heq => ?_
    simp at heq
  rw [List.concat_eq_append]
  have hinit : init.map stripBreakpoint = init ↔ ∀ x ∈ init, hasBreakpoint x = false := by
    simp [map_eq_self_iff, stripBreakpoint_eq_self_iff]
  have hlast : restampBlock (decide (lastUser = some mi)) b = b ↔
      (hasBreakpoint b = true ↔ lastUser = some mi) := by
    by_cases hmi : lastUser = some mi
    · simp [hmi, restampBlock, withBreakpoint_eq_self_iff]
    · simp [hmi, restampBlock, stripBreakpoint_eq_self_iff]
  constructor
  · intro heq init' b' hconcat
    rw [restampContent_concat] at heq
    obtain ⟨hstrip, hblock⟩ := List.append_inj' heq rfl
    obtain ⟨rfl, hb⟩ := List.append_inj' hconcat rfl
    cases hb
    exact ⟨hlast.mp (List.singleton_inj.mp hblock), hinit.mp hstrip⟩
  · intro hlaid
    obtain ⟨hblock, hstrip⟩ := hlaid init b rfl
    rw [restampContent_concat, hinit.mpr hstrip, hlast.mpr hblock]

theorem restampMessages_eq_self_iff (messages : List Json) :
    restampMessages messages = messages ↔ LaidOut messages := by
  unfold restampMessages LaidOut
  constructor
  · intro heq mi m content hm hcontent
    have hget := congrArg (fun l : List Json => l[mi]?) heq
    simp only [List.getElem?_mapIdx, hm, Option.map_some, Option.some.injEq] at hget
    rw [← lastUserIdx_eq_some]
    exact (restampContent_eq_self_iff _ mi content).mp
      (Json.mapItems_eq_self_iff.mp hget content hcontent)
  · intro hlaid
    apply List.ext_getElem?
    intro mi
    rw [List.getElem?_mapIdx]
    cases hm : messages[mi]? with
    | none => rfl
    | some m =>
      refine congrArg some (Json.mapItems_eq_self fun content hcontent => ?_)
      rw [restampContent_eq_self_iff, lastUserIdx_eq_some]
      exact hlaid mi m content hm hcontent

/-- The body is in Layout B. -/
structure InLayout (body : Json) : Prop where
  system : ∀ blocks, body.items? (js "system") = some blocks → SystemInLayout blocks
  messages : ∀ messages, body.items? (js "messages") = some messages → LaidOut messages

theorem layoutBody_eq_self_iff (body : Json) :
    layoutBody body = body ↔ (hasMessages body = true → InLayout body) := by
  unfold layoutBody
  cases hasMessages body with
  | false => simp
  | true =>
    rw [if_pos rfl, restampedBody, Json.mapItems_mapItems_eq_self_iff (by decide)]
    simp only [restampBlocks_eq_self_iff, restampMessages_eq_self_iff, true_implies]
    exact ⟨fun h => ⟨h.1, h.2⟩, fun h => ⟨h.1, h.2⟩⟩

/-! ## `CacheTtlStep` -/

theorem lacksTtl_stampBlockTtl (b : Json) :
    lacksTtl (stampBlockTtl STAMP_CACHE_TTL_VALUE b) = false := by
  unfold stampBlockTtl
  split
  · rename_i cc hcc
    split
    · rename_i hlacks
      have hcc' : (b.set (js "cache_control") (cc.set (js "ttl") (.str STAMP_CACHE_TTL_VALUE))).get?
          (js "cache_control") = some (cc.set (js "ttl") (.str STAMP_CACHE_TTL_VALUE)) :=
        Json.get?_set hcc _
      unfold lacksTtl at hlacks ⊢
      simp only [hcc', hcc, Bool.and_eq_true] at hlacks ⊢
      have hrec : cc.isRecord = true := by
        cases cc with
        | obj fields => rfl
        | _ => exact absurd hlacks.1 (by simp [Json.propIs, Json.get?])
      rw [Json.get?_set_record hrec, if_pos rfl]
      have htruthy : (Json.str STAMP_CACHE_TTL_VALUE).truthy = true := by decide
      simp [htruthy]
    · rename_i hlacks
      simpa using hlacks
  · rename_i hnone
    simp [lacksTtl, hnone]

theorem stampBlockTtl_eq_self_iff (b : Json) :
    stampBlockTtl STAMP_CACHE_TTL_VALUE b = b ↔ lacksTtl b = false := by
  constructor
  · intro heq
    rw [← heq]
    exact lacksTtl_stampBlockTtl b
  · intro hno
    unfold stampBlockTtl
    split <;> simp [hno]

/-- Every breakpoint has a ttl. -/
structure HasTtls (body : Json) : Prop where
  system : ∀ blocks, body.items? (js "system") = some blocks → ∀ b ∈ blocks, lacksTtl b = false
  messages : ∀ messages, body.items? (js "messages") = some messages → ∀ m ∈ messages,
    ∀ content, m.items? (js "content") = some content → ∀ b ∈ content, lacksTtl b = false

theorem ttlBody_eq_self_iff (hiterates : iterates body = true) :
    ttlBody body = body ↔ HasTtls body := by
  have hnulls : ∀ messages, body.items? (js "messages") = some messages →
      messages.any isNull = false := by
    intro messages hitems
    simpa [iterates, Json.items?_eq_some.mp hitems] using hiterates
  have hmap : ∀ blocks : List Json, blocks.map (stampBlockTtl STAMP_CACHE_TTL_VALUE) = blocks ↔
      ∀ b ∈ blocks, lacksTtl b = false := fun blocks => by
    simp [map_eq_self_iff, stampBlockTtl_eq_self_iff]
  rw [ttlBody, Json.mapItems_mapItems_eq_self_iff (by decide)]
  constructor
  · intro hp
    obtain ⟨hsystem, hmessages⟩ := hp
    refine ⟨fun blocks hblocks => (hmap blocks).mp (hsystem blocks hblocks),
      fun messages hitems m hm content hcontent => ?_⟩
    have hloop := hmessages messages hitems
    rw [stampTtlMessages_fst _ (hnulls messages hitems), map_eq_self_iff] at hloop
    exact (hmap content).mp (Json.mapItems_eq_self_iff.mp (hloop m hm) content hcontent)
  · intro httls
    refine ⟨fun blocks hblocks => (hmap blocks).mpr (httls.system blocks hblocks),
      fun messages hitems => ?_⟩
    rw [stampTtlMessages_fst _ (hnulls messages hitems), map_eq_self_iff]
    intro m hm
    exact Json.mapItems_eq_self fun content hcontent =>
      (hmap content).mpr (httls.messages messages hitems m hm content hcontent)

/-! ## `AnthropicBodyStep` -/

theorem thinkingEquals_shape (shape : ThinkingConfig) :
    thinkingEquals shape.toJson shape.toJson = true := by
  cases shape with
  | enabledClear clear => cases clear <;> decide
  | _ => decide

/-- Thinking, its fields and its effort are the policy's. -/
structure AnthropicStamped (policy : StampPolicy) (body : Json) : Prop where
  maxTokens : isThinkingEnabled (body.get? (js "thinking")) = true →
    body.get? (js "max_tokens") = some (.num policy.max_tokens)
  thinking : ∀ current, body.get? (js "thinking") = some current →
    isNullish (some current) = false →
    (isThinkingDisabled (some current) = false ∨ policy.canDisableThinking = false) →
    thinkingEquals current policy.thinkingShape.toJson = true
  outputConfig : isThinkingEnabled (body.get? (js "thinking")) = true → policy.thinking = true →
    body.get? (js "output_config") = some policy.outputConfig
  effort : body.get? (js "reasoning_effort") = none

theorem strip_fst (key : JsString) (body : Json) : (strip key body).1 = body.remove key := by
  unfold strip
  split
  · rfl
  · rename_i hno
    rw [Json.has, Option.not_isSome_iff_eq_none] at hno
    exact (Json.remove_eq_self hno).symm

/-- Stripping leaves a body without the field alone, and no other. -/
theorem strip_eq_self_iff (key : JsString) (body : Json) :
    (strip key body).1 = body ↔ body.get? key = none := by
  rw [strip_fst]
  constructor
  · intro heq
    rw [← heq, Json.get?_remove, if_pos rfl]
  · exact Json.remove_eq_self

theorem forceThinking_eq_self (h : ∀ current, body.get? (js "thinking") = some current →
    isNullish (some current) = false →
    (isThinkingDisabled (some current) = false ∨ policy.canDisableThinking = false) →
    thinkingEquals current policy.thinkingShape.toJson = true) :
    (forceThinking true policy body).1 = body := by
  unfold forceThinking
  cases hget : body.get? (js "thinking") with
  | none => rfl
  | some current =>
    simp only
    split
    · rename_i hforce
      simp only [Bool.true_and, Bool.and_eq_true, Bool.not_eq_true', Bool.or_eq_true] at hforce
      rw [if_pos (h current hget hforce.1 hforce.2)]
    · rfl

theorem stampAnthropicBody_eq_self_iff (policy : StampPolicy) (body : Json) :
    (stampAnthropicBody policy body).1 = body ↔ AnthropicStamped policy body := by
  constructor
  · intro heq
    have hmax := get?_stampAnthropicBody_maxTokens policy body
    have hthinking := get?_stampAnthropicBody_thinking policy body
    have hout := get?_stampAnthropicBody_outputConfig policy body
    rw [heq] at hmax hthinking hout
    rw [← hthinking] at hout
    refine ⟨fun henabled => ?_, fun current hcurrent hnullish hforce => ?_,
      fun henabled hpolicy => ?_, ?_⟩
    · rw [hmax, if_pos henabled]
    · by_contra hne
      have hshape : some current = some policy.thinkingShape.toJson := by
        rw [← hcurrent, hthinking, hcurrent, forcedThinking, if_pos]
        simp only [Bool.and_eq_true, Bool.not_eq_true', Bool.or_eq_true]
        exact ⟨⟨hnullish, hforce⟩, by simpa using hne⟩
      rw [Option.some.injEq] at hshape
      rw [hshape] at hne
      exact hne (thinkingEquals_shape policy.thinkingShape)
    · rw [hout, henabled, hpolicy]
      rfl
    · rw [← heq]
      exact (congrArg (Json.get? · _) (strip_fst _ _)).trans
        ((Json.get?_remove _ _ _).trans (if_pos rfl))
  · intro hstamped
    have hmax : (stampMaxTokens true policy body).1 = body := by
      unfold stampMaxTokens
      split
      · rename_i henabled
        exact Json.set_eq_self (hstamped.maxTokens (by simpa using henabled))
      · rfl
    have hforce := forceThinking_eq_self hstamped.thinking
    have hout : (stampOutputConfig (.config policy.effort) policy body).1 = body := by
      unfold stampOutputConfig
      split
      · rename_i henabled
        rw [Bool.and_eq_true] at henabled
        exact Json.set_eq_self (hstamped.outputConfig henabled.1 henabled.2)
      · rfl
    have hstrip := (strip_eq_self_iff (js "reasoning_effort") body).mpr hstamped.effort
    show (strip (js "reasoning_effort") (stampOutputConfig (.config policy.effort) policy
      (forceThinking true policy (stampMaxTokens true policy body).1).1).1).1 = body
    rw [hmax, hforce, hout, hstrip]

/-! ## `PerModelRuleStep` -/

/-- The fields of the shape a rule forces. -/
def shapeEntries (ctx : StampContext) (rule : PerModelRule) (body : Json) : Fields :=
  let existing := body.get? (js "thinking")
  if ctx.isOpenAi then
    match rule.openaiThinkingShape with
    | some shape => if forcesOpenAi rule body then [(js "thinking", shape.toJson)] else []
    | none => []
  else
    match rule.anthropicThinkingShape with
    | some shape =>
      if forcesAnthropic ctx.policy rule existing then
        (js "thinking", shape.toJson) ::
          if isThinkingEnabled existing then []
          else [(js "max_tokens", .num ctx.policy.max_tokens),
            (js "output_config", ctx.policy.outputConfig)]
      else []
    | none => []

/-- The fields a rule brings, the later of two under one key before the
earlier. -/
def ruleEntries (ctx : StampContext) (body : Json) : Fields :=
  match ctx.rule with
  | some rule => shapeEntries ctx rule body ++ rule.openaiExtraBody.getD []
  | none => []

theorem applyThinkingShape_fst (ctx : StampContext) (rule : PerModelRule) (body : Json) :
    (applyThinkingShape ctx rule body).1 = body.assignAll (shapeEntries ctx rule body) := by
  have hassign : ∀ key ∈ [js "thinking", js "max_tokens", js "output_config"],
      ∀ (v value : Json), v.assign key value = v.set key value := by
    intro key hkey v value
    have hne : ∀ key ∈ [js "thinking", js "max_tokens", js "output_config"],
        key ≠ Json.protoKey := by decide
    exact Json.assign_of_ne_proto (hne key hkey) value
  unfold applyThinkingShape shapeEntries revive
  simp only
  split
  · cases rule.openaiThinkingShape with
    | none => rfl
    | some shape =>
      simp only
      split
      · simp [Json.assignAll, hassign]
      · rfl
  · cases rule.anthropicThinkingShape with
    | none => rfl
    | some shape =>
      simp only
      split
      · split <;> simp [Json.assignAll, hassign]
      · rfl

theorem stampModelRule_eq_self_iff (hrec : body.isRecord = true) :
    (applyIf ctx.rule.isSome (stampModelRule ctx) body).1 = body ↔
      body.Holds (ruleEntries ctx body) := by
  have hentries : (applyIf ctx.rule.isSome (stampModelRule ctx) body).1 =
      body.assignAll (ruleEntries ctx body) := by
    unfold applyIf stampModelRule ruleEntries
    cases ctx.rule with
    | none => rfl
    | some rule =>
      simp only [Option.isSome_some, if_true, andThen, mergeExtraBody]
      rw [Json.assignAll_append, ← applyThinkingShape_fst]
      cases rule.openaiExtraBody <;> rfl
  rw [hentries, Json.assignAll_eq_self_iff hrec]

/-! ## The steps behind the rule -/

theorem contextManagement_eq_self_iff (hrec : body.isRecord = true) :
    (whenThinking (fun body => (body.set (js "context_management") STAMP_CONTEXT_MANAGEMENT_VALUE,
        true)) body).1 = body ↔
      (isThinkingEnabled (body.get? (js "thinking")) = true →
        body.get? (js "context_management") = some STAMP_CONTEXT_MANAGEMENT_VALUE) := by
  unfold whenThinking
  cases isThinkingEnabled (body.get? (js "thinking")) with
  | false => simp
  | true => simp [Json.set_eq_iff hrec]

/-- The value is a number that the constant equals. -/
theorem propIs_set_temperature (hrec : body.isRecord = true) :
    (body.set (js "temperature") (.num STAMP_TEMPERATURE_VALUE)).propIs (js "temperature")
      (.num STAMP_TEMPERATURE_VALUE) = true := by
  unfold Json.propIs
  rw [Json.get?_set_record hrec, if_pos rfl]
  decide

/-- The body has no field that active reasoning takes away, and the
temperature that it sets. -/
structure ReasoningStamped (body : Json) : Prop where
  outputConfig : body.get? (js "output_config") = none
  contextManagement : body.get? (js "context_management") = none
  temperature : body.propIs (js "temperature") (.num STAMP_TEMPERATURE_VALUE) = true

theorem propIs_forceTemperature (hrec : body.isRecord = true) :
    (forceTemperature body).1.propIs (js "temperature") (.num STAMP_TEMPERATURE_VALUE) = true := by
  unfold forceTemperature
  split
  · assumption
  · exact propIs_set_temperature hrec

theorem stripForReasoning_of_stamped (h : ReasoningStamped body) : (stripForReasoning body).1 = body := by
  have hout := (strip_eq_self_iff (js "output_config") body).mpr h.outputConfig
  have hcontext := (strip_eq_self_iff (js "context_management") body).mpr h.contextManagement
  show (forceTemperature (strip (js "context_management") (strip (js "output_config") body).1).1).1 =
    body
  rw [hout, hcontext, forceTemperature, if_pos h.temperature]

/-- What active reasoning leaves behind. -/
theorem reasoningStamped_stripForReasoning (hrec : body.isRecord = true) :
    ReasoningStamped (stripForReasoning body).1 := by
  have hforce : ∀ key, js "temperature" ≠ key → (stripForReasoning body).1.get? key =
      ((body.remove (js "output_config")).remove (js "context_management")).get? key := by
    intro key hne
    rw [← strip_fst, ← strip_fst]
    exact within_forceTemperature.get? _ key (by simpa using Ne.symm hne)
  refine ⟨?_, ?_, ?_⟩
  · rw [hforce _ (by decide), Json.get?_remove, if_neg (by decide), Json.get?_remove, if_pos rfl]
  · rw [hforce _ (by decide), Json.get?_remove, if_pos rfl]
  · have hstripped : (strip (js "context_management")
        (strip (js "output_config") body).1).1.isRecord = true := by simp [strip_fst, hrec]
    exact propIs_forceTemperature hstripped

/-- `stampReasoning` returns before it stamps. -/
def reasoningSkips (ctx : StampContext) (body : Json) : Bool :=
  let thinking := body.get? (js "thinking")
  let effort := body.get? (js "reasoning_effort")
  effort.isNone && thinking.isNone ||
    if (reasoningOptions ctx).vetoReasoningEffort then thinking.isNone || isThinkingDisabled thinking
    else if effort.isNone then isThinkingDisabled thinking || !ctx.policy.thinking
    else isReasoningEffortDisabled effort && ctx.policy.canDisableThinking

theorem stampReasoning_eq (hopen : ctx.openAiReasoning = true) (body : Json) :
    stampReasoning body (reasoningOptions ctx) =
      if reasoningSkips ctx body then (body, false)
      else if (reasoningOptions ctx).vetoReasoningEffort then stripForReasoning body
      else andThen (setEffort ctx.policy body) stripForReasoning := by
  have heffort : (reasoningOptions ctx).reasoningEffort ≠ none := by
    simp only [StampContext.openAiReasoning, Bool.and_eq_true] at hopen
    exact Option.isSome_iff_ne_none.mp hopen.2
  have hpolicy : policyFor (reasoningOptions ctx).policy body = ctx.policy := rfl
  unfold stampReasoning reasoningSkips setEffort
  simp only [heffort, if_false, hpolicy]
  by_cases hnone : ((body.get? (js "reasoning_effort")).isNone &&
      (body.get? (js "thinking")).isNone) = true
  · simp only [hnone, if_true, Bool.true_or]
  · rw [Bool.not_eq_true] at hnone
    simp only [hnone, Bool.false_eq_true, if_false, Bool.false_or]
    by_cases hveto : (reasoningOptions ctx).vetoReasoningEffort = true
    · simp only [hveto, if_true]
    · simp only [hveto, Bool.false_eq_true, if_false]
      by_cases hget : (body.get? (js "reasoning_effort")).isNone = true
      · simp only [hget, if_true]
      · simp only [hget, Bool.false_eq_true, if_false]

theorem stampReasoning_eq_self_iff (hopen : ctx.openAiReasoning = true) (hrec : body.isRecord = true) :
    (stampReasoning body (reasoningOptions ctx)).1 = body ↔
      (reasoningSkips ctx body = false → ReasoningStamped body ∧
        ((reasoningOptions ctx).vetoReasoningEffort = false →
          body.get? (js "reasoning_effort") = some ctx.policy.effort.toJson)) := by
  rw [stampReasoning_eq hopen]
  cases reasoningSkips ctx body with
  | true => simp
  | false =>
    simp only [Bool.false_eq_true, if_false, true_implies]
    cases (reasoningOptions ctx).vetoReasoningEffort with
    | true =>
      simp only [if_true, Bool.true_eq_false, false_implies, and_true]
      refine ⟨fun heq => ?_, stripForReasoning_of_stamped⟩
      rw [← heq]
      exact reasoningStamped_stripForReasoning hrec
    | false =>
      simp only [Bool.false_eq_true, if_false, true_implies]
      show (stripForReasoning (body.set (js "reasoning_effort") ctx.policy.effort.toJson)).1 = body ↔ _
      have hset : (body.set (js "reasoning_effort") ctx.policy.effort.toJson).isRecord = true := by
        simp [hrec]
      constructor
      · intro heq
        rw [← heq]
        refine ⟨reasoningStamped_stripForReasoning hset, ?_⟩
        rw [within_stripForReasoning.get? _ _ (by decide), Json.get?_set_record hrec, if_pos rfl]
      · intro hp
        obtain ⟨hstamped, heffort⟩ := hp
        rw [Json.set_eq_self heffort, stripForReasoning_of_stamped hstamped]

theorem stampStreamUsage_eq_self_iff (hrec : body.isRecord = true) :
    (stampStreamUsage body).1 = body ↔
      (body.propIs (js "stream") (.bool true) = true → includesUsage body = true) := by
  unfold stampStreamUsage
  cases body.propIs (js "stream") (.bool true) with
  | false => simp
  | true =>
    cases husage : includesUsage body with
    | true => simp
    | false =>
      simp only [Bool.not_true, Bool.false_eq_true, if_false, true_implies, iff_false]
      rw [Json.set_eq_iff hrec]
      intro hget
      rw [includesUsage, hget] at husage
      revert husage
      decide

theorem stampBodyTopK_eq_self_iff (ctx : StampContext) (body : Json) :
    (stampBodyTopK ctx body).1 = body ↔
      (reasons ctx body = true → addsTopK ctx.policy body = false) := by
  unfold stampBodyTopK
  cases reasons ctx body with
  | false => simp
  | true =>
    rw [if_pos rfl]
    simp only [true_implies]
    constructor
    · intro heq
      have hget : (stampTopK body STAMP_TOP_K_VALUE (some ctx.policy)).1.get? (js "top_k") = _ :=
        get?_stampTopK body STAMP_TOP_K_VALUE (js "top_k")
      rw [heq] at hget
      cases hadds : addsTopK ctx.policy body with
      | false => rfl
      | true =>
        rw [hadds, if_pos rfl, if_pos rfl] at hget
        simp [addsTopK, Json.has, hget] at hadds
    · intro hadds
      rw [stampTopK_eq, hadds]
      rfl

theorem stampTemperature_eq_self_iff (body : Json) :
    (whenThinking (fun body => stampTemperature body STAMP_TEMPERATURE_VALUE) body).1 = body ↔
      (isThinkingEnabled (body.get? (js "thinking")) = true →
        body.propIs (js "temperature") (.num STAMP_TEMPERATURE_VALUE) = true) := by
  unfold whenThinking
  cases henabled : isThinkingEnabled (body.get? (js "thinking")) with
  | false => simp
  | true =>
    obtain ⟨t, ht⟩ := Option.ne_none_iff_exists'.mp (isThinkingEnabled_ne_none henabled)
    have hrec := Json.isRecord_of_get? ht
    simp only [if_true, true_implies, stampTemperature, hrec, Bool.not_true, Bool.false_eq_true,
      if_false]
    constructor
    · intro heq
      rw [← heq]
      exact propIs_forceTemperature hrec
    · intro htemperature
      rw [if_pos htemperature]

/-! ## `StripOmoReminderStep` -/

/-- The first message has no reminder. -/
def HasNoReminder (messages : List Json) : Prop :=
  ∀ first rest, messages = first :: rest → ∀ content, first.items? (js "content") = some content →
    ∀ b ∈ content, isOmoReminderBlock b = false

theorem withoutReminder_eq_self_iff (messages : List Json) :
    withoutReminder messages = messages ↔ HasNoReminder messages := by
  cases messages with
  | nil => simp [withoutReminder, HasNoReminder]
  | cons first rest =>
    have hkeep : ∀ content : List Json, keepBlocks content = content ↔
        ∀ b ∈ content, isOmoReminderBlock b = false := fun content => by
      simp [keepBlocks, List.filter_eq_self]
    rw [withoutReminder_cons, List.cons.injEq, and_iff_left rfl, Json.mapItems_eq_self_iff]
    constructor
    · rintro hsame _ _ ⟨rfl, rfl⟩ content hcontent
      exact (hkeep content).mp (hsame content hcontent)
    · intro hno content hcontent
      exact (hkeep content).mpr (hno first rest rfl content hcontent)

end UmansGate.Stamp
