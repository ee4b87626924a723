/-
UmansGate.Stamp.FieldTheorems — what each stamp does to the fields of a
body: the fields it may write, and the value each of them gets.

`Within keys stamp` is the frame of a stamp. A field is followed through
the pipeline by the frames of the steps that leave it and the equations of
the one that writes it.
-/
import UmansGate.Stamp.Pipeline

namespace UmansGate.Stamp

open UmansGate.Lib

variable {body : Json} {key : JsString} {keys keys' : List JsString} {ctx : StampContext}
  {policy : StampPolicy} {rule : PerModelRule}

/-! ## Frames -/

/-- The stamp writes only the fields `keys`, and only of an object. -/
structure Within (keys : List JsString) (stamp : Json → Json × Bool) : Prop where
  fixed : ∀ body : Json, body.isRecord = false → (stamp body).1 = body
  record : ∀ body : Json, body.isRecord = true → (stamp body).1.isRecord = true
  get? : ∀ body : Json, ∀ key ∉ keys, (stamp body).1.get? key = body.get? key

namespace Within

variable {stamp first second : Json → Json × Bool}

theorem isRecord (h : Within keys stamp) (body : Json) :
    (stamp body).1.isRecord = body.isRecord := by
  cases hrec : body.isRecord with
  | true => exact h.record body hrec
  | false => rw [h.fixed body hrec, hrec]

theorem isObject (h : Within keys stamp) (hobj : body.isObject = true) :
    (stamp body).1.isObject = true := by
  cases hrec : body.isRecord with
  | true => exact Json.isObject_of_isRecord (h.record body hrec)
  | false => rw [h.fixed body hrec, hobj]

theorem mono (h : Within keys stamp) (hsub : ∀ key ∈ keys, key ∈ keys') : Within keys' stamp where
  fixed := h.fixed
  record := h.record
  get? body key hkey := h.get? body key fun hmem => hkey (hsub key hmem)

/-- A stamp that returns the body as it is. -/
theorem refl (changed : Bool) : Within keys fun body => (body, changed) where
  fixed _ _ := rfl
  record _ h := h
  get? _ _ _ := rfl

/-- A stamp that writes one field. -/
theorem set (key : JsString) (value : Json → Json) (changed : Bool) :
    Within [key] fun body => (body.set key (value body), changed) where
  fixed body h := Json.set_of_not_record h key (value body)
  record body h := (Json.isRecord_set body key (value body)).trans h
  get? body key' hkey := Json.get?_set_of_ne (fun heq => hkey (by simp [heq])) (value body)

theorem ite {p : Json → Bool} (hfirst : Within keys first) (hsecond : Within keys second) :
    Within keys fun body => if p body then first body else second body where
  fixed body h := by
    split
    · exact hfirst.fixed body h
    · exact hsecond.fixed body h
  record body h := by
    split
    · exact hfirst.record body h
    · exact hsecond.record body h
  get? body key hkey := by
    split
    · exact hfirst.get? body key hkey
    · exact hsecond.get? body key hkey

theorem andThen (hfirst : Within keys first) (hsecond : Within keys second) :
    Within keys fun body => andThen (first body) second where
  fixed body h := by
    show (second (first body).1).1 = body
    rw [hfirst.fixed body h, hsecond.fixed body h]
  record body h := hsecond.record _ (hfirst.record body h)
  get? body key hkey := (hsecond.get? _ key hkey).trans (hfirst.get? body key hkey)

end Within

theorem within_strip (key : JsString) : Within [key] (strip key) where
  fixed body h := by
    unfold strip
    split
    · exact Json.remove_of_not_record h key
    · rfl
  record body h := by
    unfold strip
    split
    · exact (Json.isRecord_remove body key).trans h
    · exact h
  get? body key' hkey := by
    unfold strip
    split
    · exact (Json.get?_remove body key key').trans (if_neg fun heq => hkey (by simp [heq]))
    · rfl

theorem within_stampMaxTokens (policy : StampPolicy) (maxTokens : Bool) :
    Within [js "max_tokens"] (stampMaxTokens maxTokens policy) :=
  .ite (.set (js "max_tokens") (fun _ => .num policy.max_tokens) true) (.refl false)

theorem within_forceThinking (policy : StampPolicy) (thinking : Bool) :
    Within [js "thinking"] (forceThinking thinking policy) where
  fixed body h := by simp [forceThinking, Json.get?_of_not_record h]
  record body h := by
    unfold forceThinking
    split
    · split
      · split <;> simp [h]
      · exact h
    · exact h
  get? body key hkey := by
    unfold forceThinking
    split
    · split
      · split
        · rfl
        · exact Json.get?_set_of_ne (fun heq => hkey (by simp [heq])) _
      · rfl
    · rfl

theorem within_stampOutputConfig (policy : StampPolicy) (outputConfig : OutputConfigOption) :
    Within [js "output_config"] (stampOutputConfig outputConfig policy) := by
  cases outputConfig with
  | off => exact .ite (.refl false) (.refl false)
  | on => exact .ite (.set (js "output_config") (fun _ => policy.outputConfig) true) (.refl false)
  | config effort =>
    exact .ite (.set (js "output_config") (fun _ => .obj [(js "effort", effort.toJson)]) true)
      (.refl false)

theorem within_stampAnthropicBody (policy : StampPolicy) :
    Within [js "max_tokens", js "thinking", js "output_config", js "reasoning_effort"]
      (stampAnthropicBody policy) :=
  .andThen
    (.andThen
      (.andThen ((within_stampMaxTokens policy true).mono (by simp))
        ((within_forceThinking policy true).mono (by simp)))
      ((within_stampOutputConfig policy (.config policy.effort)).mono (by simp)))
    ((within_strip (js "reasoning_effort")).mono (by simp))

theorem within_applyThinkingShape (ctx : StampContext) (rule : PerModelRule) :
    Within [js "thinking", js "max_tokens", js "output_config"] (applyThinkingShape ctx rule) where
  fixed body h := by
    unfold applyThinkingShape revive
    simp only [Json.set_of_not_record h]
    split <;> split <;> (try split) <;> (try split) <;> rfl
  record body h := by
    unfold applyThinkingShape revive
    simp only
    split <;> split <;> (try split) <;> (try split) <;> simp [h]
  get? body key hkey := by
    simp only [List.mem_cons, List.not_mem_nil, or_false, not_or] at hkey
    obtain ⟨hthinking, hmax, hout⟩ := hkey
    unfold applyThinkingShape revive
    simp only
    split <;> split <;> (try split) <;> (try split) <;>
      simp [Json.get?_set_of_ne (Ne.symm hthinking), Json.get?_set_of_ne (Ne.symm hmax),
        Json.get?_set_of_ne (Ne.symm hout)]

/-- The keys a rule's extra body writes. -/
def PerModelRule.extraKeys (rule : PerModelRule) : List JsString :=
  match rule.openaiExtraBody with
  | some extra => Dict.keys extra
  | none => []

theorem within_mergeExtraBody (rule : PerModelRule) : Within rule.extraKeys (mergeExtraBody rule) where
  fixed body h := by
    unfold mergeExtraBody
    split
    · exact Json.assignAll_of_not_record h _
    · rfl
  record body h := by
    unfold mergeExtraBody
    split <;> simp [h]
  get? body key hkey := by
    unfold PerModelRule.extraKeys at hkey
    unfold mergeExtraBody
    split
    · rename_i extra hextra
      rw [hextra] at hkey
      exact Json.get?_assignAll_of_not_mem hkey
    · rfl

/-- The keys the rule of a context writes with its extra body. -/
def StampContext.extraKeys (ctx : StampContext) : List JsString :=
  match ctx.rule with
  | some rule => rule.extraKeys
  | none => []

theorem within_stampModelRule (ctx : StampContext) :
    Within ([js "thinking", js "max_tokens", js "output_config"] ++ ctx.extraKeys)
      (stampModelRule ctx) := by
  unfold stampModelRule StampContext.extraKeys
  cases ctx.rule with
  | none => exact .refl false
  | some rule =>
    exact .andThen ((within_applyThinkingShape ctx rule).mono fun _ => List.mem_append_left _)
      ((within_mergeExtraBody rule).mono fun _ => List.mem_append_right _)

theorem within_whenThinking {stamp : Json → Json × Bool} (h : Within keys stamp) :
    Within keys (whenThinking stamp) :=
  .ite h (.refl false)

theorem within_forceTemperature : Within [js "temperature"] forceTemperature :=
  .ite (.refl false) (.set (js "temperature") (fun _ => .num STAMP_TEMPERATURE_VALUE) true)

theorem within_stripForReasoning :
    Within [js "output_config", js "context_management", js "temperature"] stripForReasoning :=
  .andThen
    (.andThen ((within_strip (js "output_config")).mono (by simp))
      ((within_strip (js "context_management")).mono (by simp)))
    (within_forceTemperature.mono (by simp))

/-- `reasoning_effort` set to the policy's effort. -/
def setEffort (policy : StampPolicy) (body : Json) : Json × Bool :=
  (body.set (js "reasoning_effort") policy.effort.toJson, true)

/-- The stamp leaves the body alone, or strips it, or sets the effort first. -/
theorem stampReasoning_cases (body : Json) (options : StampReasoningOptions) :
    stampReasoning body options = (body, false) ∨
      stampReasoning body options = stripForReasoning body ∨
      stampReasoning body options =
        andThen (setEffort (policyFor options.policy body) body) stripForReasoning := by
  unfold stampReasoning setEffort
  simp only
  split
  · exact .inl rfl
  · split
    · exact .inl rfl
    · split
      · split
        · exact .inl rfl
        · exact .inr (.inl rfl)
      · split
        · split
          · exact .inl rfl
          · exact .inr (.inr rfl)
        · split
          · exact .inl rfl
          · exact .inr (.inr rfl)

theorem within_stampReasoning (options : StampReasoningOptions) :
    Within [js "reasoning_effort", js "output_config", js "context_management", js "temperature"]
      fun body => stampReasoning body options := by
  have hstrip : Within
      [js "reasoning_effort", js "output_config", js "context_management", js "temperature"]
      stripForReasoning :=
    within_stripForReasoning.mono (by simp)
  have heffort : Within
      [js "reasoning_effort", js "output_config", js "context_management", js "temperature"]
      fun body => andThen (setEffort (policyFor options.policy body) body) stripForReasoning :=
    .andThen ((Within.set (js "reasoning_effort")
      (fun body => (policyFor options.policy body).effort.toJson) true).mono (by simp)) hstrip
  refine ⟨fun body h => ?_, fun body h => ?_, fun body key hkey => ?_⟩
  · rcases stampReasoning_cases body options with heq | heq | heq <;> rw [heq]
    · exact hstrip.fixed body h
    · exact heffort.fixed body h
  · rcases stampReasoning_cases body options with heq | heq | heq <;> rw [heq]
    · exact h
    · exact hstrip.record body h
    · exact heffort.record body h
  · rcases stampReasoning_cases body options with heq | heq | heq <;> rw [heq]
    · exact hstrip.get? body key hkey
    · exact heffort.get? body key hkey

theorem within_stampStreamUsage : Within [js "stream_options"] stampStreamUsage :=
  .ite (.refl false) (.ite (.refl false)
    (.set (js "stream_options") (fun _ => .obj [(js "include_usage", .bool true)]) true))

theorem within_stampTemperature (temperature : Float) :
    Within [js "temperature"] fun body => stampTemperature body temperature :=
  .ite (.refl false) (.ite (.refl false)
    (.set (js "temperature") (fun _ => .num temperature) true))

/-! ## The rebuilt object of `stampTopK` -/

theorem mem_otherFields {fields : Fields} {key : JsString} {v : Json} :
    (key, v) ∈ otherFields fields ↔
      key ≠ js "model" ∧ key ≠ js "top_k" ∧ Dict.get? fields key = some v := by
  simp only [otherFields, List.mem_filterMap, List.mem_filter, decide_eq_true_eq,
    Option.map_eq_some_iff]
  constructor
  · rintro ⟨k, ⟨_, hmodel, htopK⟩, w, hw, heq⟩
    cases heq
    exact ⟨hmodel, htopK, hw⟩
  · intro hp
    obtain ⟨hmodel, htopK, hget⟩ := hp
    have hmem : key ∈ Dict.keys fields := List.mem_map_of_mem (Dict.mem_of_get? hget)
    exact ⟨key, ⟨hmem, hmodel, htopK⟩, v, hget, rfl⟩

theorem mem_keys_otherFields {fields : Fields} {key : JsString} :
    key ∈ Dict.keys (otherFields fields) ↔
      key ≠ js "model" ∧ key ≠ js "top_k" ∧ Dict.get? fields key ≠ none := by
  simp only [Dict.keys, List.mem_map, Prod.exists, mem_otherFields, Option.ne_none_iff_exists']
  constructor
  · rintro ⟨k, v, ⟨hmodel, htopK, hget⟩, rfl⟩
    exact ⟨hmodel, htopK, v, hget⟩
  · intro hp
    obtain ⟨hmodel, htopK, v, hget⟩ := hp
    exact ⟨key, v, ⟨hmodel, htopK, hget⟩, rfl⟩

/-- The last entry of a key among the other fields is the body's. -/
theorem get?_otherFields_reverse {fields : Fields} {key : JsString}
    (hmodel : key ≠ js "model") (htopK : key ≠ js "top_k") :
    Dict.get? (otherFields fields).reverse key = Dict.get? fields key := by
  have hkeys : key ∈ Dict.keys (otherFields fields).reverse ↔
      key ∈ Dict.keys (otherFields fields) := by simp [Dict.keys]
  by_cases hget : Dict.get? fields key = none
  · rw [hget]
    apply Dict.get?_eq_none_of_not_mem
    rw [hkeys, mem_keys_otherFields]
    exact fun hmem => hmem.2.2 hget
  · apply Dict.get?_eq_of_forall
    · intro e he
      exact (mem_otherFields.mp (List.mem_reverse.mp he)).2.2
    · rw [hkeys, mem_keys_otherFields]
      exact ⟨hmodel, htopK, hget⟩

/-- `top_k` and the fields that are there, but for a `__proto__` of the body's
own. -/
theorem get?_rebuild {fields : Fields} {model : JsString}
    (hmodel : Dict.get? fields (js "model") = some (.str model)) (topK : Float) (key : JsString) :
    (rebuild fields model topK).get? key =
      if key = js "top_k" then some (.num topK)
      else if key = Json.protoKey then none
      else Dict.get? fields key := by
  unfold rebuild
  by_cases htopK : key = js "top_k"
  · subst htopK
    rw [if_pos rfl, Json.get?_assignAll_of_not_mem fun hmem => (mem_keys_otherFields.mp hmem).2.1 rfl]
    rfl
  rw [if_neg htopK]
  by_cases hproto : key = Json.protoKey
  · subst hproto
    rw [if_pos rfl]
    exact Json.get?_assignAll_proto rfl
  rw [if_neg hproto]
  by_cases hkey : key = js "model"
  · subst hkey
    rw [Json.get?_assignAll_of_not_mem fun hmem => (mem_keys_otherFields.mp hmem).1 rfl, hmodel]
    rfl
  · rw [Json.get?_assignAll rfl fun h => absurd h hproto, get?_otherFields_reverse hkey htopK]
    simp [Json.get?, Dict.get?_cons, Ne.symm hkey, Ne.symm htopK]

/-- The stamp adds `top_k`: the body has a model and none of its own. -/
def addsTopK (policy : StampPolicy) (body : Json) : Bool :=
  (extractModelName body).isSome && policy.top_k.isSome && !body.has (js "top_k")

/-- The model name is the string under `model`. -/
theorem extractModelName_eq_some {model : JsString} :
    extractModelName body = some model ↔ body.get? (js "model") = some (.str model) := by
  unfold extractModelName Json.str?
  split
  · rename_i s hs
    rw [hs]
    simp
  · rename_i hno
    constructor
    · intro h
      cases h
    · intro h
      exact absurd h (hno model)

/-- A body that gets a `top_k` is rebuilt. -/
theorem stampTopK_eq (body : Json) (topK : Float) :
    stampTopK body topK (some policy) =
      if addsTopK policy body then
        match body, extractModelName body with
        | .obj fields, some model => (rebuild fields model topK, true)
        | _, _ => (body, false)
      else (body, false) := by
  cases body with
  | obj fields =>
    unfold stampTopK addsTopK policyFor
    cases extractModelName (.obj fields) with
    | none => rfl
    | some model =>
      cases hpolicy : policy.top_k <;> cases htopK : (Json.obj fields).has (js "top_k") <;>
        simp [hpolicy]
  | _ => simp [stampTopK]

theorem get?_stampTopK (body : Json) (topK : Float) (key : JsString) :
    (stampTopK body topK (some policy)).1.get? key =
      if addsTopK policy body then
        if key = js "top_k" then some (.num topK)
        else if key = Json.protoKey then none
        else body.get? key
      else body.get? key := by
  rw [stampTopK_eq]
  by_cases hadds : addsTopK policy body = true
  · rw [if_pos hadds, if_pos hadds]
    have hname : (extractModelName body).isSome = true := by
      simp only [addsTopK, Bool.and_eq_true] at hadds
      exact hadds.1.1
    obtain ⟨model, hmodel⟩ := Option.isSome_iff_exists.mp hname
    have hget := extractModelName_eq_some.mp hmodel
    cases body with
    | obj fields =>
      rw [hmodel]
      exact get?_rebuild hget topK key
    | _ => exact absurd hget (by simp [Json.get?])
  · rw [if_neg hadds, if_neg hadds]

theorem isRecord_rebuild (fields : Fields) (model : JsString) (topK : Float) :
    (rebuild fields model topK).isRecord = true := by
  rw [rebuild, Json.isRecord_assignAll]
  rfl

theorem within_stampBodyTopK (ctx : StampContext) : Within [js "top_k", Json.protoKey] (stampBodyTopK ctx) where
  fixed body h := by
    unfold stampBodyTopK stampTopK
    split
    · split
      · exact absurd h (by simp [Json.isRecord])
      · rfl
    · rfl
  record body h := by
    unfold stampBodyTopK
    rw [stampTopK_eq]
    split
    · split
      · split
        · exact isRecord_rebuild _ _ STAMP_TOP_K_VALUE
        · exact h
      · exact h
    · exact h
  get? body key hkey := by
    simp only [List.mem_cons, List.not_mem_nil, or_false, not_or] at hkey
    unfold stampBodyTopK
    split
    · rw [get?_stampTopK]
      simp [hkey.1, hkey.2]
    · rfl

/-! ## The steps between the blocks and the reminder -/

/-- A stamp under its gate. -/
def applyIf (applies : Bool) (stamp : Json → Json × Bool) (body : Json) : Json × Bool :=
  if applies then stamp body else (body, false)

theorem within_applyIf {stamp : Json → Json × Bool} (applies : Bool) (h : Within keys stamp) :
    Within keys (applyIf applies stamp) :=
  .ite h (.refl false)

/-- The steps behind the per-model rule, up to `TemperatureStep`. -/
def stampBehindRule (ctx : StampContext) (body : Json) : Json × Bool :=
  let afterContext := applyIf ctx.claudeCode (whenThinking fun body =>
    (body.set (js "context_management") STAMP_CONTEXT_MANAGEMENT_VALUE, true)) body
  let afterReasoning := andThen afterContext (applyIf ctx.openAiReasoning fun body =>
    stampReasoning body (reasoningOptions ctx))
  let afterUsage := andThen afterReasoning (applyIf ctx.openAiReasoning stampStreamUsage)
  let afterTopK := andThen afterUsage
    (applyIf ((ctx.claudeCode || ctx.openAiReasoning) && ctx.policy.top_k.isSome) (stampBodyTopK ctx))
  andThen afterTopK (applyIf ctx.claudeCode (whenThinking fun body =>
    stampTemperature body STAMP_TEMPERATURE_VALUE))

/-- The steps between the blocks and the reminder. -/
def stampFields (ctx : StampContext) (body : Json) : Json × Bool :=
  let afterBody := applyIf ctx.claudeCode (stampAnthropicBody ctx.policy) body
  let afterRule := andThen afterBody (applyIf ctx.rule.isSome (stampModelRule ctx))
  andThen afterRule (stampBehindRule ctx)

/-- The fields that a step between the blocks and the reminder writes. -/
def stampedFields : List JsString :=
  [js "thinking", js "max_tokens", js "output_config", js "context_management", js "temperature",
    js "top_k", js "reasoning_effort", js "stream_options"]

/-- A frame within the stamped fields. -/
theorem Within.stamped {stamp : Json → Json × Bool} (h : Within keys stamp)
    (hsub : ∀ key ∈ keys, key ∈ Json.protoKey :: stampedFields) :
    Within (Json.protoKey :: stampedFields ++ ctx.extraKeys) stamp :=
  h.mono fun key hmem => List.mem_append_left _ (hsub key hmem)

theorem within_stampBehindRule (ctx : StampContext) : Within (Json.protoKey :: stampedFields) (stampBehindRule ctx) := by
  have hcontext : Within (Json.protoKey :: stampedFields) (whenThinking fun body =>
      (body.set (js "context_management") STAMP_CONTEXT_MANAGEMENT_VALUE, true)) :=
    (within_whenThinking (Within.set _ (fun _ => STAMP_CONTEXT_MANAGEMENT_VALUE) true)).mono
      (by decide)
  have hreasoning : Within (Json.protoKey :: stampedFields)
      fun body => stampReasoning body (reasoningOptions ctx) :=
    (within_stampReasoning (reasoningOptions ctx)).mono (by decide)
  have husage : Within (Json.protoKey :: stampedFields) stampStreamUsage :=
    within_stampStreamUsage.mono (by decide)
  have htopK : Within (Json.protoKey :: stampedFields) (stampBodyTopK ctx) :=
    (within_stampBodyTopK ctx).mono (by decide)
  have htemperature : Within (Json.protoKey :: stampedFields)
      (whenThinking fun body => stampTemperature body STAMP_TEMPERATURE_VALUE) :=
    (within_whenThinking (within_stampTemperature STAMP_TEMPERATURE_VALUE)).mono (by decide)
  exact .andThen (.andThen (.andThen (.andThen (within_applyIf _ hcontext)
    (within_applyIf _ hreasoning)) (within_applyIf _ husage)) (within_applyIf _ htopK))
    (within_applyIf _ htemperature)

theorem within_stampModelRule_stamped (ctx : StampContext) :
    Within (Json.protoKey :: stampedFields ++ ctx.extraKeys) (stampModelRule ctx) := by
  have hsub : ∀ key ∈ [js "thinking", js "max_tokens", js "output_config"],
      key ∈ Json.protoKey :: stampedFields := by decide
  apply (within_stampModelRule ctx).mono
  intro key hmem
  rcases List.mem_append.mp hmem with hkey | hkey
  · exact List.mem_append_left _ (hsub key hkey)
  · exact List.mem_append_right _ hkey

theorem within_stampFields (ctx : StampContext) :
    Within (Json.protoKey :: stampedFields ++ ctx.extraKeys) (stampFields ctx) :=
  .andThen (.andThen (within_applyIf _ ((within_stampAnthropicBody ctx.policy).stamped (by decide)))
    (within_applyIf _ (within_stampModelRule_stamped ctx)))
    ((within_stampBehindRule ctx).mono fun _ => List.mem_append_left _)

/-- The value the rule's extra body stores under a key: the last one. -/
def StampContext.stored (ctx : StampContext) (key : JsString) : Option Json :=
  match ctx.rule.bind PerModelRule.openaiExtraBody with
  | some extra => Dict.get? extra.reverse key
  | none => none

theorem get?_stampModelRule (ctx : StampContext) (hrec : body.isRecord = true) (hproto : key ≠ Json.protoKey)
    (hkey : key ∉ [js "thinking", js "max_tokens", js "output_config"]) :
    (applyIf ctx.rule.isSome (stampModelRule ctx) body).1.get? key =
      (ctx.stored key).or (body.get? key) := by
  unfold applyIf stampModelRule StampContext.stored
  cases ctx.rule with
  | none => rfl
  | some rule =>
    have hwithin : Within [js "thinking", js "max_tokens", js "output_config"]
        (applyThinkingShape ctx rule) := within_applyThinkingShape ctx rule
    have hshape := hwithin.get? body key hkey
    have hshaped := hwithin.record body hrec
    simp only [Option.isSome_some, if_true, andThen, Option.bind_some, mergeExtraBody]
    cases rule.openaiExtraBody with
    | none => exact hshape
    | some extra =>
      rw [← hshape]
      exact Json.get?_assignAll hshaped fun h => absurd h hproto

/-- A field no step writes is the rule's or the client's. -/
theorem get?_stampFields (hrec : body.isRecord = true)
    (hkey : key ∉ Json.protoKey :: stampedFields) :
    (stampFields ctx body).1.get? key = (ctx.stored key).or (body.get? key) := by
  have hsub : ∀ keys : List JsString, (∀ key ∈ keys, key ∈ Json.protoKey :: stampedFields) →
      key ∉ keys := fun keys hkeys hmem => hkey (hkeys key hmem)
  have hproto : key ≠ Json.protoKey := fun heq => hkey (heq ▸ List.mem_cons_self)
  have hgate : Within [js "max_tokens", js "thinking", js "output_config", js "reasoning_effort"]
      (applyIf ctx.claudeCode (stampAnthropicBody ctx.policy)) :=
    within_applyIf _ (within_stampAnthropicBody ctx.policy)
  have hbody := hgate.get? body key (hsub _ (by decide))
  have hrule := get?_stampModelRule ctx (hgate.record body hrec) hproto
    (hsub _ (by decide))
  rw [hbody] at hrule
  exact ((within_stampBehindRule ctx).get? _ key hkey).trans hrule

end UmansGate.Stamp
