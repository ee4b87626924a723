/-
UmansGate.Stamp.ForwardTheorems — the bytes that go upstream and the body
that was stamped.

A step that reports no change has made none (`HonestStep.same`), so a run
without a report forwards the bytes its body was parsed from. Behind a
report the bytes are the text of the stamped body. No step puts two
properties of one name into an object, so that text is read back as far as
its numbers are: an infinity, which `JSON.parse` makes of `1e400`, is
written as `null`.
-/
import UmansGate.Lib.JsonEqual
import UmansGate.Lib.JsonRoundTrip
import UmansGate.Stamp.AtomicityTheorems

namespace UmansGate.Stamp

open UmansGate.Lib

variable {ctx : StampContext} {body out : Json} {steps : List StampStep}

/-! ## Stamps -/

/-- The extra body of the rule holds values, in which no object has two
properties of one name. -/
def StampContext.ExtraDistinct (ctx : StampContext) : Prop :=
  ∀ rule ∈ ctx.rule, ∀ extra ∈ rule.openaiExtraBody, ∀ e ∈ extra, e.2.Distinct

/-- A stamp that reports no change makes none, and leaves objects without
two properties of one name. -/
structure Honest (given : Prop) (stamp : Json → Json × Bool) : Prop where
  same : ∀ body : Json, (stamp body).2 = false → (stamp body).1 = body
  distinct : given → ∀ body : Json, body.Distinct → (stamp body).1.Distinct

namespace Honest

variable {given : Prop} {stamp first second : Json → Json × Bool}

theorem refl (changed : Bool) : Honest given fun body => (body, changed) where
  same _ _ := rfl
  distinct _ _ h := h

/-- A stamp that always says it made a change. -/
theorem changes {f : Json → Json} (hf : given → ∀ body : Json, body.Distinct → (f body).Distinct) :
    Honest given fun body => (f body, true) where
  same _ h := absurd h (by simp)
  distinct := hf

theorem set (key : JsString) {value : Json → Json} (hvalue : ∀ body, (value body).Distinct) :
    Honest given fun body => (body.set key (value body), true) :=
  .changes fun _ body h => h.set (hvalue body) key

theorem ite {p : Json → Bool} (hfirst : Honest given first) (hsecond : Honest given second) :
    Honest given fun body => if p body then first body else second body where
  same body h := by
    split at h
    · rename_i hp
      rw [if_pos hp]
      exact hfirst.same body h
    · rename_i hp
      rw [if_neg hp]
      exact hsecond.same body h
  distinct hgiven body h := by
    split
    · exact hfirst.distinct hgiven body h
    · exact hsecond.distinct hgiven body h

theorem andThen (hfirst : Honest given first) (hsecond : Honest given second) :
    Honest given fun body => andThen (first body) second where
  same body h := by
    obtain ⟨hone, htwo⟩ := Bool.or_eq_false_iff.mp h
    show (second (first body).1).1 = body
    rw [hsecond.same _ htwo, hfirst.same body hone]
  distinct hgiven body h := hsecond.distinct hgiven _ (hfirst.distinct hgiven body h)

end Honest

variable {given : Prop}

theorem distinct_effort (effort : Effort) : effort.toJson.Distinct := by
  cases effort with
  | _ => exact .str _

theorem distinct_field {key : JsString} {v : Json} (h : v.Distinct) :
    (Json.obj [(key, v)]).Distinct :=
  .obj (List.nodup_singleton key) (List.forall_mem_singleton.mpr h)

theorem distinct_shape (shape : ThinkingConfig) : shape.toJson.Distinct := by
  have htype : (Json.obj [(js "type", .str (js "enabled"))]).Distinct := distinct_field (.str _)
  cases shape with
  | adaptive => exact distinct_field (.str _)
  | enabledKeep => exact htype.set (.str _) (js "keep")
  | enabledClear clearThinking => exact htype.set (.bool clearThinking) (js "clear_thinking")
  | enabled => exact htype

theorem distinct_outputConfig (policy : StampPolicy) : policy.outputConfig.Distinct :=
  distinct_field (distinct_effort policy.effort)

theorem distinct_contextManagement : STAMP_CONTEXT_MANAGEMENT_VALUE.Distinct := by
  have htype : (Json.obj [(js "type", .str (js "clear_thinking_20251015"))]).Distinct :=
    distinct_field (.str _)
  have hedit : (Json.obj [(js "type", .str (js "clear_thinking_20251015")),
      (js "keep", .str (js "all"))]).Distinct :=
    htype.set (.str _) (js "keep")
  exact distinct_field (.arr (List.forall_mem_singleton.mpr hedit))

theorem honest_strip (key : JsString) : Honest given (strip key) where
  same body h := by
    unfold strip at h ⊢
    split at h
    · exact absurd h (by simp)
    · rename_i hhas
      rw [if_neg hhas]
  distinct _ body h := by
    unfold strip
    split
    · exact h.remove key
    · exact h

theorem honest_stampMaxTokens (policy : StampPolicy) (maxTokens : Bool) :
    Honest given (stampMaxTokens maxTokens policy) :=
  .ite (.set (js "max_tokens") fun _ => .num policy.max_tokens) (.refl false)

theorem honest_forceThinking (policy : StampPolicy) (thinking : Bool) :
    Honest given (forceThinking thinking policy) where
  same body h := by
    unfold forceThinking at h ⊢
    split at h
    · split_ifs at h with hforce hequals
      · simp only [if_pos hforce, if_pos hequals]
      · simp only [if_neg hforce]
    · rfl
  distinct _ body h := by
    unfold forceThinking
    split
    · split_ifs
      · exact h
      · exact h.set (distinct_shape policy.thinkingShape) (js "thinking")
      · exact h
    · exact h

theorem honest_stampOutputConfig (policy : StampPolicy) (outputConfig : OutputConfigOption) :
    Honest given (stampOutputConfig outputConfig policy) := by
  cases outputConfig with
  | off => exact .ite (.refl false) (.refl false)
  | on =>
    exact .ite (.set (js "output_config") fun _ => distinct_outputConfig policy) (.refl false)
  | config effort =>
    exact .ite (.set (js "output_config") fun _ => distinct_field (distinct_effort effort))
      (.refl false)

theorem honest_stampAnthropicBody (policy : StampPolicy) :
    Honest given (stampAnthropicBody policy) :=
  .andThen
    (.andThen (.andThen (honest_stampMaxTokens policy true) (honest_forceThinking policy true))
      (honest_stampOutputConfig policy (.config policy.effort)))
    (honest_strip (js "reasoning_effort"))

theorem distinct_revive (policy : StampPolicy) (existing : Option Json) (h : body.Distinct) :
    (revive policy existing body).Distinct := by
  unfold revive
  split
  · exact h
  · exact (h.set (.num policy.max_tokens) _).set (distinct_outputConfig policy) _

theorem honest_applyThinkingShape (ctx : StampContext) (rule : PerModelRule) :
    Honest given (applyThinkingShape ctx rule) := by
  unfold applyThinkingShape
  refine .ite ?_ ?_
  · cases rule.openaiThinkingShape with
    | none => exact .refl false
    | some shape =>
      exact .ite (.set (js "thinking") fun _ => distinct_shape shape) (.refl false)
  · cases rule.anthropicThinkingShape with
    | none => exact .refl false
    | some shape =>
      exact .ite (.changes fun _ body h =>
        distinct_revive _ _ (h.set (distinct_shape shape) (js "thinking"))) (.refl false)

theorem honest_mergeExtraBody {rule : PerModelRule}
    (hextra : given → ∀ extra ∈ rule.openaiExtraBody, ∀ e ∈ extra, e.2.Distinct) :
    Honest given (mergeExtraBody rule) := by
  unfold mergeExtraBody
  cases hbody : rule.openaiExtraBody with
  | none => exact .refl false
  | some extra =>
    exact .changes fun hgiven body h => h.assignAll extra body (hextra hgiven extra hbody)

theorem honest_stampModelRule (ctx : StampContext) :
    Honest ctx.ExtraDistinct (stampModelRule ctx) := by
  unfold stampModelRule
  cases hrule : ctx.rule with
  | none => exact .refl false
  | some rule =>
    exact .andThen (honest_applyThinkingShape ctx rule)
      (honest_mergeExtraBody fun hextra => hextra rule hrule)

theorem honest_whenThinking {stamp : Json → Json × Bool} (h : Honest given stamp) :
    Honest given (whenThinking stamp) :=
  .ite h (.refl false)

theorem honest_forceTemperature : Honest given forceTemperature :=
  .ite (.refl false) (.set (js "temperature") fun _ => .num STAMP_TEMPERATURE_VALUE)

theorem honest_stripForReasoning : Honest given stripForReasoning :=
  .andThen (.andThen (honest_strip (js "output_config")) (honest_strip (js "context_management")))
    honest_forceTemperature

theorem honest_stampReasoning (options : StampReasoningOptions) :
    Honest given fun body => stampReasoning body options := by
  have hstrip : Honest given stripForReasoning := honest_stripForReasoning
  have heffort : Honest given
      fun body => andThen (setEffort (policyFor options.policy body) body) stripForReasoning :=
    .andThen (.set (js "reasoning_effort") fun _ => distinct_effort _) hstrip
  refine ⟨fun body h => ?_, fun hgiven body h => ?_⟩
  · rcases stampReasoning_cases body options with heq | heq | heq
    · rw [heq]
    · rw [heq] at h ⊢
      exact hstrip.same body h
    · rw [heq] at h ⊢
      exact heffort.same body h
  · rcases stampReasoning_cases body options with heq | heq | heq
    · rw [heq]
      exact h
    · rw [heq]
      exact hstrip.distinct hgiven body h
    · rw [heq]
      exact heffort.distinct hgiven body h

theorem honest_stampStreamUsage : Honest given stampStreamUsage :=
  .ite (.refl false) (.ite (.refl false)
    (.set (js "stream_options") fun _ => distinct_field (.bool true)))

theorem honest_stampTemperature (temperature : Float) :
    Honest given fun body => stampTemperature body temperature :=
  .ite (.refl false) (.ite (.refl false) (.set (js "temperature") fun _ => .num temperature))

theorem distinct_rebuild {fields : Fields} (h : (Json.obj fields).Distinct) (model : JsString)
    (topK : Float) : (rebuild fields model topK).Distinct := by
  have hmodel : (Json.obj [(js "model", .str model)]).Distinct := distinct_field (.str model)
  have hnew : (Json.obj [(js "model", .str model), (js "top_k", .num topK)]).Distinct :=
    hmodel.set (.num topK) (js "top_k")
  refine hnew.assignAll _ _ fun e he => ?_
  exact h.get? (mem_otherFields.mp he).2.2

theorem honest_stampTopK (topK : Float) (policy : Option StampPolicy) :
    Honest given fun body => stampTopK body topK policy where
  same body h := by
    unfold stampTopK at h ⊢
    split at h
    · split_ifs at h with hpolicy hhas
      · simp only [if_pos hpolicy]
      · simp only [if_neg hpolicy, if_pos hhas]
    · rfl
  distinct _ body h := by
    unfold stampTopK
    split
    · split_ifs
      · exact h
      · exact h
      · exact distinct_rebuild h _ _
    · exact h

theorem honest_stampBodyTopK (ctx : StampContext) : Honest given (stampBodyTopK ctx) :=
  .ite (honest_stampTopK STAMP_TOP_K_VALUE (some ctx.policy)) (.refl false)

/-! ## Blocks -/

theorem distinct_stripBreakpoint {b : Json} (h : b.Distinct) : (stripBreakpoint b).Distinct := by
  unfold stripBreakpoint
  split
  · exact h.remove (js "cache_control")
  · exact h

theorem distinct_withBreakpoint {b : Json} (h : b.Distinct) : (withBreakpoint b).Distinct := by
  unfold withBreakpoint
  split
  · exact h
  · exact h.spread.set (distinct_field (.str _)) (js "cache_control")

theorem distinct_restampContent {content : List Json} (h : ∀ b ∈ content, b.Distinct)
    (lastUser : Option ℕ) (mi : ℕ) : ∀ b ∈ restampContent lastUser mi content, b.Distinct := by
  intro b hb
  obtain ⟨bi, hbi, rfl⟩ := List.mem_mapIdx.mp hb
  have hblock : content[bi].Distinct := h _ (List.getElem_mem hbi)
  unfold restampBlock
  split
  · exact distinct_withBreakpoint hblock
  · exact distinct_stripBreakpoint hblock

theorem distinct_restampMessages {messages : List Json} (h : ∀ m ∈ messages, m.Distinct) :
    ∀ m ∈ restampMessages messages, m.Distinct := by
  intro m hm
  obtain ⟨mi, hmi, rfl⟩ := List.mem_mapIdx.mp hm
  exact (h _ (List.getElem_mem hmi)).mapItems
    (fun content hcontent => distinct_restampContent hcontent _ mi) (js "content")

theorem distinct_restampBlocks {blocks : List Json} (h : ∀ b ∈ blocks, b.Distinct) :
    ∀ b ∈ restampBlocks blocks, b.Distinct := by
  cases blocks with
  | nil => exact h
  | cons b rest =>
    rw [List.forall_mem_cons] at h
    refine List.forall_mem_cons.mpr ⟨?_, fun x hx => ?_⟩
    · split
      · exact distinct_withBreakpoint h.1
      · exact h.1
    · obtain ⟨y, hy, rfl⟩ := List.mem_map.mp hx
      exact distinct_stripBreakpoint (h.2 y hy)

theorem distinct_restampedBody (h : body.Distinct) : (restampedBody body).Distinct :=
  (h.mapItems (fun _ => distinct_restampBlocks) (js "system")).mapItems
    (fun _ => distinct_restampMessages) (js "messages")

theorem distinct_stampBlockTtl {b : Json} (h : b.Distinct) (ttl : JsString) :
    (stampBlockTtl ttl b).Distinct := by
  unfold stampBlockTtl
  split
  · rename_i cc hcc
    split
    · exact h.set ((h.get? hcc).set (.str ttl) (js "ttl")) (js "cache_control")
    · exact h
  · exact h

theorem distinct_map_stampBlockTtl (ttl : JsString) (blocks : List Json)
    (h : ∀ b ∈ blocks, b.Distinct) : ∀ b ∈ blocks.map (stampBlockTtl ttl), b.Distinct := by
  intro b hb
  obtain ⟨x, hx, rfl⟩ := List.mem_map.mp hb
  exact distinct_stampBlockTtl (h x hx) ttl

theorem distinct_stampTtlMessages (ttl : JsString) (messages : List Json)
    (h : ∀ m ∈ messages, m.Distinct) : ∀ m ∈ (stampTtlMessages ttl messages).1, m.Distinct := by
  induction messages with
  | nil => exact h
  | cons m rest ih =>
    rw [List.forall_mem_cons] at h
    have hm : (stampTtlIn ttl (js "content") m).1.Distinct := by
      rw [stampTtlIn_fst]
      exact h.1.mapItems (distinct_map_stampBlockTtl ttl) (js "content")
    cases m with
    | null => exact List.forall_mem_cons.mpr h
    | _ => exact List.forall_mem_cons.mpr ⟨hm, ih h.2⟩

theorem distinct_stampCacheTtl (h : body.Distinct) :
    (stampCacheTtl body STAMP_CACHE_TTL_VALUE).1.Distinct := by
  rw [(stampCacheTtl_cases body).1]
  exact (h.mapItems (distinct_map_stampBlockTtl _) (js "system")).mapItems
    (distinct_stampTtlMessages _) (js "messages")

/-- No block is stamped where none is counted. -/
theorem stampTtlIn_of_zero {ttl key : JsString} {v : Json} (h : (stampTtlIn ttl key v).2 = 0) :
    (stampTtlIn ttl key v).1 = v := by
  unfold stampTtlIn at h ⊢
  cases hitems : v.items? key with
  | none => rfl
  | some blocks =>
    rw [hitems] at h
    have hsame : blocks.map (stampBlockTtl ttl) = blocks := by
      refine (List.map_congr_left fun b hb => ?_).trans (List.map_id blocks)
      have hlacks : lacksTtl b = false := by
        simpa using List.countP_eq_zero.mp h b hb
      unfold stampBlockTtl
      split
      · rw [hlacks, if_neg Bool.false_ne_true]
        rfl
      · rfl
    simp only [hsame]
    exact Json.set_eq_self (Json.items?_eq_some.mp hitems)

theorem stampTtlMessages_of_zero {ttl : JsString} (messages : List Json)
    (h : (stampTtlMessages ttl messages).2.1 = 0) : (stampTtlMessages ttl messages).1 = messages := by
  induction messages with
  | nil => rfl
  | cons m rest ih =>
    cases m with
    | null => rfl
    | _ =>
      obtain ⟨hm, hrest⟩ := Nat.add_eq_zero_iff.mp h
      show (stampTtlIn ttl (js "content") _).1 :: (stampTtlMessages ttl rest).1 = _
      rw [stampTtlIn_of_zero hm, ih hrest]

theorem stampCacheTtl_of_zero {ttl : JsString} (h : (stampCacheTtl body ttl).2.1 = 0) :
    (stampCacheTtl body ttl).1 = body := by
  have hsystem : (stampTtlIn ttl (js "system") body).2 = 0 := by
    unfold stampCacheTtl at h
    simp only [] at h
    split at h
    · exact h
    · exact h
    · exact h
    · exact (Nat.add_eq_zero_iff.mp h).1
    · exact h
  unfold stampCacheTtl at h ⊢
  simp only [hsystem, stampTtlIn_of_zero hsystem] at h ⊢
  split
  · rfl
  · rfl
  · rfl
  · rename_i messages hget
    rw [hget] at h
    rw [stampTtlMessages_of_zero messages (Nat.add_eq_zero_iff.mp h).2]
    exact Json.set_eq_self hget
  · rfl

theorem distinct_withoutReminder {messages : List Json} (h : ∀ m ∈ messages, m.Distinct) :
    ∀ m ∈ withoutReminder messages, m.Distinct := by
  cases messages with
  | nil => exact h
  | cons first rest =>
    rw [List.forall_mem_cons] at h
    refine List.forall_mem_cons.mpr ⟨h.1.mapItems (fun content hcontent b hb => ?_) _, h.2⟩
    exact hcontent b (List.mem_of_mem_filter hb)

theorem distinct_stripOmoReminder {cleaned : Json} (h : body.Distinct)
    (hstrip : stripOmoReminder body = some cleaned) : cleaned.Distinct := by
  unfold stripOmoReminder at hstrip
  cases hitems : body.items? (js "messages") with
  | none =>
    rw [hitems] at hstrip
    exact absurd hstrip (by simp)
  | some messages =>
    rw [hitems] at hstrip
    obtain ⟨next, hnext, rfl⟩ := Option.map_eq_some_iff.mp hstrip
    have hsame : next = withoutReminder messages := by
      rw [← stripMessages_getD, hnext, Option.getD_some]
    rw [hsame]
    exact h.set (.arr (distinct_withoutReminder (h.items? hitems))) (js "messages")

/-! ## Steps -/

/-- The step reports every change it makes, and leaves objects without two
properties of one name. -/
structure HonestStep (ctx : StampContext) (step : StampStep) : Prop where
  same : ∀ body out : Json, step.apply body ctx = .returned out false → out = body
  distinct : ctx.ExtraDistinct → ∀ body : Json, body.Distinct → (step.apply body ctx).body.Distinct

/-- A step that works on objects only. -/
theorem honestStep_onObject {applies : StampContext → Bool} {apply : Json → StampContext → Stamped}
    (hsame : ∀ body out : Json, apply body ctx = .returned out false → out = body)
    (hdistinct : ctx.ExtraDistinct → ∀ body : Json, body.Distinct → (apply body ctx).body.Distinct) :
    HonestStep ctx ⟨applies, onObject apply⟩ where
  same body out h := by
    simp only [onObject] at h
    split at h
    · exact hsame body out h
    · cases h
      rfl
  distinct hextra body h := by
    simp only [onObject]
    split
    · exact hdistinct hextra body h
    · exact h

theorem honestStep_ofStamp {applies : StampContext → Bool}
    {stamp : StampContext → Json → Json × Bool} (h : Honest ctx.ExtraDistinct (stamp ctx)) :
    HonestStep ctx (.ofStamp applies stamp) := by
  refine honestStep_onObject (fun body out heq => ?_) h.distinct
  rw [Stamped.returned.injEq] at heq
  rw [← heq.1, h.same body heq.2]

theorem honestStep_restampBreakpoints : HonestStep ctx RestampBreakpointsStep := by
  refine honestStep_onObject (fun body out h => ?_) fun _ body h => ?_
  · split at h
    · cases h
      rfl
    · exact absurd h (by simp)
    · exact absurd h (by simp)
  · rcases restampBreakpoints_cases body with ⟨-, heq⟩ | ⟨-, -, heq⟩ | ⟨-, -, ⟨heq, -⟩ | heq⟩
    · rw [heq]
      exact h
    · rw [heq]
      exact h
    · rw [heq]
      exact h
    · rw [heq]
      exact distinct_restampedBody h

theorem honestStep_cacheTtl : HonestStep ctx CacheTtlStep := by
  refine honestStep_onObject (fun body out h => ?_) fun _ body h => ?_
  · split at h
    · rename_i b n hstamp
      rw [Stamped.returned.injEq, decide_eq_false_iff_not, Nat.not_lt, Nat.le_zero] at h
      have hzero : (stampCacheTtl body STAMP_CACHE_TTL_VALUE).2.1 = 0 := by
        rw [hstamp]
        exact h.2
      rw [← h.1, ← stampCacheTtl_of_zero hzero, hstamp]
    · exact absurd h (by simp)
  · have hstamped := distinct_stampCacheTtl h
    split
    · rename_i b n hstamp
      rwa [hstamp] at hstamped
    · rename_i b n hstamp
      rwa [hstamp] at hstamped

theorem honestStep_stripOmoReminder : HonestStep ctx StripOmoReminderStep := by
  refine honestStep_onObject (fun body out h => ?_) fun _ body h => ?_
  · split at h
    · exact absurd h (by simp)
    · cases h
      rfl
  · split
    · exact distinct_stripOmoReminder h ‹_›
    · exact h

/-- Every step of the pipeline. -/
theorem honestStep_pipeline (ctx : StampContext) : ∀ step ∈ STAMP_PIPELINE, HonestStep ctx step := by
  intro step hstep
  simp only [STAMP_PIPELINE, List.mem_cons, List.not_mem_nil, or_false] at hstep
  rcases hstep with rfl | rfl | rfl | rfl | rfl | rfl | rfl | rfl | rfl | rfl
  · exact honestStep_restampBreakpoints
  · exact honestStep_cacheTtl
  · exact honestStep_ofStamp (honest_stampAnthropicBody ctx.policy)
  · exact honestStep_ofStamp (honest_stampModelRule ctx)
  · exact honestStep_ofStamp (honest_whenThinking (.set (js "context_management") fun _ =>
      distinct_contextManagement))
  · exact honestStep_ofStamp (honest_stampReasoning (reasoningOptions ctx))
  · exact honestStep_ofStamp honest_stampStreamUsage
  · exact honestStep_ofStamp (honest_stampBodyTopK ctx)
  · exact honestStep_ofStamp (honest_whenThinking (honest_stampTemperature STAMP_TEMPERATURE_VALUE))
  · exact honestStep_stripOmoReminder

/-! ## Runs -/

variable {step : StampStep} {rest : List StampStep} {changed stepChanged : Bool}

theorem runUntil_skip (h : step.applies ctx = false) :
    runUntil ctx none (step :: rest) body changed = runUntil ctx none rest body changed := by
  rw [runUntil_step ctx none (by simp), if_neg (by simp [h])]
  rfl

theorem runUntil_apply (h : step.applies ctx = true)
    (happly : step.apply body ctx = .returned out stepChanged) :
    runUntil ctx none (step :: rest) body changed =
      runUntil ctx none rest out (changed || stepChanged) := by
  rw [runUntil_step ctx none (by simp), if_pos h, happly]
  rfl

/-- A run that reports no change made none. -/
theorem runUntil_same (h : ∀ step ∈ steps, HonestStep ctx step) (fault : Option ℕ) (changed : Bool)
    (hrun : runUntil ctx fault steps body changed = .returned out false) :
    out = body ∧ changed = false := by
  induction steps generalizing fault body changed with
  | nil =>
    rcases fault with _ | _ | k
    · cases hrun
      exact ⟨rfl, rfl⟩
    · cases hrun
    · cases hrun
      exact ⟨rfl, rfl⟩
  | cons step rest ih =>
    have hrest := fun s hs => h s (List.mem_cons_of_mem step hs)
    by_cases hfault : fault = some 0
    · rw [hfault] at hrun
      cases hrun
    · rw [runUntil_step ctx fault hfault] at hrun
      split at hrun
      · cases hstep : step.apply body ctx with
        | returned next stepChanged =>
          rw [hstep] at hrun
          obtain ⟨hout, hor⟩ := ih hrest _ _ hrun
          obtain ⟨hchanged, hunchanged⟩ := Bool.or_eq_false_iff.mp hor
          rw [hunchanged] at hstep
          have hnext : next = body := (h step List.mem_cons_self).same body next hstep
          exact ⟨hout.trans hnext, hchanged⟩
        | threw next =>
          rw [hstep] at hrun
          cases hrun
      · exact ih hrest _ _ hrun

theorem runUntil_distinct (h : ∀ step ∈ steps, HonestStep ctx step) (hextra : ctx.ExtraDistinct)
    (fault : Option ℕ) (changed : Bool) (hbody : body.Distinct) :
    (runUntil ctx fault steps body changed).body.Distinct := by
  induction steps generalizing fault body changed with
  | nil =>
    rcases fault with _ | _ | k
    · exact hbody
    · exact hbody
    · exact hbody
  | cons step rest ih =>
    have hrest := fun s hs => h s (List.mem_cons_of_mem step hs)
    by_cases hfault : fault = some 0
    · rw [hfault]
      exact hbody
    · rw [runUntil_step ctx fault hfault]
      split
      · have hstep := (h step List.mem_cons_self).distinct hextra body hbody
        cases happly : step.apply body ctx with
        | returned next stepChanged =>
          rw [happly] at hstep
          exact ih hrest _ _ hstep
        | threw next =>
          rw [happly] at hstep
          exact hstep
      · exact ih hrest _ _ hbody

/-- A run that returns leaves bytes that are read as the stamped body, if it
reported no change or the numbers are read back from their texts. -/
theorem parse_forwarded (hextra : ctx.ExtraDistinct) {reqBuf : JsString} {fault : Option ℕ}
    {changed : Bool} (hparse : Json.parse reqBuf = some body)
    (hrun : stampRun ctx fault body = .returned out changed)
    (hnum : changed = true → out.EachNumber ReadsBack) :
    Json.parse (parseInbound ctx fault reqBuf body).forwarded =
      some (parseInbound ctx fault reqBuf body).body := by
  have hsteps := honestStep_pipeline ctx
  unfold parseInbound
  rw [hrun]
  cases changed with
  | false =>
    have hsame : out = body := by
      unfold stampRun at hrun
      split at hrun
      · exact (runUntil_same hsteps fault false hrun).1
      · cases hrun
        rfl
    rw [hsame]
    exact hparse
  | true =>
    have hdist : out.Distinct := by
      have hbody := distinct_of_parse hparse
      unfold stampRun at hrun
      split at hrun
      · have hout := runUntil_distinct hsteps hextra fault false hbody
        rwa [hrun] at hout
      · cases hrun
    exact parse_stringify hdist (hnum rfl)

/-- A step that reports no change made none; and the bytes that a run without
an exception forwards are read as the body it stamped, if no step reported a
change or every number of the body is read back from its text. -/
theorem unchanged_and_forwarded :
    (∀ step ∈ STAMP_PIPELINE, ∀ (ctx : StampContext) (body out : Json),
      step.apply body ctx = .returned out false → Json.DeepEqual out body) ∧
    ∀ (ctx : StampContext) (fault : Option ℕ) (reqBuf : JsString) (body out : Json)
      (changed : Bool), ctx.ExtraDistinct → Json.parse reqBuf = some body →
        stampRun ctx fault body = .returned out changed →
        (changed = true → out.EachNumber ReadsBack) →
          ∃ sent, Json.parse (parseInbound ctx fault reqBuf body).forwarded = some sent ∧
            Json.DeepEqual sent (parseInbound ctx fault reqBuf body).body := by
  constructor
  · intro step hstep ctx body out happly
    rw [(honestStep_pipeline ctx step hstep).same body out happly]
    exact .refl body
  · intro ctx fault reqBuf body out changed hextra hparse hrun hnum
    exact ⟨_, parse_forwarded hextra hparse hrun hnum, .refl _⟩

/-- Only the stream usage is stamped. -/
def streamContext : StampContext where
  config :=
    { stampClaudeCode := false, stampModelRules := [], stampReasoningEffort := some .high,
      experimentStripOmoReminder := false }
  isOpenAi := true
  modelName := none
  catalog := []

def streamBody (seed : Json) : Json := .obj [(js "stream", .bool true), (js "seed", seed)]

def stampedStream (seed : Json) : Json :=
  .obj [(js "stream", .bool true), (js "seed", seed),
    (js "stream_options", .obj [(js "include_usage", .bool true)])]

theorem stampRun_stream (seed : Json) :
    stampRun streamContext none (streamBody seed) = .returned (stampedStream seed) true := by
  have htopK : TopKStep.applies streamContext = false := by decide +kernel
  have hreasoning : OpenAiReasoningStep.apply (streamBody seed) streamContext =
      .returned (streamBody seed) false := rfl
  have husage : OpenAiStreamUsageStep.apply (streamBody seed) streamContext =
      .returned (stampedStream seed) true := rfl
  have hobj : (streamBody seed).isObject = true := rfl
  rw [stampRun, if_pos hobj, STAMP_PIPELINE, runUntil_skip rfl, runUntil_skip rfl,
    runUntil_skip rfl, runUntil_skip rfl, runUntil_skip rfl, runUntil_apply rfl hreasoning,
    runUntil_apply rfl husage, runUntil_skip htopK, runUntil_skip rfl, runUntil_skip rfl]
  rfl

/-- A seed of `2` is forwarded as it was stamped; the step that stamped the
body leaves it alone from then on. -/
theorem seed_forwarded :
    Json.DeepEqual (stampedStream (.num (ofDecimal 2 0))) (stampedStream (.num (ofDecimal 2 0))) ∧
    ∃ sent, Json.parse (parseInbound streamContext none
        (stringify (streamBody (.num (ofDecimal 2 0))))
        (streamBody (.num (ofDecimal 2 0)))).forwarded = some sent ∧
      Json.DeepEqual sent (parseInbound streamContext none
        (stringify (streamBody (.num (ofDecimal 2 0)))) (streamBody (.num (ofDecimal 2 0)))).body := by
  have htext : numberText (ofDecimal 2 0) = js "2" := by decide +kernel
  have hseed : ReadsBack (ofDecimal 2 0) := by
    unfold ReadsBack
    rw [htext]
    rfl
  have hread : (streamBody (.num (ofDecimal 2 0))).EachNumber ReadsBack ∧
      (stampedStream (.num (ofDecimal 2 0))).EachNumber ReadsBack := by
    refine ⟨.obj ?_, .obj ?_⟩
    · simp only [List.forall_mem_cons]
      exact ⟨.bool true, .num hseed, by simp⟩
    · simp only [List.forall_mem_cons]
      exact ⟨.bool true, .num hseed, .obj (List.forall_mem_singleton.mpr (.bool true)), by simp⟩
  have hdist : (streamBody (.num (ofDecimal 2 0))).Distinct := by
    refine .obj (by decide) ?_
    simp only [List.forall_mem_cons]
    exact ⟨.bool true, .num _, by simp⟩
  have hagain : OpenAiStreamUsageStep.apply (stampedStream (.num (ofDecimal 2 0))) streamContext =
      .returned (stampedStream (.num (ofDecimal 2 0))) false := rfl
  refine ⟨unchanged_and_forwarded.1 OpenAiStreamUsageStep (by simp [STAMP_PIPELINE]) streamContext _ _
    hagain, unchanged_and_forwarded.2 streamContext none _ _ _ true ?_
      (parse_stringify hdist hread.1) (stampRun_stream _) fun _ => hread.2⟩
  intro rule hrule
  cases hrule

/-- `1e400` is read as an infinity. -/
def infinityText : JsString := js "\x7b\"stream\":true,\"seed\":1e400\x7d"

/-- A changed body with a seed that only its bytes say is `null`. -/
def nullsSeed : Stamped → Bool
  | .returned out changed => changed && !out.propIs (js "seed") .null &&
      (Json.parse (stringify out)).any fun sent => sent.propIs (js "seed") .null
  | .threw _ => false

/-- A seed of `1e400` is an infinity in the stamped body and `null` in the
bytes. -/
theorem infinity_forwarded_as_null :
    ∃ body out, Json.parse infinityText = some body ∧
      stampRun streamContext none body = .returned out true ∧
      ¬ ∃ sent, Json.parse (parseInbound streamContext none infinityText body).forwarded = some sent ∧
        Json.DeepEqual sent (parseInbound streamContext none infinityText body).body := by
  have hcheck : ((Json.parse infinityText).any fun body =>
      nullsSeed (stampRun streamContext none body)) = true := by
    decide +kernel
  cases hparse : Json.parse infinityText with
  | none => simp [hparse] at hcheck
  | some body =>
    rw [hparse, Option.any_some] at hcheck
    cases hrun : stampRun streamContext none body with
    | threw out => simp [hrun, nullsSeed] at hcheck
    | returned out changed =>
      simp only [hrun, nullsSeed, Bool.and_eq_true, Bool.not_eq_true'] at hcheck
      obtain ⟨⟨rfl, hseed⟩, hnull⟩ := hcheck
      refine ⟨body, out, rfl, hrun, ?_⟩
      intro hp
      obtain ⟨sent, hsent, hequal⟩ := hp
      simp only [parseInbound, hrun, Inbound.forwarded] at hsent hequal
      rw [hsent, Option.any_some, hequal.propIs, hseed] at hnull
      exact absurd hnull Bool.false_ne_true

end UmansGate.Stamp
