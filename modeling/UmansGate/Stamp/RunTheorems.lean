/-
UmansGate.Stamp.RunTheorems — the pipeline as a whole: which bodies it
throws at, and the body it returns for every other one.

`finalBody` puts the parts together that the previous modules describe:
the block steps, the field steps, the reminder.
-/
import UmansGate.Stamp.BlockTheorems

namespace UmansGate.Stamp

open UmansGate.Lib

variable {ctx : StampContext} {body : Json} {messages : List Json}

/-! ## Runs of steps -/

/-- The stamps of field steps under their gates, one after the other. -/
def runStamps (ctx : StampContext) :
    List ((StampContext → Bool) × (StampContext → Json → Json × Bool)) → Json → Json × Bool
  | [], body => (body, false)
  | (applies, stamp) :: rest, body =>
    andThen (applyIf (applies ctx) (stamp ctx) body) (runStamps ctx rest)

/-- A run of field steps is the run of their stamps. -/
theorem runSteps_stamps
    (stamps : List ((StampContext → Bool) × (StampContext → Json → Json × Bool)))
    (hkeep : ∀ s ∈ stamps, ∀ body : Json, body.isObject = true →
      (s.2 ctx body).1.isObject = true)
    (rest : List StampStep) (changed : Bool) (hobj : body.isObject = true) :
    runSteps ctx (stamps.map (fun s => .ofStamp s.1 s.2) ++ rest) body changed =
      runSteps ctx rest (runStamps ctx stamps body).1 (changed || (runStamps ctx stamps body).2) := by
  induction stamps generalizing body changed with
  | nil => simp [runStamps]
  | cons s stamps ih =>
    obtain ⟨applies, stamp⟩ := s
    have hnext : (applyIf (applies ctx) (stamp ctx) body).1.isObject = true := by
      unfold applyIf
      split
      · exact hkeep _ List.mem_cons_self body hobj
      · exact hobj
    have hstep : runSteps ctx
        (.ofStamp applies stamp :: (stamps.map (fun s => .ofStamp s.1 s.2) ++ rest)) body changed =
        runSteps ctx (stamps.map (fun s => .ofStamp s.1 s.2) ++ rest)
          (applyIf (applies ctx) (stamp ctx) body).1
          (changed || (applyIf (applies ctx) (stamp ctx) body).2) := by
      simp only [runSteps, StampStep.ofStamp, onObject, hobj, if_true, applyIf]
      split
      · rfl
      · rw [Bool.or_false]
    rw [List.map_cons, List.cons_append, hstep,
      ih (fun s hs => hkeep s (List.mem_cons_of_mem _ hs)) _ hnext, Bool.or_assoc]
    rfl

/-- The steps between the blocks and the reminder. -/
def fieldStamps : List ((StampContext → Bool) × (StampContext → Json → Json × Bool)) :=
  [(StampContext.claudeCode, fun ctx => stampAnthropicBody ctx.policy),
    (fun ctx => ctx.rule.isSome, stampModelRule),
    (StampContext.claudeCode, fun _ => whenThinking fun body =>
      (body.set (js "context_management") STAMP_CONTEXT_MANAGEMENT_VALUE, true)),
    (StampContext.openAiReasoning, fun ctx body => stampReasoning body (reasoningOptions ctx)),
    (StampContext.openAiReasoning, fun _ => stampStreamUsage),
    (fun ctx => (ctx.claudeCode || ctx.openAiReasoning) && ctx.policy.top_k.isSome, stampBodyTopK),
    (StampContext.claudeCode, fun _ => whenThinking fun body =>
      stampTemperature body STAMP_TEMPERATURE_VALUE)]

theorem runPipeline_eq (ctx : StampContext) (body : Json) :
    runPipeline ctx body = runSteps ctx (RestampBreakpointsStep :: CacheTtlStep ::
      (fieldStamps.map (fun s => .ofStamp s.1 s.2) ++ [StripOmoReminderStep])) body false :=
  rfl

theorem runStamps_fieldStamps (ctx : StampContext) (body : Json) :
    runStamps ctx fieldStamps body = stampFields ctx body := by
  simp [runStamps, fieldStamps, stampFields, stampBehindRule, andThen, Bool.or_assoc]

/-- No step turns an object into another value. -/
theorem fieldStamps_keep : ∀ s ∈ fieldStamps, ∀ body : Json, body.isObject = true →
    (s.2 ctx body).1.isObject = true := by
  intro s hs body hobj
  simp only [fieldStamps, List.mem_cons, List.not_mem_nil, or_false] at hs
  rcases hs with rfl | rfl | rfl | rfl | rfl | rfl | rfl
  · exact (within_stampAnthropicBody ctx.policy).isObject hobj
  · exact (within_stampModelRule ctx).isObject hobj
  · exact (within_whenThinking (.set _ (fun _ => STAMP_CONTEXT_MANAGEMENT_VALUE) true)).isObject hobj
  · exact (within_stampReasoning _).isObject hobj
  · exact within_stampStreamUsage.isObject hobj
  · exact (within_stampBodyTopK ctx).isObject hobj
  · exact (within_whenThinking (within_stampTemperature _)).isObject hobj

/-! ## The block steps -/

/-- The body behind `RestampBreakpointsStep`. -/
def layoutBody (body : Json) : Json := if hasMessages body then restampedBody body else body

/-- The body behind both block steps. -/
def blockBody (ctx : StampContext) (body : Json) : Json :=
  if ctx.claudeCode then ttlBody (layoutBody body) else body

/-- No step throws. -/
def walks (ctx : StampContext) (body : Json) : Bool :=
  !ctx.claudeCode || !(hasMessages body && systemThrows body) && iterates body

theorem isObject_mapItems (hobj : body.isObject = true) (key : JsString)
    (f : List Json → List Json) : (body.mapItems key f).isObject = true := by
  cases hrec : body.isRecord with
  | true =>
    apply Json.isObject_of_isRecord
    rw [Json.isRecord_mapItems, hrec]
  | false =>
    rw [Json.mapItems_of_not_record hrec]
    exact hobj

theorem isObject_layoutBody (hobj : body.isObject = true) : (layoutBody body).isObject = true := by
  unfold layoutBody restampedBody
  split
  · exact isObject_mapItems (isObject_mapItems hobj _ _) _ _
  · exact hobj

theorem isObject_blockBody (ctx : StampContext) (hobj : body.isObject = true) :
    (blockBody ctx body).isObject = true := by
  unfold blockBody ttlBody
  split
  · exact isObject_mapItems (isObject_mapItems (isObject_layoutBody hobj) _ _) _ _
  · exact hobj

theorem isRecord_blockBody (hrec : body.isRecord = true) : (blockBody ctx body).isRecord = true := by
  unfold blockBody ttlBody layoutBody restampedBody
  split
  · split <;> simp [hrec]
  · exact hrec

/-- Replacing the blocks of a message makes it no `null` and no message of one. -/
theorem isNull_mapItems (key : JsString) (f : List Json → List Json) (m : Json) :
    isNull (m.mapItems key f) = isNull m := by
  cases hrec : m.isRecord with
  | true =>
    have hrec' := (Json.isRecord_mapItems key f m).trans hrec
    cases m with
    | obj fields =>
      cases h : (Json.obj fields).mapItems key f with
      | null => rw [h] at hrec'; cases hrec'
      | _ => rfl
    | _ => cases hrec
  | false => rw [Json.mapItems_of_not_record hrec]

theorem any_isNull_restampMessages (messages : List Json) :
    (restampMessages messages).any isNull = messages.any isNull := by
  rw [Bool.eq_iff_iff, List.any_eq_true, List.any_eq_true]
  simp only [restampMessages, List.mem_mapIdx]
  constructor
  · rintro ⟨_, ⟨mi, hmi, rfl⟩, hnull⟩
    exact ⟨messages[mi], List.getElem_mem hmi, (isNull_mapItems _ _ _).symm.trans hnull⟩
  · intro hp
    obtain ⟨m, hm, hnull⟩ := hp
    obtain ⟨mi, hmi, rfl⟩ := List.getElem_of_mem hm
    exact ⟨_, ⟨mi, hmi, rfl⟩, (isNull_mapItems _ _ _).trans hnull⟩

theorem iterates_layoutBody (body : Json) : iterates (layoutBody body) = iterates body := by
  unfold layoutBody
  split
  · unfold iterates restampedBody
    rw [Json.get?_mapItems, Json.get?_mapItems_of_ne (by decide)]
    cases body.get? (js "messages") with
    | none => rfl
    | some v =>
      cases v with
      | arr messages => simp [any_isNull_restampMessages]
      | _ => rfl
  · rfl

theorem apply_CacheTtlStep (ctx : StampContext) (hobj : body.isObject = true) :
    ∃ changed, CacheTtlStep.apply body ctx =
      if iterates body then .returned (ttlBody body) changed else .threw (ttlBody body) := by
  obtain ⟨hfst, hthrew⟩ := stampCacheTtl_cases body
  simp only [CacheTtlStep, onObject, hobj, if_true]
  rcases hstamp : stampCacheTtl body STAMP_CACHE_TTL_VALUE with ⟨b, n, threw⟩
  rw [hstamp] at hfst hthrew
  rw [← hfst]
  cases hiterates : iterates body with
  | true =>
    rw [hiterates] at hthrew
    cases hthrew
    exact ⟨_, rfl⟩
  | false =>
    rw [hiterates] at hthrew
    cases hthrew
    exact ⟨false, rfl⟩

theorem apply_RestampBreakpointsStep (ctx : StampContext) (hobj : body.isObject = true) :
    ∃ changed, RestampBreakpointsStep.apply body ctx =
      if hasMessages body && systemThrows body then .threw body
      else .returned (layoutBody body) changed := by
  simp only [RestampBreakpointsStep, onObject, hobj, if_true, layoutBody]
  rcases restampBreakpoints_cases body with ⟨hmsgs, heq⟩ | ⟨hmsgs, hsys, heq⟩ |
    ⟨hmsgs, hsys, ⟨heq, hsame⟩ | heq⟩ <;> simp only [heq, hmsgs]
  · exact ⟨false, by simp⟩
  · exact ⟨false, by simp [hsys]⟩
  · exact ⟨false, by simp [hsys, hsame]⟩
  · exact ⟨true, by simp [hsys]⟩

/-- The block steps return where nothing throws, and otherwise leave the body
as it came in or half walked. -/
theorem runSteps_blockSteps (ctx : StampContext) (rest : List StampStep) (hobj : body.isObject = true) :
    ∃ changed, runSteps ctx (RestampBreakpointsStep :: CacheTtlStep :: rest) body false =
      if walks ctx body then runSteps ctx rest (blockBody ctx body) changed
      else if hasMessages body && systemThrows body then .threw body
      else .threw (blockBody ctx body) := by
  unfold walks blockBody
  cases hcc : ctx.claudeCode with
  | false =>
    refine ⟨false, ?_⟩
    simp [runSteps, RestampBreakpointsStep, CacheTtlStep, hcc]
  | true =>
    have hrestamp : RestampBreakpointsStep.applies ctx = true := hcc
    have httl : CacheTtlStep.applies ctx = true := hcc
    obtain ⟨changed, happly⟩ := apply_RestampBreakpointsStep ctx hobj
    obtain ⟨changed', happly'⟩ := apply_CacheTtlStep ctx (isObject_layoutBody hobj)
    rw [iterates_layoutBody] at happly'
    simp only [runSteps, hrestamp, httl, if_true, happly]
    cases hsys : hasMessages body && systemThrows body with
    | true => exact ⟨false, by simp⟩
    | false =>
      simp only [Bool.false_eq_true, if_false, happly']
      cases iterates body with
      | true => exact ⟨_, rfl⟩
      | false => exact ⟨false, by simp⟩

/-! ## The reminder -/

/-- The messages without the reminder, which are the ones that came in where
there is none. -/
def withoutReminder : List Json → List Json
  | [] => []
  | first :: rest =>
    first.mapItems (js "content") (List.filter fun b => !isOmoReminderBlock b) :: rest

theorem stripMessages_getD (messages : List Json) :
    (stripMessages messages).getD messages = withoutReminder messages := by
  cases messages with
  | nil => rfl
  | cons first rest =>
    simp only [stripMessages, withoutReminder]
    cases hcontent : first.items? (js "content") with
    | none => simp [Json.mapItems_of_none hcontent]
    | some content =>
      simp only
      split
      · rw [Json.mapItems_of_items? hcontent]
        rfl
      · rename_i hany
        have hkeep : content.filter (fun b => !isOmoReminderBlock b) = content := by
          apply List.filter_eq_self.mpr
          intro b hb
          have hno := List.any_eq_false.mp (by simpa using hany) b hb
          simpa using hno
        rw [Json.mapItems_of_items? hcontent, hkeep,
          Json.set_eq_self (Json.items?_eq_some.mp hcontent)]
        rfl

/-- The reminder is stripped. -/
def strips (ctx : StampContext) : Bool :=
  ctx.config.experimentStripOmoReminder && !ctx.isOpenAi

/-- The body behind `StripOmoReminderStep`. -/
def stripBody (ctx : StampContext) (body : Json) : Json :=
  if strips ctx then body.mapItems (js "messages") withoutReminder else body

theorem apply_StripOmoReminderStep (ctx : StampContext) (hobj : body.isObject = true) :
    ∃ changed, StripOmoReminderStep.apply body ctx =
      .returned (body.mapItems (js "messages") withoutReminder) changed := by
  simp only [StripOmoReminderStep, onObject, hobj, if_true, stripOmoReminder]
  cases hitems : body.items? (js "messages") with
  | none => exact ⟨false, by rw [Json.mapItems_of_none hitems]⟩
  | some messages =>
    have hstrip := stripMessages_getD messages
    rw [Json.mapItems_of_items? hitems, ← hstrip]
    simp only
    cases stripMessages messages with
    | none => exact ⟨false, by simp [Json.set_eq_self (Json.items?_eq_some.mp hitems)]⟩
    | some next => exact ⟨true, rfl⟩

/-! ## The pipeline -/

/-- The body behind every step. -/
def finalBody (ctx : StampContext) (body : Json) : Json :=
  stripBody ctx (stampFields ctx (blockBody ctx body)).1

theorem runSteps_strip (ctx : StampContext) (changed : Bool) (hobj : body.isObject = true) :
    ∃ changed', runSteps ctx [StripOmoReminderStep] body changed =
      .returned (stripBody ctx body) changed' := by
  unfold stripBody strips
  have happlies : StripOmoReminderStep.applies ctx =
      (ctx.config.experimentStripOmoReminder && !ctx.isOpenAi) := rfl
  simp only [runSteps, happlies]
  split
  · obtain ⟨stepChanged, happly⟩ := apply_StripOmoReminderStep ctx hobj
    exact ⟨_, by rw [happly]⟩
  · exact ⟨changed, rfl⟩

/-- Where nothing throws the pipeline returns the final body. -/
theorem runPipeline_returned (hobj : body.isObject = true) (hwalks : walks ctx body = true) :
    ∃ changed, runPipeline ctx body = .returned (finalBody ctx body) changed := by
  obtain ⟨changed, hblocks⟩ := runSteps_blockSteps ctx
    (fieldStamps.map (fun s => .ofStamp s.1 s.2) ++ [StripOmoReminderStep]) hobj
  have hblock := isObject_blockBody ctx hobj
  rw [if_pos hwalks, runSteps_stamps fieldStamps fieldStamps_keep _ _ hblock,
    runStamps_fieldStamps] at hblocks
  have hfields : (stampFields ctx (blockBody ctx body)).1.isObject = true :=
    (within_stampFields ctx).isObject hblock
  obtain ⟨changed', hstrip⟩ :=
    runSteps_strip ctx (changed || (stampFields ctx (blockBody ctx body)).2) hfields
  exact ⟨changed', by rw [runPipeline_eq, hblocks, hstrip, finalBody]⟩

/-- Elsewhere it throws in the block steps. -/
theorem runPipeline_threw (hobj : body.isObject = true) (hwalks : walks ctx body = false) :
    runPipeline ctx body =
      .threw (if hasMessages body && systemThrows body then body else blockBody ctx body) := by
  obtain ⟨changed, hblocks⟩ := runSteps_blockSteps ctx
    (fieldStamps.map (fun s => .ofStamp s.1 s.2) ++ [StripOmoReminderStep]) hobj
  rw [hwalks, if_neg Bool.false_ne_true] at hblocks
  rw [runPipeline_eq, hblocks]
  split <;> rfl

/-- Steps that all return the body as it is. -/
theorem runSteps_of_idle (steps : List StampStep)
    (hsteps : ∀ step ∈ steps, step.apply body ctx = .returned body false) (changed : Bool) :
    runSteps ctx steps body changed = .returned body changed := by
  induction steps with
  | nil => rfl
  | cons step rest ih =>
    have hrest := ih fun s hs => hsteps s (List.mem_cons_of_mem _ hs)
    simp [runSteps, hsteps step List.mem_cons_self, hrest]

/-- A value that is no object passes every step. -/
theorem runPipeline_of_not_object (ctx : StampContext) (hobj : body.isObject = false) :
    runPipeline ctx body = .returned body false := by
  refine runSteps_of_idle STAMP_PIPELINE (fun step hstep => ?_) false
  simp only [STAMP_PIPELINE, List.mem_cons, List.not_mem_nil, or_false] at hstep
  rcases hstep with rfl | rfl | rfl | rfl | rfl | rfl | rfl | rfl | rfl | rfl <;>
    exact if_neg (by simp [hobj])

/-! ## Fields the blocks and the reminder leave -/

theorem get?_blockBody_of_ne (ctx : StampContext) (body : Json) {key : JsString}
    (hsystem : js "system" ≠ key) (hmessages : js "messages" ≠ key) :
    (blockBody ctx body).get? key = body.get? key := by
  have hlayout : (layoutBody body).get? key = body.get? key := by
    unfold layoutBody
    split
    · rw [restampedBody, Json.get?_mapItems_of_ne hmessages, Json.get?_mapItems_of_ne hsystem]
    · rfl
  unfold blockBody
  split
  · rw [ttlBody, Json.get?_mapItems_of_ne hmessages, Json.get?_mapItems_of_ne hsystem, hlayout]
  · rfl

theorem get?_stripBody_of_ne (ctx : StampContext) (body : Json) {key : JsString}
    (hmessages : js "messages" ≠ key) : (stripBody ctx body).get? key = body.get? key := by
  unfold stripBody
  split
  · exact Json.get?_mapItems_of_ne hmessages _ _
  · rfl

theorem get?_finalBody_of_ne (ctx : StampContext) (body : Json) {key : JsString}
    (hmessages : js "messages" ≠ key) :
    (finalBody ctx body).get? key = (stampFields ctx (blockBody ctx body)).1.get? key :=
  get?_stripBody_of_ne ctx _ hmessages

end UmansGate.Stamp
