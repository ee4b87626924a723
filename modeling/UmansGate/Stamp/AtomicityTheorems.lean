/-
UmansGate.Stamp.AtomicityTheorems — what an exception in the pipeline
leaves of the client's body.

The bytes are written behind the loop only, so they are the client's
whenever a step throws. The parsed body is stamped in place, and it is the
client's exactly if there was nothing to stamp: the views agree for bodies
that carry every stamp already, and for no others.
-/
import UmansGate.Stamp.IdleTheorems
import UmansGate.Stamp.Inbound

namespace UmansGate.Stamp

open UmansGate.Lib

variable {ctx : StampContext} {body b : Json} {steps : List StampStep} {fault : Option ℕ}

/-! ## Runs that leave the body alone -/

/-- The step returns the body as it is. -/
def Idle (ctx : StampContext) (step : StampStep) (body : Json) : Prop :=
  ∃ changed, step.apply body ctx = .returned body changed

theorem runUntil_none (ctx : StampContext) (steps : List StampStep) (body : Json) (changed : Bool) :
    runUntil ctx none steps body changed = runSteps ctx steps body changed := by
  induction steps generalizing body changed with
  | nil => rfl
  | cons step rest ih =>
    unfold runUntil runSteps
    split
    · cases step.apply body ctx with
      | returned body stepChanged => exact ih body (changed || stepChanged)
      | threw body => rfl
    · exact ih body changed

/-- A step of a run that goes on. -/
theorem runUntil_step (ctx : StampContext) (fault : Option ℕ) (hfault : fault ≠ some 0) (step : StampStep)
    (rest : List StampStep) (body : Json) (changed : Bool) :
    runUntil ctx fault (step :: rest) body changed =
      if step.applies ctx then
        match step.apply body ctx with
        | .returned body stepChanged =>
          runUntil ctx (fault.map Nat.pred) rest body (changed || stepChanged)
        | .threw body => .threw body
      else runUntil ctx (fault.map Nat.pred) rest body changed := by
  rcases fault with _ | _ | k
  · rfl
  · exact absurd rfl hfault
  · rfl

/-- Steps that leave the body alone leave it so wherever the run ends. -/
theorem body_runUntil_of_idle (hidle : ∀ step ∈ steps, step.applies ctx = true → Idle ctx step body)
    (fault : Option ℕ) (changed : Bool) : (runUntil ctx fault steps body changed).body = body := by
  induction steps generalizing fault changed with
  | nil => rcases fault with _ | _ | k <;> rfl
  | cons step rest ih =>
    have hrest := ih fun s hs => hidle s (List.mem_cons_of_mem _ hs)
    by_cases hfault : fault = some 0
    · rw [hfault]
      rfl
    · rw [runUntil_step ctx fault hfault]
      split
      · rename_i happlies
        obtain ⟨stepChanged, hreturned⟩ := hidle step List.mem_cons_self happlies
        rw [hreturned]
        exact hrest _ _
      · exact hrest _ _

/-- If every exception finds the body as it came in, and no step throws by
itself, each step leaves it alone. -/
theorem idle_of_body_runUntil (changed : Bool)
    (hreturns : (runSteps ctx steps body changed).hasThrown = false)
    (hbody : ∀ k, (runUntil ctx (some k) steps body changed).hasThrown = true →
      (runUntil ctx (some k) steps body changed).body = body) :
    ∀ step ∈ steps, step.applies ctx = true → Idle ctx step body := by
  induction steps generalizing changed with
  | nil => simp
  | cons step rest ih =>
    cases happlies : step.applies ctx with
    | false =>
      rw [runSteps, happlies, if_neg Bool.false_ne_true] at hreturns
      have hrest := ih changed hreturns fun k => by
        have hnext := hbody (k + 1)
        rw [runUntil_step ctx _ (by simp), happlies, if_neg Bool.false_ne_true] at hnext
        exact hnext
      intro s hs happ
      rcases List.mem_cons.mp hs with rfl | hs
      · rw [happlies] at happ
        cases happ
      · exact hrest s hs happ
    | true =>
      cases hstep : step.apply body ctx with
      | threw b =>
        rw [runSteps, happlies, if_pos rfl, hstep] at hreturns
        cases hreturns
      | returned b stepChanged =>
        -- An exception right behind this step finds its result.
        have hfirst := hbody 1
        rw [runUntil_step ctx _ (by simp), happlies, if_pos rfl, hstep] at hfirst
        have hsame : b = body := by
          rcases rest with _ | ⟨s, rest⟩ <;> exact hfirst rfl
        subst hsame
        rw [runSteps, happlies, if_pos rfl, hstep] at hreturns
        have hrest := ih (changed || stepChanged) hreturns fun k => by
          have hnext := hbody (k + 1)
          rw [runUntil_step ctx _ (by simp), happlies, if_pos rfl, hstep] at hnext
          exact hnext
        intro s hs happ
        rcases List.mem_cons.mp hs with rfl | hs
        · exact ⟨stepChanged, hstep⟩
        · exact hrest s hs happ

/-! ## The condition -/

/-- The body carries every stamp the pipeline of the request has: one field for
each step. -/
structure CarriesStamps (ctx : StampContext) (body : Json) : Prop where
  layout : ctx.claudeCode = true → hasMessages body = true → InLayout body
  ttl : ctx.claudeCode = true → HasTtls body
  anthropic : ctx.claudeCode = true → AnthropicStamped ctx.policy body
  rule : body.Holds (ruleEntries ctx body)
  contextManagement : ctx.claudeCode = true → isThinkingEnabled (body.get? (js "thinking")) = true →
    body.get? (js "context_management") = some STAMP_CONTEXT_MANAGEMENT_VALUE
  reasoning : ctx.openAiReasoning = true → reasoningSkips ctx body = false →
    ReasoningStamped body ∧ ((reasoningOptions ctx).vetoReasoningEffort = false →
      body.get? (js "reasoning_effort") = some ctx.policy.effort.toJson)
  streamUsage : ctx.openAiReasoning = true → body.propIs (js "stream") (.bool true) = true →
    includesUsage body = true
  topK : ((ctx.claudeCode || ctx.openAiReasoning) && ctx.policy.top_k.isSome) = true →
    reasons ctx body = true → addsTopK ctx.policy body = false
  temperature : ctx.claudeCode = true → isThinkingEnabled (body.get? (js "thinking")) = true →
    body.propIs (js "temperature") (.num STAMP_TEMPERATURE_VALUE) = true
  reminder : strips ctx = true → ∀ messages, body.items? (js "messages") = some messages →
    HasNoReminder messages

theorem idle_ofStamp_iff (hobj : body.isObject = true) (applies : StampContext → Bool)
    (stamp : StampContext → Json → Json × Bool) :
    Idle ctx (.ofStamp applies stamp) body ↔ (stamp ctx body).1 = body := by
  unfold Idle StampStep.ofStamp onObject
  simp [hobj]

/-- The steps that apply leave the body alone exactly if it carries their
stamps. -/
theorem idle_iff_carriesStamps (hrec : body.isRecord = true) (hwalks : walks ctx body = true) :
    (∀ step ∈ STAMP_PIPELINE, step.applies ctx = true → Idle ctx step body) ↔
      CarriesStamps ctx body := by
  have hobj := Json.isObject_of_isRecord hrec
  have hwalk : ctx.claudeCode = true →
      (hasMessages body && systemThrows body) = false ∧ iterates body = true := by
    intro hcc
    simp only [walks, hcc, Bool.not_true, Bool.false_or, Bool.and_eq_true] at hwalks
    exact ⟨(Bool.not_eq_true' _).mp hwalks.1, hwalks.2⟩
  have hlayout : ctx.claudeCode = true → (Idle ctx RestampBreakpointsStep body ↔
      (hasMessages body = true → InLayout body)) := by
    intro hcc
    obtain ⟨changed, happly⟩ := apply_RestampBreakpointsStep ctx hobj
    rw [if_neg (by simp [(hwalk hcc).1])] at happly
    rw [← layoutBody_eq_self_iff, Idle, happly]
    simp
  have httl : ctx.claudeCode = true → (Idle ctx CacheTtlStep body ↔ HasTtls body) := by
    intro hcc
    obtain ⟨changed, happly⟩ := apply_CacheTtlStep ctx hobj
    rw [if_pos (hwalk hcc).2] at happly
    rw [← ttlBody_eq_self_iff (hwalk hcc).2, Idle, happly]
    simp
  have hreminder : Idle ctx StripOmoReminderStep body ↔ ∀ messages,
      body.items? (js "messages") = some messages → HasNoReminder messages := by
    obtain ⟨changed, happly⟩ := apply_StripOmoReminderStep ctx hobj
    simp only [← withoutReminder_eq_self_iff]
    rw [← Json.mapItems_eq_self_iff, Idle, happly]
    simp
  have hrule : (ctx.rule.isSome = true → Idle ctx PerModelRuleStep body) ↔
      body.Holds (ruleEntries ctx body) := by
    rw [← stampModelRule_eq_self_iff hrec, PerModelRuleStep, idle_ofStamp_iff hobj]
    cases hsome : ctx.rule.isSome <;> simp [applyIf]
  have hanthropic : Idle ctx AnthropicBodyStep body ↔ AnthropicStamped ctx.policy body :=
    (idle_ofStamp_iff hobj _ _).trans (stampAnthropicBody_eq_self_iff ctx.policy body)
  have hcontext : Idle ctx ContextManagementStep body ↔ _ :=
    (idle_ofStamp_iff hobj _ _).trans (contextManagement_eq_self_iff hrec)
  have hreasoning : ctx.openAiReasoning = true → (Idle ctx OpenAiReasoningStep body ↔ _) :=
    fun hopen => (idle_ofStamp_iff hobj _ _).trans (stampReasoning_eq_self_iff hopen hrec)
  have husage : Idle ctx OpenAiStreamUsageStep body ↔ _ :=
    (idle_ofStamp_iff hobj _ _).trans (stampStreamUsage_eq_self_iff hrec)
  have htopK : Idle ctx TopKStep body ↔ _ :=
    (idle_ofStamp_iff hobj _ _).trans (stampBodyTopK_eq_self_iff ctx body)
  have htemperature : Idle ctx TemperatureStep body ↔ _ :=
    (idle_ofStamp_iff hobj _ _).trans (stampTemperature_eq_self_iff body)
  simp only [STAMP_PIPELINE, List.forall_mem_cons, List.not_mem_nil, false_implies, implies_true,
    and_true]
  constructor
  · intro hp
    obtain ⟨h₁, h₂, h₃, h₄, h₅, h₆, h₇, h₈, h₉, h₁₀⟩ := hp
    exact {
      layout := fun hcc => (hlayout hcc).mp (h₁ hcc)
      ttl := fun hcc => (httl hcc).mp (h₂ hcc)
      anthropic := fun hcc => hanthropic.mp (h₃ hcc)
      rule := hrule.mp h₄
      contextManagement := fun hcc => hcontext.mp (h₅ hcc)
      reasoning := fun hopen => (hreasoning hopen).mp (h₆ hopen)
      streamUsage := fun hopen => husage.mp (h₇ hopen)
      topK := fun hgate => htopK.mp (h₈ hgate)
      temperature := fun hcc => htemperature.mp (h₉ hcc)
      reminder := fun hstrips => hreminder.mp (h₁₀ hstrips) }
  · intro hcarries
    exact ⟨fun hcc => (hlayout hcc).mpr (hcarries.layout hcc),
      fun hcc => (httl hcc).mpr (hcarries.ttl hcc),
      fun hcc => hanthropic.mpr (hcarries.anthropic hcc),
      hrule.mpr hcarries.rule,
      fun hcc => hcontext.mpr (hcarries.contextManagement hcc),
      fun hopen => (hreasoning hopen).mpr (hcarries.reasoning hopen),
      fun hopen => husage.mpr (hcarries.streamUsage hopen),
      fun hgate => htopK.mpr (hcarries.topK hgate),
      fun hcc => htemperature.mpr (hcarries.temperature hcc),
      fun hstrips => hreminder.mpr (hcarries.reminder hstrips)⟩

/-! ## The views of the body -/

/-- No step throws, and where something else does, every view of the body is
the client's. -/
structure StampsAtomically (ctx : StampContext) (reqBuf : JsString) (body : Json) : Prop where
  total : (stampRun ctx none body).hasThrown = false
  atomic : ∀ fault, (stampRun ctx fault body).hasThrown = true →
    (parseInbound ctx fault reqBuf body).forwarded = reqBuf ∧
      (parseInbound ctx fault reqBuf body).captured = reqBuf ∧
      (parseInbound ctx fault reqBuf body).handedToVision =
        (Inbound.mk reqBuf body).handedToVision

/-- A run that throws leaves the bytes and the body it stamped. -/
theorem parseInbound_of_hasThrown {reqBuf : JsString}
    (h : (stampRun ctx fault body).hasThrown = true) :
    parseInbound ctx fault reqBuf body = ⟨reqBuf, (stampRun ctx fault body).body⟩ := by
  unfold parseInbound
  cases hrun : stampRun ctx fault body with
  | returned b changed =>
    rw [hrun] at h
    cases h
  | threw b => rfl

theorem isObject_truthy (hobj : b.isObject = true) : b.truthy = true := by
  cases b with
  | arr items => rfl
  | obj fields => rfl
  | _ => cases hobj

theorem stampRun_of_isObject (ctx : StampContext) (fault : Option ℕ) (hobj : body.isObject = true) :
    stampRun ctx fault body = runUntil ctx fault STAMP_PIPELINE body false :=
  if_pos hobj

/-- Where every step leaves the body alone the views are the client's. -/
theorem atomic_of_idle (reqBuf : JsString) (hobj : body.isObject = true)
    (hidle : ∀ step ∈ STAMP_PIPELINE, step.applies ctx = true → Idle ctx step body) (fault : Option ℕ)
    (hthrew : (stampRun ctx fault body).hasThrown = true) :
    (parseInbound ctx fault reqBuf body).forwarded = reqBuf ∧
      (parseInbound ctx fault reqBuf body).captured = reqBuf ∧
      (parseInbound ctx fault reqBuf body).handedToVision =
        (Inbound.mk reqBuf body).handedToVision := by
  have hbody : (stampRun ctx fault body).body = body := by
    rw [stampRun_of_isObject ctx fault hobj]
    exact body_runUntil_of_idle hidle fault false
  rw [parseInbound_of_hasThrown hthrew, hbody]
  exact ⟨rfl, rfl, rfl⟩

/-- A record is stamped atomically exactly if the run returns and there is
nothing to stamp. -/
theorem stampsAtomically_record_iff (reqBuf : JsString) (hrec : body.isRecord = true) :
    StampsAtomically ctx reqBuf body ↔ walks ctx body = true ∧ CarriesStamps ctx body := by
  have hobj := Json.isObject_of_isRecord hrec
  have htotal : (stampRun ctx none body).hasThrown = (runPipeline ctx body).hasThrown := by
    rw [stampRun_of_isObject ctx none hobj, runUntil_none, runPipeline]
  constructor
  · intro hatomic
    have hreturns := hatomic.total
    rw [htotal] at hreturns
    have hwalks : walks ctx body = true := by
      by_contra hno
      rw [runPipeline_threw hobj (by simpa using hno)] at hreturns
      cases hreturns
    refine ⟨hwalks, (idle_iff_carriesStamps hrec hwalks).mp ?_⟩
    apply idle_of_body_runUntil false hreturns
    intro k hthrew
    rw [← stampRun_of_isObject ctx (some k) hobj] at hthrew ⊢
    have hvision := (hatomic.atomic (some k) hthrew).2.2
    rw [parseInbound_of_hasThrown hthrew] at hvision
    simp only [Inbound.handedToVision, isObject_truthy hobj, if_true] at hvision
    split at hvision
    · exact Option.some.inj hvision
    · cases hvision
  · intro hp
    obtain ⟨hwalks, hcarries⟩ := hp
    obtain ⟨changed, hrun⟩ := runPipeline_returned hobj hwalks
    refine ⟨by rw [htotal, hrun]; rfl, atomic_of_idle reqBuf hobj ?_⟩
    exact (idle_iff_carriesStamps hrec hwalks).mpr hcarries

/-- No step stamps a value that is no record. -/
theorem idle_of_not_record (hobj : body.isObject = true) (hrec : body.isRecord = false) :
    ∀ step ∈ STAMP_PIPELINE, step.applies ctx = true → Idle ctx step body := by
  have hitems : ∀ key, body.items? key = none := fun key => by
    simp [Json.items?, Json.get?_of_not_record hrec]
  have hstamp : ∀ {keys : List JsString} {applies : StampContext → Bool}
      {stamp : StampContext → Json → Json × Bool}, Within keys (stamp ctx) →
      Idle ctx (.ofStamp applies stamp) body :=
    fun h => (idle_ofStamp_iff hobj _ _).mpr (h.fixed body hrec)
  intro step hstep _
  simp only [STAMP_PIPELINE, List.mem_cons, List.not_mem_nil, or_false] at hstep
  rcases hstep with rfl | rfl | rfl | rfl | rfl | rfl | rfl | rfl | rfl | rfl
  · exact ⟨false, by simp [RestampBreakpointsStep, onObject, restampBreakpoints, hitems]⟩
  · obtain ⟨changed, happly⟩ := apply_CacheTtlStep ctx hobj
    refine ⟨changed, ?_⟩
    rw [happly, ttlBody, Json.mapItems_of_not_record hrec, Json.mapItems_of_not_record hrec]
    simp [iterates, Json.get?_of_not_record hrec]
  · exact hstamp (within_stampAnthropicBody ctx.policy)
  · exact hstamp (within_stampModelRule ctx)
  · exact hstamp (within_whenThinking (.set _ (fun _ => STAMP_CONTEXT_MANAGEMENT_VALUE) true))
  · exact hstamp (within_stampReasoning _)
  · exact hstamp within_stampStreamUsage
  · exact hstamp (within_stampBodyTopK ctx)
  · exact hstamp (within_whenThinking (within_stampTemperature _))
  · exact ⟨false, by simp [StripOmoReminderStep, onObject, stripOmoReminder, hitems]⟩

/-- A question in text and a `null` behind it. -/
def nullMessageRequest : Json :=
  .obj [(js "model", .str (js "umans-coder")),
    (js "messages", .arr [message "user" (.arr [textBlock (js "Hi")]), .null])]

end UmansGate.Stamp
