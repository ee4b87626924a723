/-
UmansGate.Stamp.IdempotenceTheorems — whether the pipeline leaves alone the
body it has stamped.

It does not always: thinking that is forced on by `AnthropicBodyStep` gets
its `max_tokens` from the second run only, an effort that is set behind the
rule makes the rule see reasoning the next time, and the fields of a rule's
own extra body are read by steps before it. A run that throws stamps the
same blocks again, and nothing more.

The second run has a body of its own, as one that is parsed from the bytes of
the first. On the object that the first run leaves, the ttl step would write
into the rule's own system blocks, which the rule puts there by reference.
-/
import UmansGate.Stamp.RewalkTheorems
import UmansGate.Stamp.SettleTheorems

namespace UmansGate.Stamp

open UmansGate.Lib

variable {ctx : StampContext} {body : Json} {key : JsString}

/-! ## Two runs -/

/-- The body a run of the pipeline produces. -/
def stampedBody (ctx : StampContext) (body : Json) : Json := (runPipeline ctx body).body

/-- A second run, on a copy of the body, produces what the first one did. -/
def StampedOnce (ctx : StampContext) (body : Json) : Prop :=
  Json.DeepEqual (stampedBody ctx (stampedBody ctx body)) (stampedBody ctx body)

/-! ## What decides it -/

/-- Only the rule brings messages, and the client's own system is in layout
for them. -/
def SystemSettles (ctx : StampContext) (body : Json) : Prop :=
  ctx.stored (js "system") = none → hasMessages body = false →
    hasMessages (withExtra ctx body) = true →
    ∀ blocks, body.get? (js "system") = some (.arr blocks) → SystemInLayout blocks

/-- The rule's own blocks carry what the block steps stamp before they throw
at its messages. -/
structure RuleBlocksSettle (ctx : StampContext) (body : Json) : Prop where
  system : ∀ blocks, ctx.stored (js "system") = some (.arr blocks) →
    (hasMessages (withExtra ctx body) = true → SystemInLayout blocks) ∧
      ∀ b ∈ blocks, lacksTtl b = false
  messages : ∀ messages, ctx.stored (js "messages") = some (.arr messages) →
    LaidOut messages ∧ TtlsReached messages

/-- The second run finds nothing to do. Over the system and the messages of
the rule it may throw: at the system before it stamps, at a message behind
blocks that it stamped. -/
structure Settles (ctx : StampContext) (body : Json) : Prop where
  fields : walks ctx (withExtra ctx body) = true → FieldsSettle ctx body
  system : ctx.claudeCode = true →
    (hasMessages (withExtra ctx body) && systemThrows (withExtra ctx body)) = false →
    SystemSettles ctx body
  blocks : walks ctx (withExtra ctx body) = false →
    (hasMessages (withExtra ctx body) && systemThrows (withExtra ctx body)) = false →
    RuleBlocksSettle ctx body

/-! ## Runs -/

theorem stampedBody_of_isObject (ctx : StampContext) (hobj : body.isObject = true) :
    stampedBody ctx body =
    if walks ctx body then finalBody ctx body
    else if hasMessages body && systemThrows body then body
    else blockBody ctx body := by
  unfold stampedBody
  cases hwalks : walks ctx body with
  | true =>
    obtain ⟨changed, hrun⟩ := runPipeline_returned hobj hwalks
    rw [hrun, if_pos rfl]
    rfl
  | false =>
    rw [runPipeline_threw hobj hwalks, if_neg Bool.false_ne_true]
    rfl

theorem claudeCode_of_not_walks (h : walks ctx body = false) : ctx.claudeCode = true := by
  unfold walks at h
  cases hcc : ctx.claudeCode with
  | true => rfl
  | false =>
    rw [hcc] at h
    cases h

/-! ## A run that throws -/

theorem get?_blockBody_again (hcc : ctx.claudeCode = true) (key : JsString) :
    (blockBody ctx (blockBody ctx body)).get? key = (blockBody ctx body).get? key := by
  by_cases hsystem : key = js "system"
  · have hmsgs := hasMessages_of_walked (get?_blockBody_walkMessages hcc body)
    rw [hsystem, get?_blockBody_walkBlocks hcc (blockBody ctx body), hmsgs,
      get?_blockBody_walkBlocks hcc body]
    cases body.get? (js "system") with
    | none => rfl
    | some v =>
      cases v with
      | arr blocks => simp [onItems, walkBlocks_walkBlocks]
      | _ => rfl
  · by_cases hmessages : key = js "messages"
    · rw [hmessages, get?_blockBody_walkMessages hcc (blockBody ctx body),
        get?_blockBody_walkMessages hcc body, map_walkMessages_again]
    · exact get?_blockBody_of_ne ctx _ (Ne.symm hsystem) (Ne.symm hmessages)

/-- The second run throws where the first one did, over the same blocks. -/
theorem stampedOnce_of_threw (hrec : body.isRecord = true) (hwalks : walks ctx body = false) :
    StampedOnce ctx body := by
  have hobj := Json.isObject_of_isRecord hrec
  have hcc := claudeCode_of_not_walks hwalks
  have hfirst := stampedBody_of_isObject ctx hobj
  rw [hwalks, if_neg Bool.false_ne_true] at hfirst
  unfold StampedOnce
  split at hfirst
  · rw [hfirst, hfirst]
    exact .refl body
  · rename_i hthrows
    have hrec' : (blockBody ctx body).isRecord = true := isRecord_blockBody hrec
    have hmessages := get?_blockBody_walkMessages hcc body
    have hsystem := get?_blockBody_walkBlocks hcc body
    have hwalks' : walks ctx (blockBody ctx body) = false := by
      rw [← hwalks]
      unfold walks
      rw [hasMessages_of_walked hmessages, iterates_of_walked hmessages,
        systemThrows_of_walked hsystem]
    rw [hfirst, stampedBody_of_isObject ctx (isObject_blockBody ctx hobj), hwalks',
      if_neg Bool.false_ne_true, hasMessages_of_walked hmessages, systemThrows_of_walked hsystem,
      if_neg hthrows]
    refine Json.deepEqual_of_get? (isRecord_blockBody hrec') hrec' fun key => ?_
    rw [get?_blockBody_again hcc]
    exact Json.optionRel_refl _

/-! ## A run that returns -/

theorem get?_finalBody_system (ctx : StampContext) (hrec : body.isRecord = true) :
    (finalBody ctx body).get? (js "system") =
      (ctx.stored (js "system")).or ((blockBody ctx body).get? (js "system")) :=
  (get?_finalBody ctx hrec).1

section Returned

variable (hoff : ctx.config.experimentStripOmoReminder = false) (hrec : body.isRecord = true)

include hoff hrec

theorem get?_finalBody_messages_off : (finalBody ctx body).get? (js "messages") =
    (ctx.stored (js "messages")).or ((blockBody ctx body).get? (js "messages")) := by
  have hid : ∀ v, stripValue ctx v = v := by
    intro v
    cases v with
    | arr messages => simp [stripValue, strips, hoff]
    | _ => rfl
  rw [(get?_finalBody ctx hrec).2, funext hid]
  exact Option.map_id'

section ClaudeCode

variable (hcc : ctx.claudeCode = true)

include hcc

/-- The second run sees the messages of the rule, or the client's. -/
theorem messages_again :
    hasMessages (finalBody ctx body) = hasMessages (withExtra ctx body) ∧
      iterates (finalBody ctx body) = iterates (withExtra ctx body) := by
  have hfinal := get?_finalBody_messages_off hoff hrec
  have hextra : (withExtra ctx body).get? (js "messages") = ctx.given body (js "messages") :=
    get?_withExtra hrec (by decide)
  unfold StampContext.given at hextra
  cases hstored : ctx.stored (js "messages") with
  | some own =>
    rw [hstored] at hfinal hextra
    have hsame := hfinal.trans hextra.symm
    exact ⟨hasMessages_of_get? hsame, iterates_of_get? hsame⟩
  | none =>
    rw [hstored, Option.none_or] at hfinal hextra
    rw [get?_blockBody_walkMessages hcc, ← hextra] at hfinal
    exact ⟨hasMessages_of_walked hfinal, iterates_of_walked hfinal⟩

omit hoff in
theorem systemThrows_again : systemThrows (finalBody ctx body) =
    systemThrows (withExtra ctx body) := by
  have hfinal := get?_finalBody_system ctx hrec
  have hextra : (withExtra ctx body).get? (js "system") = ctx.given body (js "system") :=
    get?_withExtra hrec (by decide)
  unfold StampContext.given at hextra
  cases hstored : ctx.stored (js "system") with
  | some own =>
    rw [hstored] at hfinal hextra
    exact systemThrows_of_get? (hfinal.trans hextra.symm)
  | none =>
    rw [hstored, Option.none_or] at hfinal hextra
    rw [get?_blockBody_walkBlocks hcc, ← hextra] at hfinal
    exact systemThrows_of_walked hfinal

/-- The system behind the block steps of the second run, where the rule does
not bring its own. -/
theorem rel_system_iff (hstored : ctx.stored (js "system") = none) :
    Option.Rel Json.DeepEqual ((blockBody ctx (finalBody ctx body)).get? (js "system"))
        ((finalBody ctx body).get? (js "system")) ↔ SystemSettles ctx body := by
  have hfinal := get?_finalBody_system ctx hrec
  rw [hstored, Option.none_or, get?_blockBody_walkBlocks hcc] at hfinal
  rw [get?_blockBody_walkBlocks hcc, (messages_again hoff hrec hcc).1, hfinal, rel_rewalkBlocks_iff]
  exact ⟨fun h _ => h, fun h => h hstored⟩

end ClaudeCode

/-- The second run throws where the rule's own system or messages make it. -/
theorem walks_again : walks ctx (finalBody ctx body) = walks ctx (withExtra ctx body) := by
  unfold walks
  cases hcc : ctx.claudeCode with
  | false => rfl
  | true =>
    obtain ⟨hmessages, hiterates⟩ := messages_again hoff hrec hcc
    rw [hmessages, hiterates, systemThrows_again hrec hcc]

/-- The messages are left alone by a second run that returns. -/
theorem get?_messages_again :
    (finalBody ctx (finalBody ctx body)).get? (js "messages") =
      (finalBody ctx body).get? (js "messages") := by
  have hfinal := get?_finalBody_messages_off hoff hrec
  rw [get?_finalBody_messages_off hoff (isRecord_finalBody hrec)]
  cases hstored : ctx.stored (js "messages") with
  | some own =>
    rw [hfinal, hstored]
    rfl
  | none =>
    rw [hstored, Option.none_or] at hfinal
    rw [Option.none_or]
    cases hcc : ctx.claudeCode with
    | false => rw [blockBody, hcc, if_neg Bool.false_ne_true]
    | true =>
      rw [get?_blockBody_walkMessages hcc (finalBody ctx body), hfinal,
        get?_blockBody_walkMessages hcc body, map_walkMessages_again]

/-- So is the system if it settles. -/
theorem rel_system_again : Option.Rel Json.DeepEqual
      ((finalBody ctx (finalBody ctx body)).get? (js "system"))
      ((finalBody ctx body).get? (js "system")) ↔
    (ctx.claudeCode = true → SystemSettles ctx body) := by
  have hfinal := get?_finalBody_system ctx hrec
  rw [get?_finalBody_system ctx (isRecord_finalBody hrec)]
  cases hstored : ctx.stored (js "system") with
  | some own =>
    rw [hfinal, hstored]
    refine iff_of_true (Json.optionRel_refl _) fun _ hnone => ?_
    rw [hstored] at hnone
    cases hnone
  | none =>
    rw [Option.none_or]
    cases hcc : ctx.claudeCode with
    | false =>
      rw [blockBody, hcc, if_neg Bool.false_ne_true]
      exact iff_of_true (Json.optionRel_refl _) (by simp)
    | true =>
      rw [rel_system_iff hoff hrec hcc hstored]
      exact ⟨fun h _ => h, fun h => h rfl⟩

/-- Two runs that return. -/
theorem deepEqual_finalBody_iff :
    Json.DeepEqual (finalBody ctx (finalBody ctx body)) (finalBody ctx body) ↔
      FieldsSettle ctx body ∧ (ctx.claudeCode = true → SystemSettles ctx body) := by
  have hrec' : (finalBody ctx body).isRecord = true := isRecord_finalBody hrec
  rw [fieldsSettle_iff hrec, ← rel_system_again hoff hrec]
  constructor
  · intro hequal
    exact ⟨fun key _ _ => hequal.get? key, hequal.get? _⟩
  · intro hp
    obtain ⟨hfields, hsystem⟩ := hp
    refine Json.deepEqual_of_get? (isRecord_finalBody hrec') hrec' fun key => ?_
    by_cases hkey : key = js "system"
    · rw [hkey]
      exact hsystem
    · by_cases hkey' : key = js "messages"
      · rw [hkey', get?_messages_again hoff hrec]
        exact Json.optionRel_refl _
      · exact hfields key hkey hkey'

/-- A second run that throws on its way over the messages, which are the
rule's. -/
theorem deepEqual_blockBody_iff (hcc : ctx.claudeCode = true)
    (hwalks : iterates body = true) (hagain : iterates (withExtra ctx body) = false) :
    Json.DeepEqual (blockBody ctx (finalBody ctx body)) (finalBody ctx body) ↔
      SystemSettles ctx body ∧ RuleBlocksSettle ctx body := by
  have hrec' : (finalBody ctx body).isRecord = true := isRecord_finalBody hrec
  have hmsgs := (messages_again hoff hrec hcc).1
  have hsystem : Option.Rel Json.DeepEqual ((blockBody ctx (finalBody ctx body)).get? (js "system"))
      ((finalBody ctx body).get? (js "system")) ↔ SystemSettles ctx body ∧
        ∀ blocks, ctx.stored (js "system") = some (.arr blocks) →
          (hasMessages (withExtra ctx body) = true → SystemInLayout blocks) ∧
            ∀ b ∈ blocks, lacksTtl b = false := by
    cases hstored : ctx.stored (js "system") with
    | none => simp [rel_system_iff hoff hrec hcc hstored]
    | some own =>
      have hno : SystemSettles ctx body := fun hnone => absurd (hnone.symm.trans hstored) (by simp)
      rw [get?_blockBody_walkBlocks hcc, hmsgs, get?_finalBody_system ctx hrec, hstored,
        Option.some_or, rel_walkBlocks_iff]
      exact ⟨fun h => ⟨hno, h⟩, fun h => h.2⟩
  have hmessages : Option.Rel Json.DeepEqual
      ((blockBody ctx (finalBody ctx body)).get? (js "messages"))
      ((finalBody ctx body).get? (js "messages")) ↔
        ∀ messages, ctx.stored (js "messages") = some (.arr messages) →
          LaidOut messages ∧ TtlsReached messages := by
    have hextra : (withExtra ctx body).get? (js "messages") = ctx.given body (js "messages") :=
      get?_withExtra hrec (by decide)
    cases hstored : ctx.stored (js "messages") with
    | none =>
      -- The client's messages did not make the first run throw.
      rw [StampContext.given, hstored, Option.none_or] at hextra
      rw [iterates_of_get? hextra, hwalks] at hagain
      cases hagain
    | some own =>
      rw [get?_blockBody_walkMessages hcc, get?_finalBody_messages_off hoff hrec, hstored,
        Option.some_or, rel_walkMessages_iff]
  constructor
  · intro hequal
    obtain ⟨hsettles, hown⟩ := hsystem.mp (hequal.get? _)
    exact ⟨hsettles, hown, hmessages.mp (hequal.get? _)⟩
  · intro hp
    obtain ⟨hsettles, hown, hmsgs'⟩ := hp
    refine Json.deepEqual_of_get? (isRecord_blockBody hrec') hrec' fun key => ?_
    by_cases hkey : key = js "system"
    · rw [hkey]
      exact hsystem.mpr ⟨hsettles, hown⟩
    · by_cases hkey' : key = js "messages"
      · rw [hkey']
        exact hmessages.mpr hmsgs'
      · rw [get?_blockBody_of_ne ctx _ (Ne.symm hkey) (Ne.symm hkey')]
        exact Json.optionRel_refl _

/-- Behind a first run that returns. -/
theorem stampedOnce_of_returned (hwalks : walks ctx body = true) :
    StampedOnce ctx body ↔ Settles ctx body := by
  have hobj := Json.isObject_of_isRecord hrec
  have hrec' : (finalBody ctx body).isRecord = true := isRecord_finalBody hrec
  have hfirst := stampedBody_of_isObject ctx hobj
  have hsecond := stampedBody_of_isObject ctx (Json.isObject_of_isRecord hrec')
  rw [hwalks, if_pos rfl] at hfirst
  rw [StampedOnce, hfirst, hsecond, walks_again hoff hrec]
  cases hagain : walks ctx (withExtra ctx body) with
  | true =>
    rw [if_pos rfl, deepEqual_finalBody_iff hoff hrec]
    have hpasses : ctx.claudeCode = true →
        (hasMessages (withExtra ctx body) && systemThrows (withExtra ctx body)) = false := by
      intro hcc
      rw [walks, hcc, Bool.not_true, Bool.false_or, Bool.and_eq_true, Bool.not_eq_true'] at hagain
      exact hagain.1
    constructor
    · intro hp
      obtain ⟨hfields, hsystem⟩ := hp
      exact ⟨fun _ => hfields, fun hcc _ => hsystem hcc, fun h => absurd (hagain.symm.trans h) (by simp)⟩
    · intro hsettles
      exact ⟨hsettles.fields hagain, fun hcc => hsettles.system hcc (hpasses hcc)⟩
  | false =>
    have hcc := claudeCode_of_not_walks hagain
    have hthrows := systemThrows_again hrec hcc
    obtain ⟨hmessages, -⟩ := messages_again hoff hrec hcc
    rw [if_neg Bool.false_ne_true, hmessages, hthrows]
    have hfields : walks ctx (withExtra ctx body) = true → FieldsSettle ctx body :=
      fun h => absurd (hagain.symm.trans h) (by simp)
    cases hsystem : hasMessages (withExtra ctx body) && systemThrows (withExtra ctx body) with
    | true =>
      rw [if_pos rfl]
      refine iff_of_true (.refl _) ⟨hfields, fun _ h => ?_, fun _ h => ?_⟩
      · exact absurd (hsystem.symm.trans h) (by simp)
      · exact absurd (hsystem.symm.trans h) (by simp)
    | false =>
      have hstops : iterates (withExtra ctx body) = false := by
        simpa [walks, hcc, hsystem] using hagain
      rw [walks, hcc, Bool.not_true, Bool.false_or, Bool.and_eq_true] at hwalks
      rw [if_neg Bool.false_ne_true, deepEqual_blockBody_iff hoff hrec hcc hwalks.2 hstops]
      constructor
      · intro hp
        obtain ⟨hsettles, hblocks⟩ := hp
        exact ⟨hfields, fun _ _ => hsettles, fun _ _ => hblocks⟩
      · intro hsettles
        exact ⟨hsettles.system hcc hsystem, hsettles.blocks hagain hsystem⟩

end Returned

/-- The context the proxy stamps it in. -/
def coderContext (thinking : String) : StampContext :=
  requestContext claudeCodeConfig false [] (coderRequest thinking)

end UmansGate.Stamp
