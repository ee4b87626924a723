/-
UmansGate.Stamp.LayoutTheorems — the cache breakpoints of the body that
leaves the pipeline (ADR 0002).

`RestampBreakpointsStep` lays the body out first. The only step behind it
that changes messages is the reminder's, and it changes the first message
alone: the layout is lost where that message is the last user message and
its last block is a reminder behind other blocks.
-/
import UmansGate.Stamp.RunTheorems

namespace UmansGate.Stamp

open UmansGate.Lib

variable {ctx : StampContext} {body m : Json} {messages blocks content rest : List Json}

/-! ## Layout B -/

/-- The last user message with blocks. -/
def IsLastUser (messages : List Json) (mi : ℕ) : Prop :=
  ∃ m, messages[mi]? = some m ∧ isBreakpointTarget m = true ∧
    ∀ mj m', mi < mj → messages[mj]? = some m' → isBreakpointTarget m' = false

/-- The last block carries the breakpoint exactly where it should, and no
block before it does. -/
def ContentLaidOut (should : Prop) (content : List Json) : Prop :=
  ∀ init b, content = init ++ [b] →
    (hasBreakpoint b = true ↔ should) ∧ ∀ x ∈ init, hasBreakpoint x = false

/-- Of all blocks the last one of the last user message carries a breakpoint. -/
def LaidOut (messages : List Json) : Prop :=
  ∀ mi m content, messages[mi]? = some m → m.items? (js "content") = some content →
    ContentLaidOut (IsLastUser messages mi) content

/-- A text block at the head of the system carries a breakpoint and another
keeps what it had; no later block does. A system without blocks is kept. -/
def SystemLaidOut (before after : Option Json) : Prop :=
  match before with
  | some (.arr (b :: _)) =>
    ∃ b' rest', after = some (.arr (b' :: rest')) ∧ (∀ x ∈ rest', hasBreakpoint x = false) ∧
      hasBreakpoint b' = (if isTextBlock b = some true then true else hasBreakpoint b)
  | before => after = before

/-- The messages are laid out, and a content that is a string stays one. -/
def MessagesLaidOut (before : List Json) (after : Option Json) : Prop :=
  (∀ messages, after = some (.arr messages) → LaidOut messages) ∧
    ∀ (mi : ℕ) (m : Json) (s : JsString),
      before[mi]? = some m → m.get? (js "content") = some (.str s) →
      ∃ (messages : List Json) (m' : Json), after = some (.arr messages) ∧ messages[mi]? = some m' ∧
        m'.get? (js "content") = some (.str s)

/-! ## The last user message -/

theorem lastUserIdx_eq_none (h : lastUserIdx messages = none) :
    ∀ (mi : ℕ) (m : Json), messages[mi]? = some m → isBreakpointTarget m = false := by
  induction messages with
  | nil => simp
  | cons m rest ih =>
    unfold lastUserIdx at h
    split at h
    · cases h
    · rename_i hrest
      split at h
      · cases h
      · rename_i hm
        intro mi m' hmi
        cases mi with
        | zero =>
          rw [List.getElem?_cons_zero, Option.some.injEq] at hmi
          subst hmi
          simpa using hm
        | succ mi => exact ih hrest mi m' (by simpa using hmi)

/-- A message behind the first one is the last user message of the rest too. -/
theorem isLastUser_succ (m : Json) (rest : List Json) (mi : ℕ) :
    IsLastUser (m :: rest) (mi + 1) ↔ IsLastUser rest mi := by
  unfold IsLastUser
  simp only [List.getElem?_cons_succ]
  constructor
  · intro hp
    obtain ⟨t, ht, htarget, hlater⟩ := hp
    exact ⟨t, ht, htarget, fun mj m' hlt hm' => hlater (mj + 1) m' (by omega) (by simpa using hm')⟩
  · intro hp
    obtain ⟨t, ht, htarget, hlater⟩ := hp
    refine ⟨t, ht, htarget, fun mj m' hlt hm' => ?_⟩
    cases mj with
    | zero => omega
    | succ mj => exact hlater mj m' (by omega) (by simpa using hm')

theorem isLastUser_zero (m : Json) (rest : List Json) :
    IsLastUser (m :: rest) 0 ↔
      isBreakpointTarget m = true ∧
        ∀ (mi : ℕ) (m' : Json), rest[mi]? = some m' → isBreakpointTarget m' = false := by
  unfold IsLastUser
  simp only [List.getElem?_cons_zero, Option.some.injEq]
  constructor
  · rintro ⟨t, rfl, htarget, hlater⟩
    exact ⟨htarget, fun mi m' hm' => hlater (mi + 1) m' (by omega) (by simpa using hm')⟩
  · intro hp
    obtain ⟨htarget, hlater⟩ := hp
    refine ⟨m, rfl, htarget, fun mj m' hlt hm' => ?_⟩
    cases mj with
    | zero => omega
    | succ mj => exact hlater mj m' (by simpa using hm')

/-- The loop finds the last user message. -/
theorem lastUserIdx_eq_some (messages : List Json) (mi : ℕ) :
    lastUserIdx messages = some mi ↔ IsLastUser messages mi := by
  induction messages generalizing mi with
  | nil => simp [lastUserIdx, IsLastUser]
  | cons m rest ih =>
    unfold lastUserIdx
    cases hrest : lastUserIdx rest with
    | some i =>
      have hlast : IsLastUser rest i := (ih i).mp hrest
      cases mi with
      | zero =>
        simp only [Option.some.injEq, Nat.add_eq_zero_iff, one_ne_zero, and_false, false_iff]
        intro hzero
        obtain ⟨t, ht, htarget, _⟩ := hlast
        rw [((isLastUser_zero m rest).mp hzero).2 i t ht] at htarget
        cases htarget
      | succ mi =>
        rw [isLastUser_succ, ← ih, hrest]
        simp
    | none =>
      have hnone := lastUserIdx_eq_none hrest
      cases mi with
      | zero =>
        rw [isLastUser_zero]
        simpa using fun _ => hnone
      | succ mi =>
        rw [isLastUser_succ, ← ih, hrest]
        simp

/-- The last user message of a list of other contents, if no content is
emptied. -/
theorem isLastUser_mapIdx (f : ℕ → List Json → List Json)
    (hempty : ∀ mi content, (f mi content).isEmpty = content.isEmpty) (messages : List Json)
    (mi : ℕ) :
    IsLastUser (messages.mapIdx fun mi m => m.mapItems (js "content") (f mi)) mi ↔
      IsLastUser messages mi := by
  have htarget : ∀ (mi : ℕ) (m : Json), isBreakpointTarget (m.mapItems (js "content") (f mi)) =
      isBreakpointTarget m :=
    fun mi m => isBreakpointTarget_mapItems (f mi) m fun content _ => hempty mi content
  unfold IsLastUser
  simp only [List.getElem?_mapIdx, Option.map_eq_some_iff]
  constructor
  · rintro ⟨_, ⟨m, hm, rfl⟩, hrole, hlater⟩
    refine ⟨m, hm, (htarget mi m).symm.trans hrole, fun mj m' hlt hm' => ?_⟩
    exact (htarget mj m').symm.trans (hlater mj _ hlt ⟨m', hm', rfl⟩)
  · intro hp
    obtain ⟨m, hm, hrole, hlater⟩ := hp
    refine ⟨_, ⟨m, hm, rfl⟩, (htarget mi m).trans hrole, ?_⟩
    rintro mj _ hlt ⟨m', hm', rfl⟩
    exact (htarget mj m').trans (hlater mj m' hlt hm')

/-! ## The block steps -/

/-- The content of a message behind both block steps. -/
def blockContent (lastUser : Option ℕ) (mi : ℕ) (content : List Json) : List Json :=
  (restampContent lastUser mi content).map (stampBlockTtl STAMP_CACHE_TTL_VALUE)

/-- The messages behind both block steps. -/
def blockMessages (messages : List Json) : List Json :=
  messages.mapIdx fun mi m => m.mapItems (js "content") (blockContent (lastUserIdx messages) mi)

theorem blockMessages_eq (messages : List Json) :
    (restampMessages messages).map
        (Json.mapItems (js "content") (List.map (stampBlockTtl STAMP_CACHE_TTL_VALUE))) =
      blockMessages messages := by
  apply List.ext_getElem?
  intro mi
  simp only [restampMessages, blockMessages, List.getElem?_map, List.getElem?_mapIdx, Option.map_map]
  congr 1
  funext m
  exact Json.mapItems_mapItems _ _ _ m

theorem blockContent_isEmpty (lastUser : Option ℕ) (mi : ℕ) (content : List Json) :
    (blockContent lastUser mi content).isEmpty = content.isEmpty := by
  cases content <;> simp [blockContent, restampContent]

/-- The blocks of one message end up with the breakpoints they should have. -/
theorem contentLaidOut_blockContent (lastUser : Option ℕ) (mi : ℕ) (content : List Json) :
    ContentLaidOut (lastUser = some mi) (blockContent lastUser mi content) := by
  intro init b heq
  rcases List.eq_nil_or_concat content with rfl | ⟨init₀, b₀, rfl⟩
  · simp [blockContent, restampContent] at heq
  · simp only [blockContent, restampContent, List.concat_eq_append, List.length_append,
      List.length_cons, List.length_nil, List.mapIdx_concat, List.map_append, List.map_cons,
      List.map_nil] at heq
    obtain ⟨rfl, hb⟩ := List.append_inj' heq rfl
    rw [List.cons.injEq] at hb
    rw [← hb.1, hasBreakpoint_stampBlockTtl, hasBreakpoint_restampBlock]
    refine ⟨by simp [isLastBlockOfLastUser], fun x hx => ?_⟩
    obtain ⟨y, hy, rfl⟩ := List.mem_map.mp hx
    obtain ⟨bi, hbi, rfl⟩ := List.mem_mapIdx.mp hy
    rw [hasBreakpoint_stampBlockTtl, hasBreakpoint_restampBlock]
    have hne : bi ≠ init₀.length := by omega
    simp [isLastBlockOfLastUser, hne]

theorem laidOut_blockMessages (messages : List Json) : LaidOut (blockMessages messages) := by
  intro mi m content hm hcontent
  rw [blockMessages, List.getElem?_mapIdx, Option.map_eq_some_iff] at hm
  obtain ⟨m₀, hm₀, rfl⟩ := hm
  rw [Json.items?_mapItems, Option.map_eq_some_iff] at hcontent
  obtain ⟨content₀, hcontent₀, rfl⟩ := hcontent
  have hlast := isLastUser_mapIdx (blockContent (lastUserIdx messages))
    (blockContent_isEmpty (lastUserIdx messages)) messages mi
  intro init b heq
  have hlaid := contentLaidOut_blockContent (lastUserIdx messages) mi content₀ init b heq
  rw [lastUserIdx_eq_some, ← hlast] at hlaid
  exact hlaid

/-! ## The reminder -/

/-- The last block is a reminder, behind a block that is none. -/
def EndsInReminder (content : List Json) : Prop :=
  ∃ init b, content = init ++ [b] ∧ isOmoReminderBlock b = true ∧
    ∃ x ∈ init, isOmoReminderBlock x = false

/-- The reminder takes the breakpoint with it: the first message is the last
user message and ends in a reminder behind other blocks. -/
def RemovesBreakpoint (messages : List Json) : Prop :=
  IsLastUser messages 0 ∧ ∃ m rest content, messages = m :: rest ∧
    m.items? (js "content") = some content ∧ EndsInReminder content

theorem endsInReminder_iff : EndsInReminder content ↔
    ∃ init, content.map isOmoReminderBlock = init ++ [true] ∧ false ∈ init := by
  constructor
  · rintro ⟨init, b, rfl, hb, x, hx, hno⟩
    exact ⟨init.map isOmoReminderBlock, by simp [hb], List.mem_map.mpr ⟨x, hx, hno⟩⟩
  · intro hp
    obtain ⟨init, hmap, hfalse⟩ := hp
    obtain ⟨init', last, rfl, hinit, hlast⟩ := List.map_eq_append_iff.mp hmap
    obtain ⟨b, rest, rfl, hb, hrest⟩ := List.map_eq_cons_iff.mp hlast
    obtain rfl := List.map_eq_nil_iff.mp hrest
    rw [← hinit] at hfalse
    obtain ⟨x, hx, hno⟩ := List.mem_map.mp hfalse
    exact ⟨init', b, rfl, hb, x, hx, hno⟩

/-- The blocks of the first message without the reminder. -/
def keepBlocks (content : List Json) : List Json := content.filter fun b => !isOmoReminderBlock b

theorem keepBlocks_concat (init : List Json) {b : Json} (h : isOmoReminderBlock b = false) :
    keepBlocks (init ++ [b]) = keepBlocks init ++ [b] := by
  simp [keepBlocks, h]

theorem keepBlocks_concat_reminder (init : List Json) {b : Json} (h : isOmoReminderBlock b = true) :
    keepBlocks (init ++ [b]) = keepBlocks init := by
  simp [keepBlocks, h]

theorem keepBlocks_eq_nil : keepBlocks content = [] ↔ ∀ b ∈ content, isOmoReminderBlock b = true := by
  simp [keepBlocks]

theorem items?_keepBlocks (hitems : m.items? (js "content") = some content) :
    (m.mapItems (js "content") keepBlocks).items? (js "content") = some (keepBlocks content) := by
  rw [Json.items?_mapItems, hitems, Option.map_some]

theorem withoutReminder_cons (m : Json) (rest : List Json) :
    withoutReminder (m :: rest) = m.mapItems (js "content") keepBlocks :: rest :=
  rfl

/-- While a block is kept the first message is as much a target as before. -/
theorem isLastUser_withoutReminder (rest : List Json)
    (hitems : m.items? (js "content") = some content)
    (hkeep : keepBlocks content ≠ []) :
    IsLastUser (withoutReminder (m :: rest)) 0 ↔ IsLastUser (m :: rest) 0 := by
  have hcontent : content ≠ [] := by
    rintro rfl
    exact hkeep rfl
  have htarget : isBreakpointTarget (m.mapItems (js "content") keepBlocks) =
      isBreakpointTarget m := by
    refine isBreakpointTarget_mapItems keepBlocks m fun c hc => ?_
    rw [hitems, Option.some.injEq] at hc
    subst hc
    rw [List.isEmpty_eq_false_iff.mpr hkeep, List.isEmpty_eq_false_iff.mpr hcontent]
  rw [withoutReminder_cons, isLastUser_zero, isLastUser_zero, htarget]

/-- A laid out list stays one without the reminder unless the breakpoint goes
with it. -/
theorem laidOut_withoutReminder (h : LaidOut messages) :
    LaidOut (withoutReminder messages) ↔ ¬ RemovesBreakpoint messages := by
  cases messages with
  | nil =>
    refine ⟨fun _ hrem => ?_, fun _ => h⟩
    obtain ⟨_, m, rest, content, heq, _⟩ := hrem
    cases heq
  | cons m rest =>
    have hfirst := h 0 m
    constructor
    · intro hlaid hrem
      obtain ⟨hlast, m', rest', _, heq, hitems, init, b, rfl, hb, x, hx, hkeep⟩ := hrem
      cases heq
      -- The last block that is kept was not the last one, so it has no breakpoint.
      have hne : keepBlocks init ≠ [] := by
        intro hnil
        rw [keepBlocks_eq_nil.mp hnil x hx] at hkeep
        cases hkeep
      have hkept := keepBlocks_concat_reminder init hb
      obtain ⟨init', y, hinit⟩ := (List.eq_nil_or_concat (keepBlocks init)).resolve_left hne
      rw [List.concat_eq_append] at hinit
      have hy : y ∈ init := (List.mem_filter.mp (by rw [← keepBlocks, hinit]; simp)).1
      have hno := (hfirst _ rfl hitems init b rfl).2 y hy
      have hlast' := (isLastUser_withoutReminder rest hitems (by rwa [hkept])).mpr hlast
      have hitems' := items?_keepBlocks hitems
      have hyes := ((hlaid 0 _ _ rfl hitems' init' y (hkept.trans hinit)).1).mpr hlast'
      rw [hno] at hyes
      cases hyes
    · intro hrem mi m' content hm' hcontent
      cases mi with
      | succ mi =>
        have hlaid := h (mi + 1) m' content hm' hcontent
        rw [withoutReminder_cons, isLastUser_succ, ← isLastUser_succ m rest mi]
        exact hlaid
      | zero =>
        rw [withoutReminder_cons, List.getElem?_cons_zero, Option.some.injEq] at hm'
        subst hm'
        rw [Json.items?_mapItems, Option.map_eq_some_iff] at hcontent
        obtain ⟨content₀, hitems, rfl⟩ := hcontent
        intro init b heq
        have hkeep : keepBlocks content₀ ≠ [] := by simp [heq]
        rw [isLastUser_withoutReminder rest hitems hkeep]
        rcases List.eq_nil_or_concat content₀ with rfl | ⟨init₀, b₀, rfl⟩
        · exact absurd rfl hkeep
        rw [List.concat_eq_append] at hitems heq
        obtain ⟨hb₀, hinit₀⟩ := hfirst _ rfl hitems init₀ b₀ rfl
        have hnone : ∀ x ∈ keepBlocks init₀, hasBreakpoint x = false :=
          fun x hx => hinit₀ x (List.mem_filter.mp hx).1
        cases hreminder : isOmoReminderBlock b₀ with
        | false =>
          rw [keepBlocks_concat init₀ hreminder] at heq
          obtain ⟨rfl, hb⟩ := List.append_inj' heq rfl
          cases hb
          exact ⟨hb₀, hnone⟩
        | true =>
          rw [keepBlocks_concat_reminder init₀ hreminder] at heq
          have hnotLast : ¬ IsLastUser (m :: rest) 0 := by
            intro hlast
            have hmem : b ∈ keepBlocks init₀ := by simp [heq]
            obtain ⟨hb, hno⟩ := List.mem_filter.mp hmem
            exact hrem ⟨hlast, m, rest, _, rfl, hitems, init₀, b₀, rfl, hreminder, b, hb,
              by simpa using hno⟩
          rw [heq] at hnone
          refine ⟨?_, fun x hx => hnone x (List.mem_append_left _ hx)⟩
          simp [hnotLast, hnone b (by simp)]

/-- The block steps keep what the reminder is told by. -/
theorem removesBreakpoint_blockMessages
    (hreminders : ∀ lastUser mi, ∀ m ∈ messages, ∀ content,
      m.items? (js "content") = some content →
        (blockContent lastUser mi content).map isOmoReminderBlock =
          content.map isOmoReminderBlock) :
    RemovesBreakpoint (blockMessages messages) ↔ RemovesBreakpoint messages := by
  have hlast := isLastUser_mapIdx (blockContent (lastUserIdx messages))
    (blockContent_isEmpty (lastUserIdx messages)) messages 0
  cases messages with
  | nil => rfl
  | cons m rest =>
    unfold RemovesBreakpoint
    rw [blockMessages, hlast]
    simp only [List.mapIdx_cons, List.cons.injEq]
    constructor
    · rintro ⟨hzero, _, _, content', ⟨rfl, rfl⟩, hitems, hends⟩
      rw [Json.items?_mapItems, Option.map_eq_some_iff] at hitems
      obtain ⟨content, hitems, rfl⟩ := hitems
      refine ⟨hzero, m, rest, content, ⟨rfl, rfl⟩, hitems, ?_⟩
      rw [endsInReminder_iff, hreminders _ _ m (by simp) content hitems] at hends
      exact endsInReminder_iff.mpr hends
    · rintro ⟨hzero, _, _, content, ⟨rfl, rfl⟩, hitems, hends⟩
      refine ⟨hzero, _, _, _, ⟨rfl, rfl⟩,
        (Json.items?_mapItems _ _ m).trans (congrArg (Option.map _) hitems), ?_⟩
      rw [endsInReminder_iff, hreminders _ _ m (by simp) content hitems]
      exact endsInReminder_iff.mp hends

/-! ## The body that leaves the pipeline -/

/-- A message value behind `StripOmoReminderStep`. -/
def stripValue (ctx : StampContext) (v : Json) : Json :=
  match v with
  | .arr messages => if strips ctx then .arr (withoutReminder messages) else v
  | _ => v

theorem get?_stripBody_messages (ctx : StampContext) (b : Json) :
    (stripBody ctx b).get? (js "messages") = (b.get? (js "messages")).map (stripValue ctx) := by
  unfold stripBody
  split
  · rename_i hstrips
    rw [Json.get?_mapItems]
    cases b.get? (js "messages") with
    | none => rfl
    | some v => cases v <;> simp [stripValue, hstrips]
  · rename_i hstrips
    cases b.get? (js "messages") with
    | none => rfl
    | some v => cases v <;> simp [stripValue, hstrips]

theorem get?_finalBody (ctx : StampContext) (hrec : body.isRecord = true) :
    (finalBody ctx body).get? (js "system") =
        (ctx.stored (js "system")).or ((blockBody ctx body).get? (js "system")) ∧
      (finalBody ctx body).get? (js "messages") =
        ((ctx.stored (js "messages")).or ((blockBody ctx body).get? (js "messages"))).map
          (stripValue ctx) := by
  have hblock : (blockBody ctx body).isRecord = true := isRecord_blockBody hrec
  constructor
  · rw [← get?_stampFields hblock (by decide), finalBody, stripBody]
    split
    · exact Json.get?_mapItems_of_ne (by decide) _ _
    · rfl
  · rw [← get?_stampFields hblock (by decide), finalBody, get?_stripBody_messages]

/-- The messages behind the block steps. -/
theorem get?_blockBody_messages (hcc : ctx.claudeCode = true)
    (hitems : body.items? (js "messages") = some messages) (hne : messages ≠ [])
    (hwalk : messages.any isNull = false) :
    (blockBody ctx body).get? (js "messages") = some (.arr (blockMessages messages)) := by
  have hmsgs : hasMessages body = true := by simp [hasMessages, hitems, hne]
  have hrestamped : (restampedBody body).items? (js "messages") = some (restampMessages messages) := by
    rw [restampedBody, Json.items?_mapItems, items?_messages_mapItems_system, hitems, Option.map_some]
  rw [← any_isNull_restampMessages] at hwalk
  rw [blockBody, if_pos hcc, layoutBody, if_pos hmsgs, ttlBody]
  apply Json.items?_eq_some.mp
  rw [Json.items?_mapItems, items?_messages_mapItems_system, hrestamped, Option.map_some,
    stampTtlMessages_fst _ hwalk, blockMessages_eq]

theorem get?_blockBody_system (hcc : ctx.claudeCode = true) (hmsgs : hasMessages body = true) :
    (blockBody ctx body).get? (js "system") =
      (body.mapItems (js "system") (List.map (stampBlockTtl STAMP_CACHE_TTL_VALUE) ∘ restampBlocks)).get?
        (js "system") := by
  rw [blockBody, if_pos hcc, layoutBody, if_pos hmsgs, ttlBody,
    Json.get?_mapItems_of_ne (by decide), Json.get?_mapItems, restampedBody,
    Json.get?_mapItems_of_ne (by decide), Json.get?_mapItems, Json.get?_mapItems]
  cases body.get? (js "system") with
  | none => rfl
  | some v => cases v <;> rfl

/-- The system behind the block steps is laid out. -/
theorem systemLaidOut_blockBody (hcc : ctx.claudeCode = true) (hmsgs : hasMessages body = true) :
    SystemLaidOut (body.get? (js "system")) ((blockBody ctx body).get? (js "system")) := by
  rw [get?_blockBody_system hcc hmsgs, Json.get?_mapItems]
  cases body.get? (js "system") with
  | none => rfl
  | some v =>
    cases v with
    | arr blocks =>
      cases blocks with
      | nil => rfl
      | cons b rest =>
        refine ⟨_, _, rfl, fun x hx => ?_, ?_⟩
        · obtain ⟨y, hy, rfl⟩ := List.mem_map.mp hx
          obtain ⟨z, _, rfl⟩ := List.mem_map.mp hy
          rw [hasBreakpoint_stampBlockTtl, hasBreakpoint_stripBreakpoint]
        · rw [hasBreakpoint_stampBlockTtl]
          split
          · exact hasBreakpoint_withBreakpoint b
          · rfl
    | _ => rfl

/-! ## Anthropic requests -/

/-- An Anthropic request body: its messages are objects, and so is every block
of a message and of the system. -/
structure IsAnthropicBody (body : Json) (messages : List Json) : Prop where
  items : body.items? (js "messages") = some messages
  objects : ∀ m ∈ messages, m.isRecord = true
  blocks : ∀ m ∈ messages, ∀ content, m.items? (js "content") = some content →
    ∀ b ∈ content, b.isRecord = true
  system : ∀ blocks, body.items? (js "system") = some blocks → ∀ b ∈ blocks, b.isRecord = true

namespace IsAnthropicBody

variable (h : IsAnthropicBody body messages)

include h

theorem isRecord : body.isRecord = true := Json.isRecord_of_get? (Json.items?_eq_some.mp h.items)

theorem not_null : messages.any isNull = false := by
  rw [List.any_eq_false]
  intro m hm
  have hrec := h.objects m hm
  cases m with
  | obj fields => simp [isNull]
  | _ => cases hrec

theorem walks_eq_true (ctx : StampContext) : walks ctx body = true := by
  have hiterates : iterates body = true := by
    simp [iterates, Json.items?_eq_some.mp h.items, h.not_null]
  have hsystem : systemThrows body = false := by
    unfold systemThrows
    split
    · rename_i blocks hblocks
      cases blocks with
      | nil => rfl
      | cons b rest =>
        have hrec := h.system _ hblocks b (by simp)
        cases b with
        | null => cases hrec
        | _ => rfl
    · rfl
  simp [walks, hiterates, hsystem]

/-- A block of an object keeps all but its `cache_control`. -/
theorem blockContent_reminders (lastUser : Option ℕ) (mi : ℕ) (m : Json) (hm : m ∈ messages)
    (content : List Json) (hitems : m.items? (js "content") = some content) :
    (blockContent lastUser mi content).map isOmoReminderBlock = content.map isOmoReminderBlock := by
  have hrec := h.blocks m hm content hitems
  apply List.ext_getElem?
  intro bi
  simp only [blockContent, restampContent, List.getElem?_map, List.getElem?_mapIdx, Option.map_map]
  cases hb : content[bi]? with
  | none => rfl
  | some b =>
    refine congrArg some (isOmoReminderBlock_of_erase ?_)
    refine (eraseCacheControl_stampBlockTtl _ _).trans ?_
    simp only [restampBlock]
    split
    · exact eraseCacheControl_withBreakpoint (hrec b (List.mem_of_getElem? hb))
    · exact eraseCacheControl_stripBreakpoint b

end IsAnthropicBody

/-- The steps that write messages keep a content that is a string. -/
theorem stringKept_finalMessages {mi : ℕ} {s : JsString} (hm : messages[mi]? = some m)
    (hstr : m.get? (js "content") = some (.str s)) :
    (blockMessages messages)[mi]? = some m ∧ (withoutReminder (blockMessages messages))[mi]? = some m := by
  have hnone : m.items? (js "content") = none := by simp [Json.items?, hstr]
  have hblock : (blockMessages messages)[mi]? = some m := by
    rw [blockMessages, List.getElem?_mapIdx, hm, Option.map_some, Json.mapItems_of_none hnone]
  refine ⟨hblock, ?_⟩
  cases hmsgs : blockMessages messages with
  | nil => simp [hmsgs] at hblock
  | cons first rest =>
    rw [hmsgs] at hblock
    cases mi with
    | zero =>
      rw [List.getElem?_cons_zero, Option.some.injEq] at hblock
      rw [withoutReminder_cons, hblock, Json.mapItems_of_none hnone]
      rfl
    | succ mi => exact hblock

/-- Whether the messages the pipeline builds itself are laid out. -/
theorem messagesLaidOut_finalMessages (h : IsAnthropicBody body messages) :
    MessagesLaidOut messages (some (stripValue ctx (.arr (blockMessages messages)))) ↔
      (strips ctx = true → ¬ RemovesBreakpoint messages) := by
  have hremoves := removesBreakpoint_blockMessages h.blockContent_reminders
  have hlaid := laidOut_blockMessages messages
  have hstripped := laidOut_withoutReminder hlaid
  rw [hremoves] at hstripped
  cases hstrips : strips ctx with
  | true =>
    have hvalue : stripValue ctx (.arr (blockMessages messages)) =
        .arr (withoutReminder (blockMessages messages)) := by simp [stripValue, hstrips]
    rw [hvalue]
    constructor
    · intro hfinal _
      exact hstripped.mp (hfinal.1 _ rfl)
    · intro hkept
      refine ⟨fun out hout => ?_, fun mi m s hm hstr =>
        ⟨_, m, rfl, (stringKept_finalMessages hm hstr).2, hstr⟩⟩
      cases hout
      exact hstripped.mpr (hkept rfl)
  | false =>
    have hvalue : stripValue ctx (.arr (blockMessages messages)) = .arr (blockMessages messages) := by
      simp [stripValue, hstrips]
    rw [hvalue]
    refine ⟨fun _ => by simp, fun _ => ⟨fun out hout => ?_, fun mi m s hm hstr =>
      ⟨_, m, rfl, (stringKept_finalMessages hm hstr).1, hstr⟩⟩⟩
    cases hout
    exact hlaid

/-- When the layout survives the steps behind `RestampBreakpointsStep`. -/
structure LayoutKept (ctx : StampContext) (body : Json) (messages : List Json) : Prop where
  /-- A system of the rule's own is laid out by itself. -/
  ruleSystem : ∀ v, ctx.stored (js "system") = some v →
    SystemLaidOut (body.get? (js "system")) (some v)
  /-- So are messages of the rule's own. -/
  ruleMessages : ∀ v, ctx.stored (js "messages") = some v →
    MessagesLaidOut messages (some (stripValue ctx v))
  /-- The reminder is not the block with the breakpoint. -/
  reminder : ctx.stored (js "messages") = none → strips ctx = true → ¬ RemovesBreakpoint messages

/-- The pipeline returns a body whose system and messages are in Layout B. -/
def ReturnsLayoutB (ctx : StampContext) (body : Json) (messages : List Json) : Prop :=
  ∃ out changed, runPipeline ctx body = .returned out changed ∧
    SystemLaidOut (body.get? (js "system")) (out.get? (js "system")) ∧
    MessagesLaidOut messages (out.get? (js "messages"))

section Pipeline

variable (h : IsAnthropicBody body messages) (hne : messages ≠ []) (hgate : ctx.claudeCode = true)

include h hne hgate

theorem get?_finalBody_messages : (finalBody ctx body).get? (js "messages") =
    ((ctx.stored (js "messages")).or (some (.arr (blockMessages messages)))).map (stripValue ctx) := by
  rw [(get?_finalBody ctx h.isRecord).2, get?_blockBody_messages hgate h.items hne h.not_null]

theorem layoutKept_of_returns (hreturns : ReturnsLayoutB ctx body messages) :
    LayoutKept ctx body messages := by
  obtain ⟨out, changed, heq, hsys, hmsg⟩ := hreturns
  obtain ⟨changed', hrun⟩ := runPipeline_returned (Json.isObject_of_isRecord h.isRecord)
    (h.walks_eq_true ctx)
  rw [hrun] at heq
  cases heq
  rw [(get?_finalBody ctx h.isRecord).1] at hsys
  rw [get?_finalBody_messages h hne hgate] at hmsg
  constructor
  · intro v hv
    simpa [hv] using hsys
  · intro v hv
    simpa [hv] using hmsg
  · intro hnone
    exact (messagesLaidOut_finalMessages h).mp (by simpa [hnone] using hmsg)

theorem returns_of_layoutKept (hkept : LayoutKept ctx body messages) :
    ReturnsLayoutB ctx body messages := by
  have hmsgs : hasMessages body = true := by simp [hasMessages, h.items, hne]
  obtain ⟨changed, hrun⟩ := runPipeline_returned (Json.isObject_of_isRecord h.isRecord)
    (h.walks_eq_true ctx)
  refine ⟨_, changed, hrun, ?_, ?_⟩
  · rw [(get?_finalBody ctx h.isRecord).1]
    cases hstored : ctx.stored (js "system") with
    | none => exact systemLaidOut_blockBody hgate hmsgs
    | some v => exact hkept.ruleSystem v hstored
  · rw [get?_finalBody_messages h hne hgate]
    cases hstored : ctx.stored (js "messages") with
    | none => exact (messagesLaidOut_finalMessages h).mpr (hkept.reminder hstored)
    | some v => exact hkept.ruleMessages v hstored

end Pipeline

/-- The pipeline returns a body in Layout B exactly when no reminder takes the
breakpoint away, and a rule that brings its own system or messages brings
them laid out. -/
theorem pipeline_layout_iff (h : IsAnthropicBody body messages) (hlen : 2 ≤ messages.length)
    (hcc : ctx.config.stampClaudeCode = true) (hroute : ctx.isOpenAi = false) :
    ReturnsLayoutB ctx body messages ↔ LayoutKept ctx body messages := by
  have hgate : ctx.claudeCode = true := by simp [StampContext.claudeCode, hcc, hroute]
  have hne : messages ≠ [] := by
    rintro rfl
    simp at hlen
  exact ⟨layoutKept_of_returns h hne hgate, returns_of_layoutKept h hne hgate⟩

/-! ### Two requests -/

/-- The Claude Code bundle and the experiment are on, no rule matches. -/
def claudeCodeContext : StampContext where
  config :=
    { stampClaudeCode := true, stampModelRules := [], stampReasoningEffort := some .high,
      experimentStripOmoReminder := true }
  isOpenAi := false
  modelName := some (js "umans-coder")
  catalog := []

def textBlock (text : JsString) : Json := .obj [(js "type", .str (js "text")), (js "text", .str text)]

def message (role : String) (content : Json) : Json :=
  .obj [(js "role", .str (js role)), (js "content", content)]

def requestBody (messages : List Json) : Json :=
  .obj [(js "model", .str (js "umans-coder")), (js "messages", .arr messages)]

/-- A question with a reminder behind it. -/
def remindedQuestion : Json :=
  message "user" (.arr [textBlock (js "Hello"), textBlock OMO_REMINDER_MARKER])

/-- The answer to it is a string. -/
def answeredQuestion : List Json := [remindedQuestion, message "assistant" (.str (js "Hi"))]

/-- Another question behind it. -/
def twoQuestions : List Json :=
  [remindedQuestion, message "user" (.arr [textBlock (js "And now?")])]

theorem isAnthropicBody_reminded (m : Json) (hrec : m.isRecord = true)
    (hblocks : ∀ content, m.items? (js "content") = some content → ∀ b ∈ content, b.isRecord = true) :
    IsAnthropicBody (requestBody [remindedQuestion, m]) [remindedQuestion, m] where
  items := rfl
  objects := by
    intro m' hm'
    rcases List.mem_pair.mp hm' with rfl | rfl
    · rfl
    · exact hrec
  blocks := by
    intro m' hm' content hcontent b hb
    rcases List.mem_pair.mp hm' with rfl | rfl
    · cases hcontent
      rcases List.mem_pair.mp hb with rfl | rfl <;> rfl
    · exact hblocks content hcontent b hb
  system blocks hblocks := by cases hblocks

/-- An answer that is a string leaves the question the last message with
blocks, and its reminder takes the breakpoint away. -/
theorem reminder_takes_breakpoint :
    IsAnthropicBody (requestBody answeredQuestion) answeredQuestion ∧
      2 ≤ answeredQuestion.length ∧
      claudeCodeContext.config.stampClaudeCode = true ∧ claudeCodeContext.isOpenAi = false ∧
      ¬ ReturnsLayoutB claudeCodeContext (requestBody answeredQuestion) answeredQuestion := by
  have hbody : IsAnthropicBody _ _ := isAnthropicBody_reminded
    (message "assistant" (.str (js "Hi"))) rfl fun content hcontent => by cases hcontent
  refine ⟨hbody, le_rfl, rfl, rfl, fun hreturns => ?_⟩
  have hkept := layoutKept_of_returns hbody (by simp) rfl hreturns
  refine hkept.reminder rfl rfl ⟨(lastUserIdx_eq_some _ 0).mp rfl, remindedQuestion, _, _, rfl, rfl,
    [textBlock (js "Hello")], textBlock OMO_REMINDER_MARKER, rfl, ?_, textBlock (js "Hello"),
    List.mem_cons_self, ?_⟩
  · decide
  · decide

/-- A second question carries the breakpoint, whatever the first one loses. -/
theorem second_question_keeps_breakpoint :
    ReturnsLayoutB claudeCodeContext (requestBody twoQuestions) twoQuestions := by
  have hblocks : ∀ content, (message "user" (.arr [textBlock (js "And now?")])).items?
      (js "content") = some content → ∀ b ∈ content, b.isRecord = true := by
    intro content hcontent b hb
    cases hcontent
    rw [List.mem_singleton] at hb
    subst hb
    rfl
  refine (pipeline_layout_iff (isAnthropicBody_reminded _ rfl hblocks) le_rfl rfl rfl).mpr ?_
  refine ⟨fun v hv => (by cases hv), fun v hv => (by cases hv), fun _ _ hrem => ?_⟩
  have hlast := (lastUserIdx_eq_some _ 0).mpr hrem.1
  revert hlast
  decide

end UmansGate.Stamp
