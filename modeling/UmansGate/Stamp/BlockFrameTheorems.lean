/-
UmansGate.Stamp.BlockFrameTheorems — what the block steps and the
reminder's leave of the system and the messages.

Blocks that are objects are kept but for their `cache_control`. A
breakpoint on a value that is no object turns it into one, which erasing
`cache_control` does not undo.
-/
import UmansGate.Stamp.LayoutTheorems

namespace UmansGate.Stamp

open UmansGate.Lib

variable {ctx : StampContext} {body b m : Json} {messages blocks content rest : List Json}
  {lastUser : Option ℕ} {mi : ℕ}

/-! ## Erasing `cache_control` -/

/-- A message without the `cache_control` of its blocks. -/
def eraseMessage : Json → Json := Json.mapItems (js "content") (List.map eraseCacheControl)

/-- A system without the `cache_control` of its blocks. -/
def eraseSystem : Json → Json
  | .arr blocks => .arr (blocks.map eraseCacheControl)
  | v => v

/-- Messages without the `cache_control` of their blocks. -/
def eraseMessages : Json → Json
  | .arr messages => .arr (messages.map eraseMessage)
  | v => v

theorem eraseCacheControl_idem (b : Json) :
    eraseCacheControl (eraseCacheControl b) = eraseCacheControl b :=
  Json.remove_remove b (js "cache_control")

/-- A block that is no object is a reminder neither before nor after. -/
theorem isOmoReminderBlock_of_not_record (h : b.isRecord = false) : isOmoReminderBlock b = false := by
  simp [isOmoReminderBlock, Json.str?, Json.get?_of_not_record h]

/-- Erasing and taking the reminder out can be done in either order. -/
theorem map_erase_keepBlocks (content : List Json) :
    (keepBlocks content).map eraseCacheControl = keepBlocks (content.map eraseCacheControl) := by
  unfold keepBlocks
  rw [List.filter_map]
  congr 1
  apply List.filter_congr
  intro b _
  have herase := isOmoReminderBlock_of_erase (eraseCacheControl_idem b)
  simp [herase]

theorem eraseMessage_keepBlocks (m : Json) :
    eraseMessage (m.mapItems (js "content") keepBlocks) =
      (eraseMessage m).mapItems (js "content") keepBlocks := by
  unfold eraseMessage
  rw [Json.mapItems_mapItems, Json.mapItems_mapItems]
  congr 1
  funext content
  exact map_erase_keepBlocks content

theorem map_erase_withoutReminder (messages : List Json) :
    (withoutReminder messages).map eraseMessage = withoutReminder (messages.map eraseMessage) := by
  cases messages with
  | nil => rfl
  | cons m rest =>
    rw [withoutReminder_cons, List.map_cons, List.map_cons, withoutReminder_cons,
      eraseMessage_keepBlocks]

/-! ## The blocks of one list -/

/-- The layout of a content, its last block apart. -/
theorem restampContent_concat (lastUser : Option ℕ) (mi : ℕ) (init : List Json) (b : Json) :
    restampContent lastUser mi (init ++ [b]) =
      init.map stripBreakpoint ++ [restampBlock (decide (lastUser = some mi)) b] := by
  unfold restampContent
  rw [List.mapIdx_concat]
  congr 1
  · apply List.ext_getElem?
    intro bi
    rw [List.getElem?_mapIdx, List.getElem?_map]
    cases hb : init[bi]? with
    | none => rfl
    | some x =>
      have hlt := (List.getElem?_eq_some_iff.mp hb).1
      have hne : bi ≠ init.length := by omega
      simp [isLastBlockOfLastUser, hne, restampBlock]
  · simp [isLastBlockOfLastUser]

theorem map_erase_stripBreakpoint (blocks : List Json) :
    (blocks.map stripBreakpoint).map eraseCacheControl = blocks.map eraseCacheControl := by
  rw [List.map_map]
  exact List.map_congr_left fun b _ => eraseCacheControl_stripBreakpoint b

theorem map_erase_ttl (blocks : List Json) :
    (blocks.map (stampBlockTtl STAMP_CACHE_TTL_VALUE)).map eraseCacheControl =
      blocks.map eraseCacheControl := by
  rw [List.map_map]
  exact List.map_congr_left fun b _ => eraseCacheControl_stampBlockTtl STAMP_CACHE_TTL_VALUE b

/-- A breakpoint is all that a block gets exactly if it is an object. -/
theorem eraseCacheControl_withBreakpoint_iff (b : Json) :
    eraseCacheControl (withBreakpoint b) = eraseCacheControl b ↔ b.isRecord = true := by
  cases hrec : b.isRecord with
  | true => exact ⟨fun _ => rfl, fun _ => eraseCacheControl_withBreakpoint hrec⟩
  | false => exact ⟨fun h => absurd h (eraseCacheControl_withBreakpoint_ne hrec), fun h => by cases h⟩

/-- The first block is taken for a text block and is no object. -/
def spreadsHead : List Json → Prop
  | [] => False
  | b :: _ => isTextBlock b = some true ∧ b.isRecord = false

theorem map_erase_restampBlocks (blocks : List Json) :
    (restampBlocks blocks).map eraseCacheControl = blocks.map eraseCacheControl ↔
      ¬ spreadsHead blocks := by
  cases blocks with
  | nil => exact ⟨fun _ h => h, fun _ => rfl⟩
  | cons b rest =>
    rw [restampBlocks, List.map_cons, List.map_cons, map_erase_stripBreakpoint, List.cons.injEq,
      and_iff_left rfl, spreadsHead]
    split
    · rename_i htext
      rw [eraseCacheControl_withBreakpoint_iff]
      simp [htext]
    · rename_i htext
      exact ⟨fun _ h => htext h.1, fun _ => rfl⟩

/-- The last block of a content is no object. -/
def endsInValue (content : List Json) : Prop :=
  ∃ init b, content = init ++ [b] ∧ b.isRecord = false

theorem map_erase_restampContent (h : lastUser = some mi → ¬ endsInValue content) :
    (restampContent lastUser mi content).map eraseCacheControl = content.map eraseCacheControl := by
  rcases List.eq_nil_or_concat content with rfl | ⟨init, b, rfl⟩
  · rfl
  rw [List.concat_eq_append] at h ⊢
  have hlast : eraseCacheControl (restampBlock (decide (lastUser = some mi)) b) =
      eraseCacheControl b := by
    by_cases hmi : lastUser = some mi
    · have hrec : b.isRecord = true := by
        by_contra hno
        exact h hmi ⟨init, b, rfl, by simpa using hno⟩
      rw [decide_eq_true hmi]
      exact eraseCacheControl_withBreakpoint hrec
    · rw [decide_eq_false hmi]
      exact eraseCacheControl_stripBreakpoint b
  rw [restampContent_concat, List.map_append, List.map_append, map_erase_stripBreakpoint,
    List.map_singleton, List.map_singleton, hlast]

/-- A value that became an object shows, and the reminder does not hide it. -/
theorem keepBlocks_restampContent_ne (h : endsInValue content) :
    keepBlocks ((restampContent (some mi) mi content).map eraseCacheControl) ≠
      keepBlocks (content.map eraseCacheControl) := by
  obtain ⟨init, b, rfl, hrec⟩ := h
  have herase : (eraseCacheControl b).isRecord = false := (Json.isRecord_remove b _).trans hrec
  have hkept := isOmoReminderBlock_of_not_record herase
  rw [restampContent_concat, List.map_append, List.map_append, map_erase_stripBreakpoint,
    List.map_singleton, List.map_singleton, keepBlocks_concat _ hkept]
  intro heq
  cases hreminder : isOmoReminderBlock
      (eraseCacheControl (restampBlock (decide (some mi = some mi)) b)) with
  | true =>
    rw [keepBlocks_concat_reminder _ hreminder] at heq
    exact absurd (congrArg List.length heq) (by simp)
  | false =>
    rw [keepBlocks_concat _ hreminder, List.append_cancel_left_eq, List.singleton_inj,
      decide_eq_true rfl] at heq
    exact eraseCacheControl_withBreakpoint_ne hrec heq

/-! ## The messages -/

/-- The last block of the last user message is no object. -/
def SpreadsMessage (messages : List Json) : Prop :=
  ∃ mi m content, IsLastUser messages mi ∧ messages[mi]? = some m ∧
    m.items? (js "content") = some content ∧ endsInValue content

/-- The walk for the ttl changes no more than `cache_control`, wherever it
stops. -/
theorem map_erase_stampTtlMessages (messages : List Json) :
    (stampTtlMessages STAMP_CACHE_TTL_VALUE messages).1.map eraseMessage =
      messages.map eraseMessage := by
  have hone : ∀ m : Json, eraseMessage (stampTtlIn STAMP_CACHE_TTL_VALUE (js "content") m).1 =
      eraseMessage m := by
    intro m
    rw [stampTtlIn_fst, eraseMessage, Json.mapItems_mapItems]
    exact Json.mapItems_congr fun content _ => map_erase_ttl content
  induction messages with
  | nil => rfl
  | cons m rest ih =>
    cases m with
    | null => rfl
    | _ => simp [stampTtlMessages, ih, hone]

/-- The restamped messages without their `cache_control`. -/
theorem map_erase_restampMessages (messages : List Json) :
    (restampMessages messages).map eraseMessage =
      messages.mapIdx fun mi m => m.mapItems (js "content")
        (List.map eraseCacheControl ∘ restampContent (lastUserIdx messages) mi) := by
  apply List.ext_getElem?
  intro mi
  simp only [restampMessages, List.getElem?_map, List.getElem?_mapIdx, Option.map_map]
  congr 1
  funext m
  exact Json.mapItems_mapItems _ _ _ m

theorem map_erase_restampMessages_eq (h : ¬ SpreadsMessage messages) :
    (restampMessages messages).map eraseMessage = messages.map eraseMessage := by
  rw [map_erase_restampMessages]
  apply List.ext_getElem?
  intro mi
  rw [List.getElem?_mapIdx, List.getElem?_map]
  cases hm : messages[mi]? with
  | none => rfl
  | some m =>
    refine congrArg some (Json.mapItems_congr fun content hcontent => ?_)
    apply map_erase_restampContent
    intro hlast hends
    exact h ⟨mi, m, content, (lastUserIdx_eq_some messages mi).mp hlast, hm, hcontent, hends⟩

/-- Messages that are equal without the reminder are so without any block that
reads like one. -/
theorem map_keepBlocks_of_withoutReminder {xs ys : List Json}
    (h : withoutReminder xs = withoutReminder ys) :
    xs.map (Json.mapItems (js "content") keepBlocks) =
      ys.map (Json.mapItems (js "content") keepBlocks) := by
  cases xs with
  | nil =>
    cases ys with
    | nil => rfl
    | cons y ys => cases h
  | cons x xs =>
    cases ys with
    | nil => cases h
    | cons y ys =>
      rw [withoutReminder_cons, withoutReminder_cons, List.cons.injEq] at h
      rw [List.map_cons, List.map_cons, h.1, h.2]

/-- A value that became an object shows in the messages, with the reminder or
without it. -/
theorem withoutReminder_restampMessages_ne (h : SpreadsMessage messages) :
    withoutReminder ((restampMessages messages).map eraseMessage) ≠
      withoutReminder (messages.map eraseMessage) := by
  obtain ⟨mi, m, content, hlast, hm, hcontent, hends⟩ := h
  intro heq
  have hmap := map_keepBlocks_of_withoutReminder heq
  rw [map_erase_restampMessages] at hmap
  have hget := congrArg (fun l : List Json => (l[mi]?).map (Json.items? · (js "content"))) hmap
  simp only [List.getElem?_map, List.getElem?_mapIdx, hm, Option.map_some, Option.some.injEq,
    Json.items?_mapItems, eraseMessage, hcontent, Function.comp_apply] at hget
  rw [(lastUserIdx_eq_some messages mi).mpr hlast] at hget
  exact keepBlocks_restampContent_ne hends hget

/-! ## The system and the messages behind the block steps -/

theorem items?_blockBody_messages (hcc : ctx.claudeCode = true)
    (hitems : body.items? (js "messages") = some messages) :
    (blockBody ctx body).items? (js "messages") =
      some (stampTtlMessages STAMP_CACHE_TTL_VALUE (restampMessages messages)).1 := by
  have hlayout : (layoutBody body).items? (js "messages") = some (restampMessages messages) := by
    unfold layoutBody
    split
    · rw [restampedBody, Json.items?_mapItems, items?_messages_mapItems_system, hitems,
        Option.map_some]
    · rename_i hno
      cases messages with
      | nil => exact hitems
      | cons m rest => simp [hasMessages, hitems] at hno
  rw [blockBody, if_pos hcc, ttlBody, Json.items?_mapItems, items?_messages_mapItems_system, hlayout,
    Option.map_some]

/-- A value that is no array is no list of messages to a block step. -/
theorem get?_blockBody_messages_of_none (hitems : body.items? (js "messages") = none) :
    (blockBody ctx body).get? (js "messages") = body.get? (js "messages") := by
  have hlayout : layoutBody body = body := by
    have hno : hasMessages body = false := by simp [hasMessages, hitems]
    simp [layoutBody, hno]
  unfold blockBody
  split
  · rw [ttlBody, hlayout, Json.mapItems_of_none
      ((items?_messages_mapItems_system _ body).trans hitems), Json.get?_mapItems_of_ne (by decide)]
  · rfl

theorem eraseMessages_blockBody
    (h : ctx.claudeCode = true → ∀ messages, body.items? (js "messages") = some messages →
      ¬ SpreadsMessage messages) :
    ((blockBody ctx body).get? (js "messages")).map eraseMessages =
      (body.get? (js "messages")).map eraseMessages := by
  cases hcc : ctx.claudeCode with
  | false => simp [blockBody, hcc]
  | true =>
    cases hitems : body.items? (js "messages") with
    | none => rw [get?_blockBody_messages_of_none hitems]
    | some messages =>
      rw [Json.items?_eq_some.mp (items?_blockBody_messages hcc hitems),
        Json.items?_eq_some.mp hitems]
      simp only [Option.map_some, eraseMessages]
      rw [map_erase_stampTtlMessages, map_erase_restampMessages_eq (h hcc messages hitems)]

/-- Replacing blocks by blocks that differ in their `cache_control`. -/
theorem eraseSystem_mapItems {f : List Json → List Json}
    (h : ∀ blocks, body.items? (js "system") = some blocks →
      (f blocks).map eraseCacheControl = blocks.map eraseCacheControl) :
    ((body.mapItems (js "system") f).get? (js "system")).map eraseSystem =
      (body.get? (js "system")).map eraseSystem := by
  rw [Json.get?_mapItems]
  cases hget : body.get? (js "system") with
  | none => rfl
  | some v =>
    cases v with
    | arr blocks => simp [eraseSystem, h blocks (Json.items?_eq_some.mpr hget)]
    | _ => rfl

/-- The system behind both block steps is the one that came in where its head
is kept. -/
theorem eraseSystem_blockBody
    (h : ctx.claudeCode = true → hasMessages body = true →
      ∀ blocks, body.items? (js "system") = some blocks → ¬ spreadsHead blocks) :
    ((blockBody ctx body).get? (js "system")).map eraseSystem =
      (body.get? (js "system")).map eraseSystem := by
  cases hcc : ctx.claudeCode with
  | false => simp [blockBody, hcc]
  | true =>
    cases hmsgs : hasMessages body with
    | false =>
      have hlayout : layoutBody body = body := by simp [layoutBody, hmsgs]
      rw [blockBody, if_pos hcc, hlayout, ttlBody, Json.get?_mapItems_of_ne (by decide)]
      exact eraseSystem_mapItems fun blocks _ => map_erase_ttl blocks
    | true =>
      rw [get?_blockBody_system hcc hmsgs]
      apply eraseSystem_mapItems
      intro blocks hblocks
      rw [Function.comp_apply, map_erase_ttl]
      exact (map_erase_restampBlocks blocks).mpr (h hcc hmsgs blocks hblocks)

/-- A value at the head of the system that becomes an object shows. -/
theorem eraseSystem_blockBody_ne (hcc : ctx.claudeCode = true) (hmsgs : hasMessages body = true)
    (hblocks : body.items? (js "system") = some blocks) (hspreads : spreadsHead blocks) :
    ((blockBody ctx body).get? (js "system")).map eraseSystem ≠
      (body.get? (js "system")).map eraseSystem := by
  rw [get?_blockBody_system hcc hmsgs, Json.get?_mapItems, Json.items?_eq_some.mp hblocks]
  intro heq
  simp only [Option.map_some, eraseSystem, Option.some.injEq, Json.arr.injEq, Function.comp_apply]
    at heq
  rw [map_erase_ttl] at heq
  exact (map_erase_restampBlocks blocks).mp heq hspreads

/-- Erasing and taking the reminder out of a value of messages. -/
theorem eraseMessages_stripValue (ctx : StampContext) (v : Json) :
    eraseMessages (stripValue ctx v) = stripValue ctx (eraseMessages v) := by
  cases v with
  | arr messages =>
    cases hstrips : strips ctx <;>
      simp [stripValue, eraseMessages, hstrips, map_erase_withoutReminder]
  | _ => rfl

/-- A value in the messages that becomes an object shows behind the reminder
step too. -/
theorem eraseMessages_blockBody_ne (hcc : ctx.claudeCode = true)
    (hitems : body.items? (js "messages") = some messages) (hspreads : SpreadsMessage messages)
    {strip : Json → Json} (hstrip : strip = stripValue ctx ∨ strip = id) :
    ((blockBody ctx body).get? (js "messages")).map (eraseMessages ∘ strip) ≠
      (body.get? (js "messages")).map (eraseMessages ∘ strip) := by
  have hne := withoutReminder_restampMessages_ne hspreads
  rw [Json.items?_eq_some.mp (items?_blockBody_messages hcc hitems), Json.items?_eq_some.mp hitems,
    Option.map_some, Option.map_some, Function.comp_apply, Function.comp_apply]
  intro heq
  rw [Option.some.injEq] at heq
  rcases hstrip with rfl | rfl
  · rw [eraseMessages_stripValue, eraseMessages_stripValue] at heq
    simp only [eraseMessages, stripValue, map_erase_stampTtlMessages] at heq
    split at heq <;> rw [Json.arr.injEq] at heq
    · exact hne heq
    · exact hne (congrArg withoutReminder heq)
  · simp only [id_eq, eraseMessages, map_erase_stampTtlMessages, Json.arr.injEq] at heq
    exact hne (congrArg withoutReminder heq)

end UmansGate.Stamp
