/-
UmansGate.Stamp.BlockTheorems — what the three block steps do to the
system and the messages of a body, block by block.

A step that reports no change returns the reference that came in; here its
result is the value it would have built, which is then the same value.
-/
import UmansGate.Stamp.FieldTheorems

namespace UmansGate.Stamp

open UmansGate.Lib

variable {body b m : Json} {blocks content messages rest : List Json} {key : JsString}
  {lastUser : Option ℕ} {mi : ℕ}

/-! ## One block -/

theorem restampBlock_eq_self {should : Bool} (h : hasBreakpoint b = should) :
    restampBlock should b = b := by
  subst h
  unfold restampBlock withBreakpoint stripBreakpoint
  cases hasBreakpoint b <;> rfl

theorem hasBreakpoint_stripBreakpoint (b : Json) : hasBreakpoint (stripBreakpoint b) = false := by
  unfold stripBreakpoint
  split
  · simp [hasBreakpoint, Json.get?_remove]
  · rename_i h
    simpa using h

theorem hasBreakpoint_withBreakpoint (b : Json) : hasBreakpoint (withBreakpoint b) = true := by
  unfold withBreakpoint
  split
  · assumption
  · have hget : ((Json.obj b.spread).set (js "cache_control") BREAKPOINT).get? (js "cache_control") =
        some BREAKPOINT := by
      rw [Json.get?_set_record rfl, if_pos rfl]
    unfold hasBreakpoint
    rw [hget]
    decide

/-- A restamped block has the breakpoint it should have. -/
theorem hasBreakpoint_restampBlock (should : Bool) (b : Json) :
    hasBreakpoint (restampBlock should b) = should := by
  cases should with
  | true => exact hasBreakpoint_withBreakpoint b
  | false => exact hasBreakpoint_stripBreakpoint b

theorem hasBreakpoint_stampBlockTtl (ttl : JsString) (b : Json) :
    hasBreakpoint (stampBlockTtl ttl b) = hasBreakpoint b := by
  unfold stampBlockTtl
  split
  · rename_i cc hcc
    split
    · have hrec := Json.isRecord_of_get? hcc
      unfold hasBreakpoint
      rw [Json.get?_set_record hrec, if_pos rfl, hcc]
      simp only [Json.propIs, Json.get?_set_of_ne (show js "ttl" ≠ js "type" by decide)]
    · rfl
  · rfl

theorem get?_stampBlockTtl {key : JsString} (hne : js "cache_control" ≠ key) (ttl : JsString)
    (b : Json) : (stampBlockTtl ttl b).get? key = b.get? key := by
  unfold stampBlockTtl
  split
  · split
    · exact Json.get?_set_of_ne hne _
    · rfl
  · rfl

/-- The block without its `cache_control`. -/
def eraseCacheControl (b : Json) : Json := b.remove (js "cache_control")

theorem eraseCacheControl_stripBreakpoint (b : Json) :
    eraseCacheControl (stripBreakpoint b) = eraseCacheControl b := by
  unfold stripBreakpoint
  split
  · exact Json.remove_remove b (js "cache_control")
  · rfl

theorem eraseCacheControl_withBreakpoint (h : b.isRecord = true) :
    eraseCacheControl (withBreakpoint b) = eraseCacheControl b := by
  unfold withBreakpoint
  split
  · rfl
  · cases b with
    | obj fields => exact Json.remove_set (.obj fields) (js "cache_control") BREAKPOINT
    | _ => exact absurd h (by simp [Json.isRecord])

/-- A value that is no object is spread into one. -/
theorem eraseCacheControl_withBreakpoint_ne (h : b.isRecord = false) :
    eraseCacheControl (withBreakpoint b) ≠ eraseCacheControl b := by
  intro heq
  have hno : hasBreakpoint b = false := by
    simp [hasBreakpoint, Json.get?_of_not_record h]
  have hrec : (eraseCacheControl (withBreakpoint b)).isRecord = true := by
    simp only [withBreakpoint, hno, eraseCacheControl, Json.isRecord_remove]
    rfl
  rw [heq, eraseCacheControl, Json.isRecord_remove, h] at hrec
  exact absurd hrec (by simp)

theorem eraseCacheControl_stampBlockTtl (ttl : JsString) (b : Json) :
    eraseCacheControl (stampBlockTtl ttl b) = eraseCacheControl b := by
  unfold stampBlockTtl
  split
  · split
    · exact Json.remove_set b (js "cache_control") _
    · rfl
  · rfl

/-- The reminder is told by a field that is kept. -/
theorem isOmoReminderBlock_of_erase {b' : Json} (h : eraseCacheControl b' = eraseCacheControl b) :
    isOmoReminderBlock b' = isOmoReminderBlock b := by
  have hget : ∀ v : Json, (eraseCacheControl v).get? (js "text") = v.get? (js "text") := fun v => by
    rw [eraseCacheControl, Json.get?_remove, if_neg (by decide)]
  have htext : b'.str? (js "text") = b.str? (js "text") := by
    unfold Json.str?
    rw [← hget b', h, hget b]
  unfold isOmoReminderBlock
  rw [htext]

/-! ## One message -/

/-- Being a target depends on the role and on there being a block. -/
theorem isBreakpointTarget_mapItems (f : List Json → List Json) (m : Json)
    (h : ∀ content, m.items? (js "content") = some content →
      (f content).isEmpty = content.isEmpty) :
    isBreakpointTarget (m.mapItems (js "content") f) = isBreakpointTarget m := by
  unfold isBreakpointTarget Json.propIs
  rw [Json.get?_mapItems_of_ne (by decide), Json.items?_mapItems]
  cases hitems : m.items? (js "content") with
  | some content => simp [h content hitems]
  | none => rfl

/-! ## The steps on messages -/

theorem restampContent_eq_self (h : contentChanged lastUser mi content = false) :
    restampContent lastUser mi content = content := by
  have hblock : ∀ bi b, content[bi]? = some b →
      hasBreakpoint b = isLastBlockOfLastUser lastUser mi content.length bi := by
    intro bi b hb
    have hmem : (isLastBlockOfLastUser lastUser mi content.length bi != hasBreakpoint b) ∈
        content.mapIdx fun bi b =>
          isLastBlockOfLastUser lastUser mi content.length bi != hasBreakpoint b := by
      apply List.mem_of_getElem? (i := bi)
      rw [List.getElem?_mapIdx, hb]
      rfl
    have heq := List.any_eq_false.mp h _ hmem
    simp only [id_eq, bne_iff_ne, ne_eq, not_not] at heq
    exact heq.symm
  unfold restampContent
  apply List.ext_getElem?
  intro bi
  rw [List.getElem?_mapIdx]
  cases hb : content[bi]? with
  | none => rfl
  | some b => exact congrArg some (restampBlock_eq_self (hblock bi b hb))

theorem restampMessage_fst (lastUser : Option ℕ) (mi : ℕ) (m : Json) :
    (restampMessage lastUser mi m).1 = m.mapItems (js "content") (restampContent lastUser mi) := by
  unfold restampMessage
  cases h : m.items? (js "content") with
  | some content =>
    simp only
    split
    · exact (Json.mapItems_of_items? h _).symm
    · rename_i hchanged
      refine (Json.mapItems_eq_self fun c hc => ?_).symm
      rw [h, Option.some.injEq] at hc
      subst hc
      exact restampContent_eq_self (by simpa using hchanged)
  | none => exact (Json.mapItems_of_none h _).symm

/-- A message that reports no change is the one that came in. -/
theorem restampMessage_snd (h : (restampMessage lastUser mi m).2 = false) :
    (restampMessage lastUser mi m).1 = m := by
  unfold restampMessage at h ⊢
  split
  · rename_i content hcontent
    simp only [hcontent] at h
    split at h
    · cases h
    · rw [if_neg ‹_›]
  · rfl

theorem stampTtlIn_fst (ttl key : JsString) (v : Json) :
    (stampTtlIn ttl key v).1 = v.mapItems key (List.map (stampBlockTtl ttl)) := by
  unfold stampTtlIn Json.mapItems
  cases v.items? key <;> rfl

/-- The messages with the breakpoints of Layout B. -/
def restampMessages (messages : List Json) : List Json :=
  messages.mapIdx fun mi m => m.mapItems (js "content") (restampContent (lastUserIdx messages) mi)

/-- The system blocks with the breakpoint of Layout B. -/
def restampBlocks : List Json → List Json
  | [] => []
  | b :: rest =>
    (if isTextBlock b = some true then withBreakpoint b else b) :: rest.map stripBreakpoint

/-- The first block is the one that makes `isTextBlock` throw. -/
def startsWithNull : List Json → Bool
  | .null :: _ => true
  | _ => false

theorem isTextBlock_ne_none (h : startsWithNull (b :: rest) = false) :
    ∃ isText, isTextBlock b = some isText := by
  cases b with
  | null => exact absurd h (by simp [startsWithNull])
  | _ => exact ⟨_, rfl⟩

/-- The loop throws at a leading `null` only, and reports every change. -/
theorem restampSystem_cases (blocks : List Json) :
    (startsWithNull blocks = true ∧ restampSystem blocks = none) ∨
      (startsWithNull blocks = false ∧ ∃ changed,
        restampSystem blocks = some (restampBlocks blocks, changed) ∧
          (changed = false → restampBlocks blocks = blocks)) := by
  cases blocks with
  | nil => exact .inr ⟨rfl, false, rfl, fun _ => rfl⟩
  | cons b rest =>
    cases hnull : startsWithNull (b :: rest) with
    | true =>
      left
      cases b with
      | null => exact ⟨rfl, rfl⟩
      | _ => exact absurd hnull (by simp [startsWithNull])
    | false =>
      right
      obtain ⟨isText, htext⟩ := isTextBlock_ne_none hnull
      refine ⟨rfl, isText && !hasBreakpoint b || rest.any hasBreakpoint, ?_, fun hchanged => ?_⟩
      · simp [restampSystem, restampBlocks, htext]
      · rw [Bool.or_eq_false_iff] at hchanged
        have hhead : (if isTextBlock b = some true then withBreakpoint b else b) = b := by
          split
          · rename_i htrue
            rw [htext, Option.some.injEq] at htrue
            have hbp : hasBreakpoint b = true := by simpa [htrue] using hchanged.1
            exact restampBlock_eq_self hbp
          · rfl
        have htail : rest.map stripBreakpoint = rest := by
          refine (List.map_congr_left fun x hx => ?_).trans (List.map_id rest)
          have hbp : hasBreakpoint x = false := by
            simpa using List.any_eq_false.mp hchanged.2 x hx
          exact restampBlock_eq_self hbp
        rw [restampBlocks, hhead, htail]

/-- The restamped messages, as the loop builds them. -/
theorem restampMessages_eq (messages : List Json) :
    (messages.mapIdx fun mi m => restampMessage (lastUserIdx messages) mi m).map Prod.fst =
      restampMessages messages := by
  apply List.ext_getElem?
  intro mi
  simp only [restampMessages, List.getElem?_map, List.getElem?_mapIdx, Option.map_map]
  cases messages[mi]? with
  | none => rfl
  | some m => exact congrArg some (restampMessage_fst (lastUserIdx messages) mi m)

theorem restampMessages_eq_self
    (h : (messages.mapIdx fun mi m => restampMessage (lastUserIdx messages) mi m).any Prod.snd =
      false) : restampMessages messages = messages := by
  rw [← restampMessages_eq]
  apply List.ext_getElem?
  intro mi
  rw [List.getElem?_map, List.getElem?_mapIdx]
  cases hm : messages[mi]? with
  | none => rfl
  | some m =>
    have hmem : restampMessage (lastUserIdx messages) mi m ∈
        messages.mapIdx fun mi m => restampMessage (lastUserIdx messages) mi m := by
      apply List.mem_of_getElem? (i := mi)
      rw [List.getElem?_mapIdx, hm]
      rfl
    have hsnd := List.any_eq_false.mp h _ hmem
    exact congrArg some (restampMessage_snd (by simpa using hsnd))

/-! ## The steps on a body -/

/-- The body has a message. -/
def hasMessages (body : Json) : Bool :=
  match body.items? (js "messages") with
  | some messages => !messages.isEmpty
  | none => false

/-- The body's first system block is `null`. -/
def systemThrows (body : Json) : Bool :=
  match body.items? (js "system") with
  | some blocks => startsWithNull blocks
  | none => false

/-- The body in Layout B. -/
def restampedBody (body : Json) : Json :=
  (body.mapItems (js "system") restampBlocks).mapItems (js "messages") restampMessages

theorem items?_messages_mapItems_system (f : List Json → List Json) (body : Json) :
    (body.mapItems (js "system") f).items? (js "messages") = body.items? (js "messages") :=
  Json.items?_mapItems_of_ne (by decide) f body

/-- The loop over the messages alone. -/
theorem restampMessages_cases (hms : body.items? (js "messages") = some messages) :
    let restamped := messages.mapIdx fun mi m => restampMessage (lastUserIdx messages) mi m
    let result := if restamped.any Prod.snd then
        Restamped.rebuilt (body.set (js "messages") (.arr (restamped.map Prod.fst)))
      else .same
    result = .same ∧ body.mapItems (js "messages") restampMessages = body ∨
      result = .rebuilt (body.mapItems (js "messages") restampMessages) := by
  simp only [restampMessages_eq]
  split
  · right
    rw [Json.mapItems_of_items? hms]
  · rename_i hchanged
    left
    refine ⟨rfl, Json.mapItems_eq_self fun items hitems => ?_⟩
    rw [hms, Option.some.injEq] at hitems
    subst hitems
    exact restampMessages_eq_self (by simpa using hchanged)

/-- The step leaves a body without messages, throws at a leading `null` of
the system, and builds Layout B otherwise. -/
theorem restampBreakpoints_cases (body : Json) :
    (hasMessages body = false ∧ restampBreakpoints body = .same) ∨
      (hasMessages body = true ∧ systemThrows body = true ∧ restampBreakpoints body = .threw) ∨
      (hasMessages body = true ∧ systemThrows body = false ∧
        (restampBreakpoints body = .same ∧ restampedBody body = body ∨
          restampBreakpoints body = .rebuilt (restampedBody body))) := by
  unfold restampBreakpoints hasMessages systemThrows
  cases hms : body.items? (js "messages") with
  | none => exact .inl ⟨rfl, rfl⟩
  | some messages =>
    cases messages with
    | nil => exact .inl ⟨rfl, rfl⟩
    | cons m ms =>
      right
      have hloop := restampMessages_cases hms
      cases hsys : body.items? (js "system") with
      | none =>
        right
        rw [restampedBody, Json.mapItems_of_none hsys]
        exact ⟨rfl, rfl, hloop⟩
      | some blocks =>
        rcases restampSystem_cases blocks with ⟨hnull, hthrew⟩ | ⟨hnull, changed, hblocks, hsame⟩
        · left
          simp [hnull, hthrew]
        · right
          refine ⟨rfl, hnull, ?_⟩
          simp only [hblocks]
          cases changed with
          | true =>
            right
            have hms' := (items?_messages_mapItems_system restampBlocks body).trans hms
            rw [restampedBody, Json.mapItems_of_items? hms', Json.mapItems_of_items? hsys,
              restampMessages_eq]
            rfl
          | false =>
            have hsystem : body.mapItems (js "system") restampBlocks = body := by
              refine Json.mapItems_eq_self fun items hitems => ?_
              rw [hsys, Option.some.injEq] at hitems
              subst hitems
              exact hsame rfl
            rw [restampedBody, hsystem]
            exact hloop

/-! ## The ttl -/

/-- The elements `null` of a list. -/
def isNull : Json → Bool
  | .null => true
  | _ => false

theorem stampTtlMessages_threw (ttl : JsString) (messages : List Json) :
    (stampTtlMessages ttl messages).2.2 = messages.any isNull := by
  induction messages with
  | nil => rfl
  | cons m rest ih =>
    cases m with
    | null => rfl
    | _ => simpa [stampTtlMessages, isNull] using ih

/-- A loop that does not throw stamps every message. -/
theorem stampTtlMessages_fst (ttl : JsString) (h : messages.any isNull = false) :
    (stampTtlMessages ttl messages).1 =
      messages.map (Json.mapItems (js "content") (List.map (stampBlockTtl ttl))) := by
  induction messages with
  | nil => rfl
  | cons m rest ih =>
    rw [List.any_cons, Bool.or_eq_false_iff] at h
    cases m with
    | null => exact absurd h.1 (by simp [isNull])
    | _ => simp [stampTtlMessages, ih h.2, stampTtlIn_fst]

/-- The loop over the messages can be run to its end. -/
def iterates (body : Json) : Bool :=
  match body.get? (js "messages") with
  | none => true
  | some .null => true
  | some (.str _) => true
  | some (.arr messages) => !messages.any isNull
  | some _ => false

/-- The body with the ttl on the blocks the walk reaches. -/
def ttlBody (body : Json) : Json :=
  (body.mapItems (js "system") (List.map (stampBlockTtl STAMP_CACHE_TTL_VALUE))).mapItems
    (js "messages") fun messages => (stampTtlMessages STAMP_CACHE_TTL_VALUE messages).1

theorem stampCacheTtl_cases (body : Json) :
    (stampCacheTtl body STAMP_CACHE_TTL_VALUE).1 = ttlBody body ∧
      (stampCacheTtl body STAMP_CACHE_TTL_VALUE).2.2 = !iterates body := by
  unfold stampCacheTtl ttlBody iterates
  simp only [stampTtlIn_fst]
  have hget : (body.mapItems (js "system") (List.map (stampBlockTtl STAMP_CACHE_TTL_VALUE))).get?
      (js "messages") = body.get? (js "messages") := Json.get?_mapItems_of_ne (by decide) _ body
  rw [← hget]
  generalize body.mapItems (js "system") (List.map (stampBlockTtl STAMP_CACHE_TTL_VALUE)) = b
  cases hms : b.get? (js "messages") with
  | none => simp [Json.mapItems, Json.items?, hms]
  | some v =>
    cases v with
    | arr messages =>
      rw [Json.mapItems_of_items? (Json.items?_eq_some.mpr hms)]
      simp [stampTtlMessages_threw]
    | _ => simp [Json.mapItems, Json.items?, hms]

end UmansGate.Stamp
