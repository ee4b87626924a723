/-
UmansGate.Stamp.RestampTheorems — what `restampBreakpoints` returns, block
by block.

`blockAt` reads the block at a place of a body, and `Carries` says which
places carry a breakpoint in Layout B. `blockAt_restampedBody` gives the
block that the function leaves at a place; what it keeps, strips and stamps
follows. It stamps a place of Layout B whatever `cache_control` other than
ephemeral is there (`foreign_cache_control_replaced`).
-/
import UmansGate.Stamp.LayoutTheorems

namespace UmansGate.Stamp

open UmansGate.Lib

/-- The body that a call on `body` returns, if it returns. -/
def Restamped.value (body : Json) : Restamped → Option Json
  | same => some body
  | rebuilt out => some out
  | threw => none

/-! ## Places -/

/-- The place of a block. -/
inductive BlockPlace where
  | system (i : ℕ)
  | message (mi bi : ℕ)

def blockAt (body : Json) : BlockPlace → Option Json
  | .system i => (body.items? (js "system")).bind fun blocks => blocks[i]?
  | .message mi bi =>
    ((body.items? (js "messages")).bind fun messages => messages[mi]?).bind fun m =>
      (m.items? (js "content")).bind fun content => content[bi]?

/-- The places of the breakpoints: the first system block, if it is a text
block or has one, and the last block of the last user message. -/
def Carries (body : Json) : BlockPlace → Prop
  | .system i => i = 0 ∧ ∃ b, blockAt body (.system 0) = some b ∧
      (isTextBlock b = some true ∨ hasBreakpoint b = true)
  | .message mi bi => ∃ messages m content, body.items? (js "messages") = some messages ∧
      IsLastUser messages mi ∧ messages[mi]? = some m ∧
      m.items? (js "content") = some content ∧ bi + 1 = content.length

variable {body out b b' m : Json} {messages blocks content : List Json} {p : BlockPlace}
  {lastUser : Option ℕ} {mi bi i : ℕ}

theorem blockAt_system (h : body.items? (js "system") = some blocks) :
    blockAt body (.system i) = blocks[i]? := by
  rw [blockAt, h, Option.bind_some]

theorem blockAt_message (h : body.items? (js "messages") = some messages)
    (hm : messages[mi]? = some m) (hcontent : m.items? (js "content") = some content) :
    blockAt body (.message mi bi) = content[bi]? := by
  rw [blockAt, h, Option.bind_some, hm, Option.bind_some, hcontent, Option.bind_some]

theorem blockAt_system_eq_some : blockAt body (.system i) = some b ↔
    ∃ blocks, body.items? (js "system") = some blocks ∧ blocks[i]? = some b := by
  rw [blockAt, Option.bind_eq_some_iff]

theorem blockAt_message_eq_some : blockAt body (.message mi bi) = some b ↔
    ∃ messages m content, body.items? (js "messages") = some messages ∧ messages[mi]? = some m ∧
      m.items? (js "content") = some content ∧ content[bi]? = some b := by
  simp only [blockAt, Option.bind_eq_some_iff]
  constructor
  · rintro ⟨m, ⟨messages, hms, hm⟩, content, hcontent, hb⟩
    exact ⟨messages, m, content, hms, hm, hcontent, hb⟩
  · rintro ⟨messages, m, content, hms, hm, hcontent, hb⟩
    exact ⟨m, ⟨messages, hms, hm⟩, content, hcontent, hb⟩

/-! ## The restamped body -/

theorem items?_system_restampedBody (body : Json) :
    (restampedBody body).items? (js "system") = (body.items? (js "system")).map restampBlocks := by
  rw [restampedBody, Json.items?_mapItems_of_ne (by decide), Json.items?_mapItems]

theorem items?_messages_restampedBody (body : Json) :
    (restampedBody body).items? (js "messages") =
      (body.items? (js "messages")).map restampMessages := by
  rw [restampedBody, Json.items?_mapItems, items?_messages_mapItems_system]

theorem getElem?_restampMessages (messages : List Json) (mi : ℕ) :
    (restampMessages messages)[mi]? = messages[mi]?.map
      (Json.mapItems (js "content") (restampContent (lastUserIdx messages) mi)) := by
  rw [restampMessages, List.getElem?_mapIdx]

theorem getElem?_restampContent (lastUser : Option ℕ) (mi : ℕ) (content : List Json) (bi : ℕ) :
    (restampContent lastUser mi content)[bi]? = content[bi]?.map
      (restampBlock (isLastBlockOfLastUser lastUser mi content.length bi)) := by
  rw [restampContent, List.getElem?_mapIdx]

theorem isLastBlockOfLastUser_iff (hms : body.items? (js "messages") = some messages)
    (hm : messages[mi]? = some m) (hcontent : m.items? (js "content") = some content) :
    isLastBlockOfLastUser (lastUserIdx messages) mi content.length bi = true ↔
      Carries body (.message mi bi) := by
  rw [isLastBlockOfLastUser, Bool.and_eq_true, decide_eq_true_eq, decide_eq_true_eq,
    lastUserIdx_eq_some]
  constructor
  · rintro ⟨hlast, hbi⟩
    exact ⟨messages, m, content, hms, hlast, hm, hcontent, hbi⟩
  · rintro ⟨messages', m', content', hms', hlast, hm', hcontent', hbi⟩
    obtain rfl := Option.some.inj (hms.symm.trans hms')
    obtain rfl := Option.some.inj (hm.symm.trans hm')
    obtain rfl := Option.some.inj (hcontent.symm.trans hcontent')
    exact ⟨hlast, hbi⟩

/-- The block at a place gets the breakpoint that the place should have. -/
theorem blockAt_restampedBody (h : blockAt body p = some b) : ∃ should : Bool,
    (should = true ↔ Carries body p) ∧
      blockAt (restampedBody body) p = some (restampBlock should b) := by
  cases p with
  | system i =>
    obtain ⟨blocks, hblocks, hb⟩ := blockAt_system_eq_some.mp h
    have hout := (items?_system_restampedBody body).trans (congrArg (Option.map _) hblocks)
    rw [blockAt_system hout]
    cases blocks with
    | nil => exact absurd hb (by simp)
    | cons first rest =>
      cases i with
      | zero =>
        obtain rfl : first = b := Option.some.inj hb
        have hcarries : Carries body (.system 0) ↔
            isTextBlock first = some true ∨ hasBreakpoint first = true := by
          constructor
          · rintro ⟨-, b', hb', hcarry⟩
            obtain rfl := Option.some.inj (h.symm.trans hb')
            exact hcarry
          · exact fun hcarry => ⟨rfl, first, h, hcarry⟩
        rw [hcarries]
        by_cases htext : isTextBlock first = some true
        · exact ⟨true, iff_of_true rfl (.inl htext), by simp [restampBlocks, htext, restampBlock]⟩
        · refine ⟨hasBreakpoint first, by simp [htext], ?_⟩
          rw [restampBlock_eq_self rfl]
          simp [restampBlocks, htext]
      | succ i =>
        refine ⟨false, iff_of_false (by simp) fun hcarries => by simp [Carries] at hcarries, ?_⟩
        rw [List.getElem?_cons_succ] at hb
        simp [restampBlocks, restampBlock, hb]
  | message mi bi =>
    obtain ⟨messages, m, content, hms, hm, hcontent, hb⟩ := blockAt_message_eq_some.mp h
    refine ⟨_, isLastBlockOfLastUser_iff hms hm hcontent, ?_⟩
    have hms' := (items?_messages_restampedBody body).trans (congrArg (Option.map _) hms)
    have hm' := (getElem?_restampMessages messages mi).trans (congrArg (Option.map _) hm)
    have hcontent' := (Json.items?_mapItems (js "content")
      (restampContent (lastUserIdx messages) mi) m).trans (congrArg (Option.map _) hcontent)
    rw [blockAt_message hms' hm' hcontent', getElem?_restampContent, hb, Option.map_some]

theorem length_restampBlocks (blocks : List Json) :
    (restampBlocks blocks).length = blocks.length := by
  cases blocks with
  | nil => rfl
  | cons b rest => simp [restampBlocks]

/-- A message of the walked body is one of the body, with its content walked. -/
theorem content_of_restampedBody {mi : ℕ} {m' : Json} {messages' content' : List Json}
    (hms' : (restampedBody body).items? (js "messages") = some messages')
    (hm' : messages'[mi]? = some m') (hcontent' : m'.items? (js "content") = some content') :
    ∃ messages m content, body.items? (js "messages") = some messages ∧ messages[mi]? = some m ∧
      m.items? (js "content") = some content ∧ messages' = restampMessages messages ∧
      content' = restampContent (lastUserIdx messages) mi content := by
  rw [items?_messages_restampedBody, Option.map_eq_some_iff] at hms'
  obtain ⟨messages, hms, rfl⟩ := hms'
  rw [getElem?_restampMessages, Option.map_eq_some_iff] at hm'
  obtain ⟨m, hm, rfl⟩ := hm'
  rw [Json.items?_mapItems, Option.map_eq_some_iff] at hcontent'
  obtain ⟨content, hcontent, rfl⟩ := hcontent'
  exact ⟨messages, m, content, hms, hm, hcontent, rfl, rfl⟩

/-- No block is added. -/
theorem blockAt_of_restampedBody (h : blockAt (restampedBody body) p = some b') :
    ∃ b, blockAt body p = some b := by
  cases p with
  | system i =>
    obtain ⟨blocks', hblocks', hb'⟩ := blockAt_system_eq_some.mp h
    rw [items?_system_restampedBody, Option.map_eq_some_iff] at hblocks'
    obtain ⟨blocks, hblocks, rfl⟩ := hblocks'
    have hlt := (List.getElem?_eq_some_iff.mp hb').1
    rw [length_restampBlocks] at hlt
    exact ⟨blocks[i], (blockAt_system hblocks).trans (List.getElem?_eq_getElem hlt)⟩
  | message mi bi =>
    obtain ⟨messages', m', content', hms', hm', hcontent', hb'⟩ := blockAt_message_eq_some.mp h
    obtain ⟨messages, m, content, hms, hm, hcontent, rfl, rfl⟩ :=
      content_of_restampedBody hms' hm' hcontent'
    rw [getElem?_restampContent, Option.map_eq_some_iff] at hb'
    obtain ⟨b, hb, -⟩ := hb'
    exact ⟨b, (blockAt_message hms hm hcontent).trans hb⟩

/-! ## The change flags -/

/-- The content reports a change only if a block changes. -/
theorem contentChanged_eq_false (h : restampContent lastUser mi content = content) :
    contentChanged lastUser mi content = false := by
  rw [contentChanged, List.any_eq_false]
  intro changed hmem
  obtain ⟨bi, hbi, rfl⟩ := List.mem_mapIdx.mp hmem
  have hget := getElem?_restampContent lastUser mi content bi
  rw [h, List.getElem?_eq_getElem hbi, Option.map_some, Option.some.injEq] at hget
  have hshould := hasBreakpoint_restampBlock
    (isLastBlockOfLastUser lastUser mi content.length bi) content[bi]
  rw [← hget] at hshould
  simp [hshould]

theorem restampMessage_snd_eq_false
    (h : m.mapItems (js "content") (restampContent lastUser mi) = m) :
    (restampMessage lastUser mi m).2 = false := by
  unfold restampMessage
  cases hcontent : m.items? (js "content") with
  | none => rfl
  | some content =>
    have hsame := contentChanged_eq_false (Json.mapItems_eq_self_iff.mp h content hcontent)
    simp [hsame]

theorem restampMessages_unchanged (h : restampMessages messages = messages) :
    (messages.mapIdx fun mi m => restampMessage (lastUserIdx messages) mi m).any Prod.snd =
      false := by
  rw [List.any_eq_false]
  intro restamped hmem
  obtain ⟨mi, hmi, rfl⟩ := List.mem_mapIdx.mp hmem
  have hget := getElem?_restampMessages messages mi
  rw [h, List.getElem?_eq_getElem hmi, Option.map_some, Option.some.injEq] at hget
  simp [restampMessage_snd_eq_false hget.symm]

theorem restampSystem_unchanged {system : List Json} {changed : Bool}
    (h : restampSystem blocks = some (system, changed)) (hsame : restampBlocks blocks = blocks) :
    changed = false := by
  cases blocks with
  | nil =>
    rw [restampSystem, Option.some.injEq, Prod.mk.injEq] at h
    exact h.2.symm
  | cons b rest =>
    rw [restampSystem, Option.map_eq_some_iff] at h
    obtain ⟨isText, htext, heq⟩ := h
    rw [Prod.mk.injEq] at heq
    rw [restampBlocks, List.cons.injEq] at hsame
    rw [← heq.2, Bool.or_eq_false_iff]
    constructor
    · cases isText with
      | false => rfl
      | true =>
        have hhead := hsame.1
        rw [if_pos htext] at hhead
        simpa [hhead] using hasBreakpoint_withBreakpoint b
    · rw [List.any_eq_false]
      intro x hx
      obtain ⟨i, hi, rfl⟩ := List.mem_iff_getElem.mp hx
      have hget := congrArg (fun l : List Json => l[i]?) hsame.2
      simp only [List.getElem?_map, List.getElem?_eq_getElem hi, Option.map_some,
        Option.some.injEq] at hget
      have hno := hasBreakpoint_stripBreakpoint rest[i]
      rw [hget] at hno
      simp [hno]

/-- The reference that came in is returned exactly if it is in Layout B. -/
theorem restampBreakpoints_eq_same_iff (hms : hasMessages body = true)
    (hsys : systemThrows body = false) :
    restampBreakpoints body = .same ↔ restampedBody body = body := by
  constructor
  · intro hsame
    rcases restampBreakpoints_cases body with ⟨hno, -⟩ | ⟨-, hthrows, -⟩ | ⟨-, -, hresult⟩
    · rw [hms] at hno
      cases hno
    · rw [hsys] at hthrows
      cases hthrows
    · rcases hresult with ⟨-, heq⟩ | hrebuilt
      · exact heq
      · rw [hsame] at hrebuilt
        cases hrebuilt
  · intro hbody
    obtain ⟨hsystem, hmessages⟩ := (Json.mapItems_mapItems_eq_self_iff (by decide)).mp hbody
    unfold hasMessages at hms
    unfold systemThrows at hsys
    unfold restampBreakpoints
    cases hitems : body.items? (js "messages") with
    | none => rfl
    | some messages =>
      cases messages with
      | nil => rfl
      | cons m rest =>
        have hunchanged := restampMessages_unchanged (hmessages _ hitems)
        cases hblocks : body.items? (js "system") with
        | none => simp only [hunchanged, Bool.false_eq_true, if_false]
        | some blocks =>
          simp only [hblocks] at hsys
          rcases restampSystem_cases blocks with ⟨hnull, -⟩ | ⟨-, changed, hresult, -⟩
          · rw [hsys] at hnull
            cases hnull
          · have hsame := restampSystem_unchanged hresult (hsystem _ hblocks)
            simp only [hresult, hsame, hunchanged, Bool.false_eq_true, if_false]

/-! ## Layout B by places -/

/-- Every block has the breakpoint that its place should have. -/
def PlacesLaidOut (body : Json) : Prop :=
  ∀ p b, blockAt body p = some b → (hasBreakpoint b = true ↔ Carries body p)

theorem blockAt_eq_of_placesLaidOut (h : PlacesLaidOut body) (p : BlockPlace) :
    blockAt (restampedBody body) p = blockAt body p := by
  cases hb : blockAt body p with
  | some b =>
    obtain ⟨should, hshould, hout⟩ := blockAt_restampedBody hb
    have hsame : hasBreakpoint b = should := by
      rw [Bool.eq_iff_iff, hshould]
      exact h p b hb
    rw [hout, restampBlock_eq_self hsame]
  | none =>
    rw [Option.eq_none_iff_forall_ne_some]
    intro b' hb'
    obtain ⟨b, hb''⟩ := blockAt_of_restampedBody hb'
    rw [hb] at hb''
    cases hb''

theorem restampedBody_eq_self_iff : restampedBody body = body ↔ PlacesLaidOut body := by
  constructor
  · intro heq p b hb
    obtain ⟨should, hshould, hout⟩ := blockAt_restampedBody hb
    rw [heq, hb, Option.some.injEq] at hout
    rw [← hshould, hout, hasBreakpoint_restampBlock]
  · intro h
    refine (Json.mapItems_mapItems_eq_self_iff (by decide)).mpr ⟨?_, ?_⟩
    · intro blocks hblocks
      have hout := (items?_system_restampedBody body).trans (congrArg (Option.map _) hblocks)
      refine List.ext_getElem? fun i => ?_
      have hplace := blockAt_eq_of_placesLaidOut h (.system i)
      rwa [blockAt_system hout, blockAt_system hblocks] at hplace
    · intro messages hms
      have hout := (items?_messages_restampedBody body).trans (congrArg (Option.map _) hms)
      refine List.ext_getElem? fun mi => ?_
      have hm' := getElem?_restampMessages messages mi
      cases hm : messages[mi]? with
      | none => rw [hm', hm, Option.map_none]
      | some m =>
        rw [hm', hm, Option.map_some]
        rw [hm, Option.map_some] at hm'
        refine congrArg some (Json.mapItems_eq_self fun content hcontent => ?_)
        have hcontent' := (Json.items?_mapItems (js "content")
          (restampContent (lastUserIdx messages) mi) m).trans (congrArg (Option.map _) hcontent)
        refine List.ext_getElem? fun bi => ?_
        have hplace := blockAt_eq_of_placesLaidOut h (.message mi bi)
        rwa [blockAt_message hout hm' hcontent', blockAt_message hms hm hcontent] at hplace

/-! ## Once and for all -/

theorem isTextBlock_stripBreakpoint (b : Json) : isTextBlock (stripBreakpoint b) = isTextBlock b := by
  unfold stripBreakpoint
  split
  · cases b with
    | obj fields =>
      have htype : ((Json.obj fields).remove (js "cache_control")).get? (js "type") =
          (Json.obj fields).get? (js "type") := by
        rw [Json.get?_remove, if_neg (by decide)]
      have hblock : ∀ fields, isTextBlock (.obj fields) =
          some ((Json.obj fields).propIs (js "type") (.str (js "text")) ||
            !(Json.obj fields).has (js "type")) := fun _ => rfl
      rw [Json.remove, hblock, hblock]
      simp only [Json.remove] at htype
      simp only [Json.propIs, Json.has, htype]
    | _ => rfl
  · rfl

theorem isEmpty_restampContent (lastUser : Option ℕ) (mi : ℕ) (content : List Json) :
    (restampContent lastUser mi content).isEmpty = content.isEmpty := by
  cases content <;> simp [restampContent]

/-- The places of the breakpoints stay where they are. -/
theorem carries_restampedBody (body : Json) (p : BlockPlace) :
    Carries (restampedBody body) p ↔ Carries body p := by
  cases p with
  | system i =>
    constructor
    · rintro ⟨rfl, b', hb', hcarry⟩
      obtain ⟨b, hb⟩ := blockAt_of_restampedBody hb'
      obtain ⟨should, hshould, hout⟩ := blockAt_restampedBody hb
      rw [hb', Option.some.injEq] at hout
      subst hout
      rw [hasBreakpoint_restampBlock] at hcarry
      cases should with
      | true => exact hshould.mp rfl
      | false =>
        have htext := hcarry.resolve_right (by simp)
        rw [restampBlock, if_neg (by simp), isTextBlock_stripBreakpoint] at htext
        exact ⟨rfl, b, hb, .inl htext⟩
    · rintro ⟨rfl, b, hb, hcarry⟩
      obtain ⟨should, hshould, hout⟩ := blockAt_restampedBody hb
      refine ⟨rfl, _, hout, .inr ?_⟩
      rw [hasBreakpoint_restampBlock, hshould]
      exact ⟨rfl, b, hb, hcarry⟩
  | message mi bi =>
    have hlast : ∀ messages, IsLastUser (restampMessages messages) mi ↔ IsLastUser messages mi :=
      fun messages => isLastUser_mapIdx (restampContent (lastUserIdx messages))
        (isEmpty_restampContent (lastUserIdx messages)) messages mi
    constructor
    · rintro ⟨messages', m', content', hms', hlast', hm', hcontent', hbi⟩
      obtain ⟨messages, m, content, hms, hm, hcontent, rfl, rfl⟩ :=
        content_of_restampedBody hms' hm' hcontent'
      rw [restampContent, List.length_mapIdx] at hbi
      exact ⟨messages, m, content, hms, (hlast messages).mp hlast', hm, hcontent, hbi⟩
    · rintro ⟨messages, m, content, hms, hlast', hm, hcontent, hbi⟩
      have hms' := (items?_messages_restampedBody body).trans (congrArg (Option.map _) hms)
      have hm' := (getElem?_restampMessages messages mi).trans (congrArg (Option.map _) hm)
      have hcontent' := (Json.items?_mapItems (js "content")
        (restampContent (lastUserIdx messages) mi) m).trans (congrArg (Option.map _) hcontent)
      refine ⟨_, _, _, hms', (hlast messages).mpr hlast', hm', hcontent', ?_⟩
      rw [restampContent, List.length_mapIdx]
      exact hbi

theorem placesLaidOut_restampedBody (body : Json) : PlacesLaidOut (restampedBody body) := by
  intro p b' hb'
  obtain ⟨b, hb⟩ := blockAt_of_restampedBody hb'
  obtain ⟨should, hshould, hout⟩ := blockAt_restampedBody hb
  rw [hb', Option.some.injEq] at hout
  rw [hout, hasBreakpoint_restampBlock, carries_restampedBody]
  exact hshould

theorem startsWithNull_restampBlocks (blocks : List Json) :
    startsWithNull (restampBlocks blocks) = startsWithNull blocks := by
  cases blocks with
  | nil => rfl
  | cons b rest =>
    rw [restampBlocks]
    split
    · rename_i htext
      have hrec : (withBreakpoint b).isRecord = true := by
        by_contra hno
        rw [Bool.not_eq_true] at hno
        have hyes := hasBreakpoint_withBreakpoint b
        simp [hasBreakpoint, Json.get?_of_not_record hno] at hyes
      have hnull : ∀ v : Json, v ≠ .null → ∀ rest, startsWithNull (v :: rest) = false := by
        intro v hv rest
        cases v with
        | null => exact absurd rfl hv
        | _ => rfl
      rw [hnull _ (by rintro heq; simp [heq, Json.isRecord] at hrec),
        hnull b (by rintro rfl; simp [isTextBlock] at htext)]
    · cases b <;> rfl

theorem systemThrows_restampedBody (body : Json) :
    systemThrows (restampedBody body) = systemThrows body := by
  unfold systemThrows
  rw [items?_system_restampedBody]
  cases body.items? (js "system") with
  | none => rfl
  | some blocks => exact startsWithNull_restampBlocks blocks

theorem hasMessages_restampedBody (body : Json) :
    hasMessages (restampedBody body) = hasMessages body := by
  unfold hasMessages
  rw [items?_messages_restampedBody]
  cases body.items? (js "messages") with
  | none => rfl
  | some messages => cases messages <;> simp [restampMessages]

/-! ## The specification -/

/-- The messages are a non-empty array, and all blocks are objects. -/
structure HasBlocks (body : Json) : Prop where
  messages : hasMessages body = true
  objects : ∀ p b, blockAt body p = some b → b.isRecord = true

theorem HasBlocks.systemThrows (h : HasBlocks body) : systemThrows body = false := by
  unfold Stamp.systemThrows
  cases hblocks : body.items? (js "system") with
  | none => rfl
  | some blocks =>
    cases blocks with
    | nil => rfl
    | cons b rest =>
      have hrec := h.objects (.system 0) b (blockAt_system hblocks)
      cases b with
      | null => cases hrec
      | _ => rfl

/-- What the result `out` is to the body. -/
structure Restamps (body out : Json) : Prop where
  /-- The blocks with a breakpoint are the ones of Layout B. -/
  breakpoints : PlacesLaidOut out
  places : ∀ p, Carries out p ↔ Carries body p
  /-- No block is added or lost. -/
  blocks : ∀ p, (blockAt out p).isSome = (blockAt body p).isSome
  /-- A block that keeps its breakpoint, and one that has none and gets none,
  is kept as it is. -/
  kept : ∀ p b, blockAt body p = some b → (hasBreakpoint b = true ↔ Carries body p) →
    blockAt out p = some b
  stamped : ∀ p b, blockAt body p = some b → hasBreakpoint b = false → Carries body p →
    blockAt out p = some (b.set (js "cache_control") BREAKPOINT)
  stripped : ∀ p b, blockAt body p = some b → hasBreakpoint b = true → ¬ Carries body p →
    blockAt out p = some (b.remove (js "cache_control"))
  /-- Of a message only a content that is an array is written. -/
  messages : ∀ messages, body.items? (js "messages") = some messages → ∃ messages',
    out.items? (js "messages") = some messages' ∧ messages'.length = messages.length ∧
      ∀ (mi : ℕ) (m m' : Json), messages[mi]? = some m → messages'[mi]? = some m' →
        (∀ key, key ≠ js "content" → m'.get? key = m.get? key) ∧
          (m.items? (js "content") = none → m' = m)
  /-- Of the system only an array is written. -/
  system : body.items? (js "system") = none → out.get? (js "system") = body.get? (js "system")
  rest : ∀ key, key ≠ js "system" → key ≠ js "messages" → out.get? key = body.get? key

theorem restamps_restampedBody (h : HasBlocks body) : Restamps body (restampedBody body) where
  breakpoints := placesLaidOut_restampedBody body
  places := carries_restampedBody body
  blocks p := by
    cases hb : blockAt body p with
    | some b =>
      obtain ⟨should, -, hout⟩ := blockAt_restampedBody hb
      rw [hout]
      rfl
    | none =>
      rw [Option.isSome_none, Option.isSome_eq_false_iff, Option.isNone_iff_eq_none,
        Option.eq_none_iff_forall_ne_some]
      intro b' hb'
      obtain ⟨b, hb''⟩ := blockAt_of_restampedBody hb'
      rw [hb] at hb''
      cases hb''
  kept p b hb hsame := by
    obtain ⟨should, hshould, hout⟩ := blockAt_restampedBody hb
    have heq : hasBreakpoint b = should := by
      rw [Bool.eq_iff_iff, hshould]
      exact hsame
    rw [hout, restampBlock_eq_self heq]
  stamped p b hb hno hcarries := by
    obtain ⟨should, hshould, hout⟩ := blockAt_restampedBody hb
    obtain ⟨fields, rfl⟩ : ∃ fields, b = .obj fields := by
      have hrec := h.objects p b hb
      cases b with
      | obj fields => exact ⟨fields, rfl⟩
      | _ => cases hrec
    rw [hout, hshould.mpr hcarries, restampBlock, if_pos rfl, withBreakpoint, hno]
    rfl
  stripped p b hb hyes hno := by
    obtain ⟨should, hshould, hout⟩ := blockAt_restampedBody hb
    have hfalse : should = false := by
      rw [← Bool.not_eq_true, hshould]
      exact hno
    rw [hout, hfalse, restampBlock, if_neg (by simp), stripBreakpoint, hyes, if_pos rfl]
  messages messages hms := by
    refine ⟨_, (items?_messages_restampedBody body).trans (congrArg (Option.map _) hms),
      by simp [restampMessages], fun mi m m' hm hm' => ?_⟩
    rw [getElem?_restampMessages, hm, Option.map_some, Option.some.injEq] at hm'
    subst hm'
    exact ⟨fun key hkey => Json.get?_mapItems_of_ne (Ne.symm hkey) _ m,
      fun hnone => Json.mapItems_of_none hnone _⟩
  system hnone := by
    rw [restampedBody, Json.get?_mapItems_of_ne (by decide), Json.mapItems_of_none hnone]
  rest key hsystem hmessages := by
    rw [restampedBody, Json.get?_mapItems_of_ne (Ne.symm hmessages),
      Json.get?_mapItems_of_ne (Ne.symm hsystem)]

theorem value_restampBreakpoints (h : HasBlocks body) :
    (restampBreakpoints body).value body = some (restampedBody body) := by
  rcases restampBreakpoints_cases body with ⟨hno, -⟩ | ⟨-, hthrows, -⟩ | ⟨-, -, hresult⟩
  · rw [h.messages] at hno
    cases hno
  · rw [h.systemThrows] at hthrows
    cases hthrows
  · rcases hresult with ⟨hsame, heq⟩ | hrebuilt
    · rw [hsame, heq]
      rfl
    · rw [hrebuilt]
      rfl

/-- The function returns the body in Layout B: the reference that came in
exactly if every block has the breakpoint it should have, and always if it is
called on its own result. -/
theorem restampBreakpoints_spec (h : HasBlocks body) : ∃ out,
    (restampBreakpoints body).value body = some out ∧ Restamps body out ∧
      (restampBreakpoints body = .same ↔ PlacesLaidOut body) ∧ restampBreakpoints out = .same := by
  refine ⟨restampedBody body, value_restampBreakpoints h, restamps_restampedBody h, ?_, ?_⟩
  · rw [restampBreakpoints_eq_same_iff h.messages h.systemThrows, restampedBody_eq_self_iff]
  · refine (restampBreakpoints_eq_same_iff ?_ ?_).mpr ?_
    · rw [hasMessages_restampedBody, h.messages]
    · rw [systemThrows_restampedBody, h.systemThrows]
    · exact restampedBody_eq_self_iff.mpr (placesLaidOut_restampedBody body)

/-- Lists of objects are blocks. -/
theorem HasBlocks.of_forall (hmessages : hasMessages body = true)
    (hsystem : ∀ blocks, body.items? (js "system") = some blocks →
      ∀ b ∈ blocks, b.isRecord = true)
    (hcontent : ∀ messages, body.items? (js "messages") = some messages → ∀ m ∈ messages,
      ∀ content, m.items? (js "content") = some content → ∀ b ∈ content, b.isRecord = true) :
    HasBlocks body where
  messages := hmessages
  objects p b hb := by
    cases p with
    | system i =>
      obtain ⟨blocks, hblocks, hb⟩ := blockAt_system_eq_some.mp hb
      exact hsystem blocks hblocks b (List.mem_of_getElem? hb)
    | message mi bi =>
      obtain ⟨messages, m, content, hms, hm, hitems, hb⟩ := blockAt_message_eq_some.mp hb
      exact hcontent messages hms m (List.mem_of_getElem? hm) content hitems b
        (List.mem_of_getElem? hb)

/-- A text block with a breakpoint. -/
def breakpointBlock (text : String) (ttl : List (JsString × Json)) : Json :=
  .obj [(js "type", .str (js "text")), (js "text", .str (js text)),
    (js "cache_control", .obj ((js "type", .str (js "ephemeral")) :: ttl))]

def oneHour : List (JsString × Json) := [(js "ttl", .str (js "1h"))]

/-- A conversation over two system blocks. -/
def conversation (rules hello read fix : Json) : Json :=
  .obj [(js "model", .str (js "umans-coder")),
    (js "system", .arr [breakpointBlock "You are a coding agent." oneHour, rules]),
    (js "messages", .arr [message "user" (.arr [hello]),
      message "assistant" (.arr [textBlock (js "Hi")]),
      message "user" (.arr [read, fix])])]

/-- Breakpoints on every block but the last. -/
def clientConversation : Json :=
  conversation (breakpointBlock "Rules" []) (breakpointBlock "Hello" oneHour)
    (breakpointBlock "Read it" []) (textBlock (js "Fix it"))

def movedConversation : Json :=
  conversation (textBlock (js "Rules")) (textBlock (js "Hello")) (textBlock (js "Read it"))
    (breakpointBlock "Fix it" [])

/-- The first system block keeps its hour, and of the others the last one of the
last question has a breakpoint. -/
theorem restampBreakpoints_spec_conversation :
    (restampBreakpoints clientConversation).value clientConversation = some movedConversation ∧
      Restamps clientConversation movedConversation ∧ ¬ PlacesLaidOut clientConversation ∧
      restampBreakpoints movedConversation = .same := by
  have hblocks : HasBlocks clientConversation := by
    refine HasBlocks.of_forall rfl (fun blocks h => ?_) fun messages h => ?_
    · cases h
      simp [breakpointBlock, Json.isRecord]
    · cases h
      simp only [List.forall_mem_cons, List.not_mem_nil, false_implies, implies_true, and_true]
      refine ⟨?_, ?_, ?_⟩
      all_goals
        intro content hcontent
        cases hcontent
        simp [breakpointBlock, textBlock, Json.isRecord]
  have hmoved : (restampBreakpoints clientConversation).value clientConversation =
      some movedConversation := rfl
  have hchanged : restampBreakpoints clientConversation ≠ .same := by
    intro hsame
    rw [hsame] at hmoved
    have hsecond := congrArg (Option.map fun body =>
      (blockAt body (.system 1)).map hasBreakpoint) hmoved
    exact absurd hsecond (by decide)
  obtain ⟨out, hvalue, hrestamps, hsame, hagain⟩ := restampBreakpoints_spec hblocks
  obtain rfl : movedConversation = out := Option.some.inj (hmoved.symm.trans hvalue)
  exact ⟨hvalue, hrestamps, fun hlaid => hchanged (hsame.mpr hlaid), hagain⟩

/-! ## Other cache controls -/

/-- A text block with a `cache_control` of another type. -/
def foreignBlock : Json :=
  .obj [(js "type", .str (js "text")), (js "text", .str (js "You are a helpful assistant.")),
    (js "cache_control", .obj [(js "type", .str (js "persistent"))])]

def foreignBody : Json :=
  .obj [(js "system", .arr [foreignBlock]),
    (js "messages", .arr [message "user" (.str (js "Hello"))])]

/-- At a place of Layout B it is replaced. -/
theorem foreign_cache_control_replaced :
    HasBlocks foreignBody ∧ ∃ out, (restampBreakpoints foreignBody).value foreignBody = some out ∧
      ¬ ∀ p b, blockAt foreignBody p = some b → b.get? (js "cache_control") ≠ none →
        hasBreakpoint b = false → blockAt out p = some b := by
  have hobjects : HasBlocks foreignBody := by
    refine HasBlocks.of_forall rfl (fun blocks h => ?_) fun messages h => ?_
    · cases h
      exact List.forall_mem_singleton.mpr rfl
    · cases h
      refine List.forall_mem_singleton.mpr fun content hcontent => ?_
      cases hcontent
  have hno : hasBreakpoint foreignBlock = false := by decide
  have hcarries : Carries foreignBody (.system 0) := ⟨rfl, foreignBlock, rfl, .inl (by decide)⟩
  refine ⟨hobjects, restampedBody foreignBody, value_restampBreakpoints hobjects, fun hkept => ?_⟩
  have hcontrol : foreignBlock.get? (js "cache_control") ≠ none := by
    rw [← Option.isSome_iff_ne_none]
    decide
  have hout := hkept (.system 0) foreignBlock rfl hcontrol hno
  have hlaid := (placesLaidOut_restampedBody foreignBody (.system 0) foreignBlock hout).mpr
    ((carries_restampedBody foreignBody (.system 0)).mpr hcarries)
  rw [hno] at hlaid
  cases hlaid

end UmansGate.Stamp
