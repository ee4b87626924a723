/-
UmansGate.Stamp.RewalkTheorems — the block steps on blocks they have walked
before.

What the two steps do to the messages depends on these alone, and what they
do to the system on it and on there being messages. Blocks that were walked
are left alone by the next walk, wherever the one for the ttl stopped. Of
other blocks those that a walk changes do not come out deep-equal: it shows
in a breakpoint or in its ttl.
-/
import UmansGate.Lib.JsonEqual
import UmansGate.Stamp.IdleTheorems

namespace UmansGate.Stamp

open UmansGate.Lib

variable {ctx : StampContext} {body b b' m m' : Json} {messages blocks content xs ys : List Json}

/-! ## The two walks -/

/-- The system blocks behind both block steps, or behind the second one where
the body has no messages. -/
def walkBlocks (laid : Bool) (blocks : List Json) : List Json :=
  (if laid then restampBlocks blocks else blocks).map (stampBlockTtl STAMP_CACHE_TTL_VALUE)

/-- The messages behind both block steps. -/
def walkMessages (messages : List Json) : List Json :=
  (stampTtlMessages STAMP_CACHE_TTL_VALUE (restampMessages messages)).1

/-- The items of an array replaced. -/
def onItems (f : List Json → List Json) : Json → Json
  | .arr items => .arr (f items)
  | v => v

theorem get?_mapItems_eq_map (key : JsString) (f : List Json → List Json) (v : Json) :
    (v.mapItems key f).get? key = (v.get? key).map (onItems f) := by
  rw [Json.get?_mapItems]
  cases v.get? key with
  | none => rfl
  | some w => cases w <;> rfl

theorem get?_blockBody_walkBlocks (hcc : ctx.claudeCode = true) (body : Json) :
    (blockBody ctx body).get? (js "system") =
      (body.get? (js "system")).map (onItems (walkBlocks (hasMessages body))) := by
  cases hmsgs : hasMessages body with
  | true =>
    rw [get?_blockBody_system hcc hmsgs, get?_mapItems_eq_map]
    rfl
  | false =>
    rw [blockBody, if_pos hcc, layoutBody, hmsgs, if_neg Bool.false_ne_true, ttlBody,
      Json.get?_mapItems_of_ne (by decide), get?_mapItems_eq_map]
    rfl

theorem get?_blockBody_walkMessages (hcc : ctx.claudeCode = true) (body : Json) :
    (blockBody ctx body).get? (js "messages") =
      (body.get? (js "messages")).map (onItems walkMessages) := by
  cases hitems : body.items? (js "messages") with
  | some messages =>
    rw [Json.items?_eq_some.mp (items?_blockBody_messages hcc hitems), Json.items?_eq_some.mp hitems]
    rfl
  | none =>
    rw [get?_blockBody_messages_of_none hitems]
    unfold Json.items? at hitems
    cases hget : body.get? (js "messages") with
    | none => rfl
    | some v =>
      cases v with
      | arr messages =>
        rw [hget] at hitems
        cases hitems
      | _ => rfl

/-! ## What the layout depends on -/

/-- What the layout of the system sees of a block. -/
def blockProfile (b : Json) : Option Bool × Bool := (isTextBlock b, hasBreakpoint b)

/-- What the layout of the messages sees of one. -/
def profile (m : Json) : Bool × Option (List Bool) :=
  (isBreakpointTarget m, (m.items? (js "content")).map (List.map hasBreakpoint))

theorem systemInLayout_congr (h : xs.map blockProfile = ys.map blockProfile)
    (hlaid : SystemInLayout xs) : SystemInLayout ys := by
  rintro b' rest' rfl
  rw [List.map_cons, List.map_eq_cons_iff] at h
  obtain ⟨b, rest, rfl, hb, hrest⟩ := h
  obtain ⟨hhead, htail⟩ := hlaid b rest rfl
  obtain ⟨htext, hbp⟩ := Prod.mk.inj hb
  refine ⟨fun ht => hbp ▸ hhead (htext.trans ht), fun x' hx' => ?_⟩
  have hmem : blockProfile x' ∈ rest.map blockProfile := hrest ▸ List.mem_map_of_mem hx'
  obtain ⟨x, hx, hprofile⟩ := List.mem_map.mp hmem
  exact (Prod.mk.inj hprofile).2.symm.trans (htail x hx)

theorem contentLaidOut_congr {should : Prop} (h : xs.map hasBreakpoint = ys.map hasBreakpoint)
    (hlaid : ContentLaidOut should xs) : ContentLaidOut should ys := by
  rintro init' b' rfl
  rw [List.map_append, List.map_eq_append_iff] at h
  obtain ⟨init, last, rfl, hinit, hlast⟩ := h
  obtain ⟨b, rfl, hb⟩ := List.map_eq_singleton_iff.mp hlast
  obtain ⟨hshould, hrest⟩ := hlaid init b rfl
  refine ⟨hb ▸ hshould, fun x' hx' => ?_⟩
  have hmem : hasBreakpoint x' ∈ init.map hasBreakpoint := hinit ▸ List.mem_map_of_mem hx'
  obtain ⟨x, hx, hsame⟩ := List.mem_map.mp hmem
  exact hsame.symm.trans (hrest x hx)

theorem isLastUser_iff (messages : List Json) (mi : ℕ) : IsLastUser messages mi ↔
    ∃ p, (messages.map profile)[mi]? = some p ∧ p.1 = true ∧
      ∀ mj q, mi < mj → (messages.map profile)[mj]? = some q → q.1 = false := by
  unfold IsLastUser
  simp only [List.getElem?_map, Option.map_eq_some_iff]
  constructor
  · rintro ⟨m, hm, htarget, hlater⟩
    refine ⟨profile m, ⟨m, hm, rfl⟩, htarget, ?_⟩
    rintro mj _ hlt ⟨m', hm', rfl⟩
    exact hlater mj m' hlt hm'
  · rintro ⟨_, ⟨m, hm, rfl⟩, htarget, hlater⟩
    exact ⟨m, hm, htarget, fun mj m' hlt hm' => hlater mj (profile m') hlt ⟨m', hm', rfl⟩⟩

theorem laidOut_congr (h : xs.map profile = ys.map profile) (hlaid : LaidOut xs) : LaidOut ys := by
  intro mi m' content' hm' hcontent'
  have hat := congrArg (·[mi]?) h
  simp only [List.getElem?_map, hm', Option.map_some, Option.map_eq_some_iff] at hat
  obtain ⟨m, hm, hprofile⟩ := hat
  have hcontent := (Prod.mk.inj hprofile).2
  rw [hcontent', Option.map_some, Option.map_eq_some_iff] at hcontent
  obtain ⟨content, hitems, hsame⟩ := hcontent
  have hlast : IsLastUser xs mi ↔ IsLastUser ys mi := by
    rw [isLastUser_iff, isLastUser_iff, h]
  rw [← hlast]
  exact contentLaidOut_congr hsame (hlaid mi m content hm hitems)

/-! ## The ttl leaves the layout -/

theorem isTextBlock_eq (b : Json) : isTextBlock b =
    if isNull b then none
    else some (b.propIs (js "type") (.str (js "text")) || !b.has (js "type")) := by
  cases b <;> rfl

theorem isNull_stampBlockTtl (ttl : JsString) (b : Json) :
    isNull (stampBlockTtl ttl b) = isNull b := by
  unfold stampBlockTtl
  split
  · split
    · cases b <;> rfl
    · rfl
  · rfl

theorem blockProfile_stampBlockTtl (ttl : JsString) (b : Json) :
    blockProfile (stampBlockTtl ttl b) = blockProfile b := by
  have htype := get?_stampBlockTtl (show js "cache_control" ≠ js "type" by decide) ttl b
  unfold blockProfile
  rw [isTextBlock_eq, isTextBlock_eq, isNull_stampBlockTtl, Json.propIs, Json.has, htype,
    hasBreakpoint_stampBlockTtl]
  rfl

theorem profile_stampTtl (ttl : JsString) (m : Json) :
    profile (m.mapItems (js "content") (List.map (stampBlockTtl ttl))) = profile m := by
  unfold profile
  rw [isBreakpointTarget_mapItems _ _ fun content _ => List.isEmpty_map, Json.items?_mapItems,
    Option.map_map]
  congr 2
  funext content
  simp [Function.comp, hasBreakpoint_stampBlockTtl]

theorem map_profile_stampTtlMessages (messages : List Json) :
    (stampTtlMessages STAMP_CACHE_TTL_VALUE messages).1.map profile = messages.map profile := by
  induction messages with
  | nil => rfl
  | cons m rest ih =>
    cases m with
    | null => rfl
    | _ => simp only [stampTtlMessages, List.map_cons, ih, stampTtlIn_fst, profile_stampTtl]

theorem laidOut_walkMessages (messages : List Json) : LaidOut (walkMessages messages) := by
  refine laidOut_congr ?_ (laidOut_blockMessages messages)
  rw [← blockMessages_eq, walkMessages, map_profile_stampTtlMessages, List.map_map]
  exact List.map_congr_left fun m _ => profile_stampTtl STAMP_CACHE_TTL_VALUE m

theorem systemInLayout_walkBlocks (blocks : List Json) : SystemInLayout (walkBlocks true blocks) := by
  have hlaid : SystemInLayout (restampBlocks blocks) := by
    cases blocks with
    | nil => exact fun b rest heq => absurd heq (by simp [restampBlocks])
    | cons b rest =>
      rintro b' rest' heq
      obtain ⟨rfl, rfl⟩ := List.cons.inj heq
      refine ⟨fun htext => ?_, fun x hx => ?_⟩
      · split at htext
        · rw [if_pos ‹_›]
          exact hasBreakpoint_withBreakpoint b
        · contradiction
      · obtain ⟨y, -, rfl⟩ := List.mem_map.mp hx
        exact hasBreakpoint_stripBreakpoint y
  refine systemInLayout_congr ?_ hlaid
  rw [walkBlocks, if_pos rfl, List.map_map]
  exact List.map_congr_left fun b _ => (blockProfile_stampBlockTtl _ b).symm

/-- The ttl alone puts no system in layout and takes none out of it. -/
theorem systemInLayout_walkBlocks_false (blocks : List Json) :
    SystemInLayout (walkBlocks false blocks) ↔ SystemInLayout blocks := by
  have hprofile : (walkBlocks false blocks).map blockProfile = blocks.map blockProfile := by
    rw [walkBlocks, if_neg Bool.false_ne_true, List.map_map]
    exact List.map_congr_left fun b _ => blockProfile_stampBlockTtl _ b
  exact ⟨systemInLayout_congr hprofile, systemInLayout_congr hprofile.symm⟩

/-! ## The ttl of the blocks a walk reaches -/

/-- Every breakpoint has a ttl that the walk comes to; it stops at a `null`. -/
def TtlsReached (messages : List Json) : Prop :=
  ∀ m ∈ messages.takeWhile fun m => !isNull m, ∀ content,
    m.items? (js "content") = some content → ∀ b ∈ content, lacksTtl b = false

theorem ttlsReached_null (rest : List Json) : TtlsReached (.null :: rest) := by
  simp [TtlsReached, isNull]

theorem ttlsReached_cons (h : isNull m = false) (rest : List Json) : TtlsReached (m :: rest) ↔
    (∀ content, m.items? (js "content") = some content → ∀ b ∈ content, lacksTtl b = false) ∧
      TtlsReached rest := by
  unfold TtlsReached
  rw [List.takeWhile_cons_of_pos (by simp [h])]
  simp

theorem stampTtlMessages_cons (h : isNull m = false) (rest : List Json) :
    (stampTtlMessages STAMP_CACHE_TTL_VALUE (m :: rest)).1 =
      m.mapItems (js "content") (List.map (stampBlockTtl STAMP_CACHE_TTL_VALUE)) ::
        (stampTtlMessages STAMP_CACHE_TTL_VALUE rest).1 := by
  cases m with
  | null => cases h
  | _ => simp only [stampTtlMessages, stampTtlIn_fst]

theorem map_stampBlockTtl_eq_self (h : ∀ b ∈ blocks, lacksTtl b = false) :
    blocks.map (stampBlockTtl STAMP_CACHE_TTL_VALUE) = blocks :=
  (map_eq_self_iff _ blocks).mpr fun b hb => (stampBlockTtl_eq_self_iff b).mpr (h b hb)

theorem hasTtls_walkBlocks (laid : Bool) (blocks : List Json) :
    ∀ b ∈ walkBlocks laid blocks, lacksTtl b = false := by
  intro b hb
  obtain ⟨b', -, rfl⟩ := List.mem_map.mp hb
  exact lacksTtl_stampBlockTtl b'

theorem stampTtlMessages_eq_self (h : TtlsReached messages) :
    (stampTtlMessages STAMP_CACHE_TTL_VALUE messages).1 = messages := by
  induction messages with
  | nil => rfl
  | cons m rest ih =>
    cases hnull : isNull m with
    | true =>
      cases m with
      | null => rfl
      | _ => cases hnull
    | false =>
      obtain ⟨hm, hrest⟩ := (ttlsReached_cons hnull rest).mp h
      rw [stampTtlMessages_cons hnull, ih hrest, Json.mapItems_eq_self fun content hcontent =>
        map_stampBlockTtl_eq_self (hm content hcontent)]

theorem ttlsReached_stampTtlMessages (messages : List Json) :
    TtlsReached (stampTtlMessages STAMP_CACHE_TTL_VALUE messages).1 := by
  induction messages with
  | nil => exact fun m hm => absurd hm (by simp [stampTtlMessages])
  | cons m rest ih =>
    cases hnull : isNull m with
    | true =>
      cases m with
      | null => exact ttlsReached_null rest
      | _ => cases hnull
    | false =>
      rw [stampTtlMessages_cons hnull, ttlsReached_cons ((isNull_mapItems _ _ m).trans hnull)]
      refine ⟨fun content hcontent b hb => ?_, ih⟩
      rw [Json.items?_mapItems, Option.map_eq_some_iff] at hcontent
      obtain ⟨content', -, rfl⟩ := hcontent
      obtain ⟨b', -, rfl⟩ := List.mem_map.mp hb
      exact lacksTtl_stampBlockTtl b'

/-! ## Deep equality shows a walk -/

theorem isNull_congr (h : Json.DeepEqual b b') : isNull b = isNull b' := by
  cases h <;> rfl

theorem hasBreakpoint_congr (h : Json.DeepEqual b b') : hasBreakpoint b = hasBreakpoint b' := by
  have hget := h.get? (js "cache_control")
  unfold hasBreakpoint
  generalize b.get? (js "cache_control") = o at hget
  generalize b'.get? (js "cache_control") = o' at hget
  cases hget with
  | none => rfl
  | some hcc => exact hcc.propIs _ _

theorem lacksTtl_congr (h : Json.DeepEqual b b') : lacksTtl b = lacksTtl b' := by
  have hget := h.get? (js "cache_control")
  unfold lacksTtl
  generalize b.get? (js "cache_control") = o at hget
  generalize b'.get? (js "cache_control") = o' at hget
  cases hget with
  | none => rfl
  | some hcc =>
    rename_i cc cc'
    have httl := hcc.get? (js "ttl")
    simp only [hcc.propIs]
    generalize cc.get? (js "ttl") = p at httl
    generalize cc'.get? (js "ttl") = p' at httl
    cases httl with
    | none => rfl
    | some hvalue => simp only [hvalue.truthy]

theorem blockProfile_congr (h : Json.DeepEqual b b') : blockProfile b = blockProfile b' := by
  unfold blockProfile
  rw [isTextBlock_eq, isTextBlock_eq, isNull_congr h, h.propIs, h.has, hasBreakpoint_congr h]

theorem profile_congr (h : Json.DeepEqual m m') : profile m = profile m' := by
  have hitems := h.items? (js "content")
  unfold profile isBreakpointTarget
  rw [h.propIs]
  generalize m.items? (js "content") = o at hitems
  generalize m'.items? (js "content") = o' at hitems
  cases hitems with
  | none => rfl
  | some hcontent =>
    have hbp := Json.DeepEqual.map_eq_map (fun _ _ => hasBreakpoint_congr) hcontent
    rw [Option.map_some, Option.map_some, hbp]
    cases hcontent <;> rfl

theorem hasTtls_congr (h : List.Forall₂ Json.DeepEqual xs ys)
    (httls : ∀ b ∈ xs, lacksTtl b = false) : ∀ b ∈ ys, lacksTtl b = false := by
  have hmap := Json.DeepEqual.map_eq_map (fun _ _ => lacksTtl_congr) h
  intro b' hb'
  have hmem : lacksTtl b' ∈ xs.map lacksTtl := hmap ▸ List.mem_map_of_mem hb'
  obtain ⟨b, hb, hsame⟩ := List.mem_map.mp hmem
  exact hsame.symm.trans (httls b hb)

theorem ttlsReached_congr (h : List.Forall₂ Json.DeepEqual xs ys) (httls : TtlsReached xs) :
    TtlsReached ys := by
  induction h with
  | nil => exact httls
  | cons hm _ ih =>
    rename_i m m' rest rest' _
    cases hnull : isNull m with
    | true =>
      have hnull' := (isNull_congr hm).symm.trans hnull
      cases m' with
      | null => exact ttlsReached_null rest'
      | _ => cases hnull'
    | false =>
      obtain ⟨hcontent, hrest⟩ := (ttlsReached_cons hnull rest).mp httls
      refine (ttlsReached_cons ((isNull_congr hm).symm.trans hnull) rest').mpr ⟨?_, ih hrest⟩
      intro content' hcontent'
      have hitems := hm.items? (js "content")
      rw [hcontent'] at hitems
      generalize hget : m.items? (js "content") = o at hitems
      cases hitems with
      | some hequal => exact hasTtls_congr hequal (hcontent _ hget)

/-- A walk leaves the blocks of a system deep-equal exactly if it leaves them
alone. -/
theorem deepEqual_walkBlocks_iff (laid : Bool) (blocks : List Json) :
    Json.DeepEqual (.arr (walkBlocks laid blocks)) (.arr blocks) ↔
      (laid = true → SystemInLayout blocks) ∧ ∀ b ∈ blocks, lacksTtl b = false := by
  constructor
  · intro h
    refine ⟨?_, hasTtls_congr h.forall₂ (hasTtls_walkBlocks laid blocks)⟩
    rintro rfl
    exact systemInLayout_congr
      (Json.DeepEqual.map_eq_map (fun _ _ => blockProfile_congr) h.forall₂)
      (systemInLayout_walkBlocks blocks)
  · intro hp
    obtain ⟨hlaid, httls⟩ := hp
    have hlayout : (if laid then restampBlocks blocks else blocks) = blocks := by
      split
      · exact (restampBlocks_eq_self_iff blocks).mpr (hlaid ‹_›)
      · rfl
    rw [walkBlocks, hlayout, map_stampBlockTtl_eq_self httls]
    exact .refl _

/-- So it is with the messages. -/
theorem deepEqual_walkMessages_iff (messages : List Json) :
    Json.DeepEqual (.arr (walkMessages messages)) (.arr messages) ↔
      LaidOut messages ∧ TtlsReached messages := by
  constructor
  · intro h
    exact ⟨laidOut_congr (Json.DeepEqual.map_eq_map (fun _ _ => profile_congr) h.forall₂)
      (laidOut_walkMessages messages), ttlsReached_congr h.forall₂ (ttlsReached_stampTtlMessages _)⟩
  · intro hp
    obtain ⟨hlaid, httls⟩ := hp
    rw [walkMessages, (restampMessages_eq_self_iff messages).mpr hlaid, stampTtlMessages_eq_self httls]
    exact .refl _

/-- A second walk over the system finds nothing to do. -/
theorem walkBlocks_walkBlocks (laid : Bool) (blocks : List Json) :
    walkBlocks laid (walkBlocks laid blocks) = walkBlocks laid blocks := by
  have httls := map_stampBlockTtl_eq_self (hasTtls_walkBlocks laid blocks)
  cases laid with
  | false => exact httls
  | true =>
    have hlaid := (restampBlocks_eq_self_iff _).mpr (systemInLayout_walkBlocks blocks)
    rw [walkBlocks, if_pos rfl, hlaid, httls]

/-- A second walk over the messages finds nothing to do. -/
theorem walkMessages_walkMessages (messages : List Json) :
    walkMessages (walkMessages messages) = walkMessages messages := by
  have hlaid := (restampMessages_eq_self_iff _).mpr (laidOut_walkMessages messages)
  have httls := stampTtlMessages_eq_self (ttlsReached_stampTtlMessages (restampMessages messages))
  rw [walkMessages, hlaid]
  exact httls

/-! ## Walked values -/

theorem rel_walkBlocks_iff (laid : Bool) (o : Option Json) :
    Option.Rel Json.DeepEqual (o.map (onItems (walkBlocks laid))) o ↔
      ∀ blocks, o = some (.arr blocks) →
        (laid = true → SystemInLayout blocks) ∧ ∀ b ∈ blocks, lacksTtl b = false := by
  constructor
  · rintro hrel blocks rfl
    rw [← deepEqual_walkBlocks_iff]
    cases hrel with
    | some hequal => exact hequal
  · intro h
    cases o with
    | none => exact .none
    | some v =>
      cases v with
      | arr blocks => exact .some ((deepEqual_walkBlocks_iff laid blocks).mpr (h blocks rfl))
      | _ => exact .some (.refl _)

/-- Over a system that was walked the next walk may have to lay it out. -/
theorem rel_rewalkBlocks_iff (first second : Bool) (o : Option Json) :
    Option.Rel Json.DeepEqual ((o.map (onItems (walkBlocks first))).map (onItems (walkBlocks second)))
        (o.map (onItems (walkBlocks first))) ↔
      (first = false → second = true → ∀ blocks, o = some (.arr blocks) → SystemInLayout blocks) := by
  rw [rel_walkBlocks_iff]
  constructor
  · rintro h rfl rfl blocks rfl
    exact (systemInLayout_walkBlocks_false blocks).mp ((h _ rfl).1 rfl)
  · rintro h blocks heq
    obtain ⟨v, rfl, hv⟩ := Option.map_eq_some_iff.mp heq
    cases v with
    | arr blocks₀ =>
      cases hv
      refine ⟨fun hsecond => ?_, hasTtls_walkBlocks first blocks₀⟩
      cases first with
      | true => exact systemInLayout_walkBlocks blocks₀
      | false => exact (systemInLayout_walkBlocks_false blocks₀).mpr (h rfl hsecond blocks₀ rfl)
    | _ => cases hv

theorem rel_walkMessages_iff (o : Option Json) :
    Option.Rel Json.DeepEqual (o.map (onItems walkMessages)) o ↔
      ∀ messages, o = some (.arr messages) → LaidOut messages ∧ TtlsReached messages := by
  constructor
  · rintro hrel messages rfl
    rw [← deepEqual_walkMessages_iff]
    cases hrel with
    | some hequal => exact hequal
  · intro h
    cases o with
    | none => exact .none
    | some v =>
      cases v with
      | arr messages => exact .some ((deepEqual_walkMessages_iff messages).mpr (h messages rfl))
      | _ => exact .some (.refl _)

theorem map_walkMessages_again (o : Option Json) :
    (o.map (onItems walkMessages)).map (onItems walkMessages) = o.map (onItems walkMessages) := by
  cases o with
  | none => rfl
  | some v =>
    cases v with
    | arr messages => simp [onItems, walkMessages_walkMessages]
    | _ => rfl

/-! ## Where the steps throw -/

section Same

variable {v w : Json}

theorem hasMessages_of_get? (h : v.get? (js "messages") = w.get? (js "messages")) :
    hasMessages v = hasMessages w := by
  unfold hasMessages Json.items?
  rw [h]

theorem iterates_of_get? (h : v.get? (js "messages") = w.get? (js "messages")) :
    iterates v = iterates w := by
  unfold iterates
  rw [h]

theorem systemThrows_of_get? (h : v.get? (js "system") = w.get? (js "system")) :
    systemThrows v = systemThrows w := by
  unfold systemThrows Json.items?
  rw [h]

theorem length_walkMessages (messages : List Json) :
    (walkMessages messages).length = messages.length := by
  have hlength := congrArg List.length (map_profile_stampTtlMessages (restampMessages messages))
  simpa [walkMessages, restampMessages] using hlength

theorem any_isNull_stampTtlMessages (messages : List Json) :
    (stampTtlMessages STAMP_CACHE_TTL_VALUE messages).1.any isNull = messages.any isNull := by
  induction messages with
  | nil => rfl
  | cons m rest ih =>
    cases hnull : isNull m with
    | true =>
      cases m with
      | null => rfl
      | _ => cases hnull
    | false => rw [stampTtlMessages_cons hnull, List.any_cons, List.any_cons, isNull_mapItems, ih]

theorem any_isNull_walkMessages (messages : List Json) :
    (walkMessages messages).any isNull = messages.any isNull := by
  rw [walkMessages, any_isNull_stampTtlMessages, any_isNull_restampMessages]

theorem hasMessages_of_walked
    (h : v.get? (js "messages") = (w.get? (js "messages")).map (onItems walkMessages)) :
    hasMessages v = hasMessages w := by
  have hempty : ∀ messages, (walkMessages messages).isEmpty = messages.isEmpty := fun messages => by
    rw [Bool.eq_iff_iff, List.isEmpty_iff_length_eq_zero, List.isEmpty_iff_length_eq_zero,
      length_walkMessages]
  unfold hasMessages Json.items?
  rw [h]
  cases w.get? (js "messages") with
  | none => rfl
  | some x =>
    cases x with
    | arr messages => simp only [Option.map_some, onItems, hempty]
    | _ => rfl

theorem iterates_of_walked
    (h : v.get? (js "messages") = (w.get? (js "messages")).map (onItems walkMessages)) :
    iterates v = iterates w := by
  unfold iterates
  rw [h]
  cases w.get? (js "messages") with
  | none => rfl
  | some x =>
    cases x with
    | arr messages => simp only [Option.map_some, onItems, any_isNull_walkMessages]
    | _ => rfl

theorem startsWithNull_walkBlocks (laid : Bool) (blocks : List Json) :
    startsWithNull (walkBlocks laid blocks) = startsWithNull blocks := by
  have hnull : ∀ (b : Json) (rest : List Json), startsWithNull (b :: rest) = isNull b := by
    intro b rest
    cases b <;> rfl
  cases blocks with
  | nil => cases laid <;> rfl
  | cons b rest =>
    cases laid with
    | false =>
      rw [walkBlocks, if_neg Bool.false_ne_true, List.map_cons, hnull, isNull_stampBlockTtl, hnull]
    | true =>
      rw [walkBlocks, if_pos rfl, restampBlocks, List.map_cons, hnull, isNull_stampBlockTtl, hnull]
      cases b with
      | null => rfl
      | _ =>
        split
        · unfold withBreakpoint
          split <;> rfl
        · rfl

theorem systemThrows_of_walked {laid : Bool}
    (h : v.get? (js "system") = (w.get? (js "system")).map (onItems (walkBlocks laid))) :
    systemThrows v = systemThrows w := by
  unfold systemThrows Json.items?
  rw [h]
  cases w.get? (js "system") with
  | none => rfl
  | some x =>
    cases x with
    | arr blocks => simp only [Option.map_some, onItems, startsWithNull_walkBlocks]
    | _ => rfl

end Same

end UmansGate.Stamp
