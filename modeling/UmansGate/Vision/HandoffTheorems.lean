/-
UmansGate.Vision.HandoffTheorems — which images a handoff leaves in the body.

The replacer takes the first image blocks, as many as there are kept parts,
and drops no block (`slots_replaceImageBlocks`); an image behind them stays
in the rewritten body. A handoff is free of images exactly when every image
is among these first blocks (`handoff_imageless_iff`), which fails for more
images than `maxImages` (`overflow_image_stays`).
-/
import UmansGate.Vision.AlignmentTheorems
import UmansGate.Vision.Handoff

namespace UmansGate.Vision

open UmansGate.Lib

section

variable {kind : ApiKind} {level : Level} {i n : ℕ} {part : Json} {items rest content : List Json}
  {descriptions overflow : List JsString} {positions : Option (List Position)} {body : Json}

/-! ## Blocks that are no slots -/

theorem isSlot_textBlock (k kind : ApiKind) (text : JsString) :
    isSlot kind .blocks (textBlock k text) = false := by
  cases hslot : isSlot kind .blocks (textBlock k text) with
  | false => rfl
  | true =>
    have hjs := hasType_unique (textBlock_hasType k text) hslot
    cases kind with
    | openai => exact absurd hjs (by decide)
    | anthropic => exact absurd hjs (by decide)

theorem nested?_textBlock (k kind : ApiKind) (text : JsString) :
    nested? kind .blocks (textBlock k text) = none := by
  cases kind with
  | openai => rfl
  | anthropic =>
    have htool : toolContent? (textBlock k text) = none := by
      cases htool : toolContent? (textBlock k text) with
      | none => rfl
      | some items =>
        have hjs := hasType_unique (textBlock_hasType k text) (hasType_of_toolContent? htool)
        exact absurd hjs (by decide)
    exact htool

theorem hasType_set (part value : Json) (type : String) :
    hasType (part.set (js "content") value) type = hasType part type := by
  have hget : (part.set (js "content") value).get? (js "type") = part.get? (js "type") :=
    Json.get?_set_of_ne (by decide) value
  unfold hasType Json.str?
  rw [hget]

theorem isSlot_set (kind : ApiKind) (level : Level) (part value : Json) :
    isSlot kind level (part.set (js "content") value) = isSlot kind level part := by
  cases level with
  | messages => rfl
  | blocks => exact hasType_set part value kind.imageType

theorem items?_set (h : part.items? (js "content") = some items) (content : List Json) :
    (part.set (js "content") (.arr content)).items? (js "content") = some content :=
  Json.items?_eq_some.mpr (Json.get?_set (Json.items?_eq_some.mp h) (.arr content))

theorem nested?_set (h : nested? kind level part = some items) (content : List Json) :
    nested? kind level (part.set (js "content") (.arr content)) = some content := by
  have hset := items?_set (items?_of_nested? h) content
  cases level with
  | messages => rwa [nested?_messages]
  | blocks =>
    cases kind with
    | openai => exact absurd h (by simp [nested?])
    | anthropic =>
      have htool : hasType part "tool_result" = true := hasType_of_toolContent? h
      have htool' : toolContent? (part.set (js "content") (.arr content)) = some content := by
        unfold toolContent?
        rw [hasType_set, if_pos htool, hset]
      exact htool'

/-! ## The slots behind the replaced ones -/

/-- The walk over the blocks of a message takes the first slots and moves the
cursor past them. -/
theorem slotsIn_replaceInContentArray (kind : ApiKind) (descriptions : List JsString)
    (positions : Option (List Position)) (content : List Json) (level : Level) (i : ℕ) :
    level = .blocks → ∀ n ≤ descriptions.length,
      slotsIn kind level i (replaceInContentArray kind descriptions positions n content).1 =
          (slotsIn kind level i content).drop (descriptions.length - n) ∧
        (replaceInContentArray kind descriptions positions n content).2 =
          min descriptions.length (n + (slotsIn kind level i content).length) := by
  induction content, level, i using slotInduction kind with
  | nil level i =>
    intro _ n hle
    rw [replaceInContentArray, slotsIn_nil, List.drop_nil, List.length_nil, Nat.add_zero,
      Nat.min_eq_right hle]
    exact ⟨rfl, rfl⟩
  | slot level i part rest hslot ih =>
    rintro rfl n hle
    obtain ⟨hslots, hcursor⟩ := ih rfl (min descriptions.length (n + 1)) (Nat.min_le_left _ _)
    rw [replaceInContentArray_slot hslot hle, slotsIn_slot hslot]
    simp only []
    rcases Nat.lt_or_ge n descriptions.length with hlt | hge
    · have hone : descriptions.length - n = descriptions.length - (n + 1) + 1 := by omega
      rw [Nat.min_eq_right hlt] at hslots hcursor ⊢
      rw [caption_of_lt hlt, Option.getD_some,
        slotsIn_other (isSlot_textBlock _ _ _) (nested?_textBlock _ _ _), hslots, hone,
        List.drop_succ_cons, hcursor, List.length_cons]
      exact ⟨rfl, by omega⟩
    · have hzero : descriptions.length - n = 0 := by omega
      have hstop : descriptions.length - min descriptions.length (n + 1) = 0 := by omega
      rw [hstop, List.drop_zero] at hslots
      rw [caption_of_le hge, Option.getD_none, slotsIn_slot hslot, hslots, hzero, List.drop_zero,
        hcursor, List.length_cons]
      exact ⟨rfl, by omega⟩
  | nested level i part items rest hslot hn ihitems ih =>
    rintro rfl n hle
    obtain ⟨hinner, hpast⟩ := ihitems rfl n hle
    obtain ⟨hslots, hcursor⟩ := ih rfl
      (min descriptions.length (n + (slotsIn kind .blocks 0 items).length)) (Nat.min_le_left _ _)
    rw [replaceInContentArray_nested hslot hn, slotsIn_nested hslot hn]
    simp only [hpast]
    rw [slotsIn_nested ((isSlot_set _ _ _ _).trans hslot) (nested?_set hn _), hinner, hslots,
      hcursor, List.drop_append, List.length_append, List.length_map, List.map_drop]
    have hrest : descriptions.length -
        min descriptions.length (n + (slotsIn kind .blocks 0 items).length) =
        descriptions.length - n - (slotsIn kind .blocks 0 items).length := by omega
    rw [hrest]
    exact ⟨rfl, by omega⟩
  | other level i part rest hslot hn ih =>
    rintro rfl n hle
    obtain ⟨hslots, hcursor⟩ := ih rfl n hle
    rw [replaceInContentArray_other hslot hn, slotsIn_other hslot hn, slotsIn_other hslot hn]
    exact ⟨hslots, hcursor⟩

/-- The overflow text adds no slot. -/
theorem slotsIn_append_textBlock (content : List Json) (text : JsString) : ∀ i : ℕ,
    slotsIn kind .blocks i (content ++ [textBlock .openai text]) = slotsIn kind .blocks i content := by
  induction content with
  | nil =>
    intro i
    rw [List.nil_append, slotsIn_other (isSlot_textBlock _ _ _) (nested?_textBlock _ _ _),
      slotsIn_nil, slotsIn_nil]
  | cons part rest ih =>
    intro i
    rw [List.cons_append]
    cases hslot : isSlot kind .blocks part with
    | true => rw [slotsIn_slot hslot, slotsIn_slot hslot, ih]
    | false =>
      cases hn : nested? kind .blocks part with
      | none => rw [slotsIn_other hslot hn, slotsIn_other hslot hn, ih]
      | some items => rw [slotsIn_nested hslot hn, slotsIn_nested hslot hn, ih]

theorem slotsIn_replaceInMessages (messages : List Json) : ∀ i n overflowIdx : ℕ,
    n ≤ descriptions.length →
      slotsIn kind .messages i
          (replaceInMessages kind descriptions overflow positions n overflowIdx messages) =
        (slotsIn kind .messages i messages).drop (descriptions.length - n) := by
  induction messages with
  | nil =>
    intro i n overflowIdx _
    rw [replaceInMessages, slotsIn_nil, List.drop_nil]
  | cons msg rest ih =>
    intro i n overflowIdx hle
    rw [replaceInMessages, slotsIn_message kind i msg rest]
    cases hcontent : msg.items? (js "content") with
    | none =>
      simp only []
      rw [slotsIn_message, hcontent, Option.getD_none, slotsIn_nil, List.map_nil, List.nil_append,
        List.nil_append]
      exact ih (i + 1) n overflowIdx hle
    | some content =>
      obtain ⟨hslots, hcursor⟩ :=
        slotsIn_replaceInContentArray kind descriptions positions content .blocks 0 rfl n hle
      simp only [Option.getD_some]
      generalize replaceInContentArray kind descriptions positions n content = r at hslots hcursor ⊢
      have hcell : ∀ blocks overflowIdx, slotsIn kind .blocks 0 blocks = slotsIn kind .blocks 0 r.1 →
          slotsIn kind .messages i (msg.set (js "content") (.arr blocks) ::
              replaceInMessages kind descriptions overflow positions r.2 overflowIdx rest) =
            ((slotsIn kind .blocks 0 content).map (fun s => (i :: s.1, s.2)) ++
              slotsIn kind .messages (i + 1) rest).drop (descriptions.length - n) := by
        intro blocks overflowIdx hblocks
        have hrest := ih (i + 1) r.2 overflowIdx (by omega)
        have hpast : descriptions.length - r.2 =
            descriptions.length - n - (slotsIn kind .blocks 0 content).length := by omega
        rw [slotsIn_message, items?_set hcontent, Option.getD_some, hblocks, hslots, hrest,
          List.drop_append, List.length_map, List.map_drop, hpast]
      split
      · exact hcell _ _ (slotsIn_append_textBlock _ _ 0)
      · exact hcell _ _ rfl

/-- The replacement takes the first slots of a body, one for each
description. -/
theorem slots_replaceImageBlocks (body : Json) (kind : ApiKind) (descriptions overflow : List JsString)
    (positions : Option (List Position)) :
    slots kind (replaceImageBlocks body kind descriptions overflow positions) =
      (slots kind body).drop descriptions.length := by
  unfold replaceImageBlocks
  cases hmessages : body.items? (js "messages") with
  | none => simp [slots, hmessages]
  | some messages =>
    have hset : (body.set (js "messages") (.arr (replaceInMessages kind descriptions overflow
        positions 0 0 messages))).items? (js "messages") =
          some (replaceInMessages kind descriptions overflow positions 0 0 messages) :=
      Json.items?_eq_some.mpr (Json.get?_set (Json.items?_eq_some.mp hmessages) _)
    simp only []
    rw [slots, hset, slots, hmessages]
    exact slotsIn_replaceInMessages messages 0 0 0 (Nat.zero_le _)

/-! ## The clone -/

theorem cloneItems_eq (items : List Json) : cloneItems items = items.map cloneBody := by
  induction items with
  | nil => rfl
  | cons v rest ih => rw [cloneItems, ih, List.map_cons]

theorem cloneFields_eq (fields : List (JsString × Json)) :
    cloneFields fields = Dict.mapVals cloneBody fields := by
  induction fields with
  | nil => rfl
  | cons field rest ih =>
    rw [cloneFields, ih]
    rfl

theorem get?_cloneBody (v : Json) (key : JsString) :
    (cloneBody v).get? key = (v.get? key).map cloneBody := by
  cases v with
  | obj fields =>
    rw [cloneBody, cloneFields_eq]
    exact Dict.get?_mapVals cloneBody fields key
  | num n =>
    rw [cloneBody]
    split
    · rfl
    · rfl
  | _ =>
    rw [cloneBody]
    rfl

theorem cloneBody_num (n : Float) :
    (∃ m, cloneBody (.num n) = .num m) ∨ cloneBody (.num n) = .null := by
  rw [cloneBody]
  split
  · exact .inl ⟨_, rfl⟩
  · exact .inr rfl

theorem str?_cloneBody (v : Json) (key : JsString) : (cloneBody v).str? key = v.str? key := by
  unfold Json.str?
  rw [get?_cloneBody]
  cases v.get? key with
  | none => rfl
  | some x =>
    cases x with
    | num n =>
      rcases cloneBody_num n with ⟨m, heq⟩ | heq
      · rw [Option.map_some, heq]
      · rw [Option.map_some, heq]
    | _ => rfl

theorem items?_cloneBody (v : Json) (key : JsString) :
    (cloneBody v).items? key = (v.items? key).map (List.map cloneBody) := by
  unfold Json.items?
  rw [get?_cloneBody]
  cases v.get? key with
  | none => rfl
  | some x =>
    cases x with
    | num n =>
      rcases cloneBody_num n with ⟨m, heq⟩ | heq
      · rw [Option.map_some, heq]
        rfl
      · rw [Option.map_some, heq]
        rfl
    | arr items =>
      rw [Option.map_some, cloneBody, cloneItems_eq]
      rfl
    | _ => rfl

theorem hasType_cloneBody (part : Json) (type : String) :
    hasType (cloneBody part) type = hasType part type := by
  unfold hasType
  rw [str?_cloneBody]

theorem isSlot_cloneBody (kind : ApiKind) (level : Level) (part : Json) :
    isSlot kind level (cloneBody part) = isSlot kind level part := by
  cases level with
  | messages => rfl
  | blocks => exact hasType_cloneBody part kind.imageType

theorem nested?_cloneBody (kind : ApiKind) (level : Level) (part : Json) :
    nested? kind level (cloneBody part) = (nested? kind level part).map (List.map cloneBody) := by
  cases level with
  | messages =>
    rw [nested?_messages, nested?_messages]
    exact items?_cloneBody part (js "content")
  | blocks =>
    cases kind with
    | openai => rfl
    | anthropic =>
      show toolContent? (cloneBody part) = (toolContent? part).map (List.map cloneBody)
      unfold toolContent?
      rw [hasType_cloneBody]
      split
      · exact items?_cloneBody part (js "content")
      · rfl

theorem slotsIn_cloneBody (kind : ApiKind) (content : List Json) (level : Level) (i : ℕ) :
    slotsIn kind level i (content.map cloneBody) =
      (slotsIn kind level i content).map fun s => (s.1, cloneBody s.2) := by
  induction content, level, i using slotInduction kind with
  | nil level i => simp
  | slot level i part rest hslot ih =>
    rw [List.map_cons, slotsIn_slot hslot, slotsIn_slot ((isSlot_cloneBody _ _ _).trans hslot), ih]
    rfl
  | nested level i part items rest hslot hn ihitems ih =>
    have hn' : nested? kind level (cloneBody part) = some (items.map cloneBody) := by
      rw [nested?_cloneBody, hn]
      rfl
    rw [List.map_cons, slotsIn_nested hslot hn,
      slotsIn_nested ((isSlot_cloneBody _ _ _).trans hslot) hn', ihitems, ih, List.map_append,
      List.map_map, List.map_map]
    rfl
  | other level i part rest hslot hn ih =>
    have hn' : nested? kind level (cloneBody part) = none := by
      rw [nested?_cloneBody, hn]
      rfl
    rw [List.map_cons, slotsIn_other hslot hn,
      slotsIn_other ((isSlot_cloneBody _ _ _).trans hslot) hn', ih]

theorem slots_cloneBody (kind : ApiKind) (body : Json) :
    slots kind (cloneBody body) = (slots kind body).map fun s => (s.1, cloneBody s.2) := by
  unfold slots
  rw [items?_cloneBody]
  cases body.items? (js "messages") with
  | none => simp
  | some messages => exact slotsIn_cloneBody kind messages .messages 0

theorem hasImage_cloneBody (kind : ApiKind) (block : Json) :
    hasImage kind (cloneBody block) = hasImage kind block := by
  unfold hasImage
  cases kind with
  | openai =>
    simp only []
    rw [get?_cloneBody]
    cases block.get? (js "image_url") with
    | none => rfl
    | some imageUrl => simp [str?_cloneBody]
  | anthropic =>
    simp only []
    rw [get?_cloneBody]
    cases block.get? (js "source") with
    | none => rfl
    | some src => simp [hasType_cloneBody]

/-! ## Handoffs -/

/-- How many parts the policy keeps. -/
def keptCount (config : VisionConfig) (kind : ApiKind) (body : Json) : ℕ :=
  sliceIndex config.maxImages (partSlots kind body).length

/-- Every image stands among the first blocks of the image type, as many as
there are kept parts. -/
def KeptFirst (config : VisionConfig) (kind : ApiKind) (body : Json) : Prop :=
  ∀ s ∈ (slots kind body).drop (keptCount config kind body), hasImage kind s.2 = false

instance (config : VisionConfig) (kind : ApiKind) (body : Json) :
    Decidable (KeptFirst config kind body) :=
  inferInstanceAs (Decidable (∀ _ ∈ _, _))

theorem sliceIndex_le (n : ℤ) (length : ℕ) : sliceIndex n length ≤ length := by
  unfold sliceIndex
  split
  · omega
  · exact Nat.min_le_right _ _

theorem length_findImageParts (kind : ApiKind) (body : Json) :
    (findImageParts kind body).length = (partSlots kind body).length :=
  (finds_partSlots kind body).length_eq.symm

/-- A body whose images are replaced by as many descriptions as there are
kept parts. -/
theorem replaced_imageless_iff {config : VisionConfig}
    (hlength : descriptions.length = keptCount config kind body) :
    findImageParts kind (replaceImageBlocks (cloneBody body) kind descriptions overflow positions) =
      [] ↔ KeptFirst config kind body := by
  rw [findImageParts_eq_nil, partSlots, slots_replaceImageBlocks, slots_cloneBody, hlength,
    List.filter_eq_nil_iff, KeptFirst, ← List.map_drop]
  constructor
  · intro h s hs
    have hnot := h _ (List.mem_map_of_mem hs)
    rw [hasImage_cloneBody] at hnot
    exact Bool.eq_false_iff.mpr hnot
  · intro h t ht
    obtain ⟨s, hs, rfl⟩ := List.mem_map.mp ht
    rw [hasImage_cloneBody, h s hs]
    exact Bool.false_ne_true

variable {config : VisionConfig} {catalog : Option (JsString → Option VisionTristate)}
  {processImage : ℕ → ImagePart → Option ImageProcessResult}
  {cached : ImagePart → Option JsString} {modelName : Option JsString}

/-- Behind the early exits the parts are those of the finder. -/
theorem handoffParts_eq (h : handoffParts config catalog body kind modelName ≠ []) :
    handoffParts config catalog body kind modelName = findImageParts kind body := by
  unfold handoffParts at h ⊢
  split
  · rfl
  · rename_i hexit
    rw [if_neg hexit] at h
    exact absurd rfl h

theorem length_kept (kind : ApiKind) (body : Json) :
    (applyMaxImagesPolicy (findImageParts kind body) config.maxImages).1.length =
      keptCount config kind body := by
  unfold applyMaxImagesPolicy keptCount
  rw [List.length_take, length_findImageParts]
  exact Nat.min_eq_left (sliceIndex_le _ _)

/-- A handoff behind its early exits replaces as many blocks as there are
kept parts. -/
theorem processBody_replaced (processImage : ℕ → ImagePart → Option ImageProcessResult)
    (h : handoffParts config catalog body kind modelName ≠ []) :
    (processBody config catalog processImage body kind modelName).changed = true ∧
      ∃ descriptions overflow positions, descriptions.length = keptCount config kind body ∧
        (processBody config catalog processImage body kind modelName).body =
          replaceImageBlocks (cloneBody body) kind descriptions overflow positions := by
  unfold processBody
  rw [if_neg h]
  refine ⟨rfl, _, _, _, ?_, rfl⟩
  rw [List.length_map, processImages, List.length_mapIdx, handoffParts_eq h]
  exact length_kept kind body

theorem length_cachedDescriptions (cached : ImagePart → Option JsString) (kept : List ImagePart) :
    ∀ descriptions, cachedDescriptions cached kept = some descriptions →
      descriptions.length = kept.length := by
  induction kept with
  | nil =>
    intro descriptions h
    cases h
    rfl
  | cons part rest ih =>
    intro descriptions h
    rw [cachedDescriptions] at h
    split at h
    · exact absurd h (by simp)
    · split at h
      · rename_i texts hrest
        cases h
        rw [List.length_cons, ih _ hrest, List.length_cons]
      · exact absurd h (by simp)

theorem processBodyCacheOnly_replaced (cached : ImagePart → Option JsString)
    (processImage : ℕ → ImagePart → Option ImageProcessResult)
    (h : handoffParts config catalog body kind modelName ≠ []) :
    (processBodyCacheOnly config catalog cached processImage body kind modelName).changed = true ∧
      ∃ descriptions overflow positions, descriptions.length = keptCount config kind body ∧
        (processBodyCacheOnly config catalog cached processImage body kind modelName).body =
          replaceImageBlocks (cloneBody body) kind descriptions overflow positions := by
  unfold processBodyCacheOnly
  simp only [if_neg h]
  cases hcached : cachedDescriptions cached (applyMaxImagesPolicy
      (handoffParts config catalog body kind modelName) config.maxImages).1 with
  | none =>
    simp only []
    exact processBody_replaced processImage h
  | some descriptions =>
    have hlength := length_cachedDescriptions cached _ descriptions hcached
    rw [handoffParts_eq h, length_kept] at hlength
    simp only [true_and]
    exact ⟨_, _, _, hlength, rfl⟩

theorem processBody_unchanged (h : handoffParts config catalog body kind modelName = []) :
    (processBody config catalog processImage body kind modelName).changed = false := by
  unfold processBody
  rw [if_pos h]

theorem processBodyCacheOnly_unchanged (h : handoffParts config catalog body kind modelName = []) :
    (processBodyCacheOnly config catalog cached processImage body kind modelName).changed =
      false := by
  unfold processBodyCacheOnly
  simp only [if_pos h]

/-- A handoff that reports a change has left no image exactly when every
image stood among the first blocks of the image type, as many as there are
kept parts. -/
theorem handoff_imageless_iff (config : VisionConfig)
    (catalog : Option (JsString → Option VisionTristate)) (cached : ImagePart → Option JsString)
    (processImage : ℕ → ImagePart → Option ImageProcessResult) (body : Json) (kind : ApiKind)
    (modelName : Option JsString) :
    ((processBody config catalog processImage body kind modelName).changed = true →
      (findImageParts kind (processBody config catalog processImage body kind modelName).body = [] ↔
        KeptFirst config kind body)) ∧
    ((processBodyCacheOnly config catalog cached processImage body kind modelName).changed = true →
      (findImageParts kind
          (processBodyCacheOnly config catalog cached processImage body kind modelName).body = [] ↔
        KeptFirst config kind body)) := by
  by_cases hparts : handoffParts config catalog body kind modelName = []
  · rw [processBody_unchanged hparts, processBodyCacheOnly_unchanged hparts]
    exact ⟨fun h => absurd h (by simp), fun h => absurd h (by simp)⟩
  · obtain ⟨-, _, _, _, hlength, hbody⟩ := processBody_replaced processImage hparts
    obtain ⟨-, _, _, _, hlength', hbody'⟩ :=
      processBodyCacheOnly_replaced cached processImage hparts
    rw [hbody, hbody']
    exact ⟨fun _ => replaced_imageless_iff hlength, fun _ => replaced_imageless_iff hlength'⟩

end

/-- Two images where one is kept. -/
def twoImages : Json :=
  oneMessage [
    .obj [(js "type", .str (js "image_url")), (js "image_url", .obj [(js "url", .str (js "u"))])],
    .obj [(js "type", .str (js "image_url")), (js "image_url", .obj [(js "url", .str (js "v"))])]]

def oneKept : VisionConfig := ⟨.always, 1, false⟩

/-- The image beyond the limit is in the rewritten body. -/
theorem overflow_image_stays :
    (processBody oneKept none (fun _ _ => none) twoImages .openai none).changed = true ∧
      findImageParts .openai
        (processBody oneKept none (fun _ _ => none) twoImages .openai none).body ≠ [] := by
  have hparts : handoffParts oneKept none twoImages .openai none ≠ [] := by decide +kernel
  obtain ⟨hchanged, _, _, _, hlength, hbody⟩ := processBody_replaced (fun _ _ => none) hparts
  refine ⟨hchanged, fun hnone => ?_⟩
  rw [hbody] at hnone
  exact absurd ((replaced_imageless_iff hlength).mp hnone) (by decide +kernel)

end UmansGate.Vision
