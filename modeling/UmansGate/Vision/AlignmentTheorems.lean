/-
UmansGate.Vision.AlignmentTheorems — which description lands on which image.

The replacer numbers all slots (`replaceImageBlocks_eq`), the finder only
those that carry an image. The k-th description therefore lands on the k-th
part when none of the first slots, as many as there are descriptions, lacks
an image (`images_aligned_iff`), and one slot without an image shifts the
descriptions after it (`sourceless_image_shifts`).
-/
import UmansGate.Vision.FinderTheorems
import UmansGate.Vision.Wrapper

namespace UmansGate.Vision

open UmansGate.Lib

def partPaths (kind : ApiKind) (body : Json) : List (List ℕ) :=
  (partSlots kind body).map Prod.fst

/-- `f` puts the k-th description on the k-th path and nothing elsewhere. -/
structure Captions (kind : ApiKind) (descriptions : List JsString)
    (positions : Option (List Position)) (paths : List (List ℕ)) (f : List ℕ → Option Json) :
    Prop where
  caption : ∀ k q, paths[k]? = some q → k < descriptions.length →
    f q = some (textBlock kind (wrapWithPosition descriptions k positions))
  others : ∀ q, q ∉ paths → f q = none

/-- The replacement captions the parts and leaves the rest of the body. -/
def Aligned (kind : ApiKind) (body : Json) (descriptions : List JsString)
    (positions : Option (List Position)) : Prop :=
  ∃ f, Captions kind descriptions positions (partPaths kind body) f ∧
    replaceImageBlocks body kind descriptions [] positions = substitute kind f body

/-! ## The replacer -/

section

variable {kind : ApiKind} {descriptions : List JsString} {positions : Option (List Position)}
  {part : Json} {items rest content : List Json} {f : List ℕ → Option Json} {descIdx i k : ℕ}

/-- What the replacer puts on the slot with number `k`. -/
def caption (kind : ApiKind) (descriptions : List JsString) (positions : Option (List Position))
    (k : ℕ) : Option Json :=
  if k < descriptions.length then
    some (textBlock kind (wrapWithPosition descriptions k positions))
  else none

theorem caption_of_lt (h : k < descriptions.length) :
    caption kind descriptions positions k =
      some (textBlock kind (wrapWithPosition descriptions k positions)) :=
  if_pos h

theorem caption_of_le (h : descriptions.length ≤ k) :
    caption kind descriptions positions k = none :=
  if_neg (by omega)

/-- `f` numbers the slots from `n` on. -/
def Numbers (kind : ApiKind) (descriptions : List JsString) (positions : Option (List Position))
    (n : ℕ) (ss : List (List ℕ × Json)) (f : List ℕ → Option Json) : Prop :=
  ∀ k s, ss[k]? = some s → f s.1 = caption kind descriptions positions (n + k)

variable {n : ℕ} {ss ts : List (List ℕ × Json)}

theorem Numbers.left (h : Numbers kind descriptions positions n (ss ++ ts) f) :
    Numbers kind descriptions positions n ss f := by
  intro k s hs
  obtain ⟨hk, _⟩ := List.getElem?_eq_some_iff.mp hs
  exact h k s (by rw [List.getElem?_append_left hk, hs])

/-- The cursor stops at the number of descriptions; past it no slot changes. -/
theorem Numbers.right (h : Numbers kind descriptions positions n (ss ++ ts) f) :
    Numbers kind descriptions positions (min descriptions.length (n + ss.length)) ts f := by
  intro k s hs
  have hk : (ss ++ ts)[ss.length + k]? = some s := by
    rw [List.getElem?_append_right (by omega), Nat.add_sub_cancel_left, hs]
  rw [h _ _ hk]
  by_cases hlt : n + ss.length ≤ descriptions.length
  · rw [Nat.min_eq_right hlt, Nat.add_assoc]
  · rw [caption_of_le (by omega), caption_of_le (by omega)]

theorem Numbers.under (h : Numbers kind descriptions positions n
    (ss.map fun s => (i :: s.1, s.2)) f) :
    Numbers kind descriptions positions n ss fun q => f (i :: q) := by
  intro k s hs
  exact h k (i :: s.1, s.2) (by rw [List.getElem?_map, hs]; rfl)

theorem isSlot_iff (kind : ApiKind) (part : Json) :
    (kind = .openai ∧ hasType part "image_url" = true ∨
      kind = .anthropic ∧ hasType part "image" = true) ↔ isSlot kind .blocks part = true := by
  cases kind with
  | openai => simp [isSlot, ApiKind.imageType]
  | anthropic => simp [isSlot, ApiKind.imageType]

theorem filter_toolContent?_eq (kind : ApiKind) (part : Json) :
    ((toolContent? part).filter fun _ => kind = .anthropic) = nested? kind .blocks part := by
  cases kind with
  | openai => simp [nested?]
  | anthropic =>
    show (toolContent? part).filter _ = toolContent? part
    cases toolContent? part with
    | none => rfl
    | some items => rfl

theorem replaceInContentArray_slot (h : isSlot kind .blocks part = true)
    (hle : descIdx ≤ descriptions.length) :
    replaceInContentArray kind descriptions positions descIdx (part :: rest) =
      let tail := replaceInContentArray kind descriptions positions
        (min descriptions.length (descIdx + 1)) rest
      ((caption kind descriptions positions descIdx).getD part :: tail.1, tail.2) := by
  rw [replaceInContentArray, if_pos ((isSlot_iff kind part).mpr h)]
  by_cases hlt : descIdx < descriptions.length
  · rw [if_pos hlt, caption_of_lt hlt, Nat.min_eq_right hlt]
    rfl
  · rw [if_neg hlt, caption_of_le (by omega), Nat.min_eq_left (by omega),
      show descIdx = descriptions.length by omega]
    rfl

theorem replaceInContentArray_nested (h : isSlot kind .blocks part = false)
    (hn : nested? kind .blocks part = some items) :
    replaceInContentArray kind descriptions positions descIdx (part :: rest) =
      let inner := replaceInContentArray kind descriptions positions descIdx items
      let tail := replaceInContentArray kind descriptions positions inner.2 rest
      (part.set (js "content") (.arr inner.1) :: tail.1, tail.2) := by
  rw [replaceInContentArray, if_neg (by rw [isSlot_iff, h]; exact Bool.false_ne_true)]
  simp only []
  split
  · rename_i content heq
    rw [filter_toolContent?_eq, hn] at heq
    cases heq
    rfl
  · rename_i heq
    rw [filter_toolContent?_eq, hn] at heq
    exact absurd heq (by simp)

theorem replaceInContentArray_other (h : isSlot kind .blocks part = false)
    (hn : nested? kind .blocks part = none) :
    replaceInContentArray kind descriptions positions descIdx (part :: rest) =
      let tail := replaceInContentArray kind descriptions positions descIdx rest
      (part :: tail.1, tail.2) := by
  rw [replaceInContentArray, if_neg (by rw [isSlot_iff, h]; exact Bool.false_ne_true)]
  simp only []
  split
  · rename_i content heq
    rw [filter_toolContent?_eq, hn] at heq
    exact absurd heq (by simp)
  · rfl

/-- The walk over the blocks of a message: it substitutes the captions in
document order and moves the cursor past the slots. -/
theorem replaceInContentArray_eq (content : List Json) (level : Level) (i : ℕ) :
    level = .blocks → ∀ (n : ℕ) (f : List ℕ → Option Json), n ≤ descriptions.length →
      Numbers kind descriptions positions n (slotsIn kind level i content) f →
      replaceInContentArray kind descriptions positions n content =
        (substituteIn kind level f i content,
          min descriptions.length (n + (slotsIn kind level i content).length)) := by
  induction content, level, i using slotInduction kind with
  | nil level i =>
    intro _ n f hle _
    rw [replaceInContentArray, substituteIn_nil, slotsIn_nil, List.length_nil, Nat.add_zero,
      Nat.min_eq_right hle]
  | slot level i part rest hslot ih =>
    rintro rfl n f hle h
    rw [slotsIn_slot hslot] at h
    have hhead : f [i] = caption kind descriptions positions n := h 0 _ rfl
    have hone : Numbers kind descriptions positions n
        ([([i], part)] ++ slotsIn kind .blocks (i + 1) rest) f := h
    have htail := ih rfl _ f (Nat.min_le_left _ _) hone.right
    rw [replaceInContentArray_slot hslot hle, substituteIn_slot hslot, slotsIn_slot hslot, hhead]
    rw [List.length_singleton] at htail
    rw [htail, List.length_cons]
    simp only [Prod.mk.injEq, true_and]
    omega
  | nested level i part items rest hslot hn ihitems ih =>
    rintro rfl n f hle h
    rw [slotsIn_nested hslot hn] at h
    have hinner := ihitems rfl n _ hle h.left.under
    have htail := ih rfl _ f (Nat.min_le_left _ _) h.right
    rw [List.length_map] at htail
    rw [replaceInContentArray_nested hslot hn, substituteIn_nested hslot hn,
      slotsIn_nested hslot hn, hinner]
    simp only []
    rw [htail, List.length_append, List.length_map]
    simp only [Prod.mk.injEq, true_and]
    omega
  | other level i part rest hslot hn ih =>
    rintro rfl n f hle h
    rw [slotsIn_other hslot hn] at h
    rw [replaceInContentArray_other hslot hn, substituteIn_other hslot hn, slotsIn_other hslot hn,
      ih rfl n f hle h]

theorem replaceInMessages_eq (messages : List Json) : ∀ (i n overflowIdx : ℕ)
    (f : List ℕ → Option Json), n ≤ descriptions.length →
      Numbers kind descriptions positions n (slotsIn kind .messages i messages) f →
      replaceInMessages kind descriptions [] positions n overflowIdx messages =
        substituteIn kind .messages f i messages := by
  induction messages with
  | nil =>
    intro i n overflowIdx f hle h
    rw [replaceInMessages, substituteIn_nil]
  | cons msg rest ih =>
    intro i n overflowIdx f hle h
    rw [slotsIn_message] at h
    have hslot : isSlot kind .messages msg = false := rfl
    have hn := nested?_messages kind msg
    rw [replaceInMessages]
    cases hcontent : msg.items? (js "content") with
    | none =>
      rw [hcontent] at h
      rw [substituteIn_other hslot (hn.trans hcontent)]
      simp only [Option.getD_none, slotsIn_nil, List.map_nil, List.nil_append] at h
      exact congrArg (msg :: ·) (ih (i + 1) n overflowIdx f hle h)
    | some content =>
      rw [hcontent, Option.getD_some] at h
      have hblocks := replaceInContentArray_eq content .blocks 0 rfl n _ hle h.left.under
      have hright := h.right
      rw [List.length_map] at hright
      rw [substituteIn_nested hslot (hn.trans hcontent)]
      simp only [hblocks]
      rw [if_neg (fun hover => hover.1 rfl)]
      exact congrArg _ (ih (i + 1) _ overflowIdx f (Nat.min_le_left _ _) hright)

/-- The caption of the slot at a path: the slots are numbered in document order. -/
def slotCaption (kind : ApiKind) (body : Json) (descriptions : List JsString)
    (positions : Option (List Position)) (q : List ℕ) : Option Json :=
  if q ∈ (slots kind body).map Prod.fst then
    caption kind descriptions positions (((slots kind body).map Prod.fst).idxOf q)
  else none

theorem slotCaption_of_getElem? {body : Json} {s : List ℕ × Json}
    (h : (slots kind body)[k]? = some s) :
    slotCaption kind body descriptions positions s.1 =
      caption kind descriptions positions k := by
  obtain ⟨hk, rfl⟩ := List.getElem?_eq_some_iff.mp h
  have hidx := (slots_nodup kind body).idxOf_getElem k (by simpa using hk)
  rw [List.getElem_map] at hidx
  rw [slotCaption, hidx, if_pos (List.mem_map_of_mem (List.getElem_mem hk))]

/-- The replacer captions all slots in document order. -/
theorem replaceImageBlocks_eq (kind : ApiKind) (body : Json) (descriptions : List JsString)
    (positions : Option (List Position)) :
    replaceImageBlocks body kind descriptions [] positions =
      substitute kind (slotCaption kind body descriptions positions) body := by
  have hnum : Numbers kind descriptions positions 0 (slots kind body)
      (slotCaption kind body descriptions positions) := by
    intro k s hs
    rw [slotCaption_of_getElem? hs, Nat.zero_add]
  unfold replaceImageBlocks substitute
  cases hmessages : body.items? (js "messages") with
  | none => rfl
  | some messages =>
    rw [slots, hmessages, Option.getD_some] at hnum
    simp only [replaceInMessages_eq messages 0 0 0 _ (Nat.zero_le _) hnum]

end

/-! ## Alignment -/

section

variable {kind : ApiKind} {body : Json} {descriptions : List JsString}
  {positions : Option (List Position)} {s : List ℕ × Json} {k : ℕ}

theorem textBlock_hasType (kind : ApiKind) (text : JsString) :
    hasType (textBlock kind text) "text" = true := by
  cases kind with
  | openai => rfl
  | anthropic => rfl

/-- A replaced slot is not the block that was there. -/
theorem textBlock_ne_slot (hs : s ∈ slots kind body) (text : JsString) :
    textBlock kind text ≠ s.2 := by
  intro heq
  have htext := textBlock_hasType kind text
  rw [heq] at htext
  have himage := slotsIn_hasType kind _ _ _ s hs
  have hjs := hasType_unique htext himage
  cases kind with
  | openai => exact absurd hjs (by decide)
  | anthropic => exact absurd hjs (by decide)

theorem hasImage_of_mem_partPaths (hs : s ∈ slots kind body) (hq : s.1 ∈ partPaths kind body) :
    hasImage kind s.2 = true := by
  obtain ⟨t, ht, heq⟩ := List.mem_map.mp hq
  obtain ⟨htslot, himage⟩ := List.mem_filter.mp ht
  rwa [List.inj_on_of_nodup_map (slots_nodup kind body) htslot hs heq] at himage

/-- While the first slots all carry an image, parts and slots have the same numbers. -/
theorem getElem?_slots_of_partPaths {q : List ℕ}
    (h : ∀ s ∈ (slots kind body).take descriptions.length, hasImage kind s.2 = true)
    (hk : k < descriptions.length) (hq : (partPaths kind body)[k]? = some q) :
    ∃ s, (slots kind body)[k]? = some s ∧ s.1 = q := by
  have hsplit : partSlots kind body = (slots kind body).take descriptions.length ++
      ((slots kind body).drop descriptions.length).filter fun s => hasImage kind s.2 := by
    rw [partSlots]
    conv_lhs => rw [← List.take_append_drop descriptions.length (slots kind body)]
    rw [List.filter_append, List.filter_eq_self.mpr h]
  rw [partPaths, List.getElem?_map] at hq
  obtain ⟨s, hs, rfl⟩ := Option.map_eq_some_iff.mp hq
  have hlen : k < (slots kind body).length := by
    obtain ⟨hk', _⟩ := List.getElem?_eq_some_iff.mp hs
    exact Nat.lt_of_lt_of_le hk' (List.length_filter_le _ _)
  rw [hsplit, List.getElem?_append_left (by rw [List.length_take]; omega),
    List.getElem?_take_of_lt hk] at hs
  exact ⟨s, hs, rfl⟩

theorem aligned_of_hasImage
    (h : ∀ s ∈ (slots kind body).take descriptions.length, hasImage kind s.2 = true) :
    Aligned kind body descriptions positions := by
  refine ⟨slotCaption kind body descriptions positions, ⟨?_, ?_⟩,
    replaceImageBlocks_eq kind body descriptions positions⟩
  · intro k q hq hk
    obtain ⟨s, hs, rfl⟩ := getElem?_slots_of_partPaths h hk hq
    rw [slotCaption_of_getElem? hs, caption_of_lt hk]
  · intro q hq
    by_cases hmem : q ∈ (slots kind body).map Prod.fst
    · obtain ⟨s, hs, rfl⟩ := List.mem_map.mp hmem
      obtain ⟨k, hk⟩ := List.getElem?_of_mem hs
      rw [slotCaption_of_getElem? hk]
      -- an early slot carries an image, so its path would be one of the parts'
      refine caption_of_le (Nat.le_of_not_lt fun hlt => hq ?_)
      have htake : s ∈ (slots kind body).take descriptions.length :=
        List.mem_of_getElem? (i := k) (by rw [List.getElem?_take_of_lt hlt, hk])
      exact List.mem_map_of_mem (List.mem_filter.mpr ⟨hs, h s htake⟩)
    · exact if_neg hmem

theorem hasImage_of_aligned (h : Aligned kind body descriptions positions)
    (hs : s ∈ (slots kind body).take descriptions.length) : hasImage kind s.2 = true := by
  obtain ⟨f, hf, heq⟩ := h
  obtain ⟨k, hk⟩ := List.getElem?_of_mem hs
  have hlt : k < descriptions.length := by
    obtain ⟨hk', _⟩ := List.getElem?_eq_some_iff.mp hk
    rw [List.length_take] at hk'
    omega
  have hslot : (slots kind body)[k]? = some s := by
    rw [← hk, List.getElem?_take_of_lt hlt]
  have hmem : s ∈ slots kind body := List.mem_of_getElem? hslot
  by_contra hno
  -- the finder skips the slot, so the block should stay; the replacer captions it
  have hnone : f s.1 = none :=
    hf.others s.1 fun hq => hno (hasImage_of_mem_partPaths hmem hq)
  rw [replaceImageBlocks_eq] at heq
  have hblock := substitute_inj heq s hmem
  rw [slotCaption_of_getElem? hslot, caption_of_lt hlt, hnone] at hblock
  exact textBlock_ne_slot hmem _ hblock

/-- The parts are the slots that carry an image, in order. The replacement
puts the k-th description on the k-th part and leaves the other blocks
exactly when each of the first slots, as many as there are descriptions,
carries an image. -/
theorem images_aligned_iff (kind : ApiKind) (body : Json) (descriptions : List JsString)
    (positions : Option (List Position)) :
    List.Forall₂ (fun s part => imageData? kind s.2 = some part.source)
        (partSlots kind body) (findImageParts kind body) ∧
      (Aligned kind body descriptions positions ↔
        ∀ s ∈ (slots kind body).take descriptions.length, hasImage kind s.2 = true) := by
  refine ⟨finds_partSlots kind body, fun h s hs => ?_, fun h => ?_⟩
  · exact hasImage_of_aligned h hs
  · exact aligned_of_hasImage h

/-- A body with one message. -/
def oneMessage (content : List Json) : Json :=
  .obj [(js "messages", .arr [.obj [(js "role", .str (js "user")), (js "content", .arr content)]])]

/-- An image block without a source before one with a source. -/
def sourcelessBody : Json :=
  oneMessage [.obj [(js "type", .str (js "image"))],
    .obj [(js "type", .str (js "image")),
      (js "source", .obj [(js "type", .str (js "url")), (js "url", .str (js "u"))])]]

/-- An image part with an empty url before one with a url. -/
def urllessBody : Json :=
  oneMessage [
    .obj [(js "type", .str (js "image_url")), (js "image_url", .obj [(js "url", .str [])])],
    .obj [(js "type", .str (js "image_url")), (js "image_url", .obj [(js "url", .str (js "u"))])]]

/-- The one description lands on the block the finder skipped. -/
theorem sourceless_image_shifts :
    ¬ Aligned .anthropic sourcelessBody [js "a cat"] none ∧
      ¬ Aligned .openai urllessBody [js "a cat"] none := by
  constructor
  · intro h
    have hall : ∀ s ∈ (slots .anthropic sourcelessBody).take 1, hasImage .anthropic s.2 = true :=
      fun s hs => hasImage_of_aligned h hs
    exact absurd hall (by decide +kernel)
  · intro h
    have hall : ∀ s ∈ (slots .openai urllessBody).take 1, hasImage .openai s.2 = true :=
      fun s hs => hasImage_of_aligned h hs
    exact absurd hall (by decide +kernel)

end

end UmansGate.Vision
