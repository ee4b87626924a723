/-
UmansGate.Vision.FinderTheorems — the parts that the finder returns.

The finder walks all slots and returns those that carry an image, in
document order (`finds_partSlots`): for an Anthropic block a source of a
known type, for an OpenAI block a non-empty url.
-/
import UmansGate.Vision.Slots

namespace UmansGate.Vision

open UmansGate.Lib

/-! ## The parts of a body -/

/-- What the finder reads off a block of the image type. -/
def imageData? (kind : ApiKind) (block : Json) : Option ImageSource :=
  match kind with
  | .openai => openAISource block
  | .anthropic => (block.get? (js "source")).bind anthropicSource

/-- The block has a non-empty url, or a source of a known type. -/
def hasImage (kind : ApiKind) (block : Json) : Bool :=
  match kind with
  | .openai =>
    (block.get? (js "image_url")).any fun imageUrl => (imageUrl.str? (js "url")).any (· ≠ [])
  | .anthropic =>
    (block.get? (js "source")).any fun src => hasType src "base64" || hasType src "url"

/-- The block moves the position forward, with an image or without one. -/
def advances (kind : ApiKind) (block : Json) : Bool :=
  match kind with
  | .openai => hasImage .openai block
  | .anthropic => (block.get? (js "source")).any Json.isObject

/-- The slots that carry an image. -/
def partSlots (kind : ApiKind) (body : Json) : List (List ℕ × Json) :=
  (slots kind body).filter fun s => hasImage kind s.2

/-! ## The finder -/

section

variable {kind : ApiKind} {p : Json} {rest items : List Json} {m : ImageMeta} {pos i : ℕ}

theorem hasType_unique {a b : String} (ha : hasType p a = true) (hb : hasType p b = true) :
    js a = js b := by
  unfold hasType at ha hb
  rw [decide_eq_true_eq] at ha hb
  exact Option.some.inj (ha.symm.trans hb)

theorem hasType_of_toolContent? (h : toolContent? p = some items) :
    hasType p "tool_result" = true := by
  unfold toolContent? at h
  split at h
  · assumption
  · exact absurd h (by simp)

theorem toolContent?_of_image (h : hasType p "image" = true) : toolContent? p = none := by
  cases htool : toolContent? p with
  | none => rfl
  | some items =>
    exact absurd (hasType_unique h (hasType_of_toolContent? htool)) (by decide)

theorem isObject_of_hasType {a : String} (h : hasType p a = true) : p.isObject = true := by
  unfold hasType Json.str? at h
  cases hget : p.get? (js "type") with
  | none =>
    rw [hget] at h
    exact absurd h (by simp)
  | some w => exact Json.isObject_of_get? hget

theorem anthropicSource_isSome (src : Json) :
    (anthropicSource src).isSome = (hasType src "base64" || hasType src "url") := by
  unfold anthropicSource
  cases hasType src "base64" with
  | true => rfl
  | false =>
    cases hasType src "url" with
    | true => rfl
    | false => rfl

theorem anthropicSource_of_not_isObject {src : Json} (h : src.isObject = false) :
    anthropicSource src = none := by
  cases hsrc : anthropicSource src with
  | none => rfl
  | some image =>
    have hsome := anthropicSource_isSome src
    rw [hsrc, Option.isSome_some, eq_comm, Bool.or_eq_true] at hsome
    rcases hsome with hb | hu
    · exact absurd (isObject_of_hasType hb) (by simp [h])
    · exact absurd (isObject_of_hasType hu) (by simp [h])

theorem openAISource_isSome (part : Json) :
    (openAISource part).isSome = hasImage .openai part := by
  unfold openAISource hasImage
  cases part.get? (js "image_url") with
  | none => rfl
  | some imageUrl =>
    cases hurl : imageUrl.str? (js "url") with
    | none => simp [hurl]
    | some url =>
      by_cases hempty : url = []
      · simp [hurl, hempty]
      · simp only [Option.bind_some, hurl, Option.getD_some, Option.any_some, ne_eq, hempty,
          not_false_eq_true, decide_true]
        rw [if_neg not_false]
        cases matchDataUrl url with
        | none => rfl
        | some groups => rfl

theorem imageData?_isSome (kind : ApiKind) (block : Json) :
    (imageData? kind block).isSome = hasImage kind block := by
  cases kind with
  | openai => exact openAISource_isSome block
  | anthropic =>
    unfold imageData? hasImage
    cases block.get? (js "source") with
    | none => rfl
    | some src => exact anthropicSource_isSome src

/-- The images on slots. -/
def images (kind : ApiKind) (ss : List (List ℕ × Json)) : List ImageSource :=
  ss.filterMap fun s => imageData? kind s.2

theorem images_cons (kind : ApiKind) (s : List ℕ × Json) (ss : List (List ℕ × Json)) :
    images kind (s :: ss) = (imageData? kind s.2).toList ++ images kind ss := by
  unfold images
  rw [List.filterMap_cons]
  cases imageData? kind s.2 with
  | none => rfl
  | some image => rfl

theorem images_append (kind : ApiKind) (ss ts : List (List ℕ × Json)) :
    images kind (ss ++ ts) = images kind ss ++ images kind ts :=
  List.filterMap_append

theorem images_under (kind : ApiKind) (i : ℕ) (ss : List (List ℕ × Json)) :
    images kind (ss.map fun s => (i :: s.1, s.2)) = images kind ss :=
  List.filterMap_map

/-- The images that a walk leaves. -/
def sources (out : ℕ × List ImagePart) : List ImageSource := out.2.map ImagePart.source

@[simp] theorem sources_nil (m : ImageMeta) (pos : ℕ) :
    sources (emitAnthropicImages m pos []) = [] := by
  rw [emitAnthropicImages]
  rfl

theorem filter_source_eq_none (h : hasType p "image" = false) :
    (p.get? (js "source")).filter (fun src => hasType p "image" && src.isObject) = none := by
  simp [h]

/-- An image block, as the walk leaves it. -/
theorem emit_image (m : ImageMeta) (pos : ℕ) (rest : List Json)
    (h : hasType p "image" = true) :
    ∃ parts : List ImagePart,
      parts.map ImagePart.source = (imageData? .anthropic p).toList ∧
        parts.map ImagePart.positionInBatch =
          (if hasImage .anthropic p then [pos + 1] else []) ∧
        emitAnthropicImages m pos (p :: rest) =
          ((emitAnthropicImages m (pos + if advances .anthropic p then 1 else 0) rest).1,
            parts ++ (emitAnthropicImages m (pos + if advances .anthropic p then 1 else 0) rest).2)
    := by
  have heq := emitAnthropicImages.eq_2 m pos p rest
  split at heq
  rename_i pos' out hout
  have hstep : pos' = pos + (if advances .anthropic p then 1 else 0) ∧
      out.map ImagePart.source = (imageData? .anthropic p).toList ∧
      out.map ImagePart.positionInBatch = if hasImage .anthropic p then [pos + 1] else [] := by
    rw [← imageData?_isSome]
    unfold advances imageData?
    split at hout
    · rename_i src hfilter
      obtain ⟨hget, hobject⟩ := Option.filter_eq_some_iff.mp hfilter
      rw [h, Bool.true_and] at hobject
      cases hout
      rw [hget, Option.any_some, Option.bind_some, hobject]
      refine ⟨rfl, ?_⟩
      cases anthropicSource src with
      | none => exact ⟨rfl, rfl⟩
      | some image => exact ⟨rfl, rfl⟩
    · rename_i hfilter
      rw [toolContent?_of_image h] at hout
      cases hout
      cases hget : p.get? (js "source") with
      | none => exact ⟨rfl, rfl, rfl⟩
      | some src =>
        rw [hget, Option.filter_some, h, Bool.true_and] at hfilter
        have hobject : src.isObject = false := by simpa using hfilter
        rw [Option.any_some, Option.bind_some, hobject, anthropicSource_of_not_isObject hobject]
        exact ⟨rfl, rfl, rfl⟩
  obtain ⟨rfl, hsources, hpositions⟩ := hstep
  exact ⟨out, hsources, hpositions, heq⟩

theorem emit_other (m : ImageMeta) (pos : ℕ) (h : hasType p "image" = false)
    (ht : toolContent? p = none) :
    emitAnthropicImages m pos (p :: rest) = emitAnthropicImages m pos rest := by
  rw [emitAnthropicImages]
  simp only [filter_source_eq_none h]
  split
  · rename_i content heq
    exact absurd (ht.symm.trans heq) (by simp)
  · rfl

theorem emit_tool (m : ImageMeta) (pos : ℕ) (h : hasType p "image" = false)
    (ht : toolContent? p = some items) :
    emitAnthropicImages m pos (p :: rest) =
      let inner := emitAnthropicImages { m with isToolResult := true } pos items
      let outer := emitAnthropicImages m inner.1 rest
      (outer.1, inner.2 ++ outer.2) := by
  rw [emitAnthropicImages]
  simp only [filter_source_eq_none h]
  split
  · rename_i content heq
    rw [ht] at heq
    cases heq
    rfl
  · rename_i heq
    exact absurd (ht.symm.trans heq) (by simp)

theorem sources_emit (content : List Json) (level : Level) (i : ℕ) : level = .blocks →
    ∀ (m : ImageMeta) (pos : ℕ), sources (emitAnthropicImages m pos content) =
      images .anthropic (slotsIn .anthropic level i content) := by
  induction content, level, i using slotInduction .anthropic with
  | nil level i => simp [images]
  | slot level i part rest hslot ih =>
    rintro rfl m pos
    obtain ⟨parts, hsources, -, heq⟩ := emit_image m pos rest hslot
    have hrest := ih rfl m (pos + if advances .anthropic part then 1 else 0)
    unfold sources at hrest ⊢
    rw [heq, slotsIn_slot hslot, images_cons, List.map_append, hsources, hrest]
  | nested level i part items rest hslot hn ihitems ih =>
    rintro rfl m pos
    have hitems := ihitems rfl { m with isToolResult := true } pos
    have hrest := ih rfl m (emitAnthropicImages { m with isToolResult := true } pos items).1
    unfold sources at hitems hrest ⊢
    rw [emit_tool m pos hslot hn, slotsIn_nested hslot hn, images_append, images_under]
    simp only [List.map_append]
    rw [hitems, hrest]
  | other level i part rest hslot hn ih =>
    rintro rfl m pos
    rw [emit_other m pos hslot hn, ih rfl, slotsIn_other hslot hn]

/-- Pass 1 counts the slots. -/
theorem countAnthropicImages_eq (content : List Json) (level : Level) (i : ℕ) : level = .blocks →
    countAnthropicImages content = (slotsIn .anthropic level i content).length := by
  induction content, level, i using slotInduction .anthropic with
  | nil level i => simp [countAnthropicImages]
  | slot level i part rest hslot ih =>
    rintro rfl
    have himage : hasType part "image" = true := hslot
    rw [slotsIn_slot hslot, countAnthropicImages, if_pos himage, List.length_cons, ih rfl]
    omega
  | nested level i part items rest hslot hn ihitems ih =>
    rintro rfl
    have himage : hasType part "image" = false := hslot
    have htool : toolContent? part = some items := hn
    rw [slotsIn_nested hslot hn, countAnthropicImages, List.length_append, List.length_map]
    rw [ih rfl, ← ihitems rfl, if_neg (by simp [himage])]
    split
    · rename_i content heq
      rw [htool] at heq
      cases heq
      rfl
    · rename_i heq
      exact absurd (htool.symm.trans heq) (by simp)
  | other level i part rest hslot hn ih =>
    rintro rfl
    have himage : hasType part "image" = false := hslot
    have htool : toolContent? part = none := hn
    rw [slotsIn_other hslot hn, countAnthropicImages, ih rfl, if_neg (by simp [himage])]
    split
    · rename_i content heq
      exact absurd (htool.symm.trans heq) (by simp)
    · exact Nat.zero_add _

/-- Pass 2 of the OpenAI finder leaves the images on the slots. -/
theorem sources_emitOpenAIImages (m : ImageMeta) (content : List Json) : ∀ pos i : ℕ,
    (emitOpenAIImages m pos content).map ImagePart.source =
      images .openai (slotsIn .openai .blocks i content) := by
  induction content with
  | nil =>
    intro pos i
    rw [slotsIn_nil]
    rfl
  | cons part rest ih =>
    intro pos i
    rw [emitOpenAIImages]
    cases hslot : isSlot .openai .blocks part with
    | false =>
      have himage : hasType part "image_url" = false := hslot
      rw [if_neg (by simp [himage]), slotsIn_other hslot rfl]
      exact ih pos (i + 1)
    | true =>
      have himage : hasType part "image_url" = true := hslot
      rw [if_pos himage, slotsIn_slot hslot, images_cons]
      cases hdata : openAISource part with
      | none =>
        simp only [imageData?, hdata, Option.toList_none, List.nil_append]
        exact ih pos (i + 1)
      | some image =>
        simp only [imageData?, hdata, Option.toList_some, List.map_cons]
        exact congrArg (image :: ·) (ih (pos + 1) (i + 1))

theorem countP_image_url_eq (content : List Json) : ∀ i : ℕ,
    content.countP (hasType · "image_url") = (slotsIn .openai .blocks i content).length := by
  induction content with
  | nil => simp
  | cons part rest ih =>
    intro i
    rw [List.countP_cons, ih (i + 1)]
    cases hslot : isSlot .openai .blocks part with
    | false =>
      have himage : hasType part "image_url" = false := hslot
      rw [slotsIn_other hslot rfl, if_neg (by simp [himage]), Nat.add_zero]
    | true =>
      have himage : hasType part "image_url" = true := hslot
      rw [slotsIn_slot hslot, if_pos himage, List.length_cons]

/-- A walk over the messages that leaves the images of each message. -/
theorem images_messages (kind : ApiKind) (find : Json → List ImagePart)
    (hfind : ∀ msg, (find msg).map ImagePart.source =
      images kind (slotsIn kind .blocks 0 ((msg.items? (js "content")).getD [])))
    (messages : List Json) : ∀ i : ℕ,
    (messages.flatMap find).map ImagePart.source =
      images kind (slotsIn kind .messages i messages) := by
  induction messages with
  | nil =>
    intro i
    rw [slotsIn_nil]
    rfl
  | cons msg rest ih =>
    intro i
    rw [List.flatMap_cons, List.map_append, hfind, ih (i + 1)]
    rw [slotsIn_message, images_append, images_under]

theorem sources_findAnthropicImageParts (body : Json) (maxChars : ℕ) :
    (findAnthropicImageParts body maxChars).map ImagePart.source =
      images .anthropic (slots .anthropic body) := by
  unfold findAnthropicImageParts slots
  cases body.items? (js "messages") with
  | none => simp [images]
  | some messages =>
    refine images_messages .anthropic _ (fun msg => ?_) messages 0
    cases msg.items? (js "content") with
    | none => simp [images]
    | some content =>
      simp only [Option.getD_some]
      split
      · rename_i hzero
        rw [countAnthropicImages_eq content .blocks 0 rfl, List.length_eq_zero_iff] at hzero
        rw [hzero]
        rfl
      · exact sources_emit content .blocks 0 rfl _ 0

theorem sources_findOpenAIImageParts (body : Json) (maxChars : ℕ) :
    (findOpenAIImageParts body maxChars).map ImagePart.source =
      images .openai (slots .openai body) := by
  unfold findOpenAIImageParts slots
  cases body.items? (js "messages") with
  | none => simp [images]
  | some messages =>
    refine images_messages .openai _ (fun msg => ?_) messages 0
    cases msg.items? (js "content") with
    | none => simp [images]
    | some content =>
      simp only [Option.getD_some]
      split
      · rename_i hzero
        rw [countP_image_url_eq content 0, List.length_eq_zero_iff] at hzero
        rw [hzero]
        rfl
      · exact sources_emitOpenAIImages _ content 0 0

/-- Images on slots, one by one. -/
theorem forall₂_of_images {parts : List ImagePart} {ss : List (List ℕ × Json)}
    (h : parts.map ImagePart.source = images kind ss) :
    List.Forall₂ (fun s part => imageData? kind s.2 = some part.source)
      (ss.filter fun s => hasImage kind s.2) parts := by
  induction ss generalizing parts with
  | nil =>
    cases List.map_eq_nil_iff.mp h
    exact .nil
  | cons s ss ih =>
    rw [images_cons] at h
    rw [List.filter_cons, ← imageData?_isSome]
    cases hdata : imageData? kind s.2 with
    | none =>
      rw [hdata] at h
      exact ih h
    | some image =>
      rw [hdata] at h
      obtain ⟨part, parts', rfl, himage, hparts⟩ := List.map_eq_cons_iff.mp h
      exact .cons (by rw [hdata, himage]) (ih hparts)

/-- The k-th part is the image on the k-th slot that carries one. -/
theorem finds_partSlots (kind : ApiKind) (body : Json) :
    List.Forall₂ (fun s part => imageData? kind s.2 = some part.source)
      (partSlots kind body) (findImageParts kind body) := by
  cases kind with
  | openai => exact forall₂_of_images (sources_findOpenAIImageParts body DEFAULT_MAX_CHARS)
  | anthropic => exact forall₂_of_images (sources_findAnthropicImageParts body DEFAULT_MAX_CHARS)

end

end UmansGate.Vision
