/-
UmansGate.Vision.PositionTheorems — which sub-question an image is asked.

The finder counts positions anew in every message, and on the Anthropic
route it also counts image blocks whose source has an unknown type. The
list of sub-questions counts the kept images of the whole body. The two
agree on an image when its message has as many counted blocks without an
image before it as the other messages before it have images.
-/
import UmansGate.Vision.Decompose
import UmansGate.Vision.FastPathTheorems
import UmansGate.Vision.FinderTheorems

namespace UmansGate.Vision

open UmansGate.Lib

/-! ## Positions on slots -/

/-- Two slots of one message. -/
def sameMessage (s t : List ℕ × Json) : Bool := s.1.head? = t.1.head?

/-- The position that the finder gives slot `s`, behind the slots `before`. -/
def slotPosition (kind : ApiKind) (before : List (List ℕ × Json)) (s : List ℕ × Json) : ℕ :=
  before.countP (fun t => sameMessage s t && advances kind t.2) + 1

/-- The positions of the images on slots, behind the slots `before`. -/
def positionsFrom (kind : ApiKind) (before : List (List ℕ × Json)) :
    List (List ℕ × Json) → List ℕ
  | [] => []
  | s :: rest =>
    (if hasImage kind s.2 then [slotPosition kind before s] else []) ++
      positionsFrom kind (before ++ [s]) rest

/-- The positions of the images on the slots of one message. -/
def positionsIn (kind : ApiKind) (position : ℕ) : List (List ℕ × Json) → List ℕ
  | [] => []
  | s :: rest =>
    (if hasImage kind s.2 then [position + 1] else []) ++
      positionsIn kind (position + if advances kind s.2 then 1 else 0) rest

section

variable {kind : ApiKind} {before after ss ts : List (List ℕ × Json)} {s : List ℕ × Json} {i : ℕ}

theorem advances_of_hasImage {block : Json} (h : hasImage kind block = true) :
    advances kind block = true := by
  cases kind with
  | openai => exact h
  | anthropic =>
    obtain ⟨src, hget, htype⟩ := (Option.any_eq_true _ _).mp h
    refine (Option.any_eq_true _ _).mpr ⟨src, hget, ?_⟩
    rcases Bool.or_eq_true_iff.mp htype with hb | hu
    · exact isObject_of_hasType hb
    · exact isObject_of_hasType hu

theorem positionsIn_append (position : ℕ) :
    positionsIn kind position (ss ++ ts) = positionsIn kind position ss ++
      positionsIn kind (position + ss.countP fun t => advances kind t.2) ts := by
  induction ss generalizing position with
  | nil => rfl
  | cons s rest ih =>
    rw [List.cons_append, positionsIn, positionsIn, ih, List.countP_cons, List.append_assoc]
    rw [Nat.add_assoc, Nat.add_comm (List.countP _ rest)]

theorem positionsIn_under (position : ℕ) :
    positionsIn kind position (ss.map fun s => (i :: s.1, s.2)) = positionsIn kind position ss := by
  induction ss generalizing position with
  | nil => rfl
  | cons s rest ih => rw [List.map_cons, positionsIn, positionsIn, ih]

theorem positionsFrom_append :
    positionsFrom kind before (ss ++ ts) =
      positionsFrom kind before ss ++ positionsFrom kind (before ++ ss) ts := by
  induction ss generalizing before with
  | nil => simp [positionsFrom]
  | cons s rest ih =>
    rw [List.cons_append, positionsFrom, positionsFrom, ih, List.append_assoc, List.append_assoc]
    rfl

/-- Within a message the positions go on from those counted so far. -/
theorem positionsFrom_under :
    positionsFrom kind before (ss.map fun s => (i :: s.1, s.2)) =
      positionsIn kind
        (before.countP fun t => sameMessage ([i], .null) t && advances kind t.2) ss := by
  induction ss generalizing before with
  | nil => rfl
  | cons s rest ih =>
    have hsame : sameMessage ([i], .null) (i :: s.1, s.2) = true := by simp [sameMessage]
    have hslot : slotPosition kind before (i :: s.1, s.2) =
        before.countP (fun t => sameMessage ([i], .null) t && advances kind t.2) + 1 := rfl
    rw [List.map_cons, positionsFrom, ih, positionsIn, List.countP_append, List.countP_singleton]
    rw [hslot, hsame, Bool.true_and]

/-- The slot at index `before.countP` of those with an image. -/
theorem positionsFrom_get? (all : List (List ℕ × Json)) (h : hasImage kind s.2 = true) :
    (positionsFrom kind all (before ++ s :: after))[before.countP fun t => hasImage kind t.2]? =
      some (slotPosition kind (all ++ before) s) := by
  induction before generalizing all with
  | nil => simp [positionsFrom, h]
  | cons t rest ih =>
    rw [List.cons_append, positionsFrom, List.countP_cons]
    cases ht : hasImage kind t.2 with
    | true => simpa [ht] using ih (all ++ [t])
    | false => simpa [ht] using ih (all ++ [t])

theorem length_positionsFrom :
    (positionsFrom kind before ss).length = ss.countP fun t => hasImage kind t.2 := by
  induction ss generalizing before with
  | nil => rfl
  | cons s rest ih =>
    rw [positionsFrom, List.length_append, ih, List.countP_cons, Nat.add_comm]
    cases hasImage kind s.2 with
    | true => rfl
    | false => rfl

/-- Every index below the number of images is that of a slot. -/
theorem exists_slot_of_lt {k : ℕ} (h : k < ss.countP fun t => hasImage kind t.2) :
    ∃ before s after, ss = before ++ s :: after ∧ hasImage kind s.2 = true ∧
      (before.countP fun t => hasImage kind t.2) = k := by
  induction ss generalizing k with
  | nil => exact absurd h (by simp)
  | cons s rest ih =>
    rw [List.countP_cons] at h
    cases hs : hasImage kind s.2 with
    | false =>
      obtain ⟨before, t, after, rfl, ht, rfl⟩ := ih (k := k) (by simpa [hs] using h)
      exact ⟨s :: before, t, after, rfl, ht, by simp [hs]⟩
    | true =>
      cases k with
      | zero => exact ⟨[], s, rest, rfl, hs, rfl⟩
      | succ k =>
        obtain ⟨before, t, after, rfl, ht, rfl⟩ := ih (k := k) (by simpa [hs] using h)
        exact ⟨s :: before, t, after, rfl, ht, by simp [hs]⟩

end

/-! ## The finder -/

section

variable {kind : ApiKind}

theorem positions_emit (content : List Json) (level : Level) (i : ℕ) : level = .blocks →
    ∀ (m : ImageMeta) (pos : ℕ),
      (emitAnthropicImages m pos content).1 = pos +
          (slotsIn .anthropic level i content).countP (fun s => advances .anthropic s.2) ∧
        (emitAnthropicImages m pos content).2.map ImagePart.positionInBatch =
          positionsIn .anthropic pos (slotsIn .anthropic level i content) := by
  induction content, level, i using slotInduction .anthropic with
  | nil level i =>
    intro _ m pos
    rw [emitAnthropicImages, slotsIn_nil]
    exact ⟨rfl, rfl⟩
  | slot level i part rest hslot ih =>
    rintro rfl m pos
    obtain ⟨parts, -, hparts, heq⟩ := emit_image m pos rest hslot
    obtain ⟨hcursor, hrest⟩ := ih rfl m (pos + if advances .anthropic part then 1 else 0)
    rw [heq, slotsIn_slot hslot, List.countP_cons, positionsIn, List.map_append, hparts, hrest]
    refine ⟨?_, rfl⟩
    rw [hcursor, Nat.add_assoc, Nat.add_comm (List.countP _ _)]
  | nested level i part items rest hslot hn ihitems ih =>
    rintro rfl m pos
    obtain ⟨hinner, hitems⟩ := ihitems rfl { m with isToolResult := true } pos
    obtain ⟨houter, hrest⟩ := ih rfl m
      (emitAnthropicImages { m with isToolResult := true } pos items).1
    rw [emit_tool m pos hslot hn, slotsIn_nested hslot hn, List.countP_append, List.countP_map]
    rw [positionsIn_append, positionsIn_under, List.countP_map]
    simp only [List.map_append]
    rw [hitems, hrest, houter, hinner]
    exact ⟨Nat.add_assoc _ _ _, rfl⟩
  | other level i part rest hslot hn ih =>
    rintro rfl m pos
    rw [emit_other m pos hslot hn, slotsIn_other hslot hn]
    exact ih rfl m pos

theorem positions_emitOpenAIImages (m : ImageMeta) (content : List Json) : ∀ pos i : ℕ,
    (emitOpenAIImages m pos content).map ImagePart.positionInBatch =
      positionsIn .openai pos (slotsIn .openai .blocks i content) := by
  induction content with
  | nil =>
    intro pos i
    rw [slotsIn_nil]
    rfl
  | cons part rest ih =>
    intro pos i
    rw [emitOpenAIImages]
    cases hslot : isSlot .openai .blocks part with
    | false =>
      have himage : hasType part "image_url" = false := hslot
      rw [if_neg (by simp [himage]), slotsIn_other hslot rfl]
      exact ih pos (i + 1)
    | true =>
      have himage : hasType part "image_url" = true := hslot
      rw [if_pos himage, slotsIn_slot hslot, positionsIn]
      unfold advances
      rw [← openAISource_isSome]
      cases openAISource part with
      | none => exact ih pos (i + 1)
      | some image => exact congrArg (List.cons (pos + 1)) (ih (pos + 1) (i + 1))

/-- A walk that counts anew in each message gives the slots their
positions. -/
theorem positions_messages (kind : ApiKind) (find : Json → List ImagePart)
    (hfind : ∀ msg, (find msg).map ImagePart.positionInBatch =
      positionsIn kind 0 (slotsIn kind .blocks 0 ((msg.items? (js "content")).getD [])))
    (messages : List Json) : ∀ (i : ℕ) (before : List (List ℕ × Json)),
    (∀ s ∈ before, ∃ j q, s.1 = j :: q ∧ j < i) →
    (messages.flatMap find).map ImagePart.positionInBatch =
      positionsFrom kind before (slotsIn kind .messages i messages) := by
  induction messages with
  | nil =>
    intro i before _
    rw [slotsIn_nil]
    rfl
  | cons msg rest ih =>
    intro i before hbefore
    have hnone : before.countP (fun t => sameMessage ([i], .null) t && advances kind t.2) = 0 := by
      rw [List.countP_eq_zero]
      intro s hs
      obtain ⟨j, q, hpath, hlt⟩ := hbefore s hs
      have hne : i ≠ j := by omega
      simp [sameMessage, hpath, hne]
    rw [slotsIn_message, positionsFrom_append, positionsFrom_under, hnone, List.flatMap_cons]
    rw [List.map_append, hfind]
    refine congrArg _ (ih (i + 1) _ fun s hs => ?_)
    rcases List.mem_append.mp hs with hs | hs
    · obtain ⟨j, q, hpath, hlt⟩ := hbefore s hs
      exact ⟨j, q, hpath, by omega⟩
    · obtain ⟨t, _, rfl⟩ := List.mem_map.mp hs
      exact ⟨i, t.1, rfl, by omega⟩

theorem positions_findAnthropicImageParts (body : Json) (maxChars : ℕ) :
    (findAnthropicImageParts body maxChars).map ImagePart.positionInBatch =
      positionsFrom .anthropic [] (slots .anthropic body) := by
  unfold findAnthropicImageParts slots
  cases body.items? (js "messages") with
  | none => simp [positionsFrom]
  | some messages =>
    refine positions_messages .anthropic _ (fun msg => ?_) messages 0 [] (by simp)
    cases msg.items? (js "content") with
    | none => simp [positionsIn]
    | some content =>
      simp only [Option.getD_some]
      split
      · rename_i hzero
        rw [countAnthropicImages_eq content .blocks 0 rfl, List.length_eq_zero_iff] at hzero
        rw [hzero]
        rfl
      · exact (positions_emit content .blocks 0 rfl _ 0).2

theorem positions_findOpenAIImageParts (body : Json) (maxChars : ℕ) :
    (findOpenAIImageParts body maxChars).map ImagePart.positionInBatch =
      positionsFrom .openai [] (slots .openai body) := by
  unfold findOpenAIImageParts slots
  cases body.items? (js "messages") with
  | none => simp [positionsFrom]
  | some messages =>
    refine positions_messages .openai _ (fun msg => ?_) messages 0 [] (by simp)
    cases msg.items? (js "content") with
    | none => simp [positionsIn]
    | some content =>
      simp only [Option.getD_some]
      split
      · rename_i hzero
        rw [countP_image_url_eq content 0, List.length_eq_zero_iff] at hzero
        rw [hzero]
        rfl
      · exact positions_emitOpenAIImages _ content 0 0

/-- The finder gives each image the position of its slot. -/
theorem positions_findImageParts (kind : ApiKind) (body : Json) :
    (findImageParts kind body).map ImagePart.positionInBatch =
      positionsFrom kind [] (slots kind body) := by
  cases kind with
  | openai => exact positions_findOpenAIImageParts body DEFAULT_MAX_CHARS
  | anthropic => exact positions_findAnthropicImageParts body DEFAULT_MAX_CHARS

end

/-! ## The questions of a batch -/

/-- The batch goes to the decomposition. -/
def BatchDecomposed (handoff : HandoffConfig) (kept : List ImagePart) : Prop :=
  ∀ decomposition, batchQuestions handoff kept decomposition = decomposition

/-- Whatever sub-questions the batch is decomposed into, one for each kept
image, the images are asked them in their order. -/
def QuestionsFollow (handoff : HandoffConfig) (body : Json) (kind : ApiKind)
    (modelName : Option JsString) : Prop :=
  let kept := keptParts handoff body kind modelName
  ∀ parsed questions, decomposeIfNeeded kept.length parsed = some questions →
    kept.map (fun part => (visionContext handoff body kept (some questions) part).perImageQuestion) =
      questions.map some

/-- For each of the first `kept` images: its message has as many counted
blocks without an image before it as the other messages have images. -/
def PositionsContinue (kind : ApiKind) (body : Json) (kept : ℕ) : Prop :=
  ∀ before s after, slots kind body = before ++ s :: after → hasImage kind s.2 = true →
    before.countP (fun t => hasImage kind t.2) < kept →
    before.countP (fun t => sameMessage s t && (advances kind t.2 && !hasImage kind t.2)) =
      before.countP (fun t => !sameMessage s t && hasImage kind t.2)

section

variable {kind : ApiKind} {body : Json} {before : List (List ℕ × Json)} {s : List ℕ × Json}

/-- A count splits at a test. -/
theorem countP_split (p q : List ℕ × Json → Bool) (ss : List (List ℕ × Json)) :
    ss.countP p = ss.countP (fun t => p t && q t) + ss.countP (fun t => p t && !q t) := by
  rw [List.countP_eq_countP_filter_add ss p q, List.countP_filter, List.countP_filter]

theorem slotPosition_eq_iff :
    slotPosition kind before s = before.countP (fun t => hasImage kind t.2) + 1 ↔
      before.countP (fun t => sameMessage s t && (advances kind t.2 && !hasImage kind t.2)) =
        before.countP (fun t => !sameMessage s t && hasImage kind t.2) := by
  have hcounted : before.countP (fun t => sameMessage s t && advances kind t.2) =
      before.countP (fun t => hasImage kind t.2 && sameMessage s t) +
        before.countP (fun t => sameMessage s t && (advances kind t.2 && !hasImage kind t.2)) := by
    rw [countP_split _ (fun t => hasImage kind t.2)]
    congr 2
    · funext t
      cases himage : hasImage kind t.2 with
      | false => simp
      | true => simp [advances_of_hasImage himage]
    · funext t
      rw [Bool.and_assoc]
  have himages := countP_split (fun t => hasImage kind t.2) (sameMessage s) before
  have hothers : before.countP (fun t => hasImage kind t.2 && !sameMessage s t) =
      before.countP (fun t => !sameMessage s t && hasImage kind t.2) := by
    congr 1
    funext t
    rw [Bool.and_comm]
  unfold slotPosition
  omega

/-- The images are numbered from one on. -/
theorem positionsContinue_iff {kept : ℕ}
    (hkept : kept ≤ (positionsFrom kind [] (slots kind body)).length) :
    PositionsContinue kind body kept ↔
      (positionsFrom kind [] (slots kind body)).take kept = List.range' 1 kept := by
  have hindex : ∀ before s after, slots kind body = before ++ s :: after →
      hasImage kind s.2 = true →
      (positionsFrom kind [] (slots kind body))[before.countP fun t => hasImage kind t.2]? =
        some (slotPosition kind before s) := by
    intro before s after hslots himage
    rw [hslots]
    exact positionsFrom_get? [] himage
  have hlength : ((positionsFrom kind [] (slots kind body)).take kept).length = kept := by
    rw [List.length_take]
    omega
  constructor
  · intro h
    refine List.ext_getElem (by rw [hlength, List.length_range']) fun k hk _ => ?_
    rw [hlength] at hk
    have hlt : k < (slots kind body).countP fun t => hasImage kind t.2 := by
      have hcount : (positionsFrom kind [] (slots kind body)).length =
          (slots kind body).countP fun t => hasImage kind t.2 := length_positionsFrom
      omega
    obtain ⟨before, s, after, hslots, himage, rfl⟩ := exists_slot_of_lt hlt
    have hposition := hindex before s after hslots himage
    rw [slotPosition_eq_iff.mpr (h before s after hslots himage hk),
      List.getElem?_eq_some_iff] at hposition
    obtain ⟨_, hposition⟩ := hposition
    rw [List.getElem_take, hposition, List.getElem_range']
    omega
  · intro h before s after hslots himage hk
    have hposition := hindex before s after hslots himage
    rw [← List.getElem?_take_of_lt hk, h, List.getElem?_range' hk] at hposition
    rw [← slotPosition_eq_iff, ← Option.some.inj hposition]
    omega

/-- The positions of the kept images are the first ones of the finder. -/
theorem positions_keptParts (handoff : HandoffConfig) (body : Json) (kind : ApiKind)
    (modelName : Option JsString) :
    (keptParts handoff body kind modelName).map ImagePart.positionInBatch =
      (positionsFrom kind [] (slots kind body)).take
        (keptParts handoff body kind modelName).length := by
  have htake : ∀ n : ℕ, ((findImageParts kind body).take n).map ImagePart.positionInBatch =
      (positionsFrom kind [] (slots kind body)).take ((findImageParts kind body).take n).length := by
    intro n
    rw [List.map_take, positions_findImageParts, List.length_take,
      ← List.length_map ImagePart.positionInBatch, positions_findImageParts]
    exact List.take_eq_take_min
  unfold keptParts applyMaxImagesPolicy handoffParts
  split
  · exact htake _
  · simp

/-- Sub-questions that tell all images of a batch apart. -/
def distinctQuestions (n : ℕ) : List JsString :=
  (List.range n).map fun k => List.replicate (k + 1) 97

theorem length_distinctQuestions (n : ℕ) : (distinctQuestions n).length = n := by
  rw [distinctQuestions, List.length_map, List.length_range]

theorem ne_nil_of_mem_distinctQuestions {n : ℕ} : ∀ q ∈ distinctQuestions n, q ≠ [] := by
  intro q hq
  obtain ⟨k, _, rfl⟩ := List.mem_map.mp hq
  exact List.cons_ne_nil 97 _

theorem distinctQuestions_get? {n k j : ℕ} (hk : k < n)
    (h : (distinctQuestions n)[j]? = (distinctQuestions n)[k]?) : j = k := by
  unfold distinctQuestions at h
  rw [List.getElem?_map, List.getElem?_map, List.getElem?_range hk] at h
  obtain ⟨i, hi, hsame⟩ := Option.map_eq_some_iff.mp h
  have hj : j = i := by
    rw [List.getElem?_eq_some_iff] at hi
    obtain ⟨_, hi⟩ := hi
    rw [List.getElem_range] at hi
    exact hi
  have hlength := congrArg List.length hsame
  simp only [List.length_replicate] at hlength
  omega

theorem map_range'_get? (questions : List JsString) :
    (List.range' 1 questions.length).map (fun p => questions[p - 1]?) = questions.map some := by
  refine List.ext_getElem (by simp) fun k hk _ => ?_
  rw [List.length_map, List.length_range'] at hk
  simp [hk]

/-- Distinct questions read through positions are in their order only if the
positions count from one on. -/
theorem eq_range'_of_reads {positions : List ℕ} (hpos : ∀ p ∈ positions, 1 ≤ p)
    (h : positions.map (fun p => (distinctQuestions positions.length)[p - 1]?) =
      (distinctQuestions positions.length).map some) :
    positions = List.range' 1 positions.length := by
  refine List.ext_getElem List.length_range'.symm fun k hk _ => ?_
  have hread := congrArg (·[k]?) h
  simp only [List.getElem?_map, List.getElem?_eq_getElem hk, Option.map_some] at hread
  have hquestion : k < (distinctQuestions positions.length).length := by
    rw [length_distinctQuestions]
    exact hk
  rw [List.getElem?_eq_getElem hquestion, Option.map_some, Option.some_inj,
    ← List.getElem?_eq_getElem hquestion] at hread
  have hindex := distinctQuestions_get? hk hread
  have hone := hpos _ (List.getElem_mem hk)
  rw [List.getElem_range']
  omega

theorem one_le_of_mem_positionsFrom {p : ℕ} {ss : List (List ℕ × Json)}
    (h : p ∈ positionsFrom kind before ss) : 1 ≤ p := by
  induction ss generalizing before with
  | nil => exact absurd h (by simp [positionsFrom])
  | cons s rest ih =>
    rw [positionsFrom] at h
    rcases List.mem_append.mp h with h | h
    · split at h
      · rw [List.mem_singleton.mp h]
        exact Nat.le_add_left 1 _
      · exact absurd h (by simp)
    · exact ih h

theorem batchDecomposed_of {handoff : HandoffConfig} {kept : List ImagePart}
    (h : resolveTriageStrategy handoff.call.intentStrategy ⟨kept.head?.bind ImagePart.adjacentText,
      kept.head?.any ImagePart.isToolResult, kept.length⟩ = .decomposed)
    (henabled : handoff.call.decompositionEnabled = true) : BatchDecomposed handoff kept := by
  intro decomposition
  simp only [batchQuestions, h, henabled, and_self, if_true]

/-- A batch that is decomposed has several images. -/
theorem one_lt_of_batchDecomposed {handoff : HandoffConfig} {kept : List ImagePart}
    (h : BatchDecomposed handoff kept) : 1 < kept.length := by
  have hquestions := h (some [])
  simp only [batchQuestions] at hquestions
  split at hquestions
  · rename_i hrouted
    exact imageCount_of_decomposed hrouted.1
  · exact absurd hquestions (by simp)

theorem perImageQuestions_eq {handoff : HandoffConfig} {kept : List ImagePart}
    (h : BatchDecomposed handoff kept) (questions : List JsString) :
    kept.map (fun part => (visionContext handoff body kept (some questions) part).perImageQuestion) =
      (kept.map ImagePart.positionInBatch).map fun p => questions[p - 1]? := by
  rw [List.map_map]
  refine List.map_congr_left fun part _ => ?_
  change (batchQuestions handoff kept (some questions)).bind _ = _
  rw [h]
  rfl

/-- The images of a decomposed batch are asked their own sub-questions
exactly if their positions continue over the messages. -/
theorem questionsFollow_iff (handoff : HandoffConfig) (body : Json) (kind : ApiKind)
    (modelName : Option JsString)
    (h : BatchDecomposed handoff (keptParts handoff body kind modelName)) :
    QuestionsFollow handoff body kind modelName ↔
      PositionsContinue kind body (keptParts handoff body kind modelName).length := by
  have hpositions := positions_keptParts handoff body kind modelName
  have hmany := one_lt_of_batchDecomposed h
  simp only [QuestionsFollow]
  generalize keptParts handoff body kind modelName = kept at h hpositions hmany ⊢
  have hlength : (kept.map ImagePart.positionInBatch).length = kept.length := List.length_map _
  have hkept : kept.length ≤ (positionsFrom kind [] (slots kind body)).length := by
    have := congrArg List.length hpositions
    rw [hlength, List.length_take] at this
    omega
  rw [positionsContinue_iff hkept, ← hpositions]
  constructor
  · intro hfollow
    have hread := hfollow _ _ (decomposeIfNeeded_answer hmany
      (length_distinctQuestions kept.length) ne_nil_of_mem_distinctQuestions)
    rw [perImageQuestions_eq h, ← hlength] at hread
    rw [← hlength]
    refine eq_range'_of_reads (fun p hp => ?_) hread
    rw [hpositions] at hp
    exact one_le_of_mem_positionsFrom (List.mem_of_mem_take hp)
  · intro hrange parsed questions hquestions
    rw [perImageQuestions_eq h, hrange, ← length_of_decomposeIfNeeded hquestions]
    exact map_range'_get? questions

/-- On the OpenAI route every counted block has an image: the kept images
have to be in one message. -/
theorem positionsContinue_openai {body : Json} {kept : ℕ} :
    PositionsContinue .openai body kept ↔
      ∀ before s after, slots .openai body = before ++ s :: after →
        hasImage .openai s.2 = true → before.countP (fun t => hasImage .openai t.2) < kept →
        before.countP (fun t => !sameMessage s t && hasImage .openai t.2) = 0 := by
  unfold PositionsContinue
  simp only [advances, Bool.and_not_self, Bool.and_false, List.countP_false,
    Function.const_apply, @eq_comm ℕ 0]

end

/-! ## Two images in one message, and in two -/

/-- A handoff that keeps five images, with the triage of `autoConfig`. -/
def fiveImageHandoff : HandoffConfig := ⟨⟨.always, 5, false⟩, autoConfig, none, 1000, 6⟩

def dotsQuestion : Json := textBlock .openai (js "count the dots in image 2")

/-- The same two images in two messages. -/
def twoMessages : Json :=
  .obj [(js "messages", .arr [
    .obj [(js "role", .str (js "user")), (js "content", .arr [dotsQuestion, pngBlock "AQ=="])],
    .obj [(js "role", .str (js "user")), (js "content", .arr [pngBlock "Ag=="])]])]

/-- One message asks both its questions. -/
theorem one_message_asks_both :
    BatchDecomposed fiveImageHandoff (keptParts fiveImageHandoff
      (oneMessage [dotsQuestion, pngBlock "AQ==", pngBlock "Ag=="]) .openai none) ∧
    QuestionsFollow fiveImageHandoff (oneMessage [dotsQuestion, pngBlock "AQ==", pngBlock "Ag=="])
      .openai none := by
  have hdecomposed : BatchDecomposed fiveImageHandoff (keptParts fiveImageHandoff
      (oneMessage [dotsQuestion, pngBlock "AQ==", pngBlock "Ag=="]) .openai none) :=
    batchDecomposed_of (by decide +kernel) rfl
  refine ⟨hdecomposed, (questionsFollow_iff _ _ _ _ hdecomposed).mpr ?_⟩
  have hpositions : positionsFrom .openai [] (slots .openai
      (oneMessage [dotsQuestion, pngBlock "AQ==", pngBlock "Ag=="])) = [1, 2] := by
    rw [← positions_findImageParts]
    decide +kernel
  have hkept : (keptParts fiveImageHandoff
      (oneMessage [dotsQuestion, pngBlock "AQ==", pngBlock "Ag=="]) .openai none).length = 2 := by
    decide +kernel
  rw [hkept]
  refine (positionsContinue_iff ?_).mpr ?_
  · rw [hpositions]
    decide
  · rw [hpositions]
    decide

/-- Both images of two messages are asked the first question. -/
theorem second_message_asks_first :
    BatchDecomposed fiveImageHandoff (keptParts fiveImageHandoff twoMessages .openai none) ∧
    (keptParts fiveImageHandoff twoMessages .openai none).map (fun part =>
      (visionContext fiveImageHandoff twoMessages (keptParts fiveImageHandoff twoMessages .openai
        none) (some [js "dots?", js "lines?"]) part).perImageQuestion) =
      [some (js "dots?"), some (js "dots?")] ∧
    ¬ QuestionsFollow fiveImageHandoff twoMessages .openai none := by
  have hasked : (keptParts fiveImageHandoff twoMessages .openai none).map (fun part =>
      (visionContext fiveImageHandoff twoMessages (keptParts fiveImageHandoff twoMessages .openai
        none) (some [js "dots?", js "lines?"]) part).perImageQuestion) =
      [some (js "dots?"), some (js "dots?")] := by
    decide +kernel
  have hanswer : decomposeIfNeeded (keptParts fiveImageHandoff twoMessages .openai none).length
      (some (.arr [.str (js "dots?"), .str (js "lines?")])) =
        some [js "dots?", js "lines?"] := by
    decide +kernel
  refine ⟨batchDecomposed_of (by decide +kernel) rfl, hasked, fun h => ?_⟩
  have hfollow := h _ _ hanswer
  rw [hasked] at hfollow
  exact absurd hfollow (by decide)

end UmansGate.Vision
