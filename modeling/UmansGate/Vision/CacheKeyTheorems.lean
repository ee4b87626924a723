/-
UmansGate.Vision.CacheKeyTheorems — which inputs share a cache key.

A key hashes texts that are run together: the decomposition key without a
separator, the crafting key and the text of a context with a colon that the
texts may hold, the image key and the end of the description key without a
separator again. A lone surrogate is hashed as U+FFFD. Two inputs share a
key exactly if they are `Confused`: the same bytes in each field, or bytes
that move over a joint.

An undefined system prompt is the empty one to the code, and so is an
undefined context hash; the inputs here have the empty text for both.

SHA-256 is assumed to be injective, with hexadecimal digests (`Digest`).
-/
import UmansGate.Lib.Joint
import UmansGate.Vision.Decompose
import UmansGate.Vision.RequestTheorems

namespace UmansGate.Vision

open UmansGate.Lib

/-! ## The inputs -/

/-- The input of `decompositionCacheKey`. -/
structure DecompositionKeyInput where
  adjacentText : JsString
  imageCount : ℕ
  originalSystemPrompt : JsString
  deriving DecidableEq, Repr

/-- The input of `craftingCacheKey`. -/
structure CraftingKeyInput where
  adjacentText : JsString
  originalSystemPrompt : JsString
  deriving DecidableEq, Repr

/-- What is hashed for a context: a sub-question, or the adjacent text. -/
inductive ContextKeyInput where
  | question (perImageQuestion : JsString) (positionInBatch : ℕ)
  | adjacent (adjacentText : JsString) (positionInBatch batchSize : ℕ)
      (originalSystemPrompt : JsString)
  deriving DecidableEq, Repr

structure CompressionRecipe where
  format : JsString
  quality : Float
  max_dimension : Float

/-- The input of `imageCacheKey`. -/
structure ImageKeyInput where
  bytes : List UInt8
  recipe : CompressionRecipe
  encoderVersion : JsString

/-- The input of `descriptionCacheKey`. -/
structure DescriptionKeyInput where
  image : ImageKeyInput
  modelId : JsString
  promptVersion : ℕ
  contextHash : JsString

/-! ## The keys -/

def CompressionRecipe.text (recipe : CompressionRecipe) : JsString :=
  stringify (.obj [(js "format", .str recipe.format), (js "quality", .num recipe.quality),
    (js "max_dimension", .num recipe.max_dimension)])

section

variable (sha256 : List UInt8 → JsString)

def DecompositionKeyInput.key (x : DecompositionKeyInput) : JsString :=
  decompositionCacheKey sha256 x.adjacentText x.imageCount (some x.originalSystemPrompt)

def CraftingKeyInput.key (x : CraftingKeyInput) : JsString :=
  craftingCacheKey sha256 x.adjacentText (some x.originalSystemPrompt)

def ContextKeyInput.text : ContextKeyInput → JsString
  | .question perImageQuestion positionInBatch =>
    perImageQuestion ++ js ":" ++ numberString positionInBatch
  | .adjacent adjacentText positionInBatch batchSize originalSystemPrompt =>
    adjacentText ++ js ":" ++ numberString positionInBatch ++ js ":" ++ numberString batchSize ++
      js ":" ++ originalSystemPrompt

def ContextKeyInput.key (x : ContextKeyInput) : JsString := sha256 (utf8 x.text)

/-- `imageCacheKey` of `src/vision/cache.ts`. -/
def ImageKeyInput.key (x : ImageKeyInput) : JsString :=
  sha256 (x.bytes ++ utf8 x.recipe.text ++ utf8 x.encoderVersion)

/-- The bytes of the part of a description key that names a context. -/
def contextSuffix (contextHash : JsString) : List UInt8 :=
  if contextHash = [] then [] else utf8 (js "|ctx=" ++ contextHash)

/-- `descriptionCacheKey` of `src/vision/cache.ts`. -/
def DescriptionKeyInput.key (x : DescriptionKeyInput) : JsString :=
  sha256 (utf8 (x.image.key sha256) ++
    utf8 (js "|pv=" ++ numberString x.promptVersion ++ js "|model=" ++ x.modelId) ++
    contextSuffix x.contextHash)

end

/-- What is hashed for a context, if anything is. -/
def contextKeyInput (config : VisionCallConfig) (context : VisionContext) :
    Option ContextKeyInput :=
  if strategy config context = .generic then none
  else
    match perImageQuestion? config context, truthy? context.adjacentText with
    | some question, _ => some (.question question context.positionInBatch)
    | none, some adjacentText =>
      some (.adjacent adjacentText context.positionInBatch context.batchSize
        (context.originalSystemPrompt.getD []))
    | none, none => none

/-- `recipeFromConfig`. -/
def recipeFromConfig (config : VisionCallConfig) : CompressionRecipe where
  format := config.imageFormat.name
  quality := config.jpegQuality
  max_dimension := config.maxDimension

theorem decompositionCacheKey_eq_key (sha256 : List UInt8 → JsString) (adjacentText : JsString)
    (imageCount : ℕ) (originalSystemPrompt : Option JsString) :
    decompositionCacheKey sha256 adjacentText imageCount originalSystemPrompt =
      DecompositionKeyInput.key sha256
        ⟨adjacentText, imageCount, originalSystemPrompt.getD []⟩ :=
  rfl

theorem craftingCacheKey_eq_key (sha256 : List UInt8 → JsString) (adjacentText : JsString)
    (originalSystemPrompt : Option JsString) :
    craftingCacheKey sha256 adjacentText originalSystemPrompt =
      CraftingKeyInput.key sha256 ⟨adjacentText, originalSystemPrompt.getD []⟩ :=
  rfl

theorem contextHash_eq_key (sha256 : List UInt8 → JsString) (config : VisionCallConfig)
    (context : VisionContext) :
    contextHash sha256 config context =
      (contextKeyInput config context).map (·.key sha256) := by
  unfold contextHash contextText contextKeyInput
  split
  · rfl
  · cases perImageQuestion? config context with
    | some question => rfl
    | none =>
      cases truthy? context.adjacentText with
      | some adjacentText => rfl
      | none => rfl

theorem descriptionCacheKey_eq_key (sha256 : List UInt8 → JsString) (config : VisionCallConfig)
    (bytes : List UInt8) (contextHash : Option JsString) :
    descriptionCacheKey sha256 config bytes contextHash =
      DescriptionKeyInput.key sha256 ⟨⟨bytes, recipeFromConfig config, ENCODER_VERSION⟩,
        config.model.getD [], config.promptVersion, contextHash.getD []⟩ := by
  unfold descriptionCacheKey DescriptionKeyInput.key contextSuffix
  cases contextHash with
  | none => rfl
  | some hash =>
    by_cases h : hash = []
    · subst h
      rfl
    · rw [truthy?_some h, Option.getD_some, if_neg h]
      rfl

/-! ## Confused inputs -/

/-- Bytes move between the text, the digits of the count and the prompt. -/
def DecompositionKeyInput.Confused (x y : DecompositionKeyInput) : Prop :=
  let text (x : DecompositionKeyInput) := utf8 x.adjacentText
  let count (x : DecompositionKeyInput) := numberBytes x.imageCount
  let prompt (x : DecompositionKeyInput) := utf8 x.originalSystemPrompt
  text x = text y ∧ Recut (count x) (prompt x) (count y) (prompt y) ∨
    Spills (text x) (count x ++ prompt x) (text y) (count y ++ prompt y) ∨
    Spills (text y) (count y ++ prompt y) (text x) (count x ++ prompt x)

/-- Bytes move between the text and the prompt, over a colon. -/
def CraftingKeyInput.Confused (x y : CraftingKeyInput) : Prop :=
  let text (x : CraftingKeyInput) := utf8 x.adjacentText
  let prompt (x : CraftingKeyInput) := utf8 x.originalSystemPrompt
  text x = text y ∧ prompt x = prompt y ∨
    Overlaps colon (text x) (prompt x) (text y) (prompt y) ∨
    Overlaps colon (text y) (prompt y) (text x) (prompt x)

/-- The bytes before the first colon that the code writes. -/
def ContextKeyInput.head : ContextKeyInput → List UInt8
  | .question perImageQuestion _ => utf8 perImageQuestion
  | .adjacent adjacentText _ _ _ => utf8 adjacentText

/-- The bytes behind it. -/
def ContextKeyInput.tail : ContextKeyInput → List UInt8
  | .question _ positionInBatch => numberBytes positionInBatch
  | .adjacent _ positionInBatch batchSize originalSystemPrompt =>
    numberBytes positionInBatch ++ colon ::
      (numberBytes batchSize ++ colon :: utf8 originalSystemPrompt)

/-- The same bytes, field by field. -/
def ContextKeyInput.SameBytes : ContextKeyInput → ContextKeyInput → Prop
  | .question q p, .question q' p' => utf8 q = utf8 q' ∧ p = p'
  | .adjacent a p n s, .adjacent a' p' n' s' =>
    utf8 a = utf8 a' ∧ p = p' ∧ n = n' ∧ utf8 s = utf8 s'
  | _, _ => False

def ContextKeyInput.Confused (x y : ContextKeyInput) : Prop :=
  x.SameBytes y ∨ Overlaps colon x.head x.tail y.head y.tail ∨
    Overlaps colon y.head y.tail x.head x.tail

/-- Bytes move between the image, its recipe and the encoder version. -/
def ImageKeyInput.Confused (x y : ImageKeyInput) : Prop :=
  let recipe (x : ImageKeyInput) := utf8 x.recipe.text
  let encoder (x : ImageKeyInput) := utf8 x.encoderVersion
  x.bytes = y.bytes ∧ Recut (recipe x) (encoder x) (recipe y) (encoder y) ∨
    Spills x.bytes (recipe x ++ encoder x) y.bytes (recipe y ++ encoder y) ∨
    Spills y.bytes (recipe y ++ encoder y) x.bytes (recipe x ++ encoder x)

/-- Bytes move between the model and the context. -/
def DescriptionKeyInput.Confused (x y : DescriptionKeyInput) : Prop :=
  x.image.Confused y.image ∧ x.promptVersion = y.promptVersion ∧
    Recut (utf8 x.modelId) (contextSuffix x.contextHash) (utf8 y.modelId)
      (contextSuffix y.contextHash)

section

variable {sha256 : List UInt8 → JsString}

theorem DecompositionKeyInput.key_eq_iff (hsha : Digest sha256) (x y : DecompositionKeyInput) :
    x.key sha256 = y.key sha256 ↔ x.Confused y := by
  unfold key decompositionCacheKey Confused
  rw [hsha.injective.eq_iff, utf8_numberString, utf8_numberString, List.append_assoc,
    List.append_assoc]
  exact append_append_eq_iff

theorem CraftingKeyInput.key_eq_iff (hsha : Digest sha256) (x y : CraftingKeyInput) :
    x.key sha256 = y.key sha256 ↔ x.Confused y := by
  have hcolon : utf8 (js ":") = [colon] := by decide
  unfold key craftingCacheKey Confused
  rw [hsha.injective.eq_iff, hcolon, List.append_assoc, List.append_assoc]
  exact append_cons_eq_iff

theorem ContextKeyInput.utf8_text (x : ContextKeyInput) :
    utf8 x.text = x.head ++ colon :: x.tail := by
  cases x with
  | question perImageQuestion positionInBatch =>
    rw [text, utf8_append_colon, utf8_numberString]
    rfl
  | adjacent adjacentText positionInBatch batchSize originalSystemPrompt =>
    rw [text, utf8_append_colon, utf8_append_colon, utf8_append_colon, utf8_numberString,
      utf8_numberString]
    simp only [head, tail, List.append_assoc, List.cons_append]

/-- The numbers are read back from the tail. -/
theorem ContextKeyInput.sameBytes_iff (x y : ContextKeyInput) :
    x.SameBytes y ↔ x.head = y.head ∧ x.tail = y.tail := by
  cases x with
  | question q p =>
    cases y with
    | question q' p' =>
      exact and_congr_right fun _ => numberBytes_injective.eq_iff.symm
    | adjacent a' p' n' s' =>
      refine ⟨False.elim, fun h => colon_not_mem_numberBytes p ?_⟩
      rw [show numberBytes p = _ from h.2]
      exact List.mem_append_right _ List.mem_cons_self
  | adjacent a p n s =>
    cases y with
    | question q' p' =>
      refine ⟨False.elim, fun h => colon_not_mem_numberBytes p' ?_⟩
      rw [show numberBytes p' = _ from h.2.symm]
      exact List.mem_append_right _ List.mem_cons_self
    | adjacent a' p' n' s' =>
      refine and_congr_right fun _ => ⟨?_, fun h => ?_⟩
      · rintro ⟨rfl, rfl, hs⟩
        simp only [tail, hs]
      · obtain ⟨hp, h⟩ := append_cons_inj_first (colon_not_mem_numberBytes p)
          (colon_not_mem_numberBytes p') h
        obtain ⟨hn, hs⟩ := append_cons_inj_first (colon_not_mem_numberBytes n)
          (colon_not_mem_numberBytes n') h
        exact ⟨numberBytes_injective hp, numberBytes_injective hn, hs⟩

theorem ContextKeyInput.key_eq_iff (hsha : Digest sha256) (x y : ContextKeyInput) :
    x.key sha256 = y.key sha256 ↔ x.Confused y := by
  unfold key Confused
  rw [hsha.injective.eq_iff, utf8_text, utf8_text, append_cons_eq_iff, sameBytes_iff]

theorem ImageKeyInput.key_eq_iff (hsha : Digest sha256) (x y : ImageKeyInput) :
    x.key sha256 = y.key sha256 ↔ x.Confused y := by
  unfold key Confused
  rw [hsha.injective.eq_iff, List.append_assoc, List.append_assoc]
  exact append_append_eq_iff

theorem bar_not_mem_numberBytes (n : ℕ) : (124 : UInt8) ∉ numberBytes n := by
  intro h
  have hdigit := numberBytes_digits n 124 h
  have hbar : (124 : UInt8).toNat = 124 := rfl
  omega

/-- The bytes of the prompt version and the model. -/
theorem utf8_promptVersion (n : ℕ) (modelId : JsString) :
    utf8 (js "|pv=" ++ numberString n ++ js "|model=" ++ modelId) =
      124 :: ((js "pv=").map UInt16.toUInt8 ++ (numberBytes n ++ 124 ::
        ((js "model=").map UInt16.toUInt8 ++ utf8 modelId))) := by
  have hpv : ∀ u ∈ js "|pv=", isAscii u = true := List.all_eq_true.mp (by decide)
  have hmodel : ∀ u ∈ js "|model=", isAscii u = true := List.all_eq_true.mp (by decide)
  rw [List.append_assoc, List.append_assoc, utf8_ascii_append hpv,
    utf8_ascii_append (numberString_ascii n), utf8_ascii_append hmodel]
  rfl

theorem DescriptionKeyInput.key_eq_iff (hsha : Digest sha256) (x y : DescriptionKeyInput) :
    x.key sha256 = y.key sha256 ↔ x.Confused y := by
  unfold key Confused
  rw [← ImageKeyInput.key_eq_iff hsha, hsha.injective.eq_iff, utf8_promptVersion,
    utf8_promptVersion, ← append_eq_iff_recut]
  constructor
  · intro h
    have hbase : ∀ x : ImageKeyInput, utf8 (x.key sha256) =
        (x.key sha256).map UInt16.toUInt8 := fun x => utf8_ascii (hsha.ascii _)
    simp only [hbase, List.append_assoc, List.cons_append] at h
    obtain ⟨himage, h⟩ := append_cons_inj_first (hsha.bar_not_mem _) (hsha.bar_not_mem _) h
    obtain ⟨hversion, h⟩ := append_cons_inj_first (bar_not_mem_numberBytes x.promptVersion)
      (bar_not_mem_numberBytes y.promptVersion) (List.append_cancel_left h)
    exact ⟨toUInt8_injOn_ascii (hsha.ascii _) (hsha.ascii _) himage,
      numberBytes_injective hversion, List.append_cancel_left h⟩
  · rintro ⟨himage, hversion, hrest⟩
    rw [himage, hversion]
    simp only [List.append_assoc, List.cons_append, hrest]

/-- Between texts of one length and counts of as many digits no byte moves. -/
theorem DecompositionKeyInput.not_confused_of_length {x y : DecompositionKeyInput}
    (htext : (utf8 x.adjacentText).length = (utf8 y.adjacentText).length)
    (hcount : (numberBytes x.imageCount).length = (numberBytes y.imageCount).length)
    (hne : ¬ (utf8 x.adjacentText = utf8 y.adjacentText ∧ x.imageCount = y.imageCount ∧
      utf8 x.originalSystemPrompt = utf8 y.originalSystemPrompt)) : ¬ x.Confused y := by
  rintro (⟨hsame, ⟨hdigits, hprompt⟩ | hspill | hspill⟩ | hspill | hspill)
  · exact hne ⟨hsame, numberBytes_injective hdigits, hprompt⟩
  · exact not_spills_of_length hcount hspill
  · exact not_spills_of_length hcount.symm hspill
  · exact not_spills_of_length htext hspill
  · exact not_spills_of_length htext.symm hspill

/-- Between prompts without a colon no byte moves. -/
theorem CraftingKeyInput.not_confused_of_colon {x y : CraftingKeyInput}
    (hx : colon ∉ utf8 x.originalSystemPrompt) (hy : colon ∉ utf8 y.originalSystemPrompt)
    (hne : ¬ (utf8 x.adjacentText = utf8 y.adjacentText ∧
      utf8 x.originalSystemPrompt = utf8 y.originalSystemPrompt)) : ¬ x.Confused y := by
  rintro (hsame | hoverlap | hoverlap)
  · exact hne hsame
  · exact not_overlaps_of_not_mem hx hoverlap
  · exact not_overlaps_of_not_mem hy hoverlap

/-- Every key tells two inputs apart exactly if they are not confused. -/
theorem cacheKeys_injective_iff (hsha : Digest sha256) :
    (∀ x y : DecompositionKeyInput,
      (x.key sha256 = y.key sha256 → x = y) ↔ x = y ∨ ¬ x.Confused y) ∧
    (∀ x y : CraftingKeyInput,
      (x.key sha256 = y.key sha256 → x = y) ↔ x = y ∨ ¬ x.Confused y) ∧
    (∀ x y : ContextKeyInput,
      (x.key sha256 = y.key sha256 → x = y) ↔ x = y ∨ ¬ x.Confused y) ∧
    (∀ x y : ImageKeyInput,
      (x.key sha256 = y.key sha256 → x = y) ↔ x = y ∨ ¬ x.Confused y) ∧
    ∀ x y : DescriptionKeyInput,
      (x.key sha256 = y.key sha256 → x = y) ↔ x = y ∨ ¬ x.Confused y := by
  refine ⟨fun x y => ?_, fun x y => ?_, fun x y => ?_, fun x y => ?_, fun x y => ?_⟩
  · rw [DecompositionKeyInput.key_eq_iff hsha, imp_iff_not_or, or_comm]
  · rw [CraftingKeyInput.key_eq_iff hsha, imp_iff_not_or, or_comm]
  · rw [ContextKeyInput.key_eq_iff hsha, imp_iff_not_or, or_comm]
  · rw [ImageKeyInput.key_eq_iff hsha, imp_iff_not_or, or_comm]
  · rw [DescriptionKeyInput.key_eq_iff hsha, imp_iff_not_or, or_comm]

end

/-! ## Two pairs of inputs -/

/-- Two questions about two images. -/
theorem questions_told_apart :
    DecompositionKeyInput.key hexDigest ⟨js "Which image is red?", 2, []⟩ ≠
      DecompositionKeyInput.key hexDigest ⟨js "Which image is blue", 2, []⟩ := by
  have hinj := ((cacheKeys_injective_iff digest_hexDigest).1 ⟨js "Which image is red?", 2, []⟩
    ⟨js "Which image is blue", 2, []⟩).mpr
      (.inr (DecompositionKeyInput.not_confused_of_length (by decide) rfl (by decide)))
  exact fun heq => absurd (hinj heq) (by decide)

/-- A digit moves from the count to the question, a word from the prompt. -/
theorem joints_are_confused :
    (DecompositionKeyInput.key hexDigest ⟨js "What is in image 1", 12, []⟩ =
        DecompositionKeyInput.key hexDigest ⟨js "What is in image 11", 2, []⟩ ∧
      DecompositionKeyInput.mk (js "What is in image 1") 12 [] ≠
        ⟨js "What is in image 11", 2, []⟩) ∧
    CraftingKeyInput.key hexDigest ⟨js "Is it safe", js "Role: cook"⟩ =
        CraftingKeyInput.key hexDigest ⟨js "Is it safe:Role", js " cook"⟩ ∧
      CraftingKeyInput.mk (js "Is it safe") (js "Role: cook") ≠ ⟨js "Is it safe:Role", js " cook"⟩
    := by
  refine ⟨⟨?_, by decide⟩, ?_, by decide⟩
  · exact congrArg hexDigest (by decide)
  · exact congrArg hexDigest (by decide)

end UmansGate.Vision
