/-
UmansGate.Vision.Signal — the cheap image signal (`src/vision/detect.ts`).

The signal searches the text of a body for two patterns. Over the text that
`JSON.stringify` writes they are statements about properties
(`cheapImageSignal_stringify`): a `type` with the value `image_url`, or a
`type` with the value `image` that has a `source` directly behind it. The
finders look the properties up by name, so an Anthropic image with its
properties in another order is found and not signalled
(`signal_misses_reordered_image`).
-/
import UmansGate.Lib.JsonScan
import UmansGate.Vision.FinderTheorems

namespace UmansGate.Vision

open UmansGate.Lib

/-- The units that `\s` matches. -/
def isWhiteSpace (u : UInt16) : Bool :=
  u ∈ ([9, 10, 11, 12, 13, 32, 0xA0, 0x1680, 0x2028, 0x2029, 0x202F, 0x205F, 0x3000,
    0xFEFF] : List UInt16) || (0x2000 ≤ u && u ≤ 0x200A)

def skipSpace (text : JsString) : JsString := text.dropWhile isWhiteSpace

/-- The text behind `\s*c`. -/
def afterUnit (c : UInt16) (text : JsString) : Option JsString :=
  match skipSpace text with
  | u :: rest => if u = c then some rest else none
  | [] => none

/-- `\s*:\s*"image_url"`. -/
def followsImageUrl (text : JsString) : Bool :=
  (afterUnit 58 text).any fun t => startsWithQuoted (js "image_url") (skipSpace t)

/-- `\s*:\s*"image"\s*,\s*"source"`. -/
def followsImageSource (text : JsString) : Bool :=
  (afterUnit 58 text).any fun t =>
    startsWithQuoted (js "image") (skipSpace t) &&
      (afterUnit 44 ((skipSpace t).drop 7)).any fun t =>
        startsWithQuoted (js "source") (skipSpace t)

def cheapImageSignal (bodyStr : JsString) : Bool :=
  search (js "type") followsImageUrl bodyStr || search (js "type") followsImageSource bodyStr

/-! ## The signal over a value -/

/-- The value of an image part's `type`. -/
def imageUrlField (v : Json) (_ : List (JsString × Json)) : Bool := v.isStr (js "image_url")

/-- The value of an image block's `type`, with its source directly behind
it. -/
def imageSourceField (v : Json) (rest : List (JsString × Json)) : Bool :=
  v.isStr (js "image") && rest.head?.any fun field => field.1 = js "source"

/-- Somewhere in the body stands a field that the signal looks for. -/
def signalled (body : Json) : Bool :=
  hasField (js "type") imageUrlField body || hasField (js "type") imageSourceField body

section

variable {v : Json} {R : JsString} {rest : List (JsString × Json)} {c : UInt16}

theorem skipSpace_of_head (h : ∀ u ∈ R.head?, isWhiteSpace u = false) : skipSpace R = R := by
  cases R with
  | nil => rfl
  | cons u t => simp [skipSpace, h u rfl]

theorem skipSpace_stringify (v : Json) (hR : Ends R) :
    skipSpace (stringify v ++ R) = stringify v ++ R := by
  have hunits : ∀ u ∈ firstUnits, isWhiteSpace u = false :=
    List.all_iff_forall_prop.mp (by decide)
  exact skipSpace_of_head fun u hu => hunits u (stringify_first v hR u hu).1

/-- Behind a value stands no colon. -/
theorem afterUnit_ends (hR : Ends R) : afterUnit 58 R = none := by
  unfold afterUnit
  cases R with
  | nil => rfl
  | cons u t =>
    have hunits : ∀ u ∈ ([44, 93, 125] : List UInt16), isWhiteSpace u = false ∧ u ≠ 58 :=
      List.all_iff_forall_prop.mp (by decide)
    have hu := hunits u (by
      rcases hR u rfl with rfl | rfl | rfl
      · simp
      · simp
      · simp)
    rw [skipSpace_of_head (by
      intro x hx
      cases hx
      exact hu.1)]
    simp [hu.2]

theorem afterUnit_self (hc : isWhiteSpace c = false) (t : JsString) :
    afterUnit c (c :: t) = some t := by
  unfold afterUnit
  rw [skipSpace_of_head (by
    intro x hx
    cases hx
    exact hc)]
  simp

theorem followsImageUrl_field (v : Json) (rest : List (JsString × Json)) (R : JsString) :
    followsImageUrl (js ":" ++ (stringify v ++ fieldTail rest R)) = imageUrlField v rest := by
  have hends := ends_fieldTail rest R
  unfold followsImageUrl imageUrlField
  rw [show js ":" ++ (stringify v ++ fieldTail rest R) =
    58 :: (stringify v ++ fieldTail rest R) from rfl, afterUnit_self (by decide)]
  rw [Option.any_some, skipSpace_stringify v hends]
  exact startsWithQuoted_stringify (by decide) v hends

/-- Behind a value stands the name of the next property. -/
theorem afterUnit_fieldTail (rest : List (JsString × Json)) (R : JsString) :
    ((afterUnit 44 (fieldTail rest R)).any fun t => startsWithQuoted (js "source") (skipSpace t)) =
      rest.head?.any fun field => field.1 = js "source" := by
  cases rest with
  | nil =>
    have hbrace : afterUnit 44 (fieldTail [] R) = none := by
      unfold afterUnit
      rw [skipSpace_of_head (by
        intro x hx
        cases hx
        decide)]
      rfl
    rw [hbrace]
    rfl
  | cons field rest =>
    obtain ⟨key, v⟩ := field
    have hquote : isWhiteSpace quote = false := by
      decide
    have hfield := fieldsText_cons key v rest R
    rw [fieldTail, show js "," ++ (fieldsText ((key, v) :: rest) ++ (js "\x7d" ++ R)) =
      44 :: (fieldsText ((key, v) :: rest) ++ (js "\x7d" ++ R)) from rfl,
      afterUnit_self (by decide), hfield, Option.any_some,
      skipSpace_of_head (by
        intro x hx
        cases hx
        exact hquote),
      startsWithQuoted_quoteString (by decide)]
    rfl

theorem followsImageSource_field (v : Json) (rest : List (JsString × Json)) (R : JsString) :
    followsImageSource (js ":" ++ (stringify v ++ fieldTail rest R)) = imageSourceField v rest := by
  have hends := ends_fieldTail rest R
  unfold followsImageSource imageSourceField
  rw [show js ":" ++ (stringify v ++ fieldTail rest R) =
    58 :: (stringify v ++ fieldTail rest R) from rfl, afterUnit_self (by decide)]
  rw [Option.any_some, skipSpace_stringify v hends,
    startsWithQuoted_stringify (by decide) v hends]
  cases hv : v.isStr (js "image") with
  | false => rfl
  | true =>
    have hstr : v = .str (js "image") := by
      cases v with
      | str s => exact congrArg Json.str (of_decide_eq_true hv)
      | _ => exact absurd hv (by simp [Json.isStr])
    have hdrop : (stringify v ++ fieldTail rest R).drop 7 = fieldTail rest R := by
      rw [hstr]
      rfl
    rw [hdrop, afterUnit_fieldTail]

/-- The signal on the text of a body is a statement about its properties. -/
theorem cheapImageSignal_stringify (body : Json) :
    cheapImageSignal (stringify body) = signalled body := by
  have hends : Ends [] := fun u hu => absurd hu (by simp)
  have hword : IsWord (js "type") := by
    decide
  have hurl : ∀ R, Ends R → followsImageUrl R = false := by
    intro R hR
    rw [followsImageUrl, afterUnit_ends hR]
    rfl
  have hsource : ∀ R, Ends R → followsImageSource R = false := by
    intro R hR
    rw [followsImageSource, afterUnit_ends hR]
    rfl
  have hfirst := search_stringify hword hurl followsImageUrl_field body [] hends
  have hsecond := search_stringify hword hsource followsImageSource_field body [] hends
  rw [List.append_nil, search_nil, Bool.or_false] at hfirst hsecond
  rw [cheapImageSignal, hfirst, hsecond, signalled]

/-! ## The signal and the finders -/

variable {kind : ApiKind} {body : Json} {test : Json → List (JsString × Json) → Bool}

/-- A field in a slot is a field of the array. -/
theorem itemsHaveField_of_slot (kind : ApiKind) (content : List Json) (level : Level) (i : ℕ) :
    ∀ s ∈ slotsIn kind level i content, hasField (js "type") test s.2 = true →
      itemsHaveField (js "type") test content = true := by
  induction content, level, i using slotInduction kind with
  | nil level i => simp
  | slot level i part rest hslot ih =>
    rw [slotsIn_slot hslot]
    intro s hs h
    rw [itemsHaveField, Bool.or_eq_true]
    rcases List.mem_cons.mp hs with rfl | hs
    · exact .inl h
    · exact .inr (ih s hs h)
  | nested level i part items rest hslot hn ihitems ih =>
    rw [slotsIn_nested hslot hn]
    intro s hs h
    rw [itemsHaveField, Bool.or_eq_true]
    rcases List.mem_append.mp hs with hs | hs
    · obtain ⟨t, ht, rfl⟩ := List.mem_map.mp hs
      have hcontent := Json.items?_eq_some.mp (items?_of_nested? hn)
      exact .inl (hasField_of_get? hcontent (.inl (ihitems t ht h)))
    · exact .inr (ih s hs h)
  | other level i part rest hslot hn ih =>
    rw [slotsIn_other hslot hn]
    intro s hs h
    rw [itemsHaveField, Bool.or_eq_true]
    exact .inr (ih s hs h)

theorem hasField_of_slot {s : List ℕ × Json} (hs : s ∈ slots kind body)
    (h : hasField (js "type") test s.2 = true) : hasField (js "type") test body = true := by
  unfold slots at hs
  cases hmessages : body.items? (js "messages") with
  | none =>
    rw [hmessages] at hs
    exact absurd hs (by simp)
  | some messages =>
    rw [hmessages] at hs
    exact hasField_of_get? (Json.items?_eq_some.mp hmessages)
      (.inl (itemsHaveField_of_slot kind messages .messages 0 s hs h))

/-- An OpenAI image part is signalled. -/
theorem signalled_of_openai (h : slots .openai body ≠ []) : signalled body = true := by
  obtain ⟨s, hs⟩ := List.exists_mem_of_ne_nil _ h
  have htype : hasType s.2 "image_url" = true := slotsIn_hasType .openai _ _ _ s hs
  have hfield : hasField (js "type") imageUrlField s.2 = true := by
    unfold hasType Json.str? at htype
    rw [decide_eq_true_eq] at htype
    split at htype
    · rename_i text hget
      cases htype
      have hname : looksLike (js "type") (js "type") = true := by
        decide
      have htest : (Json.str (js "image_url")).isStr (js "image_url") = true := by
        decide
      exact hasField_of_get? hget (.inr ⟨hname, fun _ => htest⟩)
    · exact absurd htype (by simp)
  rw [signalled, hasField_of_slot hs hfield, Bool.true_or]

theorem findImageParts_eq_nil (kind : ApiKind) (body : Json) :
    findImageParts kind body = [] ↔ partSlots kind body = [] := by
  have hlength := (finds_partSlots kind body).length_eq
  rw [← List.length_eq_zero_iff, ← hlength, List.length_eq_zero_iff]

/-- The signal is there for every body with images exactly when the body has
no Anthropic image or one of the fields that the signal looks for. -/
theorem signal_complete_iff (body : Json) :
    (findAnthropicImageParts body DEFAULT_MAX_CHARS ≠ [] ∨
        findOpenAIImageParts body DEFAULT_MAX_CHARS ≠ [] →
      cheapImageSignal (stringify body) = true) ↔
      (partSlots .anthropic body = [] ∨ signalled body = true) := by
  have hanthropic := findImageParts_eq_nil .anthropic body
  have hopenai := findImageParts_eq_nil .openai body
  rw [cheapImageSignal_stringify]
  constructor
  · intro h
    by_cases hnone : partSlots .anthropic body = []
    · exact .inl hnone
    · exact .inr (h (.inl fun hfind => hnone (hanthropic.mp hfind)))
  · rintro (hnone | hsignal) hfind
    · rcases hfind with hfind | hfind
      · exact absurd (hanthropic.mpr hnone) hfind
      · refine signalled_of_openai fun hslots => hfind (hopenai.mpr ?_)
        rw [partSlots, hslots, List.filter_nil]
    · exact hsignal

/-- An image whose source stands before its type. -/
def reorderedImage : Json :=
  .obj [(js "messages", .arr [.obj [(js "role", .str (js "user")), (js "content", .arr [
    .obj [(js "source", .obj [(js "type", .str (js "url")), (js "url", .str (js "u"))]),
      (js "type", .str (js "image"))]])]])]

theorem signal_misses_reordered_image :
    ¬ (findAnthropicImageParts reorderedImage DEFAULT_MAX_CHARS ≠ [] ∨
        findOpenAIImageParts reorderedImage DEFAULT_MAX_CHARS ≠ [] →
      cheapImageSignal (stringify reorderedImage) = true) := by
  have hparts : findAnthropicImageParts reorderedImage DEFAULT_MAX_CHARS ≠ [] := by
    decide +kernel
  have hsignal : cheapImageSignal (stringify reorderedImage) = false := by
    decide
  intro h
  exact absurd (h (.inl hparts)) (by simp [hsignal])

end

end UmansGate.Vision
