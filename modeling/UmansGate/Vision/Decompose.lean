/-
UmansGate.Vision.Decompose — the sub-questions of a batch of images
(`src/vision/decompose.ts`).

The call to the model is a parameter: what the content of its answer parses
to, none where the gate refuses the call, where the call fails, and where
there is no content or the content is no JSON.
-/
import UmansGate.Vision.ImageProcessor

namespace UmansGate.Vision

open UmansGate.Lib

/-- A sub-question is a string that is not empty. -/
def subQuestion? : Json → Option JsString
  | .str q => if q = [] then none else some q
  | _ => none

def decomposeIfNeeded (imageCount : ℕ) (parsed : Option Json) : Option (List JsString) :=
  if imageCount ≤ 1 then none
  else
    match parsed with
    | some (.arr items) => if items.length = imageCount then items.mapM subQuestion? else none
    | _ => none

def decompositionCacheKey (sha256 : List UInt8 → JsString) (adjacentText : JsString)
    (imageCount : ℕ) (originalSystemPrompt : Option JsString) : JsString :=
  sha256 (utf8 adjacentText ++ utf8 (numberString imageCount) ++
    utf8 (originalSystemPrompt.getD []))

theorem length_of_mapM {items : List Json} {questions : List JsString}
    (h : items.mapM subQuestion? = some questions) : questions.length = items.length := by
  induction items generalizing questions with
  | nil =>
    cases h
    rfl
  | cons item rest ih =>
    rw [List.mapM_cons] at h
    obtain ⟨q, _, h⟩ := Option.bind_eq_some_iff.mp h
    obtain ⟨qs, hrest, h⟩ := Option.bind_eq_some_iff.mp h
    cases h
    rw [List.length_cons, List.length_cons, ih hrest]

theorem length_of_decomposeIfNeeded {imageCount : ℕ} {parsed : Option Json}
    {questions : List JsString} (h : decomposeIfNeeded imageCount parsed = some questions) :
    questions.length = imageCount := by
  unfold decomposeIfNeeded at h
  split at h
  · exact absurd h (by simp)
  · split at h
    · rename_i items
      split at h
      · rename_i hlength
        exact (length_of_mapM h).trans hlength
      · exact absurd h (by simp)
    · exact absurd h (by simp)

theorem mapM_subQuestion? (questions : List JsString) (h : ∀ q ∈ questions, q ≠ []) :
    (questions.map Json.str).mapM subQuestion? = some questions := by
  induction questions with
  | nil => rfl
  | cons q rest ih =>
    have hq : subQuestion? (.str q) = some q := if_neg (h q List.mem_cons_self)
    rw [List.map_cons, List.mapM_cons, hq, ih fun r hr => h r (List.mem_cons_of_mem q hr)]
    rfl

/-- Any list of questions is the answer to some call. -/
theorem decomposeIfNeeded_answer {imageCount : ℕ} {questions : List JsString}
    (hmany : 1 < imageCount) (hlength : questions.length = imageCount)
    (h : ∀ q ∈ questions, q ≠ []) :
    decomposeIfNeeded imageCount (some (.arr (questions.map Json.str))) = some questions := by
  unfold decomposeIfNeeded
  rw [if_neg (by omega)]
  exact (if_pos ((List.length_map Json.str).trans hlength)).trans (mapM_subQuestion? questions h)

end UmansGate.Vision
