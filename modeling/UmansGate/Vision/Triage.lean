/-
UmansGate.Vision.Triage — which strategy an image's call takes
(`src/vision/triage.ts`, and `resolveTriageStrategy` of
`src/vision/image-processor.ts`).

The regular expressions are case-insensitive over code units, which is ASCII
case only. `toLowerCase` also turns two other letters into ASCII ones; the
rest stays outside the ASCII terms it is searched for and is left alone.
The tunable lists are those of `DEFAULT_TRIAGE_CONFIG`.
-/
import UmansGate.Vision.Signal

namespace UmansGate.Vision

open UmansGate.Lib

inductive TriageStrategy where
  | generic
  | slotted
  | crafted
  | decomposed
  deriving DecidableEq, Repr

/-- `intentStrategy`. -/
inductive IntentStrategy where
  | off
  | slotted
  | crafted
  | auto
  deriving DecidableEq, Repr

structure TriageInput where
  adjacentText : Option JsString
  isToolResult : Bool
  imageCount : ℕ
  deriving DecidableEq, Repr

def minSpecificLength : ℕ := 40

def relationalTerms : List String :=
  ["compare", "contrast", "same as", "different from", "before", "after", "previous", "earlier",
    "consistent with", "match"]

def comparativeTerms : List String :=
  ["compare", "contrast", "which is", "which has", "brighter", "darker", "larger", "smaller",
    "the same", "different between"]

/-- `text.trim()`. -/
def trim (text : JsString) : JsString := ((skipSpace text).reverse.dropWhile isWhiteSpace).reverse

/-- A letter of `text.toLowerCase()`: the Kelvin sign and the dotted capital
I are the two that are no ASCII letters and become some. -/
def lowerUnit (u : UInt16) : JsString :=
  if u = 0x212A then [107]
  else if u = 0x130 then [105, 0x307]
  else [asciiLower u]

def toLowerCase (text : JsString) : JsString := text.flatMap lowerUnit

def includes (text : JsString) (term : String) : Bool := text.tails.any (js term).isPrefixOf

/-! ## The regular expressions -/

/-- The text behind a word, in either case. -/
def afterWord (word : String) (text : JsString) : Option JsString :=
  if (js word).isPrefixOf (text.map asciiLower) then some (text.drop (js word).length) else none

/-- The text behind `\s+`. -/
def afterSpaces (text : JsString) : Option JsString :=
  if text.head?.any isWhiteSpace then some (skipSpace text) else none

def isLetter (u : UInt16) : Bool := 97 ≤ asciiLower u && asciiLower u ≤ 122

def isDigit (u : UInt16) : Bool := 48 ≤ u && u ≤ 57

/-- `/^(describe|what.s in|what do you see|what is this|can you see)/i`. -/
def genericPhrasing (text : JsString) : Bool :=
  (["describe", "what do you see", "what is this", "can you see"].any
      fun phrase => (afterWord phrase text).isSome) ||
    (afterWord "what" text).any fun t =>
      t.head?.any (!isLineTerminator ·) && (afterWord "s in" t.tail).isSome

/-- `/image\s+[a-z]/i` and `/image\s+\d/i`. -/
def imageNamed (text : JsString) : Bool :=
  ((afterWord "image" text).bind afterSpaces).any fun t =>
    t.head?.any fun u => isLetter u || isDigit u

/-- `/the\s+(first|second|third|last)\s+(one|image)/i`. -/
def imageOrdinal (text : JsString) : Bool :=
  ((afterWord "the" text).bind afterSpaces).any fun t =>
    ["first", "second", "third", "last"].any fun ordinal =>
      ((afterWord ordinal t).bind afterSpaces).any fun t =>
        ["one", "image"].any fun noun => (afterWord noun t).isSome

/-- One of the image reference patterns matches. -/
def referencesImages (text : JsString) : Bool :=
  text.tails.any fun t => imageNamed t || imageOrdinal t

/-! ## The decision -/

def triageVision (input : TriageInput) : TriageStrategy :=
  let text := input.adjacentText.getD []
  if input.isToolResult then .generic
  else if trim text = [] then .generic
  else if genericPhrasing (trim text) then .generic
  else if input.imageCount > 1 then
    if comparativeTerms.any (includes (toLowerCase text)) then .generic
    else if referencesImages text then .decomposed
    else .slotted
  else if relationalTerms.any (includes (toLowerCase text)) then .crafted
  else if text.length > minSpecificLength then .crafted
  else .slotted

/-- A mode other than `auto` overrides the triage. -/
def resolveTriageStrategy (mode : IntentStrategy) (input : TriageInput) : TriageStrategy :=
  match mode with
  | .off => .generic
  | .slotted => if input.isToolResult then .generic else .slotted
  | .crafted =>
    if input.isToolResult then .generic
    else if input.imageCount ≤ 1 then .crafted else .slotted
  | .auto => triageVision input

example : triageVision ⟨some (js "Is the LAST one a cat?"), false, 2⟩ = .decomposed := by
  decide +kernel

section

variable {mode : IntentStrategy} {input : TriageInput}

/-- A batch of one is never decomposed. -/
theorem imageCount_of_decomposed (h : resolveTriageStrategy mode input = .decomposed) :
    1 < input.imageCount := by
  cases mode with
  | off => simp [resolveTriageStrategy] at h
  | slotted =>
    simp only [resolveTriageStrategy] at h
    split_ifs at h
  | crafted =>
    simp only [resolveTriageStrategy] at h
    split_ifs at h
  | auto =>
    by_contra hle
    simp only [resolveTriageStrategy, triageVision, if_neg hle] at h
    split_ifs at h

/-- The question of a batch of several is never crafted. -/
theorem imageCount_of_crafted (h : resolveTriageStrategy mode input = .crafted) :
    input.imageCount ≤ 1 := by
  cases mode with
  | off => simp [resolveTriageStrategy] at h
  | slotted =>
    simp only [resolveTriageStrategy] at h
    split_ifs at h
  | crafted =>
    by_contra hgt
    simp only [resolveTriageStrategy, if_neg hgt] at h
    split_ifs at h
  | auto =>
    by_contra hgt
    have hlt : input.imageCount > 1 := by omega
    simp only [resolveTriageStrategy, triageVision, if_pos hlt] at h
    split_ifs at h

end

end UmansGate.Vision
