/-
UmansGate.Vision.RequestTheorems — when two images with the same description
key send the same request.

The key of an image in its context is hashed from one of three texts: none,
the sub-question with its position, or the adjacent text with the position,
the size of the batch and the system prompt. The request is built from the
fields themselves. Two contexts with one key are told apart by what the text
leaves out (the system prompt and the size of the batch beside a
sub-question, all fields of an image without adjacent text, the messages that
shape a crafted question) and by what it runs together: the fields are
joined by `:`, which each of them may hold, and a lone surrogate is hashed as
U+FFFD.

SHA-256 is assumed to be injective, with hexadecimal digests (`Digest`).
-/
import Mathlib.Data.List.Infix
import UmansGate.Lib.JsonObject
import UmansGate.Lib.JsonQuote
import UmansGate.Vision.ImageProcessor

namespace UmansGate.Vision

open UmansGate.Lib

/-- A digest: no two inputs have the same, and it is a text of hexadecimal
digits. -/
structure Digest (sha256 : List UInt8 → JsString) : Prop where
  injective : Function.Injective sha256
  hex : ∀ bytes, ∀ u ∈ sha256 bytes, 48 ≤ u ∧ u ≤ 57 ∨ 97 ≤ u ∧ u ≤ 102
  ne_nil : ∀ bytes, sha256 bytes ≠ []

/-! ## Numbers -/

theorem numberString_eq (n : ℕ) :
    numberString n = (Nat.toDigits 10 n).map fun c => c.toNat.toUInt16 :=
  Json.indexKey_eq n

theorem numberString_digits (n : ℕ) : ∀ u ∈ numberString n, 48 ≤ u.toNat ∧ u.toNat ≤ 57 := by
  intro u hu
  rw [numberString_eq] at hu
  obtain ⟨c, hc, rfl⟩ := List.mem_map.mp hu
  have hdigit := Json.toNat_of_mem_toDigits hc
  simp only [Nat.toUInt16, UInt16.toNat_ofNat']
  omega

theorem numberString_ne_nil (n : ℕ) : numberString n ≠ [] := by
  rw [numberString_eq]
  simp [Nat.toDigits_ne_nil]

theorem numberString_injective : Function.Injective numberString := Json.indexKey_injective

theorem isAscii_of_digit {u : UInt16} (h : 48 ≤ u.toNat ∧ u.toNat ≤ 57) : isAscii u = true := by
  simp only [isAscii, decide_eq_true_eq, UInt16.lt_iff_toNat_lt]
  have hbound : (0x80 : UInt16).toNat = 128 := rfl
  omega

theorem numberString_ascii (n : ℕ) : ∀ u ∈ numberString n, isAscii u = true :=
  fun u hu => isAscii_of_digit (numberString_digits n u hu)

/-- The bytes of a number. -/
def numberBytes (n : ℕ) : List UInt8 := (numberString n).map UInt16.toUInt8

theorem utf8_numberString (n : ℕ) : utf8 (numberString n) = numberBytes n :=
  utf8_ascii (numberString_ascii n)

theorem numberBytes_digits (n : ℕ) : ∀ b ∈ numberBytes n, 48 ≤ b.toNat ∧ b.toNat ≤ 57 := by
  intro b hb
  obtain ⟨u, hu, rfl⟩ := List.mem_map.mp hb
  have hdigit := numberString_digits n u hu
  rw [UInt16.toNat_toUInt8]
  omega

theorem numberBytes_injective : Function.Injective numberBytes := fun m n h =>
  numberString_injective (toUInt8_injOn_ascii (numberString_ascii m) (numberString_ascii n) h)

/-- The byte of `:`. -/
def colon : UInt8 := 58

theorem colon_not_mem_numberBytes (n : ℕ) : colon ∉ numberBytes n := by
  intro h
  have hdigit := numberBytes_digits n colon h
  have hcolon : colon.toNat = 58 := rfl
  omega

theorem utf8_append_colon (x y : JsString) :
    utf8 (x ++ js ":" ++ y) = utf8 x ++ colon :: utf8 y := by
  have h := utf8_append_cons (c := 58) (by decide) x y
  rwa [List.append_assoc]

/-! ## Keys -/

section

variable {sha256 : List UInt8 → JsString} {config : VisionCallConfig} {a b : VisionContext}
  {bytes bytes' : List UInt8}

theorem Digest.ascii (hsha : Digest sha256) (bytes : List UInt8) :
    ∀ u ∈ sha256 bytes, isAscii u = true := by
  intro u hu
  simp only [isAscii, decide_eq_true_eq, UInt16.lt_iff_toNat_lt]
  have hbound : (0x80 : UInt16).toNat = 128 := rfl
  have h57 : (57 : UInt16).toNat = 57 := rfl
  have h102 : (102 : UInt16).toNat = 102 := rfl
  rcases hsha.hex bytes u hu with h | h
  · have hle := UInt16.le_iff_toNat_le.mp h.2
    omega
  · have hle := UInt16.le_iff_toNat_le.mp h.2
    omega

/-- The byte of `|` ends a digest. -/
theorem Digest.bar_not_mem (hsha : Digest sha256) (bytes : List UInt8) :
    (124 : UInt8) ∉ (sha256 bytes).map UInt16.toUInt8 := by
  intro h
  obtain ⟨u, hu, hbar⟩ := List.mem_map.mp h
  have hnat := congrArg UInt8.toNat hbar
  rw [UInt16.toNat_toUInt8] at hnat
  have h124 : (124 : UInt8).toNat = 124 := rfl
  have h57 : (57 : UInt16).toNat = 57 := rfl
  have h102 : (102 : UInt16).toNat = 102 := rfl
  rcases hsha.hex bytes u hu with h | h
  · have hle := UInt16.le_iff_toNat_le.mp h.2
    omega
  · have hle := UInt16.le_iff_toNat_le.mp h.2
    omega

/-- The end of a description key's input. -/
theorem contextBytes_inj (hsha : Digest sha256) {s t : Option JsString}
    (h : (match truthy? (s.map fun text => sha256 (utf8 text)) with
        | some hash => utf8 (js "|ctx=" ++ hash)
        | none => []) =
      match truthy? (t.map fun text => sha256 (utf8 text)) with
        | some hash => utf8 (js "|ctx=" ++ hash)
        | none => []) :
    s.map utf8 = t.map utf8 := by
  have hprefix : ∀ u ∈ js "|ctx=", isAscii u = true := List.all_eq_true.mp (by decide)
  have hbytes : ∀ text : JsString, (match truthy? (some (sha256 (utf8 text))) with
      | some hash => utf8 (js "|ctx=" ++ hash)
      | none => []) =
      (js "|ctx=").map UInt16.toUInt8 ++ (sha256 (utf8 text)).map UInt16.toUInt8 := by
    intro text
    rw [truthy?_some (hsha.ne_nil _)]
    exact (utf8_ascii_append hprefix _).trans (by rw [utf8_ascii (hsha.ascii _)])
  cases s with
  | none =>
    cases t with
    | none => rfl
    | some t =>
      rw [Option.map_some, hbytes] at h
      have hnil := (List.append_eq_nil_iff.mp h.symm).2
      exact absurd (List.map_eq_nil_iff.mp hnil) (hsha.ne_nil _)
  | some s =>
    cases t with
    | none =>
      rw [Option.map_some, hbytes] at h
      have hnil := (List.append_eq_nil_iff.mp h).2
      exact absurd (List.map_eq_nil_iff.mp hnil) (hsha.ne_nil _)
    | some t =>
      rw [Option.map_some, Option.map_some, hbytes, hbytes, List.append_cancel_left_eq] at h
      have hdigest := toUInt8_injOn_ascii (hsha.ascii _) (hsha.ascii _) h
      rw [Option.map_some, Option.map_some, hsha.injective hdigest]

/-- A description key determines the image and the bytes of the text that
was hashed for its context. -/
theorem descriptionCacheKey_inj (hsha : Digest sha256)
    (h : descriptionCacheKey sha256 config bytes (contextHash sha256 config a) =
      descriptionCacheKey sha256 config bytes' (contextHash sha256 config b)) :
    bytes = bytes' ∧
      (contextText config a).map utf8 = (contextText config b).map utf8 := by
  have hinput := hsha.injective h
  have hbase : ∀ bytes, utf8 (imageCacheKey sha256 config bytes) =
      (sha256 (bytes ++ utf8 (recipeText config) ++ utf8 ENCODER_VERSION)).map UInt16.toUInt8 :=
    fun _ => utf8_ascii (hsha.ascii _)
  have hmiddle : ∀ rest : JsString, utf8 (js "|pv=" ++ rest) =
      124 :: utf8 (js "pv=" ++ rest) := fun rest => utf8_cons (c := 124) (by decide) _
  simp only [hbase, List.append_assoc, hmiddle, List.cons_append] at hinput
  obtain ⟨hbaseEq, hrest⟩ :=
    append_cons_inj_first (hsha.bar_not_mem _) (hsha.bar_not_mem _) hinput
  refine ⟨?_, contextBytes_inj hsha (List.append_cancel_left hrest)⟩
  have hdigest := toUInt8_injOn_ascii (hsha.ascii _) (hsha.ascii _) hbaseEq
  exact List.append_cancel_right (hsha.injective hdigest)

end

/-! ## Request bodies -/

section

variable {config : VisionCallConfig} {model url system text system' text' : JsString}
  {messages messages' : List Json}

/-- Behind the model two request bodies differ in their messages only. -/
theorem stringify_reqBody_inj
    (h : stringify (reqBody config model messages) = stringify (reqBody config model messages')) :
    ∃ R, itemsText messages ++ R = itemsText messages' ++ R := by
  unfold reqBody at h
  generalize config.reasoningEffort = reasoningEffort at h
  cases reasoningEffort with
  | none =>
    refine ⟨js "]" ++ js "\x7d", ?_⟩
    simpa [stringify, fieldsText, List.append_assoc] using h
  | some effort =>
    refine ⟨js "]" ++ (js "," ++ (fieldsText [(js "reasoning_effort", .str effort)] ++
      js "\x7d")), ?_⟩
    simpa [stringify, fieldsText, List.append_assoc] using h

theorem askedBody_inj
    (h : stringify (askedBody config model url system text) =
      stringify (askedBody config model url system' text')) :
    system = system' ∧ text = text' := by
  obtain ⟨R, hR⟩ := stringify_reqBody_inj h
  simp only [itemsText, stringify, fieldsText, userMessage, textBlock, List.append_assoc,
    List.append_cancel_left_eq] at hR
  obtain ⟨hsystem, hR⟩ := quoteString_append_inj hR
  simp only [List.append_cancel_left_eq] at hR
  obtain ⟨htext, -⟩ := quoteString_append_inj hR
  exact ⟨hsystem, htext⟩

/-- A generic request begins with the message of the user. -/
theorem stringify_askedBody_ne :
    stringify (askedBody config model url system text) ≠
      stringify (genericBody config model url) := by
  intro h
  obtain ⟨R, hR⟩ := stringify_reqBody_inj h
  simp only [itemsText, stringify, fieldsText, userMessage, List.append_assoc,
    List.append_cancel_left_eq] at hR
  exact absurd (quoteString_append_inj hR).1 (by decide)

end

section

variable {sha256 : List UInt8 → JsString} {config : VisionCallConfig}
  {craft : JsString → Option JsString} {craftingCache craftingCache' : Dict JsString JsString}
  {encodeBase64 : List UInt8 → JsString} {imageBytes : List UInt8} {a b : VisionContext}

/-- No request is sent without a target and a model. -/
def Configured (config : VisionCallConfig) : Prop :=
  truthy? config.target ≠ none ∧ truthy? config.model ≠ none

/-- For one image the request bodies are equal when what is asked is. -/
theorem requestBody_eq_iff :
    requestBody sha256 config craft craftingCache encodeBase64 imageBytes a =
        requestBody sha256 config craft craftingCache' encodeBase64 imageBytes b ↔
      ¬ Configured config ∨
        asked? sha256 config craft craftingCache a =
          asked? sha256 config craft craftingCache' b := by
  unfold requestBody Configured
  cases truthy? config.target with
  | none => simp
  | some target =>
    cases truthy? config.model with
    | none => simp
    | some model =>
      simp only [ne_eq, reduceCtorEq, not_false_eq_true, and_self, not_true_eq_false, false_or]
      constructor
      · intro h
        cases ha : asked? sha256 config craft craftingCache a with
        | none =>
          cases hb : asked? sha256 config craft craftingCache' b with
          | none => rfl
          | some asked =>
            rw [ha, hb] at h
            exact absurd h.symm stringify_askedBody_ne
        | some asked =>
          cases hb : asked? sha256 config craft craftingCache' b with
          | none =>
            rw [ha, hb] at h
            exact absurd h stringify_askedBody_ne
          | some asked' =>
            rw [ha, hb] at h
            obtain ⟨hsystem, htext⟩ := askedBody_inj h
            rw [Prod.ext hsystem htext]
      · intro h
        rw [h]

end

/-! ## What is asked -/

section

variable (sha256 : List UInt8 → JsString) (config : VisionCallConfig)
  (craft : JsString → Option JsString) (craftingCache : Dict JsString JsString)

/-- The conversation's intent, as far as it is stated. -/
def intent (context : VisionContext) : Option JsString := truthy? context.originalSystemPrompt

/-- The place of an image in a batch of several. -/
def place (context : VisionContext) : Option (ℕ × ℕ) :=
  if context.batchSize > 1 then some (context.positionInBatch, context.batchSize) else none

/-- The question of a request without a sub-question: the crafted one, or the
adjacent text as data. -/
def questionText (context : VisionContext) : JsString :=
  (craftedQuestion sha256 config craft craftingCache context).getD
    (slottedText (context.adjacentText.getD []))

/-- What the text that is hashed for a context is made of. -/
inductive KeySource where
  | image
  | adjacent
  | question
  deriving DecidableEq, Repr

def keySource (context : VisionContext) : KeySource :=
  if strategy config context = .generic then .image
  else
    match perImageQuestion? config context, truthy? context.adjacentText with
    | some _, _ => .question
    | none, some _ => .adjacent
    | none, none => .image

variable {sha256 config craft craftingCache} {a b context : VisionContext} {question : JsString}

theorem strategy_of_perImageQuestion? (h : perImageQuestion? config context = some question) :
    strategy config context = .decomposed := by
  unfold perImageQuestion? at h
  split at h
  · rename_i hstrategy
    exact hstrategy
  · cases h

theorem strategy_of_craftedQuestion
    (h : craftedQuestion sha256 config craft craftingCache context = some question) :
    strategy config context = .crafted ∧ truthy? context.adjacentText ≠ none := by
  unfold craftedQuestion at h
  split at h
  · rename_i adjacentText hstrategy htext
    exact ⟨hstrategy, by simp [htext]⟩
  · cases h

theorem batchContext_of_crafted (h : strategy config context = .crafted) :
    batchContext context = [] := by
  have hcount : context.batchSize ≤ 1 := imageCount_of_crafted h
  exact if_neg (by omega)

theorem asked?_generic (h : strategy config context = .generic) :
    asked? sha256 config craft craftingCache context = none := by
  have hcrafted : craftedQuestion sha256 config craft craftingCache context = none := by
    simp [craftedQuestion, h]
  have hquestion : perImageQuestion? config context = none := by
    simp [perImageQuestion?, h]
  unfold asked?
  rw [hcrafted, hquestion]
  exact if_pos h

/-- Every other request states the place in the batch and the intent, and
asks the sub-question or the question. -/
theorem asked?_of_ne_generic (h : strategy config context ≠ .generic) :
    asked? sha256 config craft craftingCache context =
      some (config.prompt ++ batchContext context ++ sysPromptSuffix context,
        (perImageQuestion? config context).getD
          (questionText sha256 config craft craftingCache context)) := by
  unfold asked? questionText
  cases hcrafted : craftedQuestion sha256 config craft craftingCache context with
  | some question =>
    have hstrategy := (strategy_of_craftedQuestion hcrafted).1
    have hnone : perImageQuestion? config context = none := by
      simp [perImageQuestion?, hstrategy]
    rw [hnone, batchContext_of_crafted hstrategy, List.append_nil]
    rfl
  | none =>
    cases perImageQuestion? config context with
    | some question => rfl
    | none => exact if_neg h

/-! ## The system message -/

theorem sysPromptSuffix_inj (h : sysPromptSuffix a = sysPromptSuffix b) : intent a = intent b := by
  unfold sysPromptSuffix at h
  unfold intent
  cases ha : truthy? a.originalSystemPrompt with
  | none =>
    cases hb : truthy? b.originalSystemPrompt with
    | none => rfl
    | some prompt =>
      rw [ha, hb] at h
      exact absurd (List.append_eq_nil_iff.mp h.symm).2 (by decide)
  | some prompt =>
    cases hb : truthy? b.originalSystemPrompt with
    | none =>
      rw [ha, hb] at h
      exact absurd (List.append_eq_nil_iff.mp h).2 (by decide)
    | some prompt' =>
      rw [ha, hb] at h
      simp only [List.append_cancel_right_eq, List.append_cancel_left_eq] at h
      rw [h]

theorem sysPromptSuffix_congr (h : intent a = intent b) :
    sysPromptSuffix a = sysPromptSuffix b := by
  unfold intent at h
  unfold sysPromptSuffix
  rw [h]

theorem batchContext_congr (h : place a = place b) : batchContext a = batchContext b := by
  unfold place at h
  unfold batchContext
  split at h
  · split at h
    · rename_i hb
      simp only [Option.some.injEq, Prod.mk.injEq] at h
      rw [if_pos (by assumption), if_pos hb, h.1, h.2]
    · cases h
  · split at h
    · cases h
    · rename_i hb
      rw [if_neg (by assumption), if_neg hb]

/-- The suffix does not begin as the batch context does. -/
theorem batchContext_append_ne (hb : place b = none) (hne : place a ≠ none) :
    batchContext a ++ sysPromptSuffix a ≠ batchContext b ++ sysPromptSuffix b := by
  intro h
  have ha : a.batchSize > 1 := by
    by_contra hle
    exact hne (if_neg hle)
  have hb' : ¬ b.batchSize > 1 := by
    intro hgt
    rw [place, if_pos hgt] at hb
    cases hb
  have hheadA : (batchContext a ++ sysPromptSuffix a).head? = some 32 := by
    rw [batchContext, if_pos ha]
    rfl
  have hheadB : (batchContext b ++ sysPromptSuffix b).head? ≠ some 32 := by
    rw [batchContext, if_neg hb', sysPromptSuffix]
    cases truthy? b.originalSystemPrompt with
    | none => simp
    | some prompt =>
      intro hhead
      exact absurd (show some (10 : UInt16) = some 32 from hhead) (by decide)
  exact hheadB (h ▸ hheadA)

theorem batchContext_append_inj
    (h : batchContext a ++ sysPromptSuffix a = batchContext b ++ sysPromptSuffix b) :
    place a = place b ∧ intent a = intent b := by
  cases ha : place a with
  | none =>
    cases hb : place b with
    | none =>
      have heq := batchContext_congr (ha.trans hb.symm)
      rw [heq, List.append_cancel_left_eq] at h
      exact ⟨rfl, sysPromptSuffix_inj h⟩
    | some p => exact absurd h.symm (batchContext_append_ne ha (by simp [hb]))
  | some p =>
    cases hb : place b with
    | none => exact absurd h (batchContext_append_ne hb (by simp [ha]))
    | some q =>
      have hspace : ∀ n, (32 : UInt16) ∉ numberString n := by
        intro n hmem
        have hdigit := numberString_digits n 32 hmem
        exact absurd hdigit (by decide)
      have hdot : ∀ n, (46 : UInt16) ∉ numberString n := by
        intro n hmem
        have hdigit := numberString_digits n 46 hmem
        exact absurd hdigit (by decide)
      have hsize : ∀ context : VisionContext, ∀ p, place context = some p →
          context.batchSize > 1 ∧ (context.positionInBatch, context.batchSize) = p := by
        intro context p hp
        unfold place at hp
        split at hp
        · rename_i hgt
          exact ⟨hgt, Option.some.inj hp⟩
        · cases hp
      obtain ⟨hasize, rfl⟩ := hsize a p ha
      obtain ⟨hbsize, rfl⟩ := hsize b q hb
      rw [batchContext, if_pos hasize, batchContext, if_pos hbsize] at h
      simp only [List.append_assoc, List.append_cancel_left_eq] at h
      obtain ⟨hposition, h⟩ := append_cons_inj_first (hspace _) (hspace _) h
      have hof := List.append_cancel_left (show js "of " ++ _ = js "of " ++ _ from h)
      obtain ⟨hcount, h⟩ := append_cons_inj_first (hdot _) (hdot _) hof
      rw [numberString_injective hposition, numberString_injective hcount]
      exact ⟨rfl, sysPromptSuffix_inj h⟩

end

/-! ## One key, one request -/

section

variable {sha256 : List UInt8 → JsString} {config : VisionCallConfig}
  {craft : JsString → Option JsString} {craftingCache craftingCache' : Dict JsString JsString}
  {a b context : VisionContext} {question adjacentText : JsString}

/-- Two contexts with one key agree in what the key leaves out of the request
or runs together. -/
def AgreeBeyondKey (sha256 : List UInt8 → JsString) (config : VisionCallConfig)
    (craft : JsString → Option JsString) (craftingCache craftingCache' : Dict JsString JsString)
    (a b : VisionContext) : Prop :=
  match keySource config a, keySource config b with
  | .image, .image =>
    (strategy config a = .generic ↔ strategy config b = .generic) ∧
      (strategy config a ≠ .generic → intent a = intent b ∧ place a = place b)
  | .adjacent, .adjacent =>
    intent a = intent b ∧
      questionText sha256 config craft craftingCache a =
        questionText sha256 config craft craftingCache' b
  | .question, .question =>
    intent a = intent b ∧ a.perImageQuestion = b.perImageQuestion ∧ a.batchSize = b.batchSize
  | _, _ => False

theorem keySource_image (h : keySource config context = .image) :
    contextText config context = none ∧ (strategy config context ≠ .generic →
      perImageQuestion? config context = none ∧ truthy? context.adjacentText = none) := by
  unfold keySource at h
  unfold contextText
  by_cases hgeneric : strategy config context = .generic
  · simp [hgeneric]
  · rw [if_neg hgeneric] at h ⊢
    cases hquestion : perImageQuestion? config context with
    | some question => simp [hquestion] at h
    | none =>
      cases htext : truthy? context.adjacentText with
      | some adjacentText => simp [hquestion, htext] at h
      | none => simp

theorem keySource_adjacent (h : keySource config context = .adjacent) :
    strategy config context ≠ .generic ∧ perImageQuestion? config context = none ∧
      ∃ adjacentText, context.adjacentText = some adjacentText ∧
        contextText config context = some (adjacentText ++ js ":" ++
          numberString context.positionInBatch ++ js ":" ++ numberString context.batchSize ++
          js ":" ++ context.originalSystemPrompt.getD []) := by
  unfold keySource at h
  unfold contextText
  by_cases hgeneric : strategy config context = .generic
  · simp [hgeneric] at h
  · rw [if_neg hgeneric] at h ⊢
    cases hquestion : perImageQuestion? config context with
    | some question => simp [hquestion] at h
    | none =>
      cases htext : truthy? context.adjacentText with
      | none => simp [hquestion, htext] at h
      | some adjacentText => exact ⟨hgeneric, rfl, adjacentText, eq_some_of_truthy? htext, rfl⟩

theorem keySource_question (h : keySource config context = .question) :
    strategy config context ≠ .generic ∧ ∃ question,
      perImageQuestion? config context = some question ∧
        contextText config context =
          some (question ++ js ":" ++ numberString context.positionInBatch) := by
  unfold keySource at h
  unfold contextText
  by_cases hgeneric : strategy config context = .generic
  · simp [hgeneric] at h
  · rw [if_neg hgeneric] at h ⊢
    cases hquestion : perImageQuestion? config context with
    | some question => exact ⟨hgeneric, question, rfl, rfl⟩
    | none =>
      cases htext : truthy? context.adjacentText with
      | none => simp [hquestion, htext] at h
      | some adjacentText => simp [hquestion, htext] at h

theorem questionText_of_image (h : truthy? context.adjacentText = none) :
    questionText sha256 config craft craftingCache context = slottedText [] := by
  unfold questionText
  cases hcrafted : craftedQuestion sha256 config craft craftingCache context with
  | some question => exact absurd h (strategy_of_craftedQuestion hcrafted).2
  | none => rw [Option.getD_none, ← truthy?_getD, h, Option.getD_none]

/-- Two requests that are not generic ask the same when they agree in the
place, the intent and the text. -/
theorem asked?_eq_iff (ha : strategy config a ≠ .generic) (hb : strategy config b ≠ .generic) :
    asked? sha256 config craft craftingCache a = asked? sha256 config craft craftingCache' b ↔
      place a = place b ∧ intent a = intent b ∧
        (perImageQuestion? config a).getD (questionText sha256 config craft craftingCache a) =
          (perImageQuestion? config b).getD
            (questionText sha256 config craft craftingCache' b) := by
  rw [asked?_of_ne_generic ha, asked?_of_ne_generic hb, Option.some.injEq, Prod.mk.injEq,
    List.append_assoc, List.append_assoc, List.append_cancel_left_eq]
  constructor
  · rintro ⟨hsystem, htext⟩
    obtain ⟨hplace, hintent⟩ := batchContext_append_inj hsystem
    exact ⟨hplace, hintent, htext⟩
  · rintro ⟨hplace, hintent, htext⟩
    rw [batchContext_congr hplace, sysPromptSuffix_congr hintent]
    exact ⟨rfl, htext⟩

theorem agree_image (ha : keySource config a = .image) (hb : keySource config b = .image) :
    asked? sha256 config craft craftingCache a = asked? sha256 config craft craftingCache' b ↔
      (strategy config a = .generic ↔ strategy config b = .generic) ∧
        (strategy config a ≠ .generic → intent a = intent b ∧ place a = place b) := by
  by_cases hga : strategy config a = .generic
  · by_cases hgb : strategy config b = .generic
    · simp [hga, hgb, asked?_generic]
    · simp [hga, hgb, asked?_generic, asked?_of_ne_generic]
  · by_cases hgb : strategy config b = .generic
    · simp [hga, hgb, asked?_generic, asked?_of_ne_generic]
    · obtain ⟨hqa, hta⟩ := (keySource_image ha).2 hga
      obtain ⟨hqb, htb⟩ := (keySource_image hb).2 hgb
      rw [asked?_eq_iff hga hgb, hqa, hqb, Option.getD_none, Option.getD_none,
        questionText_of_image hta, questionText_of_image htb]
      simp only [hga, hgb, not_false_eq_true, ne_eq, true_and, and_true, true_implies]
      exact and_comm

/-- The bytes hashed for an adjacent text. -/
theorem utf8_adjacent (adjacentText originalSystemPrompt : JsString) (p n : ℕ) :
    utf8 (adjacentText ++ js ":" ++ numberString p ++ js ":" ++ numberString n ++ js ":" ++
        originalSystemPrompt) =
      utf8 adjacentText ++ colon :: numberBytes p ++ colon :: numberBytes n ++
        colon :: utf8 originalSystemPrompt := by
  rw [utf8_append_colon, utf8_append_colon, utf8_append_colon, utf8_numberString,
    utf8_numberString]

theorem agree_adjacent (ha : keySource config a = .adjacent) (hb : keySource config b = .adjacent)
    (hkey : (contextText config a).map utf8 = (contextText config b).map utf8) :
    asked? sha256 config craft craftingCache a = asked? sha256 config craft craftingCache' b ↔
      intent a = intent b ∧
        questionText sha256 config craft craftingCache a =
          questionText sha256 config craft craftingCache' b := by
  obtain ⟨hga, hqa, texta, -, htexta⟩ := keySource_adjacent ha
  obtain ⟨hgb, hqb, textb, -, htextb⟩ := keySource_adjacent hb
  rw [htexta, htextb, Option.map_some, Option.map_some, Option.some.injEq, utf8_adjacent,
    utf8_adjacent] at hkey
  rw [asked?_eq_iff hga hgb, hqa, hqb, Option.getD_none, Option.getD_none]
  constructor
  · rintro ⟨-, hintent, htext⟩
    exact ⟨hintent, htext⟩
  · rintro ⟨hintent, htext⟩
    refine ⟨?_, hintent, htext⟩
    -- behind the same intent the numbers are read from the right
    have hprompt : a.originalSystemPrompt.getD [] = b.originalSystemPrompt.getD [] := by
      rw [← truthy?_getD a.originalSystemPrompt, ← truthy?_getD b.originalSystemPrompt]
      exact congrArg (Option.getD · []) hintent
    rw [hprompt] at hkey
    obtain ⟨hrest, hsize⟩ := append_cons_inj_last (colon_not_mem_numberBytes _)
      (colon_not_mem_numberBytes _) (List.append_cancel_right hkey)
    obtain ⟨-, hposition⟩ := append_cons_inj_last (colon_not_mem_numberBytes _)
      (colon_not_mem_numberBytes _) hrest
    unfold place
    rw [numberBytes_injective hsize, numberBytes_injective hposition]

theorem agree_question (ha : keySource config a = .question) (hb : keySource config b = .question)
    (hkey : (contextText config a).map utf8 = (contextText config b).map utf8) :
    asked? sha256 config craft craftingCache a = asked? sha256 config craft craftingCache' b ↔
      intent a = intent b ∧ a.perImageQuestion = b.perImageQuestion ∧
        a.batchSize = b.batchSize := by
  obtain ⟨hga, qa, hqa, htexta⟩ := keySource_question ha
  obtain ⟨hgb, qb, hqb, htextb⟩ := keySource_question hb
  have hquestion : ∀ context : VisionContext, ∀ q, perImageQuestion? config context = some q →
      context.batchSize > 1 ∧ context.perImageQuestion = some q := by
    intro context q hq
    have hstrategy := strategy_of_perImageQuestion? hq
    refine ⟨imageCount_of_decomposed hstrategy, eq_some_of_truthy? ?_⟩
    rwa [perImageQuestion?, if_pos hstrategy] at hq
  obtain ⟨hsizea, hqa'⟩ := hquestion a qa hqa
  obtain ⟨hsizeb, hqb'⟩ := hquestion b qb hqb
  rw [htexta, htextb, Option.map_some, Option.map_some, Option.some.injEq, utf8_append_colon,
    utf8_append_colon, utf8_numberString, utf8_numberString] at hkey
  obtain ⟨-, hposition⟩ := append_cons_inj_last (colon_not_mem_numberBytes _)
    (colon_not_mem_numberBytes _) hkey
  rw [asked?_eq_iff hga hgb, hqa, hqb, hqa', hqb', place, if_pos hsizea, place, if_pos hsizeb,
    numberBytes_injective hposition]
  simp only [Option.getD_some, Option.some.injEq, Prod.mk.injEq, true_and]
  rw [and_comm, and_assoc]

/-- What a slotted request puts before the adjacent text. -/
def slottedPrefix : List UInt8 := (js "The user asked: \"").map UInt16.toUInt8

/-- Behind a colon of the slotted prefix stands no digit, so no text is
followed there by a number and is the prefixed text as well. -/
theorem slottedPrefix_append_ne {d : UInt8} (hd : 48 ≤ d.toNat ∧ d.toNat ≤ 57)
    (rest R : List UInt8) : ∀ n, ∀ z : List UInt8, z.length = n →
      slottedPrefix ++ (z ++ R) ≠ z ++ colon :: d :: rest := by
  intro n
  induction n using Nat.strong_induction_on with
  | _ n ih =>
    intro z hz h
    rcases List.append_eq_append_iff.mp h with ⟨z', hz', hbehind⟩ | ⟨z', hz', hbehind⟩
    · -- the text begins with the prefix itself
      rw [hz', List.length_append] at hz
      have hshorter : z'.length < n := by
        have hpositive : 0 < slottedPrefix.length := by decide
        omega
      rw [hz', List.append_assoc] at hbehind
      exact ih _ hshorter z' rfl hbehind
    · -- the text is a piece of the prefix, and the colon stands in the prefix
      have hcolon : ∀ t ∈ slottedPrefix.tails, t.head? = some colon → t.tail.head? = some 32 := by
        decide
      have hhead : slottedPrefix.head? = some 84 := by decide
      have hmem : z' ∈ slottedPrefix.tails := (List.mem_tails _ _).mpr ⟨z, hz'.symm⟩
      cases z' with
      | nil =>
        rw [List.append_nil] at hz'
        rw [List.nil_append, ← hz'] at hbehind
        have hfirst := congrArg List.head? hbehind
        rw [List.head?_append, hhead] at hfirst
        exact absurd (show some colon = some 84 from hfirst) (by decide)
      | cons c z' =>
        obtain ⟨rfl, hrest⟩ := List.cons.inj hbehind
        have hsecond := hcolon _ hmem rfl
        cases z' with
        | nil => simp at hsecond
        | cons e z' =>
          obtain ⟨rfl, -⟩ := List.cons.inj hrest
          have h32 : d = 32 := Option.some.inj hsecond
          rw [h32] at hd
          exact absurd hd (by decide)

theorem utf8_slottedText (adjacentText : JsString) :
    ∃ R, utf8 (slottedText adjacentText) = slottedPrefix ++ (utf8 adjacentText ++ R) := by
  have hascii : ∀ u ∈ js "The user asked: \"", isAscii u = true :=
    List.all_eq_true.mp (by decide)
  have hquote : slottedInstruction.head? = some 34 := by decide
  obtain ⟨suffix, hsuffix⟩ := List.head?_eq_some_iff.mp hquote
  unfold slottedText
  rw [List.append_assoc, utf8_ascii_append hascii, hsuffix, utf8_append_cons (by decide)]
  exact ⟨_, rfl⟩

/-- A sub-question is no slotted question with the same key. -/
theorem asked?_ne_of_question (ha : keySource config a = .adjacent)
    (hb : keySource config b = .question)
    (hkey : (contextText config a).map utf8 = (contextText config b).map utf8) :
    asked? sha256 config craft craftingCache a ≠ asked? sha256 config craft craftingCache' b := by
  obtain ⟨hga, hqa, texta, hadjacent, htexta⟩ := keySource_adjacent ha
  obtain ⟨hgb, qb, hqb, htextb⟩ := keySource_question hb
  rw [htexta, htextb, Option.map_some, Option.map_some, Option.some.injEq, utf8_adjacent,
    utf8_append_colon, utf8_numberString] at hkey
  rw [ne_eq, asked?_eq_iff hga hgb, hqa, hqb, Option.getD_none, Option.getD_some]
  rintro ⟨hplace, -, htext⟩
  -- the batch has several images, so the question is not crafted
  have hsize : b.batchSize > 1 := imageCount_of_decomposed (strategy_of_perImageQuestion? hqb)
  have hnot : craftedQuestion sha256 config craft craftingCache a = none := by
    cases hcrafted : craftedQuestion sha256 config craft craftingCache a with
    | none => rfl
    | some question =>
      have hcount : a.batchSize ≤ 1 := imageCount_of_crafted (strategy_of_craftedQuestion hcrafted).1
      rw [place, place, if_neg (by omega), if_pos hsize] at hplace
      cases hplace
  rw [questionText, hnot, Option.getD_none, hadjacent, Option.getD_some] at htext
  obtain ⟨d, digits, hdigits⟩ := List.exists_cons_of_ne_nil
    (show numberBytes a.positionInBatch ≠ [] by
      simpa [numberBytes] using numberString_ne_nil a.positionInBatch)
  have hd : 48 ≤ d.toNat ∧ d.toNat ≤ 57 :=
    numberBytes_digits a.positionInBatch d (by rw [hdigits]; exact List.mem_cons_self)
  obtain ⟨R, hR⟩ := utf8_slottedText texta
  rw [← htext, hR, hdigits] at hkey
  simp only [List.append_assoc, List.cons_append] at hkey
  exact slottedPrefix_append_ne hd _ _ _ _ rfl hkey.symm

/-- **One key, one request.** The descriptions of two images with one key were
asked for with the same request exactly when their contexts agree in what the
key leaves out or runs together. -/
theorem same_request_iff (hsha : Digest sha256) (config : VisionCallConfig)
    (craft : JsString → Option JsString) (craftingCache craftingCache' : Dict JsString JsString)
    (transcode : List UInt8 → List UInt8) (encodeBase64 : List UInt8 → JsString)
    (bytes bytes' : List UInt8) (a b : VisionContext)
    (hkey : descriptionCacheKey sha256 config bytes (contextHash sha256 config a) =
      descriptionCacheKey sha256 config bytes' (contextHash sha256 config b)) :
    requestBody sha256 config craft craftingCache encodeBase64 (transcode bytes) a =
        requestBody sha256 config craft craftingCache' encodeBase64 (transcode bytes') b ↔
      ¬ Configured config ∨
        AgreeBeyondKey sha256 config craft craftingCache craftingCache' a b := by
  obtain ⟨rfl, htext⟩ := descriptionCacheKey_inj hsha hkey
  rw [requestBody_eq_iff]
  refine or_congr_right ?_
  unfold AgreeBeyondKey
  cases ha : keySource config a with
  | image =>
    cases hb : keySource config b with
    | image => exact agree_image ha hb
    | adjacent =>
      obtain ⟨-, -, textb, -, htextb⟩ := keySource_adjacent hb
      rw [(keySource_image ha).1, htextb] at htext
      cases htext
    | question =>
      obtain ⟨-, qb, -, htextb⟩ := keySource_question hb
      rw [(keySource_image ha).1, htextb] at htext
      cases htext
  | adjacent =>
    cases hb : keySource config b with
    | image =>
      obtain ⟨-, -, texta, -, htexta⟩ := keySource_adjacent ha
      rw [(keySource_image hb).1, htexta] at htext
      cases htext
    | adjacent => exact agree_adjacent ha hb htext
    | question => exact iff_of_false (asked?_ne_of_question ha hb htext) id
  | question =>
    cases hb : keySource config b with
    | image =>
      obtain ⟨-, qa, -, htexta⟩ := keySource_question ha
      rw [(keySource_image hb).1, htexta] at htext
      cases htext
    | adjacent => exact iff_of_false (asked?_ne_of_question hb ha htext.symm).symm id
    | question => exact agree_question ha hb htext

end

/-! ## Two pairs of contexts -/

/-- The hexadecimal text of the bytes, as an injective digest. -/
def hexDigest (bytes : List UInt8) : JsString :=
  48 :: bytes.flatMap fun b => [hexDigit (b.toNat / 16), hexDigit (b.toNat % 16)]

theorem hexDigits_injective {xs ys : List UInt8}
    (h : (xs.flatMap fun b => [hexDigit (b.toNat / 16), hexDigit (b.toNat % 16)]) =
      ys.flatMap fun b => [hexDigit (b.toNat / 16), hexDigit (b.toNat % 16)]) : xs = ys := by
  induction xs generalizing ys with
  | nil =>
    cases ys with
    | nil => rfl
    | cons y ys => simp at h
  | cons x xs ih =>
    cases ys with
    | nil => simp at h
    | cons y ys =>
      simp only [List.flatMap_cons, List.cons_append, List.nil_append, List.cons.injEq] at h
      have hx := x.toNat_lt
      have hy := y.toNat_lt
      have hhi := congrArg hexValue h.1
      have hlo := congrArg hexValue h.2.1
      rw [hexValue_hexDigit _ (by omega), hexValue_hexDigit _ (by omega)] at hhi hlo
      have hxy : x = y := UInt8.toNat_inj.mp (by omega)
      rw [hxy, ih h.2.2]

theorem digest_hexDigest : Digest hexDigest where
  injective _ _ h := hexDigits_injective (List.cons.inj h).2
  hex := by
    have hdigit : ∀ n < 16, 48 ≤ hexDigit n ∧ hexDigit n ≤ 57 ∨
        97 ≤ hexDigit n ∧ hexDigit n ≤ 102 := by
      decide +kernel
    intro bytes u hu
    rcases List.mem_cons.mp hu with rfl | hu
    · decide
    · obtain ⟨b, -, hu⟩ := List.mem_flatMap.mp hu
      have hb := b.toNat_lt
      rcases List.mem_pair.mp hu with rfl | rfl
      · exact hdigit _ (by omega)
      · exact hdigit _ (by omega)
  ne_nil := fun _ => List.cons_ne_nil _ _

def autoConfig : VisionCallConfig where
  target := some (js "https://h/v1")
  model := some (js "m")
  prompt := js "Describe."
  promptVersion := 1
  maxDimension := 1024
  jpegQuality := 80
  imageFormat := .jpeg
  imageDetail := js "auto"
  reasoningEffort := none
  intentStrategy := .auto
  decompositionEnabled := true

/-- A short question about one image. -/
def shortQuestion : VisionContext where
  adjacentText := some (js "What color?")
  isToolResult := false
  positionInBatch := 1
  batchSize := 1
  recentMessages := []
  perImageQuestion := none
  originalSystemPrompt := none

/-- A slotted request reads no messages, and an empty system prompt is none. -/
theorem slotted_request_shared :
    requestBody hexDigest autoConfig (fun _ => none) [] (fun _ => []) [1] shortQuestion =
      requestBody hexDigest autoConfig (fun _ => none) [] (fun _ => []) [1]
        { shortQuestion with
          recentMessages := [⟨js "user", js "Hi"⟩], originalSystemPrompt := some [] } := by
  refine (same_request_iff digest_hexDigest autoConfig (fun _ => none) [] [] id (fun _ => []) [1]
    [1] shortQuestion _ ?_).mpr (.inr ?_)
  · exact congrArg (descriptionCacheKey hexDigest autoConfig [1]) (by decide +kernel)
  · have hsource : keySource autoConfig shortQuestion = .adjacent := by decide +kernel
    have hsource' : keySource autoConfig { shortQuestion with
        recentMessages := [⟨js "user", js "Hi"⟩], originalSystemPrompt := some [] } =
        .adjacent := by
      decide +kernel
    unfold AgreeBeyondKey
    rw [hsource, hsource']
    decide +kernel

/-- The first image of a decomposed batch of two, and of three. -/
def decomposedQuestion (batchSize : ℕ) : VisionContext where
  adjacentText := some (js "What is the cat in image 1 doing?")
  isToolResult := false
  positionInBatch := 1
  batchSize := batchSize
  recentMessages := []
  perImageQuestion := some (js "Is there a cat?")
  originalSystemPrompt := none

/-- One key stands for two requests: the size of the batch is in the request
alone. -/
theorem batch_size_not_in_key :
    descriptionCacheKey hexDigest autoConfig [1]
        (contextHash hexDigest autoConfig (decomposedQuestion 2)) =
      descriptionCacheKey hexDigest autoConfig [1]
        (contextHash hexDigest autoConfig (decomposedQuestion 3)) ∧
    requestBody hexDigest autoConfig (fun _ => none) [] (fun _ => []) [1] (decomposedQuestion 2) ≠
      requestBody hexDigest autoConfig (fun _ => none) [] (fun _ => []) [1]
        (decomposedQuestion 3) := by
  constructor
  · exact congrArg (descriptionCacheKey hexDigest autoConfig [1]) (by decide +kernel)
  · decide +kernel

end UmansGate.Vision
