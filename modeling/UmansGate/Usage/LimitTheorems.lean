/-
UmansGate.Usage.LimitTheorems — how the usage of a response depends on the
capture limit.

A limit keeps the chunks that fit (`chunksWithin`), a prefix of what a larger
one keeps (`prefix_captured`), and falls into some block of the stream (`Cut`).
The counts of an Anthropic response are the last ones its events report
(`foldl_seen`), those of an OpenAI response are the ones of its last usage
object. So two limits record the same where the smaller one falls before the
first report or behind the last one of each count (`capture_limit_iff`).
-/
import UmansGate.Usage.Capture
import UmansGate.Usage.LineTheorems

namespace UmansGate.Usage

open UmansGate.Lib
open UmansGate.Lib.Framing

/-- What is recorded of the tokens. -/
structure TokenUsage where
  input_tokens : Option Float
  output_tokens : Option Float
  cache_creation_tokens : Option Float
  cache_read_tokens : Option Float
  total_input_tokens : Option Float
  total_output_tokens : Option Float
  thinking_tokens : Option Json

def UsageMetrics.tokens (m : UsageMetrics) : TokenUsage :=
  { input_tokens := m.input_tokens
    output_tokens := m.output_tokens
    cache_creation_tokens := m.cache_creation_tokens
    cache_read_tokens := m.cache_read_tokens
    total_input_tokens := m.total_input_tokens
    total_output_tokens := m.total_output_tokens
    thinking_tokens := m.thinking_tokens }

/-- Input tokens without output tokens, and not flagged. -/
def PartialUsage (recorded : Option (JsString × UsageMetrics)) : Prop :=
  ∃ r ∈ recorded, r.2.usage_missing = false ∧ r.2.input_tokens ≠ none ∧ r.2.output_tokens = none

/-- The first of two captures agrees with the second, or is flagged. -/
def AgreesOrFlagged (small large : Option (JsString × UsageMetrics)) : Prop :=
  small.map (·.2.tokens) = large.map (·.2.tokens) ∨ ∃ r ∈ small, r.2.usage_missing = true

/-! ## What a limit keeps -/

section Kept

variable {σ : Type} {dec : Decoder σ} {small large : ℕ}

/-- The limit `large` captures whatever `small` does. -/
def Within (small large : ℕ) : Prop := large = 0 ∨ (small ≠ 0 ∧ small ≤ large)

/-- The text that a limit keeps of a response. -/
def capturedText (dec : Decoder σ) (cap : ℕ) (chunks : List ByteChunk) : JsString :=
  textOf (captureOf dec cap chunks).timedChunks

theorem transform_totalSize (cap : ℕ) (st : CaptureState σ) (chunk : ByteChunk) :
    (transform dec cap st chunk).totalSize = st.totalSize + chunk.text.length := by
  simp only [transform]
  split
  · split
    · rfl
    · rfl
  · rfl

/-- Beyond its limit a capture keeps nothing more. -/
theorem prefix_transform (cap : ℕ) (st : CaptureState σ) (chunk : ByteChunk) :
    st.timedChunks <+: (transform dec cap st chunk).timedChunks := by
  simp only [transform]
  split
  · split
    · split
      · exact List.prefix_rfl
      · exact List.prefix_append _ _
    · exact List.prefix_rfl
  · exact List.prefix_rfl

theorem capturing_of_le {cap size size' : ℕ} (hle : size ≤ size')
    (h : capturing cap size' = true) : capturing cap size = true := by
  simp only [capturing, Bool.or_eq_true, decide_eq_true_eq] at h ⊢
  omega

theorem capturing_of_within (h : Within small large) {size : ℕ}
    (hsmall : capturing small size = true) : capturing large size = true := by
  simp only [capturing, Bool.or_eq_true, decide_eq_true_eq] at hsmall ⊢
  unfold Within at h
  omega

/-- As long as the smaller limit is not passed both captures are the same, and
then the smaller one stands still. -/
def Behind (small : ℕ) (s l : CaptureState σ) : Prop :=
  s.totalSize = l.totalSize ∧ s.timedChunks <+: l.timedChunks ∧
    (capturing small s.totalSize = true → s = l)

theorem Behind.transform (hwithin : Within small large) {s l : CaptureState σ}
    (h : Behind small s l) (chunk : ByteChunk) :
    Behind small (transform dec small s chunk) (Usage.transform dec large l chunk) := by
  obtain ⟨hsize, hprefix, heq⟩ := h
  by_cases hcap : capturing small (s.totalSize + chunk.text.length) = true
  · obtain rfl := heq (capturing_of_le (Nat.le_add_right _ _) hcap)
    have hboth : Usage.transform dec small s chunk = Usage.transform dec large s chunk := by
      simp [Usage.transform, hcap, capturing_of_within hwithin hcap]
    rw [hboth]
    exact ⟨rfl, List.prefix_rfl, fun _ => rfl⟩
  · have hstill : (Usage.transform dec small s chunk).timedChunks = s.timedChunks := by
      simp [Usage.transform, hcap]
    refine ⟨by simp [transform_totalSize, hsize], ?_, fun hnow => ?_⟩
    · rw [hstill]
      exact hprefix.trans (prefix_transform large l chunk)
    · rw [transform_totalSize] at hnow
      exact absurd hnow hcap

theorem behind_captureOf (h : Within small large) (chunks : List ByteChunk) :
    Behind small (captureOf dec small chunks) (captureOf dec large chunks) := by
  induction chunks using List.reverseRecOn with
  | nil => exact ⟨rfl, List.prefix_rfl, fun _ => rfl⟩
  | append_singleton chunks chunk ih =>
    simp only [captureOf, List.foldl_append, List.foldl_cons, List.foldl_nil]
    exact ih.transform h chunk

/-- The smaller limit keeps a prefix of what the larger one keeps. -/
theorem prefix_captured (h : Within small large) (chunks : List ByteChunk) :
    (captureOf dec small chunks).timedChunks <+: (captureOf dec large chunks).timedChunks :=
  (behind_captureOf h chunks).2.1

/-- The first chunks of a response, as long as their bytes do not pass the
limit; `size` bytes came before. -/
def chunksWithin (cap : ℕ) : ℕ → List ByteChunk → List ByteChunk
  | _, [] => []
  | size, chunk :: rest =>
    if capturing cap (size + chunk.text.length) then
      chunk :: chunksWithin cap (size + chunk.text.length) rest
    else []

/-- The text of some chunks as the decoder streams it. -/
def decodedText (dec : Decoder σ) (chunks : List ByteChunk) : JsString :=
  textOf (captureOf dec 0 chunks).timedChunks

theorem foldl_transform_stopped {cap : ℕ} (chunks : List ByteChunk) :
    ∀ st : CaptureState σ, capturing cap st.totalSize = false →
      (chunks.foldl (transform dec cap) st).timedChunks = st.timedChunks := by
  induction chunks with
  | nil => exact fun _ _ => rfl
  | cons chunk chunks ih =>
    intro st hstopped
    have hnext : capturing cap (st.totalSize + chunk.text.length) = false := by
      rw [Bool.eq_false_iff]
      intro hcap
      rw [capturing_of_le (Nat.le_add_right _ _) hcap] at hstopped
      cases hstopped
    rw [List.foldl_cons, ih _ (by rw [transform_totalSize]; exact hnext)]
    simp [Usage.transform, hnext]

/-- The text that a limit keeps is that of the chunks within it. -/
theorem capturedText_eq (cap : ℕ) (chunks : List ByteChunk) :
    capturedText dec cap chunks = decodedText dec (chunksWithin cap 0 chunks) := by
  have hfold : ∀ (chunks : List ByteChunk) (st : CaptureState σ),
      (chunks.foldl (transform dec cap) st).timedChunks =
        ((chunksWithin cap st.totalSize chunks).foldl (transform dec 0) st).timedChunks := by
    intro chunks
    induction chunks with
    | nil => exact fun _ => rfl
    | cons chunk chunks ih =>
      intro st
      rw [chunksWithin]
      by_cases hcap : capturing cap (st.totalSize + chunk.text.length) = true
      · have hboth : transform dec cap st chunk = transform dec 0 st chunk := by
          have hnone : capturing 0 (st.totalSize + chunk.text.length) = true := rfl
          simp only [Usage.transform, hcap, hnone]
        rw [if_pos hcap, List.foldl_cons, List.foldl_cons, ih, hboth, transform_totalSize]
      · have hstopped := Bool.eq_false_iff.mpr hcap
        rw [if_neg hcap, List.foldl_cons,
          foldl_transform_stopped chunks _ (by rw [transform_totalSize]; exact hstopped)]
        simp [Usage.transform, hstopped]
  rw [capturedText, decodedText, captureOf, captureOf, hfold]

end Kept

/-! ## The counts are the last ones reported -/

/-- What the last event that reports something reports. -/
def lastReport {α : Type} (report : Json → Option α) (events : List Json) : Option α :=
  events.reverse.findSome? report

/-- The count that an event reports: a `message_delta` where it is present, and a
`message_start` with usage where the count is `seeded` by it. -/
def reportedCount (seeded : Bool) (key : String) (ev : Json) : Option Float :=
  if isEvent ev "message_start" then
    if seeded then (messageStartUsage ev).map fun u => num (u.get? (js key)) else none
  else if isEvent ev "message_delta" then
    ((trueProp ev (js "usage")).bind (present · (js key))).map fun v => num (some v)
  else none

def reportedInput : Json → Option Float := reportedCount true "input_tokens"

def reportedOutput : Json → Option Float := reportedCount false "output_tokens"

def reportedCacheCreate : Json → Option Float := reportedCount true "cache_creation_input_tokens"

def reportedCacheRead : Json → Option Float := reportedCount true "cache_read_input_tokens"

def reportedThinking (ev : Json) : Option Json :=
  if isEvent ev "message_start" then none
  else if isEvent ev "message_delta" then
    (trueProp ev (js "usage")).bind fun u =>
      (u.get? (js "output_tokens_details")).bind (present · (js "thinking_tokens"))
  else none

/-- A `message_start` with usage. -/
def startsUsage (ev : Json) : Bool := isEvent ev "message_start" && (messageStartUsage ev).isSome

theorem lastReport_append {α : Type} (report : Json → Option α) (events more : List Json) :
    lastReport report (events ++ more) = (lastReport report more).or (lastReport report events) := by
  rw [lastReport, List.reverse_append, List.findSome?_append]
  rfl

theorem lastReport_append_singleton {α : Type} (report : Json → Option α) (events : List Json)
    (ev : Json) :
    lastReport report (events ++ [ev]) = (report ev).or (lastReport report events) := by
  rw [lastReport_append]
  cases h : report ev <;> simp [lastReport, h]

/-- One event replaces what it reports. -/
theorem seen_eq (st : AnthropicTokens) (ev : Json) :
    st.seen ev =
      { input := (reportedInput ev).or st.input
        output := (reportedOutput ev).or st.output
        cacheCreate := (reportedCacheCreate ev).getD st.cacheCreate
        cacheRead := (reportedCacheRead ev).getD st.cacheRead
        thinking := (reportedThinking ev).or st.thinking
        sawUsage := st.sawUsage || (startsUsage ev || (reportedOutput ev).isSome) } := by
  simp only [AnthropicTokens.seen, reportedInput, reportedOutput, reportedCacheCreate,
    reportedCacheRead, reportedCount, reportedThinking, startsUsage]
  cases isEvent ev "message_start" with
  | true =>
    cases messageStartUsage ev with
    | none => simp
    | some u => simp [seenStart, num]
  | false =>
    cases isEvent ev "message_delta" with
    | false => simp
    | true =>
      cases trueProp ev (js "usage") with
      | none => simp
      | some u =>
        simp only [seenDelta, Option.bind_some]
        cases present u (js "input_tokens") <;> cases present u (js "output_tokens") <;>
          cases present u (js "cache_creation_input_tokens") <;>
          cases present u (js "cache_read_input_tokens") <;>
          cases (u.get? (js "output_tokens_details")).bind (present · (js "thinking_tokens")) <;>
          simp

theorem foldl_seen (events : List Json) :
    events.foldl AnthropicTokens.seen {} =
      { input := lastReport reportedInput events
        output := lastReport reportedOutput events
        cacheCreate := (lastReport reportedCacheCreate events).getD 0
        cacheRead := (lastReport reportedCacheRead events).getD 0
        thinking := lastReport reportedThinking events
        sawUsage := events.any fun ev => startsUsage ev || (reportedOutput ev).isSome } := by
  induction events using List.reverseRecOn with
  | nil => rfl
  | append_singleton events ev ih =>
    rw [List.foldl_append, ih, List.foldl_cons, List.foldl_nil, seen_eq]
    simp only [lastReport_append_singleton, List.any_append, List.any_cons, List.any_nil,
      Bool.or_false, AnthropicTokens.mk.injEq, true_and, and_true]
    constructor
    · cases reportedCacheCreate ev <;> simp
    · cases reportedCacheRead ev <;> simp

/-! ## What is recorded of a text -/

/-- The events of a text, without their stamps. -/
def anthropicValues (text : JsString) : List Json := (anthropicEvents text).map Stamped.value

def openAiValues (text : JsString) : Option (List Json) :=
  (openAiEvents text).map (List.map Stamped.value)

def anthropicUsage (events : List Json) : TokenUsage :=
  let cacheCreate := (lastReport reportedCacheCreate events).getD 0
  let cacheRead := (lastReport reportedCacheRead events).getD 0
  { input_tokens := lastReport reportedInput events
    output_tokens := lastReport reportedOutput events
    cache_creation_tokens := some cacheCreate
    cache_read_tokens := some cacheRead
    total_input_tokens :=
      (lastReport reportedInput events).map fun input => input + cacheCreate + cacheRead
    total_output_tokens := lastReport reportedOutput events
    thinking_tokens := lastReport reportedThinking events }

/-- The usage object that the chunks leave, if it is a true condition. -/
def usageOf (chunks : List Json) : Option Json :=
  (lastReport (present · (js "usage")) chunks).filter Json.truthy

def noUsage : TokenUsage :=
  { input_tokens := none, output_tokens := none, cache_creation_tokens := none,
    cache_read_tokens := none, total_input_tokens := none, total_output_tokens := none,
    thinking_tokens := none }

def openAiUsage (usage : Json) : TokenUsage :=
  let prompt := num (usage.get? (js "prompt_tokens"))
  let completion := num (usage.get? (js "completion_tokens"))
  { input_tokens := some prompt
    output_tokens := some completion
    cache_creation_tokens := none
    cache_read_tokens :=
      some (numOr (nested usage (js "prompt_tokens_details") (js "cached_tokens")) 0)
    total_input_tokens := some prompt
    total_output_tokens := some completion
    thinking_tokens :=
      (usage.get? (js "completion_tokens_details")).bind (present · (js "reasoning_tokens")) }

/-- The tokens recorded of a text and whether they are flagged; none where the
parser throws. -/
def summaryOf (provider : Provider) (text : JsString) : Option (TokenUsage × Bool) :=
  match provider with
  | .anthropic =>
    let events := anthropicValues text
    some (anthropicUsage events,
      !events.any fun ev => startsUsage ev || (reportedOutput ev).isSome)
  | .openai =>
    (openAiValues text).map fun chunks =>
      match usageOf chunks with
      | none => (noUsage, true)
      | some usage => (openAiUsage usage, false)

theorem foldl_seen_usage (chunks : List Json) :
    (chunks.foldl OpenAiSeen.seen {}).usage = lastReport (present · (js "usage")) chunks := by
  induction chunks using List.reverseRecOn with
  | nil => rfl
  | append_singleton chunks ch ih =>
    rw [List.foldl_append, List.foldl_cons, List.foldl_nil, lastReport_append_singleton, ← ih]
    simp only [OpenAiSeen.seen]
    cases present ch (js "usage") with
    | none => rfl
    | some u => rfl

theorem values_parseAnthropicSse (chunks : List TimedChunk) :
    (parseAnthropicSse chunks).map Stamped.value = anthropicValues (textOf chunks) := by
  rw [parseAnthropicSse_eq, map_value_map, anthropicValues]

theorem values_parseOpenAiSse (chunks : List TimedChunk) :
    (parseOpenAiSse chunks).map (List.map Stamped.value) = openAiValues (textOf chunks) := by
  rw [parseOpenAiSse_eq, openAiValues]
  cases openAiEvents (textOf chunks) with
  | none => rfl
  | some events => rw [Option.map_some, Option.map_some, Option.map_some, map_value_map]

theorem summary_anthropic (events : List (Stamped (Option Float))) (started : Float)
    (wall : Option Float) :
    (extractAnthropicStreaming events started wall).tokens =
        anthropicUsage (events.map Stamped.value) ∧
      (extractAnthropicStreaming events started wall).usage_missing =
        !(events.map Stamped.value).any fun ev => startsUsage ev || (reportedOutput ev).isSome := by
  simp only [extractAnthropicStreaming, tokens_foldl, foldl_seen, UsageMetrics.tokens,
    anthropicUsage, and_self]

theorem summary_openAi (chunks : List (Stamped (Option Float))) (started : Float)
    (wall : Option Float) :
    ((extractOpenAiStreaming chunks started wall).tokens,
        (extractOpenAiStreaming chunks started wall).usage_missing) =
      match usageOf (chunks.map Stamped.value) with
      | none => (noUsage, true)
      | some usage => (openAiUsage usage, false) := by
  simp only [extractOpenAiStreaming, seen_foldl, foldl_seen_usage, usageOf]
  cases (lastReport (present · (js "usage")) (chunks.map Stamped.value)).filter Json.truthy with
  | none => simp only [UsageMetrics.tokens, emptyMetrics, noUsage]
  | some usage => simp only [UsageMetrics.tokens, openAiUsage]

section Recorded

variable {σ : Type} (dec : Decoder σ) (cap : ℕ) (provider : Provider) (reqBodyText : JsString)
  (durationMs startedAt : Float) (chunks : List ByteChunk)

/-- What is recorded of the tokens depends on the text that was kept, and on
whether the request is JSON. -/
theorem flushCapture_summary :
    (flushCapture dec cap provider reqBodyText durationMs startedAt chunks).map
        (fun r => (r.2.tokens, r.2.usage_missing)) =
      (Json.parse reqBodyText).bind fun _ => summaryOf provider (capturedText dec cap chunks) := by
  simp only [flushCapture, extractUsage, capturedText]
  cases Json.parse reqBodyText with
  | none => rfl
  | some body =>
    cases provider with
    | anthropic =>
      obtain ⟨htokens, hmissing⟩ := summary_anthropic
        (parseAnthropicSse (captureOf dec cap chunks).timedChunks) startedAt (some durationMs)
      rw [values_parseAnthropicSse] at htokens hmissing
      simp only [Option.map_some, Option.bind_some, summaryOf, ← htokens, ← hmissing,
        UsageMetrics.tokens]
    | openai =>
      have hvalues := values_parseOpenAiSse (captureOf dec cap chunks).timedChunks
      cases hparse : parseOpenAiSse (captureOf dec cap chunks).timedChunks with
      | none =>
        rw [hparse, Option.map_none] at hvalues
        simp only [Option.map_none, Option.bind_some, summaryOf, ← hvalues]
      | some parsed =>
        rw [hparse, Option.map_some] at hvalues
        simp only [Option.map_some, Option.bind_some, summaryOf, ← hvalues,
          ← summary_openAi parsed startedAt (some durationMs), UsageMetrics.tokens]

end Recorded

/-! ## Where a limit falls -/

/-- A stream and a place in it: what is read of the blocks that end there, of
the part of a block that stands before the place, and of that block and the
later ones as they go on. -/
structure Cut where
  before : List Json
  torn : List Json
  behind : List Json

/-- What is read up to the place. -/
def Cut.kept (c : Cut) : List Json := c.before ++ c.torn

def Cut.whole (c : Cut) : List Json := c.before ++ c.behind

def anthropicCut (kept further : JsString) : Cut :=
  let (name, before) := blocksRead [] (blocksOf blankLine kept)
  { before
    torn := (blocksRead name [restOf blankLine kept]).2
    behind := (blocksRead name (pieces (restOf blankLine kept ++ further))).2 }

/-- The chunks of the `data: ` lines, also those that the parser throws at. -/
def openAiCut (kept further : JsString) : Cut where
  before := chunksIn (dataTexts (blocksOf blankLine kept))
  torn := chunksIn (dataTexts [restOf blankLine kept])
  behind := chunksIn (dataTexts (pieces (restOf blankLine kept ++ further)))

theorem kept_anthropicCut (kept further : JsString) :
    (anthropicCut kept further).kept = anthropicValues kept := by
  rw [anthropicValues, values_anthropicEvents, pieces, blocksRead_append]
  rfl

theorem whole_anthropicCut (kept further : JsString) :
    (anthropicCut kept further).whole = anthropicValues (kept ++ further) := by
  rw [anthropicValues, values_anthropicEvents, pieces_append, blocksRead_append]
  rfl

theorem chunksIn_dataTexts_append (blocks more : List JsString) :
    chunksIn (dataTexts (blocks ++ more)) =
      chunksIn (dataTexts blocks) ++ chunksIn (dataTexts more) := by
  simp [chunksIn, dataTexts]

theorem kept_openAiCut (kept further : JsString) :
    openAiResult [] (dataTexts (pieces kept)) =
      if (openAiCut kept further).kept.all Json.isObject then some (openAiCut kept further).kept
      else none := by
  rw [openAiResult, pieces, chunksIn_dataTexts_append]
  rfl

theorem whole_openAiCut (kept further : JsString) :
    openAiResult [] (dataTexts (pieces (kept ++ further))) =
      if (openAiCut kept further).whole.all Json.isObject then some (openAiCut kept further).whole
      else none := by
  rw [openAiResult, pieces_append, chunksIn_dataTexts_append]
  rfl

/-! ## When two limits agree -/

/-- The event carries usage. -/
def carriesUsage (ev : Json) : Bool := startsUsage ev || (reportedOutput ev).isSome

/-- The place is before the first usage. -/
def Cut.BeforeUsage (c : Cut) : Prop := ∀ ev ∈ c.kept, carriesUsage ev = false

/-- The last report of a count, or what counts for none. -/
def known {α : Type} (report : Json → Option α) (initial : Option α) (events : List Json) :
    Option α :=
  (lastReport report events).or initial

/-- The place is behind the last report of a count: what is reported last behind
it had been reported last before it, and where nothing is reported behind it
the torn block reports nothing new either. -/
def Cut.Behind {α : Type} (c : Cut) (report : Json → Option α) (initial : Option α) : Prop :=
  (∀ v, lastReport report c.behind = some v → known report initial c.kept = some v) ∧
    (lastReport report c.behind = none → ∀ v, lastReport report c.torn = some v →
      known report initial c.before = some v)

/-- The place is behind the last report of each count. -/
structure Cut.BehindReports (c : Cut) : Prop where
  input : c.Behind reportedInput none
  output : c.Behind reportedOutput none
  cacheCreate : c.Behind reportedCacheCreate (some 0)
  cacheRead : c.Behind reportedCacheRead (some 0)
  thinking : c.Behind reportedThinking none

/-- A `message_start` with usage is not the only usage: some `message_delta`
reports output tokens. -/
def OutputReported (events : List Json) : Prop :=
  (∃ ev ∈ events, startsUsage ev = true) → ∃ ev ∈ events, (reportedOutput ev).isSome = true

/-- The place is before the first usage or behind the last reports, and neither
it nor the end of the stream is between the two usages of a message. -/
def Cut.AnthropicSettled (c : Cut) : Prop :=
  (c.BeforeUsage ∨ c.BehindReports) ∧ OutputReported c.kept ∧ OutputReported c.whole

/-- The parser throws at a chunk that is no object. -/
def Throws (chunks : List Json) : Prop := ∃ ch ∈ chunks, ch.isObject = false

/-- Two usage objects with the same counts. -/
def SameCounts (u u' : Json) : Prop :=
  num (u.get? (js "prompt_tokens")) = num (u'.get? (js "prompt_tokens")) ∧
  num (u.get? (js "completion_tokens")) = num (u'.get? (js "completion_tokens")) ∧
  numOr (nested u (js "prompt_tokens_details") (js "cached_tokens")) 0 =
    numOr (nested u' (js "prompt_tokens_details") (js "cached_tokens")) 0 ∧
  (u.get? (js "completion_tokens_details")).bind (present · (js "reasoning_tokens")) =
    (u'.get? (js "completion_tokens_details")).bind (present · (js "reasoning_tokens"))

/-- The place is behind a usage object, and the last one behind it has the same
counts; where there is none behind it, so has the last one of the blocks that
end there, if the torn block has one. -/
def Cut.BehindUsage (c : Cut) : Prop :=
  ∃ u, usageOf c.kept = some u ∧
    (∀ u', lastReport (present · (js "usage")) c.behind = some u' →
      u'.truthy = true ∧ SameCounts u u') ∧
    (lastReport (present · (js "usage")) c.behind = none →
      lastReport (present · (js "usage")) c.torn = none ∨
        ∃ u', usageOf c.before = some u' ∧ SameCounts u u')

/-- The parser throws before the place and in the whole stream, or it does not
throw before it and the place is before the usage or, in a stream that the
parser does not throw at, behind it. -/
def Cut.OpenAiSettled (c : Cut) : Prop :=
  (Throws c.kept ∧ Throws c.whole) ∨
    (¬ Throws c.kept ∧ (usageOf c.kept = none ∨ ¬ Throws c.whole ∧ c.BehindUsage))

def Settled (provider : Provider) (kept further : JsString) : Prop :=
  match provider with
  | .anthropic => (anthropicCut kept further).AnthropicSettled
  | .openai => (openAiCut kept further).OpenAiSettled

/-- Behind the last report of a count it is known. -/
theorem Cut.behind_iff {α : Type} {c : Cut} {report : Json → Option α} {initial : Option α} :
    c.Behind report initial ↔ known report initial c.kept = known report initial c.whole := by
  simp only [Cut.Behind, known, Cut.kept, Cut.whole, lastReport_append]
  cases lastReport report c.behind with
  | some v =>
    simp only [Option.some.injEq, forall_eq', reduceCtorEq, false_implies, and_true,
      Option.some_or]
  | none =>
    cases lastReport report c.torn with
    | none => simp
    | some v =>
      simp only [reduceCtorEq, false_implies, implies_true, true_and, Option.some.injEq,
        forall_eq', forall_const, Option.some_or, Option.none_or]
      exact eq_comm

theorem getD_eq_iff_known {report : Json → Option Float} {events events' : List Json} :
    (lastReport report events).getD 0 = (lastReport report events').getD 0 ↔
      known report (some 0) events = known report (some 0) events' := by
  unfold known
  cases lastReport report events <;> cases lastReport report events' <;> simp

theorem anthropicUsage_eq_iff {c : Cut} :
    anthropicUsage c.kept = anthropicUsage c.whole ↔ c.BehindReports := by
  have hknown : ∀ {α : Type} (report : Json → Option α) (events : List Json),
      known report none events = lastReport report events := by
    intro α report events
    simp [known]
  simp only [anthropicUsage, TokenUsage.mk.injEq, Option.some.injEq]
  constructor
  · rintro ⟨hin, hout, hcreate, hread, -, -, hthinking⟩
    exact ⟨Cut.behind_iff.mpr (by simpa [hknown] using hin),
      Cut.behind_iff.mpr (by simpa [hknown] using hout),
      Cut.behind_iff.mpr (getD_eq_iff_known.mp hcreate),
      Cut.behind_iff.mpr (getD_eq_iff_known.mp hread),
      Cut.behind_iff.mpr (by simpa [hknown] using hthinking)⟩
  · intro h
    have hin := Cut.behind_iff.mp h.input
    have hout := Cut.behind_iff.mp h.output
    have hcreate := getD_eq_iff_known.mpr (Cut.behind_iff.mp h.cacheCreate)
    have hread := getD_eq_iff_known.mpr (Cut.behind_iff.mp h.cacheRead)
    have hthinking := Cut.behind_iff.mp h.thinking
    rw [hknown, hknown] at hin hout hthinking
    exact ⟨hin, hout, hcreate, hread, by rw [hin, hcreate, hread], hout, hthinking⟩

theorem openAiUsage_eq_iff {u u' : Json} : openAiUsage u = openAiUsage u' ↔ SameCounts u u' := by
  simp only [openAiUsage, TokenUsage.mk.injEq, Option.some.injEq]
  constructor
  · rintro ⟨hprompt, hcompletion, -, hcached, -, -, hreasoning⟩
    exact ⟨hprompt, hcompletion, hcached, hreasoning⟩
  · rintro ⟨hprompt, hcompletion, hcached, hreasoning⟩
    exact ⟨hprompt, hcompletion, trivial, hcached, hprompt, hcompletion, hreasoning⟩

/-- Behind the usage both streams leave one with the same counts. -/
theorem Cut.behindUsage_iff {c : Cut} : c.BehindUsage ↔
    ∃ u u', usageOf c.kept = some u ∧ usageOf c.whole = some u' ∧ SameCounts u u' := by
  have hsome : ∀ x, lastReport (present · (js "usage")) c.behind = some x →
      usageOf c.whole = if x.truthy then some x else none := by
    intro x hbehind
    rw [usageOf, Cut.whole, lastReport_append, hbehind]
    simp [Option.filter]
  have hnone : lastReport (present · (js "usage")) c.behind = none →
      usageOf c.whole = usageOf c.before := by
    intro hbehind
    rw [usageOf, Cut.whole, lastReport_append, hbehind]
    rfl
  have hkept : lastReport (present · (js "usage")) c.torn = none →
      usageOf c.kept = usageOf c.before := by
    intro htorn
    rw [usageOf, Cut.kept, lastReport_append, htorn]
    rfl
  rw [Cut.BehindUsage]
  cases hbehind : lastReport (present · (js "usage")) c.behind with
  | some x =>
    rw [hsome x hbehind]
    simp only [Option.some.injEq, forall_eq', reduceCtorEq, false_implies, and_true,
      Option.ite_none_right_eq_some]
    constructor
    · rintro ⟨u, hu, htruthy, hcounts⟩
      exact ⟨u, x, hu, ⟨htruthy, rfl⟩, hcounts⟩
    · rintro ⟨u, u', hu, ⟨htruthy, rfl⟩, hcounts⟩
      exact ⟨u, hu, htruthy, hcounts⟩
  | none =>
    rw [hnone hbehind]
    simp only [reduceCtorEq, false_implies, implies_true, true_and, forall_const]
    constructor
    · rintro ⟨u, hu, htorn | ⟨u', hu', hcounts⟩⟩
      · exact ⟨u, u, hu, (hkept htorn).symm.trans hu, rfl, rfl, rfl, rfl⟩
      · exact ⟨u, u', hu, hu', hcounts⟩
    · rintro ⟨u, u', hu, hu', hcounts⟩
      exact ⟨u, hu, .inr ⟨u', hu', hcounts⟩⟩

theorem lastReport_eq_none {α : Type} {report : Json → Option α} {events : List Json} :
    lastReport report events = none ↔ ∀ ev ∈ events, report ev = none := by
  simp [lastReport]

theorem startsUsage_reports {ev : Json} (h : startsUsage ev = true) :
    reportedInput ev ≠ none := by
  simp only [startsUsage, Bool.and_eq_true] at h
  simp [reportedInput, reportedCount, h.1, Option.ne_none_iff_isSome, h.2]

/-- Partial usage in terms of what is recorded of the tokens. -/
def PartialSummary (s : TokenUsage × Bool) : Prop :=
  s.2 = false ∧ s.1.input_tokens ≠ none ∧ s.1.output_tokens = none

theorem partialSummary_anthropic {events : List Json} :
    PartialSummary (anthropicUsage events,
        !events.any fun ev => startsUsage ev || (reportedOutput ev).isSome) ↔
      ¬ OutputReported events := by
  simp only [PartialSummary, anthropicUsage, Bool.not_eq_false', List.any_eq_true,
    Bool.or_eq_true, lastReport_eq_none, OutputReported, ne_eq]
  constructor
  · rintro ⟨⟨ev, hev, hstart | hout⟩, -, hnone⟩ hreported
    · obtain ⟨ev', hev', hsome⟩ := hreported ⟨ev, hev, hstart⟩
      simp [hnone ev' hev'] at hsome
    · simp [hnone ev hev] at hout
  · intro hnot
    obtain ⟨⟨ev, hev, hstart⟩, hnone⟩ := Classical.not_imp.mp hnot
    refine ⟨⟨ev, hev, .inl hstart⟩, fun hin => startsUsage_reports hstart (hin ev hev),
      fun ev' hev' => ?_⟩
    by_contra hsome
    exact hnone ⟨ev', hev', Option.isSome_iff_ne_none.mpr hsome⟩

/-- Two summaries agree, or the first is flagged, and neither is partial. -/
def SummariesAgree (small large : Option (TokenUsage × Bool)) : Prop :=
  (small.map Prod.fst = large.map Prod.fst ∨ ∃ s ∈ small, s.2 = true) ∧
    (∀ s ∈ small, ¬ PartialSummary s) ∧ ∀ s ∈ large, ¬ PartialSummary s

theorem summariesAgree_iff (provider : Provider) (kept further : JsString) :
    SummariesAgree (summaryOf provider kept) (summaryOf provider (kept ++ further)) ↔
      Settled provider kept further := by
  cases provider with
  | anthropic =>
    simp only [summaryOf, Settled, ← kept_anthropicCut kept further,
      ← whole_anthropicCut kept further]
    generalize anthropicCut kept further = c
    simp only [SummariesAgree, Cut.AnthropicSettled, Cut.BeforeUsage, carriesUsage,
      Option.map_some, Option.some.injEq, Option.mem_def, forall_eq', exists_eq_left',
      partialSummary_anthropic, not_not, anthropicUsage_eq_iff, Bool.not_eq_true',
      List.any_eq_false, Bool.not_eq_true]
    rw [or_comm]
  | openai =>
    have hpartial : ∀ u, ¬ PartialSummary (openAiUsage u, false) := by
      rintro u ⟨-, -, hout⟩
      simp [openAiUsage] at hout
    have hflagged : ¬ PartialSummary (noUsage, true) := by
      rintro ⟨hmissing, -⟩
      simp at hmissing
    have hne : ∀ u, openAiUsage u ≠ noUsage := by
      intro u heq
      simp [openAiUsage, noUsage] at heq
    simp only [summaryOf, Settled, openAiValues, values_openAiEvents, kept_openAiCut kept further,
      whole_openAiCut kept further]
    generalize openAiCut kept further = c
    have hthrows : ∀ {chunks : List Json}, Throws chunks →
        (if chunks.all Json.isObject then some chunks else none) = none :=
      fun h => if_neg (by simpa [Throws] using h)
    have hreads : ∀ {chunks : List Json}, ¬ Throws chunks →
        (if chunks.all Json.isObject then some chunks else none) = some chunks :=
      fun h => if_pos (by simpa [Throws] using h)
    simp only [SummariesAgree, Cut.OpenAiSettled, Cut.behindUsage_iff]
    by_cases hkept : Throws c.kept
    · rw [hthrows hkept]
      by_cases hwhole : Throws c.whole
      · rw [hthrows hwhole]
        simp [hkept, hwhole]
      · rw [hreads hwhole]
        simp [hkept, hwhole]
    · rw [hreads hkept]
      by_cases hwhole : Throws c.whole
      · rw [hthrows hwhole]
        cases husage : usageOf c.kept with
        | none => simp [hkept, hwhole, husage, hflagged]
        | some u => simp [hkept, hwhole, husage]
      · rw [hreads hwhole]
        cases husage : usageOf c.kept with
        | none =>
          cases husage' : usageOf c.whole with
          | none => simp [hkept, hwhole, husage, husage', hflagged]
          | some u' => simp [hkept, hwhole, husage, husage', hflagged, hpartial]
        | some u =>
          cases husage' : usageOf c.whole with
          | none => simp [hkept, hwhole, husage, husage', hne]
          | some u' => simp [hkept, hwhole, husage, husage', hpartial, ← openAiUsage_eq_iff]

/-- The tokens and the flag of what is recorded. -/
def summary (recorded : Option (JsString × UsageMetrics)) : Option (TokenUsage × Bool) :=
  recorded.map fun r => (r.2.tokens, r.2.usage_missing)

theorem summariesAgree_summary (small large : Option (JsString × UsageMetrics)) :
    SummariesAgree (summary small) (summary large) ↔
      AgreesOrFlagged small large ∧ ¬ PartialUsage small ∧ ¬ PartialUsage large := by
  simp only [SummariesAgree, AgreesOrFlagged, PartialUsage, summary, PartialSummary]
  cases small with
  | none =>
    cases large with
    | none => simp
    | some l => simp
  | some r =>
    cases large with
    | none => simp [UsageMetrics.tokens]
    | some l => simp [UsageMetrics.tokens]

section Limits

variable {σ : Type} (dec : Decoder σ) (provider : Provider) (reqBodyText : JsString)
  (durationMs durationMs' startedAt : Float) (chunks : List ByteChunk)

/-- What the larger limit keeps behind the text that the smaller one keeps. -/
def furtherText (small large : ℕ) : JsString :=
  (decodedText dec (chunksWithin large 0 chunks)).drop
    (decodedText dec (chunksWithin small 0 chunks)).length

theorem decodedText_append {small large : ℕ} (hwithin : Within small large) :
    decodedText dec (chunksWithin small 0 chunks) ++ furtherText dec chunks small large =
      decodedText dec (chunksWithin large 0 chunks) := by
  have hkept : (captureOf dec small chunks).timedChunks <+:
      (captureOf dec large chunks).timedChunks := prefix_captured hwithin chunks
  obtain ⟨more, hmore⟩ := hkept
  have htext : decodedText dec (chunksWithin large 0 chunks) =
      decodedText dec (chunksWithin small 0 chunks) ++ textOf more := by
    rw [← capturedText_eq, ← capturedText_eq, capturedText, capturedText, ← hmore]
    simp [textOf]
  rw [furtherText, htext, List.drop_left]

/-- **What two limits record.** The smaller one keeps a prefix of what the larger
one keeps. What it records is what the larger one records, or flagged, and
neither records a partial usage unflagged, exactly where the request is no
JSON or the place in the stream where the smaller limit falls, behind the
chunks within it, is settled: before the first usage or behind the last reports. -/
theorem capture_limit_iff (small large : ℕ) (hwithin : Within small large) :
    (captureOf dec small chunks).timedChunks <+: (captureOf dec large chunks).timedChunks ∧
    (AgreesOrFlagged
          (flushCapture dec small provider reqBodyText durationMs startedAt chunks)
          (flushCapture dec large provider reqBodyText durationMs' startedAt chunks) ∧
        ¬ PartialUsage (flushCapture dec small provider reqBodyText durationMs startedAt chunks) ∧
        ¬ PartialUsage (flushCapture dec large provider reqBodyText durationMs' startedAt chunks) ↔
      Json.parse reqBodyText = none ∨
        Settled provider (decodedText dec (chunksWithin small 0 chunks))
          (furtherText dec chunks small large)) := by
  refine ⟨prefix_captured hwithin chunks, ?_⟩
  have hsmall := flushCapture_summary dec small provider reqBodyText durationMs startedAt chunks
  have hlarge := flushCapture_summary dec large provider reqBodyText durationMs' startedAt chunks
  rw [← summariesAgree_summary, summary, summary, hsmall, hlarge, capturedText_eq, capturedText_eq,
    ← decodedText_append dec chunks hwithin]
  cases Json.parse reqBodyText with
  | none => simp [SummariesAgree]
  | some body => simp [summariesAgree_iff]

end Limits

/-! ## A limit between the two usages of a message -/

/-- A decoder that is right on ASCII. -/
def asciiDecoder : Decoder Unit where
  start := ()
  decode _ bytes := (some (bytes.map UInt8.toUInt16), ())
  finish _ := some []
  base64 _ := []

def asciiBytes (text : String) : List UInt8 := (js text).map UInt16.toUInt8

def messageStart : List UInt8 :=
  asciiBytes
    "data: \x7b\"type\":\"message_start\",\"message\":\x7b\"usage\":\x7b\"input_tokens\":10\x7d\x7d\x7d\n\n"

def messageDelta : List UInt8 :=
  asciiBytes "data: \x7b\"type\":\"message_delta\",\"usage\":\x7b\"output_tokens\":50\x7d\x7d\n\n"

def twoChunks : List ByteChunk := [⟨messageStart, 1⟩, ⟨messageDelta, 2⟩]

/-- Two chunks, a limit that keeps the first of them and no limit: the input
tokens are recorded without output tokens, unflagged. -/
theorem limit_cuts_message :
    Within messageStart.length 0 ∧
    ¬ AgreesOrFlagged
        (flushCapture asciiDecoder messageStart.length .anthropic (js "\x7b\x7d") 3 0 twoChunks)
        (flushCapture asciiDecoder 0 .anthropic (js "\x7b\x7d") 3 0 twoChunks) ∧
    PartialUsage
      (flushCapture asciiDecoder messageStart.length .anthropic (js "\x7b\x7d") 3 0 twoChunks) := by
  have hsmall : (flushCapture asciiDecoder messageStart.length .anthropic (js "\x7b\x7d") 3 0
      twoChunks).map (fun r => (r.2.usage_missing, r.2.input_tokens.isSome,
        r.2.output_tokens.isSome)) = some (false, true, false) := by decide +kernel
  have hlarge : (flushCapture asciiDecoder 0 .anthropic (js "\x7b\x7d") 3 0
      twoChunks).map (fun r => r.2.output_tokens.isSome) = some true := by decide +kernel
  obtain ⟨r, hr, hvalues⟩ := Option.map_eq_some_iff.mp hsmall
  obtain ⟨r', hr', hout'⟩ := Option.map_eq_some_iff.mp hlarge
  simp only [Prod.mk.injEq, Option.isSome_eq_false_iff, Option.isNone_iff_eq_none] at hvalues
  obtain ⟨hmissing, hin, hout⟩ := hvalues
  refine ⟨.inl rfl, ?_, r, hr, hmissing, Option.isSome_iff_ne_none.mp hin, hout⟩
  rw [hr, hr']
  rintro (heq | ⟨x, hx, hflag⟩)
  · have houts : r.2.output_tokens = r'.2.output_tokens :=
      congrArg TokenUsage.output_tokens (Option.some.inj heq)
    rw [← houts, hout] at hout'
    simp at hout'
  · obtain rfl := Option.some.inj hx
    simp [hmissing] at hflag

def messageStop : List UInt8 := asciiBytes "data: \x7b\"type\":\"message_stop\"\x7d\n\n"

def threeChunks : List ByteChunk := twoChunks ++ [⟨messageStop, 3⟩]

/-- Behind a place where no report is left, and which is not inside a block. -/
theorem Cut.behind_of_none {α : Type} {c : Cut} {report : Json → Option α} {initial : Option α}
    (hbehind : ∀ ev ∈ c.behind, report ev = none) (htorn : c.torn.length = 0) :
    c.Behind report initial := by
  have hnone : lastReport report c.behind = none := lastReport_eq_none.mpr hbehind
  refine ⟨fun v hv => ?_, fun _ v hv => ?_⟩
  · rw [hnone] at hv
    cases hv
  · rw [List.length_eq_zero_iff.mp htorn] at hv
    cases hv

/-- A limit between the last report and the end of the stream. -/
theorem capture_limit_iff_behindReports :
    let cap := messageStart.length + messageDelta.length
    AgreesOrFlagged
      (flushCapture asciiDecoder cap .anthropic (js "\x7b\x7d") 3 0 threeChunks)
      (flushCapture asciiDecoder 0 .anthropic (js "\x7b\x7d") 4 0 threeChunks) := by
  intro cap
  refine (((capture_limit_iff asciiDecoder .anthropic (js "\x7b\x7d") 3 4 0 threeChunks cap 0
    (.inl rfl)).2.mpr (.inr ?_)).1)
  have htorn : (anthropicCut (decodedText asciiDecoder (chunksWithin cap 0 threeChunks))
      (furtherText asciiDecoder threeChunks cap 0)).torn.length = 0 := by decide +kernel
  have hsilent : ((anthropicCut (decodedText asciiDecoder (chunksWithin cap 0 threeChunks))
      (furtherText asciiDecoder threeChunks cap 0)).behind.all fun ev =>
        (reportedInput ev).isNone && (reportedOutput ev).isNone &&
        (reportedCacheCreate ev).isNone && (reportedCacheRead ev).isNone &&
        (reportedThinking ev).isNone) = true := by decide +kernel
  have hout : ((anthropicCut (decodedText asciiDecoder (chunksWithin cap 0 threeChunks))
      (furtherText asciiDecoder threeChunks cap 0)).before.any fun ev =>
        (reportedOutput ev).isSome) = true := by decide +kernel
  show Cut.AnthropicSettled _
  generalize anthropicCut _ _ = c at htorn hsilent hout ⊢
  simp only [List.all_eq_true, Bool.and_eq_true, Option.isNone_iff_eq_none] at hsilent
  obtain ⟨ev, hev, hreports⟩ := List.any_eq_true.mp hout
  have hreported : ∀ more, OutputReported (c.before ++ more) :=
    fun more _ => ⟨ev, List.mem_append_left more hev, hreports⟩
  refine ⟨.inr ⟨?_, ?_, ?_, ?_, ?_⟩, hreported _, hreported _⟩
  · exact Cut.behind_of_none (fun ev hev => (hsilent ev hev).1.1.1.1) htorn
  · exact Cut.behind_of_none (fun ev hev => (hsilent ev hev).1.1.1.2) htorn
  · exact Cut.behind_of_none (fun ev hev => (hsilent ev hev).1.1.2) htorn
  · exact Cut.behind_of_none (fun ev hev => (hsilent ev hev).1.2) htorn
  · exact Cut.behind_of_none (fun ev hev => (hsilent ev hev).2) htorn

end UmansGate.Usage
