/-
UmansGate.Usage.ChunkTheorems — the events of a response do not depend on
how it was cut into chunks.

`anthropicEvents` and `openAiEvents` read the events off a whole text, each
stamped with the place behind the blank line that ends its block (none for
the text behind the last one). The parsers give these events with the
arrival time of the place for a stamp (`parseAnthropicSse_eq`,
`parseOpenAiSse_eq`), so only the times see the chunks.
-/
import UmansGate.Usage.Extract

namespace UmansGate.Usage

open UmansGate.Lib
open UmansGate.Lib.Framing

/-! ## The events of a whole text -/

def anthropicEvents (text : JsString) : List (Stamped (Option ℕ)) :=
  anthropicTail none
    ((places blankLine 0 (blocksOf blankLine text)).foldl
      (fun s p => anthropicBlock (some p.2) s p.1) ([], []))
    (restOf blankLine text)

/-- None where the parser throws. -/
def openAiEvents (text : JsString) : Option (List (Stamped (Option ℕ))) :=
  openAiTail none
    ((places blankLine 0 (blocksOf blankLine text)).foldl
      (fun s p => openAiBlock (some p.2) s p.1) (some []))
    (restOf blankLine text)

/-- The time of the chunk that brings the text up to a place; of the last one,
where there is no place. -/
def receivedAt (chunks : List TimedChunk) : Option ℕ → Option Float
  | some place => arrival 0 chunks place
  | none => lastTime chunks

/-! ## The parsers read the whole text -/

section Stamps

variable {τ τ' : Type} (f : τ → τ')

theorem anthropicBlock_map (time : τ) (s : JsString × List (Stamped τ)) (block : JsString) :
    anthropicBlock (f time) (s.1, s.2.map (Stamped.map f)) block =
      ((anthropicBlock time s block).1, (anthropicBlock time s block).2.map (Stamped.map f)) := by
  simp only [anthropicBlock, List.map_append, Prod.mk.injEq, true_and]
  cases parseEventBlock block ((linesOf block).foldl eventName s.1) with
  | none => rfl
  | some ev => rfl

theorem foldl_anthropicBlock_map {τ : Type} (f : Option ℕ → τ) (blocks : List (JsString × ℕ))
    (s : JsString × List (Stamped (Option ℕ))) :
    blocks.foldl (fun s p => anthropicBlock (f (some p.2)) s p.1)
        (s.1, s.2.map (Stamped.map f)) =
      ((blocks.foldl (fun s p => anthropicBlock (some p.2) s p.1) s).1,
        (blocks.foldl (fun s p => anthropicBlock (some p.2) s p.1) s).2.map (Stamped.map f)) := by
  induction blocks generalizing s with
  | nil => rfl
  | cons p blocks ih => simp only [List.foldl_cons, anthropicBlock_map, ih]

theorem anthropicTail_map (time : τ) (s : JsString × List (Stamped τ)) (buf : JsString) :
    anthropicTail (f time) (s.1, s.2.map (Stamped.map f)) buf =
      (anthropicTail time s buf).map (Stamped.map f) := by
  simp only [anthropicTail]
  split
  · rfl
  · cases parseEventBlock buf s.1 with
    | none => simp
    | some ev => simp [Stamped.map]

theorem openAiLine_map (time : τ) (result : Option (List (Stamped τ))) (line : JsString) :
    openAiLine (f time) (result.map (List.map (Stamped.map f))) line =
      (openAiLine time result line).map (List.map (Stamped.map f)) := by
  unfold openAiLine
  split
  · cases parseDataLine (line.drop 6) with
    | none => rfl
    | some ch =>
      simp only
      split
      · split
        · simp [Option.map_map, Function.comp_def, Stamped.map]
        · rfl
      · rfl
  · rfl

theorem openAiBlock_map (time : τ) (result : Option (List (Stamped τ))) (block : JsString) :
    openAiBlock (f time) (result.map (List.map (Stamped.map f))) block =
      (openAiBlock time result block).map (List.map (Stamped.map f)) :=
  List.foldl_hom _ fun result line => openAiLine_map f time result line

theorem foldl_openAiBlock_map {τ : Type} (f : Option ℕ → τ) (blocks : List (JsString × ℕ))
    (result : Option (List (Stamped (Option ℕ)))) :
    blocks.foldl (fun s p => openAiBlock (f (some p.2)) s p.1)
        (result.map (List.map (Stamped.map f))) =
      (blocks.foldl (fun s p => openAiBlock (some p.2) s p.1) result).map
        (List.map (Stamped.map f)) := by
  induction blocks generalizing result with
  | nil => rfl
  | cons p blocks ih => simp only [List.foldl_cons, openAiBlock_map, ih]

theorem openAiTail_map (time : τ) (result : Option (List (Stamped τ))) (buf : JsString) :
    openAiTail (f time) (result.map (List.map (Stamped.map f))) buf =
      (openAiTail time result buf).map (List.map (Stamped.map f)) := by
  unfold openAiTail
  split
  · rfl
  · exact openAiBlock_map f time result buf

end Stamps

theorem blankLine_ne_nil : blankLine ≠ [] := List.cons_ne_nil _ _

theorem foldl_feed_blankLine {σ : Type} (handle : Option Float → σ → JsString → σ)
    (chunks : List TimedChunk) (s : σ) :
    chunks.foldl (feed blankLine handle) (s, []) =
      ((places blankLine 0 (blocksOf blankLine (textOf chunks))).foldl
        (fun s p => handle (receivedAt chunks (some p.2)) s p.1) s,
        restOf blankLine (textOf chunks)) :=
  foldl_feed blankLine_ne_nil handle rfl (framed_blocksOf blankLine_ne_nil (textOf chunks)) 0 s

theorem parseAnthropicSse_eq (chunks : List TimedChunk) :
    parseAnthropicSse chunks =
      (anthropicEvents (textOf chunks)).map (Stamped.map (receivedAt chunks)) := by
  rw [parseAnthropicSse, foldl_feed_blankLine, anthropicEvents, ← anthropicTail_map,
    ← foldl_anthropicBlock_map]
  rfl

theorem parseOpenAiSse_eq (chunks : List TimedChunk) :
    parseOpenAiSse chunks =
      (openAiEvents (textOf chunks)).map (List.map (Stamped.map (receivedAt chunks))) := by
  rw [parseOpenAiSse, foldl_feed_blankLine, openAiEvents, ← openAiTail_map,
    ← foldl_openAiBlock_map]
  rfl

theorem map_value_map {τ τ' : Type} (f : τ → τ') (events : List (Stamped τ)) :
    (events.map (Stamped.map f)).map Stamped.value = events.map Stamped.value := by
  simp [List.map_map, Function.comp_def]

/-! ## The counts see the values alone -/

/-- The metrics but those of times. -/
def UsageMetrics.untimed (m : UsageMetrics) : UsageMetrics :=
  { m with ttft_ms := none, duration_ms := none, tps := none }

theorem tokens_foldl (started : Float) (events : List (Stamped (Option Float)))
    (st : AnthropicStream) :
    (events.foldl (AnthropicStream.event started) st).tokens =
      (events.map Stamped.value).foldl AnthropicTokens.seen st.tokens := by
  induction events generalizing st with
  | nil => rfl
  | cons ev events ih => simp [ih, AnthropicStream.event]

theorem seen_foldl (started : Float) (chunks : List (Stamped (Option Float)))
    (st : OpenAiStream) :
    (chunks.foldl (OpenAiStream.event started) st).seen =
      (chunks.map Stamped.value).foldl OpenAiSeen.seen st.seen := by
  induction chunks generalizing st with
  | nil => rfl
  | cons ch chunks ih => simp [ih, OpenAiStream.event]

theorem extractAnthropicStreaming_untimed {events events' : List (Stamped (Option Float))}
    (h : events.map Stamped.value = events'.map Stamped.value) (started started' : Float)
    (wall wall' : Option Float) :
    (extractAnthropicStreaming events started wall).untimed =
      (extractAnthropicStreaming events' started' wall').untimed := by
  simp [extractAnthropicStreaming, UsageMetrics.untimed, tokens_foldl, h]

theorem extractOpenAiStreaming_untimed {chunks chunks' : List (Stamped (Option Float))}
    (h : chunks.map Stamped.value = chunks'.map Stamped.value) (started started' : Float)
    (wall wall' : Option Float) :
    (extractOpenAiStreaming chunks started wall).untimed =
      (extractOpenAiStreaming chunks' started' wall').untimed := by
  simp only [extractOpenAiStreaming, seen_foldl, h]
  split
  · simp only [UsageMetrics.untimed, emptyMetrics]
  · simp only [UsageMetrics.untimed]

/-! ## When an event is received -/

/-- The text of a block gives the event under some name. -/
def AnthropicRead (block : JsString) (v : Json) : Prop :=
  ∃ evType, parseEventBlock block evType = some v

/-- A data line of the block gives the chunk. -/
def OpenAiRead (block : JsString) (v : Json) : Prop :=
  ∃ line ∈ linesOf block, js "data: " <+: line ∧ parseDataLine (line.drop 6) = some v

/-- The event comes from a block and has the time of the chunk that its blank
line ends in, or it comes from the text behind the last block and has the time
of the last chunk. -/
def Received (reads : JsString → Json → Prop) (chunks : List TimedChunk)
    (e : Stamped (Option Float)) : Prop :=
  (∃ block place before chunk after,
    (block, place) ∈ places blankLine 0 (blocksOf blankLine (textOf chunks)) ∧
    reads block e.value ∧ block ++ blankLine <:+ (textOf chunks).take place ∧
    chunks = before ++ chunk :: after ∧ (textOf before).length < place ∧
    place ≤ (textOf before).length + chunk.text.length ∧ e.received_at = some chunk.time) ∨
  (reads (restOf blankLine (textOf chunks)) e.value ∧ e.received_at = lastTime chunks)

/-- The same of an event stamped with its place. -/
def ReadAt (reads : JsString → Json → Prop) (text : JsString) (e : Stamped (Option ℕ)) : Prop :=
  match e.received_at with
  | some place => ∃ block, (block, place) ∈ places blankLine 0 (blocksOf blankLine text) ∧
      reads block e.value
  | none => reads (restOf blankLine text) e.value

theorem ReadAt.received {reads : JsString → Json → Prop} {chunks : List TimedChunk}
    {e : Stamped (Option ℕ)} (h : ReadAt reads (textOf chunks) e) :
    Received reads chunks (e.map (receivedAt chunks)) := by
  obtain ⟨v, at?⟩ := e
  cases at? with
  | none => exact .inr ⟨h, rfl⟩
  | some place =>
    obtain ⟨block, hmem, hread⟩ := h
    obtain ⟨hsuffix, hle⟩ :=
      (framed_blocksOf blankLine_ne_nil (textOf chunks)).suffix_take [] hmem
    have hpos := lt_place hmem
    obtain ⟨before, chunk, after, hchunks, htime, hbefore, hafter⟩ :=
      arrival_spec (lt_of_lt_of_le (Nat.zero_lt_succ _) hpos : 0 < place)
        (by simpa using hle : place ≤ 0 + (textOf chunks).length)
    exact .inl ⟨block, place, before, chunk, after, hmem, hread, hsuffix, hchunks,
      by simpa using hbefore, by simpa using hafter, htime⟩

theorem readAt_anthropicEvents (text : JsString) :
    ∀ e ∈ anthropicEvents text, ReadAt AnthropicRead text e := by
  have hblocks : ∀ e ∈ ((places blankLine 0 (blocksOf blankLine text)).foldl
      (fun s p => anthropicBlock (some p.2) s p.1)
      (([], []) : JsString × List (Stamped (Option ℕ)))).2, ReadAt AnthropicRead text e := by
    refine List.foldlRecOn (places blankLine 0 (blocksOf blankLine text)) _
      (motive := fun (s : JsString × List (Stamped (Option ℕ))) =>
        ∀ e ∈ s.2, ReadAt AnthropicRead text e) (by simp) ?_
    intro s hs p hp e he
    rcases List.mem_append.mp he with he | he
    · exact hs e he
    · obtain ⟨v, hv, rfl⟩ := Option.map_eq_some_iff.mp (Option.mem_toList.mp he)
      exact ⟨p.1, hp, _, hv⟩
  intro e he
  unfold anthropicEvents anthropicTail at he
  split at he
  · exact hblocks e he
  · rcases List.mem_append.mp he with he | he
    · exact hblocks e he
    · obtain ⟨v, hv, rfl⟩ := Option.map_eq_some_iff.mp (Option.mem_toList.mp he)
      exact ⟨_, hv⟩

theorem forall_openAiLine {τ : Type} {P : Stamped τ → Prop} {time : τ}
    {result : Option (List (Stamped τ))} {line : JsString} (h : ∀ e ∈ result.getD [], P e)
    (hnew : js "data: " <+: line → ∀ ch, parseDataLine (line.drop 6) = some ch → P ⟨ch, time⟩) :
    ∀ e ∈ (openAiLine time result line).getD [], P e := by
  unfold openAiLine
  split
  · rename_i hdata
    cases hparse : parseDataLine (line.drop 6) with
    | none => exact h
    | some ch =>
      simp only
      split
      · split
        · cases result with
          | none => simp
          | some events =>
            intro e he
            rcases List.mem_append.mp he with he | he
            · exact h e he
            · obtain rfl := List.mem_singleton.mp he
              exact hnew (List.isPrefixOf_iff_prefix.mp hdata) ch hparse
        · simp
      · exact h
  · exact h

theorem forall_openAiBlock {τ : Type} {P : Stamped τ → Prop} {time : τ}
    {result : Option (List (Stamped τ))} {block : JsString} (h : ∀ e ∈ result.getD [], P e)
    (hnew : ∀ ch, OpenAiRead block ch → P ⟨ch, time⟩) :
    ∀ e ∈ (openAiBlock time result block).getD [], P e :=
  List.foldlRecOn (linesOf block) (openAiLine time) (motive := fun r => ∀ e ∈ r.getD [], P e) h
    fun _ hr line hline => forall_openAiLine hr fun hdata ch hch => hnew ch ⟨line, hline, hdata, hch⟩

theorem readAt_openAiEvents (text : JsString) :
    ∀ e ∈ (openAiEvents text).getD [], ReadAt OpenAiRead text e := by
  have hblocks : ∀ e ∈ ((places blankLine 0 (blocksOf blankLine text)).foldl
      (fun s p => openAiBlock (some p.2) s p.1) (some [])).getD [], ReadAt OpenAiRead text e :=
    List.foldlRecOn (places blankLine 0 (blocksOf blankLine text)) _
      (motive := fun (r : Option (List (Stamped (Option ℕ)))) =>
        ∀ e ∈ r.getD [], ReadAt OpenAiRead text e) (by simp)
      fun r hr p hp => forall_openAiBlock hr fun ch hch => ⟨p.1, hp, hch⟩
  unfold openAiEvents openAiTail
  split
  · exact hblocks
  · exact forall_openAiBlock hblocks fun ch hch => hch

/-! ## Chunking -/

theorem parseAnthropicSse_values {chunks chunks' : List TimedChunk}
    (htext : textOf chunks = textOf chunks') :
    (parseAnthropicSse chunks).map Stamped.value =
      (parseAnthropicSse chunks').map Stamped.value := by
  rw [parseAnthropicSse_eq, parseAnthropicSse_eq, map_value_map, map_value_map, htext]

/-- Either both throw or both give chunks of the same values. -/
theorem parseOpenAiSse_values {chunks chunks' : List TimedChunk}
    (htext : textOf chunks = textOf chunks') :
    (parseOpenAiSse chunks = none ∧ parseOpenAiSse chunks' = none) ∨
      ∃ r r', parseOpenAiSse chunks = some r ∧ parseOpenAiSse chunks' = some r' ∧
        r.map Stamped.value = r'.map Stamped.value := by
  rw [parseOpenAiSse_eq, parseOpenAiSse_eq, htext]
  cases openAiEvents (textOf chunks') with
  | none => exact .inl ⟨rfl, rfl⟩
  | some events => exact .inr ⟨_, _, rfl, rfl, by rw [map_value_map, map_value_map]⟩

theorem received_anthropic (chunks : List TimedChunk) :
    ∀ e ∈ parseAnthropicSse chunks, Received AnthropicRead chunks e := by
  rw [parseAnthropicSse_eq]
  intro e he
  obtain ⟨e, hmem, rfl⟩ := List.mem_map.mp he
  exact (readAt_anthropicEvents _ e hmem).received

theorem received_openAi {chunks : List TimedChunk} {events : List (Stamped (Option Float))}
    (hevents : parseOpenAiSse chunks = some events) :
    ∀ e ∈ events, Received OpenAiRead chunks e := by
  rw [parseOpenAiSse_eq] at hevents
  obtain ⟨read, hread, rfl⟩ := Option.map_eq_some_iff.mp hevents
  intro e he
  obtain ⟨e, hmem, rfl⟩ := List.mem_map.mp he
  exact (readAt_openAiEvents _ e (by rw [hread]; exact hmem)).received

/-- Two ways to cut a response give the same events apart from `received_at` and
the same metrics apart from times, and every `received_at` is the time of the
chunk that completes the event. -/
theorem sse_chunking :
    (∀ chunks chunks' : List TimedChunk, textOf chunks = textOf chunks' →
      (parseAnthropicSse chunks).map Stamped.value = (parseAnthropicSse chunks').map Stamped.value ∧
      (parseOpenAiSse chunks).map (List.map Stamped.value) =
        (parseOpenAiSse chunks').map (List.map Stamped.value) ∧
      ∀ (started started' : Float) (wall wall' : Option Float),
        (extractAnthropicStreaming (parseAnthropicSse chunks) started wall).untimed =
          (extractAnthropicStreaming (parseAnthropicSse chunks') started' wall').untimed ∧
        (parseOpenAiSse chunks).map (fun r => (extractOpenAiStreaming r started wall).untimed) =
          (parseOpenAiSse chunks').map
            fun r => (extractOpenAiStreaming r started' wall').untimed) ∧
    ∀ chunks : List TimedChunk,
      parseAnthropicSse chunks =
        (anthropicEvents (textOf chunks)).map (Stamped.map (receivedAt chunks)) ∧
      parseOpenAiSse chunks =
        (openAiEvents (textOf chunks)).map (List.map (Stamped.map (receivedAt chunks))) ∧
      (∀ e ∈ parseAnthropicSse chunks, Received AnthropicRead chunks e) ∧
      ∀ events, parseOpenAiSse chunks = some events →
        ∀ e ∈ events, Received OpenAiRead chunks e := by
  refine ⟨fun chunks chunks' htext => ?_, fun chunks => ⟨parseAnthropicSse_eq chunks,
    parseOpenAiSse_eq chunks, received_anthropic chunks, fun _ => received_openAi⟩⟩
  have hanthropic := parseAnthropicSse_values htext
  rcases parseOpenAiSse_values htext with ⟨hc, hc'⟩ | ⟨r, r', hc, hc', hvalues⟩
  · rw [hc, hc']
    refine ⟨hanthropic, rfl, fun started started' wall wall' =>
      ⟨extractAnthropicStreaming_untimed hanthropic started started' wall wall', ?_⟩⟩
    rw [Option.map_none, Option.map_none]
  · rw [hc, hc']
    refine ⟨hanthropic, congrArg some hvalues, fun started started' wall wall' =>
      ⟨extractAnthropicStreaming_untimed hanthropic started started' wall wall', ?_⟩⟩
    rw [Option.map_some, Option.map_some,
      extractOpenAiStreaming_untimed hvalues started started' wall wall']

/-- A block in two chunks, cut in its data line. -/
theorem sse_chunking_pingInTwo :
    let ping := js "event: ping\ndata: \x7b\"type\":\"ping\",\"n\":1\x7d\n\n"
    let cut : List TimedChunk := [⟨ping.take 30, 1⟩, ⟨ping.drop 30, 2⟩]
    (parseAnthropicSse cut).map Stamped.value =
        (parseAnthropicSse [⟨ping, 3⟩]).map Stamped.value ∧
      (parseAnthropicSse cut).length = 1 :=
  ⟨(sse_chunking.1 _ _ (by decide +kernel)).1, by decide +kernel⟩

end UmansGate.Usage
