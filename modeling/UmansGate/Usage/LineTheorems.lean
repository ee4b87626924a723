/-
UmansGate.Usage.LineTheorems — what the parsers read of the lines of a text.

Of each block the Anthropic parser reads the last `data: ` line, under the
name in force (`anthropicLines`), and the OpenAI parser every `data: ` line
for itself (`openAiLines`). What the parsers make of a text is this over its
blocks and the text behind the last one (`values_anthropicEvents`,
`values_openAiEvents`), and of a longer text they read the same blocks first
(`pieces_append`).
-/
import Mathlib.Data.List.TakeWhile
import UmansGate.Lib.EventStream
import UmansGate.Usage.ChunkTheorems

namespace UmansGate.Usage

open UmansGate.Lib UmansGate.Lib.EventStream
open UmansGate.Lib.Framing

/-- The blocks of a text and the text behind the last one. -/
def pieces (text : JsString) : List JsString :=
  blocksOf blankLine text ++ [restOf blankLine text]

/-- What follows a text goes on from the text behind its last block. -/
theorem pieces_append (text more : JsString) :
    pieces (text ++ more) = blocksOf blankLine text ++ pieces (restOf blankLine text ++ more) := by
  have hlong := (framed_blocksOf blankLine_ne_nil text).append
    (framed_blocksOf blankLine_ne_nil (restOf blankLine text ++ more))
  obtain ⟨hblocks, hrest⟩ :=
    hlong.unique (framed_blocksOf blankLine_ne_nil (text ++ more))
  rw [pieces, pieces, ← hblocks, ← hrest, List.append_assoc]

/-! ## White space -/

theorem trim_eq_nil {s : JsString} (h : trim s = []) : ∀ u ∈ s, isSpaceUnit u = true := by
  rw [trim, List.reverse_eq_nil_iff, List.dropWhile_eq_nil_iff] at h
  have hnone : s.dropWhile isSpaceUnit = [] := by
    cases hs : s.dropWhile isSpaceUnit with
    | nil => rfl
    | cons u rest =>
      have hhead := List.head?_dropWhile_not isSpaceUnit s
      have hspace := h u (by simp [hs])
      rw [hs] at hhead
      simp [hspace] at hhead
  exact List.dropWhile_eq_nil_iff.mp hnone

theorem mem_of_mem_linesOf {s line : JsString} (h : line ∈ linesOf s) {u : UInt16}
    (hu : u ∈ line) : u ∈ s := by
  have hlines : [10].intercalate (linesOf s) = s := List.intercalate_splitOn 10
  rw [← hlines]
  cases hs : linesOf s with
  | nil =>
    rw [hs] at h
    cases h
  | cons c p =>
    rw [intercalate_lf, List.mem_append, List.mem_flatMap]
    rw [hs] at h
    rcases List.mem_cons.mp h with rfl | hl
    · exact .inl hu
    · exact .inr ⟨line, hl, List.mem_cons_of_mem 10 hu⟩

/-- There is nothing to read in white space. -/
theorem noData_of_trim {buf : JsString} (h : trim buf = []) :
    ∀ line ∈ linesOf buf, (js "data: ").isPrefixOf line = false := by
  intro line hline
  rw [Bool.eq_false_iff, ne_eq, List.isPrefixOf_iff_prefix]
  intro hstarts
  have hmem : (100 : UInt16) ∈ buf := mem_of_mem_linesOf hline (hstarts.subset (by decide))
  have := trim_eq_nil h 100 hmem
  revert this
  decide

/-! ## The Anthropic parser -/

/-- The event of the text behind `data: `. -/
def dataEvent (type data : JsString) : Option Json :=
  match Json.parse data with
  | none => none
  | some .null => none
  | some parsed => some (eventOf type parsed)

/-- `parseEventBlock` of the lines of a block. -/
def parseLines (lines : List JsString) (evType : JsString) : Option Json :=
  let (type, dataLine) := lines.foldl eventLine (evType, none)
  dataLine.bind (dataEvent type)

theorem parseEventBlock_eq (block evType : JsString) :
    parseEventBlock block evType = parseLines (linesOf block) evType := by
  unfold parseEventBlock parseLines
  simp only []
  cases ((linesOf block).foldl eventLine (evType, none)).2 with
  | none => rfl
  | some data =>
    simp only [Option.bind_some]
    split
    · rename_i hdone
      rw [hdone, dataEvent]
      rfl
    · rfl

/-- The name and the events of some lines that stand together. -/
def anthropicLines (s : JsString × List Json) (lines : List JsString) : JsString × List Json :=
  let evType := lines.foldl eventName s.1
  (evType, s.2 ++ (parseLines lines evType).toList)

/-- Behind some lines the name is that of one of them or as before. -/
theorem exists_foldl_eventName (lines : List JsString) :
    ∃ name : Option JsString, ∀ type, lines.foldl eventName type = name.getD type := by
  induction lines with
  | nil => exact ⟨none, fun _ => rfl⟩
  | cons l lines ih =>
    obtain ⟨name, hname⟩ := ih
    simp only [List.foldl_cons, hname, eventName]
    cases name with
    | some name => exact ⟨some name, fun _ => rfl⟩
    | none =>
      split
      · exact ⟨some _, fun _ => rfl⟩
      · exact ⟨none, fun _ => rfl⟩

theorem foldl_eventLine_fst (lines : List JsString) (type : JsString) (data : Option JsString) :
    (lines.foldl eventLine (type, data)).1 = lines.foldl eventName type := by
  induction lines generalizing type data with
  | nil => rfl
  | cons l lines ih =>
    rw [List.foldl_cons, List.foldl_cons, eventLine, eventName]
    split
    · exact ih _ _
    · split
      · exact ih _ _
      · exact ih _ _

theorem foldl_eventLine_snd (lines : List JsString) (type type' : JsString)
    (data : Option JsString) :
    (lines.foldl eventLine (type, data)).2 = (lines.foldl eventLine (type', data)).2 := by
  induction lines generalizing type type' data with
  | nil => rfl
  | cons l lines ih =>
    rw [List.foldl_cons, List.foldl_cons, eventLine, eventLine]
    split
    · exact ih _ _ _
    · split
      · exact ih _ _ _
      · exact ih _ _ _

/-- The name behind the lines is the name they are read under. -/
theorem parseLines_foldl (lines : List JsString) (type : JsString) :
    parseLines lines (lines.foldl eventName type) = parseLines lines type := by
  obtain ⟨name, hname⟩ := exists_foldl_eventName lines
  unfold parseLines
  simp only [foldl_eventLine_fst]
  rw [foldl_eventLine_snd lines (lines.foldl eventName type) type, hname, hname]
  cases name <;> rfl

theorem eventLines_of_noData {lines : List JsString}
    (h : ∀ line ∈ lines, (js "data: ").isPrefixOf line = false) (type : JsString) :
    (lines.foldl eventLine (type, none)).2 = none := by
  induction lines generalizing type with
  | nil => rfl
  | cons l lines ih =>
    obtain ⟨hl, hlines⟩ := List.forall_mem_cons.mp h
    rw [List.foldl_cons, eventLine, hl]
    split
    · exact ih hlines _
    · exact ih hlines _

theorem parseLines_of_trim {buf : JsString} (h : trim buf = []) (type : JsString) :
    parseLines (linesOf buf) type = none := by
  unfold parseLines
  simp only [eventLines_of_noData (noData_of_trim h), Option.bind_none]

theorem foldl_anthropicBlock_value {τ ι : Type} (time : ι → τ) (blocks : List (JsString × ι))
    (s : JsString × List (Stamped τ)) :
    let r := blocks.foldl (fun s p => anthropicBlock (time p.2) s p.1) s
    (r.1, r.2.map Stamped.value) =
      (blocks.map Prod.fst).foldl (fun s block => anthropicLines s (linesOf block))
        (s.1, s.2.map Stamped.value) := by
  induction blocks generalizing s with
  | nil => rfl
  | cons p blocks ih =>
    simp only [List.foldl_cons, List.map_cons]
    rw [ih]
    congr 1
    simp only [anthropicBlock, anthropicLines, parseEventBlock_eq, List.map_append]
    cases parseLines (linesOf p.1) ((linesOf p.1).foldl eventName s.1) <;> rfl

theorem anthropicTail_value {τ : Type} (time : τ) (s : JsString × List (Stamped τ))
    (buf : JsString) :
    (anthropicTail time s buf).map Stamped.value =
      (anthropicLines (s.1, s.2.map Stamped.value) (linesOf buf)).2 := by
  unfold anthropicTail anthropicLines
  split
  · rename_i htrim
    simp [parseLines_of_trim htrim]
  · simp only [parseEventBlock_eq, parseLines_foldl, List.map_append]
    cases parseLines (linesOf buf) s.1 <;> rfl

/-- The name and the events that some blocks leave, read under a name. -/
def blocksRead (name : JsString) (blocks : List JsString) : JsString × List Json :=
  blocks.foldl (fun s block => anthropicLines s (linesOf block)) (name, [])

theorem foldl_anthropicLines_out (blocks : List JsString) (name : JsString) (out : List Json) :
    blocks.foldl (fun s block => anthropicLines s (linesOf block)) (name, out) =
      ((blocksRead name blocks).1, out ++ (blocksRead name blocks).2) := by
  induction blocks generalizing name out with
  | nil => simp [blocksRead]
  | cons block blocks ih =>
    have hfirst : ∀ out, anthropicLines (name, out) (linesOf block) =
        ((anthropicLines (name, []) (linesOf block)).1,
          out ++ (anthropicLines (name, []) (linesOf block)).2) := by
      intro out
      simp [anthropicLines]
    rw [blocksRead, List.foldl_cons, List.foldl_cons, hfirst out, ih, hfirst [], ih,
      List.nil_append, List.append_assoc]

/-- Blocks are read on under the name that the ones before them leave. -/
theorem blocksRead_append (name : JsString) (blocks more : List JsString) :
    blocksRead name (blocks ++ more) =
      ((blocksRead (blocksRead name blocks).1 more).1,
        (blocksRead name blocks).2 ++ (blocksRead (blocksRead name blocks).1 more).2) := by
  rw [blocksRead, List.foldl_append]
  exact foldl_anthropicLines_out more _ _

/-- The events of a text are those of the lines of its blocks. -/
theorem values_anthropicEvents (text : JsString) :
    (anthropicEvents text).map Stamped.value = (blocksRead [] (pieces text)).2 := by
  rw [anthropicEvents, anthropicTail_value, blocksRead, pieces, List.foldl_append]
  have hblocks := foldl_anthropicBlock_value (some : ℕ → Option ℕ)
    (places blankLine 0 (blocksOf blankLine text)) ([], [])
  simp only [map_fst_places, List.map_nil] at hblocks
  rw [hblocks]
  rfl

theorem parseAnthropicSse_lines (chunks : List TimedChunk) :
    (parseAnthropicSse chunks).map Stamped.value =
      (blocksRead [] (pieces (textOf chunks))).2 := by
  rw [parseAnthropicSse_eq, map_value_map, values_anthropicEvents]

/-! ## The OpenAI parser -/

/-- The chunks of some texts behind `data: `; a value that is false counts
for none. -/
def chunksIn (datas : List JsString) : List Json :=
  (datas.filterMap parseDataLine).filter Json.truthy

/-- The result of some lines: none where a chunk is no object. -/
def openAiResult (out : List Json) (datas : List JsString) : Option (List Json) :=
  if (chunksIn datas).all Json.isObject then some (out ++ chunksIn datas) else none

/-- The values of `openAiBlock`. -/
def openAiLines (result : Option (List Json)) (lines : List JsString) : Option (List Json) :=
  lines.foldl (fun result line =>
    if (js "data: ").isPrefixOf line then result.bind (openAiResult · [line.drop 6])
    else result) result

theorem openAiLine_value {τ : Type} (time : τ) (result : Option (List (Stamped τ)))
    (line : JsString) :
    (openAiLine time result line).map (List.map Stamped.value) =
      openAiLines (result.map (List.map Stamped.value)) [line] := by
  unfold openAiLine openAiLines
  simp only [List.foldl_cons, List.foldl_nil]
  split
  · cases hdata : parseDataLine (line.drop 6) with
    | none =>
      cases result <;> simp [openAiResult, chunksIn, hdata]
    | some ch =>
      cases htruthy : ch.truthy with
      | false => cases result <;> simp [openAiResult, chunksIn, hdata, htruthy]
      | true =>
        cases hobject : ch.isObject with
        | false => cases result <;> simp [openAiResult, chunksIn, hdata, htruthy, hobject]
        | true => cases result <;> simp [openAiResult, chunksIn, hdata, htruthy, hobject]
  · rfl

theorem openAiBlock_value {τ : Type} (time : τ) (result : Option (List (Stamped τ)))
    (block : JsString) :
    (openAiBlock time result block).map (List.map Stamped.value) =
      openAiLines (result.map (List.map Stamped.value)) (linesOf block) := by
  unfold openAiBlock
  induction linesOf block generalizing result with
  | nil => rfl
  | cons line lines ih =>
    rw [List.foldl_cons, ih, openAiLine_value]
    rfl

theorem openAiLines_of_noData {lines : List JsString}
    (h : ∀ line ∈ lines, (js "data: ").isPrefixOf line = false) (result : Option (List Json)) :
    openAiLines result lines = result := by
  induction lines with
  | nil => rfl
  | cons line lines ih =>
    obtain ⟨hline, hlines⟩ := List.forall_mem_cons.mp h
    rw [openAiLines, List.foldl_cons, if_neg (by simp [hline])]
    exact ih hlines

theorem openAiTail_value {τ : Type} (time : τ) (result : Option (List (Stamped τ)))
    (buf : JsString) :
    (openAiTail time result buf).map (List.map Stamped.value) =
      openAiLines (result.map (List.map Stamped.value)) (linesOf buf) := by
  unfold openAiTail
  split
  · rename_i htrim
    rw [openAiLines_of_noData (noData_of_trim htrim)]
  · exact openAiBlock_value time result buf

theorem foldl_openAiBlock_value {τ ι : Type} (time : ι → τ) (blocks : List (JsString × ι))
    (result : Option (List (Stamped τ))) :
    (blocks.foldl (fun s p => openAiBlock (time p.2) s p.1) result).map (List.map Stamped.value) =
      (blocks.map Prod.fst).foldl (fun s block => openAiLines s (linesOf block))
        (result.map (List.map Stamped.value)) := by
  induction blocks generalizing result with
  | nil => rfl
  | cons p blocks ih => rw [List.foldl_cons, ih, openAiBlock_value, List.map_cons, List.foldl_cons]

theorem chunksIn_append (datas more : List JsString) :
    chunksIn (datas ++ more) = chunksIn datas ++ chunksIn more := by
  rw [chunksIn, List.filterMap_append, List.filter_append]
  rfl

theorem openAiResult_append (out : List Json) (datas more : List JsString) :
    openAiResult out (datas ++ more) = (openAiResult out datas).bind (openAiResult · more) := by
  simp only [openAiResult, chunksIn_append, List.all_append]
  cases (chunksIn datas).all Json.isObject with
  | false => simp
  | true => simp [List.append_assoc]

/-- What follows `data: ` on a line. -/
def dataText? (line : JsString) : Option JsString :=
  if (js "data: ").isPrefixOf line then some (line.drop 6) else none

/-- What follows `data: ` on the lines of some blocks. -/
def dataTexts (blocks : List JsString) : List JsString :=
  (blocks.flatMap linesOf).filterMap dataText?

theorem openAiLines_eq (lines : List JsString) (result : Option (List Json)) :
    openAiLines result lines = result.bind (openAiResult · (lines.filterMap dataText?)) := by
  induction lines generalizing result with
  | nil => cases result <;> simp [openAiLines, openAiResult, chunksIn]
  | cons line lines ih =>
    rw [openAiLines, List.foldl_cons]
    have hfold := fun r => ih r
    simp only [openAiLines] at hfold
    rw [hfold]
    by_cases hline : (js "data: ").isPrefixOf line = true
    · rw [if_pos hline, List.filterMap_cons_some (by rw [dataText?, if_pos hline]),
        Option.bind_assoc]
      congr 1
      funext out
      exact (openAiResult_append out [line.drop 6] _).symm
    · rw [if_neg hline, List.filterMap_cons_none (by rw [dataText?, if_neg hline])]

/-- Lines that stand in several lists are read as if they stood in one. -/
theorem foldl_openAiLines {α : Type} (lines : α → List JsString) (xs : List α) :
    xs.foldl (fun result x => openAiLines result (lines x)) (some []) =
      openAiResult [] ((xs.flatMap lines).filterMap dataText?) := by
  have hflat : ∀ (xs : List α) (result : Option (List Json)),
      xs.foldl (fun result x => openAiLines result (lines x)) result =
        openAiLines result (xs.flatMap lines) := by
    intro xs
    induction xs with
    | nil => exact fun _ => rfl
    | cons x xs ih =>
      intro result
      rw [List.foldl_cons, ih, List.flatMap_cons]
      simp only [openAiLines, List.foldl_append]
  rw [hflat, openAiLines_eq]
  rfl

/-- The chunks of a text are those of its `data: ` lines. -/
theorem values_openAiEvents (text : JsString) :
    (openAiEvents text).map (List.map Stamped.value) =
      openAiResult [] (dataTexts (pieces text)) := by
  have hblocks := foldl_openAiBlock_value (some : ℕ → Option ℕ)
    (places blankLine 0 (blocksOf blankLine text)) (some [])
  rw [map_fst_places, Option.map_some, List.map_nil] at hblocks
  rw [openAiEvents, openAiTail_value, hblocks, dataTexts, ← foldl_openAiLines, pieces,
    List.foldl_append]
  rfl

theorem parseOpenAiSse_lines (chunks : List TimedChunk) :
    (parseOpenAiSse chunks).map (List.map Stamped.value) =
      openAiResult [] (dataTexts (pieces (textOf chunks))) := by
  have hvalues : List.map Stamped.value ∘ List.map (Stamped.map (receivedAt chunks)) =
      List.map Stamped.value := funext (map_value_map _)
  rw [parseOpenAiSse_eq, Option.map_map, hvalues, values_openAiEvents]

end UmansGate.Usage
