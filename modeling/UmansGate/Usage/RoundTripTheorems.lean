/-
UmansGate.Usage.RoundTripTheorems — the parsers on event streams.

The parsers know one spelling of a field, with a space behind its colon
(`spacedEvent?`, `spacedData?`), and one blank line, an LF behind an LF. The
Anthropic parser reads one event off each run of a stream, from the last
spaced `data` line of it (`readings`); the OpenAI parser reads every spaced
`data` line for itself (`seen`). `AnthropicReads` and `OpenAiReads` say when this
is what the stream holds.

That an event must stand on one line is a matter of braces: what the lines are
by themselves has no more objects than the lines open, and the events have as
many as they open, unless a property is repeated.
-/
import Mathlib.Algebra.Order.BigOperators.Group.List
import Mathlib.Data.List.TakeWhile
import UmansGate.Lib.EventStream
import UmansGate.Lib.JsonLines
import UmansGate.Lib.JsonRoundTrip
import UmansGate.Usage.LineTheorems

namespace UmansGate.Usage

open UmansGate.Lib UmansGate.Lib.EventStream
open UmansGate.Lib.Framing

/-! ## What the parsers see of a line -/

/-- What follows `event: ` on a line, with its carriage return. -/
def spacedEvent? (l : Line) : Option JsString :=
  match l.field with
  | .event v => if v.spaced then some (v.text ++ l.eol.cr) else none
  | _ => none

/-- What follows `data: ` on a line, with its carriage return. -/
def spacedData? (l : Line) : Option JsString :=
  match l.field with
  | .data v => if v.spaced then some (v.text ++ l.eol.cr) else none
  | _ => none

/-- The name in force behind a run. -/
def nameBehind (type : JsString) (r : Run) : JsString :=
  ((r.lines.filterMap spacedEvent?).getLast?.map trim).getD type

def lastData? (r : Run) : Option JsString := (r.lines.filterMap spacedData?).getLast?

/-- The event of each run, under the name in force. -/
def readings : JsString → List Run → List Json
  | _, [] => []
  | type, r :: rs =>
    ((lastData? r).bind (dataEvent (nameBehind type r))).toList ++ readings (nameBehind type r) rs

section

variable {name : JsString}

theorem fieldName_of_isPrefix (hname : (58 : UInt16) ∉ name) {line : JsString}
    (h : name ++ [58, 32] <+: line) : fieldName line = name := by
  obtain ⟨rest, rfl⟩ := h
  rw [fieldName, List.append_assoc,
    List.takeWhile_append_of_pos fun u hu => by
      have hne : u ≠ 58 := fun heq => hname (heq ▸ hu)
      simpa using hne]
  simp

theorem isPrefix_value (name : JsString) (v : Value) (e : Eol) :
    (name ++ [58, 32] <+: name ++ [58] ++ v.gap ++ v.text ++ e.cr ↔ v.spaced = true) ∧
      (v.spaced = true → (name ++ [58] ++ v.gap ++ v.text ++ e.cr).drop (name.length + 2) =
        v.text ++ e.cr) := by
  have hassoc : ∀ w : JsString, name ++ [58] ++ w ++ v.text ++ e.cr =
      name ++ ([58] ++ (w ++ (v.text ++ e.cr))) := by simp
  cases hspaced : v.spaced with
  | true =>
    have hgap : v.gap = [32] := by simp [Value.gap, hspaced]
    rw [hgap, hassoc]
    refine ⟨⟨fun _ => rfl, fun _ => ⟨v.text ++ e.cr, by simp⟩⟩, fun _ => ?_⟩
    simp
  | false =>
    have hgap : v.gap = [] := by simp [Value.gap, hspaced]
    rw [hgap, hassoc]
    refine ⟨⟨fun hstarts => ?_, fun h => by cases h⟩, fun h => by cases h⟩
    have hhead := v.legal hspaced
    rw [List.prefix_append_right_inj] at hstarts
    cases htext : v.text with
    | nil => cases e <;> simp [htext, Eol.cr] at hstarts
    | cons u t =>
      rw [htext] at hhead hstarts
      simp only [List.nil_append, List.cons_append, List.cons_prefix_cons, true_and] at hstarts
      simp [← hstarts.1] at hhead

theorem fieldName_append (hname : (58 : UInt16) ∉ name) (rest : JsString) :
    fieldName (name ++ 58 :: rest) = name := by
  rw [fieldName, List.takeWhile_append_of_pos fun u hu => by
    have hne : u ≠ 58 := fun heq => hname (heq ▸ hu)
    simpa using hne]
  simp

/-- A line of another field does not begin with the name. -/
theorem not_isPrefix_of_fieldName (hname : (58 : UInt16) ∉ name) {t : JsString}
    (h : fieldName t ≠ name) (e : Eol) : ¬ name ++ [58, 32] <+: t ++ e.cr := by
  intro hstarts
  have hcolon : (58 : UInt16) ∈ t := by
    have hmem : (58 : UInt16) ∈ t ++ e.cr := hstarts.subset (by simp)
    rcases List.mem_append.mp hmem with ht | hcr
    · exact ht
    · cases e <;> simp [Eol.cr] at hcr
  have hlength : (t.takeWhile (· ≠ 58)).length ≠ t.length := by
    intro hlength
    have hwhole : t.takeWhile (· ≠ 58) = t :=
      (List.takeWhile_prefix _).eq_of_length hlength
    have := List.all_takeWhile (l := t) (p := (· ≠ 58))
    rw [hwhole, List.all_eq_true] at this
    simpa using this 58 hcolon
  refine h ?_
  rw [← fieldName_of_isPrefix hname hstarts, fieldName, fieldName, List.takeWhile_append,
    if_neg hlength]

end

theorem isPrefixOf_event (l : Line) :
    (js "event: ").isPrefixOf l.text = (spacedEvent? l).isSome := by
  rw [Bool.eq_iff_iff, List.isPrefixOf_iff_prefix]
  show js "event" ++ [58, 32] <+: l.text ↔ _
  unfold Line.text spacedEvent?
  cases l.field with
  | event v =>
    have hstarts := (isPrefix_value (js "event") v l.eol).1
    simp only [Field.text]
    show js "event" ++ [58, 32] <+: js "event" ++ [58] ++ v.gap ++ v.text ++ l.eol.cr ↔ _
    rw [hstarts]
    cases v.spaced <;> simp
  | data v =>
    have hname : fieldName (Field.data v).text ≠ js "event" := by
      have htext : (Field.data v).text = js "data" ++ 58 :: (v.gap ++ v.text) := by
        rw [Field.text, List.append_assoc]
        rfl
      rw [htext, fieldName_append (by decide)]
      decide
    simpa using not_isPrefix_of_fieldName (by decide) hname l.eol
  | ignored line =>
    simpa [Field.text] using not_isPrefix_of_fieldName (by decide) line.event l.eol

theorem isPrefixOf_data (l : Line) : (js "data: ").isPrefixOf l.text = (spacedData? l).isSome := by
  rw [Bool.eq_iff_iff, List.isPrefixOf_iff_prefix]
  show js "data" ++ [58, 32] <+: l.text ↔ _
  unfold Line.text spacedData?
  cases l.field with
  | event v =>
    have hname : fieldName (Field.event v).text ≠ js "data" := by
      have htext : (Field.event v).text = js "event" ++ 58 :: (v.gap ++ v.text) := by
        rw [Field.text, List.append_assoc]
        rfl
      rw [htext, fieldName_append (by decide)]
      decide
    simpa using not_isPrefix_of_fieldName (by decide) hname l.eol
  | data v =>
    have hstarts := (isPrefix_value (js "data") v l.eol).1
    simp only [Field.text]
    show js "data" ++ [58, 32] <+: js "data" ++ [58] ++ v.gap ++ v.text ++ l.eol.cr ↔ _
    rw [hstarts]
    cases v.spaced <;> simp
  | ignored line =>
    simpa [Field.text] using not_isPrefix_of_fieldName (by decide) line.data l.eol

theorem drop_event {l : Line} {name : JsString} (h : spacedEvent? l = some name) :
    l.text.drop 7 = name := by
  unfold spacedEvent? at h
  split at h
  · rename_i v hfield
    split at h
    · rename_i hspaced
      obtain rfl := Option.some.inj h
      rw [Line.text, hfield]
      exact (isPrefix_value (js "event") v l.eol).2 hspaced
    · cases h
  · cases h

theorem drop_data {l : Line} {data : JsString} (h : spacedData? l = some data) :
    l.text.drop 6 = data := by
  unfold spacedData? at h
  split at h
  · rename_i v hfield
    split at h
    · rename_i hspaced
      obtain rfl := Option.some.inj h
      rw [Line.text, hfield]
      exact (isPrefix_value (js "data") v l.eol).2 hspaced
    · cases h
  · cases h

/-! ## The Anthropic parser -/

/-- The lines the parsers take note of. -/
def noted (line : JsString) : Bool :=
  (js "event: ").isPrefixOf line || (js "data: ").isPrefixOf line

theorem eventName_text (type : JsString) (l : Line) :
    eventName type l.text = ((spacedEvent? l).map trim).getD type := by
  unfold eventName
  rw [isPrefixOf_event]
  cases h : spacedEvent? l with
  | none => rfl
  | some name => simp [drop_event h]

theorem eventLine_text (s : JsString × Option JsString) (l : Line) :
    eventLine s l.text = (((spacedEvent? l).map trim).getD s.1, (spacedData? l).or s.2) := by
  have hone : spacedEvent? l = none ∨ spacedData? l = none := by
    unfold spacedEvent? spacedData?
    cases l.field with
    | event v => exact .inr rfl
    | data v => exact .inl rfl
    | ignored line => exact .inl rfl
  unfold eventLine
  rw [isPrefixOf_event, isPrefixOf_data]
  cases hevent : spacedEvent? l with
  | some name =>
    have hdata : spacedData? l = none := hone.resolve_left (by simp [hevent])
    simp [hdata, drop_event hevent]
  | none =>
    cases hdata : spacedData? l with
    | none => rfl
    | some data => simp [drop_data hdata]

theorem foldl_eventName (lines : List Line) (type : JsString) :
    (lines.map Line.text).foldl eventName type =
      (((lines.filterMap spacedEvent?).getLast?).map trim).getD type := by
  induction lines generalizing type with
  | nil => rfl
  | cons l lines ih =>
    rw [List.map_cons, List.foldl_cons, ih, eventName_text]
    cases h : spacedEvent? l with
    | none => simp [h]
    | some name =>
      rw [List.filterMap_cons_some h, List.getLast?_cons]
      cases (lines.filterMap spacedEvent?).getLast? <;> rfl

theorem foldl_eventLine (lines : List Line) (type : JsString) (data : Option JsString) :
    (lines.map Line.text).foldl eventLine (type, data) =
      ((((lines.filterMap spacedEvent?).getLast?).map trim).getD type,
        ((lines.filterMap spacedData?).getLast?).or data) := by
  induction lines generalizing type data with
  | nil => rfl
  | cons l lines ih =>
    rw [List.map_cons, List.foldl_cons, eventLine_text, ih]
    congr 1
    · cases h : spacedEvent? l with
      | none => simp [h]
      | some name =>
        rw [List.filterMap_cons_some h, List.getLast?_cons]
        cases (lines.filterMap spacedEvent?).getLast? <;> rfl
    · cases h : spacedData? l with
      | none => simp [h]
      | some d =>
        rw [List.filterMap_cons_some h, List.getLast?_cons]
        cases (lines.filterMap spacedData?).getLast? <;> rfl

/-- Only noted lines count. -/
theorem anthropicLines_filter (s : JsString × List Json) (lines : List JsString) :
    anthropicLines s (lines.filter noted) = anthropicLines s lines := by
  have hname : ∀ type, (lines.filter noted).foldl eventName type = lines.foldl eventName type := by
    intro type
    rw [List.foldl_filter]
    refine List.foldl_ext _ _ _ fun t line _ => ?_
    unfold noted eventName
    cases (js "event: ").isPrefixOf line <;> simp
  have hline : ∀ st, (lines.filter noted).foldl eventLine st = lines.foldl eventLine st := by
    intro st
    rw [List.foldl_filter]
    refine List.foldl_ext _ _ _ fun t line _ => ?_
    unfold noted eventLine
    cases (js "event: ").isPrefixOf line <;> cases (js "data: ").isPrefixOf line <;> simp
  unfold anthropicLines parseLines
  simp only [hname, hline]

/-- A run names the event and adds what its last `data` line holds. -/
theorem anthropicLines_run (type : JsString) (out : List Json) (r : Run) :
    anthropicLines (type, out) (r.lines.map Line.text) = (nameBehind type r,
      out ++ ((lastData? r).bind (dataEvent (nameBehind type r))).toList) := by
  unfold anthropicLines
  simp only []
  rw [parseLines_foldl, foldl_eventName, parseLines, foldl_eventLine, Option.or_none]
  rfl

theorem foldl_anthropicLines (runs : List Run) (type : JsString) (out : List Json) :
    (runs.foldl (fun st r => anthropicLines st (r.lines.map Line.text)) (type, out)).2 =
      out ++ readings type runs := by
  induction runs generalizing type out with
  | nil => simp [readings]
  | cons r rs ih => rw [List.foldl_cons, anthropicLines_run, ih, readings, List.append_assoc]

/-- The Anthropic parser reads one event off each run. -/
theorem parseAnthropicSse_readings {s : Stream} {chunks : List TimedChunk}
    (htext : textOf chunks = s.text) :
    (parseAnthropicSse chunks).map Stamped.value = readings [] s.runs := by
  have hframed : Framed [10, 10] s.text (blocksOf blankLine (textOf chunks))
      (restOf blankLine (textOf chunks)) :=
    htext ▸ framed_blocksOf blankLine_ne_nil (textOf chunks)
  have hidle : ∀ st, anthropicLines st [] = st := by
    intro st
    simp [anthropicLines, parseLines]
  have hruns := s.foldl_blocks (p := noted) anthropicLines (by decide) (by decide) hidle hframed
    ([], [])
  simp only [anthropicLines_filter] at hruns
  rw [parseAnthropicSse_lines, blocksRead, pieces, hruns, foldl_anthropicLines, List.nil_append]

/-! ## The OpenAI parser -/

theorem openAiLines_filter (result : Option (List Json)) (lines : List JsString) :
    openAiLines result (lines.filter (js "data: ").isPrefixOf) = openAiLines result lines := by
  unfold openAiLines
  rw [List.foldl_filter]
  refine List.foldl_ext _ _ _ fun r line _ => ?_
  cases (js "data: ").isPrefixOf line <;> simp

theorem dataText?_text (l : Line) : dataText? l.text = spacedData? l := by
  rw [dataText?, isPrefixOf_data]
  cases h : spacedData? l with
  | none => rfl
  | some data => simp [drop_data h]

theorem filterMap_dataText? (lines : List Line) :
    (lines.map Line.text).filterMap dataText? = lines.filterMap spacedData? := by
  rw [List.filterMap_map]
  exact List.filterMap_congr fun l _ => dataText?_text l

/-- The OpenAI parser reads every spaced `data` line. -/
theorem parseOpenAiSse_result {s : Stream} {chunks : List TimedChunk}
    (htext : textOf chunks = s.text) :
    (parseOpenAiSse chunks).map (List.map Stamped.value) =
      openAiResult [] ((s.runs.flatMap Run.lines).filterMap spacedData?) := by
  have hframed : Framed [10, 10] s.text (blocksOf blankLine (textOf chunks))
      (restOf blankLine (textOf chunks)) :=
    htext ▸ framed_blocksOf blankLine_ne_nil (textOf chunks)
  have hruns := s.foldl_blocks (p := (js "data: ").isPrefixOf) openAiLines (by decide)
    (by decide) (fun _ => rfl) hframed (some [])
  simp only [openAiLines_filter, foldl_openAiLines] at hruns
  rw [parseOpenAiSse_lines, dataTexts, pieces, hruns, ← filterMap_dataText?, List.map_flatMap]

/-! ## The data lines of an event -/

/-- A `data` line that holds more than white space. -/
def hasData (l : Line) : Bool := l.data?.any fun t => !t.all isJsonSpace

/-- What the OpenAI parser has of a line. -/
def seen (l : Line) : List Json := chunksIn (spacedData? l).toList

/-- The braces on a `data` line that open an object. -/
def opened (l : Line) : ℕ := (l.data?.map (openings false)).getD 0

theorem chunksIn_spacedData (lines : List Line) :
    chunksIn (lines.filterMap spacedData?) = lines.flatMap seen := by
  induction lines with
  | nil => rfl
  | cons l lines ih =>
    have hfront : (l :: lines).filterMap spacedData? =
        (spacedData? l).toList ++ lines.filterMap spacedData? := by
      cases h : spacedData? l <;> simp [h]
    rw [hfront, chunksIn_append, ih, List.flatMap_cons, seen]

theorem data?_of_spacedData {l : Line} {data : JsString} (h : spacedData? l = some data) :
    ∃ t, l.data? = some t ∧ data = t ++ l.eol.cr := by
  unfold spacedData? at h
  split at h
  · rename_i v hfield
    split_ifs at h
    cases h
    exact ⟨v.text, by rw [Line.data?, hfield], rfl⟩
  · cases h

theorem blank_cr (e : Eol) : Blank e.cr := by
  cases e with
  | lf => simp [Eol.cr, Blank]
  | crlf => simp [Eol.cr, Blank, isJsonSpace]

theorem hasData_eq_false {l : Line} : hasData l = false ↔ ∀ t, l.data? = some t → Blank t := by
  unfold hasData Blank
  cases l.data? with
  | none => simp
  | some t => simp

theorem blank_data_iff {lines : List Line} :
    (∀ d ∈ lines.filterMap Line.data?, Blank d) ↔ ∀ l ∈ lines, hasData l = false := by
  simp only [hasData_eq_false, List.mem_filterMap]
  constructor
  · intro h l hl t ht
    exact h t ⟨l, hl, ht⟩
  · rintro h t ⟨l, hl, ht⟩
    exact h l hl t ht

/-- A line gives its own JSON text, if it is one, or nothing. -/
theorem seen_cases (l : Line) : seen l = [] ∨
    ∃ t v, (spacedData? l).isSome = true ∧ l.data? = some t ∧
      Json.parse (t ++ l.eol.cr) = some v ∧ seen l = [v] := by
  cases hspaced : spacedData? l with
  | none => exact .inl (by rw [seen, hspaced]; rfl)
  | some data =>
    obtain ⟨t, ht, rfl⟩ := data?_of_spacedData hspaced
    have hseen : seen l = (parseDataLine (t ++ l.eol.cr)).toList.filter Json.truthy := by
      rw [seen, hspaced, chunksIn]
      cases h : parseDataLine (t ++ l.eol.cr) <;> simp [h]
    cases hparse : parseDataLine (t ++ l.eol.cr) with
    | none => exact .inl (by rw [hseen, hparse]; rfl)
    | some v =>
      rw [hparse, Option.toList_some, List.filter_singleton] at hseen
      cases htruthy : v.truthy with
      | false => exact .inl (by rw [hseen, htruthy]; rfl)
      | true =>
        rw [htruthy] at hseen
        unfold parseDataLine at hparse
        split_ifs at hparse
        exact .inr ⟨t, v, rfl, ht, hparse, hseen⟩

/-- Blank lines are no JSON texts. -/
theorem seen_of_not_hasData {l : Line} (h : hasData l = false) : seen l = [] := by
  rcases seen_cases l with hnil | ⟨t, v, -, ht, hparse, -⟩
  · exact hnil
  · rw [parse_blank ((hasData_eq_false.mp h t ht).append (blank_cr l.eol))] at hparse
    cases hparse

theorem seen_of_record {l : Line} {t : JsString} {v : Json}
    (hspaced : (spacedData? l).isSome = true) (ht : l.data? = some t) (hv : v.isRecord = true)
    (hparse : Json.parse (t ++ l.eol.cr) = some v) : seen l = [v] := by
  obtain ⟨data, hdata⟩ := Option.isSome_iff_exists.mp hspaced
  obtain ⟨t', ht', rfl⟩ := data?_of_spacedData hdata
  obtain rfl : t = t' := Option.some.inj (ht.symm.trans ht')
  have hdone : t ++ l.eol.cr ≠ js "[DONE]" := by
    intro heq
    have hnone : Json.parse (js "[DONE]") = none := by decide +kernel
    rw [heq, hnone] at hparse
    cases hparse
  have htruthy : v.truthy = true := by
    cases v with
    | obj fields => rfl
    | _ => cases hv
  rw [seen, hdata, chunksIn]
  simp [parseDataLine, if_neg hdone, hparse, htruthy]

/-- What a line is by itself has no more objects than the line opens. -/
theorem seen_le_opened {l : Line} (h : ∀ v ∈ seen l, v.isRecord = true) :
    ((seen l).map objects).sum ≤ opened l := by
  rcases seen_cases l with hnil | ⟨t, v, -, ht, hparse, hseen⟩
  · simp [hnil]
  · have hv : v.isRecord = true := h v (by simp [hseen])
    have hnil : Blank [] := by simp [Blank]
    have halone : Json.parse (t ++ []) = some v :=
      parse_line hv hnil (blank_cr l.eol) hnil hparse
    rw [List.append_nil] at halone
    simpa [hseen, opened, ht] using objects_le_openings halone

theorem sum_opened (lines : List Line) :
    (lines.map opened).sum = openings false ([10].intercalate (lines.filterMap Line.data?)) := by
  rw [openings_intercalate]
  induction lines with
  | nil => rfl
  | cons l lines ih =>
    rw [List.map_cons, List.sum_cons, ih, opened]
    cases h : l.data? <;> simp [h]

theorem sum_opened_of_noData {lines : List Line} (h : ∀ l ∈ lines, l.data? = none) :
    (lines.map opened).sum = 0 := by
  rw [sum_opened, List.filterMap_eq_nil_iff.mpr h]
  rfl

/-- The lines of a stream open what its events open. -/
theorem sum_opened_stream (s : Stream) :
    ((s.runs.flatMap Run.lines).map opened).sum =
      (s.events.map fun e => openings false e.data).sum := by
  rw [s.flatMap_lines, List.map_append, List.sum_append, sum_opened_of_noData s.closed,
    Nat.add_zero]
  unfold Stream.events
  induction s.groups with
  | nil => rfl
  | cons g gs ih =>
    rw [List.flatMap_cons, List.map_append, List.sum_append, ih]
    cases hg : g.event? with
    | none =>
      rw [List.filterMap_cons_none hg, sum_opened_of_noData (g.data?_eq_none hg), Nat.zero_add]
    | some e =>
      rw [List.filterMap_cons_some hg, List.map_cons, List.sum_cons, sum_opened,
        g.data_of_event? hg]

/-- Where the lines give as many objects as they open, each one does. -/
theorem sum_seen_eq_opened {lines : List Line}
    (hrecord : ∀ v ∈ lines.flatMap seen, v.isRecord = true)
    (hsum : ((lines.flatMap seen).map objects).sum = (lines.map opened).sum) :
    ∀ l ∈ lines, ((seen l).map objects).sum = opened l := by
  have hle : ∀ l ∈ lines, ((seen l).map objects).sum ≤ opened l := fun l hl =>
    seen_le_opened fun v hv => hrecord v (List.mem_flatMap.mpr ⟨l, hl, hv⟩)
  have hlines : ((lines.flatMap seen).map objects).sum =
      (lines.map fun l => ((seen l).map objects).sum).sum := by
    rw [List.map_flatMap, List.flatMap, List.sum_flatten, List.map_map]
    rfl
  intro l hl
  by_contra hne
  have hlt := List.sum_lt_sum (fun l => ((seen l).map objects).sum) opened hle
    ⟨l, hl, lt_of_le_of_ne (hle l hl) hne⟩
  omega

/-! ## The round trip -/

/-- The event is a JSON object under this name. -/
structure Writes (e : Event) (x : JsString × Json) : Prop where
  name : e.name = x.1
  data : Json.parse e.data = some x.2
  object : x.2.isRecord = true

/-- The stream holds these named JSON objects. -/
def Serializes (s : Stream) (events : List (JsString × Json)) : Prop :=
  List.Forall₂ Writes s.events events

/-- No two events stand in one run, and the last spaced `data` line of a run
is, under the name in force, its event. -/
structure RunReads (type : JsString) (r : Run) : Prop where
  single : r.events.length ≤ 1
  alone : ∀ e ∈ r.events, ∃ data, lastData? r = some data ∧
    dataEvent (nameBehind type r) data = (Json.parse e.data).map (eventOf e.name)

def AnthropicReads : JsString → List Run → Prop
  | _, [] => True
  | type, r :: rs => RunReads type r ∧ AnthropicReads (nameBehind type r) rs

/-- Of the `data` lines exactly one is not blank, and it has the space behind its
colon. -/
def OneLine (g : Group) : Prop :=
  ∃ l, g.lines.filter hasData = [l] ∧ (spacedData? l).isSome = true

/-- Every event stands on one line. -/
def OpenAiReads (s : Stream) : Prop := ∀ g ∈ s.groups, g.event? ≠ none → OneLine g

/-- No object of the data is replaced by a second property of its name. -/
def KeepsObjects (e : Event) : Prop :=
  ∀ v, Json.parse e.data = some v → objects v = openings false e.data

/-- An event that stands on one line is read off it. -/
theorem seen_of_oneLine {g : Group} {e : Event} {v : Json} (hg : g.event? = some e)
    (hparse : Json.parse e.data = some v) (hv : v.isRecord = true) (hone : OneLine g) :
    g.lines.flatMap seen = [v] := by
  obtain ⟨l, hfilter, hspaced⟩ := hone
  obtain ⟨before, after, hlines, hbefore, -, hrest⟩ := List.filter_eq_cons_iff.mp hfilter
  have hbefore : ∀ m ∈ before, hasData m = false := fun m hm => Bool.eq_false_iff.mpr (hbefore m hm)
  have hafter : ∀ m ∈ after, hasData m = false := fun m hm =>
    Bool.eq_false_iff.mpr (List.filter_eq_nil_iff.mp hrest m hm)
  obtain ⟨data, hdata⟩ := Option.isSome_iff_exists.mp hspaced
  obtain ⟨t, ht, -⟩ := data?_of_spacedData hdata
  have hseen : seen l = [v] := by
    rw [g.data_of_event? hg, hlines, List.filterMap_append, List.filterMap_cons_some ht,
      intercalate_append_cons] at hparse
    exact seen_of_record hspaced ht hv (parse_line hv (blank_before (blank_data_iff.mpr hbefore))
      (blank_after.mpr (blank_data_iff.mpr hafter)) (blank_cr l.eol) hparse)
  have hnil : ∀ ls : List Line, (∀ m ∈ ls, hasData m = false) → ls.flatMap seen = [] := by
    intro ls hls
    exact List.flatMap_eq_nil_iff.mpr fun m hm => seen_of_not_hasData (hls m hm)
  rw [hlines, List.flatMap_append, List.flatMap_cons, hnil before hbefore, hnil after hafter, hseen]
  rfl

/-- An event whose lines give what they open stands on one line: on the first
one that opens an object. -/
theorem oneLine_of_seen {g : Group} {e : Event} {v : Json} (hg : g.event? = some e)
    (hparse : Json.parse e.data = some v) (hv : v.isRecord = true)
    (hrecord : ∀ l ∈ g.lines, ∀ w ∈ seen l, w.isRecord = true)
    (hopened : ∀ l ∈ g.lines, ((seen l).map objects).sum = opened l) : OneLine g := by
  have hdata := g.data_of_event? hg
  obtain ⟨ws, rest, hws, hbrace⟩ := exists_brace hv hparse
  obtain ⟨before, d, after, hsplit, hbefore, hopens⟩ := exists_line hws (hdata.symm.trans hbrace)
  obtain ⟨front, behind, hlines, hfront, hbehind⟩ := List.filterMap_eq_append_iff.mp hsplit
  obtain ⟨skipped, l, last, rfl, hskipped, hl, rfl⟩ := List.filterMap_eq_cons_iff.mp hbehind
  have hmem : l ∈ g.lines := by simp [hlines]
  have hread : seen l ≠ [] := by
    intro hnil
    have hzero := hopened l hmem
    simp only [hnil, opened, hl] at hzero
    exact hopens hzero.symm
  rcases seen_cases l with hnil | ⟨t, w, hspaced, ht, hline, hseen⟩
  · exact absurd hnil hread
  · obtain rfl : t = d := Option.some.inj (ht.symm.trans hl)
    rw [hdata, hsplit, intercalate_append_cons] at hparse
    obtain ⟨-, hafter⟩ := blank_of_parse (hrecord l hmem w (by simp [hseen])) (blank_cr l.eol) hline
      (blank_before hbefore) hparse
    have hlast : ∀ m ∈ last, hasData m = false := blank_data_iff.mp (blank_after.mp hafter)
    have hfirst : ∀ m ∈ front ++ skipped, hasData m = false := by
      refine blank_data_iff.mp ?_
      rw [List.filterMap_append, hfront, List.filterMap_eq_nil_iff.mpr hskipped, List.append_nil]
      exact hbefore
    have hnone : ∀ ls : List Line, (∀ m ∈ ls, hasData m = false) → ls.filter hasData = [] := by
      intro ls hls
      exact List.filter_eq_nil_iff.mpr fun m hm => Bool.eq_false_iff.mp (hls m hm)
    have hthis : hasData l = true := by
      by_contra hblank
      exact hread (seen_of_not_hasData (Bool.eq_false_iff.mpr hblank))
    refine ⟨l, ?_, hspaced⟩
    rw [hlines, ← List.append_assoc, List.filter_append, hnone _ hfirst, List.nil_append,
      List.filter_cons_of_pos hthis, hnone _ hlast]

/-- What the OpenAI parser has of a stream whose events stand on one line each. -/
theorem seen_of_openAiReads {s : Stream}
    (hevents : ∀ e ∈ s.events, ∃ v, Json.parse e.data = some v ∧ v.isRecord = true)
    (hreads : OpenAiReads s) :
    (s.runs.flatMap Run.lines).flatMap seen = s.events.filterMap fun e => Json.parse e.data := by
  have hnone : ∀ ls : List Line, (∀ l ∈ ls, l.data? = none) → ls.flatMap seen = [] := by
    intro ls hls
    refine List.flatMap_eq_nil_iff.mpr fun l hl => seen_of_not_hasData (hasData_eq_false.mpr ?_)
    intro t ht
    rw [hls l hl] at ht
    cases ht
  rw [s.flatMap_lines, List.flatMap_append, hnone _ s.closed, List.append_nil]
  unfold Stream.events at hevents ⊢
  unfold OpenAiReads at hreads
  generalize s.groups = groups at hevents hreads ⊢
  induction groups with
  | nil => rfl
  | cons g gs ih =>
    obtain ⟨hone, hones⟩ := List.forall_mem_cons.mp hreads
    rw [List.flatMap_cons, List.flatMap_append]
    cases hg : g.event? with
    | none =>
      rw [List.filterMap_cons_none hg] at hevents ⊢
      rw [hnone _ (g.data?_eq_none hg), List.nil_append, ih hevents hones]
    | some e =>
      rw [List.filterMap_cons_some hg] at hevents ⊢
      obtain ⟨⟨v, hparse, hv⟩, hrest⟩ := List.forall_mem_cons.mp hevents
      rw [seen_of_oneLine hg hparse hv (hone (by simp [hg])), ih hrest hones]
      simp only [List.filterMap_cons, hparse, List.singleton_append]

/-- Where the lines give the objects of the events, and none was replaced, every
event stands on one line. -/
theorem openAiReads_of_seen {s : Stream}
    (hevents : ∀ e ∈ s.events, ∃ v, Json.parse e.data = some v ∧ v.isRecord = true)
    (hkeeps : ∀ e ∈ s.events, KeepsObjects e)
    (hseen : (s.runs.flatMap Run.lines).flatMap seen =
      s.events.filterMap fun e => Json.parse e.data) : OpenAiReads s := by
  have hrecord : ∀ v ∈ (s.runs.flatMap Run.lines).flatMap seen, v.isRecord = true := by
    intro v hv
    rw [hseen] at hv
    obtain ⟨e, he, hparse⟩ := List.mem_filterMap.mp hv
    obtain ⟨w, hw, hrecord⟩ := hevents e he
    obtain rfl : w = v := Option.some.inj (hw.symm.trans hparse)
    exact hrecord
  have hsum : ((s.events.filterMap fun e => Json.parse e.data).map objects).sum =
      (s.events.map fun e => openings false e.data).sum := by
    generalize s.events = es at hevents hkeeps
    induction es with
    | nil => rfl
    | cons e es ih =>
      obtain ⟨⟨v, hparse, -⟩, hrest⟩ := List.forall_mem_cons.mp hevents
      obtain ⟨hkeep, hkeeps⟩ := List.forall_mem_cons.mp hkeeps
      simp only [List.filterMap_cons, hparse, List.map_cons, List.sum_cons, hkeep v hparse,
        ih hrest hkeeps]
  have hopened := sum_seen_eq_opened hrecord (by rw [hseen, hsum, sum_opened_stream])
  intro g hgroup hevent
  obtain ⟨e, hg⟩ := Option.ne_none_iff_exists'.mp hevent
  obtain ⟨v, hparse, hv⟩ := hevents e (List.mem_filterMap.mpr ⟨g, hgroup, hg⟩)
  have hmem : ∀ l ∈ g.lines, l ∈ s.runs.flatMap Run.lines := by
    intro l hl
    rw [s.flatMap_lines]
    exact List.mem_append_left _ (List.mem_flatMap.mpr ⟨g, hgroup, hl⟩)
  exact oneLine_of_seen hg hparse hv
    (fun l hl w hw => hrecord w (List.mem_flatMap.mpr ⟨l, hmem l hl, hw⟩))
    (fun l hl => hopened l (hmem l hl))

/-- The event of an event of the stream. -/
def readEvent (e : Event) : Option Json := (Json.parse e.data).map (eventOf e.name)

/-- A run gives its events exactly if it reads. -/
theorem run_eq_iff {type : JsString} {r : Run}
    (hevents : ∀ e ∈ r.events, (readEvent e).isSome = true)
    (hnone : r.events = [] → lastData? r = none) :
    ((lastData? r).bind (dataEvent (nameBehind type r))).toList = r.events.filterMap readEvent ↔
      RunReads type r := by
  cases hr : r.events with
  | nil =>
    rw [hnone hr]
    refine ⟨fun _ => ⟨by simp [hr], by simp [hr]⟩, fun _ => by simp⟩
  | cons e es =>
    have hfirst : (readEvent e).isSome = true := hevents e (by simp [hr])
    obtain ⟨x, hx⟩ := Option.isSome_iff_exists.mp hfirst
    constructor
    · intro heq
      have hlength : (e :: es).length ≤ 1 := by
        have hall : ((e :: es).filterMap readEvent).length = (e :: es).length := by
          rw [← hr]
          exact List.filterMap_length_eq_length.mpr fun e he => hevents e he
        rw [← hall, ← heq]
        exact Option.length_toList_le
      obtain rfl : es = [] := List.length_eq_zero_iff.mp (by simpa using hlength)
      refine ⟨by simp [hr], fun e' he' => ?_⟩
      rw [hr, List.mem_singleton] at he'
      subst he'
      rw [List.filterMap_cons_some hx, List.filterMap_nil] at heq
      cases hdata : lastData? r with
      | none => simp [hdata] at heq
      | some data =>
        refine ⟨data, rfl, ?_⟩
        rw [hdata, Option.bind_some] at heq
        rw [show (Json.parse e'.data).map (eventOf e'.name) = some x from hx]
        cases hread : dataEvent (nameBehind type r) data with
        | none => simp [hread] at heq
        | some y => simpa [hread] using heq
    · intro hreads
      have hlength := hreads.single
      rw [hr] at hlength
      obtain rfl : es = [] := List.length_eq_zero_iff.mp (by simpa using hlength)
      obtain ⟨data, hdata, hread⟩ := hreads.alone e (by simp [hr])
      rw [hdata, Option.bind_some, hread, List.filterMap_cons_some hx, List.filterMap_nil]
      show (readEvent e).toList = [x]
      rw [hx]
      rfl

/-- No run gives more than the events that it has. -/
theorem length_reading_le {r : Run} (hevents : ∀ e ∈ r.events, (readEvent e).isSome = true)
    (hnone : r.events = [] → lastData? r = none) (type : JsString) :
    ((lastData? r).bind (dataEvent (nameBehind type r))).toList.length ≤
      (r.events.filterMap readEvent).length := by
  cases hlist : r.events with
  | nil => simp [hnone hlist]
  | cons e es =>
    rw [List.filterMap_length_eq_length.mpr fun e he => hevents e (hlist ▸ he)]
    exact Option.length_toList_le.trans (by simp)

theorem length_readings_le {runs : List Run}
    (hevents : ∀ r ∈ runs, ∀ e ∈ r.events, (readEvent e).isSome = true)
    (hnone : ∀ r ∈ runs, r.events = [] → lastData? r = none) (type : JsString) :
    (readings type runs).length ≤
      (runs.flatMap fun r => r.events.filterMap readEvent).length := by
  induction runs generalizing type with
  | nil => simp [readings]
  | cons r rs ih =>
    obtain ⟨heventsr, heventsrs⟩ := List.forall_mem_cons.mp hevents
    obtain ⟨hnoner, hnoners⟩ := List.forall_mem_cons.mp hnone
    have hfirst := length_reading_le heventsr hnoner type
    have hrest := ih heventsrs hnoners (nameBehind type r)
    rw [readings, List.flatMap_cons, List.length_append, List.length_append]
    omega

/-- Where each run gives an event at most, and none without one of the stream,
the runs give the events exactly if each one does. -/
theorem readings_eq_iff {runs : List Run} (type : JsString)
    (hevents : ∀ r ∈ runs, ∀ e ∈ r.events, (readEvent e).isSome = true)
    (hnone : ∀ r ∈ runs, r.events = [] → lastData? r = none) :
    readings type runs = runs.flatMap (fun r => r.events.filterMap readEvent) ↔
      AnthropicReads type runs := by
  induction runs generalizing type with
  | nil => exact ⟨fun _ => trivial, fun _ => rfl⟩
  | cons r rs ih =>
    obtain ⟨heventsr, heventsrs⟩ := List.forall_mem_cons.mp hevents
    obtain ⟨hnoner, hnoners⟩ := List.forall_mem_cons.mp hnone
    rw [readings, List.flatMap_cons, AnthropicReads, ← ih (nameBehind type r) heventsrs hnoners,
      ← run_eq_iff heventsr hnoner]
    constructor
    · intro heq
      have hsum := congrArg List.length heq
      rw [List.length_append, List.length_append] at hsum
      have hfirst := length_reading_le heventsr hnoner type
      have hlater := length_readings_le heventsrs hnoners (nameBehind type r)
      exact List.append_inj heq (by omega)
    · rintro ⟨hfirst, hlater⟩
      rw [hfirst, hlater]

theorem Writes.read {e : Event} {x : JsString × Json} (h : Writes e x) :
    readEvent e = some (eventOf x.1 x.2) := by
  rw [readEvent, h.data, h.name]
  rfl

/-- The events as the two parsers have them. -/
theorem filterMap_writes {es : List Event} {events : List (JsString × Json)}
    (h : List.Forall₂ Writes es events) :
    es.filterMap readEvent = events.map (fun x => eventOf x.1 x.2) ∧
      es.filterMap (fun e => Json.parse e.data) = events.map Prod.snd ∧
      (∀ e ∈ es, (readEvent e).isSome = true) ∧
      ∀ e ∈ es, ∃ v, Json.parse e.data = some v ∧ v.isRecord = true := by
  induction h with
  | nil => simp
  | cons hfirst _ ih =>
    obtain ⟨hread, hdata, hsome, hrecord⟩ := ih
    refine ⟨?_, ?_, ?_, ?_⟩
    · rw [List.filterMap_cons_some hfirst.read, hread, List.map_cons]
    · simp only [List.filterMap_cons, hfirst.data, hdata, List.map_cons]
    · simpa [hfirst.read] using hsome
    · exact List.forall_mem_cons.mpr ⟨⟨_, hfirst.data, hfirst.object⟩, hrecord⟩

/-- **When the parsers read a stream.** Whatever the stream of some named JSON
objects looks like and however it arrives: the Anthropic parser returns exactly
these events if and only if no run holds two of them and the last `data: ` line
of each event's run is by itself the event. The OpenAI parser returns exactly
these objects if every event stands on one `data: ` line, and, unless a property
is written twice, only then. -/
theorem parsers_read_iff {s : Stream} {events : List (JsString × Json)}
    (hevents : Serializes s events) {chunks : List TimedChunk} (htext : textOf chunks = s.text) :
    ((parseAnthropicSse chunks).map Stamped.value = events.map (fun x => eventOf x.1 x.2) ↔
        AnthropicReads [] s.runs) ∧
      (OpenAiReads s →
        (parseOpenAiSse chunks).map (List.map Stamped.value) = some (events.map Prod.snd)) ∧
      ((∀ e ∈ s.events, KeepsObjects e) →
        (parseOpenAiSse chunks).map (List.map Stamped.value) = some (events.map Prod.snd) →
          OpenAiReads s) := by
  obtain ⟨hread, hvalues, hsome, hrecords⟩ := filterMap_writes hevents
  refine ⟨?_, ?_, ?_⟩
  · rw [parseAnthropicSse_readings htext, ← hread, ← s.flatMap_runs, List.filterMap_flatMap]
    refine readings_eq_iff [] (fun r hr e he => hsome e ?_) fun r hr hnone => ?_
    · rw [← s.flatMap_runs]
      exact List.mem_flatMap.mpr ⟨r, hr, he⟩
    · have hdata := s.data?_eq_none r hr hnone
      have hnil : r.lines.filterMap spacedData? = [] := by
        refine List.filterMap_eq_nil_iff.mpr fun l hl => ?_
        have hl := hdata l hl
        unfold Line.data? at hl
        unfold spacedData?
        split
        · rename_i v hfield
          rw [hfield] at hl
          cases hl
        · rfl
      rw [lastData?, hnil]
      rfl
  · intro hreads
    have hobjects : ((s.events.filterMap fun e => Json.parse e.data).all Json.isObject) = true := by
      refine List.all_eq_true.mpr fun v hv => ?_
      obtain ⟨e, he, hparse⟩ := List.mem_filterMap.mp hv
      obtain ⟨w, hw, hrecord⟩ := hrecords e he
      obtain rfl : w = v := Option.some.inj (hw.symm.trans hparse)
      exact Json.isObject_of_isRecord hrecord
    rw [parseOpenAiSse_result htext, openAiResult, chunksIn_spacedData,
      seen_of_openAiReads hrecords hreads, if_pos hobjects, hvalues, List.nil_append]
  · intro hkeeps heq
    refine openAiReads_of_seen hrecords hkeeps ?_
    rw [parseOpenAiSse_result htext, openAiResult, chunksIn_spacedData] at heq
    split_ifs at heq
    rw [hvalues]
    exact Option.some.inj heq

def ping : JsString × Json := (js "ping", .obj [(js "type", .str (js "ping"))])

def pingText : JsString := js "\x7b\"type\":\"ping\"\x7d"

theorem single_of_all {s : JsString} (h : (s.all fun u => u ≠ 10 && u ≠ 13) = true) :
    ∀ u ∈ s, u ≠ 10 ∧ u ≠ 13 := by
  simpa using h

/-- An event in two lines. -/
def pingEvent (spaced : Bool) (eol : Eol) : Group where
  lines := [⟨.event ⟨js "ping", spaced, single_of_all rfl, fun _ => by decide⟩, eol⟩,
    ⟨.data ⟨pingText, spaced, single_of_all rfl, fun _ => by decide⟩, eol⟩]
  blank := eol

def pings (spaced : Bool) (eol : Eol) : Stream where
  groups := [pingEvent spaced eol, pingEvent spaced eol]
  trailing := []
  closed := by simp

theorem parse_pingText : Json.parse pingText = some ping.2 := by
  have htext : stringify ping.2 = pingText := by decide +kernel
  rw [← htext]
  refine parse_stringify (.obj (by decide) ?_) (.obj ?_)
  · exact List.forall_mem_singleton.mpr (.str _)
  · exact List.forall_mem_singleton.mpr (.str _)

theorem pingEvent_event? (spaced : Bool) (eol : Eol) :
    (pingEvent spaced eol).event? = some ⟨js "ping", pingText⟩ := rfl

theorem pings_events (spaced : Bool) (eol : Eol) :
    (pings spaced eol).events = [⟨js "ping", pingText⟩, ⟨js "ping", pingText⟩] := by
  simp only [pings, Stream.events, List.filterMap_cons, pingEvent_event?, List.filterMap_nil]

theorem serializes_pings (spaced : Bool) (eol : Eol) :
    Serializes (pings spaced eol) [ping, ping] := by
  have hwrites : Writes ⟨js "ping", pingText⟩ ping := ⟨rfl, parse_pingText, rfl⟩
  rw [Serializes, pings_events]
  exact .cons hwrites (.cons hwrites .nil)

theorem keepsObjects_ping : KeepsObjects ⟨js "ping", pingText⟩ := by
  intro v hparse
  obtain rfl : ping.2 = v := Option.some.inj (parse_pingText.symm.trans hparse)
  decide +kernel

/-- Two events with a space behind each colon and LF alone. -/
theorem parsers_read_iff_pings :
    (parseAnthropicSse [⟨(pings true .lf).text, 1⟩]).map Stamped.value =
        [ping, ping].map (fun x => eventOf x.1 x.2) ∧
      ((parseOpenAiSse [⟨(pings true .lf).text, 1⟩]).map (List.map Stamped.value) =
          some ([ping, ping].map Prod.snd) ↔
        OpenAiReads (pings true .lf)) ∧ OpenAiReads (pings true .lf) := by
  have hrun : ∀ type, RunReads type ⟨(pingEvent true .lf).lines, [⟨js "ping", pingText⟩]⟩ := by
    refine fun type => ⟨le_rfl, fun e he => ?_⟩
    obtain rfl := List.mem_singleton.mp he
    refine ⟨pingText, by decide +kernel, ?_⟩
    have hname : nameBehind type ⟨(pingEvent true .lf).lines, [⟨js "ping", pingText⟩]⟩ =
        js "ping" := by
      show trim (js "ping" ++ []) = js "ping"
      decide +kernel
    rw [hname, dataEvent, parse_pingText]
    rfl
  have hruns : (pings true .lf).runs = [⟨(pingEvent true .lf).lines, [⟨js "ping", pingText⟩]⟩,
      ⟨(pingEvent true .lf).lines, [⟨js "ping", pingText⟩]⟩, ⟨[], []⟩] := by
    simp only [Stream.runs, pings, List.foldr_cons, List.foldr_nil, Group.join.eq_def,
      pingEvent_event?, Option.toList_some]
    rfl
  have hkeeps : ∀ e ∈ (pings true .lf).events, KeepsObjects e := by
    rw [pings_events]
    simp [keepsObjects_ping]
  have hone : OneLine (pingEvent true .lf) := ⟨_, rfl, rfl⟩
  have hreads : OpenAiReads (pings true .lf) := by
    intro g hg _
    have hping : g = pingEvent true .lf := by simpa [pings] using hg
    rwa [hping]
  have htext : textOf ([⟨(pings true .lf).text, 1⟩] : List TimedChunk) =
      (pings true .lf).text := by simp [textOf]
  obtain ⟨hanthropic, hread, honly⟩ := parsers_read_iff (serializes_pings true .lf) htext
  refine ⟨hanthropic.mpr ?_, ⟨honly hkeeps, hread⟩, hreads⟩
  rw [hruns]
  exact ⟨hrun _, hrun _, ⟨Nat.zero_le 1, by simp⟩, trivial⟩

/-- With CR LF the first of two events is lost, and without the spaces both
are. -/
theorem pings_lost :
    (parseAnthropicSse [⟨(pings true .crlf).text, 1⟩]).map Stamped.value ≠
        [ping, ping].map (fun x => eventOf x.1 x.2) ∧
      (parseOpenAiSse [⟨(pings false .lf).text, 1⟩]).map (List.map Stamped.value) ≠
        some ([ping, ping].map Prod.snd) := by
  constructor
  · intro heq
    have hlength := congrArg List.length heq
    rw [parseAnthropicSse_readings (s := pings true .crlf) (by simp [textOf])] at hlength
    revert hlength
    decide +kernel
  · intro heq
    rw [parseOpenAiSse_result (s := pings false .lf) (by simp [textOf])] at heq
    have hlength := congrArg (Option.map List.length) heq
    revert hlength
    decide +kernel

end UmansGate.Usage
