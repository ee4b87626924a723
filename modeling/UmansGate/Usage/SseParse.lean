/-
UmansGate.Usage.SseParse — the events of a streamed response
(`usage/sse-parse.ts`).

Both parsers keep the unconsumed text in a buffer and take a block off it
at every blank line; the Anthropic one also carries the event name from
block to block. An event is kept as its value and the `received_at`
assigned to it, whatever the two stamps are: the parsers stamp with times.
-/
import UmansGate.Lib.Framing
import UmansGate.Lib.JsText
import UmansGate.Lib.JsonRead

namespace UmansGate.Usage

open UmansGate.Lib

/-- A decoded piece of the response and when it was received. -/
abbrev TimedChunk := Chunk UInt16 Float

/-- An event and its `received_at`, which replaces one that the data has. -/
structure Stamped (τ : Type) where
  value : Json
  received_at : τ

namespace Stamped

def map {τ τ' : Type} (f : τ → τ') (e : Stamped τ) : Stamped τ' := ⟨e.value, f e.received_at⟩

@[simp] theorem map_value {τ τ' : Type} (f : τ → τ') (e : Stamped τ) :
    (e.map f).value = e.value := rfl

end Stamped

/-- The delimiter of the blocks. -/
def blankLine : JsString := [10, 10]

/-- The time of the last chunk. -/
def lastTime (chunks : List TimedChunk) : Option Float := chunks.getLast?.map Chunk.time

/-! ## Anthropic -/

/-- The name that an `event: ` line gives. -/
def eventName (evType line : JsString) : JsString :=
  if (js "event: ").isPrefixOf line then trim (line.drop 7) else evType

/-- `{ type: parsed.type ?? type, ...parsed }`. -/
def eventOf (type : JsString) (parsed : Json) : Json :=
  let own := match parsed.get? (js "type") with
    | none => .str type
    | some .null => .str type
    | some t => t
  parsed.spread.foldl (fun ev e => ev.set e.1 e.2) (.obj [(js "type", own)])

/-- The name and the data line that a line of a block leaves. -/
def eventLine (s : JsString × Option JsString) (line : JsString) : JsString × Option JsString :=
  if (js "event: ").isPrefixOf line then (trim (line.drop 7), s.2)
  else if (js "data: ").isPrefixOf line then (s.1, some (line.drop 6))
  else s

def parseEventBlock (block evType : JsString) : Option Json :=
  let (type, dataLine) := (linesOf block).foldl eventLine (evType, none)
  match dataLine with
  | none => none
  | some data =>
    if data = js "[DONE]" then none
    else
      match Json.parse data with
      | none => none
      -- reading a property of null throws
      | some .null => none
      | some parsed => some (eventOf type parsed)

/-- The event of a complete block, under the name it leaves for the next one. -/
def anthropicBlock {τ : Type} (time : τ) (s : JsString × List (Stamped τ)) (block : JsString) :
    JsString × List (Stamped τ) :=
  let evType := (linesOf block).foldl eventName s.1
  (evType, s.2 ++ ((parseEventBlock block evType).map (⟨·, time⟩)).toList)

/-- The event of the text behind the last complete block. -/
def anthropicTail {τ : Type} (time : τ) (s : JsString × List (Stamped τ)) (buf : JsString) :
    List (Stamped τ) :=
  if trim buf = [] then s.2 else s.2 ++ ((parseEventBlock buf s.1).map (⟨·, time⟩)).toList

def parseAnthropicSse (chunks : List TimedChunk) : List (Stamped (Option Float)) :=
  let (s, buf) := chunks.foldl (Framing.feed blankLine anthropicBlock) (([], []), [])
  anthropicTail (lastTime chunks) s buf

/-! ## OpenAI -/

def parseDataLine (data : JsString) : Option Json :=
  if data = js "[DONE]" then none else Json.parse data

/-- The chunk of a `data: ` line; none once an assignment has thrown, as it does
on a value that is no object. -/
def openAiLine {τ : Type} (time : τ) (result : Option (List (Stamped τ))) (line : JsString) :
    Option (List (Stamped τ)) :=
  if (js "data: ").isPrefixOf line then
    match parseDataLine (line.drop 6) with
    | none => result
    | some ch =>
      if ch.truthy then
        if ch.isObject then result.map (· ++ [⟨ch, time⟩]) else none
      else result
  else result

def openAiBlock {τ : Type} (time : τ) (result : Option (List (Stamped τ))) (block : JsString) :
    Option (List (Stamped τ)) :=
  (linesOf block).foldl (openAiLine time) result

def openAiTail {τ : Type} (time : τ) (result : Option (List (Stamped τ))) (buf : JsString) :
    Option (List (Stamped τ)) :=
  if trim buf = [] then result else openAiBlock time result buf

/-- None where it throws. -/
def parseOpenAiSse (chunks : List TimedChunk) : Option (List (Stamped (Option Float))) :=
  let (result, buf) := chunks.foldl (Framing.feed blankLine openAiBlock) (some [], [])
  openAiTail (lastTime chunks) result buf

end UmansGate.Usage
