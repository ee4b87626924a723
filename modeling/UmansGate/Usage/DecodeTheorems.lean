/-
UmansGate.Usage.DecodeTheorems — the capture of a response from its bytes.

The decoder of the capture is the strict one of `Lib.Utf8Decode`, which drops a
byte order mark at the beginning and keeps a character that a chunk cuts in two
until its other half comes. As long as the bytes are UTF-8 so far, what is
stored is the text whose bytes they are, wherever the chunks end
(`stored_of_bytes`), and what is recorded of it apart from times does not depend
on the chunks either (`recorded_of_bytes`).
-/
import UmansGate.Lib.Utf8Decode
import UmansGate.Usage.LimitTheorems

namespace UmansGate.Usage

open UmansGate.Lib UmansGate.Lib.Framing

/-! ## The decoder of the runtime -/

/-- `new TextDecoder("utf-8", { fatal: true })`. -/
structure TextDecoderState where
  utf8 : Utf8State
  bomSeen : Bool
  deriving DecidableEq, Repr

/-- What is passed on of the first text. -/
def withoutBom : JsString → JsString
  | [] => []
  | u :: rest => if u = 0xFEFF then rest else u :: rest

section

variable (afterError : TextDecoderState → List UInt8 → TextDecoderState)

/-- `decode(chunk, { stream: true })`. -/
def TextDecoderState.decode (st : TextDecoderState) (chunk : List UInt8) :
    Option JsString × TextDecoderState :=
  match st.utf8.feed chunk with
  | none => (none, afterError st chunk)
  | some (text, utf8) =>
      if st.bomSeen then (some text, ⟨utf8, true⟩)
      else (some (withoutBom text), ⟨utf8, text ≠ []⟩)

/-- `decode()`: an incomplete character is an error. -/
def TextDecoderState.finish (st : TextDecoderState) : Option JsString :=
  if st.utf8.needed = 0 then some [] else none

/-- What it does after an error, and the encoder, come from outside. -/
def textDecoder (base64 : List UInt8 → JsString) : Decoder TextDecoderState where
  start := ⟨.fresh, false⟩
  decode := TextDecoderState.decode afterError
  finish := TextDecoderState.finish
  base64 := base64

end

variable {afterError : TextDecoderState → List UInt8 → TextDecoderState}
  {base64 : List UInt8 → JsString} {cap : ℕ} {chunks chunks' : List ByteChunk} {t t' : JsString}
  {s s' : Utf8State}

theorem textOf_snoc {α τ : Type} (chunks : List (Chunk α τ)) (chunk : Chunk α τ) :
    textOf (chunks ++ [chunk]) = textOf chunks ++ chunk.text := by
  simp [textOf]

theorem captureOf_snoc {σ : Type} (dec : Decoder σ) (chunk : ByteChunk) :
    captureOf dec cap (chunks ++ [chunk]) = transform dec cap (captureOf dec cap chunks) chunk := by
  simp [captureOf]

theorem captureOf_totalSize {σ : Type} (dec : Decoder σ) (chunks : List ByteChunk) :
    (captureOf dec cap chunks).totalSize = (textOf chunks).length := by
  induction chunks using List.reverseRecOn with
  | nil => rfl
  | append_singleton chunks chunk ih =>
    rw [captureOf_snoc, transform_totalSize, ih, textOf_snoc, List.length_append]

/-! ## What is read -/

theorem withoutBom_append :
    withoutBom (t ++ t') = if t = [] then withoutBom t' else withoutBom t ++ t' := by
  cases t with
  | nil => simp
  | cons u rest =>
    rw [if_neg (List.cons_ne_nil u rest), List.cons_append, withoutBom, withoutBom]
    split
    · rfl
    · rfl

/-- The capture has read the text, and its decoder is where the text ends. -/
structure HasRead (st : CaptureState TextDecoderState) (t : JsString) (s : Utf8State) : Prop where
  decoder : st.decoder = ⟨s, t ≠ []⟩
  parts : st.parts.flatten = withoutBom t
  timed : textOf st.timedChunks = withoutBom t

/-- A piece of text is kept with its time, unless it is empty. -/
theorem textOf_keep {timedChunks : List TimedChunk} {decoded : JsString} {time : Float} :
    textOf (if decoded = [] then timedChunks else timedChunks ++ [⟨decoded, time⟩]) =
      textOf timedChunks ++ decoded := by
  split
  · rename_i hempty
    rw [hempty, List.append_nil]
  · simp [textOf]

theorem HasRead.transform {st : CaptureState TextDecoderState} (h : HasRead st t s)
    {chunk : ByteChunk} (hcap : capturing cap (st.totalSize + chunk.text.length) = true)
    (hfeed : s.feed chunk.text = some (t', s')) :
    HasRead (transform (textDecoder afterError base64) cap st chunk) (t ++ t') s' := by
  have hdecode : (textDecoder afterError base64).decode st.decoder chunk.text =
      (some (if t = [] then withoutBom t' else t'), ⟨s', t ++ t' ≠ []⟩) := by
    rw [h.decoder]
    simp only [textDecoder, TextDecoderState.decode, hfeed]
    by_cases hempty : t = []
    · simp [hempty]
    · simp [hempty]
  rw [Usage.transform]
  simp only [hcap, if_true, hdecode]
  have htext : withoutBom t ++ (if t = [] then withoutBom t' else t') = withoutBom (t ++ t') := by
    rw [withoutBom_append]
    split
    · rename_i hempty
      rw [hempty, withoutBom, List.nil_append]
    · rfl
  refine ⟨rfl, ?_, ?_⟩
  · simp [h.parts, htext]
  · rw [textOf_keep, h.timed, htext]

theorem hasRead_captureOf (hfeed : Utf8State.fresh.feed (textOf chunks) = some (t, s))
    (hcap : capturing cap (textOf chunks).length = true) :
    HasRead (captureOf (textDecoder afterError base64) cap chunks) t s := by
  induction chunks using List.reverseRecOn generalizing t s with
  | nil =>
    cases hfeed
    exact ⟨rfl, rfl, rfl⟩
  | append_singleton chunks chunk ih =>
    rw [textOf_snoc] at hfeed hcap
    obtain ⟨t₁, t₂, s₁, hfirst, hlast, rfl⟩ := exists_feed_of_append hfeed
    have hcap₁ : capturing cap (textOf chunks).length = true :=
      capturing_of_le (by simp) hcap
    rw [captureOf_snoc]
    refine (ih hfirst hcap₁).transform ?_ hlast
    rw [captureOf_totalSize, ← List.length_append]
    exact hcap

variable (afterError base64) in
/-- **The stored body is the text of the response.** While the bytes are UTF-8 so
far and within the limit, the body and the timed pieces are the text whose bytes
they are, without a byte order mark; what is left of the bytes is a character
that is not complete. -/
theorem stored_of_bytes (hfeed : Utf8State.fresh.feed (textOf chunks) = some (t, s))
    (hcap : capturing cap (textOf chunks).length = true) :
    let st := captureOf (textDecoder afterError base64) cap chunks
    fullBody (textDecoder afterError base64) cap st = withoutBom t ∧
      textOf st.timedChunks = withoutBom t ∧
      ∃ pending, textOf chunks = utf8 t ++ pending ∧
        Utf8State.fresh.feed pending = some ([], s) ∧ (s.needed = 0 → pending = []) := by
  intro st
  have hread : HasRead st t s := hasRead_captureOf hfeed hcap
  refine ⟨?_, hread.timed, utf8_of_feed hfeed⟩
  have hsize : st.totalSize = (textOf chunks).length := captureOf_totalSize _ chunks
  rw [fullBody, hsize, if_pos hcap, hread.decoder]
  by_cases hcomplete : s.needed = 0
  · simp [textDecoder, TextDecoderState.finish, hcomplete, hread.parts]
  · simp [textDecoder, TextDecoderState.finish, hcomplete, hread.parts]

/-- A mark and three characters, two of them cut in two. -/
def cutChunks : List ByteChunk :=
  [⟨[0xEF, 0xBB, 0xBF, 0x63, 0xC3], 1⟩, ⟨[0xA9, 0xF0, 0x9F], 2⟩, ⟨[0x98, 0x80], 3⟩]

theorem stored_of_cutChunks :
    fullBody (textDecoder (fun st _ => st) fun _ => []) 10
      (captureOf (textDecoder (fun st _ => st) fun _ => []) 10 cutChunks) = js "cé😀" :=
  (stored_of_bytes (fun st _ => st) (fun _ => [])
    (show Utf8State.fresh.feed (textOf cutChunks) = some (0xFEFF :: js "cé😀", .fresh) by decide)
    (by decide)).1

/-- What is recorded of a streamed response apart from times is that of its
text. -/
theorem extractUsage_untimed {timed timed' : List TimedChunk} (h : textOf timed = textOf timed')
    (provider : Provider) (requestBody body body' : JsString) (dur dur' start start' : Float) :
    (extractUsage provider true requestBody body dur start timed).map
        (fun r => (r.1, r.2.untimed)) =
      (extractUsage provider true requestBody body' dur' start' timed').map
        fun r => (r.1, r.2.untimed) := by
  unfold extractUsage
  cases Json.parse requestBody with
  | none => rfl
  | some parsedBody =>
    cases provider with
    | anthropic =>
      have huntimed := extractAnthropicStreaming_untimed (parseAnthropicSse_values h) start start'
        (some dur) (some dur')
      simp only [Option.map_some]
      congr 2
      exact congrArg (fun m : UsageMetrics => { m with model := some (extractModel parsedBody) })
        huntimed
    | openai =>
      obtain ⟨hnone, hnone'⟩ | ⟨r, r', hr, hr', hvalues⟩ := parseOpenAiSse_values h
      · simp [hnone, hnone']
      · have huntimed := extractOpenAiStreaming_untimed hvalues start start' (some dur) (some dur')
        simp only [hr, hr', Option.map_some]
        congr 2
        exact congrArg (fun m : UsageMetrics => { m with model := some (extractModel parsedBody) })
          huntimed

/-- **The chunks do not matter.** Two ways to cut the bytes of a response, at any
times and in the middle of characters, lead to the same record apart from
times. -/
theorem recorded_of_bytes (hfeed : (Utf8State.fresh.feed (textOf chunks)).isSome = true)
    (hcap : capturing cap (textOf chunks).length = true) (hbytes : textOf chunks' = textOf chunks)
    (provider : Provider) (reqBodyText : JsString) (dur dur' start start' : Float) :
    let dec := textDecoder afterError base64
    fullBody dec cap (captureOf dec cap chunks') = fullBody dec cap (captureOf dec cap chunks) ∧
      (flushCapture dec cap provider reqBodyText dur' start' chunks').map
          (fun r => (r.1, r.2.untimed)) =
        (flushCapture dec cap provider reqBodyText dur start chunks).map
          fun r => (r.1, r.2.untimed) := by
  intro dec
  obtain ⟨r, hr⟩ := Option.isSome_iff_exists.mp hfeed
  have hread := stored_of_bytes afterError base64 hr hcap
  rw [← hbytes] at hr hcap
  have hread' := stored_of_bytes afterError base64 hr hcap
  refine ⟨hread'.1.trans hread.1.symm, ?_⟩
  exact extractUsage_untimed (hread'.2.1.trans hread.2.1.symm) _ _ _ _ _ _ _ _

/-- The same bytes in one piece. -/
def wholeChunk : List ByteChunk := [⟨textOf cutChunks, 4⟩]

theorem recorded_of_cutChunks :
    (flushCapture (textDecoder (fun st _ => st) fun _ => []) 0 .openai (js "\x7b\x7d") 5 1
        cutChunks).map (fun r => (r.1, r.2.untimed)) =
      (flushCapture (textDecoder (fun st _ => st) fun _ => []) 0 .openai (js "\x7b\x7d") 4 2
        wholeChunk).map fun r => (r.1, r.2.untimed) :=
  have hread : (Utf8State.fresh.feed (textOf wholeChunk)).isSome = true := by decide
  (recorded_of_bytes hread (by decide) (by decide) _ _ _ _ _ _).2

end UmansGate.Usage
