/-
UmansGate.Usage.Capture — what the proxy keeps of a streamed response, and
the usage it records of it (`src/proxy.ts`: the capture of
`forwardUpstream`).

The text decoder and the base64 encoder are those of the runtime; the
results hold of any. What the stream passes on to the client is not part of
this module: every chunk is, whatever is kept of it.
-/
import UmansGate.Usage.Extract

namespace UmansGate.Usage

open UmansGate.Lib

/-- A piece of the response as it arrives. -/
abbrev ByteChunk := Chunk UInt8 Float

/-- `new TextDecoder("utf-8", { fatal: true })` with the state `σ`, and
`Buffer.toString("base64")`. -/
structure Decoder (σ : Type) where
  start : σ
  /-- `decode(chunk, { stream: true })`; no text where it throws. -/
  decode : σ → List UInt8 → Option JsString × σ
  /-- `decode()`; none where it throws. -/
  finish : σ → Option JsString
  base64 : List UInt8 → JsString

/-- The variables of the capture. -/
structure CaptureState (σ : Type) where
  parts : List JsString := []
  timedChunks : List TimedChunk := []
  totalSize : ℕ := 0
  decoder : σ

section

variable {σ : Type} (dec : Decoder σ) (cap : ℕ)

/-- `cap === 0 || totalSize <= cap`. -/
def capturing (totalSize : ℕ) : Bool := cap = 0 || totalSize ≤ cap

def transform (st : CaptureState σ) (chunk : ByteChunk) : CaptureState σ :=
  let totalSize := st.totalSize + chunk.text.length
  if capturing cap totalSize then
    match dec.decode st.decoder chunk.text with
    | (some decoded, decoder) =>
      { parts := st.parts ++ [decoded]
        timedChunks :=
          if decoded = [] then st.timedChunks else st.timedChunks ++ [⟨decoded, chunk.time⟩]
        totalSize, decoder }
    | (none, decoder) =>
      { parts := st.parts ++ [dec.base64 chunk.text], timedChunks := st.timedChunks
        totalSize, decoder }
  else { st with totalSize }

/-- The capture when the response ends or is aborted. -/
def captureOf (chunks : List ByteChunk) : CaptureState σ :=
  chunks.foldl (transform dec cap) { decoder := dec.start }

/-- The body that is stored: the pieces and what the decoder still holds. -/
def fullBody (st : CaptureState σ) : JsString :=
  if capturing cap st.totalSize then (st.parts ++ ((dec.finish st.decoder).toList)).flatten
  else st.parts.flatten

/-- The model and the usage that `flushCapture` records of a streamed response;
none where the extraction throws. -/
def flushCapture (provider : Provider) (reqBodyText : JsString) (durationMs startedAt : Float)
    (chunks : List ByteChunk) : Option (JsString × UsageMetrics) :=
  let st := captureOf dec cap chunks
  extractUsage provider true reqBodyText (fullBody dec cap st) durationMs startedAt st.timedChunks

end

end UmansGate.Usage
