/-
UmansGate.Store.Compress — the compression of bodies and headers
(`src/compress.ts`, and the four text columns of `src/db.ts` that go through
it).

A text of at least 256 bytes is stored as the compressed bytes, a shorter one as
it is. Whether texts are compressed may be switched between writes, and a column
is read by what it holds. `BodyStore` is the table with a way of storing texts:
with compression, and for comparison without.

The zstd functions come from outside, and decompression may throw.
-/
import UmansGate.Lib.Dict
import UmansGate.Lib.Transition
import UmansGate.Lib.Utf8Decode

namespace UmansGate.Store

open UmansGate.Lib

def COMPRESSION_THRESHOLD : ℕ := 256

/-- What a column holds. -/
inductive Column where
  | text (text : JsString)
  | blob (bytes : List UInt8)
  deriving DecidableEq

/-- `Bun.zstdCompressSync` and `Bun.zstdDecompressSync`. -/
structure Zstd where
  compress : List UInt8 → List UInt8
  decompress : List UInt8 → Option (List UInt8)

section

variable (zstd : Zstd)

def compressText (value : Option JsString) (enabled : Bool) : Option Column :=
  match value with
  | none => none
  | some value =>
      if !enabled then some (.text value)
      -- no text has fewer bytes than units
      else if COMPRESSION_THRESHOLD ≤ value.length then some (.blob (zstd.compress (utf8 value)))
      else if (utf8 value).length < COMPRESSION_THRESHOLD then some (.text value)
      else some (.blob (zstd.compress (utf8 value)))

def decompressText : Option Column → Option JsString
  | none => none
  | some (.text text) => some text
  | some (.blob bytes) => (zstd.decompress bytes).map Utf8State.fresh.lossy

end

/-! ## The columns of the captures -/

structure BodyRow (α : Type) where
  request_headers : Option α
  request_body : Option α
  response_headers : Option α
  response_body : Option α
  deriving DecidableEq

def BodyRow.map {α β : Type} (f : Option α → Option β) (row : BodyRow α) : BodyRow β where
  request_headers := f row.request_headers
  request_body := f row.request_body
  response_headers := f row.response_headers
  response_body := f row.response_body

structure BodyStore (α : Type) where
  compressionEnabled : Bool
  rows : Dict ℕ (BodyRow α)

inductive BodyOp where
  /-- A reload of the configuration. -/
  | setCompression (enabled : Bool)
  /-- `startCapture`, with the id that the row gets. -/
  | startCapture (id : ℕ) (rh rb : Option JsString)
  | insertVisionCapture (id : ℕ) (rh rb rh2 rb2 : Option JsString)
  /-- `updateCapture`, or one item of a batch. -/
  | updateCapture (id : ℕ) (rh rb : Option JsString)
  | updateVisionCapture (id : ℕ) (rh rb reqBody reqHeaders : Option JsString)
  | updateRequestBody (id : ℕ) (body : JsString)
  /-- The ring buffer, a sweep or `clear`. -/
  | delete (id : ℕ)
  deriving DecidableEq

namespace BodyStore

variable {α : Type} (store : Option JsString → Bool → Option α) (s : BodyStore α)

/-- The rows after an `UPDATE` of one. -/
def updateRow (id : ℕ) (f : BodyRow α → BodyRow α) : BodyStore α :=
  match s.rows.get? id with
  | none => s
  | some row => { s with rows := s.rows.set id (f row) }

def step : BodyOp → BodyStore α
  | .setCompression enabled => { s with compressionEnabled := enabled }
  | .startCapture id rh rb =>
      let put := fun value => store value s.compressionEnabled
      { s with rows := s.rows.set id ⟨put rh, put rb, none, none⟩ }
  | .insertVisionCapture id rh rb rh2 rb2 =>
      let put := fun value => store value s.compressionEnabled
      { s with rows := s.rows.set id ⟨put rh, put rb, put rh2, put rb2⟩ }
  | .updateCapture id rh rb =>
      let put := fun value => store value s.compressionEnabled
      s.updateRow id fun row => { row with response_headers := put rh, response_body := put rb }
  | .updateVisionCapture id rh rb reqBody reqHeaders =>
      let put := fun value => store value s.compressionEnabled
      s.updateRow id fun _ => ⟨put reqHeaders, put reqBody, put rh, put rb⟩
  | .updateRequestBody id body =>
      let put := fun value => store value s.compressionEnabled
      s.updateRow id fun row => { row with request_body := put (some body) }
  | .delete id => { s with rows := s.rows.erase id }

end BodyStore

/-- `CaptureDB.get`. -/
def BodyStore.get (zstd : Zstd) (s : BodyStore Column) (id : ℕ) : Option (BodyRow JsString) :=
  (s.rows.get? id).map (BodyRow.map (decompressText zstd))

end UmansGate.Store
