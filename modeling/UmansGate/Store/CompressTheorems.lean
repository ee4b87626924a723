/-
UmansGate.Store.CompressTheorems — compression is not seen by who reads.

The shortcut of `compressText` for long texts decides as the count of bytes does
(`compressText_eq`). What a table with compression reads as is what one without
holds, over every run and however compression is switched in it
(`compression_transparent`): each operation keeps `Agrees`, since it stores a
text in the same column of both.
-/
import UmansGate.Store.Compress

namespace UmansGate.Store

open UmansGate.Lib

variable {zstd : Zstd} {value : Option JsString} {v : JsString} {enabled : Bool}

/-! ## One text -/

theorem decompressText_null (zstd : Zstd) : decompressText zstd none = none := rfl

/-- Decompression undoes compression. -/
def Zstd.RoundTrips (zstd : Zstd) : Prop :=
  ∀ bytes, zstd.decompress (zstd.compress bytes) = some bytes

/-- No unit is a half of a pair on its own. -/
def IsWellFormed (v : JsString) : Prop := toWellFormed v = v

instance (v : JsString) : Decidable (IsWellFormed v) := inferInstanceAs (Decidable (_ = _))

theorem compressText_eq (zstd : Zstd) (v : JsString) (enabled : Bool) :
    compressText zstd (some v) enabled =
      if enabled = true ∧ COMPRESSION_THRESHOLD ≤ (utf8 v).length then
        some (.blob (zstd.compress (utf8 v)))
      else some (.text v) := by
  have hle := length_le_utf8 v
  rw [compressText]
  cases enabled with
  | false => simp
  | true =>
    by_cases hlong : COMPRESSION_THRESHOLD ≤ v.length
    · simp [hlong, hlong.trans hle]
    · by_cases hbytes : COMPRESSION_THRESHOLD ≤ (utf8 v).length
      · simp [hlong, hbytes]
      · simp [hlong, hbytes]

theorem decompress_compress (hzstd : zstd.RoundTrips) (hv : ∀ v ∈ value, IsWellFormed v)
    (enabled : Bool) : decompressText zstd (compressText zstd value enabled) = value := by
  cases value with
  | none => rfl
  | some v =>
    rw [compressText_eq]
    split
    · rw [decompressText, hzstd, Option.map_some, lossy_utf8, hv v rfl]
    · rfl

/-! ## Runs -/

namespace BodyOp

/-- The texts that an operation writes. -/
def texts : BodyOp → List (Option JsString)
  | .setCompression _ => []
  | .startCapture _ rh rb => [rh, rb]
  | .insertVisionCapture _ rh rb rh2 rb2 => [rh, rb, rh2, rb2]
  | .updateCapture _ rh rb => [rh, rb]
  | .updateVisionCapture _ rh rb reqBody reqHeaders => [rh, rb, reqBody, reqHeaders]
  | .updateRequestBody _ body => [some body]
  | .delete _ => []

def WellFormed (op : BodyOp) : Prop := ∀ value ∈ op.texts, ∀ v ∈ value, IsWellFormed v

end BodyOp

/-- The table reads as the other one. -/
structure Agrees (zstd : Zstd) (s : BodyStore Column) (plain : BodyStore JsString) : Prop where
  compressionEnabled : s.compressionEnabled = plain.compressionEnabled
  rows : ∀ id, s.get zstd id = plain.rows.get? id

variable {s : BodyStore Column} {plain : BodyStore JsString}

/-- Writing a row. -/
theorem Agrees.set (h : Agrees zstd s plain) {row : BodyRow Column} {row' : BodyRow JsString}
    (hrow : row.map (decompressText zstd) = row') (id : ℕ) :
    Agrees zstd { s with rows := s.rows.set id row }
      { plain with rows := plain.rows.set id row' } where
  compressionEnabled := h.compressionEnabled
  rows := by
    intro id'
    rw [BodyStore.get]
    dsimp only
    rw [Dict.get?_set, Dict.get?_set]
    split
    · rw [Option.map_some, hrow]
    · exact h.rows id'

theorem Agrees.updateRow (h : Agrees zstd s plain) (id : ℕ)
    {f : BodyRow Column → BodyRow Column} {f' : BodyRow JsString → BodyRow JsString}
    (hf : ∀ row, (f row).map (decompressText zstd) = f' (row.map (decompressText zstd))) :
    Agrees zstd (s.updateRow id f) (plain.updateRow id f') := by
  have hread := h.rows id
  rw [BodyStore.get] at hread
  rw [BodyStore.updateRow, BodyStore.updateRow]
  cases hrow : s.rows.get? id with
  | none =>
    rw [hrow, Option.map_none] at hread
    rw [← hread]
    exact h
  | some row =>
    rw [hrow, Option.map_some] at hread
    rw [← hread]
    exact h.set (hf row) id

theorem Agrees.delete (h : Agrees zstd s plain) (id : ℕ) :
    Agrees zstd { s with rows := s.rows.erase id }
      { plain with rows := plain.rows.erase id } where
  compressionEnabled := h.compressionEnabled
  rows := by
    intro id'
    rw [BodyStore.get]
    dsimp only
    rw [Dict.get?_erase, Dict.get?_erase]
    split
    · rfl
    · exact h.rows id'

/-- The way of storing texts without compression. -/
def plainText (value : Option JsString) (_ : Bool) : Option JsString := value

theorem step_agrees (hzstd : zstd.RoundTrips) (h : Agrees zstd s plain) {op : BodyOp}
    (hop : op.WellFormed) :
    Agrees zstd (s.step (compressText zstd) op) (plain.step plainText op) := by
  have hread : ∀ value ∈ op.texts, ∀ enabled,
      decompressText zstd (compressText zstd value enabled) = value :=
    fun value hvalue => decompress_compress hzstd (hop value hvalue)
  cases op with
  | setCompression enabled => exact ⟨rfl, h.rows⟩
  | startCapture id rh rb =>
    refine h.set ?_ id
    simp [BodyRow.map, plainText, hread rh (by simp [BodyOp.texts]),
      hread rb (by simp [BodyOp.texts]), decompressText_null]
  | insertVisionCapture id rh rb rh2 rb2 =>
    refine h.set ?_ id
    simp [BodyRow.map, plainText, hread rh (by simp [BodyOp.texts]),
      hread rb (by simp [BodyOp.texts]), hread rh2 (by simp [BodyOp.texts]),
      hread rb2 (by simp [BodyOp.texts])]
  | updateCapture id rh rb =>
    refine h.updateRow id fun row => ?_
    simp [BodyRow.map, plainText, hread rh (by simp [BodyOp.texts]),
      hread rb (by simp [BodyOp.texts])]
  | updateVisionCapture id rh rb reqBody reqHeaders =>
    refine h.updateRow id fun row => ?_
    simp [BodyRow.map, plainText, hread rh (by simp [BodyOp.texts]),
      hread rb (by simp [BodyOp.texts]), hread reqBody (by simp [BodyOp.texts]),
      hread reqHeaders (by simp [BodyOp.texts])]
  | updateRequestBody id body =>
    refine h.updateRow id fun row => ?_
    simp [BodyRow.map, plainText, hread (some body) (by simp [BodyOp.texts])]
  | delete id => exact h.delete id

theorem run_agrees (hzstd : zstd.RoundTrips) (h : Agrees zstd s plain) {ops : List BodyOp}
    (hops : ∀ op ∈ ops, op.WellFormed) :
    Agrees zstd (run (BodyStore.step (compressText zstd)) s ops)
      (run (BodyStore.step plainText) plain ops) := by
  induction ops generalizing s plain with
  | nil => exact h
  | cons op ops ih =>
    have hfirst := step_agrees hzstd h (hops op List.mem_cons_self)
    exact ih hfirst fun op' hop' => hops op' (List.mem_cons_of_mem op hop')

/-- **Compression is not seen.** A text is stored compressed exactly when
compression is on and it has 256 bytes or more; and after any run over texts
without lone surrogates, however compression was switched, every capture is read
with the texts that were written last. -/
theorem compression_transparent (hzstd : zstd.RoundTrips) (enabled : Bool) {ops : List BodyOp}
    (hops : ∀ op ∈ ops, op.WellFormed) :
    (∀ v enabled, (∃ bytes, compressText zstd (some v) enabled = some (.blob bytes)) ↔
      enabled = true ∧ COMPRESSION_THRESHOLD ≤ (utf8 v).length) ∧
    ∀ id, (run (BodyStore.step (compressText zstd)) ⟨enabled, []⟩ ops).get zstd id =
      (run (BodyStore.step plainText) ⟨enabled, []⟩ ops).rows.get? id := by
  refine ⟨fun v enabled => ?_, (run_agrees hzstd ⟨rfl, fun _ => rfl⟩ hops).rows⟩
  rw [compressText_eq]
  split
  · rename_i hlong
    exact ⟨fun _ => hlong, fun _ => ⟨_, rfl⟩⟩
  · rename_i hshort
    simp [hshort]

/-- A capture whose long body is written before compression is switched off, and
its answer after. -/
def switchedOff : List BodyOp :=
  [.startCapture 1 (some (js "\x7b\x7d")) (some (List.replicate 100 0x4E2D)), .setCompression false,
    .updateCapture 1 none (some (js "中"))]

/-- Bytes as they are. -/
def identityZstd : Zstd := ⟨id, some⟩

theorem switchedOff_transparent :
    (run (BodyStore.step (compressText identityZstd)) ⟨true, []⟩ switchedOff).get identityZstd 1 =
      some ⟨some (js "\x7b\x7d"), some (List.replicate 100 0x4E2D), none, some (js "中")⟩ :=
  have hwellFormed : ∀ op ∈ switchedOff, ∀ value ∈ op.texts, ∀ v ∈ value, IsWellFormed v := by
    decide
  (compression_transparent (fun _ => rfl) true hwellFormed).2 1

end UmansGate.Store
