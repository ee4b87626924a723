/-
UmansGate.Store.CaptureDb — the capture database (`src/db.ts`, class
`CaptureDB`) and its runs.

A step is one call, and each call is one transaction: a call that fails
rolls its transaction back and is no step. `reopen` is the constructor on
a file that exists; the write worker runs the same migration, so its
backfill is the step `backfillFromCaptures`. Rows are only ever inserted
under a fresh id (AUTOINCREMENT).
-/
import UmansGate.Lib.Transition
import UmansGate.Store.Economics

namespace UmansGate.Store

open UmansGate.Lib

def VISION_SWEEP_INTERVAL_MS : Int := 60000

/-- The parameters of `stmtInsert` that are columns here. -/
structure InsertParams where
  rh : String
  rb : String
  rs : Int
  st : EpochMs
  state : String

/-- The parameters of `stmtInsertVision` that are columns here. -/
structure VisionInsertParams where
  rh : String
  rb : String
  rs : Int
  status : Option Int
  rh2 : String
  rb2 : String
  rs2 : Int
  ct : String
  dur : Int
  state : String
  startedAt : EpochMs
  finishedAt : Int
  model : String
  parentCaptureId : Option ℕ
  visionMeta : Option String
  usage : UsageColumns

/-- The columns that the statement leaves out have their defaults: those
declared `INTEGER DEFAULT 0` hold 0, the others are null. -/
def stmtInsert (p : InsertParams) : CaptureColumns where
  requestHeaders := some p.rh
  requestBody := some p.rb
  requestSize := some p.rs
  responseSize := some 0
  isSse := some 0
  durationMs := some 0
  startedAt := some p.st
  state := some p.state
  streaming := some 0
  usageMissing := some false

def stmtInsertVision (p : VisionInsertParams) : CaptureColumns where
  requestHeaders := some p.rh
  requestBody := some p.rb
  requestSize := some p.rs
  responseStatus := p.status
  responseHeaders := some p.rh2
  responseBody := some p.rb2
  responseSize := some p.rs2
  contentType := some p.ct
  isSse := some 0
  durationMs := some p.dur
  state := some p.state
  startedAt := some p.startedAt
  finishedAt := some p.finishedAt
  model := some p.model
  isVision := true
  parentCaptureId := p.parentCaptureId
  visionMeta := p.visionMeta
  toUsageColumns := p.usage

structure CaptureDb extends Economics where
  rowCount : ℕ
  maxCaptures : ℕ
  visionCacheTtlMs : Int
  lastVisionSweepAt : Int
  /-- The ids passed to `onPrune`. -/
  pruned : List ℕ

inductive Op where
  | reopen (clock : Clock) (now : EpochMs)
  | startCapture (p : InsertParams)
  | updateCapture (id : ℕ) (p : UpdateParams) (clock : Clock)
  | batchUpdate (items : List (ℕ × UpdateParams)) (clock : Clock) (now : EpochMs)
  | insertVisionCapture (p : VisionInsertParams) (now : EpochMs)
  | updateVisionCapture (id : ℕ) (p : VisionUpdateParams) (clock : Clock)
  | accountCaptureUsage (id : ℕ) (clock : Clock)
  | accountCapturesUsage (ids : List ℕ) (clock : Clock)
  | backfillFromCaptures (clock : Clock)
  | clear
  | clearVisionCaptures
  | sweepVisionCaptures (ttlMs : Option Int) (now : EpochMs)

namespace CaptureDb

/-- `SELECT COUNT(*) AS c FROM captures WHERE is_vision = 0`. -/
def stmtCount (captures : Table CaptureColumns) : ℕ :=
  (captures.rows.filter fun r => !r.2.isVision).length

/-- A database file with these tables, before anything is accounted here. -/
def load (captures : Table CaptureColumns) (modelPricing : Dict String PricingRow)
    (dailyUsage : Dict (String × String) DailyUsage) (maxCaptures : ℕ) (visionCacheTtlMs : Int) :
    CaptureDb where
  captures := captures
  modelPricing := modelPricing
  dailyUsage := dailyUsage
  attributed := []
  rowCount := stmtCount captures
  maxCaptures := maxCaptures
  visionCacheTtlMs := visionCacheTtlMs
  lastVisionSweepAt := 0
  pruned := []

/-- `SELECT id FROM captures WHERE is_vision = 0 ORDER BY id DESC LIMIT
excess OFFSET limit`. -/
def excessIds (captures : Table CaptureColumns) (limit excess : ℕ) : List ℕ :=
  (((captures.rows.filter fun r => !r.2.isVision).map Prod.fst).reverse.drop limit).take excess

/-- The new database and the id of the new row. -/
def startCapture (db : CaptureDb) (p : InsertParams) : CaptureDb × ℕ :=
  let id := db.captures.nextId
  let db := { db with captures := db.captures.insert (stmtInsert p), rowCount := db.rowCount + 1 }
  let excess := db.rowCount - db.maxCaptures
  if excess > 0 then
    let prunedIds := excessIds db.captures db.maxCaptures excess
    ({ db with
        captures := db.captures.delete fun id _ => id ∈ prunedIds
        rowCount := db.maxCaptures
        pruned := db.pruned ++ prunedIds }, id)
  else (db, id)

/-- `stmtUpdate` on one row. -/
def updateRow (db : CaptureDb) (id : ℕ) (p : UpdateParams) (usage : UsageColumns) : CaptureDb :=
  { db with captures := db.captures.update (fun id' _ => id' = id) (·.stmtUpdate p usage) }

def accountCapturesUsage (db : CaptureDb) (clock : Clock) (ids : List ℕ) : CaptureDb :=
  { db with toEconomics := db.toEconomics.accountCapturesUsage clock ids }

/-- The usage parameters of `stmtUpdate` are not bound here. -/
def updateCapture (db : CaptureDb) (id : ℕ) (p : UpdateParams) (clock : Clock) : CaptureDb :=
  (db.updateRow id p {}).accountCapturesUsage clock [id]

/-- The statements of a batch, before its usage is accounted. -/
def updateRows (db : CaptureDb) (items : List (ℕ × UpdateParams)) (now : EpochMs) : CaptureDb :=
  items.foldl (fun db it => db.updateRow it.1 it.2 (flattenUsage now it.2.usage)) db

def batchUpdate (db : CaptureDb) (items : List (ℕ × UpdateParams)) (clock : Clock)
    (now : EpochMs) : CaptureDb :=
  (db.updateRows items now).accountCapturesUsage clock (items.map Prod.fst)

def updateVisionCapture (db : CaptureDb) (id : ℕ) (p : VisionUpdateParams) (clock : Clock) :
    CaptureDb :=
  let captures := db.captures.update (fun id' _ => id' = id) (·.stmtUpdateVision p)
  { db with captures := captures }.accountCapturesUsage clock [id]

def clear (db : CaptureDb) : CaptureDb :=
  { db with captures := db.captures.delete fun _ _ => true, rowCount := 0 }

def clearVisionCaptures (db : CaptureDb) : CaptureDb :=
  { db with captures := db.captures.delete fun _ c => c.isVision }

/-- A row without a start time is never older than the cutoff. -/
def sweepVisionCaptures (db : CaptureDb) (ttlMs : Option Int) (now : EpochMs) : CaptureDb :=
  let cutoff := now.val - ttlMs.getD db.visionCacheTtlMs
  { db with
    captures := db.captures.delete fun _ c =>
      c.isVision && c.startedAt.any fun startedAt => startedAt.val < cutoff }

/-- The id of the new row is `db.captures.nextId`. -/
def insertVisionCapture (db : CaptureDb) (p : VisionInsertParams) (now : EpochMs) : CaptureDb :=
  let db := { db with captures := db.captures.insert (stmtInsertVision p) }
  if now.val - db.lastVisionSweepAt ≥ VISION_SWEEP_INTERVAL_MS then
    { db with lastVisionSweepAt := now.val }.sweepVisionCaptures none now
  else db

/-- `UPDATE captures SET state = 'done' WHERE state IN ('streaming',
'enqueued')`. -/
def sweepStaleCaptures (db : CaptureDb) : CaptureDb :=
  let captures := db.captures.update
    (fun _ c => c.state = some "streaming" || c.state = some "enqueued")
    fun c => { c with state := some "done" }
  { db with captures := captures }

def backfillFromCaptures (db : CaptureDb) (clock : Clock) : CaptureDb :=
  { db with toEconomics := db.toEconomics.backfillFromCaptures clock }

/-- The constructor on a file that exists. -/
def reopen (db : CaptureDb) (clock : Clock) (now : EpochMs) : CaptureDb :=
  let db := db.backfillFromCaptures clock
  let db := { db with rowCount := stmtCount db.captures, lastVisionSweepAt := 0 }
  db.sweepStaleCaptures.sweepVisionCaptures none now

def step (db : CaptureDb) : Op → CaptureDb
  | .reopen clock now => db.reopen clock now
  | .startCapture p => (db.startCapture p).1
  | .updateCapture id p clock => db.updateCapture id p clock
  | .batchUpdate items clock now => db.batchUpdate items clock now
  | .insertVisionCapture p now => db.insertVisionCapture p now
  | .updateVisionCapture id p clock => db.updateVisionCapture id p clock
  | .accountCaptureUsage id clock =>
    { db with toEconomics := db.toEconomics.accountCaptureUsage clock id }
  | .accountCapturesUsage ids clock => db.accountCapturesUsage clock ids
  | .backfillFromCaptures clock => db.backfillFromCaptures clock
  | .clear => db.clear
  | .clearVisionCaptures => db.clearVisionCaptures
  | .sweepVisionCaptures ttlMs now => db.sweepVisionCaptures ttlMs now

end CaptureDb

end UmansGate.Store
