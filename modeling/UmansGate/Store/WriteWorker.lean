/-
UmansGate.Store.WriteWorker — the batch update of the write worker
(`src/workers/write-worker.ts`) against the two updates of `CaptureDB`.

Three statements write the row of a finished capture. `updateCapture` and
`batchUpdate` share one, but only `batchUpdate` binds its usage columns;
the worker has a statement of its own, without five of the columns.
`rows_agree_iff` says for which rows and updates the three leave the same.

An unbound parameter is null and an extra one is ignored. The worker's
connection runs the migrations first, which is the step
`backfillFromCaptures`.
-/
import UmansGate.Store.AccountingTheorems
import UmansGate.Store.CaptureDb

namespace UmansGate.Store

open UmansGate.Lib

/-- `stmtUpdate` of the worker. -/
def CaptureColumns.stmtUpdateWorker (p : UpdateParams) (usage : UsageColumns)
    (c : CaptureColumns) : CaptureColumns :=
  { c with
    responseStatus := some p.status
    responseHeaders := some p.rh
    responseBody := some p.rb
    responseSize := some p.rs
    contentType := some p.ct
    isSse := some p.sse
    durationMs := some p.dur
    state := some "done"
    finishedAt := some p.fin
    statusSource := p.statusSource
    gateReason := p.gateReason
    provider := usage.provider
    streaming := usage.streaming
    model := p.model
    inputTokens := usage.inputTokens
    outputTokens := usage.outputTokens
    cacheCreationTokens := usage.cacheCreationTokens
    cacheReadTokens := usage.cacheReadTokens
    totalInputTokens := usage.totalInputTokens
    totalOutputTokens := usage.totalOutputTokens
    thinkingTokens := usage.thinkingTokens
    ttftMs := usage.ttftMs
    tps := usage.tps
    usageMissing := usage.usageMissing
    metricsExtractedAt := usage.metricsExtractedAt }

namespace CaptureDb

/-- The worker's `stmtUpdate` on one row. -/
def updateRowWorker (db : CaptureDb) (id : ℕ) (p : UpdateParams) (usage : UsageColumns) :
    CaptureDb :=
  { db with captures := db.captures.update (fun id' _ => id' = id) (·.stmtUpdateWorker p usage) }

/-- `executeBatch`, which `WorkerCaptureStore.batchUpdate` posts to the
worker. -/
def executeBatch (db : CaptureDb) (items : List (ℕ × UpdateParams)) (clock : Clock)
    (now : EpochMs) : CaptureDb :=
  (items.foldl (fun db it => db.updateRowWorker it.1 it.2 (flattenUsage now it.2.usage)) db)
    |>.accountCapturesUsage clock (items.map Prod.fst)

/-! ## The row that each path leaves -/

variable {db : CaptureDb} {id : ℕ} {c : CaptureColumns}

theorem get?_accountCapturesUsage (db : CaptureDb) (clock : Clock) (ids : List ℕ) (id : ℕ) :
    (db.accountCapturesUsage clock ids).captures.get? id =
      (db.captures.get? id).map fun c => if id ∈ ids then c.markAccounted else c := by
  obtain ⟨new, h⟩ := accounts_accountCapturesUsage clock db.toEconomics ids
  rw [accountCapturesUsage, h.captures, get?_mark]

/-- Statements for other captures leave a row as it is. -/
theorem get?_foldl_update_of_ne {f : UpdateParams → CaptureColumns → CaptureColumns}
    {items : List (ℕ × UpdateParams)} (hne : ∀ it ∈ items, it.1 ≠ id) (db : CaptureDb) :
    (items.foldl (fun (db : CaptureDb) it =>
      { db with captures := db.captures.update (fun id' _ => id' = it.1) (f it.2) })
      db).captures.get? id = db.captures.get? id := by
  induction items generalizing db with
  | nil => rfl
  | cons it items ih =>
    obtain ⟨hit, hne⟩ := List.forall_mem_cons.mp hne
    refine (ih hne _).trans ?_
    simp [Table.get?_update, hit.symm]

/-- A batch of one statement per item leaves in a row what the item of its
capture writes. -/
theorem get?_foldl_update {f : UpdateParams → CaptureColumns → CaptureColumns}
    {front rest : List (ℕ × UpdateParams)} {p : UpdateParams} (hc : db.captures.get? id = some c)
    (hfront : ∀ it ∈ front, it.1 ≠ id) (hrest : ∀ it ∈ rest, it.1 ≠ id) :
    ((front ++ (id, p) :: rest).foldl (fun (db : CaptureDb) it =>
      { db with captures := db.captures.update (fun id' _ => id' = it.1) (f it.2) })
      db).captures.get? id = some (f p c) := by
  rw [List.foldl_append, List.foldl_cons, get?_foldl_update_of_ne hrest]
  simp [Table.get?_update, get?_foldl_update_of_ne hfront, hc]

theorem get?_updateCapture (hc : db.captures.get? id = some c) (p : UpdateParams) (clock : Clock) :
    (db.updateCapture id p clock).captures.get? id = some (c.stmtUpdate p {}).markAccounted := by
  rw [updateCapture, get?_accountCapturesUsage, updateRow, Table.get?_update, hc]
  simp

section Batches

variable {front rest : List (ℕ × UpdateParams)} {p : UpdateParams}

theorem get?_batchUpdate (hc : db.captures.get? id = some c) (hfront : ∀ it ∈ front, it.1 ≠ id)
    (hrest : ∀ it ∈ rest, it.1 ≠ id) (clock : Clock) (now : EpochMs) :
    (db.batchUpdate (front ++ (id, p) :: rest) clock now).captures.get? id =
      some (c.stmtUpdate p (flattenUsage now p.usage)).markAccounted := by
  have hrow : (db.updateRows (front ++ (id, p) :: rest) now).captures.get? id =
      some (c.stmtUpdate p (flattenUsage now p.usage)) :=
    get?_foldl_update (f := fun p c => c.stmtUpdate p (flattenUsage now p.usage)) hc hfront hrest
  rw [batchUpdate, get?_accountCapturesUsage, hrow]
  simp

theorem get?_executeBatch (hc : db.captures.get? id = some c) (hfront : ∀ it ∈ front, it.1 ≠ id)
    (hrest : ∀ it ∈ rest, it.1 ≠ id) (clock : Clock) (now : EpochMs) :
    (db.executeBatch (front ++ (id, p) :: rest) clock now).captures.get? id =
      some (c.stmtUpdateWorker p (flattenUsage now p.usage)).markAccounted := by
  have hrow := get?_foldl_update (p := p)
    (f := fun p c => c.stmtUpdateWorker p (flattenUsage now p.usage)) hc hfront hrest
  rw [executeBatch, get?_accountCapturesUsage]
  simp only [updateRowWorker]
  rw [hrow]
  simp

end Batches

/-! ## Where they agree -/

/-- The row keeps its value under `COALESCE($new, old)`. -/
theorem or_eq_right_iff {α : Type} {new old : Option α} :
    new.or old = old ↔ new = none ∨ new = old := by
  cases new with
  | none => simp
  | some a => simp

/-- The flattened usage is all null exactly when there is none. -/
theorem flattenUsage_eq_empty_iff (now : EpochMs) {usage : Option UsageMetrics} :
    flattenUsage now usage = {} ↔ usage = none := by
  cases usage with
  | none => simp [flattenUsage]
  | some usage => simp [flattenUsage]

/-- `updateCapture` and `batchUpdate` leave the same row exactly without
usage. -/
theorem stmtUpdate_agree_iff {p : UpdateParams} {now : EpochMs} :
    (c.stmtUpdate p {}).markAccounted = (c.stmtUpdate p (flattenUsage now p.usage)).markAccounted ↔
      p.usage = none := by
  rw [← flattenUsage_eq_empty_iff now]
  constructor
  · intro h
    exact (congrArg CaptureColumns.toUsageColumns h).symm
  · intro h
    rw [h]

/-- `batchUpdate` and the worker leave the same row exactly when the row
has already what the worker does not write. -/
theorem stmtUpdateWorker_agree_iff {p : UpdateParams} {usage : UsageColumns} :
    (c.stmtUpdate p usage).markAccounted = (c.stmtUpdateWorker p usage).markAccounted ↔
      usage.thinkingBlockCount = c.thinkingBlockCount ∧ p.retryAttempt = c.retryAttempt ∧
      p.ttftExceeded = c.ttftExceeded ∧
      (p.upstreamTtftP50Ms = none ∨ p.upstreamTtftP50Ms = c.upstreamTtftP50Ms) ∧
      (p.upstreamTpsP50 = none ∨ p.upstreamTpsP50 = c.upstreamTpsP50) := by
  constructor
  · intro h
    exact ⟨congrArg (·.thinkingBlockCount) h, congrArg (·.retryAttempt) h,
      congrArg (·.ttftExceeded) h, or_eq_right_iff.mp (congrArg (·.upstreamTtftP50Ms) h),
      or_eq_right_iff.mp (congrArg (·.upstreamTpsP50) h)⟩
  · rintro ⟨hthinking, hretry, httft, hp50, htps⟩
    have hp50' := or_eq_right_iff.mpr hp50
    have htps' := or_eq_right_iff.mpr htps
    simp only [CaptureColumns.markAccounted, CaptureColumns.stmtUpdate,
      CaptureColumns.stmtUpdateWorker, hretry, httft, hp50', htps', ← hthinking]

/-- A capture row by the three paths, in batches that hold no other update
of it: the paths agree exactly for an update without usage whose other
columns the row has already. -/
theorem rows_agree_iff (db : CaptureDb) (id : ℕ) (c : CaptureColumns) (p : UpdateParams)
    (front rest : List (ℕ × UpdateParams)) (clock : Clock) (now : EpochMs)
    (hc : db.captures.get? id = some c) (hfront : ∀ it ∈ front, it.1 ≠ id)
    (hrest : ∀ it ∈ rest, it.1 ≠ id) :
    (db.updateCapture id p clock).captures.get? id =
        (db.batchUpdate (front ++ (id, p) :: rest) clock now).captures.get? id ∧
      (db.batchUpdate (front ++ (id, p) :: rest) clock now).captures.get? id =
        (db.executeBatch (front ++ (id, p) :: rest) clock now).captures.get? id ↔
    p.usage = none ∧ c.thinkingBlockCount = none ∧ p.retryAttempt = c.retryAttempt ∧
      p.ttftExceeded = c.ttftExceeded ∧
      (p.upstreamTtftP50Ms = none ∨ p.upstreamTtftP50Ms = c.upstreamTtftP50Ms) ∧
      (p.upstreamTpsP50 = none ∨ p.upstreamTpsP50 = c.upstreamTpsP50) := by
  rw [get?_updateCapture hc, get?_batchUpdate hc hfront hrest, get?_executeBatch hc hfront hrest,
    Option.some.injEq, Option.some.injEq, stmtUpdate_agree_iff, stmtUpdateWorker_agree_iff]
  constructor
  · rintro ⟨husage, hthinking, hrest⟩
    rw [husage] at hthinking
    exact ⟨husage, hthinking.symm, hrest⟩
  · rintro ⟨husage, hthinking, hrest⟩
    rw [husage]
    exact ⟨rfl, hthinking.symm, hrest⟩

/-- A response without usage, and one with usage after a retry. -/
def plainUpdate : UpdateParams :=
  { status := 200, rh := "[]", rb := "ok", rs := 2, ct := "text/plain", sse := 0, dur := 5,
    fin := 100, statusSource := some "upstream", gateReason := none }

def retriedUpdate : UpdateParams :=
  { plainUpdate with
    model := some "m"
    retryAttempt := some 1
    usage := some ⟨"anthropic", true, some 3, some 4, none, none, none, none, none, some 2, none,
      none, false⟩ }

/-- A database with one capture under way. -/
def streamingCapture : CaptureDb :=
  load (Table.empty.insert (stmtInsert ⟨"[]", "body", 4, ⟨0, epoch_inRange⟩, "streaming"⟩)) [] []
    200 0

theorem plain_rows_agree :
    (streamingCapture.updateCapture 1 plainUpdate fun _ => ⟨0, by decide⟩).captures.get? 1 =
        (streamingCapture.batchUpdate [(1, plainUpdate)] (fun _ => ⟨0, by decide⟩)
          ⟨0, by decide⟩).captures.get? 1 ∧
      (streamingCapture.batchUpdate [(1, plainUpdate)] (fun _ => ⟨0, by decide⟩)
          ⟨0, by decide⟩).captures.get? 1 =
        (streamingCapture.executeBatch [(1, plainUpdate)] (fun _ => ⟨0, by decide⟩)
          ⟨0, by decide⟩).captures.get? 1 :=
  (rows_agree_iff streamingCapture 1 (stmtInsert ⟨"[]", "body", 4, ⟨0, by decide⟩, "streaming"⟩)
    plainUpdate [] [] (fun _ => ⟨0, by decide⟩) ⟨0, by decide⟩ rfl (by simp) (by simp)).mpr
    ⟨rfl, rfl, rfl, rfl, .inl rfl, .inl rfl⟩

/-- `updateCapture` loses the usage, and the worker loses the number of
thinking blocks and the retry. -/
theorem retried_rows_differ :
    let clock : Clock := fun _ => ⟨0, by decide⟩
    let u := (streamingCapture.updateCapture 1 retriedUpdate clock).captures.get? 1
    let b := (streamingCapture.batchUpdate [(1, retriedUpdate)] clock ⟨0, by decide⟩).captures.get? 1
    let w := (streamingCapture.executeBatch [(1, retriedUpdate)] clock ⟨0, by decide⟩).captures.get? 1
    u.bind (·.inputTokens) = none ∧ b.bind (·.inputTokens) = some 3 ∧
      b.bind (·.thinkingBlockCount) = some 2 ∧ w.bind (·.thinkingBlockCount) = none ∧
      b.bind (·.retryAttempt) = some 1 ∧ w.bind (·.retryAttempt) = none ∧ u ≠ b ∧ b ≠ w := by
  decide

end CaptureDb

end UmansGate.Store
