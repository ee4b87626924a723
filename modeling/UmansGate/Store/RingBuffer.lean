/-
UmansGate.Store.RingBuffer — the eviction of old captures by
`startCapture` (`src/db.ts`), with transactions that fail.

`startCapture` counts the non-vision rows in `rowCount` and assigns it
inside the transaction, so a rollback leaves the assignment in place. A
count that is too high is harmless: the statement that selects the excess
finds no row beyond it. A count that is too low is not, and one call makes
it so: a `COMMIT` that fails while more rows than `maxCaptures` are stored
(`miscount_keeps_old_rows`).
-/
import UmansGate.Store.AccountingTheorems
import UmansGate.Store.CaptureDb

namespace UmansGate.Store

open UmansGate.Lib

/-- Where a `startCapture` fails: before its row is inserted, in a
statement that prunes, or in `COMMIT`. -/
inductive FailPoint where
  | insert
  | prune
  | commit
  deriving DecidableEq, Repr

/-- The ids of the non-vision rows, oldest first. -/
def nonVisionIds (captures : Table CaptureColumns) : List ℕ :=
  (captures.rows.filter fun r => !r.2.isVision).map Prod.fst

namespace CaptureDb

/-- A `startCapture` whose transaction is rolled back. -/
def startCaptureFails (db : CaptureDb) (p : InsertParams) : FailPoint → CaptureDb
  | .insert => db
  | .prune =>
    if db.rowCount + 1 - db.maxCaptures > 0 then { db with rowCount := db.rowCount + 1 } else db
  | .commit => { db with rowCount := (db.startCapture p).1.rowCount }

/-- The rows that a `startCapture` deletes. -/
def evictedBy (db : CaptureDb) (p : InsertParams) : List (ℕ × CaptureColumns) :=
  (db.captures.insert (stmtInsert p)).rows.filter fun r =>
    ((db.startCapture p).1.captures.get? r.1).isNone

end CaptureDb

/-- A database and the history of its ring buffer. -/
structure RingLog where
  db : CaptureDb
  /-- The non-vision rows present when the run began or inserted since, from
  the last `clear` on. -/
  present : List ℕ
  /-- The rows that `startCapture` deleted. -/
  evicted : List (ℕ × CaptureColumns)

inductive RingOp where
  | call (op : Op)
  | startFails (p : InsertParams) (point : FailPoint)

namespace RingLog

/-- A database that was opened on a file with these rows. -/
def opened (captures : Table CaptureColumns) (modelPricing : Dict String PricingRow)
    (dailyUsage : Dict (String × String) DailyUsage) (maxCaptures : ℕ) (visionCacheTtlMs : Int) :
    RingLog where
  db := CaptureDb.load captures modelPricing dailyUsage maxCaptures visionCacheTtlMs
  present := nonVisionIds captures
  evicted := []

def step (s : RingLog) : RingOp → RingLog
  | .startFails p point => { s with db := s.db.startCaptureFails p point }
  | .call op =>
    { db := s.db.step op
      present :=
        match op with
        | .startCapture _ => s.present ++ [s.db.captures.nextId]
        | .clear => []
        | _ => s.present
      evicted :=
        match op with
        | .startCapture p => s.evicted ++ s.db.evictedBy p
        | _ => s.evicted }

/-- The surviving non-vision rows are the newest of those present. -/
structure Newest (s : RingLog) : Prop where
  kept : nonVisionIds s.db.captures = s.present.drop (s.present.length - s.db.maxCaptures)
  sorted : s.present.Pairwise (· < ·)

/-- `onPrune` is told of the rows evicted, and none of them is a vision row. -/
structure Reported (s : RingLog) : Prop where
  pruned : s.db.pruned.Perm (s.evicted.map Prod.fst)
  nonVision : ∀ r ∈ s.evicted, r.2.isVision = false

/-- The `COMMIT` of a `startCapture` fails while more rows than
`maxCaptures` are stored. -/
def Miscounts (s : RingLog) : RingOp → Prop
  | .startFails _ .commit => s.db.maxCaptures < CaptureDb.stmtCount s.db.captures
  | _ => False

end RingLog

/-! ## The non-vision rows -/

section Rows

variable {t : Table CaptureColumns}

theorem stmtCount_eq (t : Table CaptureColumns) :
    CaptureDb.stmtCount t = (nonVisionIds t).length := by
  simp [CaptureDb.stmtCount, nonVisionIds]

theorem nonVisionIds_sublist (t : Table CaptureColumns) : (nonVisionIds t).Sublist t.rows.keys :=
  List.filter_sublist.map Prod.fst

theorem nodup_nonVisionIds (t : Table CaptureColumns) : (nonVisionIds t).Nodup :=
  t.nodup_keys.sublist (nonVisionIds_sublist t)

theorem mem_nonVisionIds {id : ℕ} :
    id ∈ nonVisionIds t ↔ ∃ c, t.get? id = some c ∧ c.isVision = false := by
  simp [nonVisionIds, Table.mem_rows_iff]

theorem nonVisionIds_insert (t : Table CaptureColumns) (c : CaptureColumns) :
    nonVisionIds (t.insert c) = nonVisionIds t ++ if c.isVision then [] else [t.nextId] := by
  cases hc : c.isVision with
  | true => simp [nonVisionIds, Table.insert, hc]
  | false => simp [nonVisionIds, Table.insert, hc]

theorem nonVisionIds_update (p : ℕ → CaptureColumns → Bool) {f : CaptureColumns → CaptureColumns}
    (hf : ∀ c, (f c).isVision = c.isVision) : nonVisionIds (t.update p f) = nonVisionIds t := by
  have hrow : ∀ r : ℕ × CaptureColumns,
      (if p r.1 r.2 then f r.2 else r.2).isVision = r.2.isVision := by
    intro r
    split
    · exact hf r.2
    · rfl
  simp only [nonVisionIds, Table.update, List.filter_map, List.map_map]
  simp only [Function.comp_def, hrow]

theorem nonVisionIds_delete_vision {p : ℕ → CaptureColumns → Bool}
    (hp : ∀ id c, p id c = true → c.isVision = true) :
    nonVisionIds (t.delete p) = nonVisionIds t := by
  simp only [nonVisionIds, Table.delete, List.filter_filter]
  congr 1
  apply List.filter_congr
  intro r _
  cases hpr : p r.1 r.2 with
  | true => simp [hp r.1 r.2 hpr]
  | false => simp

theorem nonVisionIds_delete_ids (ids : List ℕ) :
    nonVisionIds (t.delete fun id _ => id ∈ ids) = (nonVisionIds t).filter (· ∉ ids) := by
  simp only [nonVisionIds, Table.delete, List.filter_filter, List.filter_map, Function.comp_def]
  congr 1
  apply List.filter_congr
  intro r _
  simp [Bool.and_comm]

end Rows

/-- What remains without the first entries of a list. -/
theorem filter_not_mem_take {l : List ℕ} (h : l.Nodup) (n : ℕ) :
    l.filter (· ∉ l.take n) = l.drop n := by
  have hsplit := List.take_append_drop n l
  have hdisjoint := (List.nodup_append.mp (hsplit ▸ h)).2.2
  have hfilter : ∀ p : ℕ → Bool, (∀ x ∈ l.take n, p x = false) → (∀ x ∈ l.drop n, p x = true) →
      l.filter p = l.drop n := by
    intro p htake hdrop
    conv_lhs => rw [← hsplit]
    rw [List.filter_append, List.filter_eq_nil_iff.mpr fun x hx => by simp [htake x hx],
      List.nil_append, List.filter_eq_self.mpr hdrop]
  refine hfilter _ (fun x hx => by simp [hx]) fun x hx => ?_
  simpa using fun hmem => hdisjoint x hmem x hx rfl

/-! ## Eviction -/

namespace CaptureDb

variable {db : CaptureDb} {p : InsertParams}

/-- The rows that a `startCapture` selects, if the count is not too low. -/
theorem excessIds_eq {t : Table CaptureColumns} {limit excess : ℕ}
    (h : (nonVisionIds t).length ≤ limit + excess) :
    excessIds t limit excess = ((nonVisionIds t).take ((nonVisionIds t).length - limit)).reverse := by
  have hlen : ((nonVisionIds t).reverse.drop limit).length ≤ excess := by
    rw [List.length_drop, List.length_reverse]
    omega
  rw [excessIds, ← nonVisionIds, List.take_of_length_le hlen, List.drop_reverse]

/-- The newest rows stay. -/
theorem nonVisionIds_startCapture (h : stmtCount db.captures ≤ db.rowCount) :
    let ids := nonVisionIds db.captures ++ [db.captures.nextId]
    nonVisionIds (db.startCapture p).1.captures = ids.drop (ids.length - db.maxCaptures) := by
  have hinsert : nonVisionIds (db.captures.insert (stmtInsert p)) =
      nonVisionIds db.captures ++ [db.captures.nextId] := nonVisionIds_insert _ _
  rw [stmtCount_eq] at h
  simp only [startCapture]
  split
  · rename_i hexcess
    rw [nonVisionIds_delete_ids, excessIds_eq]
    · simp only [List.mem_reverse]
      rw [filter_not_mem_take (nodup_nonVisionIds _), hinsert]
    · rw [hinsert, List.length_append, List.length_singleton]
      omega
  · rename_i hroom
    rw [hinsert, List.length_append, List.length_singleton]
    have hzero : (nonVisionIds db.captures).length + 1 - db.maxCaptures = 0 := by omega
    rw [hzero, List.drop_zero]

/-- The count stays at least the number of rows. -/
theorem stmtCount_startCapture (h : stmtCount db.captures ≤ db.rowCount) :
    stmtCount (db.startCapture p).1.captures ≤ (db.startCapture p).1.rowCount := by
  have hids := nonVisionIds_startCapture (p := p) h
  rw [stmtCount_eq] at h ⊢
  rw [hids, List.length_drop, List.length_append, List.length_singleton]
  simp only [startCapture]
  split
  · simp only
    omega
  · simp only
    omega

theorem maxCaptures_startCapture : (db.startCapture p).1.maxCaptures = db.maxCaptures := by
  simp only [startCapture]
  split
  · rfl
  · rfl

theorem nextId_startCapture : (db.startCapture p).1.captures.nextId = db.captures.nextId + 1 := by
  simp only [startCapture]
  split
  · rfl
  · rfl

/-- The ids that a `startCapture` selects. -/
def selected (db : CaptureDb) (p : InsertParams) : List ℕ :=
  excessIds (db.captures.insert (stmtInsert p)) db.maxCaptures (db.rowCount + 1 - db.maxCaptures)

theorem selected_sublist : (db.selected p).Sublist
    (nonVisionIds (db.captures.insert (stmtInsert p))).reverse :=
  (List.take_sublist _ _).trans (List.drop_sublist _ _)

theorem pruned_startCapture : (db.startCapture p).1.pruned = db.pruned ++ db.selected p := by
  simp only [startCapture]
  split
  · rfl
  · rename_i hroom
    have hzero : db.rowCount + 1 - db.maxCaptures = 0 := Nat.eq_zero_of_not_pos hroom
    simp [selected, excessIds, hzero]

/-- The rows deleted are the rows selected. -/
theorem evictedBy_eq : db.evictedBy p =
    (db.captures.insert (stmtInsert p)).rows.filter fun r => r.1 ∈ db.selected p := by
  apply List.filter_congr
  intro r hr
  have hget := Table.mem_rows_iff.mp hr
  simp only [startCapture]
  split
  · simp only [Table.get?_delete, hget, selected, Option.filter_some]
    by_cases hid : r.1 ∈ excessIds (db.captures.insert (stmtInsert p)) db.maxCaptures
      (db.rowCount + 1 - db.maxCaptures)
    · simp [hid]
    · simp [hid]
  · rename_i hroom
    have hzero : db.rowCount + 1 - db.maxCaptures = 0 := Nat.eq_zero_of_not_pos hroom
    simp [hget, selected, excessIds, hzero]

/-- `onPrune` is told of the rows deleted. -/
theorem selected_perm : (db.selected p).Perm ((db.evictedBy p).map Prod.fst) := by
  have hnodup : (db.selected p).Nodup :=
    ((List.reverse_perm _).nodup_iff.mpr (nodup_nonVisionIds _)).sublist selected_sublist
  have hevicted : ((db.evictedBy p).map Prod.fst).Nodup :=
    (Table.nodup_keys _).sublist (List.filter_sublist.map Prod.fst)
  refine (List.perm_ext_iff_of_nodup hnodup hevicted).mpr fun id => ?_
  rw [evictedBy_eq]
  constructor
  · intro hid
    have hkey := (nonVisionIds_sublist _).subset (List.mem_reverse.mp (selected_sublist.subset hid))
    obtain ⟨r, hr, rfl⟩ := List.mem_map.mp hkey
    exact List.mem_map_of_mem (List.mem_filter.mpr ⟨hr, by simpa using hid⟩)
  · intro hid
    obtain ⟨r, hr, rfl⟩ := List.mem_map.mp hid
    simpa using (List.mem_filter.mp hr).2

theorem isVision_evictedBy {r : ℕ × CaptureColumns} (h : r ∈ db.evictedBy p) :
    r.2.isVision = false := by
  rw [evictedBy_eq] at h
  obtain ⟨hr, hid⟩ := List.mem_filter.mp h
  have hmem := List.mem_reverse.mp (selected_sublist.subset (of_decide_eq_true hid))
  obtain ⟨c, hc, hvision⟩ := mem_nonVisionIds.mp hmem
  rw [Table.mem_rows_iff.mp hr] at hc
  rw [Option.some.inj hc]
  exact hvision

/-! ## The other calls -/

/-- The call leaves the non-vision rows, their count and `onPrune` alone. -/
structure Quiet (db db' : CaptureDb) : Prop where
  ids : nonVisionIds db'.captures = nonVisionIds db.captures
  nextId : db.captures.nextId ≤ db'.captures.nextId
  rowCount : db'.rowCount = db.rowCount
  maxCaptures : db'.maxCaptures = db.maxCaptures
  pruned : db'.pruned = db.pruned

theorem Quiet.refl (db : CaptureDb) : Quiet db db :=
  ⟨rfl, le_rfl, rfl, rfl, rfl⟩

theorem Quiet.trans {db₁ db₂ db₃ : CaptureDb} (h : Quiet db₁ db₂) (h' : Quiet db₂ db₃) :
    Quiet db₁ db₃ where
  ids := h'.ids.trans h.ids
  nextId := h.nextId.trans h'.nextId
  rowCount := h'.rowCount.trans h.rowCount
  maxCaptures := h'.maxCaptures.trans h.maxCaptures
  pruned := h'.pruned.trans h.pruned

theorem Quiet.update (db : CaptureDb) (p : ℕ → CaptureColumns → Bool)
    {f : CaptureColumns → CaptureColumns} (hf : ∀ c, (f c).isVision = c.isVision) :
    Quiet db { db with captures := db.captures.update p f } :=
  ⟨nonVisionIds_update p hf, le_rfl, rfl, rfl, rfl⟩

theorem Quiet.accounts {clock : Clock} {ids : List ℕ} {new : List Attribution} {e : Economics}
    (h : Accounts clock ids new db.toEconomics e) : Quiet db { db with toEconomics := e } := by
  constructor
  · rw [h.captures]
    exact nonVisionIds_update _ fun _ => rfl
  · rw [h.captures]
    exact le_rfl
  · rfl
  · rfl
  · rfl

theorem quiet_accountCapturesUsage (db : CaptureDb) (clock : Clock) (ids : List ℕ) :
    Quiet db (db.accountCapturesUsage clock ids) := by
  obtain ⟨new, h⟩ := accounts_accountCapturesUsage clock db.toEconomics ids
  exact Quiet.accounts h

theorem quiet_backfillFromCaptures (db : CaptureDb) (clock : Clock) :
    Quiet db (db.backfillFromCaptures clock) := by
  obtain ⟨new, h⟩ := accounts_backfillFromCaptures clock db.toEconomics
  exact Quiet.accounts h

theorem quiet_updateRows (items : List (ℕ × UpdateParams)) (now : EpochMs) (db : CaptureDb) :
    Quiet db (db.updateRows items now) := by
  induction items generalizing db with
  | nil => exact Quiet.refl db
  | cons it items ih =>
    have hrow : Quiet db (db.updateRow it.1 it.2 (flattenUsage now it.2.usage)) :=
      Quiet.update db _ fun _ => rfl
    exact hrow.trans (ih _)

theorem quiet_sweepVisionCaptures (db : CaptureDb) (ttlMs : Option Int) (now : EpochMs) :
    Quiet db (db.sweepVisionCaptures ttlMs now) := by
  refine ⟨nonVisionIds_delete_vision fun id c h => ?_, le_rfl, rfl, rfl, rfl⟩
  simp only [Bool.and_eq_true] at h
  exact h.1

theorem quiet_insertVisionCapture (db : CaptureDb) (p : VisionInsertParams) (now : EpochMs) :
    Quiet db (db.insertVisionCapture p now) := by
  have hinsert : Quiet db { db with captures := db.captures.insert (stmtInsertVision p) } := by
    refine ⟨?_, Nat.le_succ _, rfl, rfl, rfl⟩
    rw [nonVisionIds_insert]
    exact List.append_nil _
  simp only [insertVisionCapture]
  split
  · have hswept : Quiet db { db with
        captures := db.captures.insert (stmtInsertVision p), lastVisionSweepAt := now.val } :=
      ⟨hinsert.ids, hinsert.nextId, rfl, rfl, rfl⟩
    exact hswept.trans (quiet_sweepVisionCaptures _ none now)
  · exact hinsert

/-- Opening the file again counts the rows anew. -/
theorem reopen_counts (db : CaptureDb) (clock : Clock) (now : EpochMs) :
    Quiet { db with rowCount := stmtCount db.captures } (db.reopen clock now) := by
  have hfill := quiet_backfillFromCaptures db clock
  have hcount : Quiet { db with rowCount := stmtCount db.captures }
      { db.backfillFromCaptures clock with
        rowCount := stmtCount (db.backfillFromCaptures clock).captures, lastVisionSweepAt := 0 } := by
    refine ⟨hfill.ids, hfill.nextId, ?_, rfl, rfl⟩
    rw [stmtCount_eq, stmtCount_eq, hfill.ids]
  have hstale := Quiet.update { db.backfillFromCaptures clock with
    rowCount := stmtCount (db.backfillFromCaptures clock).captures, lastVisionSweepAt := 0 }
    (fun _ c => c.state = some "streaming" || c.state = some "enqueued")
    (f := fun c => { c with state := some "done" }) fun _ => rfl
  exact (hcount.trans hstale).trans (quiet_sweepVisionCaptures _ none now)

end CaptureDb

/-! ## Runs -/

namespace RingLog

open CaptureDb

variable {s : RingLog}

/-- The non-vision rows are the newest `maxCaptures` of those present, or
more of them, and the count is not too low. -/
structure Counted (s : RingLog) : Prop where
  counted : stmtCount s.db.captures ≤ s.db.rowCount
  kept : ∃ k, k ≤ s.present.length - s.db.maxCaptures ∧
    nonVisionIds s.db.captures = s.present.drop k
  sorted : s.present.Pairwise (· < ·)
  fresh : ∀ id ∈ s.present, id < s.db.captures.nextId
  reported : s.Reported

theorem Counted.quiet (h : s.Counted) {db : CaptureDb} (hq : Quiet s.db db) :
    { s with db := db }.Counted := by
  constructor
  · rw [stmtCount_eq, hq.ids, hq.rowCount, ← stmtCount_eq]
    exact h.counted
  · rw [hq.maxCaptures, hq.ids]
    exact h.kept
  · exact h.sorted
  · exact fun id hid => (h.fresh id hid).trans_le hq.nextId
  · refine ⟨?_, h.reported.nonVision⟩
    rw [hq.pruned]
    exact h.reported.pruned

/-- Another count that is not too low. -/
theorem Counted.recount (h : s.Counted) {n : ℕ} (hn : stmtCount s.db.captures ≤ n) :
    { s with db := { s.db with rowCount := n } }.Counted :=
  ⟨hn, h.kept, h.sorted, h.fresh, ⟨h.reported.pruned, h.reported.nonVision⟩⟩

/-- A successful `startCapture` leaves the newest rows. -/
theorem Counted.newest (h : s.Counted) (p : InsertParams) :
    (s.step (.call (.startCapture p))).Newest := by
  constructor
  · obtain ⟨k, hk, hids⟩ := h.kept
    have hkept := nonVisionIds_startCapture (p := p) h.counted
    simp only [hids] at hkept
    rw [← List.drop_append_of_le_length (by omega), List.drop_drop, List.length_drop,
      List.length_append, List.length_singleton] at hkept
    simp only [step, CaptureDb.step, maxCaptures_startCapture]
    rw [hkept, List.length_append, List.length_singleton]
    congr 1
    omega
  · refine List.pairwise_append.mpr ⟨h.sorted, List.pairwise_singleton _ _, ?_⟩
    intro id hid id' hid'
    rw [List.mem_singleton.mp hid']
    exact h.fresh id hid

theorem Counted.startCapture (h : s.Counted) (p : InsertParams) :
    (s.step (.call (.startCapture p))).Counted := by
  have hnewest := h.newest p
  constructor
  · exact stmtCount_startCapture h.counted
  · exact ⟨_, le_rfl, hnewest.kept⟩
  · exact hnewest.sorted
  · intro id hid
    simp only [step, CaptureDb.step, nextId_startCapture]
    rcases List.mem_append.mp hid with hid | hid
    · exact Nat.lt_succ_of_lt (h.fresh id hid)
    · rw [List.mem_singleton.mp hid]
      exact Nat.lt_succ_self _
  · constructor
    · simp only [step, CaptureDb.step, pruned_startCapture, List.map_append]
      exact h.reported.pruned.append selected_perm
    · intro r hr
      rcases List.mem_append.mp hr with hr | hr
      · exact h.reported.nonVision r hr
      · exact isVision_evictedBy hr

/-- A rollback leaves a count that is high enough, unless it miscounts. -/
theorem Counted.startCaptureFails (h : s.Counted) {p : InsertParams} {point : FailPoint}
    (hop : ¬ s.Miscounts (.startFails p point)) : (s.step (.startFails p point)).Counted := by
  cases point with
  | insert => exact h
  | prune =>
    simp only [step, CaptureDb.startCaptureFails]
    split
    · exact h.recount (Nat.le_succ_of_le h.counted)
    · exact h
  | commit =>
    refine h.recount ?_
    have hcount := h.counted
    have hfits : stmtCount s.db.captures ≤ s.db.maxCaptures := Nat.le_of_not_lt hop
    simp only [CaptureDb.startCapture]
    split
    · exact hfits
    · exact Nat.le_succ_of_le hcount

/-- Every step that does not miscount keeps the rows counted. -/
theorem counted_step (h : s.Counted) (op : RingOp) (hop : ¬ s.Miscounts op) :
    (s.step op).Counted := by
  cases op with
  | startFails p point => exact h.startCaptureFails hop
  | call op =>
    cases op with
    | reopen clock now =>
      exact (h.recount le_rfl).quiet (reopen_counts s.db clock now)
    | startCapture p => exact h.startCapture p
    | updateCapture id p clock =>
      have hrow : Quiet s.db (s.db.updateRow id p {}) := Quiet.update s.db _ fun _ => rfl
      exact h.quiet (hrow.trans (quiet_accountCapturesUsage _ clock [id]))
    | batchUpdate items clock now =>
      exact h.quiet ((quiet_updateRows items now s.db).trans
        (quiet_accountCapturesUsage _ clock _))
    | insertVisionCapture p now => exact h.quiet (quiet_insertVisionCapture s.db p now)
    | updateVisionCapture id p clock =>
      have hrow := Quiet.update s.db (fun id' _ => id' = id) (f := (·.stmtUpdateVision p))
        fun _ => rfl
      exact h.quiet (hrow.trans (quiet_accountCapturesUsage _ clock [id]))
    | accountCaptureUsage id clock =>
      obtain ⟨new, haccounts⟩ := accounts_accountCaptureUsage clock s.db.toEconomics id
      exact h.quiet (Quiet.accounts haccounts)
    | accountCapturesUsage ids clock => exact h.quiet (quiet_accountCapturesUsage s.db clock ids)
    | backfillFromCaptures clock => exact h.quiet (quiet_backfillFromCaptures s.db clock)
    | clear =>
      have hnil : nonVisionIds (s.db.captures.delete fun _ _ => true) = [] := by
        simp [nonVisionIds, Table.delete]
      refine ⟨?_, ⟨0, Nat.zero_le _, hnil⟩, List.Pairwise.nil,
        fun id hid => absurd hid List.not_mem_nil, ⟨h.reported.pruned, h.reported.nonVision⟩⟩
      rw [stmtCount_eq]
      exact (congrArg List.length hnil).le
    | clearVisionCaptures =>
      exact h.quiet ⟨nonVisionIds_delete_vision fun _ _ => id, le_rfl, rfl, rfl, rfl⟩
    | sweepVisionCaptures ttlMs now => exact h.quiet (quiet_sweepVisionCaptures s.db ttlMs now)

theorem counted_opened (captures : Table CaptureColumns) (modelPricing : Dict String PricingRow)
    (dailyUsage : Dict (String × String) DailyUsage) (maxCaptures : ℕ) (visionCacheTtlMs : Int) :
    (opened captures modelPricing dailyUsage maxCaptures visionCacheTtlMs).Counted := by
  constructor
  · exact le_rfl
  · exact ⟨0, Nat.zero_le _, rfl⟩
  · exact captures.sorted.sublist (nonVisionIds_sublist captures)
  · exact fun id hid => captures.fresh id ((nonVisionIds_sublist captures).subset hid)
  · exact ⟨List.Perm.nil, by simp [opened]⟩

/-- In every run in which no `COMMIT` of a `startCapture` fails while more
than `maxCaptures` rows are stored: the rows evicted are the rows reported,
none is a vision row, and a `startCapture` that succeeds leaves exactly the
newest rows. -/
theorem newest_of_not_miscounts (captures : Table CaptureColumns)
    (modelPricing : Dict String PricingRow) (dailyUsage : Dict (String × String) DailyUsage)
    (maxCaptures : ℕ) (visionCacheTtlMs : Int) (ops : List RingOp)
    (h : StepsMeet step (fun s op => ¬ s.Miscounts op)
      (opened captures modelPricing dailyUsage maxCaptures visionCacheTtlMs) ops) :
    let s := Lib.run step (opened captures modelPricing dailyUsage maxCaptures visionCacheTtlMs) ops
    s.Reported ∧ ∀ p, (s.step (.call (.startCapture p))).Newest := by
  have hcounted := run_invariant_of_stepsMeet (I := Counted)
    (fun _ op hs hop => counted_step hs op hop)
    (counted_opened captures modelPricing dailyUsage maxCaptures visionCacheTtlMs) h
  exact ⟨hcounted.reported, hcounted.newest⟩

def insertRequest : InsertParams := ⟨"{}", "body", 4, ⟨0, epoch_inRange⟩, "enqueued"⟩

/-- A file with three captures. -/
def threeCaptures : Table CaptureColumns :=
  ((Table.empty.insert (stmtInsert insertRequest)).insert (stmtInsert insertRequest)).insert
    (stmtInsert insertRequest)

/-- A failing prune and a success, with room for two rows. -/
theorem newest_after_failed_prune :
    let s := Lib.run step (opened threeCaptures [] [] 2 0) [.startFails insertRequest .prune]
    s.Reported ∧ ∀ p, (s.step (.call (.startCapture p))).Newest :=
  newest_of_not_miscounts threeCaptures [] [] 2 0 [.startFails insertRequest .prune]
    ⟨not_false, trivial⟩

/-- A file with three captures is opened with room for one. A `COMMIT`
fails; the next call evicts one row, and two old rows stay. -/
theorem miscount_keeps_old_rows :
    let s := Lib.run step (opened threeCaptures [] [] 1 0)
      [.startFails insertRequest .commit, .call (.startCapture insertRequest)]
    s.db.maxCaptures = 1 ∧ s.present = [1, 2, 3, 4] ∧ nonVisionIds s.db.captures = [1, 2, 4] ∧
      ¬ s.Newest := by
  refine ⟨by decide, by decide, by decide, fun h => ?_⟩
  exact absurd h.kept (by decide)

end RingLog

end UmansGate.Store
