/-
UmansGate.Store.ResendTheorems — a batch that the worker writes twice.

When the acknowledgement of a batch is lost, the queue puts its updates back
and sends them again, with those queued since. `executeBatch_resent`: the
file is left as by the second batch alone. The rows are, because the
statement overwrites what it writes (`writtenBy_absorbs`); the totals are,
because the second batch finds the captures of the first accounted, and
accounts the others at the same prices.
-/
import UmansGate.Store.BatchTheorems
import UmansGate.Store.WorkerTheorems

namespace UmansGate.Store

open UmansGate.Lib

/-! ## Rows -/

/-- What the statements of a batch make of the row of a capture. -/
def writtenBy (items : BatchItems) (now : EpochMs) (id : ℕ) (c : CaptureColumns) :
    CaptureColumns :=
  items.foldl (fun c it =>
    if id = it.1 then c.stmtUpdateWorker it.2 (flattenUsage now it.2.usage) else c) c

variable {items more : BatchItems} {now now' : EpochMs} {clock clock' : Clock} {id : ℕ}
  {c c' : CaptureColumns} {db : CaptureDb}

@[simp] theorem writtenBy_nil (now : EpochMs) (id : ℕ) (c : CaptureColumns) :
    writtenBy [] now id c = c := rfl

theorem writtenBy_cons (it : ℕ × UpdateParams) (items : BatchItems) (now : EpochMs) (id : ℕ)
    (c : CaptureColumns) : writtenBy (it :: items) now id c = writtenBy items now id
      (if id = it.1 then c.stmtUpdateWorker it.2 (flattenUsage now it.2.usage) else c) := rfl

theorem writtenBy_append (items more : BatchItems) (now : EpochMs) (id : ℕ) (c : CaptureColumns) :
    writtenBy (items ++ more) now id c = writtenBy more now id (writtenBy items now id c) := by
  simp [writtenBy]

theorem get?_foldl_updateRowWorker (items : BatchItems) (now : EpochMs) (db : CaptureDb)
    (id : ℕ) :
    (items.foldl (fun (db : CaptureDb) it =>
      db.updateRowWorker it.1 it.2 (flattenUsage now it.2.usage)) db).captures.get? id =
        (db.captures.get? id).map (writtenBy items now id) := by
  induction items generalizing db with
  | nil =>
    cases h : db.captures.get? id with
    | none => simp [h]
    | some c => simp [h]
  | cons it items ih =>
    rw [List.foldl_cons, ih, CaptureDb.updateRowWorker, Table.get?_update, Option.map_map]
    simp only [decide_eq_true_eq]
    rfl

/-- A batch with no update of the capture leaves its row. -/
theorem writtenBy_of_not_mem (h : id ∉ items.map Prod.fst) : writtenBy items now id c = c := by
  induction items generalizing c with
  | nil => rfl
  | cons it items ih =>
    simp only [List.map_cons, List.mem_cons, not_or] at h
    rw [writtenBy_cons, if_neg h.1]
    exact ih h.2

/-- The rows have the same columns where the statement of the worker writes
none. -/
def SameKept (c c' : CaptureColumns) : Prop :=
  ∀ p usage, c.stmtUpdateWorker p usage = c'.stmtUpdateWorker p usage

theorem sameKept_writtenBy (items : BatchItems) (now : EpochMs) (id : ℕ) (c : CaptureColumns) :
    SameKept (writtenBy items now id c) c := by
  induction items generalizing c with
  | nil => exact fun _ _ => rfl
  | cons it items ih =>
    simp only [writtenBy_cons]
    by_cases h : id = it.1
    · simp only [if_pos h]
      exact fun p usage => (ih _ p usage).trans rfl
    · simp only [if_neg h]
      exact ih c

/-- A batch that writes a row overwrites what was written there. -/
theorem writtenBy_congr (h : SameKept c c') (hid : id ∈ items.map Prod.fst) :
    writtenBy items now id c = writtenBy items now id c' := by
  induction items generalizing c c' with
  | nil => simp at hid
  | cons it items ih =>
    simp only [writtenBy_cons]
    by_cases hit : id = it.1
    · simp only [if_pos hit, h it.2]
    · simp only [if_neg hit]
      exact ih h ((List.mem_cons.mp hid).resolve_left hit)

theorem writtenBy_absorbs (hid : id ∈ items.map Prod.fst) :
    writtenBy (items ++ more) now' id (writtenBy items now id c) =
      writtenBy (items ++ more) now' id c :=
  writtenBy_congr (sameKept_writtenBy items now id c) (by simp_all)

/-- Marking is no column of the statement. -/
theorem writtenBy_markAccounted (items : BatchItems) (now : EpochMs) (id : ℕ)
    (c : CaptureColumns) :
    writtenBy items now id c.markAccounted = (writtenBy items now id c).markAccounted := by
  induction items generalizing c with
  | nil => rfl
  | cons it items ih =>
    simp only [writtenBy_cons]
    by_cases h : id = it.1
    · simp only [if_pos h]
      exact ih (c.stmtUpdateWorker it.2 (flattenUsage now it.2.usage))
    · simp only [if_neg h]
      exact ih c

/-- What the statement leaves alone is not written. -/
theorem writtenBy_frame {α : Type} (f : CaptureColumns → α)
    (hf : ∀ (c : CaptureColumns) p cols, f (c.stmtUpdateWorker p cols) = f c) (items : BatchItems)
    (now : EpochMs) (id : ℕ) (c : CaptureColumns) : f (writtenBy items now id c) = f c := by
  induction items generalizing c with
  | nil => rfl
  | cons it items ih =>
    simp only [writtenBy_cons]
    by_cases h : id = it.1
    · simp only [if_pos h]
      exact (ih _).trans (hf c _ _)
    · simp only [if_neg h]
      exact ih c

@[simp] theorem usageAccounted_writtenBy (items : BatchItems) (now : EpochMs) (id : ℕ)
    (c : CaptureColumns) : (writtenBy items now id c).usageAccounted = c.usageAccounted :=
  writtenBy_frame CaptureColumns.usageAccounted (fun _ _ _ => rfl) items now id c

theorem get?_executeBatch_captures (db : CaptureDb) (items : BatchItems) (clock : Clock)
    (now : EpochMs) (id : ℕ) :
    (db.executeBatch items clock now).captures.get? id = (db.captures.get? id).map fun c =>
      if id ∈ items.map Prod.fst then (writtenBy items now id c).markAccounted else c := by
  rw [CaptureDb.executeBatch, CaptureDb.get?_accountCapturesUsage, get?_foldl_updateRowWorker,
    Option.map_map]
  congr 1
  funext c
  by_cases h : id ∈ items.map Prod.fst
  · simp only [Function.comp_apply, if_pos h]
  · simp only [Function.comp_apply, if_neg h, writtenBy_of_not_mem h]

/-! ## What is counted -/

/-- The rows are counted alike, whatever clock is read for the row. -/
structure SameCount (c c' : CaptureColumns) : Prop where
  needs : c.needsAccounting = c'.needsAccounting
  startedAt : c.startedAt = c'.startedAt
  model : c.model = c'.model
  counts : c.counts = c'.counts

theorem SameCount.refl (c : CaptureColumns) : SameCount c c := ⟨rfl, rfl, rfl, rfl⟩

/-- A capture with a start time is counted alike by every clock. -/
theorem SameCount.attribution (h : SameCount c c') (hstart : c.startedAt ≠ none)
    (clock clock' : Clock) (id : ℕ) : c.attribution clock id = c'.attribution clock' id := by
  obtain ⟨t, ht⟩ := Option.ne_none_iff_exists'.mp hstart
  have ht' : c'.startedAt = some t := h.startedAt ▸ ht
  simp [CaptureColumns.attribution, ht, ht', h.model, h.counts]

/-- The time at which usage is extracted is not counted. -/
theorem sameCount_writtenBy (h : SameCount c c') (items : BatchItems) (now now' : EpochMs)
    (id : ℕ) : SameCount (writtenBy items now id c) (writtenBy items now' id c') := by
  induction items generalizing c c' with
  | nil => exact h
  | cons it items ih =>
    simp only [writtenBy_cons]
    by_cases hit : id = it.1
    · simp only [if_pos hit]
      refine ih ?_
      cases it.2.usage with
      | none => exact ⟨rfl, h.startedAt, rfl, rfl⟩
      | some usage => exact ⟨rfl, h.startedAt, rfl, rfl⟩
    · simp only [if_neg hit]
      exact ih h

@[simp] theorem startedAt_writtenBy (items : BatchItems) (now : EpochMs) (id : ℕ)
    (c : CaptureColumns) : (writtenBy items now id c).startedAt = c.startedAt :=
  writtenBy_frame CaptureColumns.startedAt (fun _ _ _ => rfl) items now id c

/-- What a batch charges: its captures that were not accounted before, as
their rows are after its statements. -/
structure Charged (db : CaptureDb) (items : BatchItems) (clock : Clock) (now : EpochMs)
    (new : List Attribution) : Prop where
  daily : (db.executeBatch items clock now).dailyUsage =
    (db.toEconomics.charges new).foldl charge db.dailyUsage
  nodup : (new.map Attribution.id).Nodup
  mem : ∀ a, a ∈ new ↔ a.id ∈ items.map Prod.fst ∧ ∃ c, db.captures.get? a.id = some c ∧
    c.usageAccounted = false ∧ (writtenBy items now a.id c).needsAccounting = true ∧
    a = (writtenBy items now a.id c).attribution clock a.id

theorem totals_foldl_updateRowWorker (items : BatchItems) (now : EpochMs) (db : CaptureDb) :
    let db' := items.foldl (fun (db : CaptureDb) it =>
      db.updateRowWorker it.1 it.2 (flattenUsage now it.2.usage)) db
    db'.dailyUsage = db.dailyUsage ∧ db'.modelPricing = db.modelPricing := by
  induction items generalizing db with
  | nil => exact ⟨rfl, rfl⟩
  | cons it items ih => exact ih _

theorem modelPricing_executeBatch (db : CaptureDb) (items : BatchItems) (clock : Clock)
    (now : EpochMs) : (db.executeBatch items clock now).modelPricing = db.modelPricing := by
  obtain ⟨new, h⟩ := charges_accountCapturesUsage clock (items.foldl (fun (db : CaptureDb) it =>
    db.updateRowWorker it.1 it.2 (flattenUsage now it.2.usage)) db).toEconomics (items.map Prod.fst)
  exact h.pricing.trans (totals_foldl_updateRowWorker items now db).2

theorem charged_executeBatch (db : CaptureDb) (items : BatchItems) (clock : Clock)
    (now : EpochMs) : ∃ new, Charged db items clock now new := by
  obtain ⟨hdaily, hpricing⟩ := totals_foldl_updateRowWorker items now db
  obtain ⟨new, ha⟩ := accounts_accountCapturesUsage clock (items.foldl (fun (db : CaptureDb) it =>
    db.updateRowWorker it.1 it.2 (flattenUsage now it.2.usage)) db).toEconomics (items.map Prod.fst)
  obtain ⟨new', hc⟩ := charges_accountCapturesUsage clock (items.foldl (fun (db : CaptureDb) it =>
    db.updateRowWorker it.1 it.2 (flattenUsage now it.2.usage)) db).toEconomics (items.map Prod.fst)
  refine ⟨new, ?_, ha.nodup, fun a => ?_⟩
  · have hfold := ha.daily hc
    rw [hdaily] at hfold
    refine hfold.trans ?_
    simp only [Economics.charges, Economics.getPricing, hpricing]
  · rw [ha.mem]
    simp only [get?_foldl_updateRowWorker, Option.map_eq_some_iff]
    constructor
    · rintro ⟨hid, c', ⟨c, hc, rfl⟩, hacc, hneeds, hattr⟩
      exact ⟨hid, c, hc, by simpa using hacc, hneeds, hattr⟩
    · rintro ⟨hid, c, hc, hacc, hneeds, hattr⟩
      exact ⟨hid, _, ⟨c, hc, rfl⟩, by simpa using hacc, hneeds, hattr⟩

/-- The captures of a batch that is sent again, and those it is sent with,
are charged as by the second batch alone. -/
theorem Charged.perm {new₁ new₂ new₃ : List Attribution}
    (hdisjoint : ∀ it ∈ items, it.1 ∉ more.map Prod.fst)
    (hstart : ∀ id ∈ items.map Prod.fst, ∀ c, db.captures.get? id = some c → c.startedAt ≠ none)
    (h₁ : Charged db items clock now new₁)
    (h₂ : Charged (db.executeBatch items clock now) (items ++ more) clock' now' new₂)
    (h₃ : Charged db (items ++ more) clock' now' new₃) : (new₁ ++ new₂).Perm new₃ := by
  -- the second batch finds the captures of the first one accounted
  have hmem₂ : ∀ a, a ∈ new₂ ↔ a.id ∈ (items ++ more).map Prod.fst ∧ a.id ∉ items.map Prod.fst ∧
      ∃ c, db.captures.get? a.id = some c ∧ c.usageAccounted = false ∧
        (writtenBy (items ++ more) now' a.id c).needsAccounting = true ∧
        a = (writtenBy (items ++ more) now' a.id c).attribution clock' a.id := by
    intro a
    rw [h₂.mem]
    simp only [get?_executeBatch_captures, Option.map_eq_some_iff]
    constructor
    · rintro ⟨hid, c', ⟨c, hc, rfl⟩, hacc, hneeds, hattr⟩
      by_cases hin : a.id ∈ items.map Prod.fst
      · rw [if_pos hin] at hacc
        exact absurd hacc (by simp [CaptureColumns.markAccounted])
      · rw [if_neg hin] at hacc hneeds hattr
        exact ⟨hid, hin, c, hc, hacc, hneeds, hattr⟩
    · rintro ⟨hid, hin, c, hc, hacc, hneeds, hattr⟩
      refine ⟨hid, c, ⟨c, hc, if_neg hin⟩, hacc, hneeds, hattr⟩
  -- the first one counts its captures as the second one would
  have hmem₁ : ∀ a, a ∈ new₁ ↔ a.id ∈ items.map Prod.fst ∧
      ∃ c, db.captures.get? a.id = some c ∧ c.usageAccounted = false ∧
        (writtenBy (items ++ more) now' a.id c).needsAccounting = true ∧
        a = (writtenBy (items ++ more) now' a.id c).attribution clock' a.id := by
    intro a
    rw [h₁.mem]
    refine and_congr_right fun hid => exists_congr fun c => and_congr_right fun hc => ?_
    have hmore : a.id ∉ more.map Prod.fst := by
      obtain ⟨it, hit, heq⟩ := List.mem_map.mp hid
      rw [← heq]
      exact hdisjoint it hit
    have hsame : SameCount (writtenBy items now a.id c) (writtenBy (items ++ more) now' a.id c) := by
      rw [writtenBy_append, writtenBy_of_not_mem hmore]
      exact sameCount_writtenBy (SameCount.refl c) items now now' a.id
    rw [hsame.needs, hsame.attribution (by simpa using hstart _ hid c hc) clock clock' a.id]
  have hnodup : (new₁ ++ new₂).Nodup := by
    refine List.nodup_append.mpr ⟨.of_map _ h₁.nodup, .of_map _ h₂.nodup, ?_⟩
    rintro a ha b hb rfl
    exact ((hmem₂ a).mp hb).2.1 ((hmem₁ a).mp ha).1
  refine (List.perm_ext_iff_of_nodup hnodup (.of_map _ h₃.nodup)).mpr fun a => ?_
  rw [List.mem_append, hmem₁, hmem₂, h₃.mem, List.map_append, List.mem_append]
  constructor
  · rintro (⟨hid, hc⟩ | ⟨hid, -, hc⟩)
    · exact ⟨.inl hid, hc⟩
    · exact ⟨hid, hc⟩
  · rintro ⟨hid, hc⟩
    by_cases hin : a.id ∈ items.map Prod.fst
    · exact .inl ⟨hin, hc⟩
    · exact .inr ⟨hid, hin, hc⟩

/-! ## The second batch -/

/-- Updates that the worker wrote and that are sent again, with others of
other captures: every row of the captures, and every row of the daily totals
with its costs, is as when only the second batch were written. -/
theorem executeBatch_resent (db : CaptureDb) (items more : BatchItems) (clock clock' : Clock)
    (now now' : EpochMs) (hdisjoint : ∀ it ∈ items, it.1 ∉ more.map Prod.fst)
    (hstart : ∀ id ∈ items.map Prod.fst, ∀ c, db.captures.get? id = some c →
      c.startedAt ≠ none) :
    let resent := (db.executeBatch items clock now).executeBatch (items ++ more) clock' now'
    let once := db.executeBatch (items ++ more) clock' now'
    (∀ id, resent.captures.get? id = once.captures.get? id) ∧
      ∀ key, resent.dailyUsage.get? key = once.dailyUsage.get? key := by
  intro resent once
  constructor
  · intro id
    rw [get?_executeBatch_captures, get?_executeBatch_captures, get?_executeBatch_captures,
      Option.map_map]
    congr 1
    funext c
    simp only [Function.comp_apply]
    by_cases hin : id ∈ items.map Prod.fst
    · have hall : id ∈ (items ++ more).map Prod.fst := by
        rw [List.map_append]
        exact List.mem_append_left _ hin
      rw [if_pos hall, if_pos hin, if_pos hall, writtenBy_markAccounted, writtenBy_absorbs hin]
      rfl
    · rw [if_neg hin]
  · intro key
    obtain ⟨new₁, h₁⟩ := charged_executeBatch db items clock now
    obtain ⟨new₂, h₂⟩ := charged_executeBatch (db.executeBatch items clock now) (items ++ more)
      clock' now'
    obtain ⟨new₃, h₃⟩ := charged_executeBatch db (items ++ more) clock' now'
    have hprices : (db.executeBatch items clock now).charges new₂ = db.charges new₂ := by
      simp only [Economics.charges, Economics.getPricing, modelPricing_executeBatch]
    rw [h₃.daily, ← get?_foldl_charge_perm (h₁.perm hdisjoint hstart h₂ h₃) key, h₂.daily, hprices,
      h₁.daily, Economics.charges_append, List.foldl_append]

/-- A database with two captures under way. -/
def twoStreaming : CaptureDb :=
  .load ((Table.empty.insert (stmtInsert ⟨"[]", "body", 4, ⟨0, epoch_inRange⟩, "streaming"⟩)).insert
    (stmtInsert ⟨"[]", "other", 5, ⟨0, epoch_inRange⟩, "streaming"⟩)) [] [] 200 0

/-- The update of the first capture, sent again a second later with that of the
second one. -/
theorem retriedUpdate_resent :
    let clock : Clock := fun _ => ⟨0, epoch_inRange⟩
    let first := twoStreaming.executeBatch [(1, CaptureDb.retriedUpdate)] clock ⟨0, epoch_inRange⟩
    let items := [(1, CaptureDb.retriedUpdate), (2, CaptureDb.retriedUpdate)]
    let resent := first.executeBatch items clock ⟨1000, by decide⟩
    let once := twoStreaming.executeBatch items clock ⟨1000, by decide⟩
    (∀ id, resent.captures.get? id = once.captures.get? id) ∧
      ∀ key, resent.dailyUsage.get? key = once.dailyUsage.get? key := by
  intro clock first items resent once
  refine executeBatch_resent twoStreaming [(1, CaptureDb.retriedUpdate)]
    [(2, CaptureDb.retriedUpdate)] clock clock ⟨0, epoch_inRange⟩ ⟨1000, by decide⟩ (by simp) ?_
  intro id hid c hc
  obtain rfl : id = 1 := by simpa using hid
  cases hc
  simp [stmtInsert]

end UmansGate.Store
