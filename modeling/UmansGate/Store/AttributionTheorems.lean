/-
UmansGate.Store.AttributionTheorems — every capture is counted once.

A step edits captures (`Edits`), then accounts some (`Accounts`), then
drops some (`Drops`); `step_effect` shows it for every step, and nothing
below unfolds a step again. A capture whose flag is set, or whose row is
gone, is closed: no step opens it again, because ids are never reused and
no statement resets the flag.
-/
import UmansGate.Store.AccountingTheorems
import UmansGate.Store.CaptureDb

namespace UmansGate.Store

open UmansGate.Lib

/-- Rows are written, added unaccounted or deleted, and no usage is
counted. -/
structure Edits (e e' : Economics) : Prop where
  attributed : e'.attributed = e.attributed
  counts : ∀ key, e'.counts key = e.counts key
  nextId : e.captures.nextId ≤ e'.captures.nextId
  rows : ∀ id c, e'.captures.get? id = some c →
    (∃ c₀, e.captures.get? id = some c₀ ∧ c₀.usageAccounted = c.usageAccounted) ∨
      e.captures.nextId ≤ id ∧ c.usageAccounted = false

/-- Rows are deleted, and those that stay change their state at most. -/
structure Drops (e e' : Economics) : Prop where
  attributed : e'.attributed = e.attributed
  counts : ∀ key, e'.counts key = e.counts key
  nextId : e'.captures.nextId = e.captures.nextId
  rows : ∀ id c, e'.captures.get? id = some c →
    ∃ c₀, e.captures.get? id = some c₀ ∧ c = { c₀ with state := c.state }

/-- The capture can no longer contribute. -/
def Closed (e : Economics) (id : ℕ) : Prop :=
  id < e.captures.nextId ∧ ∀ c, e.captures.get? id = some c → c.usageAccounted = true

/-! ## Edits and drops -/

variable {e e' e'' : Economics}

theorem Edits.refl (e : Economics) : Edits e e :=
  ⟨rfl, fun _ => rfl, le_rfl, fun _ c h => .inl ⟨c, h, rfl⟩⟩

theorem Edits.trans (h : Edits e e') (h' : Edits e' e'') : Edits e e'' := by
  constructor
  · rw [h'.attributed, h.attributed]
  · exact fun key => (h'.counts key).trans (h.counts key)
  · exact h.nextId.trans h'.nextId
  · intro id c hc
    rcases h'.rows id c hc with ⟨c₁, hc₁, hacc⟩ | ⟨hid, hacc⟩
    · rcases h.rows id c₁ hc₁ with ⟨c₀, hc₀, hacc₀⟩ | ⟨hid, hacc₁⟩
      · exact .inl ⟨c₀, hc₀, hacc₀.trans hacc⟩
      · exact .inr ⟨hid, hacc.symm.trans hacc₁⟩
    · exact .inr ⟨h.nextId.trans hid, hacc⟩

theorem Edits.update (e : Economics) (p : ℕ → CaptureColumns → Bool)
    {f : CaptureColumns → CaptureColumns} (hf : ∀ c, (f c).usageAccounted = c.usageAccounted) :
    Edits e { e with captures := e.captures.update p f } := by
  refine ⟨rfl, fun _ => rfl, le_rfl, fun id c hc => .inl ?_⟩
  rw [Table.get?_update] at hc
  obtain ⟨c₀, hc₀, rfl⟩ := Option.map_eq_some_iff.mp hc
  refine ⟨c₀, hc₀, ?_⟩
  split
  · exact (hf c₀).symm
  · rfl

theorem Edits.insert (e : Economics) {c : CaptureColumns} (hc : c.usageAccounted = false) :
    Edits e { e with captures := e.captures.insert c } := by
  refine ⟨rfl, fun _ => rfl, Nat.le_succ _, fun id c' hc' => ?_⟩
  rw [Table.get?_insert] at hc'
  split at hc'
  · rename_i hid
    cases hc'
    exact .inr ⟨hid.ge, hc⟩
  · exact .inl ⟨c', hc', rfl⟩

theorem Edits.delete (e : Economics) (p : ℕ → CaptureColumns → Bool) :
    Edits e { e with captures := e.captures.delete p } :=
  ⟨rfl, fun _ => rfl, le_rfl, fun _ c hc => .inl ⟨c, Table.get?_of_delete hc, rfl⟩⟩

theorem Drops.refl (e : Economics) : Drops e e :=
  ⟨rfl, fun _ => rfl, rfl, fun _ c h => ⟨c, h, rfl⟩⟩

theorem Drops.delete (h : Drops e e') (p : ℕ → CaptureColumns → Bool) :
    Drops e { e' with captures := e'.captures.delete p } :=
  ⟨h.attributed, h.counts, h.nextId, fun id c hc => h.rows id c (Table.get?_of_delete hc)⟩

theorem Drops.setState (e : Economics) (p : ℕ → CaptureColumns → Bool) (state : Option String) :
    Drops e { e with captures := e.captures.update p fun c => { c with state := state } } := by
  refine ⟨rfl, fun _ => rfl, rfl, fun id c hc => ?_⟩
  rw [Table.get?_update] at hc
  obtain ⟨c₀, hc₀, rfl⟩ := Option.map_eq_some_iff.mp hc
  refine ⟨c₀, hc₀, ?_⟩
  split
  · rfl
  · rfl

/-! ## The steps -/

namespace CaptureDb

theorem edits_updateRows (items : List (ℕ × UpdateParams)) (now : EpochMs) (db : CaptureDb) :
    Edits db.toEconomics (db.updateRows items now).toEconomics := by
  induction items generalizing db with
  | nil => exact Edits.refl _
  | cons it items ih =>
    have hrow : Edits db.toEconomics
        (db.updateRow it.1 it.2 (flattenUsage now it.2.usage)).toEconomics :=
      Edits.update _ _ fun _ => rfl
    exact hrow.trans (ih _)

theorem nextId_updateRows (items : List (ℕ × UpdateParams)) (now : EpochMs) (db : CaptureDb) :
    (db.updateRows items now).captures.nextId = db.captures.nextId := by
  induction items generalizing db with
  | nil => rfl
  | cons it items ih => exact ih _

theorem edits_startCapture (db : CaptureDb) (p : InsertParams) :
    Edits db.toEconomics (db.startCapture p).1.toEconomics := by
  have hinsert : Edits db.toEconomics
      { db.toEconomics with captures := db.captures.insert (stmtInsert p) } :=
    Edits.insert _ rfl
  simp only [startCapture]
  split
  · exact hinsert.trans (Edits.delete _ _)
  · exact hinsert

theorem edits_insertVisionCapture (db : CaptureDb) (p : VisionInsertParams) (now : EpochMs) :
    Edits db.toEconomics (db.insertVisionCapture p now).toEconomics := by
  have hinsert : Edits db.toEconomics
      { db.toEconomics with captures := db.captures.insert (stmtInsertVision p) } :=
    Edits.insert _ rfl
  simp only [insertVisionCapture]
  split
  · exact hinsert.trans (Edits.delete _ _)
  · exact hinsert

/-- What a step does to the captures and to the totals. A step that counts
usage adds no rows. -/
theorem step_effect (db : CaptureDb) (op : Op) :
    ∃ mid mid' clock ids new, Edits db.toEconomics mid ∧ Accounts clock ids new mid mid' ∧
      Drops mid' (db.step op).toEconomics ∧
      (new = [] ∨ mid.captures.nextId = db.captures.nextId) := by
  -- a step that counts nothing, by any clock
  have hedit : ∀ {e : Economics}, Edits db.toEconomics e →
      ∃ mid mid' clock ids new, Edits db.toEconomics mid ∧ Accounts clock ids new mid mid' ∧
        Drops mid' e ∧ (new = [] ∨ mid.captures.nextId = db.captures.nextId) :=
    fun {e} h =>
      ⟨e, e, fun _ => ⟨0, by decide⟩, [], [], h, Accounts.refl _ _, Drops.refl _, .inl rfl⟩
  cases op with
  | reopen clock now =>
    obtain ⟨new, h⟩ := accounts_backfillFromCaptures clock db.toEconomics
    exact ⟨_, _, clock, _, new, Edits.refl _, h, (Drops.setState _ _ _).delete _, .inr rfl⟩
  | startCapture p => exact hedit (edits_startCapture db p)
  | updateCapture id p clock =>
    have he : Edits db.toEconomics (db.updateRow id p {}).toEconomics :=
      Edits.update _ _ fun _ => rfl
    obtain ⟨new, h⟩ := accounts_accountCapturesUsage clock (db.updateRow id p {}).toEconomics [id]
    exact ⟨_, _, clock, _, new, he, h, Drops.refl _, .inr rfl⟩
  | batchUpdate items clock now =>
    obtain ⟨new, h⟩ := accounts_accountCapturesUsage clock (db.updateRows items now).toEconomics
      (items.map Prod.fst)
    exact ⟨_, _, clock, _, new, edits_updateRows items now db, h, Drops.refl _,
      .inr (nextId_updateRows items now db)⟩
  | insertVisionCapture p now => exact hedit (edits_insertVisionCapture db p now)
  | updateVisionCapture id p clock =>
    have he : Edits db.toEconomics { db.toEconomics with
        captures := db.captures.update (fun id' _ => id' = id) (·.stmtUpdateVision p) } :=
      Edits.update _ _ fun _ => rfl
    obtain ⟨new, h⟩ := accounts_accountCapturesUsage clock
      { db.toEconomics with
        captures := db.captures.update (fun id' _ => id' = id) (·.stmtUpdateVision p) } [id]
    exact ⟨_, _, clock, _, new, he, h, Drops.refl _, .inr rfl⟩
  | accountCaptureUsage id clock =>
    obtain ⟨new, h⟩ := accounts_accountCaptureUsage clock db.toEconomics id
    exact ⟨_, _, clock, _, new, Edits.refl _, h, Drops.refl _, .inr rfl⟩
  | accountCapturesUsage ids clock =>
    obtain ⟨new, h⟩ := accounts_accountCapturesUsage clock db.toEconomics ids
    exact ⟨_, _, clock, _, new, Edits.refl _, h, Drops.refl _, .inr rfl⟩
  | backfillFromCaptures clock =>
    obtain ⟨new, h⟩ := accounts_backfillFromCaptures clock db.toEconomics
    exact ⟨_, _, clock, _, new, Edits.refl _, h, Drops.refl _, .inr rfl⟩
  | clear => exact hedit (Edits.delete _ _)
  | clearVisionCaptures => exact hedit (Edits.delete _ _)
  | sweepVisionCaptures ttlMs now => exact hedit (Edits.delete _ _)

end CaptureDb

/-! ## Closed captures -/

variable {clock : Clock} {ids : List ℕ} {new : List Attribution} {id : ℕ}

theorem Closed.edits (h : Closed e id) (he : Edits e e') : Closed e' id := by
  refine ⟨h.1.trans_le he.nextId, fun c hc => ?_⟩
  rcases he.rows id c hc with ⟨c₀, hc₀, hacc⟩ | ⟨hid, _⟩
  · exact hacc.symm.trans (h.2 c₀ hc₀)
  · exact absurd hid (Nat.not_le.mpr h.1)

theorem Closed.accounts (h : Closed e id) (ha : Accounts clock ids new e e') : Closed e' id := by
  rw [Closed, ha.captures]
  refine ⟨h.1, fun c hc => ?_⟩
  rw [get?_mark] at hc
  obtain ⟨c₀, hc₀, rfl⟩ := Option.map_eq_some_iff.mp hc
  split
  · rfl
  · exact h.2 c₀ hc₀

theorem Closed.drops (h : Closed e id) (hd : Drops e e') : Closed e' id := by
  refine ⟨hd.nextId ▸ h.1, fun c hc => ?_⟩
  obtain ⟨c₀, hc₀, heq⟩ := hd.rows id c hc
  rw [heq]
  exact h.2 c₀ hc₀

/-- Nothing is counted of a closed capture. -/
theorem Accounts.not_mem_of_closed (ha : Accounts clock ids new e e') (h : Closed e id) :
    ∀ a ∈ new, a.id ≠ id := by
  rintro a hmem rfl
  obtain ⟨-, c, hc, hacc, -⟩ := (ha.mem a).mp hmem
  rw [h.2 c hc] at hacc
  exact absurd hacc (by simp)

/-- What is accounted is closed. -/
theorem Accounts.closed (ha : Accounts clock ids new e e') {a : Attribution} (hmem : a ∈ new) :
    Closed e' a.id := by
  obtain ⟨hid, c, hc, -⟩ := (ha.mem a).mp hmem
  have hlt : a.id < e.captures.nextId := Table.lt_nextId hc
  rw [Closed, ha.captures]
  refine ⟨hlt, fun c' hc' => ?_⟩
  rw [get?_mark, hc, Option.map_some, if_pos hid] at hc'
  cases hc'
  rfl

/-! ## Counting once -/

/-- No capture was counted twice, and the totals are those of `base` and
of the captures counted. -/
structure CountedOnce (base : String × String → UsageCounts) (e : Economics) : Prop where
  nodup : (e.attributed.map Attribution.id).Nodup
  closed : ∀ a ∈ e.attributed, Closed e a.id
  counts : ∀ key, e.counts key = base key + totalOf key e.attributed

variable {base : String × String → UsageCounts}

theorem CountedOnce.edits (h : CountedOnce base e) (he : Edits e e') : CountedOnce base e' := by
  constructor
  · rw [he.attributed]
    exact h.nodup
  · intro a ha
    rw [he.attributed] at ha
    exact (h.closed a ha).edits he
  · intro key
    rw [he.counts, he.attributed]
    exact h.counts key

theorem CountedOnce.drops (h : CountedOnce base e) (hd : Drops e e') : CountedOnce base e' := by
  constructor
  · rw [hd.attributed]
    exact h.nodup
  · intro a ha
    rw [hd.attributed] at ha
    exact (h.closed a ha).drops hd
  · intro key
    rw [hd.counts, hd.attributed]
    exact h.counts key

theorem CountedOnce.accounts (h : CountedOnce base e) (ha : Accounts clock ids new e e') :
    CountedOnce base e' := by
  constructor
  · rw [ha.attributed, List.map_append]
    refine List.nodup_append.mpr ⟨h.nodup, ha.nodup, fun id hid id' hid' heq => ?_⟩
    obtain ⟨a, hmem, rfl⟩ := List.mem_map.mp hid
    obtain ⟨b, hmem', rfl⟩ := List.mem_map.mp hid'
    exact ha.not_mem_of_closed (h.closed a hmem) b hmem' heq.symm
  · intro a hmem
    rw [ha.attributed] at hmem
    rcases List.mem_append.mp hmem with hmem | hmem
    · exact (h.closed a hmem).accounts ha
    · exact ha.closed hmem
  · intro key
    rw [ha.counts, ha.attributed, totalOf_append, h.counts, UsageCounts.add_assoc]

namespace CaptureDb

theorem countedOnce_step {db : CaptureDb} (h : CountedOnce base db.toEconomics) (op : Op) :
    CountedOnce base (db.step op).toEconomics := by
  obtain ⟨mid, mid', clock, ids, new, he, ha, hd, -⟩ := db.step_effect op
  exact ((h.edits he).accounts ha).drops hd

theorem closed_step {db : CaptureDb} (h : Closed db.toEconomics id) (op : Op) :
    Closed (db.step op).toEconomics id := by
  obtain ⟨mid, mid', clock, ids, new, he, ha, hd, -⟩ := db.step_effect op
  exact ((h.edits he).accounts ha).drops hd

variable (captures : Table CaptureColumns) (modelPricing : Dict String PricingRow)
  (dailyUsage : Dict (String × String) DailyUsage) (maxCaptures : ℕ) (visionCacheTtlMs : Int)

/-- The totals that a file has when it is opened. -/
def baseCounts (dailyUsage : Dict (String × String) DailyUsage) (key : String × String) :
    UsageCounts := ((dailyUsage.get? key).map DailyUsage.toUsageCounts).getD 0

theorem countedOnce_run (ops : List Op) :
    CountedOnce (baseCounts dailyUsage)
      (run step (load captures modelPricing dailyUsage maxCaptures visionCacheTtlMs)
        ops).toEconomics := by
  refine run_invariant (I := fun db : CaptureDb =>
    CountedOnce (baseCounts dailyUsage) db.toEconomics) (fun _ op h => countedOnce_step h op) ?_ ops
  exact ⟨List.nodup_nil, fun a ha => absurd ha (by simp [load]), fun key =>
    (UsageCounts.add_zero _).symm⟩

/-- In every run on any database file each capture is counted at most once,
and the requests and token columns of each `daily_usage` row are those the
file had plus the sum over the captures counted for its date and model. A
step counts exactly the captures it marks that have a model and usage:
their rows were unmarked before it, and each is counted with the date, the
model and the tokens of its row. -/
theorem counted_at_most_once (ops : List Op) :
    let db := run step (load captures modelPricing dailyUsage maxCaptures visionCacheTtlMs) ops
    (db.attributed.map Attribution.id).Nodup ∧
    (∀ key, db.counts key = baseCounts dailyUsage key + totalOf key db.attributed) ∧
    ∀ op, ∃ clock new, (db.step op).attributed = db.attributed ++ new ∧
      (∀ a ∈ new, ∃ c, db.captures.get? a.id = some c ∧ c.usageAccounted = false) ∧
      (∀ a ∈ new, ∀ c', (db.step op).captures.get? a.id = some c' →
        c'.usageAccounted = true ∧ a = c'.attribution clock a.id) ∧
      ∀ id c c', db.captures.get? id = some c → c.usageAccounted = false →
        (db.step op).captures.get? id = some c' → c'.usageAccounted = true →
        (id ∈ new.map Attribution.id ↔ c'.needsAccounting = true) := by
  intro db
  have h : CountedOnce (baseCounts dailyUsage) db.toEconomics :=
    countedOnce_run captures modelPricing dailyUsage maxCaptures visionCacheTtlMs ops
  refine ⟨h.nodup, h.counts, fun op => ?_⟩
  obtain ⟨mid, mid', clock, ids, new, he, ha, hd, hold⟩ := db.step_effect op
  -- the row after the step is the marked row of the middle state
  have hafter : ∀ {id c'}, (db.step op).captures.get? id = some c' →
      ∃ c₁, mid.captures.get? id = some c₁ ∧
        c' = { (if id ∈ ids then c₁.markAccounted else c₁) with state := c'.state } := by
    intro id c' hc'
    obtain ⟨c₂, hc₂, heq⟩ := hd.rows id c' hc'
    rw [ha.captures, get?_mark] at hc₂
    obtain ⟨c₁, hc₁, rfl⟩ := Option.map_eq_some_iff.mp hc₂
    exact ⟨c₁, hc₁, heq⟩
  refine ⟨clock, new, ?_, fun a hmem => ?_, fun a hmem c' hc' => ?_,
    fun id c c' hc hacc hc' hacc' => ?_⟩
  · rw [hd.attributed, ha.attributed, he.attributed]
  · obtain ⟨-, c₁, hc₁, hacc₁, -⟩ := (ha.mem a).mp hmem
    rcases he.rows a.id c₁ hc₁ with ⟨c₀, hc₀, hacc₀⟩ | ⟨hid, -⟩
    · exact ⟨c₀, hc₀, hacc₀.trans hacc₁⟩
    · have hlt := Table.lt_nextId hc₁
      rcases hold with rfl | hnext
      · exact absurd hmem (by simp)
      · omega
  · obtain ⟨c₁, hc₁, heq⟩ := hafter hc'
    obtain ⟨hid, c, hc, -, -, hattr⟩ := (ha.mem a).mp hmem
    rw [hc₁] at hc
    cases hc
    rw [if_pos hid] at heq
    rw [heq]
    exact ⟨rfl, hattr⟩
  · obtain ⟨c₁, hc₁, heq⟩ := hafter hc'
    have hacc₁ : c₁.usageAccounted = false := by
      rcases he.rows id c₁ hc₁ with ⟨c₀, hc₀, hacc₀⟩ | ⟨-, hacc₀⟩
      · rw [hc] at hc₀
        cases hc₀
        exact hacc₀.symm.trans hacc
      · exact hacc₀
    by_cases hid : id ∈ ids
    · rw [if_pos hid] at heq
      have hneeds : c'.needsAccounting = c₁.needsAccounting := by
        rw [heq]
        rfl
      rw [hneeds]
      constructor
      · intro hmem
        obtain ⟨a, hnew, rfl⟩ := List.mem_map.mp hmem
        obtain ⟨-, c₂, hc₂, -, hneeds, -⟩ := (ha.mem a).mp hnew
        rw [hc₁] at hc₂
        cases hc₂
        exact hneeds
      · intro hneeds
        exact List.mem_map_of_mem ((ha.mem (c₁.attribution clock id)).mpr
          ⟨hid, c₁, hc₁, hacc₁, hneeds, rfl⟩)
    · rw [if_neg hid] at heq
      rw [heq] at hacc'
      exact absurd (hacc'.symm.trans hacc₁) (by simp)

end CaptureDb

end UmansGate.Store
