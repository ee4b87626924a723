/-
UmansGate.UsageHistory.SampleTheorems — when coalescing is faithful.

The key read back from a row is that of the snapshot the row was made of
(`seedKey_insertParams`), so a start knows the last stored sample. The store
compares with the last snapshot it tried to store, and that is another one
after an insert that failed. A snapshot is then lost when it is the one whose
insert failed, and stored twice when it is the last one stored
(`KeyAgrees`).
-/
import Mathlib.Data.List.Chain
import UmansGate.UsageHistory.RetentionTheorems
import UmansGate.UsageHistory.Samples

namespace UmansGate.UsageHistory

open UmansGate.Lib

/-- The columns keep the ambient state. -/
theorem seedKey_insertParams (snap : UsageSample) : seedKey (insertParams snap) = snap.ambient := by
  have hflag : ∀ b : Bool, ((if b then 1 else 0 : Int) == 1) = b := by decide
  simp only [seedKey, insertParams, hflag]

/-- A start takes the key from the columns of the last row. -/
theorem lastKey_new (samples : Table UsageSample) (events : Table UsageEvent)
    (daily : Dict Int DailyEntry) :
    (UsageHistoryStore.new samples events daily).lastKey =
      samples.rows.getLast?.map fun r => seedKey (insertParams r.2) := by
  simp only [UsageHistoryStore.new, seedKey_insertParams]

theorem lastKey_restart (store : UsageHistoryStore) :
    (UsageHistoryStore.new store.samples store.events store.daily).lastKey =
      lastAmbient store.stored := by
  rw [lastKey_new]
  simp [seedKey_insertParams, lastAmbient, UsageHistoryStore.stored, List.getLast?_map,
    Function.comp_def]

/-- What a snapshot adds to the stored samples. -/
theorem stored_handleSnapshot (store : UsageHistoryStore) (snap : UsageSample) (throws : Bool) :
    (store.handleSnapshot snap throws).stored =
      if snap.ambient.ok = true ∧ store.lastKey ≠ some snap.ambient ∧ throws = false then
        store.stored ++ [snap]
      else store.stored := by
  simp only [UsageHistoryStore.stored, HistoryRun.samples_handleSnapshot]
  split
  · simp [Table.insert]
  · rfl

/-- Coalescing stores no two samples alike one after the other. -/
theorem isChain_coalesce {stored : List UsageSample} (op : SampleOp)
    (h : stored.IsChain fun a b => a.ambient ≠ b.ambient) :
    (coalesce stored op).IsChain fun a b => a.ambient ≠ b.ambient := by
  cases op with
  | restart => exact h
  | snapshot snap throws =>
    simp only [coalesce]
    split
    · rename_i hnew
      refine List.isChain_append.mpr ⟨h, List.isChain_singleton snap, fun a ha b hb heq => ?_⟩
      obtain rfl : snap = b := by simpa using hb
      exact hnew.2.1 (by rw [lastAmbient, ha, Option.map_some, heq])
    · exact h

namespace SampleRun

/-- The stored samples are the ones meant, and no two neighbours are alike. -/
def Faithful (s : SampleRun) : Prop :=
  s.store.stored = s.meant ∧ s.store.stored.IsChain fun a b => a.ambient ≠ b.ambient

/-- Before a snapshot that can be stored, the key in memory and the last
stored sample agree on whether it is new. -/
def KeyAgrees (s : SampleRun) : SampleOp → Prop
  | .snapshot snap throws => snap.ambient.ok = true → throws = false →
      (s.store.lastKey = some snap.ambient ↔ lastAmbient s.store.stored = some snap.ambient)
  | .restart => True

instance (s : SampleRun) (op : SampleOp) : Decidable (KeyAgrees s op) := by
  cases op with
  | snapshot snap throws => exact inferInstanceAs (Decidable (_ → _ → (_ ↔ _)))
  | restart => exact .isTrue trivial

/-- What a step stores is what is meant exactly when the keys agree. -/
theorem faithful_step_iff {s : SampleRun} (h : s.Faithful) (op : SampleOp) :
    (s.step op).Faithful ↔ s.KeyAgrees op := by
  have hchain : (s.step op).meant.IsChain fun a b => a.ambient ≠ b.ambient := by
    have hmeant := h.2
    rw [h.1] at hmeant
    exact isChain_coalesce op hmeant
  have hstored : (s.step op).Faithful ↔ (s.step op).store.stored = (s.step op).meant := by
    constructor
    · exact fun hf => hf.1
    · intro heq
      refine ⟨heq, ?_⟩
      rw [heq]
      exact hchain
  rw [hstored]
  cases op with
  | restart => exact iff_of_true h.1 trivial
  | snapshot snap throws =>
    simp only [step, stored_handleSnapshot, coalesce, KeyAgrees, ← h.1]
    have hne : s.store.stored ++ [snap] ≠ s.store.stored := by simp
    cases hok : snap.ambient.ok with
    | false => simp
    | true =>
      cases throws with
      | true => simp
      | false =>
        by_cases hkey : s.store.lastKey = some snap.ambient
        · by_cases hlast : lastAmbient s.store.stored = some snap.ambient
          · simp [hkey, hlast]
          · simp [hkey, hlast]
        · by_cases hlast : lastAmbient s.store.stored = some snap.ambient
          · simp [hkey, hlast]
          · simp [hkey, hlast]

theorem faithful_init : init.Faithful := ⟨rfl, List.IsChain.nil⟩

/-- **Coalescing is faithful exactly as long as the keys agree.** For every
sequence of snapshots, failed inserts and restarts: in every state the stored
samples are the successful snapshots that differ from the last one stored
before them, without two neighbours alike, if and only if each snapshot that
could be stored met a key in memory that agreed with the last stored sample on
whether it is new. -/
theorem coalescing_faithful_iff (ops : List SampleOp) :
    (∀ pre, pre <+: ops → (run step init pre).Faithful) ↔ StepsMeet step KeyAgrees init ops :=
  throughout_iff_stepsMeet (fun _ op _ hs => faithful_step_iff hs op) faithful_init

/-- The key after a snapshot. -/
theorem lastKey_handleSnapshot (store : UsageHistoryStore) (snap : UsageSample) (throws : Bool) :
    (store.handleSnapshot snap throws).lastKey =
      if snap.ambient.ok = true ∧ store.lastKey ≠ some snap.ambient then some snap.ambient
      else store.lastKey := by
  simp only [UsageHistoryStore.handleSnapshot]
  cases snap.ambient.ok with
  | false => simp
  | true =>
    by_cases hkey : store.lastKey = some snap.ambient
    · simp [hkey]
    · cases throws with
      | false => simp [hkey]
      | true => simp [hkey]

/-- An insert that does not fail leaves the key of the last stored sample. -/
theorem lastKey_step {s : SampleRun} {op : SampleOp}
    (hkey : s.store.lastKey = lastAmbient s.store.stored) (h : ∀ snap, op ≠ .snapshot snap true) :
    (s.step op).store.lastKey = lastAmbient (s.step op).store.stored := by
  cases op with
  | restart => exact lastKey_restart s.store
  | snapshot snap throws =>
    cases throws with
    | true => exact absurd rfl (h snap)
    | false =>
      simp only [step, lastKey_handleSnapshot, stored_handleSnapshot, and_true]
      split
      · simp [lastAmbient]
      · exact hkey

/-- As long as no insert fails, the keys agree. -/
theorem keyAgrees_of_no_failure {ops : List SampleOp}
    (h : ∀ op ∈ ops, ∀ snap, op ≠ .snapshot snap true) : StepsMeet step KeyAgrees init ops := by
  have hmeet : StepsMeet step (fun _ op => ∀ snap, op ≠ .snapshot snap true) init ops :=
    StepsMeet.of_forall h
  refine hmeet.imp_of_invariant (I := fun s => s.store.lastKey = lastAmbient s.store.stored)
    (fun _ _ hkey hop => lastKey_step hkey hop) (fun s op hkey _ => ?_) rfl
  cases op with
  | restart => trivial
  | snapshot snap throws =>
    intro _ _
    rw [hkey]

/-- A snapshot whose insert fails, and that is seen again when the database
works: it is not stored. -/
theorem failed_insert_suppresses :
    let snap : UsageSample := ⟨1000, ⟨true, none, "unknown", none, none, none, none, 4, 8, 1, 1,
      none, none, 1, 1, 10, 20, 0, none, none, none, false, none, none, false, none, "normal",
      none⟩⟩
    let s := run step init [.snapshot snap true, .snapshot snap false]
    s.store.stored = [] ∧ s.meant = [snap] ∧
      ¬ ∀ pre, pre <+: [SampleOp.snapshot snap true, .snapshot snap false] →
        (run step init pre).Faithful := by
  intro snap s
  have hstored : s.store.stored = [] := by decide +kernel
  have hmeant : s.meant = [snap] := by decide +kernel
  refine ⟨hstored, hmeant, fun h => ?_⟩
  have hfaithful : s.Faithful := h _ (List.prefix_refl _)
  rw [Faithful, hstored, hmeant] at hfaithful
  cases hfaithful.1

end SampleRun

end UmansGate.UsageHistory
