/-
UmansGate.Store.CountingTheorems — which captures count as requests.

Whether usage was extracted from a response is left in `usage_missing` in
three ways: 0 or 1 as the extraction says, null when there was no
extraction or its result was not bound, and the 0 of the column's default.
The accounting takes anything but 1 for usage, so a capture with a model
and a null counts as a request: a vision call that failed is one
(`failed_vision_counts`). `requests_count_extracted_iff` says when the
requests are the captures with usage.
-/
import UmansGate.Store.BatchTheorems
import UmansGate.Store.LostUsageTheorems
import UmansGate.Store.WriteWorker

namespace UmansGate.Store

open UmansGate.Lib

/-! ## Usage and its record -/

/-- Usage was extracted. -/
def Extracted (usage : Option UsageMetrics) : Prop := ∃ u ∈ usage, u.usageMissing = false

instance (usage : Option UsageMetrics) : Decidable (Extracted usage) :=
  inferInstanceAs (Decidable (∃ u ∈ usage, u.usageMissing = false))

/-- The row was left by these statements, for a capture from whose response
`usage` was extracted. -/
inductive Recorded (usage : Option UsageMetrics) : CaptureColumns → Prop
  | inserted (p : InsertParams) (h : usage = none) : Recorded usage (stmtInsert p)
  /-- `updateCapture` does not bind the usage. -/
  | updated (c : CaptureColumns) (p : UpdateParams) : Recorded usage (c.stmtUpdate p {})
  | batchUpdated (c : CaptureColumns) (p : UpdateParams) (now : EpochMs) :
      Recorded usage (c.stmtUpdate p (flattenUsage now usage))
  | workerUpdated (c : CaptureColumns) (p : UpdateParams) (now : EpochMs) :
      Recorded usage (c.stmtUpdateWorker p (flattenUsage now usage))
  | visionInserted (p : VisionInsertParams) (now : EpochMs) (h : p.usage = flattenUsage now usage) :
      Recorded usage (stmtInsertVision p)
  | visionUpdated (c : CaptureColumns) (p : VisionUpdateParams) (now : EpochMs)
      (h : p.usage = flattenUsage now usage) : Recorded usage (c.stmtUpdateVision p)
  /-- A statement that writes neither the model nor the usage. -/
  | kept {c c' : CaptureColumns} (h : Recorded usage c) (hmodel : c'.model = c.model)
      (husage : c'.usageMissing = c.usageMissing) : Recorded usage c'

variable {usage : Option UsageMetrics} {c : CaptureColumns}

theorem usageMissing_flattenUsage (now : EpochMs) (usage : Option UsageMetrics) :
    (flattenUsage now usage).usageMissing = usage.map UsageMetrics.usageMissing := by
  cases usage with
  | none => rfl
  | some u => rfl

/-- A flag that is set is that of the extraction, or the default of a row
without a model. -/
theorem Recorded.usageMissing (h : Recorded usage c) : c.usageMissing = none ∨
    c.usageMissing = usage.map UsageMetrics.usageMissing ∨
      c.usageMissing = some false ∧ c.model = none := by
  induction h with
  | inserted p h => exact .inr (.inr ⟨rfl, rfl⟩)
  | updated c p => exact .inl rfl
  | batchUpdated c p now => exact .inr (.inl (usageMissing_flattenUsage now usage))
  | workerUpdated c p now => exact .inr (.inl (usageMissing_flattenUsage now usage))
  | visionInserted p now h =>
    refine .inr (.inl ?_)
    change p.usage.usageMissing = _
    rw [h, usageMissing_flattenUsage]
  | visionUpdated c p now h =>
    refine .inr (.inl ?_)
    change p.usage.usageMissing = _
    rw [h, usageMissing_flattenUsage]
  | kept h hmodel husage ih => rw [husage, hmodel]; exact ih

/-- A capture with usage has a model, and one that has no usage and no flag
has none. -/
def Reported (usage : Option UsageMetrics) (c : CaptureColumns) : Prop :=
  (Extracted usage → c.model.getD "" ≠ "") ∧
    (¬ Extracted usage → c.usageMissing = none → c.model.getD "" = "")

theorem needsAccounting_iff :
    c.needsAccounting = true ↔ c.model.getD "" ≠ "" ∧ c.usageMissing ≠ some true := by
  simp [CaptureColumns.needsAccounting]

/-- The accounting agrees with the record of a capture with a model. -/
theorem Recorded.needsAccounting (h : Recorded usage c) (husage : Extracted usage)
    (hmodel : c.model.getD "" ≠ "") : c.needsAccounting = true := by
  refine needsAccounting_iff.mpr ⟨hmodel, fun hmissing => ?_⟩
  obtain ⟨u, hu, hfalse⟩ := husage
  rcases h.usageMissing with hnone | hflag | ⟨hfalse', -⟩
  · rw [hnone] at hmissing
    exact absurd hmissing (by simp)
  · rw [hmissing, Option.mem_def.mp hu, Option.map_some, hfalse] at hflag
    exact absurd hflag (by simp)
  · rw [hfalse'] at hmissing
    exact absurd hmissing (by simp)

theorem Recorded.needsAccounting_iff (h : Recorded usage c) (hreport : Reported usage c) :
    c.needsAccounting = true ↔ Extracted usage := by
  constructor
  · intro hneeds
    obtain ⟨hmodel, hmissing⟩ := Store.needsAccounting_iff.mp hneeds
    by_contra hno
    rcases h.usageMissing with hnone | hflag | ⟨-, hnone⟩
    · exact hmodel (hreport.2 hno hnone)
    · cases usage with
      | none => exact hmodel (hreport.2 hno hflag)
      | some u =>
        have htrue : u.usageMissing = true := by
          by_contra hfalse
          exact hno ⟨u, rfl, by simpa using hfalse⟩
        rw [hflag, Option.map_some, htrue] at hmissing
        exact hmissing rfl
    · exact hmodel (by rw [hnone]; rfl)
  · exact fun husage => h.needsAccounting husage (hreport.1 husage)

/-! ## Requests -/

/-- A call of the accounting. -/
inductive AccountingCall where
  | accountCaptureUsage (captureId : ℕ)
  | accountCapturesUsage (captureIds : List ℕ)
  | backfillFromCaptures

/-- The captures that the call is about. -/
def AccountingCall.captureIds (e : Economics) : AccountingCall → List ℕ
  | .accountCaptureUsage captureId => [captureId]
  | .accountCapturesUsage captureIds => captureIds
  | .backfillFromCaptures => e.backfillIds

namespace Economics

def account (e : Economics) (clock : Clock) : AccountingCall → Economics
  | .accountCaptureUsage captureId => e.accountCaptureUsage clock captureId
  | .accountCapturesUsage captureIds => e.accountCapturesUsage clock captureIds
  | .backfillFromCaptures => e.backfillFromCaptures clock

/-- The captures of `captureIds` that are not accounted yet, belong to this
day and model and have usage. -/
def extractedAt (e : Economics) (clock : Clock) (extraction : ℕ → Option UsageMetrics)
    (captureIds : List ℕ) (key : String × String) : Dict ℕ CaptureColumns :=
  (e.unaccounted captureIds).filter fun r =>
    (r.2.attribution clock r.1).key = key ∧ Extracted (extraction r.1)

/-- Those that the accounting counts. -/
def countedAt (e : Economics) (clock : Clock) (captureIds : List ℕ) (key : String × String) :
    Dict ℕ CaptureColumns :=
  (e.unaccounted captureIds).filter fun r =>
    (r.2.attribution clock r.1).key = key ∧ r.2.needsAccounting

theorem mem_extractedAt {e : Economics} {clock : Clock} {extraction : ℕ → Option UsageMetrics}
    {captureIds : List ℕ} {key : String × String} {r : ℕ × CaptureColumns} :
    r ∈ e.extractedAt clock extraction captureIds key ↔ r ∈ e.unaccounted captureIds ∧
      (r.2.attribution clock r.1).key = key ∧ Extracted (extraction r.1) := by
  rw [extractedAt, List.mem_filter, decide_eq_true_eq]

theorem mem_countedAt {e : Economics} {clock : Clock} {captureIds : List ℕ}
    {key : String × String} {r : ℕ × CaptureColumns} :
    r ∈ e.countedAt clock captureIds key ↔ r ∈ e.unaccounted captureIds ∧
      (r.2.attribution clock r.1).key = key ∧ r.2.needsAccounting = true := by
  rw [countedAt, List.mem_filter, decide_eq_true_eq]

end Economics

open Economics

variable {clock : Clock} {e e' : Economics} {ids : List ℕ} {new : List Attribution}

theorem accounts_account (e : Economics) (clock : Clock) (call : AccountingCall) :
    ∃ new, Accounts clock (call.captureIds e) new e (e.account clock call) := by
  cases call with
  | accountCaptureUsage captureId => exact accounts_accountCaptureUsage clock e captureId
  | accountCapturesUsage captureIds => exact accounts_accountCapturesUsage clock e captureIds
  | backfillFromCaptures => exact accounts_backfillFromCaptures clock e

/-- Each contribution is one request. -/
theorem requests_totalOf {as : List Attribution} (h : ∀ a ∈ as, a.counts.requests = 1)
    (key : String × String) :
    (totalOf key as).requests = (as.filter fun a => a.key = key).length := by
  induction as with
  | nil => rfl
  | cons a as ih =>
    have hrest := ih fun b hb => h b (List.mem_cons_of_mem a hb)
    have hadd : (totalOf key (a :: as)).requests =
        (if a.key = key then a.counts else 0).requests + (totalOf key as).requests := rfl
    rw [hadd, hrest]
    by_cases hkey : a.key = key
    · rw [if_pos hkey, h a List.mem_cons_self, List.filter_cons_of_pos (by simpa using hkey),
        List.length_cons]
      push_cast
      exact Int.add_comm _ _
    · rw [if_neg hkey, List.filter_cons_of_neg (by simpa using hkey)]
      exact Int.zero_add _

/-- The requests grow by the captures that are counted. -/
theorem Accounts.requests (h : Accounts clock ids new e e') (key : String × String) :
    (e'.counts key).requests = (e.counts key).requests + (e.countedAt clock ids key).length := by
  have hone : ∀ a ∈ new, a.counts.requests = 1 := by
    intro a ha
    obtain ⟨-, c, -, -, -, heq⟩ := (h.mem a).mp ha
    rw [heq]
    rfl
  have hadd : (e.counts key + totalOf key new).requests =
      (e.counts key).requests + (totalOf key new).requests := rfl
  rw [h.counts, hadd, requests_totalOf hone, (h.perm_unaccounted.filter _).length_eq,
    List.filter_map, List.length_map, List.filter_filter, countedAt]
  congr 3
  refine List.filter_congr fun r _ => ?_
  simp

variable {extraction : ℕ → Option UsageMetrics} {key : String × String}

/-- Of the captures of a model, those with usage are counted. -/
theorem extractedAt_sublist (h : ∀ r ∈ e.unaccounted ids, Recorded (extraction r.1) r.2)
    (hmodel : key.2 ≠ "") :
    (e.extractedAt clock extraction ids key).Sublist (e.countedAt clock ids key) := by
  have heq : e.extractedAt clock extraction ids key =
      (e.countedAt clock ids key).filter fun r => Extracted (extraction r.1) := by
    rw [extractedAt, countedAt, List.filter_filter]
    refine List.filter_congr fun r hr => ?_
    rw [← Bool.decide_and, decide_eq_decide]
    constructor
    · rintro ⟨hkey, husage⟩
      have hsame : r.2.model.getD "" = key.2 := congrArg Prod.snd hkey
      exact ⟨husage, hkey, (h r hr).needsAccounting husage (by rwa [hsame])⟩
    · rintro ⟨husage, hkey, -⟩
      exact ⟨hkey, husage⟩
  rw [heq]
  exact List.filter_sublist

/-- Captures without a model are not counted. -/
theorem countedAt_eq_nil (hmodel : key.2 = "") : e.countedAt clock ids key = [] := by
  rw [List.eq_nil_iff_forall_not_mem]
  intro r hr
  obtain ⟨-, hkey, hneeds⟩ := mem_countedAt.mp hr
  have hsame : r.2.model.getD "" = key.2 := congrArg Prod.snd hkey
  exact (needsAccounting_iff.mp hneeds).1 (hsame.trans hmodel)

/-- The requests of every day and model grow by the captures with usage,
exactly when every capture that the call accounts is reported as it is. -/
theorem requests_count_extracted_iff (e : Economics) (clock : Clock)
    (extraction : ℕ → Option UsageMetrics) (call : AccountingCall)
    (h : ∀ r ∈ e.unaccounted (call.captureIds e), Recorded (extraction r.1) r.2) :
    (∀ key, ((e.account clock call).counts key).requests = (e.counts key).requests +
      (e.extractedAt clock extraction (call.captureIds e) key).length) ↔
        ∀ r ∈ e.unaccounted (call.captureIds e), Reported (extraction r.1) r.2 := by
  obtain ⟨new, ha⟩ := accounts_account e clock call
  simp only [ha.requests, Int.add_right_inj, Nat.cast_inj]
  constructor
  · intro hlen r hr
    specialize hlen (r.2.attribution clock r.1).key
    constructor
    · intro husage hmodel
      have hmem : r ∈ e.extractedAt clock extraction (call.captureIds e)
          (r.2.attribution clock r.1).key := mem_extractedAt.mpr ⟨hr, rfl, husage⟩
      have hpos := List.length_pos_of_mem hmem
      rw [← hlen, countedAt_eq_nil hmodel] at hpos
      exact Nat.lt_irrefl 0 hpos
    · intro hno hnone
      by_contra hmodel
      have hneeds : r.2.needsAccounting = true :=
        needsAccounting_iff.mpr ⟨hmodel, by simp [hnone]⟩
      have hmem : r ∈ e.countedAt clock (call.captureIds e) (r.2.attribution clock r.1).key :=
        mem_countedAt.mpr ⟨hr, rfl, hneeds⟩
      rw [← (extractedAt_sublist h hmodel).eq_of_length hlen.symm] at hmem
      exact hno (mem_extractedAt.mp hmem).2.2
  · intro hreport key
    rw [extractedAt, countedAt]
    congr 1
    refine List.filter_congr fun r hr => ?_
    simp only [(h r hr).needsAccounting_iff (hreport r hr)]

/-! ## A failed vision call -/

/-- The row of a vision call to the model `m`, and what the call leaves when
the upstream fails. -/
def visionCall : VisionInsertParams :=
  { rh := "{}", rb := "{}", rs := 2, status := none, rh2 := "{}", rb2 := "", rs2 := 0,
    ct := "application/json", dur := 0, state := "enqueued", startedAt := ⟨0, epoch_inRange⟩,
    finishedAt := 0, model := "m", parentCaptureId := none, visionMeta := none,
    usage := flattenUsage ⟨0, epoch_inRange⟩ none }

def failedVisionCall : VisionUpdateParams :=
  { status := some 500, rh := "{}", rb := "", rs := 0, reqBody := "{}", reqHeaders := "{}",
    reqSize := 2, ct := "application/json", sse := 0, dur := 1, fin := 1,
    statusSource := some "upstream", gateReason := none, visionMeta := some "{}",
    model := some "m", usage := flattenUsage ⟨1, by decide⟩ none }

/-- The vision call as `updateVisionCapture` accounts it. -/
def visionFailed : Economics :=
  { captures := Table.empty.insert ((stmtInsertVision visionCall).stmtUpdateVision failedVisionCall)
    modelPricing := []
    dailyUsage := []
    attributed := [] }

/-- A vision call that failed counts as a request. -/
theorem failed_vision_counts :
    ¬ ∀ (e : Economics) (clock : Clock) (extraction : ℕ → Option UsageMetrics)
      (call : AccountingCall),
      (∀ r ∈ e.unaccounted (call.captureIds e), Recorded (extraction r.1) r.2) →
        ∀ key, ((e.account clock call).counts key).requests = (e.counts key).requests +
          (e.extractedAt clock extraction (call.captureIds e) key).length := by
  intro h
  have hrecorded : ∀ r ∈ visionFailed.unaccounted [1], Recorded none r.2 := by
    intro r hr
    have hrow : r = (1, (stmtInsertVision visionCall).stmtUpdateVision failedVisionCall) :=
      List.mem_singleton.mp (List.mem_filter.mp hr).1
    rw [hrow]
    exact .visionUpdated _ _ ⟨1, by decide⟩ rfl
  have hone := h visionFailed CaptureDb.epoch (fun _ => none) (.accountCapturesUsage [1]) hrecorded
    ("1970-01-01", "m")
  revert hone
  decide +kernel

/-- Two responses of one model, one of them without usage. -/
theorem requests_count_extracted_two :
    let captures := (Table.empty.insert ((stmtInsert CaptureDb.request).stmtUpdate
        CaptureDb.finished (flattenUsage ⟨1, by decide⟩ (some CaptureDb.reported)))).insert
      ((stmtInsert CaptureDb.request).stmtUpdate CaptureDb.failed
        (flattenUsage ⟨1, by decide⟩ none))
    let e : Economics := ⟨captures, [], [], []⟩
    let extraction : ℕ → Option UsageMetrics :=
      fun id => if id = 1 then some CaptureDb.reported else none
    ∀ key, ((e.account CaptureDb.epoch (.accountCapturesUsage [1, 2])).counts key).requests =
      (e.counts key).requests + (e.extractedAt CaptureDb.epoch extraction [1, 2] key).length := by
  intro captures e extraction
  have hrows : ∀ r ∈ e.unaccounted [1, 2], r = (1, (stmtInsert CaptureDb.request).stmtUpdate
        CaptureDb.finished (flattenUsage ⟨1, by decide⟩ (some CaptureDb.reported))) ∨
      r = (2, (stmtInsert CaptureDb.request).stmtUpdate CaptureDb.failed
        (flattenUsage ⟨1, by decide⟩ none)) := by
    intro r hr
    have hmem := (List.mem_filter.mp hr).1
    exact (List.mem_cons.mp hmem).imp_right List.mem_singleton.mp
  refine (requests_count_extracted_iff e CaptureDb.epoch extraction
    (.accountCapturesUsage [1, 2]) ?_).mpr ?_
  · intro r hr
    rcases hrows r hr with rfl | rfl
    · exact .batchUpdated _ _ ⟨1, by decide⟩
    · exact .batchUpdated _ _ ⟨1, by decide⟩
  · intro r hr
    rcases hrows r hr with rfl | rfl
    · exact ⟨fun _ => by decide, fun hno => absurd (by decide) hno⟩
    · exact ⟨fun husage => absurd husage (by decide), fun _ _ => rfl⟩

end UmansGate.Store
