/-
UmansGate.Store.LostUsageTheorems — which usage reaches the daily totals.

An update that carries usage is counted through the row it writes. While
the row is there and unmarked the usage is counted, once and for all runs
that follow (`batch_counts_usage`). An update for a row that the ring
buffer evicted, that `clear` deleted, or that an earlier update without
usage marked already is not counted (`usage_vanishes`).
-/
import UmansGate.Store.AttributionTheorems

namespace UmansGate.Store

open UmansGate.Lib

/-- The counts of extracted usage. -/
def UsageMetrics.counts (usage : UsageMetrics) : UsageCounts where
  requests := 1
  inputTokens := usage.inputTokens.getD 0
  outputTokens := usage.outputTokens.getD 0
  cacheReadTokens := usage.cacheReadTokens.getD 0
  cacheCreationTokens := usage.cacheCreationTokens.getD 0
  thinkingTokens := usage.thinkingTokens.getD 0

/-- The contributions of one capture. -/
def contributions (id : ℕ) (as : List Attribution) : List Attribution :=
  as.filter fun a => a.id = id

variable {id : ℕ} {a : Attribution} {as : List Attribution}

theorem contributions_append (id : ℕ) (as bs : List Attribution) :
    contributions id (as ++ bs) = contributions id as ++ contributions id bs :=
  List.filter_append _ _

theorem contributions_eq_nil (h : ∀ a ∈ as, a.id ≠ id) : contributions id as = [] := by
  rw [contributions, List.filter_eq_nil_iff]
  intro a ha
  simpa using h a ha

/-- Of captures counted once, one contribution is all of its capture. -/
theorem contributions_of_nodup (h : (as.map Attribution.id).Nodup) (ha : a ∈ as) :
    contributions a.id as = [a] := by
  induction as with
  | nil => exact absurd ha (by simp)
  | cons b as ih =>
    rw [List.map_cons, List.nodup_cons] at h
    rcases List.mem_cons.mp ha with rfl | ha
    · have hrest : contributions a.id as = [] := by
        refine contributions_eq_nil fun b hb heq => ?_
        exact h.1 (heq ▸ List.mem_map_of_mem hb)
      rw [contributions, List.filter_cons, if_pos (by simp)]
      exact congrArg (a :: ·) hrest
    · have hne : b.id ≠ a.id := fun heq => h.1 (heq ▸ List.mem_map_of_mem ha)
      rw [contributions, List.filter_cons, if_neg (by simpa using hne)]
      exact ih h.2 ha

namespace CaptureDb

/-! ## The row that a batch leaves -/

/-- A batch writes neither the start time nor the flag of a row. -/
theorem get?_updateRows (items : List (ℕ × UpdateParams)) (now : EpochMs) {db : CaptureDb}
    {c : CaptureColumns} (hc : db.captures.get? id = some c) :
    ∃ c', (db.updateRows items now).captures.get? id = some c' ∧
      c'.startedAt = c.startedAt ∧ c'.usageAccounted = c.usageAccounted ∧
      ((∀ it ∈ items, it.1 ≠ id) → c' = c) := by
  induction items generalizing db c with
  | nil => exact ⟨c, hc, rfl, rfl, fun _ => rfl⟩
  | cons it items ih =>
    have hrow : (db.updateRow it.1 it.2 (flattenUsage now it.2.usage)).captures.get? id =
        some (if id = it.1 then c.stmtUpdate it.2 (flattenUsage now it.2.usage) else c) := by
      rw [updateRow, Table.get?_update, hc]
      simp only [Option.map_some, decide_eq_true_eq]
    obtain ⟨c', hc', hstart, hacc, hsame⟩ := ih hrow
    refine ⟨c', hc', ?_, ?_, fun hno => ?_⟩
    · rw [hstart]
      split
      · rfl
      · rfl
    · rw [hacc]
      split
      · rfl
      · rfl
    · rw [hsame fun it' hit' => hno it' (List.mem_cons_of_mem _ hit')]
      exact if_neg (hno it List.mem_cons_self).symm

/-- The last update of a capture in a batch gives the row its model and its
usage. -/
theorem get?_updateRows_last (front : List (ℕ × UpdateParams)) (p : UpdateParams)
    {rest : List (ℕ × UpdateParams)} (now : EpochMs) (hlast : ∀ it ∈ rest, it.1 ≠ id) {db : CaptureDb} {c : CaptureColumns}
    (hc : db.captures.get? id = some c) :
    ∃ c', (db.updateRows (front ++ (id, p) :: rest) now).captures.get? id = some c' ∧
      c'.startedAt = c.startedAt ∧ c'.usageAccounted = c.usageAccounted ∧ c'.model = p.model ∧
      c'.toUsageColumns = flattenUsage now p.usage := by
  obtain ⟨c₁, hc₁, hstart, hacc, -⟩ := get?_updateRows front now hc
  have hc₂ : ((db.updateRows front now).updateRow id p
      (flattenUsage now p.usage)).captures.get? id =
        some (c₁.stmtUpdate p (flattenUsage now p.usage)) := by
    rw [updateRow, Table.get?_update, hc₁, Option.map_some, if_pos (by simp)]
  obtain ⟨c₃, hc₃, -, -, hsame⟩ := get?_updateRows rest now hc₂
  refine ⟨c₃, ?_, ?_⟩
  · rw [updateRows, List.foldl_append]
    exact hc₃
  · rw [hsame hlast]
    exact ⟨hstart, hacc, rfl, rfl⟩

/-! ## Runs -/

variable {base : String × String → UsageCounts}

/-- A closed capture has made its contributions. -/
theorem contributions_run_of_closed {db : CaptureDb} (h : Closed db.toEconomics id)
    (ops : List Op) :
    contributions id (run step db ops).attributed = contributions id db.attributed := by
  induction ops generalizing db with
  | nil => rfl
  | cons op ops ih =>
    rw [run_cons, ih (closed_step h op)]
    obtain ⟨mid, mid', clock, ids, new, he, ha, hd, -⟩ := db.step_effect op
    rw [hd.attributed, ha.attributed, he.attributed, contributions_append,
      contributions_eq_nil (ha.not_mem_of_closed (h.edits he)), List.append_nil]

/-- A batch counts the usage of a capture whose row is there and unmarked. -/
theorem batch_counts_pending {db : CaptureDb} (h : CountedOnce base db.toEconomics)
    (front : List (ℕ × UpdateParams)) {rest : List (ℕ × UpdateParams)} {p : UpdateParams}
    {usage : UsageMetrics} {model : String} (clock : Clock) (now : EpochMs) (hlast : ∀ it ∈ rest, it.1 ≠ id)
    (husage : p.usage = some usage) (hmissing : usage.usageMissing = false)
    (hmodel : p.model = some model) (hne : model ≠ "") {c : CaptureColumns}
    (hc : db.captures.get? id = some c) (hacc : c.usageAccounted = false) :
    let after := db.step (.batchUpdate (front ++ (id, p) :: rest) clock now)
    Closed after.toEconomics id ∧ contributions id after.attributed =
      [⟨id, isoDate (c.startedAt.getD (clock id)), model, usage.counts⟩] := by
  intro after
  obtain ⟨c', hc', hstart, hacc', hmodel', hcols⟩ :=
    get?_updateRows_last front p now hlast hc
  obtain ⟨new, ha⟩ := accounts_accountCapturesUsage clock
    (db.updateRows (front ++ (id, p) :: rest) now).toEconomics
    ((front ++ (id, p) :: rest).map Prod.fst)
  have hattr : c'.attribution clock id =
      ⟨id, isoDate (c.startedAt.getD (clock id)), model, usage.counts⟩ := by
    rw [husage] at hcols
    rw [CaptureColumns.attribution, CaptureColumns.counts, hstart, hmodel', hmodel, hcols]
    rfl
  have hneeds : c'.needsAccounting = true := by
    rw [husage] at hcols
    rw [CaptureColumns.needsAccounting, hmodel', hmodel, hcols]
    simp [flattenUsage, hmissing, hne]
  have hmem : c'.attribution clock id ∈ new := by
    refine (ha.mem _).mpr ⟨?_, c', hc', hacc'.trans hacc, hneeds, rfl⟩
    simp [CaptureColumns.attribution]
  have hbefore : contributions id db.attributed = [] := by
    refine contributions_eq_nil fun a hold heq => ?_
    have htrue := (h.closed a hold).2 c (heq.symm ▸ hc)
    rw [hacc] at htrue
    exact absurd htrue (by simp)
  have hattributed : after.attributed = db.attributed ++ new := by
    refine ha.attributed.trans ?_
    rw [(edits_updateRows _ now db).attributed]
  refine ⟨ha.closed hmem, ?_⟩
  rw [hattributed, contributions_append, hbefore, List.nil_append, ← hattr]
  exact contributions_of_nodup ha.nodup hmem

variable (captures : Table CaptureColumns) (modelPricing : Dict String PricingRow)
  (dailyUsage : Dict (String × String) DailyUsage) (maxCaptures : ℕ) (visionCacheTtlMs : Int)

/-- What becomes of usage that a batch carries for a capture, in any run
before and after the batch. While the row of the capture is there and
unmarked, the usage of its last item in the batch is counted and is all
that is ever counted of the capture. When the row is gone or marked, the
batch and what follows count nothing more of it. Every total is what the
file had plus the contributions. -/
theorem batch_counts_usage (before : List Op) (front rest : List (ℕ × UpdateParams))
    (p : UpdateParams) (usage : UsageMetrics) (model : String) (clock : Clock) (now : EpochMs)
    (hlast : ∀ it ∈ rest, it.1 ≠ id) (husage : p.usage = some usage)
    (hmissing : usage.usageMissing = false) (hmodel : p.model = some model) (hne : model ≠ "")
    (later : List Op) :
    let db := run step (load captures modelPricing dailyUsage maxCaptures visionCacheTtlMs) before
    let db' := run step (db.step (.batchUpdate (front ++ (id, p) :: rest) clock now)) later
    (∀ c, db.captures.get? id = some c → c.usageAccounted = false →
      contributions id db'.attributed =
        [⟨id, isoDate (c.startedAt.getD (clock id)), model, usage.counts⟩]) ∧
    (Closed db.toEconomics id →
      contributions id db'.attributed = contributions id db.attributed) ∧
    ∀ key, db'.counts key = baseCounts dailyUsage key + totalOf key db'.attributed := by
  intro db db'
  have h : CountedOnce (baseCounts dailyUsage) db.toEconomics :=
    countedOnce_run captures modelPricing dailyUsage maxCaptures visionCacheTtlMs before
  refine ⟨fun c hc hacc => ?_, fun hclosed => ?_, ?_⟩
  · obtain ⟨hclosed, hone⟩ := batch_counts_pending h front clock now hlast husage hmissing
      hmodel hne hc hacc
    exact (contributions_run_of_closed hclosed later).trans hone
  · exact contributions_run_of_closed hclosed (.batchUpdate _ clock now :: later)
  · have hrun := countedOnce_run captures modelPricing dailyUsage maxCaptures visionCacheTtlMs
      (before ++ .batchUpdate (front ++ (id, p) :: rest) clock now :: later)
    rw [run_append] at hrun
    exact hrun.counts

/-! ## Usage that is not counted -/

/-- The file of the concrete runs: empty, with room for one capture. -/
def oneCapture : CaptureDb := load .empty [] [] 1 0

def request : InsertParams := ⟨"{}", "{}", 2, ⟨0, epoch_inRange⟩, "streaming"⟩

/-- A response without usage, and one that used 3 input tokens. -/
def failed : UpdateParams :=
  { status := 503, rh := "{}", rb := "", rs := 0, ct := "", sse := 0, dur := 1, fin := 1,
    statusSource := some "gate", gateReason := none }

def reported : UsageMetrics :=
  ⟨"anthropic", true, some 3, some 1, none, none, some 3, some 1, none, none, none, none, false⟩

def finished : UpdateParams :=
  { failed with status := 200, model := some "m", usage := some reported }

def epoch : Clock := fun _ => ⟨0, epoch_inRange⟩

def batch (id : ℕ) (p : UpdateParams) : Op := .batchUpdate [(id, p)] epoch (epoch id)

/-- The usage of a request in flight is lost when its row is evicted, when
the captures are cleared, and when an update without usage came first. -/
theorem usage_vanishes :
    (run step oneCapture [.startCapture request, .startCapture request,
      batch 1 finished]).dailyUsage = [] ∧
    (run step oneCapture [.startCapture request, .clear, batch 1 finished]).dailyUsage = [] ∧
    (run step oneCapture [.startCapture request, batch 1 failed,
      batch 1 finished]).dailyUsage = [] := by
  decide +kernel

/-- Without any of these it is counted, and a batch that is sent again adds
nothing. -/
theorem batch_counts_usage_request :
    contributions 1 (run step ((run step oneCapture [.startCapture request]).step
      (batch 1 finished)) [batch 1 finished]).attributed =
        [⟨1, isoDate ((stmtInsert request).startedAt.getD (epoch 1)), "m", reported.counts⟩] :=
  (batch_counts_usage .empty [] [] 1 0 [.startCapture request] [] [] finished reported "m" epoch
    (epoch 1) (by simp) rfl rfl rfl (by decide) [batch 1 finished]).1 (stmtInsert request)
    (by decide +kernel) rfl

end CaptureDb

end UmansGate.Store
