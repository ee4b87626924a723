/-
UmansGate.UsageHistory.PeakTheorems — which loads the samples show.

The peak is the greatest load that the callback saw since a snapshot was last
handled, written or not (`Peaks`). So a sample shows a load from before that
snapshot, or held through it, only if the snapshot itself or a later load is
as great.
-/
import UmansGate.UsageHistory.LocalPeak
import UmansGate.UsageHistory.SampleTheorems

namespace UmansGate.UsageHistory.PeakRun

open UmansGate.Lib

/-- The peak is the greatest load seen. -/
def Peaks (s : PeakRun) : Prop := s.maxWeightedConcurrentSinceSample = s.seen.foldl max 0

theorem le_foldl_max {v : ℚ} {loads : List ℚ} {floor : ℚ} :
    v ≤ loads.foldl max floor ↔ v ≤ floor ∨ ∃ u ∈ loads, v ≤ u := by
  induction loads generalizing floor with
  | nil => simp
  | cons load loads ih => simp [ih, or_assoc]

theorem peaks_init (usageHistoryEnabled : Bool) : (init usageHistoryEnabled).Peaks := rfl

theorem peaks_step {s : PeakRun} (h : s.Peaks) (op : PeakOp) : (s.step op).Peaks := by
  cases op with
  | reload enabled => exact h
  | gate active emits =>
    cases emits with
    | false => exact h
    | true =>
      simp only [Peaks] at h
      simp only [step, onStatsChange, h]
      split
      · rename_i hgt
        simp [Peaks, max_eq_right (le_of_lt hgt)]
      · rename_i hle
        simp [Peaks, max_eq_left (not_lt.mp hle)]
  | snapshot snap throws =>
    simp only [step, onChange]
    split
    · exact h
    · rfl

/-- The sample that a step adds shows every load since the one before it. -/
def Captures (s : PeakRun) (_ : PeakOp) (s' : PeakRun) : Prop :=
  ∀ sample, s'.store.stored = s.store.stored ++ [sample] →
    ∀ v ∈ s.reached, v ≤ sample.ambient.weightedConcurrentSessions

/-- Of a snapshot that becomes a sample: each load that the peak does not
have is no greater than the upstream's own figure, or than a load that the
peak has. -/
def Covers (s : PeakRun) : PeakOp → Prop
  | .snapshot snap throws => s.usageHistoryEnabled = true → s.writes snap throws = true →
      ∀ v ∈ s.missed, v ≤ snap.ambient.weightedConcurrentSessions ∨ v ≤ 0 ∨ ∃ u ∈ s.seen, v ≤ u
  | _ => True

theorem stored_onChange (s : PeakRun) (snap : UsageSample) (throws : Bool) :
    (s.onChange snap throws).store.stored =
      if s.usageHistoryEnabled = true ∧ s.writes snap throws = true then
        s.store.stored ++ [s.merged snap]
      else s.store.stored := by
  have hok : (s.merged snap).ambient.ok = snap.ambient.ok := rfl
  unfold onChange
  cases henabled : s.usageHistoryEnabled with
  | false => simp
  | true =>
    simp only [not_true_eq_false, if_false, true_and, stored_handleSnapshot, hok, writes,
      Bool.and_eq_true, decide_eq_true_eq, Bool.not_eq_true', and_assoc]

/-- A step without a sample shows nothing. -/
theorem captures_of_stored_eq {s s' : PeakRun} {op : PeakOp}
    (h : s'.store.stored = s.store.stored) : Captures s op s' := by
  intro sample hsample
  rw [h] at hsample
  simp at hsample

theorem stored_step_gate (s : PeakRun) (active : ℚ) (emits : Bool) :
    (s.step (.gate active emits)).store = s.store := by
  cases emits with
  | false => rfl
  | true =>
    simp only [step, onStatsChange]
    split
    · rfl
    · rfl

theorem captures_iff {s : PeakRun} (h : s.Peaks) (op : PeakOp) :
    Captures s op (s.step op) ↔ s.Covers op := by
  cases op with
  | gate active emits =>
    exact iff_of_true (captures_of_stored_eq (by rw [stored_step_gate])) trivial
  | reload enabled => exact iff_of_true (captures_of_stored_eq rfl) trivial
  | snapshot snap throws =>
    have hstored : (s.step (.snapshot snap throws)).store.stored = _ :=
      stored_onChange s snap throws
    by_cases hwritten : s.usageHistoryEnabled = true ∧ s.writes snap throws = true
    · rw [if_pos hwritten] at hstored
      have hpeak : ∀ v, v ≤ (s.merged snap).ambient.weightedConcurrentSessions ↔
          v ≤ snap.ambient.weightedConcurrentSessions ∨ v ≤ 0 ∨ ∃ u ∈ s.seen, v ≤ u := by
        intro v
        have hmerged : (s.merged snap).ambient.weightedConcurrentSessions =
            max snap.ambient.weightedConcurrentSessions (s.seen.foldl max 0) := by
          rw [← h]
          rfl
        rw [hmerged, le_max_iff, le_foldl_max]
      constructor
      · intro hcaptures _ _ v hv
        exact (hpeak v).mp (hcaptures _ hstored v (List.mem_append_left _ hv))
      · intro hcovers sample hsample v hv
        rw [hstored, List.append_cancel_left_eq] at hsample
        obtain rfl : s.merged snap = sample := by simpa using hsample
        rw [hpeak]
        rcases List.mem_append.mp hv with hv | hv
        · exact hcovers hwritten.1 hwritten.2 v hv
        · exact .inr (.inr ⟨v, hv, le_rfl⟩)
    · rw [if_neg hwritten] at hstored
      exact iff_of_true (captures_of_stored_eq hstored) fun henabled hwrites =>
        absurd ⟨henabled, hwrites⟩ hwritten

/-- **When the samples show the local peak.** For every run of gate activity,
reloads and snapshots, successful, failed or coalesced away: every sample that
is written shows every load of the gate since the one written before it, if
and only if at every such snapshot the loads from before the last handled
snapshot, the load held through it, and those without a callback are no
greater than the upstream's figure or a load seen since. -/
theorem peak_captured_iff (usageHistoryEnabled : Bool) (ops : List PeakOp) :
    (∀ pre op, pre ++ [op] <+: ops →
      Captures (run step (init usageHistoryEnabled) pre) op
        (run step (init usageHistoryEnabled) (pre ++ [op]))) ↔
      StepsMeet step Covers (init usageHistoryEnabled) ops :=
  forall_steps_iff_stepsMeet (I := Peaks) (P := Covers) (Q := Captures)
    (fun _ op h _ => peaks_step h op) (fun _ op h => captures_iff h op)
    (peaks_init usageHistoryEnabled) ops

/-- Three sessions that run through two samples: the second one shows one. -/
theorem held_load_missed :
    let snap (tokensIn : ℚ) : UsageSample := ⟨1000, ⟨true, none, "unknown", none, none, none, none,
      4, 8, 1, 1, none, none, 1, 1, tokensIn, 20, 0, none, none, none, false, none, none, false,
      none, "normal", none⟩⟩
    let ops : List PeakOp := [.gate 3 true, .snapshot (snap 10) false, .snapshot (snap 11) false]
    ((run step (init true) ops).store.stored.map (·.ambient.weightedConcurrentSessions)) = [3, 1] ∧
      (run step (init true) ops).active = 3 ∧
      ¬ ∀ pre op, pre ++ [op] <+: ops → Captures (run step (init true) pre) op
        (run step (init true) (pre ++ [op])) := by
  intro snap ops
  refine ⟨by decide +kernel, by decide +kernel, fun h => ?_⟩
  have hlast := h [.gate 3 true, .snapshot (snap 10) false] (.snapshot (snap 11) false)
    (List.prefix_refl _) ⟨1000, { (snap 11).ambient with
      concurrentSessions := 1, weightedConcurrentSessions := 1 }⟩ (by decide +kernel) 3
    (by decide +kernel)
  have hlow : ¬ (3 : ℚ) ≤ 1 := by norm_num
  exact hlow hlast

end UmansGate.UsageHistory.PeakRun
