/-
UmansGate.Lib.NearestRank — percentiles by nearest rank.

The percentile `p` of `n` values is the one at rank `⌈p · n⌉` in ascending
order. `nearestRank_eq_some_iff` says the same without an order of the list:
it is the value that less than `p · n` values are below, and at least
`p · n` at or below. From it the percentiles of a list rise with `p`, and
two lists share one when it falls on the same place in both
(`nearestRank_eq_iff_sharesRank`).
-/
import Mathlib.Data.List.Sort
import Mathlib.Data.Rat.Floor

namespace UmansGate.Lib

variable {α : Type} [LinearOrder α]

def nearestRank (p : ℚ) (vs : List α) : Option α :=
  (vs.insertionSort (· ≤ ·))[(⌈p * vs.length⌉ - 1).toNat]?

/-- The rank falls on the copies of `v`. -/
def RankFalls (p : ℚ) (vs : List α) (v : α) : Prop :=
  (vs.countP (· < v) : ℚ) < p * vs.length ∧ p * vs.length ≤ vs.countP (· ≤ v)

variable {p q : ℚ} {vs ws : List α} {v w : α}

/-! ## Ascending lists -/

/-- In an ascending list the values below `v` come first. -/
theorem countP_lt_le_iff (hsorted : vs.Pairwise (· ≤ ·)) {i : ℕ} (hi : i < vs.length) :
    vs.countP (· < v) ≤ i ↔ v ≤ vs[i] := by
  induction vs generalizing i with
  | nil => exact absurd hi (Nat.not_lt_zero i)
  | cons a vs ih =>
    obtain ⟨hhead, htail⟩ := List.pairwise_cons.mp hsorted
    by_cases ha : a < v
    · rw [List.countP_cons_of_pos (by simpa using ha)]
      cases i with
      | zero => simp [ha]
      | succ i =>
        rw [Nat.succ_le_succ_iff, List.getElem_cons_succ]
        exact ih htail (Nat.lt_of_succ_lt_succ hi)
    · have hle : v ≤ a := not_lt.mp ha
      have hnone : (a :: vs).countP (· < v) = 0 := by
        rw [List.countP_eq_zero]
        intro b hb
        rcases List.mem_cons.mp hb with rfl | hb
        · simpa using hle
        · simpa using hle.trans (hhead b hb)
      refine iff_of_true (hnone ▸ Nat.zero_le i) ?_
      cases i with
      | zero => exact hle
      | succ i => exact hle.trans (hhead _ (List.getElem_mem _))

theorem lt_countP_le_iff (hsorted : vs.Pairwise (· ≤ ·)) {i : ℕ} (hi : i < vs.length) :
    i < vs.countP (· ≤ v) ↔ vs[i] ≤ v := by
  induction vs generalizing i with
  | nil => exact absurd hi (Nat.not_lt_zero i)
  | cons a vs ih =>
    obtain ⟨hhead, htail⟩ := List.pairwise_cons.mp hsorted
    by_cases ha : a ≤ v
    · rw [List.countP_cons_of_pos (by simpa using ha)]
      cases i with
      | zero => simp [ha]
      | succ i =>
        rw [Nat.succ_lt_succ_iff, List.getElem_cons_succ]
        exact ih htail (Nat.lt_of_succ_lt_succ hi)
    · have hlt : v < a := not_le.mp ha
      have hnone : (a :: vs).countP (· ≤ v) = 0 := by
        rw [List.countP_eq_zero]
        intro b hb
        rcases List.mem_cons.mp hb with rfl | hb
        · simpa using hlt
        · simpa using hlt.trans_le (hhead b hb)
      refine iff_of_false (by rw [hnone]; exact Nat.not_lt_zero i) (not_le.mpr ?_)
      cases i with
      | zero => exact hlt
      | succ i => exact hlt.trans_le (hhead _ (List.getElem_mem _))

/-! ## The percentile -/

theorem sorted_insertionSort (vs : List α) : (vs.insertionSort (· ≤ ·)).Pairwise (· ≤ ·) :=
  List.pairwise_insertionSort (· ≤ ·) vs

/-- Any ascending order of the values gives the percentile. -/
theorem nearestRank_of_perm (hperm : ws.Perm vs) (hsorted : ws.Pairwise (· ≤ ·)) :
    nearestRank p vs = ws[(⌈p * vs.length⌉ - 1).toNat]? := by
  have hsort : (vs.insertionSort (· ≤ ·)).Perm ws :=
    (List.perm_insertionSort (· ≤ ·) vs).trans hperm.symm
  rw [nearestRank, hsort.eq_of_pairwise' (sorted_insertionSort vs) hsorted]

theorem nearestRank_perm (hperm : vs.Perm ws) : nearestRank p vs = nearestRank p ws := by
  have hsort : (ws.insertionSort (· ≤ ·)).Perm vs :=
    (List.perm_insertionSort (· ≤ ·) ws).trans hperm.symm
  rw [nearestRank_of_perm hsort (sorted_insertionSort ws), hperm.length_eq]
  rfl

/-- A rank in range. -/
theorem rank_lt_length {n : ℕ} (hn : n ≠ 0) (hp0 : 0 < p) (hp1 : p ≤ 1) :
    1 ≤ ⌈p * n⌉ ∧ (⌈p * n⌉ - 1).toNat < n := by
  have hpos : (0 : ℚ) < n := by exact_mod_cast Nat.pos_of_ne_zero hn
  have hlow : 0 < ⌈p * n⌉ := Int.ceil_pos.mpr (mul_pos hp0 hpos)
  have hhigh : ⌈p * n⌉ ≤ n := by
    refine Int.ceil_le.mpr ?_
    push_cast
    exact mul_le_of_le_one_left hpos.le hp1
  omega

/-- **The percentile is the value that the rank falls on.** -/
theorem nearestRank_eq_some_iff (hp0 : 0 < p) (hp1 : p ≤ 1) :
    nearestRank p vs = some v ↔ v ∈ vs ∧ RankFalls p vs v := by
  have hperm : (vs.insertionSort (· ≤ ·)).Perm vs := List.perm_insertionSort (· ≤ ·) vs
  have hlength := hperm.length_eq
  have hsorted := sorted_insertionSort vs
  rw [nearestRank, RankFalls, ← hperm.countP_eq, ← hperm.countP_eq, ← hperm.mem_iff]
  generalize (vs.insertionSort (· ≤ ·)) = ws at hlength hsorted
  rw [← hlength]
  constructor
  · intro h
    obtain ⟨hi, hv⟩ := List.getElem?_eq_some_iff.mp h
    have hne : ws.length ≠ 0 := Nat.ne_of_gt (Nat.lt_of_le_of_lt (Nat.zero_le _) hi)
    have hrank := rank_lt_length hne hp0 hp1
    have hbelow := (countP_lt_le_iff hsorted hi).mpr hv.ge
    have habove := (lt_countP_le_iff hsorted hi).mpr hv.le
    have hlt : (ws.countP (· < v) : ℤ) < ⌈p * ws.length⌉ := by omega
    have hle : ⌈p * ws.length⌉ ≤ (ws.countP (· ≤ v) : ℤ) := by omega
    refine ⟨hv ▸ List.getElem_mem hi, ?_, ?_⟩
    · exact_mod_cast Int.lt_ceil.mp hlt
    · exact_mod_cast Int.ceil_le.mp hle
  · rintro ⟨hmem, hbelow, habove⟩
    have hne : ws.length ≠ 0 := by
      rw [Ne, List.length_eq_zero_iff]
      rintro rfl
      exact absurd hmem (by simp)
    have hrank := rank_lt_length hne hp0 hp1
    have hlt : (ws.countP (· < v) : ℤ) < ⌈p * ws.length⌉ :=
      Int.lt_ceil.mpr (by exact_mod_cast hbelow)
    have hle : ⌈p * ws.length⌉ ≤ (ws.countP (· ≤ v) : ℤ) :=
      Int.ceil_le.mpr (by exact_mod_cast habove)
    rw [List.getElem?_eq_getElem hrank.2, Option.some.injEq]
    exact le_antisymm ((lt_countP_le_iff hsorted hrank.2).mp (by omega))
      ((countP_lt_le_iff hsorted hrank.2).mp (by omega))

theorem nearestRank_eq_none_iff (hp0 : 0 < p) (hp1 : p ≤ 1) :
    nearestRank p vs = none ↔ vs = [] := by
  rw [nearestRank, List.getElem?_eq_none_iff, List.length_insertionSort]
  constructor
  · intro h
    by_contra hne
    have hrank := rank_lt_length (mt List.length_eq_zero_iff.mp hne) hp0 hp1
    omega
  · rintro rfl
    exact Nat.zero_le _

theorem mem_of_nearestRank (h : nearestRank p vs = some v) : v ∈ vs :=
  (List.perm_insertionSort (· ≤ ·) vs).mem_iff.mp (List.mem_of_getElem? h)

/-- The percentiles of a list rise. -/
theorem nearestRank_mono (hp0 : 0 < p) (hpq : p ≤ q) (hq1 : q ≤ 1) (hv : nearestRank p vs = some v)
    (hw : nearestRank q vs = some w) : v ≤ w := by
  obtain ⟨-, hbelow, -⟩ := (nearestRank_eq_some_iff hp0 (hpq.trans hq1)).mp hv
  obtain ⟨-, -, habove⟩ := (nearestRank_eq_some_iff (hp0.trans_le hpq) hq1).mp hw
  by_contra hlt
  rw [not_le] at hlt
  -- what is at or below `w` is below `v`, and the rank of `v` is no higher
  have hcount : vs.countP (· ≤ w) ≤ vs.countP (· < v) :=
    List.countP_mono_left fun u _ hu => by
      simp only [decide_eq_true_eq] at hu ⊢
      exact hu.trans_lt hlt
  have hrank : p * vs.length ≤ q * vs.length := mul_le_mul_of_nonneg_right hpq (Nat.cast_nonneg _)
  have hcast : (vs.countP (· ≤ w) : ℚ) ≤ vs.countP (· < v) := by exact_mod_cast hcount
  linarith

/-! ## One percentile of two lists -/

/-- The percentile of `ws` is where the rank falls in `vs`; the two have
values or have none. -/
def SharesRank (p : ℚ) (vs ws : List α) : Prop :=
  (ws = [] → vs = []) ∧ ∀ v, nearestRank p ws = some v → RankFalls p vs v

theorem nearestRank_eq_iff_sharesRank (hp0 : 0 < p) (hp1 : p ≤ 1) (hsub : ∀ v ∈ ws, v ∈ vs) :
    nearestRank p vs = nearestRank p ws ↔ SharesRank p vs ws := by
  constructor
  · intro heq
    refine ⟨fun hnil => ?_, fun v hv => ?_⟩
    · rw [(nearestRank_eq_none_iff hp0 hp1).mpr hnil] at heq
      exact (nearestRank_eq_none_iff hp0 hp1).mp heq
    · rw [hv] at heq
      exact ((nearestRank_eq_some_iff hp0 hp1).mp heq).2
  · rintro ⟨hnil, hfalls⟩
    cases hv : nearestRank p ws with
    | none =>
      exact (nearestRank_eq_none_iff hp0 hp1).mpr (hnil ((nearestRank_eq_none_iff hp0 hp1).mp hv))
    | some v =>
      exact (nearestRank_eq_some_iff hp0 hp1).mpr ⟨hsub v (mem_of_nearestRank hv), hfalls v hv⟩

end UmansGate.Lib
