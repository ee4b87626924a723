/-
UmansGate.Lib.LowerBound — binary search for the end of a prefix.

`lowerBound p lo hi` halves the interval until it is empty. Where `p` holds
of a position only together with all positions before it, the result is the
first position without `p`, and a list is cut there as filtering would cut it
(`take_cutAt`).
-/
import Mathlib.Data.List.Basic

namespace UmansGate.Lib

/-- The loop of the search, between `lo` and `hi`. -/
def lowerBound (p : ℕ → Bool) (lo hi : ℕ) : ℕ :=
  if lo < hi then
    let mid := (lo + hi) / 2
    if p mid then lowerBound p (mid + 1) hi else lowerBound p lo mid
  else lo
termination_by hi - lo

/-- The result parts the interval. -/
theorem lowerBound_spec {p : ℕ → Bool} {lo hi : ℕ} (hle : lo ≤ hi)
    (hp : ∀ i j, i ≤ j → j < hi → p j = true → p i = true) :
    lo ≤ lowerBound p lo hi ∧ lowerBound p lo hi ≤ hi ∧
      (∀ i, lo ≤ i → i < lowerBound p lo hi → p i = true) ∧
      ∀ i, lowerBound p lo hi ≤ i → i < hi → p i = false := by
  fun_induction lowerBound p lo hi with
  | case1 lo hi hlt mid hmid ih =>
    obtain ⟨hlow, hhigh, hbefore, hafter⟩ := ih (by omega) hp
    refine ⟨by omega, hhigh, fun i hi hir => ?_, hafter⟩
    by_cases himid : mid + 1 ≤ i
    · exact hbefore i himid hir
    · exact hp i mid (by omega) (by omega) hmid
  | case2 lo hi hlt mid hmid ih =>
    obtain ⟨hlow, hhigh, hbefore, hafter⟩ :=
      ih (by omega) fun i j hij hj => hp i j hij (by omega)
    refine ⟨hlow, by omega, hbefore, fun i hri hihi => ?_⟩
    by_cases himid : i < mid
    · exact hafter i hri himid
    · cases hpi : p i with
      | false => rfl
      | true => exact absurd (hp mid i (by omega) hihi hpi) hmid
  | case3 lo hi hlt =>
    exact ⟨Nat.le_refl _, hle, fun i hi hir => by omega, fun i hri hihi => by omega⟩

section Lists

variable {α : Type} {p : α → Bool} {l : List α}

/-- The position of the first entry without `p`. -/
def cutAt (p : α → Bool) (l : List α) : ℕ := lowerBound (fun i => l[i]?.any p) 0 l.length

theorem cutAt_spec (h : l.Pairwise fun a b => p b = true → p a = true) :
    (∀ i (hi : i < l.length), i < cutAt p l → p l[i] = true) ∧
      ∀ i (hi : i < l.length), cutAt p l ≤ i → p l[i] = false := by
  obtain ⟨-, -, hbefore, hafter⟩ := lowerBound_spec (p := fun i => l[i]?.any p)
    (Nat.zero_le l.length) fun i j hij hj hpj => by
      simp only [List.getElem?_eq_getElem hj, List.getElem?_eq_getElem (Nat.lt_of_le_of_lt hij hj),
        Option.any_some] at hpj ⊢
      rcases Nat.lt_or_eq_of_le hij with hlt | rfl
      · exact List.pairwise_iff_getElem.mp h i j (Nat.lt_of_le_of_lt hij hj) hj hlt hpj
      · exact hpj
  refine ⟨fun i hi hcut => ?_, fun i hi hcut => ?_⟩
  · simpa [List.getElem?_eq_getElem hi] using hbefore i (Nat.zero_le i) hcut
  · simpa [List.getElem?_eq_getElem hi] using hafter i hcut hi

/-- What lies before the cut is what filtering keeps. -/
theorem take_cutAt (h : l.Pairwise fun a b => p b = true → p a = true) :
    l.take (cutAt p l) = l.filter p ∧ l.drop (cutAt p l) = l.filter fun a => ! p a := by
  obtain ⟨hbefore, hafter⟩ := cutAt_spec h
  have htake : ∀ a ∈ l.take (cutAt p l), p a = true := by
    intro a ha
    obtain ⟨i, hi, rfl⟩ := List.getElem_of_mem ha
    rw [List.length_take] at hi
    rw [List.getElem_take]
    exact hbefore i (by omega) (by omega)
  have hdrop : ∀ a ∈ l.drop (cutAt p l), p a = false := by
    intro a ha
    obtain ⟨i, hi, rfl⟩ := List.getElem_of_mem ha
    rw [List.length_drop] at hi
    rw [List.getElem_drop]
    exact hafter _ (by omega) (by omega)
  have hsplit : l = l.take (cutAt p l) ++ l.drop (cutAt p l) := (List.take_append_drop _ l).symm
  constructor
  · calc l.take (cutAt p l) = (l.take (cutAt p l)).filter p ++ (l.drop (cutAt p l)).filter p := by
          rw [List.filter_eq_self.mpr htake, List.filter_eq_nil_iff.mpr (by simpa using hdrop),
            List.append_nil]
      _ = l.filter p := by rw [← List.filter_append, ← hsplit]
  · calc l.drop (cutAt p l) = (l.take (cutAt p l)).filter (fun a => ! p a) ++
            (l.drop (cutAt p l)).filter (fun a => ! p a) := by
          rw [List.filter_eq_nil_iff.mpr (by simpa using htake),
            List.filter_eq_self.mpr (by simpa using hdrop), List.nil_append]
      _ = l.filter fun a => ! p a := by rw [← List.filter_append, ← hsplit]

end Lists

end UmansGate.Lib
