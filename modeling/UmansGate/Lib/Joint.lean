/-
UmansGate.Lib.Joint — texts that are run together.

Two texts joined without a separator, or with one that they may hold, can be
cut at another place. The equations of two joined texts are solved for what
moves over the joint: `Spills` without a separator, `Overlaps` with one.
-/
import Mathlib.Data.List.Basic

namespace UmansGate.Lib

section

variable {α : Type*} {a b c a' b' c' : List α} {x : α}

/-- `u` moves over the joint, from the head of the second text to the end of
the first. -/
def Spills (a b a' b' : List α) : Prop := ∃ u, u ≠ [] ∧ a' = a ++ u ∧ b = u ++ b'

/-- Two cuts of one text: the same one, or one spills into the other. -/
def Recut (a b a' b' : List α) : Prop :=
  a = a' ∧ b = b' ∨ Spills a b a' b' ∨ Spills a' b' a b

/-- As `Spills`, over a separator. -/
def Overlaps (x : α) (a b a' b' : List α) : Prop := ∃ w, a' = a ++ x :: w ∧ b = w ++ x :: b'

theorem append_eq_of_spills (h : Spills a b a' b') : a ++ b = a' ++ b' := by
  obtain ⟨u, -, rfl, rfl⟩ := h
  rw [List.append_assoc]

theorem append_eq_iff_recut : a ++ b = a' ++ b' ↔ Recut a b a' b' := by
  constructor
  · intro h
    rcases List.append_eq_append_iff.mp h with ⟨u, ha, hb⟩ | ⟨u, ha, hb⟩
    · by_cases hu : u = []
      · subst hu
        exact .inl ⟨by simpa using ha.symm, by simpa using hb⟩
      · exact .inr (.inl ⟨u, hu, ha, hb⟩)
    · by_cases hu : u = []
      · subst hu
        exact .inl ⟨by simpa using ha, by simpa using hb.symm⟩
      · exact .inr (.inr ⟨u, hu, ha, hb⟩)
  · rintro (⟨rfl, rfl⟩ | h | h)
    · rfl
    · exact append_eq_of_spills h
    · exact (append_eq_of_spills h).symm

/-- Three texts are cut anew at their first joint, or at their second. -/
theorem append_append_eq_iff :
    a ++ (b ++ c) = a' ++ (b' ++ c') ↔
      a = a' ∧ Recut b c b' c' ∨ Spills a (b ++ c) a' (b' ++ c') ∨
        Spills a' (b' ++ c') a (b ++ c) := by
  rw [append_eq_iff_recut, Recut, append_eq_iff_recut]

theorem spills_cons_iff : Spills a (x :: b) a' (x :: b') ↔ Overlaps x a b a' b' := by
  constructor
  · rintro ⟨u, hu, ha, hb⟩
    cases u with
    | nil => exact absurd rfl hu
    | cons y w =>
      obtain ⟨hhead, htail⟩ := List.cons.inj hb
      rw [← hhead] at ha
      exact ⟨w, ha, htail⟩
  · rintro ⟨w, ha, hb⟩
    exact ⟨x :: w, List.cons_ne_nil x w, ha, by rw [hb]; rfl⟩

theorem append_cons_eq_iff :
    a ++ x :: b = a' ++ x :: b' ↔
      a = a' ∧ b = b' ∨ Overlaps x a b a' b' ∨ Overlaps x a' b' a b := by
  rw [append_eq_iff_recut, Recut, spills_cons_iff, spills_cons_iff, List.cons.injEq]
  simp

/-- Texts of one length are cut at one place. -/
theorem not_spills_of_length (h : a.length = a'.length) : ¬ Spills a b a' b' := by
  rintro ⟨u, hu, rfl, -⟩
  rw [List.length_append] at h
  exact hu (List.length_eq_zero_iff.mp (by omega))

/-- A second text without the separator ends nothing. -/
theorem not_overlaps_of_not_mem (h : x ∉ b) : ¬ Overlaps x a b a' b' := by
  rintro ⟨w, -, rfl⟩
  exact h (by simp)

end

end UmansGate.Lib
