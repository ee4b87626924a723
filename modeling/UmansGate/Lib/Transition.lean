/-
UmansGate.Lib.Transition — runs of a labelled transition function.

`step : σ → ι → σ` is total: a label whose guard fails leaves the state
alone, so every label list is a run and a run needs no enabledness side
condition. `run_invariant` is the one induction every safety theorem
uses; `StepsMeet` restricts a run by a condition on each step, read in
the state the step is taken from, and `run_invariant_of_stepsMeet` is
the induction rule under such a condition. `throughout_iff_stepsMeet` is
the rule for an exact condition: the steps that keep an invariant are the
ones that meet it, and `forall_steps_iff_stepsMeet` the one for a condition
on a step and the two states around it.
-/
import Mathlib.Data.List.Basic

namespace UmansGate.Lib

variable {σ ι : Type} (step : σ → ι → σ)

/-- The state a label list leads to. -/
def run (s : σ) (is : List ι) : σ := is.foldl step s

@[simp] theorem run_nil (s : σ) : run step s [] = s := rfl

@[simp] theorem run_cons (s : σ) (i : ι) (is : List ι) :
    run step s (i :: is) = run step (step s i) is := rfl

theorem run_append (s : σ) (is js : List ι) :
    run step s (is ++ js) = run step (run step s is) js := by
  simp [run]

/-- Every step of the run meets `P` in the state it is taken from. -/
def StepsMeet (P : σ → ι → Prop) : σ → List ι → Prop
  | _, [] => True
  | s, i :: is => P s i ∧ StepsMeet P (step s i) is

instance StepsMeet.decidable (P : σ → ι → Prop) [∀ s i, Decidable (P s i)] :
    ∀ (s : σ) (is : List ι), Decidable (StepsMeet step P s is)
  | _, [] => .isTrue trivial
  | s, i :: is =>
      haveI := StepsMeet.decidable P (step s i) is
      inferInstanceAs (Decidable (P s i ∧ StepsMeet step P (step s i) is))

variable {step}

/-- A condition on the labels alone is met by every run over such labels. -/
theorem StepsMeet.of_forall {P : ι → Prop} :
    ∀ {s : σ} {is : List ι}, (∀ i ∈ is, P i) → StepsMeet step (fun _ i => P i) s is
  | _, [], _ => trivial
  | _, i :: _, h =>
      ⟨h i (by simp), StepsMeet.of_forall fun j hj => h j (List.mem_cons_of_mem i hj)⟩

theorem stepsMeet_const_iff {P : ι → Prop} {s : σ} {is : List ι} :
    StepsMeet step (fun _ i => P i) s is ↔ ∀ i ∈ is, P i := by
  induction is generalizing s with
  | nil => simp [StepsMeet]
  | cons i is ih => simp [StepsMeet, ih]

theorem stepsMeet_append {P : σ → ι → Prop} {s : σ} {is js : List ι} :
    StepsMeet step P s (is ++ js) ↔ StepsMeet step P s is ∧ StepsMeet step P (run step s is) js := by
  induction is generalizing s with
  | nil => simp [StepsMeet]
  | cons i is ih => simp [StepsMeet, ih, and_assoc]

/-- The run rule under a condition: what every conforming step preserves
holds wherever a conforming run ends. -/
theorem run_invariant_of_stepsMeet {I : σ → Prop} {P : σ → ι → Prop}
    (hstep : ∀ s i, I s → P s i → I (step s i)) {s : σ} {is : List ι}
    (hs : I s) (hmeet : StepsMeet step P s is) : I (run step s is) := by
  induction is generalizing s with
  | nil => exact hs
  | cons i is ih => exact ih (hstep s i hs hmeet.1) hmeet.2

/-- Where every conforming step keeps `I` and meets `Q`, so does every step
of a conforming run. -/
theorem StepsMeet.imp_of_invariant {I : σ → Prop} {P Q : σ → ι → Prop}
    (hstep : ∀ s i, I s → P s i → I (step s i)) (himp : ∀ s i, I s → P s i → Q s i)
    {s : σ} {is : List ι} (hs : I s) (hmeet : StepsMeet step P s is) :
    StepsMeet step Q s is := by
  induction is generalizing s with
  | nil => trivial
  | cons i is ih => exact ⟨himp s i hs hmeet.1, ih (hstep s i hs hmeet.1) hmeet.2⟩

/-- The run rule: what every step preserves holds wherever a run ends. -/
theorem run_invariant {I : σ → Prop} (hstep : ∀ s i, I s → I (step s i))
    {s : σ} (hs : I s) (is : List ι) : I (run step s is) := by
  induction is generalizing s with
  | nil => exact hs
  | cons i is ih => exact ih (hstep s i hs)

/-- The exact run rule with an auxiliary invariant `J`: where the conforming
steps are the ones that keep `I`, and those keep `J`, every state of a run
meets `I` exactly when every step conforms. -/
theorem throughout_iff_stepsMeet_of_aux {I J : σ → Prop} {P : σ → ι → Prop} {s : σ} {is : List ι}
    (hstep : ∀ s, ∀ i ∈ is, J s → I s → (I (step s i) ↔ P s i))
    (hkeep : ∀ s, ∀ i ∈ is, J s → I s → I (step s i) → J (step s i)) (haux : J s) (hs : I s) :
    (∀ pre, pre <+: is → I (run step s pre)) ↔ StepsMeet step P s is := by
  induction is generalizing s with
  | nil =>
    constructor
    · exact fun _ => trivial
    · intro _ pre hpre
      rw [List.prefix_nil.mp hpre]
      exact hs
  | cons i is ih =>
    have hi := hstep s i List.mem_cons_self haux hs
    have hj := hkeep s i List.mem_cons_self haux hs
    have htail := fun s j hj => hstep s j (List.mem_cons_of_mem i hj)
    have hrest := fun s j hj => hkeep s j (List.mem_cons_of_mem i hj)
    constructor
    · intro h
      have hnext : I (step s i) := h [i] ⟨is, rfl⟩
      refine ⟨hi.mp hnext, (ih htail hrest (hj hnext) hnext).mp fun pre hpre => ?_⟩
      exact h (i :: pre) (List.cons_prefix_cons.mpr ⟨rfl, hpre⟩)
    · rintro ⟨hP, hmeet⟩ pre hpre
      have hnext : I (step s i) := hi.mpr hP
      cases pre with
      | nil => exact hs
      | cons j pre =>
        obtain ⟨rfl, hpreTail⟩ := List.cons_prefix_cons.mp hpre
        exact (ih htail hrest (hj hnext) hnext).mpr hmeet pre hpreTail

/-- The exact run rule: where the conforming steps are the ones that keep
`I`, every state of a run meets `I` exactly when every step conforms. -/
theorem throughout_iff_stepsMeet {I : σ → Prop} {P : σ → ι → Prop} {s : σ} {is : List ι}
    (hstep : ∀ s, ∀ i ∈ is, I s → (I (step s i) ↔ P s i)) (hs : I s) :
    (∀ pre, pre <+: is → I (run step s pre)) ↔ StepsMeet step P s is :=
  throughout_iff_stepsMeet_of_aux (J := fun _ => True) (fun s i hi _ => hstep s i hi)
    (fun _ _ _ _ _ _ => trivial) trivial hs

/-- The exact rule for what one step does: where `Q` holds of a step, with
the states around it, exactly when the step conforms, it holds of every step
of a run exactly when the run conforms. -/
theorem forall_steps_iff_stepsMeet {I : σ → Prop} {P : σ → ι → Prop} {Q : σ → ι → σ → Prop}
    (hkeep : ∀ s i, I s → P s i → I (step s i)) (hstep : ∀ s i, I s → (Q s i (step s i) ↔ P s i))
    {s : σ} (hs : I s) (is : List ι) :
    (∀ pre i, pre ++ [i] <+: is → Q (run step s pre) i (run step s (pre ++ [i]))) ↔
      StepsMeet step P s is := by
  induction is generalizing s with
  | nil =>
    constructor
    · exact fun _ => trivial
    · intro _ pre i hpre
      simp at hpre
  | cons j is ih =>
    constructor
    · intro h
      have hfirst : Q s j (step s j) := h [] j ⟨is, rfl⟩
      have hP := (hstep s j hs).mp hfirst
      refine ⟨hP, (ih (hkeep s j hs hP)).mp fun pre i hpre => ?_⟩
      exact h (j :: pre) i (List.cons_prefix_cons.mpr ⟨rfl, hpre⟩)
    · rintro ⟨hP, hmeet⟩ pre i hpre
      cases pre with
      | nil =>
        obtain ⟨rfl, -⟩ := List.cons_prefix_cons.mp hpre
        exact (hstep s i hs).mpr hP
      | cons k pre =>
        obtain ⟨rfl, htail⟩ := List.cons_prefix_cons.mp hpre
        exact (ih (hkeep s k hs hP)).mpr hmeet pre i htail

/-! ## Looking back -/

/-- A step of the run was an `E` step, and from it on every step meets `N`. -/
def Since (step : σ → ι → σ) (E N : σ → ι → Prop) (s : σ) (is : List ι) : Prop :=
  ∃ pre i mid, is = pre ++ i :: mid ∧ E (run step s pre) i ∧
    StepsMeet step N (run step s pre) (i :: mid)

variable {E E' N N' : σ → ι → Prop} {s : σ} {is : List ι}

theorem not_since_nil : ¬ Since step E N s [] := by
  rintro ⟨pre, i, mid, heq, -⟩
  simp at heq

/-- One more step: it is the `E` step, or the run before it had one. -/
theorem since_concat {i : ι} : Since step E N s (is ++ [i]) ↔
    (E (run step s is) i ∨ Since step E N s is) ∧ N (run step s is) i := by
  constructor
  · rintro ⟨pre, j, mid, heq, hE, hN⟩
    rcases List.eq_nil_or_concat mid with rfl | ⟨mid, k, rfl⟩
    · obtain ⟨rfl, hj⟩ := List.append_inj' heq rfl
      obtain rfl : i = j := by simpa using hj
      exact ⟨.inl hE, hN.1⟩
    · rw [List.concat_eq_append, ← List.cons_append, ← List.append_assoc] at heq
      obtain ⟨rfl, hk⟩ := List.append_inj' heq rfl
      obtain rfl : i = k := by simpa using hk
      rw [List.concat_eq_append, ← List.cons_append, stepsMeet_append] at hN
      refine ⟨.inr ⟨pre, j, mid, rfl, hE, hN.1⟩, ?_⟩
      rw [run_append]
      exact hN.2.1
  · rintro ⟨hE | ⟨pre, j, mid, rfl, hE, hN⟩, hlast⟩
    · exact ⟨is, i, [], rfl, hE, hlast, trivial⟩
    · refine ⟨pre, j, mid ++ [i], by simp, hE, ?_⟩
      rw [← List.cons_append, stepsMeet_append]
      rw [run_append] at hlast
      exact ⟨hN, hlast, trivial⟩

theorem Since.imp (h : Since step E N s is) (hE : ∀ s i, E s i → E' s i)
    (hN : ∀ s i, N s i → N' s i) : Since step E' N' s is := by
  obtain ⟨pre, i, mid, rfl, he, hn⟩ := h
  refine ⟨pre, i, mid, rfl, hE _ _ he, ?_⟩
  exact hn.imp_of_invariant (I := fun _ => True) (fun _ _ _ _ => trivial) (fun s i _ h => hN s i h)
    trivial

end UmansGate.Lib
