/-
UmansGate.Lib.PieceOrder — two lists compared piece by piece, a missing
piece read as a fixed one.

Of the comparison of two pieces only its swap is assumed, no transitivity:
pieces that are apart from nothing (`Ordering.eq` with every piece) are the
case this is for. `comparePieces_eq_lt_iff` says where the verdict falls:
at the first place where the two are apart. `findSome?_comparePieces` is
the loop over the longer of the two lengths.
-/
import Mathlib.Data.List.Basic

namespace UmansGate.Lib

variable {α β : Type} (cmp : α → α → Ordering) (d : α)

def comparePieces : List α → List α → Ordering
  | [], ys => ys.foldr (fun y o => (cmp d y).then o) .eq
  | x :: xs, ys => (cmp x (ys.headD d)).then (comparePieces xs ys.tail)

/-- At the first place where the two are apart, the first has the lesser
piece. -/
def FirstLess (xs ys : List α) : Prop :=
  ∃ i, (∀ j < i, cmp (xs.getD j d) (ys.getD j d) = .eq) ∧ cmp (xs.getD i d) (ys.getD i d) = .lt

@[simp] theorem comparePieces_nil_nil : comparePieces cmp d [] [] = .eq := rfl

@[simp] theorem comparePieces_cons_nil (x : α) (xs : List α) :
    comparePieces cmp d (x :: xs) [] = (cmp x d).then (comparePieces cmp d xs []) := rfl

@[simp] theorem comparePieces_nil_cons (y : α) (ys : List α) :
    comparePieces cmp d [] (y :: ys) = (cmp d y).then (comparePieces cmp d [] ys) := rfl

@[simp] theorem comparePieces_cons_cons (x y : α) (xs ys : List α) :
    comparePieces cmp d (x :: xs) (y :: ys) = (cmp x y).then (comparePieces cmp d xs ys) := rfl

/-- The four shapes of two lists, each but the first with the pair of tails. -/
theorem piecesInduction {motive : List α → List α → Prop} (nil_nil : motive [] [])
    (cons_nil : ∀ x xs, motive xs [] → motive (x :: xs) [])
    (nil_cons : ∀ y ys, motive [] ys → motive [] (y :: ys))
    (cons_cons : ∀ x xs y ys, motive xs ys → motive (x :: xs) (y :: ys)) (xs ys : List α) :
    motive xs ys := by
  induction xs generalizing ys with
  | nil =>
    induction ys with
    | nil => exact nil_nil
    | cons y ys ih => exact nil_cons y ys ih
  | cons x xs ih =>
    cases ys with
    | nil => exact cons_nil x xs (ih [])
    | cons y ys => exact cons_cons x xs y ys (ih ys)

variable {cmp d}

theorem comparePieces_swap (hswap : ∀ x y, cmp y x = (cmp x y).swap) (xs ys : List α) :
    comparePieces cmp d ys xs = (comparePieces cmp d xs ys).swap := by
  induction xs, ys using piecesInduction with
  | nil_nil => rfl
  | cons_nil x xs ih => simp [ih, hswap x d, Ordering.swap_then]
  | nil_cons y ys ih => simp [ih, hswap d y, Ordering.swap_then]
  | cons_cons x xs y ys ih => simp [ih, hswap x y, Ordering.swap_then]

theorem comparePieces_self (hself : ∀ x, cmp x x = .eq) (xs : List α) :
    comparePieces cmp d xs xs = .eq := by
  induction xs with
  | nil => rfl
  | cons x xs ih => simp [hself, ih]

/-- Against a list of missing pieces. -/
theorem comparePieces_nil_ne_gt {ys : List α} (h : ∀ y ∈ ys, cmp d y ≠ .gt) :
    comparePieces cmp d [] ys ≠ .gt := by
  induction ys with
  | nil => simp
  | cons y ys ih =>
    have hy := h y List.mem_cons_self
    have hys := ih fun z hz => h z (List.mem_cons_of_mem y hz)
    rw [comparePieces_nil_cons, Ne, Ordering.then_eq_gt]
    rintro (hgt | ⟨-, hgt⟩)
    · exact hy hgt
    · exact hys hgt

/-! ## The first place -/

/-- The first place is the first one, or it is found behind it. -/
theorem firstLess_iff {xs ys : List α} :
    FirstLess cmp d xs ys ↔
      cmp (xs.headD d) (ys.headD d) = .lt ∨
        cmp (xs.headD d) (ys.headD d) = .eq ∧ FirstLess cmp d xs.tail ys.tail := by
  have hhead : ∀ zs : List α, zs.getD 0 d = zs.headD d := fun zs => by cases zs <;> rfl
  have htail : ∀ (zs : List α) i, zs.getD (i + 1) d = zs.tail.getD i d := fun zs i => by
    cases zs <;> rfl
  constructor
  · rintro ⟨i, hbefore, hi⟩
    cases i with
    | zero => exact .inl (by rwa [hhead, hhead] at hi)
    | succ i =>
      refine .inr ⟨?_, i, fun j hj => ?_, ?_⟩
      · have h0 := hbefore 0 (Nat.succ_pos i)
        rwa [hhead, hhead] at h0
      · have hj' := hbefore (j + 1) (Nat.succ_lt_succ hj)
        rwa [htail, htail] at hj'
      · rwa [htail, htail] at hi
  · rintro (hlt | ⟨heq, i, hbefore, hi⟩)
    · exact ⟨0, fun j hj => absurd hj (Nat.not_lt_zero j), by rwa [hhead, hhead]⟩
    · refine ⟨i + 1, fun j hj => ?_, by rwa [htail, htail]⟩
      cases j with
      | zero => rwa [hhead, hhead]
      | succ j =>
        rw [htail, htail]
        exact hbefore j (Nat.lt_of_succ_lt_succ hj)

/-- The verdict falls at the first place where the two are apart. -/
theorem comparePieces_eq_lt_iff (hd : cmp d d = .eq) (xs ys : List α) :
    comparePieces cmp d xs ys = .lt ↔ FirstLess cmp d xs ys := by
  induction xs, ys using piecesInduction with
  | nil_nil =>
    refine iff_of_false (by simp) ?_
    rintro ⟨i, -, hi⟩
    simp [hd] at hi
  | cons_nil x xs ih =>
    rw [firstLess_iff, comparePieces_cons_nil, Ordering.then_eq_lt, ih]
    rfl
  | nil_cons y ys ih =>
    rw [firstLess_iff, comparePieces_nil_cons, Ordering.then_eq_lt, ih]
    rfl
  | cons_cons x xs y ys ih =>
    rw [firstLess_iff, comparePieces_cons_cons, Ordering.then_eq_lt, ih]
    rfl

theorem comparePieces_eq_gt_iff (hswap : ∀ x y, cmp y x = (cmp x y).swap) (hd : cmp d d = .eq)
    (xs ys : List α) : comparePieces cmp d xs ys = .gt ↔ FirstLess cmp d ys xs := by
  rw [comparePieces_swap hswap ys xs, Ordering.swap_eq_gt, comparePieces_eq_lt_iff hd]

/-! ## The loop -/

/-- The loop returns at the first place where the two are apart. -/
theorem findSome?_comparePieces {verdict : α → α → Option β} {out : Ordering → β}
    (hverdict : ∀ x y, verdict x y = if cmp x y = .eq then none else some (out (cmp x y)))
    (xs ys : List α) :
    ((List.range (max xs.length ys.length)).findSome? fun i =>
      verdict (xs.getD i d) (ys.getD i d)).getD (out .eq) = out (comparePieces cmp d xs ys) := by
  have hstep : ∀ (x y : α) (rest : Option β) (o : Ordering), rest.getD (out .eq) = out o →
      ((verdict x y).or rest).getD (out .eq) = out ((cmp x y).then o) := by
    intro x y rest o hrest
    rw [hverdict]
    cases hxy : cmp x y <;> simp [hrest]
  induction xs, ys using piecesInduction with
  | nil_nil => rfl
  | cons_nil x xs ih =>
    rw [comparePieces_cons_nil, ← hstep x d _ _ ih]
    simp [List.range_succ_eq_map, List.findSome?_cons, List.findSome?_map, Function.comp_def]
    cases verdict x d <;> rfl
  | nil_cons y ys ih =>
    rw [comparePieces_nil_cons, ← hstep d y _ _ ih]
    simp [List.range_succ_eq_map, List.findSome?_cons, List.findSome?_map, Function.comp_def]
    cases verdict d y <;> rfl
  | cons_cons x xs y ys ih =>
    rw [comparePieces_cons_cons, ← hstep x y _ _ ih]
    simp [List.range_succ_eq_map, List.findSome?_cons, List.findSome?_map, Function.comp_def,
      Nat.succ_max_succ]
    cases verdict x y <;> rfl

end UmansGate.Lib
