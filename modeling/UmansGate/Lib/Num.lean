/-
UmansGate.Lib.Num — numbers with NaN and the two infinities, over any
ordered type of finite values.

The comparisons are the IEEE ones: every comparison with `nan` is false,
so `¬ a ≤ b` does not give `b < a`. `max`, `min`, `add` and `sub`
propagate `nan`. Finite arithmetic is the exact arithmetic of the
underlying type; rounding is not part of this module.
-/
import Mathlib.Order.Lattice
import Mathlib.Order.Defs.LinearOrder

namespace UmansGate.Lib

/-- A number: not-a-number, an infinity or a finite value. -/
inductive Num (α : Type) where
  | nan
  | negInf
  | fin (a : α)
  | posInf
  deriving DecidableEq, Repr

namespace Num

variable {α β : Type}

/-- Apply a function to a finite value; `nan` and the infinities stay. -/
def map (f : α → β) : Num α → Num β
  | nan => nan
  | negInf => negInf
  | fin a => fin (f a)
  | posInf => posInf

/-- `Number.isFinite`. -/
def isFinite : Num α → Bool
  | fin _ => true
  | _ => false

section Order

variable [LinearOrder α]

/-- `x <= y`. -/
def le : Num α → Num α → Bool
  | nan, _ => false
  | _, nan => false
  | negInf, _ => true
  | _, posInf => true
  | fin a, fin b => decide (a ≤ b)
  | _, _ => false

/-- `x < y`. -/
def lt : Num α → Num α → Bool
  | nan, _ => false
  | _, nan => false
  | posInf, _ => false
  | _, negInf => false
  | fin a, fin b => decide (a < b)
  | _, _ => true

/-- `Math.max(x, y)`. -/
def max : Num α → Num α → Num α
  | nan, _ => nan
  | _, nan => nan
  | fin a, fin b => fin (Max.max a b)
  | x, y => if le x y then y else x

/-- `Math.min(x, y)`. -/
def min : Num α → Num α → Num α
  | nan, _ => nan
  | _, nan => nan
  | fin a, fin b => fin (Min.min a b)
  | x, y => if le x y then x else y

@[simp] theorem le_fin_fin (a b : α) : le (fin a) (fin b) = decide (a ≤ b) := rfl
@[simp] theorem lt_fin_fin (a b : α) : lt (fin a) (fin b) = decide (a < b) := rfl
@[simp] theorem max_fin_fin (a b : α) : max (fin a) (fin b) = fin (Max.max a b) := rfl
@[simp] theorem min_fin_fin (a b : α) : min (fin a) (fin b) = fin (Min.min a b) := rfl
@[simp] theorem le_nan_right (x : Num α) : le x nan = false := by cases x <;> rfl
@[simp] theorem lt_nan_right (x : Num α) : lt x nan = false := by cases x <;> rfl
@[simp] theorem le_nan_left (x : Num α) : le nan x = false := by cases x <;> rfl
@[simp] theorem lt_nan_left (x : Num α) : lt nan x = false := by cases x <;> rfl
@[simp] theorem max_nan_right (x : Num α) : max x nan = nan := by cases x <;> rfl
@[simp] theorem min_nan_right (x : Num α) : min x nan = nan := by cases x <;> rfl
@[simp] theorem max_nan_left (x : Num α) : max nan x = nan := by cases x <;> rfl
@[simp] theorem min_nan_left (x : Num α) : min nan x = nan := by cases x <;> rfl

/-- Clamping any number but `nan` between two finite bounds gives a finite
value between them. -/
theorem clamp_fin (lo hi : α) (h : lo ≤ hi) {x : Num α} (hx : x ≠ nan) :
    ∃ a, max (fin lo) (min x (fin hi)) = fin a ∧ lo ≤ a ∧ a ≤ hi := by
  cases x with
  | nan => exact absurd rfl hx
  | negInf => exact ⟨lo, rfl, le_refl lo, h⟩
  | fin a => exact ⟨Max.max lo (Min.min a hi), rfl, le_max_left _ _, max_le h (min_le_right _ _)⟩
  | posInf => exact ⟨Max.max lo hi, rfl, le_max_left _ _, max_le h le_rfl⟩

end Order

/-- `x + y`. -/
def add [Add α] : Num α → Num α → Num α
  | nan, _ => nan
  | _, nan => nan
  | fin a, fin b => fin (a + b)
  | posInf, negInf => nan
  | negInf, posInf => nan
  | posInf, _ => posInf
  | _, posInf => posInf
  | negInf, _ => negInf
  | _, negInf => negInf

/-- `x - y`. -/
def sub [Sub α] : Num α → Num α → Num α
  | nan, _ => nan
  | _, nan => nan
  | fin a, fin b => fin (a - b)
  | posInf, posInf => nan
  | negInf, negInf => nan
  | posInf, _ => posInf
  | _, posInf => negInf
  | negInf, _ => negInf
  | _, negInf => posInf

@[simp] theorem add_fin_fin [Add α] (a b : α) : add (fin a) (fin b) = fin (a + b) := rfl
@[simp] theorem sub_fin_fin [Sub α] (a b : α) : sub (fin a) (fin b) = fin (a - b) := rfl
@[simp] theorem sub_nan_right [Sub α] (x : Num α) : sub x nan = nan := by cases x <;> rfl
@[simp] theorem sub_nan_left [Sub α] (x : Num α) : sub nan x = nan := by cases x <;> rfl
@[simp] theorem add_nan_left [Add α] (x : Num α) : add nan x = nan := by cases x <;> rfl
@[simp] theorem add_nan_right [Add α] (x : Num α) : add x nan = nan := by cases x <;> rfl

@[simp] theorem map_fin (f : α → β) (a : α) : map f (fin a) = fin (f a) := rfl
@[simp] theorem map_nan (f : α → β) : map f (nan : Num α) = nan := rfl

theorem map_ne_nan (f : α → β) {x : Num α} (h : x ≠ nan) : map f x ≠ nan := by
  cases x <;> simp_all [map]

theorem ne_nan_of_isFinite {x : Num α} (h : x.isFinite = true) : x ≠ nan := by
  cases x <;> simp_all [isFinite]

end Num

end UmansGate.Lib
