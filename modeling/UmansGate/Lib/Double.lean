/-
UmansGate.Lib.Double — the arithmetic of IEEE doubles, on `Num ℚ`.

A double is a rational number, an infinity or NaN; zero has no sign. Each
operation rounds its exact result to the nearest double, the even one of
two, and to an infinity from half a unit above the largest finite double
on. What a program relies on where it counts in doubles: integers stay
integers (`toDouble_intCast`), and large ones stay large
(`le_toDouble_intCast`).
-/
import Mathlib.Data.Int.Log
import Mathlib.Data.Rat.Floor
import UmansGate.Lib.Num

namespace UmansGate.Lib

/-- Where rounding first gives an infinity. -/
def overflowBound : ℚ := 2 ^ 1024 - 2 ^ 970

/-- The exponent of the last place of the double nearest to `q`. -/
def lastPlace (q : ℚ) : Int := max (-1074) (Int.log 2 |q| - 52)

/-- The nearest integer, the even one of two. -/
def roundEven (q : ℚ) : Int :=
  if q - ⌊q⌋ < 1 / 2 ∨ q - ⌊q⌋ = 1 / 2 ∧ ⌊q⌋ % 2 = 0 then ⌊q⌋ else ⌊q⌋ + 1

/-- The double nearest to `q`. -/
def toDouble (q : ℚ) : Num ℚ :=
  if overflowBound ≤ q then .posInf
  else if q ≤ -overflowBound then .negInf
  else .fin (roundEven (q / 2 ^ lastPlace q) * 2 ^ lastPlace q)

namespace Num

/-- An infinity of the sign of `q`, NaN for zero. -/
def infOfSign (q : ℚ) : Num ℚ := if 0 < q then .posInf else if q < 0 then .negInf else .nan

/-- A number of the same sign. -/
def sign : Num ℚ → ℚ
  | .nan => 0
  | .negInf => -1
  | .fin q => q
  | .posInf => 1

def addD : Num ℚ → Num ℚ → Num ℚ
  | .fin a, .fin b => toDouble (a + b)
  | x, y => x.add y

def subD : Num ℚ → Num ℚ → Num ℚ
  | .fin a, .fin b => toDouble (a - b)
  | x, y => x.sub y

def mulD : Num ℚ → Num ℚ → Num ℚ
  | .fin a, .fin b => toDouble (a * b)
  | .nan, _ => .nan
  | _, .nan => .nan
  | x, y => infOfSign (x.sign * y.sign)

def divD : Num ℚ → Num ℚ → Num ℚ
  | .nan, _ => .nan
  | _, .nan => .nan
  | .fin a, .fin b => if b = 0 then infOfSign a else toDouble (a / b)
  | .fin _, _ => .fin 0
  | x, .fin b => infOfSign (x.sign * if b < 0 then -1 else 1)
  | _, _ => .nan

/-- `Math.floor`. -/
def floorD (x : Num ℚ) : Num ℚ := x.map fun q => ⌊q⌋

/-- `Math.round`: the nearest integer, the upper one of two. -/
def roundD (x : Num ℚ) : Num ℚ := x.map fun q => ⌊q + 1 / 2⌋

/-- `x === y`. -/
def eqD : Num ℚ → Num ℚ → Bool
  | .nan, _ => false
  | x, y => x = y

end Num

/-! ## Rounding integers -/

@[simp] theorem roundEven_intCast (n : Int) : roundEven n = n := by
  simp [roundEven]

theorem le_roundEven {n : Int} {q : ℚ} (h : (n : ℚ) ≤ q) : n ≤ roundEven q := by
  have hfloor : n ≤ ⌊q⌋ := Int.le_floor.mpr h
  unfold roundEven
  split
  · exact hfloor
  · omega

/-- Below the last place of a large number all places are whole. -/
theorem roundEven_mul_of_lastPlace {n : Int} (h : lastPlace n ≤ 0) :
    (roundEven (n / 2 ^ lastPlace (n : ℚ)) : ℚ) * 2 ^ lastPlace (n : ℚ) = n := by
  obtain ⟨k, hk⟩ := Int.eq_ofNat_of_zero_le (Int.neg_nonneg.mpr h)
  have hplace : lastPlace (n : ℚ) = -(k : Int) := by omega
  have hscaled : (n : ℚ) / 2 ^ lastPlace (n : ℚ) = ((n * 2 ^ k : Int) : ℚ) := by
    rw [hplace, zpow_neg, div_inv_eq_mul, zpow_natCast]
    push_cast
    rfl
  rw [hscaled, roundEven_intCast, ← hscaled]
  exact div_mul_cancel₀ _ (zpow_ne_zero _ (by norm_num))

/-- Nothing is rounded as long as the last place is below the point. -/
theorem toDouble_of_lastPlace {n : Int} (hlo : -overflowBound < n) (hhi : (n : ℚ) < overflowBound)
    (h : lastPlace n ≤ 0) : toDouble n = .fin n := by
  rw [toDouble, if_neg (not_le.mpr hhi), if_neg (not_le.mpr hlo), roundEven_mul_of_lastPlace h]

theorem lastPlace_of_le {n : Int} (hlo : -2 ^ 53 < n) (hhi : n < 2 ^ 53) : lastPlace n ≤ 0 := by
  have hlog : Int.log 2 |(n : ℚ)| < 53 := by
    by_cases h0 : n = 0
    · subst h0
      simp
    · have habs : |(n : ℚ)| < ((2 : ℕ) : ℚ) ^ (53 : Int) := by
        rw [abs_lt]
        constructor
        · exact_mod_cast hlo
        · exact_mod_cast hhi
      exact (Int.lt_zpow_iff_log_lt (by norm_num) (by simpa using h0)).mp habs
  unfold lastPlace
  omega

theorem two_pow_le_overflowBound {k : ℕ} (h : k ≤ 970) : (2 : ℚ) ^ k ≤ overflowBound := by
  have hk : (2 : ℚ) ^ k ≤ 2 ^ 970 := pow_le_pow_right₀ (by norm_num) h
  have htop : (2 : ℚ) ^ 971 ≤ 2 ^ 1024 := pow_le_pow_right₀ (by norm_num) (by norm_num)
  rw [overflowBound, le_sub_iff_add_le]
  calc (2 : ℚ) ^ k + 2 ^ 970 ≤ 2 ^ 970 + 2 ^ 970 := add_le_add_left hk _
    _ = 2 ^ 971 := ((pow_succ (2 : ℚ) 970).trans (mul_two _)).symm
    _ ≤ 2 ^ 1024 := htop

/-- Integers of up to 53 bits are doubles. -/
theorem toDouble_exact {n : Int} (hlo : -2 ^ 53 < n) (hhi : n < 2 ^ 53) : toDouble n = .fin n := by
  have hbound : (2 : ℚ) ^ 53 ≤ overflowBound := two_pow_le_overflowBound (by norm_num)
  refine toDouble_of_lastPlace ?_ ?_ (lastPlace_of_le hlo hhi)
  · have : -(2 : ℚ) ^ 53 < n := by exact_mod_cast hlo
    linarith
  · have : (n : ℚ) < 2 ^ 53 := by exact_mod_cast hhi
    linarith

/-- A large integer rounds to an integer that is not small. -/
theorem toDouble_intCast {n : Int} (hpos : 0 ≤ n) :
    (overflowBound ≤ n ∧ toDouble n = .posInf) ∨
      (n : ℚ) < overflowBound ∧ ∃ m : Int, toDouble n = .fin m ∧ min n (2 ^ 53) ≤ m := by
  by_cases hover : overflowBound ≤ n
  · exact .inl ⟨hover, if_pos hover⟩
  · refine .inr ⟨not_le.mp hover, ?_⟩
    have hneg : ¬ (n : ℚ) ≤ -overflowBound := by
      have h0 : (0 : ℚ) ≤ n := by exact_mod_cast hpos
      have hbound : (2 : ℚ) ^ 0 ≤ overflowBound := two_pow_le_overflowBound (by norm_num)
      linarith
    by_cases hplace : lastPlace n ≤ 0
    · refine ⟨n, ?_, min_le_left _ _⟩
      rw [toDouble, if_neg hover, if_neg hneg, roundEven_mul_of_lastPlace hplace]
    · obtain ⟨k, hk⟩ := Int.eq_ofNat_of_zero_le (not_le.mp hplace).le
      have hlog : Int.log 2 |(n : ℚ)| = (k : Int) + 52 := by
        unfold lastPlace at hplace hk
        omega
      have hk1 : 1 ≤ k := by omega
      refine ⟨roundEven ((n : ℚ) / 2 ^ lastPlace (n : ℚ)) * 2 ^ k, ?_, ?_⟩
      · rw [toDouble, if_neg hover, if_neg hneg, hk, zpow_natCast]
        push_cast
        rfl
      · have hn : n ≠ 0 := by
          rintro rfl
          simp at hlog
          omega
        have hlow : ((2 : ℕ) : ℚ) ^ ((k : Int) + 52) ≤ |(n : ℚ)| := by
          rw [← hlog]
          exact Int.zpow_log_le_self (by norm_num) (by simpa using hn)
        rw [abs_of_nonneg (by exact_mod_cast hpos)] at hlow
        have hq : ((2 ^ 52 : Int) : ℚ) ≤ (n : ℚ) / 2 ^ lastPlace (n : ℚ) := by
          rw [hk, le_div_iff₀ (zpow_pos (by norm_num) _)]
          refine le_trans (le_of_eq ?_) hlow
          push_cast
          rw [zpow_add₀ (by norm_num), mul_comm]
          norm_num
        have hround := le_roundEven hq
        have hpow : (2 : Int) ≤ 2 ^ k := by
          calc (2 : Int) = 2 ^ 1 := by norm_num
            _ ≤ 2 ^ k := pow_le_pow_right₀ (by norm_num) hk1
        calc min n (2 ^ 53) ≤ 2 ^ 52 * 2 := by rw [← pow_succ]; exact min_le_right _ _
          _ ≤ roundEven ((n : ℚ) / 2 ^ lastPlace (n : ℚ)) * 2 ^ k :=
            mul_le_mul hround hpow (by norm_num) (le_trans (by norm_num) hround)

end UmansGate.Lib
