/-
UmansGate.Lib.DoubleRank — the ranks `⌈p · n⌉` computed in doubles.

0.10 is above a tenth and 0.95 below nineteen twentieths, so the product is
off the exact one, at whole ranks too. For counts below 2^48 rounding brings
it back to the rank or leaves it above the rank before
(`ceilMul_tenth`, `ceilMul_half`, `ceilMul_nineteenTwentieths`).
-/
import UmansGate.Lib.Numerals

namespace UmansGate.Lib

/-- `CEIL(p * n)`. -/
def ceilMul (p : ℚ) (n : ℕ) : ℤ :=
  match (toDouble p).mulD (toDouble n) with
  | .fin q => ⌈q⌉
  | _ => 0

/-! ## Doubles between two powers of two -/

theorem log_eq_of_le_lt {q : ℚ} {e : ℤ} (hlow : (2 : ℚ) ^ e ≤ q) (hhigh : q < 2 ^ (e + 1)) :
    Int.log 2 q = e := by
  have hpos : 0 < q := (zpow_pos (by norm_num) e).trans_le hlow
  have hlt : Int.log 2 q < e + 1 :=
    (Int.lt_zpow_iff_log_lt (by norm_num) hpos).mp (by exact_mod_cast hhigh)
  have hle : e ≤ Int.log 2 q :=
    (Int.zpow_le_iff_le_log (by norm_num) hpos).mp (by exact_mod_cast hlow)
  omega

theorem lastPlace_eq {q : ℚ} {e : ℤ} (he : -1022 ≤ e) (hlow : (2 : ℚ) ^ e ≤ q)
    (hhigh : q < 2 ^ (e + 1)) : lastPlace q = e - 52 := by
  have hpos : 0 < q := (zpow_pos (by norm_num) e).trans_le hlow
  rw [lastPlace, abs_of_pos hpos, log_eq_of_le_lt hlow hhigh]
  omega

/-- A value that differs from a double by less than half a place. -/
theorem toDouble_eq {q δ : ℚ} {e : ℤ} {z : ℤ} (he : -1022 ≤ e) (hover : q < overflowBound)
    (hlow : (2 : ℚ) ^ e ≤ q) (hhigh : q < 2 ^ (e + 1)) (hq : q = (z + δ) * 2 ^ (e - 52))
    (h0 : 0 ≤ δ) (h1 : δ < 1 / 2) : toDouble q = .fin (z * 2 ^ (e - 52)) := by
  have hpos : 0 < q := (zpow_pos (by norm_num) e).trans_le hlow
  have hplace : (2 : ℚ) ^ (e - 52) ≠ 0 := zpow_ne_zero _ (by norm_num)
  rw [toDouble_of_pos hpos hover, lastPlace_eq he hlow hhigh]
  have hscaled : q / 2 ^ (e - 52) = z + δ := by rw [hq, mul_div_cancel_right₀ _ hplace]
  have hfloor : ⌊q / 2 ^ (e - 52)⌋ = z := by
    rw [hscaled, Int.floor_eq_iff]
    constructor <;> linarith
  have hround : roundEven (q / 2 ^ (e - 52)) = z := by
    rw [roundEven, hfloor, if_pos]
    exact .inl (by rw [hscaled]; linarith)
  rw [hround]

/-- The same from above. -/
theorem toDouble_eq_above {q δ : ℚ} {e : ℤ} {z : ℤ} (he : -1022 ≤ e) (hover : q < overflowBound)
    (hlow : (2 : ℚ) ^ e ≤ q) (hhigh : q < 2 ^ (e + 1)) (hq : q = (z - δ) * 2 ^ (e - 52))
    (h0 : 0 < δ) (h1 : δ < 1 / 2) : toDouble q = .fin (z * 2 ^ (e - 52)) := by
  have hpos : 0 < q := (zpow_pos (by norm_num) e).trans_le hlow
  have hplace : (2 : ℚ) ^ (e - 52) ≠ 0 := zpow_ne_zero _ (by norm_num)
  rw [toDouble_of_pos hpos hover, lastPlace_eq he hlow hhigh]
  have hscaled : q / 2 ^ (e - 52) = z - δ := by rw [hq, mul_div_cancel_right₀ _ hplace]
  have hfloor : ⌊q / 2 ^ (e - 52)⌋ = z - 1 := by
    rw [hscaled, Int.floor_eq_iff]
    push_cast
    constructor <;> linarith
  have hround : roundEven (q / 2 ^ (e - 52)) = z := by
    rw [roundEven, hfloor, hscaled, if_neg]
    · omega
    · push_cast
      rintro (h | ⟨h, -⟩) <;> linarith
  rw [hround]

theorem lt_overflowBound {q : ℚ} (h : q < 2 ^ 53) : q < overflowBound :=
  h.trans_le (two_pow_le_overflowBound (by norm_num))

/-- Fractions of a power of two with few bits are doubles. -/
theorem toDouble_dyadic {m : ℕ} (k : ℕ) (hm : m < 2 ^ 53) (hk : k ≤ 900) :
    toDouble ((m : ℚ) / 2 ^ k) = .fin (m / 2 ^ k) := by
  by_cases hzero : m = 0
  · rw [hzero, Nat.cast_zero, zero_div, toDouble_zero]
  have hlow := Nat.pow_log_le_self 2 hzero
  have hhigh := Nat.lt_pow_succ_log_self (by norm_num : 1 < 2) m
  generalize hl : Nat.log 2 m = l at hlow hhigh
  have hl52 : l ≤ 52 := by
    by_contra hgt
    have hpow : 2 ^ 53 ≤ 2 ^ l := Nat.pow_le_pow_right (by norm_num) (by omega)
    omega
  have h2 : (2 : ℚ) ≠ 0 := by norm_num
  have hpow : (0 : ℚ) < 2 ^ k := by positivity
  -- the numerator in units of the last place
  have hq : (m : ℚ) / 2 ^ k = (((m * 2 ^ (52 - l) : ℕ) : ℤ) + 0) * 2 ^ ((l : ℤ) - k - 52) := by
    have hexp : (2 : ℚ) ^ ((l : ℤ) - k - 52) = (2 ^ (52 - l))⁻¹ * (2 ^ k)⁻¹ := by
      rw [← zpow_natCast, ← zpow_natCast, ← zpow_neg, ← zpow_neg, ← zpow_add₀ h2]
      congr 1
      omega
    have hne : (2 : ℚ) ^ (52 - l) ≠ 0 := by positivity
    rw [hexp]
    push_cast
    field_simp
    ring
  have hlow' : (2 : ℚ) ^ ((l : ℤ) - k) ≤ m / 2 ^ k := by
    rw [zpow_sub₀ h2, zpow_natCast, zpow_natCast]
    exact div_le_div_of_nonneg_right (by exact_mod_cast hlow) hpow.le
  have hhigh' : (m : ℚ) / 2 ^ k < 2 ^ ((l : ℤ) - k + 1) := by
    rw [sub_add_eq_add_sub, zpow_sub₀ h2, zpow_natCast]
    refine div_lt_div_of_pos_right ?_ hpow
    exact_mod_cast hhigh
  have hover : (m : ℚ) / 2 ^ k < overflowBound := by
    refine lt_overflowBound ((div_le_self (Nat.cast_nonneg m) ?_).trans_lt (by exact_mod_cast hm))
    exact one_le_pow₀ (by norm_num)
  rw [toDouble_eq (by omega) hover hlow' hhigh' hq le_rfl (by norm_num), hq, add_zero]

/-! ## Ranks -/

/-- A value between two integers stays above the lower one. -/
theorem ceil_toDouble {x : ℚ} {m : ℕ} (hm : m < 2 ^ 48) (hlow : (m : ℚ) + 1 / 32 ≤ x)
    (hhigh : x ≤ m + 1) : ∃ z : ℚ, toDouble x = .fin z ∧ ⌈z⌉ = m + 1 := by
  have hbelow : toDouble ((32 * m + 1 : ℕ) / 2 ^ 5) = .fin ((32 * m + 1 : ℕ) / 2 ^ 5) :=
    toDouble_dyadic 5 (by omega) (by norm_num)
  have habove : toDouble ((m + 1 : ℕ) : ℚ) = .fin ((m + 1 : ℕ) : ℚ) := toDouble_natCast (by omega)
  have hstart : (((32 * m + 1 : ℕ) : ℚ) / 2 ^ 5) = m + 1 / 32 := by
    push_cast
    ring
  have h0 : (0 : ℚ) ≤ m := Nat.cast_nonneg m
  have hfrom := toDouble_le (q := ((32 * m + 1 : ℕ) : ℚ) / 2 ^ 5) (by positivity)
    (hstart.trans_le hlow)
  have hto := toDouble_le (q := x) (r := ((m + 1 : ℕ) : ℚ)) (by linarith)
    (by push_cast; exact hhigh)
  rw [hbelow] at hfrom
  rw [habove] at hto
  cases hx : toDouble x with
  | fin z =>
    rw [hx, Num.le_fin_fin, decide_eq_true_eq] at hfrom hto
    rw [hstart] at hfrom
    refine ⟨z, rfl, Int.ceil_eq_iff.mpr ⟨?_, ?_⟩⟩
    · push_cast
      linarith
    · push_cast at hto ⊢
      exact hto
  | nan => simp [hx] at hto
  | negInf => simp [hx, Num.le] at hfrom
  | posInf => simp [hx, Num.le] at hto

/-- 0.10 and 0.95. -/
theorem toDouble_tenth : toDouble (1 / 10) = .fin (7205759403792794 / 2 ^ 56) := by
  have h := toDouble_eq_above (q := 1 / 10) (δ := 2 / 5) (e := -4) (z := 7205759403792794)
    (by norm_num) (lt_overflowBound (by norm_num)) (by norm_num) (by norm_num) (by norm_num)
    (by norm_num) (by norm_num)
  rw [h]
  norm_num

theorem toDouble_nineteenTwentieths :
    toDouble (19 / 20) = .fin (8556839292003942 / 2 ^ 53) := by
  have h := toDouble_eq (q := 19 / 20) (δ := 2 / 5) (e := -1) (z := 8556839292003942)
    (by norm_num) (lt_overflowBound (by norm_num)) (by norm_num) (by norm_num) (by norm_num)
    (by norm_num) (by norm_num)
  rw [h]
  norm_num

theorem toDouble_half : toDouble (1 / 2) = .fin (1 / 2) := by
  have h := toDouble_dyadic (m := 1) 1 (by norm_num) (by norm_num)
  norm_num at h ⊢
  exact h

variable {n : ℕ}

theorem ceilMul_eq {p d : ℚ} (hp : toDouble p = .fin d) (hn : n < 2 ^ 53) {z : ℚ}
    (hz : toDouble (d * n) = .fin z) : ceilMul p n = ⌈z⌉ := by
  rw [ceilMul, hp, toDouble_natCast hn]
  simp only [Num.mulD, hz]

theorem ceilMul_half (hn : n < 2 ^ 48) : ceilMul (1 / 2) n = ⌈(1 / 2 : ℚ) * n⌉ := by
  refine ceilMul_eq toDouble_half (by omega) ?_
  have h := toDouble_dyadic (m := n) 1 (by omega) (by norm_num)
  rw [one_div, inv_mul_eq_div]
  simpa using h

theorem ceilMul_zero {p d : ℚ} (hp : toDouble p = .fin d) : ceilMul p 0 = ⌈p * (0 : ℕ)⌉ := by
  rw [ceilMul_eq hp (by norm_num) (z := 0) (by rw [Nat.cast_zero, mul_zero, toDouble_zero])]
  simp

/-- 0.95 is too small by less than a thirty-second at a whole rank. -/
theorem ceilMul_nineteenTwentieths (hn : n < 2 ^ 48) :
    ceilMul (19 / 20) n = ⌈(19 / 20 : ℚ) * n⌉ := by
  rcases Nat.eq_zero_or_pos n with rfl | hpos
  · exact ceilMul_zero toDouble_nineteenTwentieths
  obtain ⟨m, r, hr0, hr20, hm⟩ : ∃ m r : ℕ, 1 ≤ r ∧ r ≤ 20 ∧ 19 * n = 20 * m + r :=
    ⟨(19 * n - 1) / 20, (19 * n - 1) % 20 + 1, by omega, by omega, by omega⟩
  have hcast : (19 : ℚ) * n = 20 * m + r := by exact_mod_cast hm
  have hr0' : (1 : ℚ) ≤ r := by exact_mod_cast hr0
  have hr20' : (r : ℚ) ≤ 20 := by exact_mod_cast hr20
  have hn' : (n : ℚ) < 2 ^ 48 := by exact_mod_cast hn
  have hpos' : (0 : ℚ) < n := by exact_mod_cast hpos
  obtain ⟨z, hz, hceil⟩ := ceil_toDouble (m := m) (x := 8556839292003942 / 2 ^ 53 * n) (by omega)
    (by linarith) (by linarith)
  rw [ceilMul_eq toDouble_nineteenTwentieths (by omega) hz, hceil, eq_comm, Int.ceil_eq_iff]
  push_cast
  constructor <;> linarith

/-- 0.10 is too large, at a whole rank by less than half a place. -/
theorem toDouble_wholeTenth {m : ℕ} (hm0 : m ≠ 0) (hm : m < 2 ^ 48) :
    toDouble (7205759403792794 / 2 ^ 56 * (10 * m : ℕ)) = .fin m := by
  have hlow := Nat.pow_log_le_self 2 hm0
  have hhigh := Nat.lt_pow_succ_log_self (by norm_num : 1 < 2) m
  generalize Nat.log 2 m = l at hlow hhigh
  have hl : l < 48 := by
    by_contra hge
    have hpow : 2 ^ 48 ≤ 2 ^ l := Nat.pow_le_pow_right (by norm_num) (by omega)
    omega
  have hlow' : (2 : ℚ) ^ l ≤ m := by exact_mod_cast hlow
  have hhigh' : (m : ℚ) + 1 ≤ 2 ^ (l + 1) := by exact_mod_cast hhigh
  have hm' : (m : ℚ) < 2 ^ 48 := by exact_mod_cast hm
  have hx : (7205759403792794 / 2 ^ 56 * (10 * m : ℕ) : ℚ) = m + m / 2 ^ 54 := by
    push_cast
    ring
  have hsmall : (m : ℚ) / 2 ^ 54 < 1 := by
    rw [div_lt_one (by positivity)]
    linarith
  have hunit : (2 : ℚ) ^ ((l : ℤ) - 52) = (2 ^ (52 - l))⁻¹ := by
    rw [← zpow_natCast, ← zpow_neg]
    congr 1
    omega
  have hnext : (2 : ℚ) ^ ((l : ℤ) + 1) = 2 ^ (l + 1) := by
    rw [← zpow_natCast]
    push_cast
    rfl
  have hne : (2 : ℚ) ^ (52 - l) ≠ 0 := by positivity
  -- `m` is below twice the power of two that its last place is taken from
  have hδ : (m : ℚ) / 2 ^ 54 * 2 ^ (52 - l) < 1 / 2 := by
    have hsplit : (1 / 2 : ℚ) * 2 ^ 54 = 2 ^ (52 - l) * 2 ^ (l + 1) := by
      rw [← pow_add, show 52 - l + (l + 1) = 53 by omega]
      norm_num
    rw [div_mul_eq_mul_div, div_lt_iff₀ (by positivity), hsplit, mul_comm]
    exact mul_lt_mul_of_pos_left (by linarith) (by positivity)
  have hq : (7205759403792794 / 2 ^ 56 * (10 * m : ℕ) : ℚ) =
      (((m * 2 ^ (52 - l) : ℕ) : ℤ) + m / 2 ^ 54 * 2 ^ (52 - l)) * 2 ^ ((l : ℤ) - 52) := by
    rw [hx, hunit]
    push_cast
    field_simp
  have hstart : (2 : ℚ) ^ (l : ℤ) ≤ 7205759403792794 / 2 ^ 56 * (10 * m : ℕ) := by
    rw [hx, zpow_natCast]
    exact hlow'.trans (le_add_of_nonneg_right (by positivity))
  have hend : (7205759403792794 / 2 ^ 56 * (10 * m : ℕ) : ℚ) < 2 ^ ((l : ℤ) + 1) := by
    rw [hx, hnext]
    linarith
  have hover : (7205759403792794 / 2 ^ 56 * (10 * m : ℕ) : ℚ) < overflowBound := by
    refine lt_overflowBound ?_
    rw [hx]
    linarith
  rw [toDouble_eq (by omega) hover hstart hend hq (by positivity) hδ, hunit]
  push_cast
  field_simp

theorem ceilMul_tenth (hn : n < 2 ^ 48) : ceilMul (1 / 10) n = ⌈(1 / 10 : ℚ) * n⌉ := by
  rcases Nat.eq_zero_or_pos n with rfl | hpos
  · exact ceilMul_zero toDouble_tenth
  obtain ⟨m, r, hr10, rfl⟩ : ∃ m r : ℕ, r < 10 ∧ n = 10 * m + r :=
    ⟨n / 10, n % 10, by omega, by omega⟩
  rcases Nat.eq_zero_or_pos r with rfl | hr
  · rw [Nat.add_zero] at hn ⊢
    rw [ceilMul_eq toDouble_tenth (by omega) (toDouble_wholeTenth (by omega) (by omega))]
    congr 1
    push_cast
    ring
  · have hr' : (1 : ℚ) ≤ r := by exact_mod_cast hr
    have hr9 : (r : ℚ) ≤ 9 := by exact_mod_cast (show r ≤ 9 by omega)
    have hm' : (m : ℚ) < 2 ^ 48 := by exact_mod_cast (show m < 2 ^ 48 by omega)
    have h0 : (0 : ℚ) ≤ m := Nat.cast_nonneg m
    obtain ⟨z, hz, hceil⟩ := ceil_toDouble (m := m)
      (x := 7205759403792794 / 2 ^ 56 * (10 * m + r : ℕ)) (by omega)
      (by push_cast; linarith) (by push_cast; linarith)
    rw [ceilMul_eq toDouble_tenth (by omega) hz, hceil, eq_comm, Int.ceil_eq_iff]
    push_cast
    constructor <;> linarith

end UmansGate.Lib
