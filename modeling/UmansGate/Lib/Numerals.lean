/-
UmansGate.Lib.Numerals — decimal numerals read as doubles.

A numeral is read as the double nearest to its number
(`numberOf_indexKey`), and rounding keeps the order (`toDouble_le`): two
numerals are read in their order or as the same double, from 2^53 on also
where they differ (`order_toDouble`).
-/
import UmansGate.Lib.JsNumber

namespace UmansGate.Lib

/-! ## Rounding keeps the order -/

theorem roundEven_le {n : Int} {q : ℚ} (h : q ≤ n) : roundEven q ≤ n := by
  unfold roundEven
  split
  · exact_mod_cast (Int.floor_le q).trans h
  · rename_i hup
    rw [not_or] at hup
    have hlt : q ≠ n := by
      rintro rfl
      exact hup.1 (by simp)
    have hfloor : ⌊q⌋ < n := Int.floor_lt.mpr (lt_of_le_of_ne h hlt)
    omega

theorem roundEven_mono {q r : ℚ} (h : q ≤ r) : roundEven q ≤ roundEven r := by
  rcases (Int.floor_le_floor h).lt_or_eq with hlt | heq
  · have hq : roundEven q ≤ ⌊q⌋ + 1 := roundEven_le (by exact_mod_cast (Int.lt_floor_add_one q).le)
    have hr : ⌊r⌋ ≤ roundEven r := le_roundEven (Int.floor_le r)
    omega
  · -- over one floor the greater fraction is rounded up whenever the lesser is
    unfold roundEven
    rw [heq]
    have hfraction : q - ⌊r⌋ ≤ r - ⌊r⌋ := by linarith
    split
    · split <;> omega
    · rename_i hup
      rw [if_neg]
      intro hdown
      apply hup
      rcases hdown with hdown | ⟨hhalf, heven⟩
      · exact .inl (lt_of_le_of_lt hfraction hdown)
      · rcases hfraction.lt_or_eq with hlt | heq'
        · exact .inl (by linarith)
        · exact .inr ⟨by linarith, heven⟩

theorem lastPlace_mono {q r : ℚ} (hq : 0 < q) (h : q ≤ r) : lastPlace q ≤ lastPlace r := by
  have hlog : Int.log 2 |q| ≤ Int.log 2 |r| := by
    rw [abs_of_pos hq, abs_of_pos (hq.trans_le h)]
    exact Int.log_mono_right hq h
  unfold lastPlace
  omega

/-- Between two places there is a power of two, and rounding does not cross it. -/
theorem rounded_le_of_lastPlace_lt {q r : ℚ} (hq : 0 < q) (hr : 0 < r)
    (h : lastPlace q < lastPlace r) :
    (roundEven (q / 2 ^ lastPlace q) : ℚ) * 2 ^ lastPlace q ≤
      roundEven (r / 2 ^ lastPlace r) * 2 ^ lastPlace r := by
  obtain ⟨k, hk⟩ := Int.eq_ofNat_of_zero_le (Int.sub_nonneg.mpr h.le)
  have hpos : ∀ e : Int, (0 : ℚ) < 2 ^ e := fun e => zpow_pos (by norm_num) e
  have hplace : lastPlace r = Int.log 2 r - 52 := by
    have hlow : -1074 ≤ lastPlace q := le_max_left _ _
    have hmax : lastPlace r = max (-1074) (Int.log 2 r - 52) := by rw [lastPlace, abs_of_pos hr]
    omega
  have hqlog : Int.log 2 q < lastPlace r + 52 := by
    have hmax : Int.log 2 q - 52 ≤ lastPlace q := by
      rw [lastPlace, abs_of_pos hq]
      exact le_max_right _ _
    omega
  have hqle : q ≤ 2 ^ (lastPlace r + 52) := by
    have hlt := (Int.lt_zpow_iff_log_lt (b := 2) (by norm_num) hq).mpr hqlog
    exact_mod_cast hlt.le
  have hrle : (2 : ℚ) ^ (lastPlace r + 52) ≤ r := by
    have hle := Int.zpow_log_le_self (b := 2) (r := r) (by norm_num) hr
    rw [hplace, sub_add_cancel]
    exact_mod_cast hle
  have hfirst : roundEven (q / 2 ^ lastPlace q) ≤ 2 ^ (k + 52) := by
    refine roundEven_le ?_
    rw [div_le_iff₀ (hpos _)]
    refine hqle.trans (le_of_eq ?_)
    push_cast
    rw [← zpow_natCast, ← zpow_add₀ (by norm_num)]
    congr 1
    push_cast
    omega
  have hsecond : 2 ^ 52 ≤ roundEven (r / 2 ^ lastPlace r) := by
    refine le_roundEven ?_
    rw [le_div_iff₀ (hpos _)]
    refine le_trans (le_of_eq ?_) hrle
    push_cast
    rw [zpow_add₀ (by norm_num), mul_comm]
    norm_num
  calc (roundEven (q / 2 ^ lastPlace q) : ℚ) * 2 ^ lastPlace q
      ≤ 2 ^ (k + 52) * 2 ^ lastPlace q :=
        mul_le_mul_of_nonneg_right (by exact_mod_cast hfirst) (hpos _).le
    _ = 2 ^ 52 * 2 ^ lastPlace r := by
        have hsum : lastPlace r = k + lastPlace q := by omega
        rw [hsum, zpow_add₀ (by norm_num), zpow_natCast, pow_add]
        ring
    _ ≤ roundEven (r / 2 ^ lastPlace r) * 2 ^ lastPlace r :=
        mul_le_mul_of_nonneg_right (by exact_mod_cast hsecond) (hpos _).le

theorem rounded_le {q r : ℚ} (hq : 0 < q) (h : q ≤ r) :
    (roundEven (q / 2 ^ lastPlace q) : ℚ) * 2 ^ lastPlace q ≤
      roundEven (r / 2 ^ lastPlace r) * 2 ^ lastPlace r := by
  rcases (lastPlace_mono hq h).lt_or_eq with hlt | heq
  · exact rounded_le_of_lastPlace_lt hq (hq.trans_le h) hlt
  · have hpos : (0 : ℚ) < 2 ^ lastPlace r := zpow_pos (by norm_num) _
    rw [heq]
    refine mul_le_mul_of_nonneg_right ?_ hpos.le
    exact_mod_cast roundEven_mono (div_le_div_of_nonneg_right h hpos.le)

theorem overflowBound_pos : 0 < overflowBound :=
  lt_of_lt_of_le (by norm_num) (two_pow_le_overflowBound (k := 0) (by norm_num))

theorem toDouble_of_pos {q : ℚ} (hq : 0 < q) (h : q < overflowBound) :
    toDouble q = .fin (roundEven (q / 2 ^ lastPlace q) * 2 ^ lastPlace q) := by
  have hneg : ¬ q ≤ -overflowBound := by linarith [overflowBound_pos]
  rw [toDouble, if_neg (not_le.mpr h), if_neg hneg]

theorem toDouble_zero : toDouble 0 = .fin 0 := by
  have h := toDouble_exact (n := 0) (by norm_num) (by norm_num)
  exact_mod_cast h

theorem toDouble_le {q r : ℚ} (hq : 0 ≤ q) (h : q ≤ r) : (toDouble q).le (toDouble r) = true := by
  have hne : toDouble q ≠ .nan := by
    unfold toDouble
    split
    · simp
    · split <;> simp
  by_cases hover : overflowBound ≤ r
  · rw [show toDouble r = .posInf from if_pos hover]
    cases hx : toDouble q with
    | nan => exact absurd hx hne
    | _ => rfl
  have hlt := not_le.mp hover
  rcases hq.lt_or_eq with hpos | rfl
  · rw [toDouble_of_pos hpos (h.trans_lt hlt), toDouble_of_pos (hpos.trans_le h) hlt,
      Num.le_fin_fin, decide_eq_true_eq]
    exact rounded_le hpos h
  · rw [toDouble_zero]
    rcases h.lt_or_eq with hpos | rfl
    · rw [toDouble_of_pos hpos hlt, Num.le_fin_fin, decide_eq_true_eq]
      have hplace : (0 : ℚ) < 2 ^ lastPlace r := zpow_pos (by norm_num) _
      refine mul_nonneg ?_ hplace.le
      have hround : (0 : Int) ≤ roundEven (r / 2 ^ lastPlace r) :=
        le_roundEven (by exact_mod_cast (div_pos hpos hplace).le)
      exact_mod_cast hround
    · rw [toDouble_zero]
      rfl

/-! ## The order of two readings -/

namespace Num

variable {α : Type} [LinearOrder α]

/-- Which of `x < y` and `x > y` holds; NaN is apart from nothing. -/
def order (x y : Num α) : Ordering := if x.lt y then .lt else if y.lt x then .gt else .eq

@[simp] theorem order_nan_left (x : Num α) : order nan x = .eq := by simp [order]

@[simp] theorem order_nan_right (x : Num α) : order x nan = .eq := by simp [order]

theorem lt_asymm {x y : Num α} (h : x.lt y = true) : y.lt x = false := by
  cases x <;> cases y <;> simp_all [lt, le_of_lt]

theorem order_self (x : Num α) : order x x = .eq := by
  have hlt : x.lt x = false := by cases x <;> simp [lt]
  simp [order, hlt]

theorem order_swap (x y : Num α) : order y x = (order x y).swap := by
  unfold order
  by_cases hxy : x.lt y = true
  · rw [lt_asymm hxy, if_neg Bool.false_ne_true, if_pos hxy, if_pos hxy]
    rfl
  · rw [if_neg hxy]
    split <;> rfl

theorem order_eq_lt_iff {x y : Num α} : order x y = .lt ↔ x.lt y = true := by
  unfold order
  cases x.lt y with
  | true => simp
  | false => cases y.lt x <;> simp

theorem lt_of_le_of_ne {x y : Num α} (hle : x.le y = true) (hne : x ≠ y) : x.lt y = true := by
  cases x <;> cases y <;> simp_all [le, lt, LE.le.lt_of_ne]

end Num

theorem toDouble_natCast {n : ℕ} (h : n < 2 ^ 53) : toDouble (n : ℚ) = .fin n := by
  have hexact := @toDouble_exact (n : Int) (by omega) (by omega)
  exact_mod_cast hexact

/-- Two numbers are read in their order or as one double. -/
theorem order_toDouble (m n : ℕ) :
    toDouble m = toDouble n ∨ (toDouble (m : ℚ)).order (toDouble n) = compare m n := by
  have hlt : ∀ {k l : ℕ}, k < l → toDouble (k : ℚ) ≠ toDouble l →
      (toDouble (k : ℚ)).lt (toDouble l) = true := fun hkl hne =>
    Num.lt_of_le_of_ne (toDouble_le (by positivity) (by exact_mod_cast hkl.le)) hne
  by_cases heq : toDouble (m : ℚ) = toDouble n
  · exact .inl heq
  · refine .inr ?_
    rcases lt_trichotomy m n with h | rfl | h
    · rw [Nat.compare_eq_lt.mpr h, Num.order, if_pos (hlt h heq)]
    · exact absurd rfl heq
    · rw [Nat.compare_eq_gt.mpr h, Num.order_swap, Num.order, if_pos (hlt h (Ne.symm heq))]
      rfl

theorem order_toDouble_eq_iff {m n : ℕ} :
    (toDouble (m : ℚ)).order (toDouble n) = .eq ↔ toDouble (m : ℚ) = toDouble n := by
  constructor
  · intro heq
    rcases order_toDouble m n with h | h
    · exact h
    · rw [h, Nat.compare_eq_eq] at heq
      rw [heq]
  · intro heq
    rw [heq, Num.order_self]

/-! ## Numerals -/

open Json

theorem isDigit_of_mem_indexKey {n : ℕ} {u : UInt16} (h : u ∈ indexKey n) : isDigit u = true := by
  rw [indexKey_eq] at h
  obtain ⟨c, hc, rfl⟩ := List.mem_map.mp h
  have hdigit := toNat_of_mem_toDigits hc
  have hunit : c.toNat.toUInt16.toNat = c.toNat := by
    simp only [Nat.toUInt16, UInt16.toNat_ofNat']
    omega
  simp only [isDigit, Bool.and_eq_true, decide_eq_true_eq, UInt16.le_iff_toNat_le, hunit]
  exact hdigit

theorem indexKey_ne_nil (n : ℕ) : indexKey n ≠ [] := by
  rw [indexKey_eq]
  simp [Nat.toDigits_ne_nil]

/-- Units are read as the characters that they are made of. -/
theorem foldl_digits {cs : List Char} (hcs : ∀ c ∈ cs, c.toNat ≤ 57) (k : ℕ) :
    (cs.map fun c => c.toNat.toUInt16).foldl (fun n u => 10 * n + (u.toNat - 48)) k =
      Nat.ofDigitChars 10 cs k := by
  induction cs generalizing k with
  | nil => rfl
  | cons c cs ih =>
    obtain ⟨hc, hcs⟩ := List.forall_mem_cons.mp hcs
    have hunit : c.toNat.toUInt16.toNat = c.toNat := by
      simp only [Nat.toUInt16, UInt16.toNat_ofNat']
      omega
    rw [List.map_cons, List.foldl_cons, hunit, ih hcs]
    rfl

theorem digitsValue_indexKey (n : ℕ) : digitsValue (indexKey n) = n := by
  rw [digitsValue, indexKey_eq, foldl_digits fun c hc => (toNat_of_mem_toDigits hc).2]
  exact Nat.ofDigitChars_toDigits (by decide) (by decide)

theorem dropWhile_isSpaceUnit {s : JsString} (h : ∀ u ∈ s, isSpaceUnit u = false) :
    s.dropWhile isSpaceUnit = s := by
  cases s with
  | nil => rfl
  | cons u s => rw [List.dropWhile_cons_of_neg (by simp [h u List.mem_cons_self])]

theorem trim_of_forall {s : JsString} (h : ∀ u ∈ s, isSpaceUnit u = false) : trim s = s := by
  rw [trim, dropWhile_isSpaceUnit h,
    dropWhile_isSpaceUnit fun u hu => h u (List.mem_reverse.mp hu), List.reverse_reverse]

theorem isSpaceUnit_of_isDigit {u : UInt16} (h : isDigit u = true) : isSpaceUnit u = false := by
  simp only [isDigit, Bool.and_eq_true, decide_eq_true_eq, UInt16.le_iff_toNat_le] at h
  have h48 : (48 : UInt16).toNat = 48 := rfl
  have h57 : (57 : UInt16).toNat = 57 := rfl
  rw [h48, h57] at h
  simp only [isSpaceUnit, UInt16.le_iff_toNat_le, ← UInt16.toNat_inj, UInt16.reduceToNat,
    Bool.or_eq_false_iff, Bool.and_eq_false_iff, decide_eq_false_iff_not]
  omega

/-- Digits with nothing or with a hyphen behind them. -/
theorem decimalNumber_append {ds t : JsString} (hds : ∀ u ∈ ds, isDigit u = true) (hne : ds ≠ [])
    (ht : t = [] ∨ t.head? = some 45) :
    decimalNumber (ds ++ t) = if t = [] then toDouble (digitsValue ds) else .nan := by
  have hinfinity : ds ++ t ≠ js "Infinity" := by
    intro heq
    cases ds with
    | nil => exact hne rfl
    | cons u ds =>
      have hu : u = 73 := (List.cons_eq_cons.mp heq).1
      exact absurd (hds u List.mem_cons_self) (by rw [hu]; decide)
  have htake : (ds ++ t).takeWhile isDigit = ds := by
    rw [List.takeWhile_append_of_pos hds]
    rcases ht with rfl | ht
    · simp
    · cases t with
      | nil => simp
      | cons v t =>
        obtain rfl : v = 45 := by simpa using ht
        rw [List.takeWhile_cons_of_neg (by decide), List.append_nil]
  have hdrop : (ds ++ t).dropWhile isDigit = t := by
    rw [List.dropWhile_append_of_pos hds]
    rcases ht with rfl | ht
    · rfl
    · cases t with
      | nil => rfl
      | cons v t =>
        obtain rfl : v = 45 := by simpa using ht
        rw [List.dropWhile_cons_of_neg (by decide)]
  have hpoint : t.head? ≠ some 46 := by
    rcases ht with rfl | ht
    · simp
    · simp [ht]
  rw [decimalNumber, if_neg hinfinity]
  simp only [htake, hdrop, if_neg hpoint]
  rcases ht with rfl | ht
  · simp [readExponent, hne]
  · cases t with
    | nil => simp at ht
    | cons v t =>
      obtain rfl : v = 45 := by simpa using ht
      simp [readExponent]

/-- A numeral is the double nearest to its number; with a hyphen behind it,
it is no number. -/
theorem numberOf_append {ds t : JsString} (hds : ∀ u ∈ ds, isDigit u = true) (hne : ds ≠ [])
    (ht : t = [] ∨ t.head? = some 45) (hspace : ∀ u ∈ t, isSpaceUnit u = false) :
    numberOf (ds ++ t) = if t = [] then toDouble (digitsValue ds) else .nan := by
  have htrim : trim (ds ++ t) = ds ++ t := by
    refine trim_of_forall fun u hu => ?_
    rcases List.mem_append.mp hu with hu | hu
    · exact isSpaceUnit_of_isDigit (hds u hu)
    · exact hspace u hu
  have hdecimal := decimalNumber_append hds hne ht
  cases ds with
  | nil => exact absurd rfl hne
  | cons u ds =>
    have hu := hds u List.mem_cons_self
    have hplus : u ≠ 43 := by rintro rfl; exact absurd hu (by decide)
    have hminus : u ≠ 45 := by rintro rfl; exact absurd hu (by decide)
    rw [List.cons_append] at htrim hdecimal ⊢
    rw [numberOf, htrim]
    simp only [if_neg hplus, if_neg hminus]
    split
    · rename_i hzero
      subst hzero
      split
      · rename_i hrest
        obtain ⟨rfl, rfl⟩ := List.append_eq_nil_iff.mp hrest
        rw [if_pos rfl]
        exact toDouble_zero.symm
      · -- what stands behind a leading zero is a digit or the hyphen
        rename_i v rest hrest
        have hv : isDigit v = true ∨ v = 45 := by
          cases ds with
          | nil =>
            rcases ht with rfl | ht
            · simp at hrest
            · refine .inr ?_
              rw [List.nil_append] at hrest
              rw [hrest] at ht
              simpa using ht
          | cons w ds =>
            obtain rfl : w = v := (List.cons_eq_cons.mp hrest).1
            exact .inl (hds w (by simp))
        have hradix : ∀ w : UInt16, isDigit w = false → w ≠ 45 → v ≠ w := by
          rintro w hw hw45 rfl
          rcases hv with hv | hv
          · exact absurd hv (by simp [hw])
          · exact hw45 hv
        have hhex : ¬ (v = 120 ∨ v = 88) :=
          not_or.mpr ⟨hradix 120 (by decide) (by decide), hradix 88 (by decide) (by decide)⟩
        have hoctal : ¬ (v = 111 ∨ v = 79) :=
          not_or.mpr ⟨hradix 111 (by decide) (by decide), hradix 79 (by decide) (by decide)⟩
        have hbinary : ¬ (v = 98 ∨ v = 66) :=
          not_or.mpr ⟨hradix 98 (by decide) (by decide), hradix 66 (by decide) (by decide)⟩
        rw [if_neg hhex, if_neg hoctal, if_neg hbinary, ← hdecimal, hrest]
    · exact hdecimal

theorem numberOf_indexKey (n : ℕ) : numberOf (indexKey n) = toDouble n := by
  have h := @numberOf_append (indexKey n) [] (fun u hu => isDigit_of_mem_indexKey hu)
    (indexKey_ne_nil n) (.inl rfl) (by simp)
  rwa [List.append_nil, if_pos rfl, digitsValue_indexKey] at h

theorem numberOf_indexKey_hyphen (n : ℕ) {t : JsString} (ht : ∀ u ∈ t, isSpaceUnit u = false) :
    numberOf (indexKey n ++ 45 :: t) = .nan := by
  rw [numberOf_append (fun u hu => isDigit_of_mem_indexKey hu) (indexKey_ne_nil n) (.inr rfl)
    (List.forall_mem_cons.mpr ⟨by decide, ht⟩), if_neg (List.cons_ne_nil 45 t)]

end UmansGate.Lib
