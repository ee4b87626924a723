/-
UmansGate.Lib.SqlSelect — `LIKE` and the sums of groups.

`LIKE` compares letters of the ASCII range without case. A pattern of other
characters with a `%` behind them is a test for a prefix
(`sqlLike_append_percent`). What is summed by groups adds up to the whole:
by the keys of a list (`sum_partitions`), or by `GROUP BY` (`sum_groupBy`).
-/
import Mathlib
import UmansGate.Lib.Sql

namespace UmansGate.Lib

/-! ## Patterns -/

/-- `text LIKE pattern`. -/
def sqlLike : List Char → List Char → Bool
  | [], text => text.isEmpty
  | c :: pattern, text =>
    if c = '%' then text.tails.any (sqlLike pattern)
    else
      match text with
      | [] => false
      | d :: text => (c = '_' || c.toLower = d.toLower) && sqlLike pattern text

/-- The character stands for itself in a pattern. -/
def plain (c : Char) : Bool := c ≠ '%' && c ≠ '_' && !c.isAlpha

theorem toNat_toLower (c : Char) : c.toLower.toNat =
    if 65 ≤ c.toNat ∧ c.toNat ≤ 90 then c.toNat + 32 else c.toNat := by
  unfold Char.toLower
  split
  · rename_i h
    have hrange : 65 ≤ c.toNat ∧ c.toNat ≤ 90 := by
      simpa [UInt32.le_iff_toNat_le, ge_iff_le] using h
    rw [if_pos hrange]
    change (c.val + 32).toNat = c.val.toNat + 32
    rw [UInt32.toNat_add]
    have hval : c.val.toNat ≤ 90 := hrange.2
    simp only [UInt32.reduceToNat]
    omega
  · rename_i h
    have hrange : ¬ (65 ≤ c.toNat ∧ c.toNat ≤ 90) := by
      simpa [UInt32.le_iff_toNat_le, ge_iff_le] using h
    rw [if_neg hrange]

/-- A character outside the two ranges of letters. -/
theorem isAlpha_eq_false_iff {c : Char} : c.isAlpha = false ↔
    ¬ (65 ≤ c.toNat ∧ c.toNat ≤ 90) ∧ ¬ (97 ≤ c.toNat ∧ c.toNat ≤ 122) := by
  simp only [Char.isAlpha, Char.isUpper, Char.isLower, UInt32.le_iff_toNat_le, Bool.or_eq_false_iff,
    ge_iff_le, decide_eq_false_iff_not, ← Bool.decide_and]
  rfl

theorem eq_of_toLower {c d : Char} (hc : c.isAlpha = false) (h : c.toLower = d.toLower) :
    c = d := by
  have hnat := congrArg Char.toNat h
  rw [toNat_toLower, toNat_toLower] at hnat
  have hrange := isAlpha_eq_false_iff.mp hc
  refine Char.ext (UInt32.toNat_inj.mp ?_)
  change c.toNat = d.toNat
  rw [if_neg hrange.1] at hnat
  split at hnat
  · omega
  · exact hnat

theorem sqlLike_percent (text : List Char) : sqlLike ['%'] text = true := by
  simp only [sqlLike, if_pos, List.any_eq_true]
  exact ⟨[], (List.mem_tails _ _).mpr List.nil_suffix, rfl⟩

theorem sqlLike_append_percent {p : List Char} (hp : ∀ c ∈ p, plain c) (text : List Char) :
    sqlLike (p ++ ['%']) text = p.isPrefixOf text := by
  induction p generalizing text with
  | nil => simp [sqlLike_percent]
  | cons c p ih =>
    obtain ⟨hc, hp⟩ := List.forall_mem_cons.mp hp
    simp only [plain, Bool.and_eq_true, decide_eq_true_eq, Bool.not_eq_true'] at hc
    obtain ⟨⟨hpercent, hunderscore⟩, halpha⟩ := hc
    cases text with
    | nil => simp [sqlLike, hpercent]
    | cons d text =>
      have hchar : (c.toLower = d.toLower) ↔ c = d :=
        ⟨eq_of_toLower halpha, fun h => h ▸ rfl⟩
      simp [sqlLike, hpercent, hunderscore, hchar, ih hp, List.isPrefixOf, beq_eq_decide]

/-! ## Sums -/

variable {α κ M : Type} [AddCommMonoid M]

theorem sum_map_flatMap (f : α → M) (ls : κ → List α) (ks : List κ) :
    (ks.map fun k => ((ls k).map f).sum).sum = ((ks.flatMap ls).map f).sum := by
  induction ks with
  | nil => simp
  | cons k ks ih => simp [ih]

variable [DecidableEq κ]

/-- The sums over the parts of a list add up to its sum. -/
theorem sum_partitions {part : α → κ} {ks : List κ} (hks : ks.Nodup) (f : α → M) {l : List α}
    (hcover : ∀ a ∈ l, part a ∈ ks) :
    (ks.map fun k => ((l.filter fun a => part a = k).map f).sum).sum = (l.map f).sum := by
  rw [sum_map_flatMap]
  refine ((flatMap_filter_perm hks l).map f).sum_eq.trans ?_
  rw [List.filter_eq_self.mpr fun a ha => decide_eq_true (hcover a ha)]

theorem sum_groupBy (key : α → κ) (f : α → M) (l : List α) :
    ((groupBy key l).map fun g => (g.2.map f).sum).sum = (l.map f).sum := by
  rw [groupBy, List.map_map]
  exact sum_partitions (List.nodup_dedup _) f fun a ha =>
    List.mem_dedup.mpr (List.mem_map_of_mem ha)

end UmansGate.Lib
