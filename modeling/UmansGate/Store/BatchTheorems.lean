/-
UmansGate.Store.BatchTheorems — a batch accounts what its captures account
one after the other.

Both ways attribute the same captures, in a different order (`Accounts.perm`),
and charge them at the same prices. On one row of `daily_usage` a charge is
`chargeRow`, and two charges to one row go to the same model, so that they
have the same flag and can be made in either order (`chargeRow_right_comm`).
-/
import Mathlib.Data.List.Nodup
import UmansGate.Store.AccountingTheorems
import UmansGate.Store.PricingTheorems

namespace UmansGate.Store

open UmansGate.Lib

/-! ## Charges to one row -/

/-- What a charge does to the row of `key`. -/
def chargeRow (key : String × String) (row : Option DailyUsage) (x : Charge) : Option DailyUsage :=
  if x.1.key = key then
    some (match row with
      | none => x.row
      | some row => row.accumulate x.row)
  else row

theorem get?_charge (d : Dict (String × String) DailyUsage) (x : Charge)
    (key : String × String) : (charge d x).get? key = chargeRow key (d.get? key) x := by
  unfold charge chargeRow
  rw [Dict.get?_set]
  by_cases h : x.1.key = key
  · cases hrow : d.get? key with
    | none => simp [h, hrow]
    | some row => simp [h, hrow]
  · rw [if_neg h, if_neg h]

theorem get?_foldl_charge (xs : List Charge) (d : Dict (String × String) DailyUsage)
    (key : String × String) :
    (xs.foldl charge d).get? key = xs.foldl (chargeRow key) (d.get? key) := by
  induction xs generalizing d with
  | nil => rfl
  | cons x xs ih => rw [List.foldl_cons, ih, get?_charge, List.foldl_cons]

theorem UsageCounts.add_comm (a b : UsageCounts) : a + b = b + a := by
  ext <;> exact Int.add_comm _ _

theorem UsageCosts.add_comm (a b : UsageCosts) : a + b = b + a := by
  ext <;> exact Rat.add_comm _ _

namespace DailyUsage

/-- A row is its counts, its costs and its flag. -/
theorem accumulate_eq (row excluded : DailyUsage) : row.accumulate excluded =
    { toUsageCounts := row.toUsageCounts + excluded.toUsageCounts
      toUsageCosts := row.toUsageCosts + excluded.toUsageCosts
      pricingKnown := excluded.pricingKnown } := rfl

variable {row a b : DailyUsage}

theorem accumulate_comm (h : a.pricingKnown = b.pricingKnown) :
    a.accumulate b = b.accumulate a := by
  rw [accumulate_eq, accumulate_eq, UsageCounts.add_comm, UsageCosts.add_comm, h]

theorem accumulate_right_comm (h : a.pricingKnown = b.pricingKnown) :
    (row.accumulate a).accumulate b = (row.accumulate b).accumulate a := by
  simp only [accumulate_eq, UsageCounts.add_assoc, UsageCosts.add_assoc, h]
  rw [UsageCounts.add_comm a.toUsageCounts, UsageCosts.add_comm a.toUsageCosts]

end DailyUsage

/-- Charges at one price are made in either order. -/
theorem chargeRow_right_comm {x y : Charge} (h : x.1.key = y.1.key → x.2 = y.2)
    (key : String × String) (row : Option DailyUsage) :
    chargeRow key (chargeRow key row x) y = chargeRow key (chargeRow key row y) x := by
  by_cases hx : x.1.key = key
  · by_cases hy : y.1.key = key
    · have hknown : x.row.pricingKnown = y.row.pricingKnown := by
        rw [Charge.row, Charge.row, h (hx.trans hy.symm)]
      cases row with
      | none => simp only [chargeRow, if_pos hx, if_pos hy, DailyUsage.accumulate_comm hknown]
      | some row =>
        simp only [chargeRow, if_pos hx, if_pos hy, DailyUsage.accumulate_right_comm hknown]
    · simp only [chargeRow, if_pos hx, if_neg hy]
  · simp only [chargeRow, if_neg hx]

variable {clock : Clock} {e e' e₁ e₂ : Economics} {ids : List ℕ}
  {new new' new₁ new₂ : List Attribution}

/-- The order of the contributions does not matter to a row. -/
theorem get?_foldl_charge_perm (h : new.Perm new') (key : String × String) :
    ((e.charges new).foldl charge e.dailyUsage).get? key =
      ((e.charges new').foldl charge e.dailyUsage).get? key := by
  rw [get?_foldl_charge, get?_foldl_charge]
  refine (h.map _).foldl_eq' (fun x hx y hy row => ?_) _
  obtain ⟨a, -, rfl⟩ := List.mem_map.mp hx
  obtain ⟨b, -, rfl⟩ := List.mem_map.mp hy
  refine chargeRow_right_comm (fun hkey => ?_) key row
  have hmodel : a.model = b.model := congrArg Prod.snd hkey
  exact congrArg e.getPricing hmodel

/-! ## Batches -/

/-- A call attributes the unaccounted captures that need accounting. -/
theorem Accounts.perm_unaccounted (h : Accounts clock ids new e e') :
    new.Perm (((e.unaccounted ids).filter fun r => r.2.needsAccounting).map fun r =>
      r.2.attribution clock r.1) := by
  have hnodup : (((e.unaccounted ids).filter fun r => r.2.needsAccounting).map fun r =>
      r.2.attribution clock r.1).Nodup := by
    refine List.Nodup.of_map Attribution.id ?_
    rw [List.map_map]
    exact (nodup_unaccounted e ids).sublist (List.filter_sublist.map Prod.fst)
  refine (List.perm_ext_iff_of_nodup (List.Nodup.of_map _ h.nodup) hnodup).mpr fun a => ?_
  rw [h.mem, List.mem_map]
  constructor
  · rintro ⟨hid, c, hget, hacc, hneeds, ha⟩
    refine ⟨(a.id, c), List.mem_filter.mpr ⟨?_, hneeds⟩, ha.symm⟩
    exact mem_unaccounted.mpr ⟨hid, hget, hacc⟩
  · rintro ⟨⟨id, c⟩, hmem, rfl⟩
    obtain ⟨hmem, hneeds⟩ := List.mem_filter.mp hmem
    obtain ⟨hid, hget, hacc⟩ := mem_unaccounted.mp hmem
    exact ⟨hid, c, hget, hacc, hneeds, rfl⟩

/-- What is attributed depends on the ids alone, up to its order. -/
theorem Accounts.perm (h₁ : Accounts clock ids new₁ e e₁) (h₂ : Accounts clock ids new₂ e e₂) :
    new₁.Perm new₂ :=
  h₁.perm_unaccounted.trans h₂.perm_unaccounted.symm

/-- The charges of a call are its attributions. -/
theorem Accounts.daily (h : Accounts clock ids new e e') (hc : Charges e e' new') :
    e'.dailyUsage = (e.charges new).foldl charge e.dailyUsage := by
  have hnew : new = new' := List.append_cancel_left (h.attributed.symm.trans hc.attributed)
  rw [hnew]
  exact hc.daily

/-- A batch leaves the daily totals and the flags of its captures as the
calls for one capture after the other leave them. -/
theorem accountCapturesUsage_eq_foldl (e : Economics) (clock : Clock) (ids : List ℕ) :
    let batch := e.accountCapturesUsage clock ids
    let single := ids.foldl (fun e id => e.accountCaptureUsage clock id) e
    (∀ key, batch.dailyUsage.get? key = single.dailyUsage.get? key) ∧
      batch.captures = single.captures := by
  intro batch single
  obtain ⟨new₁, h₁⟩ := accounts_accountCapturesUsage clock e ids
  obtain ⟨new₂, h₂⟩ := accounts_foldl clock ids e
  obtain ⟨new₁', hc₁⟩ := charges_accountCapturesUsage clock e ids
  obtain ⟨new₂', hc₂⟩ := charges_foldl clock ids e
  refine ⟨fun key => ?_, h₁.captures.trans h₂.captures.symm⟩
  rw [h₁.daily hc₁, h₂.daily hc₂]
  exact get?_foldl_charge_perm (h₁.perm h₂) key

end UmansGate.Store
