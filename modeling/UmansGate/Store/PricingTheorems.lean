/-
UmansGate.Store.PricingTheorems — what the daily costs are made of.

`pricing_known` is one flag for a row that several captures share, and
three statements write it. The upsert of the accounting assigns it the flag
of the model: a seed price takes it back (`seed_price_unfreezes`), and a
price that has just become known sets it over tokens that were accounted
at no cost (`unpriced_tokens_stay_free`). The update of the backfill sets
it to 1, whatever happened to the row since it was selected.

Every accounting call is a fold of upserts (`Charges`), so its effect on a
row is a sum of charges.
-/
import Mathlib.Tactic.Ring
import UmansGate.Store.Pricing

namespace UmansGate.Store

open UmansGate.Lib

/-! ## Charges -/

/-- The row that the upsert of a charge inserts. -/
def Charge.row (x : Charge) : DailyUsage where
  toUsageCounts := x.1.counts
  toUsageCosts := x.1.counts.costs x.2
  pricingKnown := knownFlag x.2

/-- The upsert of a charge. -/
def charge (d : Dict (String × String) DailyUsage) (x : Charge) :
    Dict (String × String) DailyUsage :=
  d.set x.1.key
    (match d.get? x.1.key with
     | none => x.row
     | some row => row.accumulate x.row)

/-- The cost of the charges to one row. -/
def costOf (key : String × String) : List Charge → UsageCosts
  | [] => 0
  | x :: xs => (if x.1.key = key then x.1.counts.costs x.2 else 0) + costOf key xs

theorem costOf_append (key : String × String) (xs ys : List Charge) :
    costOf key (xs ++ ys) = costOf key xs + costOf key ys := by
  induction xs with
  | nil => exact (UsageCosts.zero_add _).symm
  | cons x xs ih => rw [List.cons_append, costOf, costOf, ih, UsageCosts.add_assoc]

theorem costs_add (a b : UsageCounts) (pricing : Option PricingRow) :
    (a + b).costs pricing = a.costs pricing + b.costs pricing := by
  have hcounts : ∀ f : UsageCounts → Int, (∀ a b : UsageCounts, f (a + b) = f a + f b) →
      ((f (a + b) : Int) : ℚ) = f a + f b := by
    intro f hf
    rw [hf]
    push_cast
    rfl
  have hinput := hcounts UsageCounts.inputTokens fun _ _ => rfl
  have houtput := hcounts UsageCounts.outputTokens fun _ _ => rfl
  have hread := hcounts UsageCounts.cacheReadTokens fun _ _ => rfl
  have hcreation := hcounts UsageCounts.cacheCreationTokens fun _ _ => rfl
  simp only [UsageCounts.costs, hinput, houtput, hread, hcreation]
  ext
  · change _ = _ + _
    ring
  · change _ = _ + _
    ring
  · change _ = _ + _
    ring
  · change _ = _ + _
    ring
  · change _ = _ + _
    ring

theorem costs_zero (pricing : Option PricingRow) : (0 : UsageCounts).costs pricing = 0 := by
  change UsageCounts.costs ⟨0, 0, 0, 0, 0, 0⟩ pricing = ⟨0, 0, 0, 0, 0⟩
  simp [UsageCounts.costs]

/-- The costs of a row; a row that is not there costs nothing. -/
def rowCosts (d : Dict (String × String) DailyUsage) (key : String × String) : UsageCosts :=
  ((d.get? key).map DailyUsage.toUsageCosts).getD 0

theorem rowCosts_charge (d : Dict (String × String) DailyUsage) (x : Charge)
    (key : String × String) : rowCosts (charge d x) key = rowCosts d key + costOf key [x] := by
  simp only [rowCosts, charge, Dict.get?_set, costOf, UsageCosts.add_zero]
  by_cases h : x.1.key = key
  · rw [if_pos h, if_pos h, h]
    cases d.get? key with
    | none => exact (UsageCosts.zero_add _).symm
    | some row => rfl
  · rw [if_neg h, if_neg h, UsageCosts.add_zero]

theorem rowCosts_foldl (xs : List Charge) (d : Dict (String × String) DailyUsage)
    (key : String × String) :
    rowCosts (xs.foldl charge d) key = rowCosts d key + costOf key xs := by
  induction xs generalizing d with
  | nil => exact (UsageCosts.add_zero _).symm
  | cons x xs ih =>
    rw [List.foldl_cons, ih, rowCosts_charge, UsageCosts.add_assoc, ← costOf_append]
    rfl

theorem get?_foldl_charge_of_ne {xs : List Charge} {d : Dict (String × String) DailyUsage}
    {key : String × String} (h : ∀ x ∈ xs, x.1.key ≠ key) :
    (xs.foldl charge d).get? key = d.get? key := by
  induction xs generalizing d with
  | nil => rfl
  | cons x xs ih =>
    rw [List.foldl_cons, ih fun y hy => h y (List.mem_cons_of_mem x hy), charge, Dict.get?_set,
      if_neg (h x List.mem_cons_self)]

theorem get?_foldl_charge_ne_none {xs : List Charge} {d : Dict (String × String) DailyUsage}
    {key : String × String} (h : d.get? key ≠ none ∨ ∃ x ∈ xs, x.1.key = key) :
    (xs.foldl charge d).get? key ≠ none := by
  induction xs generalizing d with
  | nil => exact h.resolve_right (by simp)
  | cons x xs ih =>
    refine ih ?_
    by_cases hx : x.1.key = key
    · left
      rw [charge, hx, Dict.get?_set_self]
      exact Option.some_ne_none _
    · rw [charge, Dict.get?_set, if_neg hx]
      rcases h with h | ⟨y, hy, hkey⟩
      · exact .inl h
      · rcases List.mem_cons.mp hy with rfl | hy
        · exact absurd hkey hx
        · exact .inr ⟨y, hy, hkey⟩

/-- A charged row has the flag of its model. -/
theorem pricingKnown_foldl_charge {xs : List Charge} {d : Dict (String × String) DailyUsage}
    {key : String × String} {known : Int} {row : DailyUsage}
    (hflag : ∀ x ∈ xs, x.1.key = key → knownFlag x.2 = known)
    (hd : (∃ x ∈ xs, x.1.key = key) ∨ ∀ row, d.get? key = some row → row.pricingKnown = known)
    (h : (xs.foldl charge d).get? key = some row) : row.pricingKnown = known := by
  induction xs generalizing d with
  | nil => exact hd.resolve_left (by simp) row h
  | cons x xs ih =>
    refine ih (fun y hy => hflag y (List.mem_cons_of_mem x hy)) ?_ h
    by_cases hx : x.1.key = key
    · right
      intro row' hrow'
      rw [charge, Dict.get?_set, if_pos hx] at hrow'
      rw [← Option.some.inj hrow', ← hflag x List.mem_cons_self hx]
      cases d.get? x.1.key with
      | none => rfl
      | some _ => rfl
    · rcases hd with ⟨y, hy, hkey⟩ | hd
      · rcases List.mem_cons.mp hy with rfl | hy
        · exact absurd hkey hx
        · exact .inl ⟨y, hy, hkey⟩
      · right
        intro row' hrow'
        rw [charge, Dict.get?_set, if_neg hx] at hrow'
        exact hd row' hrow'

theorem nodup_foldl_charge {xs : List Charge} {d : Dict (String × String) DailyUsage}
    (h : d.keys.Nodup) : (xs.foldl charge d).keys.Nodup := by
  induction xs generalizing d with
  | nil => exact h
  | cons x xs ih => exact ih (Dict.nodup_keys_set h _ _)

/-! ## The accounting functions charge -/

namespace Economics

/-- The charges of these contributions at the prices in force. -/
def charges (e : Economics) (new : List Attribution) : List Charge :=
  new.map fun a => (a, e.getPricing a.model)

@[simp] theorem charges_append (e : Economics) (new new' : List Attribution) :
    e.charges (new ++ new') = e.charges new ++ e.charges new' := List.map_append

@[simp] theorem charges_fst (e : Economics) (new : List Attribution) :
    (e.charges new).map Prod.fst = new := by
  simp [charges, Function.comp_def]

end Economics

/-- From `e` to `e'` the contributions `new` were charged. -/
structure Charges (e e' : Economics) (new : List Attribution) : Prop where
  pricing : e'.modelPricing = e.modelPricing
  attributed : e'.attributed = e.attributed ++ new
  daily : e'.dailyUsage = (e.charges new).foldl charge e.dailyUsage

variable {e e' e'' : Economics} {new new' : List Attribution} {clock : Clock} {ids : List ℕ}

theorem Charges.refl (e : Economics) : Charges e e [] :=
  ⟨rfl, (List.append_nil _).symm, rfl⟩

theorem Charges.trans (h : Charges e e' new) (h' : Charges e' e'' new') :
    Charges e e'' (new ++ new') := by
  have hprices : e'.charges new' = e.charges new' := by
    simp only [Economics.charges, Economics.getPricing, h.pricing]
  constructor
  · rw [h'.pricing, h.pricing]
  · rw [h'.attributed, h.attributed, List.append_assoc]
  · rw [h'.daily, hprices, h.daily, Economics.charges_append, List.foldl_append]

theorem Charges.mark (h : Charges e e' new) (ids : List ℕ) :
    Charges e (e'.markAccounted ids) new :=
  ⟨h.pricing, h.attributed, h.daily⟩

theorem charges_accountCaptureUsage (clock : Clock) (e : Economics) (id : ℕ) :
    ∃ new, Charges e (e.accountCaptureUsage clock id) new := by
  unfold Economics.accountCaptureUsage
  split
  · exact ⟨[], Charges.refl e⟩
  · rename_i c _
    split
    · have hupsert : Charges e (e.upsertUsage clock (e.getPricing (c.model.getD "")) id c)
          [c.attribution clock id] := ⟨rfl, rfl, rfl⟩
      exact ⟨_, hupsert.mark [id]⟩
    · exact ⟨[], (Charges.refl e).mark [id]⟩

theorem charges_foldl_upsertUsage (clock : Clock) (rows : Dict ℕ CaptureColumns)
    (e e' : Economics) (he : e'.modelPricing = e.modelPricing) : ∃ new, Charges e'
      (rows.foldl (fun (e' : Economics) r =>
        e'.upsertUsage clock (e.getPricing (r.2.model.getD "")) r.1 r.2) e') new := by
  induction rows generalizing e' with
  | nil => exact ⟨[], Charges.refl e'⟩
  | cons r rows ih =>
    have hupsert : Charges e' (e'.upsertUsage clock (e.getPricing (r.2.model.getD "")) r.1 r.2)
        [r.2.attribution clock r.1] := by
      refine ⟨rfl, rfl, ?_⟩
      simp only [Economics.charges, Economics.getPricing, he]
      rfl
    obtain ⟨new, hrest⟩ :=
      ih (e'.upsertUsage clock (e.getPricing (r.2.model.getD "")) r.1 r.2) he
    exact ⟨_, hupsert.trans hrest⟩

theorem charges_accountCapturesUsage (clock : Clock) (e : Economics) (ids : List ℕ) :
    ∃ new, Charges e (e.accountCapturesUsage clock ids) new := by
  simp only [Economics.accountCapturesUsage]
  split
  · exact ⟨[], Charges.refl e⟩
  · split
    · exact ⟨[], Charges.refl e⟩
    · obtain ⟨new, h⟩ := charges_foldl_upsertUsage clock
        ((e.unaccounted ids).filter fun r => r.2.needsAccounting) e e rfl
      exact ⟨new, h.mark _⟩

theorem charges_foldl (clock : Clock) (ids : List ℕ) (e : Economics) :
    ∃ new, Charges e (ids.foldl (fun e id => e.accountCaptureUsage clock id) e) new := by
  induction ids generalizing e with
  | nil => exact ⟨[], Charges.refl e⟩
  | cons id ids ih =>
    obtain ⟨new₁, h₁⟩ := charges_accountCaptureUsage clock e id
    obtain ⟨new₂, h₂⟩ := ih (e.accountCaptureUsage clock id)
    exact ⟨new₁ ++ new₂, h₁.trans h₂⟩

theorem charges_backfillFromCaptures (clock : Clock) (e : Economics) :
    ∃ new, Charges e (e.backfillFromCaptures clock) new :=
  charges_foldl clock e.backfillIds e

/-! ## The other statements -/

namespace Economics

theorem dailyUsage_syncModels (e : Economics) (models : List ModelEntry) :
    (e.syncModels models).dailyUsage = e.dailyUsage := by
  have hmodel : ∀ (e : Economics) (model : ModelEntry),
      (e.syncModel model).dailyUsage = e.dailyUsage := by
    intro e model
    unfold syncModel
    split
    · rfl
    · simp only
      split
      · rfl
      · rfl
  unfold syncModels
  induction models generalizing e with
  | nil => rfl
  | cons model models ih => exact (ih _).trans (hmodel e model)

theorem dailyUsage_seedPricing (e : Economics) : e.seedPricing.dailyUsage = e.dailyUsage := by
  unfold seedPricing
  split
  · exact List.foldlRecOn (motive := fun e' : Economics => e'.dailyUsage = e.dailyUsage)
      SEED_PRICING _ rfl fun _ h _ _ => h
  · rfl

/-- An update prices the row it names. -/
theorem get?_updatePriced (e : Economics) (row : UnpricedRow) (key : String × String) :
    (e.updatePriced row).dailyUsage.get? key =
      if row.1 = key then (e.dailyUsage.get? key).map fun r =>
        { r with toUsageCosts := row.2.1.costs (some row.2.2), pricingKnown := 1 }
      else e.dailyUsage.get? key := by
  unfold updatePriced
  by_cases h : row.1 = key
  · rw [if_pos h, ← h]
    split
    · rename_i hnone
      rw [hnone]
      rfl
    · rename_i r hsome
      rw [hsome]
      exact Dict.get?_set_self _ _ _
  · rw [if_neg h]
    split
    · rfl
    · exact (Dict.get?_set _ _ _ _).trans (if_neg h)

/-- The rows that are not selected stay. -/
theorem get?_updateUnpriced_of_ne {rows : List UnpricedRow} {key : String × String}
    (h : ∀ row ∈ rows, row.1 ≠ key) (e : Economics) :
    (e.updateUnpriced rows).dailyUsage.get? key = e.dailyUsage.get? key := by
  induction rows generalizing e with
  | nil => rfl
  | cons row rows ih =>
    refine (ih (fun r hr => h r (List.mem_cons_of_mem row hr)) _).trans ?_
    rw [get?_updatePriced, if_neg (h row List.mem_cons_self)]

/-- The rows that are selected are priced by what was selected. -/
theorem get?_updateUnpriced {rows : List UnpricedRow} (hnodup : (rows.map Prod.fst).Nodup)
    {row : UnpricedRow} (hrow : row ∈ rows) (e : Economics) :
    (e.updateUnpriced rows).dailyUsage.get? row.1 = (e.dailyUsage.get? row.1).map fun r =>
      { r with toUsageCosts := row.2.1.costs (some row.2.2), pricingKnown := 1 } := by
  induction rows generalizing e with
  | nil => exact absurd hrow List.not_mem_nil
  | cons row' rows ih =>
    obtain ⟨hfresh, hnodup⟩ := List.nodup_cons.mp hnodup
    rcases List.mem_cons.mp hrow with rfl | hrow
    · have hrest : ∀ r ∈ rows, r.1 ≠ row.1 :=
        fun r hr heq => hfresh (heq ▸ List.mem_map_of_mem hr)
      refine (get?_updateUnpriced_of_ne hrest (e.updatePriced row)).trans ?_
      rw [get?_updatePriced, if_pos rfl]
    · refine (ih hnodup hrow _).trans ?_
      have hne : row'.1 ≠ row.1 := fun heq => hfresh (heq ▸ List.mem_map_of_mem hrow)
      rw [get?_updatePriced, if_neg hne]

theorem nodup_updateUnpriced {rows : List UnpricedRow} {e : Economics}
    (h : e.dailyUsage.keys.Nodup) : (e.updateUnpriced rows).dailyUsage.keys.Nodup := by
  induction rows generalizing e with
  | nil => exact h
  | cons row rows ih =>
    refine ih ?_
    unfold updatePriced
    split
    · exact h
    · exact Dict.nodup_keys_set h _ _

/-- The keys of the rows that are selected. -/
theorem keys_selected_sublist (e : Economics) (d : Dict (String × String) DailyUsage) :
    ((d.filterMap fun r : (String × String) × DailyUsage =>
      if r.2.pricingKnown = 0 then
        (e.getPricing r.1.2).map fun p => (r.1, r.2.toUsageCounts, p)
      else none).map Prod.fst).Sublist d.keys := by
  induction d with
  | nil => exact List.Sublist.refl _
  | cons r d ih =>
    rw [List.filterMap_cons]
    split
    · exact ih.cons _
    · rename_i row hrow
      split at hrow
      · obtain ⟨p, -, rfl⟩ := Option.map_eq_some_iff.mp hrow
        exact ih.cons_cons _
      · cases hrow

theorem nodup_selectUnpriced {e : Economics} (h : e.dailyUsage.keys.Nodup) :
    (e.selectUnpriced.map Prod.fst).Nodup :=
  h.sublist (keys_selected_sublist e e.dailyUsage)

end Economics

/-! ## Steps -/

namespace PriceLog

variable {s : PriceLog} {key : String × String}

/-- The ids that a call accounts, and its clock. -/
def accounts (s : PriceLog) : PriceOp → Option (List ℕ × Clock)
  | .accountCaptureUsage id clock => some ([id], clock)
  | .accountCapturesUsage ids clock => some (ids, clock)
  | .backfillFromCaptures clock => some (s.e.backfillIds, clock)
  | _ => none

/-- The call accounts this contribution. -/
def Accounted (s : PriceLog) (op : PriceOp) (a : Attribution) : Prop :=
  ∃ ids clock, s.accounts op = some (ids, clock) ∧ a.id ∈ ids ∧
    ∃ c, s.e.captures.get? a.id = some c ∧ c.usageAccounted = false ∧
      c.needsAccounting = true ∧ a = c.attribution clock a.id

/-- What an accounting call does to the log. -/
theorem account_effect {op : PriceOp} (h : s.accounts op ≠ none) :
    ∃ e' new, s.step op = { s with
        e := e', charged := s.charged ++ s.e.charges new, priced := s.priced ++ s.e.charges new } ∧
      Charges s.e e' new ∧ (∀ a, a ∈ new ↔ s.Accounted op a) ∧
      ∀ key, e'.counts key = s.e.counts key + totalOf key new := by
  have haccount : ∀ {e' new}, Charges s.e e' new → s.account e' = { s with
      e := e', charged := s.charged ++ s.e.charges new, priced := s.priced ++ s.e.charges new } := by
    intro e' new hcharges
    rw [account, hcharges.attributed, List.drop_left]
    rfl
  -- both relations speak of the same contributions
  have hmem : ∀ {e' ids clock new new'}, s.accounts op = some (ids, clock) →
      Charges s.e e' new → Accounts clock ids new' s.e e' →
      (∀ a, a ∈ new ↔ s.Accounted op a) ∧
        ∀ key, e'.counts key = s.e.counts key + totalOf key new := by
    intro e' ids clock new new' hop hcharges haccounts
    have hnew : new = new' :=
      List.append_cancel_left (hcharges.attributed.symm.trans haccounts.attributed)
    rw [hnew]
    refine ⟨fun a => ?_, haccounts.counts⟩
    rw [haccounts.mem]
    constructor
    · rintro ⟨hid, hc⟩
      exact ⟨ids, clock, hop, hid, hc⟩
    · rintro ⟨ids', clock', hop', hid, hc⟩
      rw [hop] at hop'
      cases hop'
      exact ⟨hid, hc⟩
  cases op with
  | accountCaptureUsage id clock =>
    obtain ⟨new, hcharges⟩ := charges_accountCaptureUsage clock s.e id
    obtain ⟨_, haccounts⟩ := accounts_accountCaptureUsage clock s.e id
    exact ⟨_, new, haccount hcharges, hcharges, hmem rfl hcharges haccounts⟩
  | accountCapturesUsage ids clock =>
    obtain ⟨new, hcharges⟩ := charges_accountCapturesUsage clock s.e ids
    obtain ⟨_, haccounts⟩ := accounts_accountCapturesUsage clock s.e ids
    exact ⟨_, new, haccount hcharges, hcharges, hmem rfl hcharges haccounts⟩
  | backfillFromCaptures clock =>
    obtain ⟨new, hcharges⟩ := charges_backfillFromCaptures clock s.e
    obtain ⟨_, haccounts⟩ := accounts_backfillFromCaptures clock s.e
    exact ⟨_, new, haccount hcharges, hcharges, hmem rfl hcharges haccounts⟩
  | seedPricing | syncModels | selectUnpriced | updateUnpriced | crash | writeCaptures =>
    exact absurd rfl h

/-! ## The freeze -/

/-- The step takes the flag of a priced row back, or prices it again: it
accounts usage of a model without a known price into it, or a backfill
selected it before it was priced. -/
def Unfreezes (s : PriceLog) (op : PriceOp) : Prop :=
  (∃ a row, s.Accounted op a ∧ s.e.dailyUsage.get? a.key = some row ∧ row.pricingKnown = 1 ∧
    knownFlag (s.e.getPricing a.model) ≠ 1) ∨
  ∃ row ∈ s.selected, op = .updateUnpriced ∧
    ∃ r, s.e.dailyUsage.get? row.1 = some r ∧ r.pricingKnown = 1

/-- A priced row that is charged stays priced. -/
theorem frozen_step {op : PriceOp} (hop : ¬ s.Unfreezes op) {row : DailyUsage}
    (hrow : s.e.dailyUsage.get? key = some row) (hknown : row.pricingKnown = 1) :
    ∃ new row', (s.step op).charged = s.charged ++ new ∧
      (s.step op).e.dailyUsage.get? key = some row' ∧ row'.pricingKnown = 1 ∧
      row'.toUsageCosts = row.toUsageCosts + costOf key new := by
  have hkeep : ∀ {t : PriceLog}, t.charged = s.charged →
      t.e.dailyUsage.get? key = s.e.dailyUsage.get? key →
      ∃ new row', t.charged = s.charged ++ new ∧ t.e.dailyUsage.get? key = some row' ∧
        row'.pricingKnown = 1 ∧ row'.toUsageCosts = row.toUsageCosts + costOf key new := by
    intro t hcharged hdaily
    exact ⟨[], row, hcharged.trans (List.append_nil _).symm, hdaily.trans hrow, hknown,
      (UsageCosts.add_zero _).symm⟩
  have haccount : s.accounts op ≠ none →
      ∃ new row', (s.step op).charged = s.charged ++ new ∧
        (s.step op).e.dailyUsage.get? key = some row' ∧ row'.pricingKnown = 1 ∧
        row'.toUsageCosts = row.toUsageCosts + costOf key new := by
    intro hsome
    obtain ⟨e', new, hstep, hcharges, hmem, -⟩ := account_effect hsome
    have hthere : e'.dailyUsage.get? key ≠ none := by
      rw [hcharges.daily]
      exact get?_foldl_charge_ne_none (.inl (by simp [hrow]))
    obtain ⟨row', hrow'⟩ := Option.ne_none_iff_exists'.mp hthere
    refine ⟨s.e.charges new, row', by rw [hstep], by rw [hstep]; exact hrow', ?_, ?_⟩
    · rw [hcharges.daily] at hrow'
      refine pricingKnown_foldl_charge (fun x hx hkey => ?_) (.inr fun r hr => ?_) hrow'
      · obtain ⟨a, ha, rfl⟩ := List.mem_map.mp hx
        by_contra hflag
        rw [← hkey] at hrow
        exact hop (.inl ⟨a, row, (hmem a).mp ha, hrow, hknown, hflag⟩)
      · rw [hrow] at hr
        rw [← Option.some.inj hr]
        exact hknown
    · have hcosts := rowCosts_foldl (s.e.charges new) s.e.dailyUsage key
      rw [← hcharges.daily, rowCosts, rowCosts, hrow', hrow] at hcosts
      exact hcosts
  cases op with
  | accountCaptureUsage id clock => exact haccount (Option.some_ne_none _)
  | accountCapturesUsage ids clock => exact haccount (Option.some_ne_none _)
  | backfillFromCaptures clock => exact haccount (Option.some_ne_none _)
  | seedPricing => exact hkeep rfl (by rw [step, Economics.dailyUsage_seedPricing])
  | syncModels models => exact hkeep rfl (by rw [step, Economics.dailyUsage_syncModels])
  | selectUnpriced => exact hkeep rfl rfl
  | updateUnpriced =>
    refine hkeep rfl (Economics.get?_updateUnpriced_of_ne (fun r hr heq => ?_) s.e)
    rw [← heq] at hrow
    exact hop (.inr ⟨r, hr, rfl, row, hrow, hknown⟩)
  | crash => exact hkeep rfl rfl
  | writeCaptures captures => exact hkeep rfl rfl

/-- From `s` to `t` every priced row stays priced, and its costs grow by
exactly what was charged to it, each charge at the price in force when it
was accounted. -/
def Frozen (s t : PriceLog) : Prop :=
  ∀ key row, s.e.dailyUsage.get? key = some row → row.pricingKnown = 1 →
    ∃ new row', t.charged = s.charged ++ new ∧ t.e.dailyUsage.get? key = some row' ∧
      row'.pricingKnown = 1 ∧ row'.toUsageCosts = row.toUsageCosts + costOf key new

/-- From any state, over every run whose steps neither take the flag of a
priced row back nor price it again, the costs are frozen. -/
theorem frozen_of_not_unfreezes (s : PriceLog) (ops : List PriceOp)
    (hops : StepsMeet step (fun s op => ¬ s.Unfreezes op) s ops) :
    s.Frozen (Lib.run step s ops) := by
  intro key row hrow hknown
  induction ops generalizing s row with
  | nil =>
    exact ⟨[], row, (List.append_nil _).symm, hrow, hknown, (UsageCosts.add_zero _).symm⟩
  | cons op ops ih =>
    obtain ⟨new₁, row₁, hcharged₁, hrow₁, hknown₁, hcosts₁⟩ := frozen_step hops.1 hrow hknown
    obtain ⟨new₂, row₂, hcharged₂, hrow₂, hknown₂, hcosts₂⟩ := ih _ hops.2 row₁ hrow₁ hknown₁
    refine ⟨new₁ ++ new₂, row₂, ?_, hrow₂, hknown₂, ?_⟩
    · rw [run_cons, hcharged₂, hcharged₁, List.append_assoc]
    · rw [hcosts₂, hcosts₁, costOf_append, UsageCosts.add_assoc]

/-- A capture of one million input tokens on the first day. -/
def million (model : String) : CaptureColumns where
  startedAt := some ⟨0, epoch_inRange⟩
  model := some model
  inputTokens := some 1000000
  usageMissing := some false

def twoCaptures (model : String) : Table CaptureColumns :=
  (Table.empty.insert (million model)).insert (million model)

def epoch : Clock := fun _ => ⟨0, epoch_inRange⟩

/-- A run that prices the first capture. -/
def pricedOnce (modelPricing : Dict String PricingRow) (model : String)
    (ops : List PriceOp) : PriceLog :=
  Lib.run step (PriceLog.new (twoCaptures model) modelPricing)
    (.seedPricing :: .accountCaptureUsage 1 epoch :: ops)

/-- The first capture of a model with a known price. -/
def knownPrice : PriceLog :=
  pricedOnce [("m", ⟨2, 4, 1, 1⟩)] "m" []

/-- The second capture, and a sync that raises the price. -/
def priceRise : List PriceOp :=
  [.accountCaptureUsage 2 epoch, .syncModels [⟨"m", some ⟨3, 4⟩⟩], .selectUnpriced,
    .updateUnpriced]

/-- The first capture keeps its price. -/
theorem price_rise_frozen : knownPrice.Frozen (Lib.run step knownPrice priceRise) := by
  refine frozen_of_not_unfreezes knownPrice priceRise ⟨?_, ?_, ?_, ?_, trivial⟩
  · rintro (⟨a, row, ⟨ids, clock, hids, hid, c, hc, -, -, ha⟩, -, -, hflag⟩ | ⟨row, -, hop, -⟩)
    · cases hids
      have hcapture : knownPrice.e.captures.get? 2 = some (million "m") := by decide +kernel
      rw [List.mem_singleton.mp hid, hcapture] at hc
      cases hc
      have hmodel : a.model = "m" := congrArg Attribution.model ha
      rw [hmodel] at hflag
      exact hflag (by decide +kernel)
    · cases hop
  · rintro (⟨a, row, ⟨ids, clock, hids, -⟩, -⟩ | ⟨row, -, hop, -⟩)
    · cases hids
    · cases hop
  · rintro (⟨a, row, ⟨ids, clock, hids, -⟩, -⟩ | ⟨row, -, hop, -⟩)
    · cases hids
    · cases hop
  · rintro (⟨a, row, ⟨ids, clock, hids, -⟩, -⟩ | ⟨row, hselected, -, -⟩)
    · cases hids
    · have hnone : (Lib.run step knownPrice (priceRise.take 3)).selected = [] := by
        decide +kernel
      exact absurd (hnone ▸ hselected) List.not_mem_nil

/-- A seed price and a sync without the model price the row of the first
capture. -/
def seedPrice : PriceLog :=
  pricedOnce [] "umans-coder" [.syncModels [], .selectUnpriced, .updateUnpriced]

/-- The second capture takes the flag back, and a sync with the model
prices both. -/
def reprised : List PriceOp :=
  [.accountCaptureUsage 2 epoch, .syncModels [⟨"umans-coder", some ⟨2, 4⟩⟩], .selectUnpriced,
    .updateUnpriced]

/-- The row cost 0.95 and was charged 0.95 more; it costs 4. -/
theorem seed_price_unfreezes :
    seedPrice.e.dailyUsage.get? ("1970-01-01", "umans-coder") =
        some ⟨⟨1, 1000000, 0, 0, 0, 0⟩, ⟨95 / 100, 0, 0, 0, 95 / 100⟩, 1⟩ ∧
      (Lib.run step seedPrice reprised).e.dailyUsage.get? ("1970-01-01", "umans-coder") =
        some ⟨⟨2, 2000000, 0, 0, 0, 0⟩, ⟨4, 0, 0, 0, 4⟩, 1⟩ ∧
      ¬ seedPrice.Frozen (Lib.run step seedPrice reprised) := by
  have hbefore : seedPrice.e.dailyUsage.get? ("1970-01-01", "umans-coder") =
      some ⟨⟨1, 1000000, 0, 0, 0, 0⟩, ⟨95 / 100, 0, 0, 0, 95 / 100⟩, 1⟩ := by decide +kernel
  have hafter : (Lib.run step seedPrice reprised).e.dailyUsage.get?
      ("1970-01-01", "umans-coder") =
        some ⟨⟨2, 2000000, 0, 0, 0, 0⟩, ⟨4, 0, 0, 0, 4⟩, 1⟩ := by decide +kernel
  refine ⟨hbefore, hafter, fun h => ?_⟩
  obtain ⟨new, row', hcharged, hrow', -, hcosts⟩ := h _ _ hbefore rfl
  have hnew : (Lib.run step seedPrice reprised).charged = seedPrice.charged ++
      [(⟨2, "1970-01-01", "umans-coder", ⟨1, 1000000, 0, 0, 0, 0⟩⟩,
        some ⟨95 / 100, 4, 19 / 100, 0⟩)] := by decide +kernel
  rw [List.append_cancel_left (hcharged.symm.trans hnew)] at hcosts
  cases hafter.symm.trans hrow'
  exact absurd hcosts (by decide +kernel)

/-! ## Fully priced rows -/

/-- The price was known: it was synced, or it is a seed price and these
count as known. -/
def Known (seeds : Bool) (pricing : Option PricingRow) : Prop :=
  ∃ p, pricing = some p ∧ (p.pricingKnown = 1 ∨ seeds = true)

theorem Known.of_flag {seeds : Bool} {pricing : Option PricingRow} (h : knownFlag pricing = 1) :
    Known seeds pricing := by
  cases pricing with
  | none => exact absurd h (by decide)
  | some p => exact ⟨p, rfl, .inl h⟩

/-- A row that is marked as priced costs what its contributions cost, each
at a price that was known. -/
def FullyPriced (seeds : Bool) (s : PriceLog) : Prop :=
  ∀ key row, s.e.dailyUsage.get? key = some row → row.pricingKnown = 1 →
    row.toUsageCosts = costOf key s.priced ∧ ∀ x ∈ s.priced, x.1.key = key → Known seeds x.2

/-- The step marks a row as priced that is not: it accounts usage at a known
price into a row with contributions that had none, or a backfill prices a
row by a price that is not known or by tokens that are not the row's any
more. -/
def Underprices (seeds : Bool) (s : PriceLog) (op : PriceOp) : Prop :=
  (∃ a x, s.Accounted op a ∧ knownFlag (s.e.getPricing a.model) = 1 ∧
    x ∈ s.priced ∧ x.1.key = a.key ∧ ¬ Known seeds x.2) ∨
  ∃ row ∈ s.selected, op = .updateUnpriced ∧ (¬ Known seeds (some row.2.2) ∨
    ∃ r, s.e.dailyUsage.get? row.1 = some r ∧
      r.toUsageCounts.costs (some row.2.2) ≠ row.2.1.costs (some row.2.2))

variable {seeds : Bool}

/-- Every row counts and costs what was contributed to it. -/
structure Balanced (seeds : Bool) (s : PriceLog) : Prop where
  nodup : s.e.dailyUsage.keys.Nodup
  selected : (s.selected.map Prod.fst).Nodup
  counts : ∀ key, s.e.counts key = totalOf key (s.priced.map Prod.fst)
  costs : ∀ key, rowCosts s.e.dailyUsage key = costOf key s.priced
  there : ∀ x ∈ s.priced, s.e.dailyUsage.get? x.1.key ≠ none
  known : ∀ key row, s.e.dailyUsage.get? key = some row → row.pricingKnown = 1 →
    ∀ x ∈ s.priced, x.1.key = key → Known seeds x.2

theorem Balanced.fullyPriced (h : s.Balanced seeds) : s.FullyPriced seeds := by
  intro key row hrow hknown
  have hcosts := h.costs key
  rw [rowCosts, hrow] at hcosts
  exact ⟨hcosts, h.known key row hrow hknown⟩

/-- The steps that leave the totals and the contributions alone. -/
theorem Balanced.congr (h : s.Balanced seeds) {t : PriceLog}
    (hdaily : t.e.dailyUsage = s.e.dailyUsage) (hpriced : t.priced = s.priced)
    (hselected : (t.selected.map Prod.fst).Nodup) : t.Balanced seeds := by
  constructor
  · rw [hdaily]
    exact h.nodup
  · exact hselected
  · rw [hpriced]
    intro key
    rw [Economics.counts, hdaily]
    exact h.counts key
  · rw [hdaily, hpriced]
    exact h.costs
  · rw [hdaily, hpriced]
    exact h.there
  · rw [hdaily, hpriced]
    exact h.known

theorem Balanced.account (h : s.Balanced seeds) {op : PriceOp} (hsome : s.accounts op ≠ none)
    (hop : ¬ s.Underprices seeds op) : (s.step op).Balanced seeds := by
  obtain ⟨e', new, hstep, hcharges, hmem, hcounts⟩ := account_effect hsome
  rw [hstep]
  constructor
  · rw [hcharges.daily]
    exact nodup_foldl_charge h.nodup
  · exact h.selected
  · intro key
    rw [hcounts, h.counts, List.map_append, Economics.charges_fst, totalOf_append]
  · intro key
    rw [hcharges.daily, rowCosts_foldl, h.costs, costOf_append]
  · intro x hx
    rw [hcharges.daily]
    rcases List.mem_append.mp hx with hx | hx
    · exact get?_foldl_charge_ne_none (.inl (h.there x hx))
    · exact get?_foldl_charge_ne_none (.inr ⟨x, hx, rfl⟩)
  · intro key row hrow hknown x hx hkey
    rw [hcharges.daily] at hrow
    by_cases hcharged : ∃ a ∈ new, a.key = key
    · -- the row has the flag of its model, so the price of the model is known
      obtain ⟨a, ha, hakey⟩ := hcharged
      have hmodel : ∀ b : Attribution, b.key = key → b.model = a.model :=
        fun b hb => congrArg Prod.snd (hb.trans hakey.symm)
      have hflag : knownFlag (s.e.getPricing a.model) = 1 := by
        rw [← hknown]
        refine (pricingKnown_foldl_charge (fun y hy hykey => ?_) (.inl ?_) hrow).symm
        · obtain ⟨b, -, rfl⟩ := List.mem_map.mp hy
          rw [hmodel b hykey]
        · exact ⟨_, List.mem_map_of_mem ha, hakey⟩
      rcases List.mem_append.mp hx with hx | hx
      · by_contra hunknown
        exact hop (.inl ⟨a, x, (hmem a).mp ha, hflag, hx, hkey.trans hakey.symm, hunknown⟩)
      · obtain ⟨b, -, rfl⟩ := List.mem_map.mp hx
        rw [hmodel b hkey]
        exact Known.of_flag hflag
    · have hne : ∀ y ∈ s.e.charges new, y.1.key ≠ key := by
        intro y hy heq
        obtain ⟨b, hb, rfl⟩ := List.mem_map.mp hy
        exact hcharged ⟨b, hb, heq⟩
      rw [get?_foldl_charge_of_ne hne] at hrow
      rcases List.mem_append.mp hx with hx | hx
      · exact h.known key row hrow hknown x hx hkey
      · exact absurd hkey (hne x hx)

@[simp] theorem reprice_fst (rows : List UnpricedRow) (x : Charge) :
    (reprice rows x).1 = x.1 := by
  unfold reprice
  split
  · rfl
  · rfl

/-- The cost of contributions priced anew is the cost of their sum. -/
theorem costOf_reprice {rows : List UnpricedRow} {counts : UsageCounts} {p : PricingRow}
    (hrow : Dict.get? rows key = some (counts, p)) (xs : List Charge) :
    costOf key (xs.map (reprice rows)) = (totalOf key (xs.map Prod.fst)).costs (some p) := by
  induction xs with
  | nil => exact (costs_zero _).symm
  | cons x xs ih =>
    rw [List.map_cons, costOf, ih, List.map_cons, totalOf, costs_add]
    congr 1
    by_cases hx : x.1.key = key
    · simp only [reprice, hx, hrow, if_true]
    · rw [reprice_fst, if_neg hx, if_neg hx, costs_zero]

/-- The contributions to a row that is not selected keep their price. -/
theorem costOf_reprice_of_none {rows : List UnpricedRow} (hrow : Dict.get? rows key = none)
    (xs : List Charge) : costOf key (xs.map (reprice rows)) = costOf key xs := by
  induction xs with
  | nil => rfl
  | cons x xs ih =>
    rw [List.map_cons, costOf, ih, costOf]
    congr 1
    by_cases hx : x.1.key = key
    · simp only [reprice, hx, hrow]
    · rw [reprice_fst, if_neg hx, if_neg hx]

/-- What the backfill makes of a row. -/
theorem get?_backfill (h : s.Balanced seeds) (key : String × String) :
    (s.step .updateUnpriced).e.dailyUsage.get? key =
      match Dict.get? s.selected key with
      | none => s.e.dailyUsage.get? key
      | some (counts, p) => (s.e.dailyUsage.get? key).map fun r =>
        { r with toUsageCosts := counts.costs (some p), pricingKnown := 1 } := by
  cases hsel : Dict.get? s.selected key with
  | none =>
    refine Economics.get?_updateUnpriced_of_ne (fun row hrow heq => ?_) s.e
    have hmem : key ∈ Dict.keys s.selected := heq ▸ List.mem_map_of_mem hrow
    exact Dict.get?_ne_none_of_mem hmem hsel
  | some row =>
    have hrow := Dict.mem_of_get? hsel
    exact Economics.get?_updateUnpriced h.selected hrow s.e

theorem Balanced.backfill (h : s.Balanced seeds) (hop : ¬ s.Underprices seeds .updateUnpriced) :
    (s.step .updateUnpriced).Balanced seeds := by
  have hfst : (s.priced.map (reprice s.selected)).map Prod.fst = s.priced.map Prod.fst := by
    simp [Function.comp_def]
  constructor
  · exact Economics.nodup_updateUnpriced h.nodup
  · exact List.nodup_nil
  · intro key
    change _ = totalOf key ((s.priced.map (reprice s.selected)).map Prod.fst)
    rw [hfst, ← h.counts, Economics.counts, get?_backfill h, Economics.counts]
    cases Dict.get? s.selected key with
    | none => rfl
    | some row =>
      cases s.e.dailyUsage.get? key with
      | none => rfl
      | some r => rfl
  · intro key
    change rowCosts _ key = costOf key (s.priced.map (reprice s.selected))
    rw [rowCosts, get?_backfill h]
    cases hsel : Dict.get? s.selected key with
    | none =>
      rw [costOf_reprice_of_none hsel]
      exact h.costs key
    | some row =>
      obtain ⟨counts, p⟩ := row
      rw [costOf_reprice hsel, ← h.counts, Economics.counts]
      cases hr : s.e.dailyUsage.get? key with
      | none => exact (costs_zero _).symm
      | some r =>
        -- the row has the tokens it was selected with
        by_contra hne
        refine hop (.inr ⟨_, Dict.mem_of_get? hsel, rfl, .inr ⟨r, hr, fun heq => hne ?_⟩⟩)
        exact heq.symm
  · intro x hx
    obtain ⟨y, hy, rfl⟩ := List.mem_map.mp hx
    rw [reprice_fst, get?_backfill h]
    cases Dict.get? s.selected y.1.key with
    | none => exact h.there y hy
    | some row => simpa using h.there y hy
  · intro key row hrow hknown x hx hkey
    obtain ⟨y, hy, rfl⟩ := List.mem_map.mp hx
    rw [reprice_fst] at hkey
    rw [get?_backfill h] at hrow
    cases hsel : Dict.get? s.selected key with
    | none =>
      rw [hsel] at hrow
      simp only [reprice, hkey, hsel]
      exact h.known key row hrow hknown y hy hkey
    | some sel =>
      simp only [reprice, hkey, hsel]
      by_contra hunknown
      exact hop (.inr ⟨_, Dict.mem_of_get? hsel, rfl, .inl hunknown⟩)

/-- Every step that does not underprice keeps the rows balanced. -/
theorem balanced_step (h : s.Balanced seeds) (op : PriceOp) (hop : ¬ s.Underprices seeds op) :
    (s.step op).Balanced seeds := by
  cases op with
  | accountCaptureUsage id clock => exact h.account (Option.some_ne_none _) hop
  | accountCapturesUsage ids clock => exact h.account (Option.some_ne_none _) hop
  | backfillFromCaptures clock => exact h.account (Option.some_ne_none _) hop
  | seedPricing => exact h.congr (Economics.dailyUsage_seedPricing s.e) rfl h.selected
  | syncModels models => exact h.congr (Economics.dailyUsage_syncModels s.e models) rfl h.selected
  | selectUnpriced => exact h.congr rfl rfl (Economics.nodup_selectUnpriced h.nodup)
  | updateUnpriced => exact h.backfill hop
  | crash => exact h.congr rfl rfl List.nodup_nil
  | writeCaptures captures => exact h.congr rfl rfl h.selected

theorem balanced_new (captures : Table CaptureColumns) (modelPricing : Dict String PricingRow) :
    (PriceLog.new captures modelPricing).Balanced seeds := by
  constructor
  · exact List.nodup_nil
  · exact List.nodup_nil
  · exact fun _ => rfl
  · exact fun _ => rfl
  · exact fun x hx => absurd hx List.not_mem_nil
  · exact fun _ _ hrow => absurd hrow (Option.some_ne_none _).symm

/-- In every run from fresh totals whose steps do not underprice, every row
that is marked as priced costs what its contributions cost, each at a price
that was known. -/
theorem fullyPriced_of_not_underprices (seeds : Bool) (captures : Table CaptureColumns)
    (modelPricing : Dict String PricingRow) (ops : List PriceOp)
    (h : StepsMeet step (fun s op => ¬ s.Underprices seeds op)
      (PriceLog.new captures modelPricing) ops) :
    (Lib.run step (PriceLog.new captures modelPricing) ops).FullyPriced seeds := by
  have hbalanced := run_invariant_of_stepsMeet (I := Balanced seeds)
    (fun _ op hs hop => balanced_step hs op hop) (balanced_new captures modelPricing) h
  exact hbalanced.fullyPriced

/-- A capture without a price, and a sync up to its second transaction. -/
def firstSync : List PriceOp :=
  [.accountCaptureUsage 1 epoch, .syncModels [⟨"m", some ⟨2, 4⟩⟩], .selectUnpriced]

/-- A price that becomes known is backfilled before the next capture. -/
theorem fullyPriced_after_sync :
    (Lib.run step (PriceLog.new (twoCaptures "m") [])
      (firstSync ++ [.updateUnpriced])).FullyPriced false := by
  refine fullyPriced_of_not_underprices false (twoCaptures "m") [] _ ⟨?_, ?_, ?_, ?_, trivial⟩
  · rintro (⟨a, x, -, -, hx, -⟩ | ⟨row, hrow, -⟩)
    · exact absurd hx List.not_mem_nil
    · exact absurd hrow List.not_mem_nil
  · rintro (⟨a, x, ⟨ids, clock, hids, -⟩, -⟩ | ⟨row, -, hop, -⟩)
    · cases hids
    · cases hop
  · rintro (⟨a, x, ⟨ids, clock, hids, -⟩, -⟩ | ⟨row, -, hop, -⟩)
    · cases hids
    · cases hop
  · rintro (⟨a, x, ⟨ids, clock, hids, -⟩, -⟩ | ⟨row, hselected, -, hbad⟩)
    · cases hids
    · have hrows : (Lib.run step (PriceLog.new (twoCaptures "m") []) firstSync).selected =
          [(("1970-01-01", "m"), ⟨1, 1000000, 0, 0, 0, 0⟩, ⟨2, 4, 372 / 1000, 1⟩)] := by
        decide +kernel
      have hdaily : (Lib.run step (PriceLog.new (twoCaptures "m") []) firstSync).e.dailyUsage.get?
          ("1970-01-01", "m") = some ⟨⟨1, 1000000, 0, 0, 0, 0⟩, ⟨0, 0, 0, 0, 0⟩, 0⟩ := by
        decide +kernel
      obtain rfl := List.mem_singleton.mp (hrows ▸ hselected)
      rcases hbad with hunknown | ⟨r, hr, hcosts⟩
      · exact hunknown ⟨_, rfl, .inl rfl⟩
      · cases hdaily.symm.trans hr
        exact hcosts rfl

/-- The first capture arrives without a price; a sync that stops before its
backfill makes the price known, and the second capture marks the row. -/
def interrupted : List PriceOp :=
  [.accountCaptureUsage 1 epoch, .syncModels [⟨"m", some ⟨2, 4⟩⟩], .crash,
    .accountCaptureUsage 2 epoch]

/-- The tokens of the first capture stay in the priced row at no cost. -/
theorem unpriced_tokens_stay_free :
    let s := Lib.run step (PriceLog.new (twoCaptures "m") []) interrupted
    let row : DailyUsage := ⟨⟨2, 2000000, 0, 0, 0, 0⟩, ⟨2, 0, 0, 0, 2⟩, 1⟩
    s.e.dailyUsage.get? ("1970-01-01", "m") = some row ∧ s.e.selectUnpriced = [] ∧
      ¬ s.FullyPriced false ∧ ¬ s.FullyPriced true := by
  have hrow : (Lib.run step (PriceLog.new (twoCaptures "m") []) interrupted).e.dailyUsage.get?
      ("1970-01-01", "m") = some ⟨⟨2, 2000000, 0, 0, 0, 0⟩, ⟨2, 0, 0, 0, 2⟩, 1⟩ := by
    decide +kernel
  have hfree : ∀ seeds, ¬ (Lib.run step (PriceLog.new (twoCaptures "m") [])
      interrupted).FullyPriced seeds := by
    intro seeds h
    obtain ⟨p, hp, -⟩ := (h _ _ hrow rfl).2
      (⟨1, "1970-01-01", "m", ⟨1, 1000000, 0, 0, 0, 0⟩⟩, none) (by decide +kernel) (by decide)
    cases hp
  exact ⟨hrow, by decide +kernel, hfree false, hfree true⟩

end PriceLog

end UmansGate.Store
