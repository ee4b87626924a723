/-
UmansGate.Store.AccountingTheorems — what the accounting functions do.

`Accounts clock ids new e e'` says it once for all of them: the captures of
`ids` are marked, and `new` is what those that were not marked before and
have usage add to the daily totals. The three functions account a list of
ids (`accounts_accountCaptureUsage`, `accounts_accountCapturesUsage`,
`accounts_backfillFromCaptures`), and one after the other they account the
ids of both (`Accounts.trans`).
-/
import UmansGate.Store.Economics

namespace UmansGate.Store

open UmansGate.Lib

/-- The sum of the contributions to one `daily_usage` row. -/
def totalOf (key : String × String) : List Attribution → UsageCounts
  | [] => 0
  | a :: as => (if a.key = key then a.counts else 0) + totalOf key as

theorem totalOf_append (key : String × String) (as bs : List Attribution) :
    totalOf key (as ++ bs) = totalOf key as + totalOf key bs := by
  induction as with
  | nil => exact (UsageCounts.zero_add _).symm
  | cons a as ih => rw [List.cons_append, totalOf, totalOf, ih, UsageCounts.add_assoc]

structure Accounts (clock : Clock) (ids : List ℕ) (new : List Attribution)
    (e e' : Economics) : Prop where
  captures : e'.captures = e.captures.update (fun id _ => id ∈ ids) CaptureColumns.markAccounted
  pricing : e'.modelPricing = e.modelPricing
  attributed : e'.attributed = e.attributed ++ new
  nodup : (new.map Attribution.id).Nodup
  mem : ∀ a, a ∈ new ↔ a.id ∈ ids ∧ ∃ c, e.captures.get? a.id = some c ∧
    c.usageAccounted = false ∧ c.needsAccounting = true ∧ a = c.attribution clock a.id
  counts : ∀ key, e'.counts key = e.counts key + totalOf key new

/-! ## Marking -/

variable {clock : Clock} {e e₁ e₂ : Economics} {ids ids₁ ids₂ : List ℕ}
  {new₁ new₂ : List Attribution}

theorem get?_mark (t : Table CaptureColumns) (ids : List ℕ) (id : ℕ) :
    (t.update (fun id _ => id ∈ ids) CaptureColumns.markAccounted).get? id =
      (t.get? id).map fun c => if id ∈ ids then c.markAccounted else c := by
  rw [Table.get?_update]
  simp only [decide_eq_true_eq]

theorem mark_append (t : Table CaptureColumns) (ids₁ ids₂ : List ℕ) :
    (t.update (fun id _ => id ∈ ids₁) CaptureColumns.markAccounted).update
        (fun id _ => id ∈ ids₂) CaptureColumns.markAccounted =
      t.update (fun id _ => id ∈ ids₁ ++ ids₂) CaptureColumns.markAccounted := by
  refine Table.ext_rows ?_ rfl
  simp only [Table.update, List.map_map]
  refine List.map_congr_left fun r _ => ?_
  simp only [Function.comp_apply, decide_eq_true_eq, List.mem_append]
  by_cases h₁ : r.1 ∈ ids₁
  · by_cases h₂ : r.1 ∈ ids₂
    · simp only [h₁, h₂, if_true, or_true]
      rfl
    · simp only [h₁, h₂, if_true, if_false, true_or]
  · simp only [h₁, if_false, false_or]

/-- A capture that is marked, or not there, is marked already. -/
theorem mark_of_accounted {t : Table CaptureColumns}
    (h : ∀ id ∈ ids, ∀ c, t.get? id = some c → c.usageAccounted = true) :
    t.update (fun id _ => id ∈ ids) CaptureColumns.markAccounted = t := by
  refine Table.update_eq_self fun id c hc hid => ?_
  have hacc := h id (by simpa using hid) c hc
  rw [CaptureColumns.markAccounted, ← hacc]

/-- A capture that is still unmarked is not one of the marked ids, and is
the capture of before. -/
theorem Accounts.unmarked (h : Accounts clock ids new₁ e e₁) {id : ℕ} {c : CaptureColumns} :
    e₁.captures.get? id = some c ∧ c.usageAccounted = false ↔
      id ∉ ids ∧ e.captures.get? id = some c ∧ c.usageAccounted = false := by
  rw [h.captures, get?_mark]
  constructor
  · rintro ⟨hget, hacc⟩
    obtain ⟨c₀, hc₀, rfl⟩ := Option.map_eq_some_iff.mp hget
    by_cases hid : id ∈ ids
    · rw [if_pos hid] at hacc
      exact absurd hacc (by simp [CaptureColumns.markAccounted])
    · rw [if_neg hid] at hacc ⊢
      exact ⟨hid, hc₀, hacc⟩
  · rintro ⟨hid, hget, hacc⟩
    rw [hget, Option.map_some, if_neg hid]
    exact ⟨rfl, hacc⟩

theorem Accounts.refl (clock : Clock) (e : Economics) : Accounts clock [] [] e e := by
  constructor
  · exact (mark_of_accounted (by simp)).symm
  · rfl
  · exact (List.append_nil _).symm
  · exact List.nodup_nil
  · simp
  · exact fun key => (UsageCounts.add_zero _).symm

theorem Accounts.trans (h₁ : Accounts clock ids₁ new₁ e e₁)
    (h₂ : Accounts clock ids₂ new₂ e₁ e₂) :
    Accounts clock (ids₁ ++ ids₂) (new₁ ++ new₂) e e₂ := by
  -- what the second call adds is of captures the first one left alone
  have hmem₂ : ∀ a, a ∈ new₂ ↔ a.id ∈ ids₂ ∧ a.id ∉ ids₁ ∧ ∃ c, e.captures.get? a.id = some c ∧
      c.usageAccounted = false ∧ c.needsAccounting = true ∧ a = c.attribution clock a.id := by
    intro a
    rw [h₂.mem]
    constructor
    · rintro ⟨hid, c, hget, hacc, hneeds, ha⟩
      obtain ⟨hno, hget, hacc⟩ := h₁.unmarked.mp ⟨hget, hacc⟩
      exact ⟨hid, hno, c, hget, hacc, hneeds, ha⟩
    · rintro ⟨hid, hno, c, hget, hacc, hneeds, ha⟩
      obtain ⟨hget, hacc⟩ := h₁.unmarked.mpr ⟨hno, hget, hacc⟩
      exact ⟨hid, c, hget, hacc, hneeds, ha⟩
  constructor
  · rw [h₂.captures, h₁.captures, mark_append]
  · rw [h₂.pricing, h₁.pricing]
  · rw [h₂.attributed, h₁.attributed, List.append_assoc]
  · rw [List.map_append]
    refine List.nodup_append.mpr ⟨h₁.nodup, h₂.nodup, ?_⟩
    intro id hid₁ id' hid₂ heq
    obtain ⟨a, ha, rfl⟩ := List.mem_map.mp hid₁
    obtain ⟨b, hb, rfl⟩ := List.mem_map.mp hid₂
    have hin := ((h₁.mem a).mp ha).1
    have hout := ((hmem₂ b).mp hb).2.1
    rw [heq] at hin
    exact hout hin
  · intro a
    rw [List.mem_append, h₁.mem, hmem₂, List.mem_append]
    constructor
    · rintro (⟨hid, hc⟩ | ⟨hid, _, hc⟩)
      · exact ⟨.inl hid, hc⟩
      · exact ⟨.inr hid, hc⟩
    · rintro ⟨hid, hc⟩
      by_cases hid₁ : a.id ∈ ids₁
      · exact .inl ⟨hid₁, hc⟩
      · exact .inr ⟨hid.resolve_left hid₁, hid₁, hc⟩
  · intro key
    rw [h₂.counts, h₁.counts, totalOf_append, UsageCounts.add_assoc]

/-! ## One upsert -/

namespace Economics

@[simp] theorem captures_upsertUsage (e : Economics) (clock : Clock)
    (pricing : Option PricingRow) (id : ℕ) (c : CaptureColumns) :
    (e.upsertUsage clock pricing id c).captures = e.captures := rfl

@[simp] theorem modelPricing_upsertUsage (e : Economics) (clock : Clock)
    (pricing : Option PricingRow) (id : ℕ) (c : CaptureColumns) :
    (e.upsertUsage clock pricing id c).modelPricing = e.modelPricing := rfl

/-- An upsert adds the capture's counts to one row. -/
theorem counts_upsertUsage (e : Economics) (clock : Clock) (pricing : Option PricingRow) (id : ℕ)
    (c : CaptureColumns) (key : String × String) :
    (e.upsertUsage clock pricing id c).counts key =
      e.counts key + totalOf key [c.attribution clock id] := by
  simp only [counts, upsertUsage, Dict.get?_set, totalOf, UsageCounts.add_zero]
  by_cases h : (c.attribution clock id).key = key
  · rw [if_pos h, if_pos h, h]
    cases e.dailyUsage.get? key with
    | none => exact (UsageCounts.zero_add _).symm
    | some row => rfl
  · rw [if_neg h, if_neg h, UsageCounts.add_zero]

/-- The upserts of a batch. -/
theorem foldl_upsertUsage (clock : Clock) (pricing : CaptureColumns → Option PricingRow)
    (rows : Dict ℕ CaptureColumns) (e : Economics) :
    ∃ e', rows.foldl (fun (e : Economics) r => e.upsertUsage clock (pricing r.2) r.1 r.2) e = e' ∧
      e'.captures = e.captures ∧ e'.modelPricing = e.modelPricing ∧
      e'.attributed = e.attributed ++ rows.map (fun r => r.2.attribution clock r.1) ∧
      ∀ key, e'.counts key =
        e.counts key + totalOf key (rows.map fun r => r.2.attribution clock r.1) := by
  induction rows generalizing e with
  | nil => exact ⟨e, rfl, rfl, rfl, by simp, fun key => (UsageCounts.add_zero _).symm⟩
  | cons r rows ih =>
    obtain ⟨e', heq, hcap, hpri, hatt, hcounts⟩ := ih (e.upsertUsage clock (pricing r.2) r.1 r.2)
    refine ⟨e', heq, hcap, hpri, ?_, fun key => ?_⟩
    · rw [hatt, List.map_cons]
      exact List.append_assoc _ [_] _
    · rw [hcounts, counts_upsertUsage, UsageCounts.add_assoc, ← totalOf_append]
      rfl

end Economics

open Economics

/-! ## The accounting functions -/

/-- A call that meets no unmarked capture of `ids`. -/
theorem Accounts.none_new
    (h : ∀ id ∈ ids, ∀ c, e.captures.get? id = some c → c.usageAccounted = true) :
    Accounts clock ids [] e e := by
  constructor
  · exact (mark_of_accounted h).symm
  · rfl
  · exact (List.append_nil _).symm
  · exact List.nodup_nil
  · intro a
    constructor
    · intro ha
      exact absurd ha (by simp)
    · rintro ⟨hid, c, hget, hacc, -⟩
      rw [h _ hid c hget] at hacc
      exact absurd hacc (by simp)
  · exact fun key => (UsageCounts.add_zero _).symm

theorem accounts_accountCaptureUsage (clock : Clock) (e : Economics) (id : ℕ) :
    ∃ new, Accounts clock [id] new e (e.accountCaptureUsage clock id) := by
  unfold accountCaptureUsage
  split
  · rename_i hnone
    refine ⟨[], Accounts.none_new fun id' hid c hget => ?_⟩
    rw [List.mem_singleton.mp hid] at hget
    rw [hget, Option.filter_some] at hnone
    by_contra hacc
    rw [Bool.not_eq_true] at hacc
    exact absurd hnone (by simp [hacc])
  · rename_i c hsome
    rw [Option.filter_eq_some_iff] at hsome
    obtain ⟨hget, hacc⟩ := hsome
    rw [Bool.not_eq_true'] at hacc
    split
    · rename_i hneeds
      refine ⟨[c.attribution clock id], rfl, rfl, rfl, by simp, fun a => ?_,
        counts_upsertUsage e clock _ id c⟩
      rw [List.mem_singleton]
      constructor
      · rintro rfl
        exact ⟨List.mem_singleton_self id, c, hget, hacc, hneeds, rfl⟩
      · rintro ⟨hid, c', hget', -, -, ha⟩
        rw [List.mem_singleton.mp hid] at hget' ha
        rw [hget] at hget'
        cases hget'
        exact ha
    · rename_i hneeds
      refine ⟨[], rfl, rfl, (List.append_nil _).symm, List.nodup_nil, fun a => ?_,
        fun key => (UsageCounts.add_zero _).symm⟩
      constructor
      · intro ha
        exact absurd ha (by simp)
      · rintro ⟨hid, c', hget', -, hneeds', -⟩
        rw [List.mem_singleton.mp hid, hget] at hget'
        cases hget'
        exact absurd hneeds' hneeds

/-- The rows that a batch accounts, and those it adds to a day. -/
theorem mem_unaccounted {id : ℕ} {c : CaptureColumns} :
    (id, c) ∈ e.unaccounted ids ↔
      id ∈ ids ∧ e.captures.get? id = some c ∧ c.usageAccounted = false := by
  rw [unaccounted, List.mem_filter, Table.mem_rows_iff, Bool.and_eq_true, decide_eq_true_eq,
    Bool.not_eq_true']
  exact ⟨fun h => ⟨h.2.1, h.1, h.2.2⟩, fun h => ⟨h.2.1, h.1, h.2.2⟩⟩

theorem nodup_unaccounted (e : Economics) (ids : List ℕ) : (e.unaccounted ids).keys.Nodup :=
  e.captures.nodup_keys.sublist (List.filter_sublist.map Prod.fst)

theorem accounts_accountCapturesUsage (clock : Clock) (e : Economics) (ids : List ℕ) :
    ∃ new, Accounts clock ids new e (e.accountCapturesUsage clock ids) := by
  have hnone : (e.unaccounted ids).length = 0 → Accounts clock ids [] e e := by
    intro hlen
    refine Accounts.none_new fun id hid c hget => ?_
    by_contra hacc
    rw [Bool.not_eq_true] at hacc
    have hmem := mem_unaccounted.mpr ⟨hid, hget, hacc⟩
    rw [List.length_eq_zero_iff.mp hlen] at hmem
    exact absurd hmem (by simp)
  simp only [accountCapturesUsage]
  split
  · rename_i hids
    rw [List.length_eq_zero_iff.mp hids]
    exact ⟨[], Accounts.refl clock e⟩
  · split
    · rename_i hlen
      exact ⟨[], hnone hlen⟩
    · obtain ⟨e', heq, hcap, hpri, hatt, hcounts⟩ := foldl_upsertUsage clock
        (fun c => e.getPricing (c.model.getD ""))
        ((e.unaccounted ids).filter fun r => r.2.needsAccounting) e
      rw [heq]
      refine ⟨_, ?_, hpri, hatt, ?_, fun a => ?_, hcounts⟩
      · -- marking the rows that were found is marking all of `ids`
        have hrows : e.captures.rows.map (fun r => (r.1,
              if decide (r.1 ∈ (e.unaccounted ids).map Prod.fst) = true then r.2.markAccounted
              else r.2)) =
            e.captures.rows.map (fun r => (r.1,
              if decide (r.1 ∈ ids) = true then r.2.markAccounted else r.2)) := by
          refine List.map_congr_left fun r hr => ?_
          have hget := Table.mem_rows_iff.mp hr
          simp only [decide_eq_true_eq]
          by_cases hid : r.1 ∈ ids
          · cases hacc : r.2.usageAccounted with
            | false =>
              have hmem := mem_unaccounted.mpr ⟨hid, hget, hacc⟩
              rw [if_pos (List.mem_map_of_mem hmem), if_pos hid]
            | true =>
              have hsame : r.2.markAccounted = r.2 := by
                rw [CaptureColumns.markAccounted, ← hacc]
              rw [hsame, if_pos hid, ite_self]
          · have hno : r.1 ∉ (e.unaccounted ids).map Prod.fst := by
              intro hmem
              obtain ⟨⟨id, c⟩, hmem, heq⟩ := List.mem_map.mp hmem
              have hid' := (mem_unaccounted.mp hmem).1
              simp only at heq
              rw [heq] at hid'
              exact hid hid'
            rw [if_neg hno, if_neg hid]
        rw [markAccounted, hcap]
        exact Table.ext_rows hrows rfl
      · rw [List.map_map]
        exact (nodup_unaccounted e ids).sublist (List.filter_sublist.map Prod.fst)
      · rw [List.mem_map]
        constructor
        · rintro ⟨⟨id, c⟩, hmem, rfl⟩
          obtain ⟨hmem, hneeds⟩ := List.mem_filter.mp hmem
          obtain ⟨hid, hget, hacc⟩ := mem_unaccounted.mp hmem
          exact ⟨hid, c, hget, hacc, hneeds, rfl⟩
        · rintro ⟨hid, c, hget, hacc, hneeds, ha⟩
          refine ⟨(a.id, c), List.mem_filter.mpr ⟨?_, hneeds⟩, ha.symm⟩
          exact mem_unaccounted.mpr ⟨hid, hget, hacc⟩

theorem accounts_foldl (clock : Clock) (ids : List ℕ) (e : Economics) :
    ∃ new, Accounts clock ids new e
      (ids.foldl (fun e id => e.accountCaptureUsage clock id) e) := by
  induction ids generalizing e with
  | nil => exact ⟨[], Accounts.refl clock e⟩
  | cons id ids ih =>
    obtain ⟨new₁, h₁⟩ := accounts_accountCaptureUsage clock e id
    obtain ⟨new₂, h₂⟩ := ih (e.accountCaptureUsage clock id)
    exact ⟨new₁ ++ new₂, h₁.trans h₂⟩

theorem accounts_backfillFromCaptures (clock : Clock) (e : Economics) :
    ∃ new, Accounts clock e.backfillIds new e (e.backfillFromCaptures clock) :=
  accounts_foldl clock e.backfillIds e

end UmansGate.Store
