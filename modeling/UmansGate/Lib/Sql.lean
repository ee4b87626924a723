/-
UmansGate.Lib.Sql — grouping, window functions and `ORDER BY` of a query.

SQLite sorts by the keys it is given and leaves the order of rows with
equal keys open, so `SqlSort` is any function that orders a list. A window
function numbers the rows of each partition; `filter_rowNumber` says what
it gives one partition, `rowNumber_perm` that it loses no row. The value at
a rank of a numbered partition is its percentile (`sqlMax_at_rank`).
-/
import Mathlib.Data.List.Dedup
import Mathlib.Data.List.Perm.Basic
import UmansGate.Lib.NearestRank

namespace UmansGate.Lib

/-- `ORDER BY`. -/
structure SqlSort where
  sort : {α : Type} → (α → α → Bool) → List α → List α
  perm : ∀ {α : Type} (le : α → α → Bool) (l : List α), (sort le l).Perm l
  sorted : ∀ {α : Type} {le : α → α → Bool},
    (∀ a b c, le a b = true → le b c = true → le a c = true) →
    (∀ a b, (le a b || le b a) = true) → ∀ l, (sort le l).Pairwise fun a b => le a b = true

/-- Equal keys in the order of the rows. -/
def SqlSort.stable : SqlSort where
  sort le l := l.insertionSort fun a b => le a b = true
  perm le l := List.perm_insertionSort _ l
  sorted {_ le} htrans htotal l :=
    haveI : Std.Total fun a b => le a b = true := ⟨fun a b => by simpa using htotal a b⟩
    haveI : IsTrans _ fun a b => le a b = true := ⟨htrans⟩
    List.pairwise_insertionSort _ l

variable {α β κ : Type}

/-! ## Keys that may be null -/

section Keys

variable [LinearOrder β]

/-- `ORDER BY key NULLS LAST`. -/
def ascNullsLast (key : α → Option β) (a b : α) : Bool :=
  match key a, key b with
  | some x, some y => x ≤ y
  | none, some _ => false
  | _, none => true

/-- `ORDER BY key DESC`; null is the least key. -/
def desc (key : α → Option β) (a b : α) : Bool :=
  match key a, key b with
  | some x, some y => y ≤ x
  | none, some _ => false
  | _, none => true

theorem ascNullsLast_trans (key : α → Option β) (a b c : α) (hab : ascNullsLast key a b = true)
    (hbc : ascNullsLast key b c = true) : ascNullsLast key a c = true := by
  unfold ascNullsLast at hab hbc ⊢
  cases ha : key a <;> cases hb : key b <;> cases hc : key c <;> simp_all
  exact hab.trans hbc

theorem ascNullsLast_total (key : α → Option β) (a b : α) :
    (ascNullsLast key a b || ascNullsLast key b a) = true := by
  unfold ascNullsLast
  cases key a <;> cases key b <;> simp [le_total]

theorem desc_trans (key : α → Option β) (a b c : α) (hab : desc key a b = true)
    (hbc : desc key b c = true) : desc key a c = true := by
  unfold desc at hab hbc ⊢
  cases ha : key a <;> cases hb : key b <;> cases hc : key c <;> simp_all
  exact hbc.trans hab

theorem desc_total (key : α → Option β) (a b : α) : (desc key a b || desc key b a) = true := by
  unfold desc
  cases key a <;> cases key b <;> simp [le_total]

/-- With the nulls last, a place has the key it has among the keys there are. -/
theorem bind_getElem?_of_nullsLast {key : α → Option β} {l : List α}
    (h : l.Pairwise fun a b => ascNullsLast key a b = true) (i : ℕ) :
    (l[i]?).bind key = (l.filterMap key)[i]? := by
  induction l generalizing i with
  | nil => rfl
  | cons a l ih =>
    obtain ⟨hhead, htail⟩ := List.pairwise_cons.mp h
    cases ha : key a with
    | none =>
      have hnone : ∀ b ∈ a :: l, key b = none := by
        intro b hb
        rcases List.mem_cons.mp hb with rfl | hb
        · exact ha
        · have hle := hhead b hb
          cases hkey : key b with
          | none => rfl
          | some y => simp [ascNullsLast, ha, hkey] at hle
      rw [List.filterMap_eq_nil_iff.mpr hnone]
      cases hi : (a :: l)[i]? with
      | none => rfl
      | some b => simpa using hnone b (List.mem_of_getElem? hi)
    | some x =>
      rw [List.filterMap_cons_some ha]
      cases i with
      | zero => simpa using ha
      | succ i => simpa using ih htail i

/-- The keys there are ascend. -/
theorem sorted_filterMap_of_nullsLast {key : α → Option β} {l : List α}
    (h : l.Pairwise fun a b => ascNullsLast key a b = true) :
    (l.filterMap key).Pairwise (· ≤ ·) := by
  rw [List.pairwise_filterMap]
  refine h.imp fun {a b} hab x hx y hy => ?_
  simpa [ascNullsLast, hx, hy] using hab

end Keys

/-! ## Groups and partitions -/

variable [DecidableEq κ]

/-- `GROUP BY`: each key with its rows. -/
def groupBy (key : α → κ) (l : List α) : List (κ × List α) :=
  (l.map key).dedup.map fun k => (k, l.filter fun a => key a = k)

/-- `ROW_NUMBER() OVER (PARTITION BY part ORDER BY le)`, each row with its
number. -/
def rowNumber (s : SqlSort) (part : α → κ) (le : α → α → Bool) (l : List α) : List (α × ℕ) :=
  (l.map part).dedup.flatMap fun k => (s.sort le (l.filter fun a => part a = k)).zipIdx 1

/-- `COUNT(key) OVER (PARTITION BY part)` of a row. -/
def countOver (part : α → κ) (key : α → Option β) (l : List α) (a : α) : ℕ :=
  (l.filterMap fun b => if part b = part a then key b else none).length

theorem mem_groupBy {key : α → κ} {l : List α} {g : κ × List α} :
    g ∈ groupBy key l ↔ g.1 ∈ l.map key ∧ g.2 = l.filter fun a => key a = g.1 := by
  obtain ⟨k, rows⟩ := g
  simp only [groupBy, List.mem_map, List.mem_dedup, Prod.mk.injEq]
  constructor
  · rintro ⟨k', hk', rfl, rfl⟩
    exact ⟨hk', rfl⟩
  · rintro ⟨hk, hrows⟩
    exact ⟨k, hk, rfl, hrows.symm⟩

theorem countOver_eq (part : α → κ) (key : α → Option β) (l : List α) (a : α) :
    countOver part key l a = ((l.filter fun b => part b = part a).filterMap key).length := by
  rw [countOver, List.filterMap_filter]
  simp only [decide_eq_true_eq]

/-- A row is in the partition of its key and in no other. -/
theorem flatMap_filter_perm {part : α → κ} {ks : List κ} (hks : ks.Nodup) (l : List α) :
    (ks.flatMap fun k => l.filter fun a => part a = k).Perm (l.filter fun a => part a ∈ ks) := by
  induction ks with
  | nil => simp
  | cons k ks ih =>
    obtain ⟨hk, hks⟩ := List.nodup_cons.mp hks
    rw [List.flatMap_cons]
    refine ((ih hks).append_left _).trans ?_
    have hsplit := List.filter_append_perm (fun a => decide (part a = k))
      (l.filter fun a => part a ∈ k :: ks)
    rw [List.filter_filter, List.filter_filter] at hsplit
    refine (List.Perm.of_eq ?_).trans hsplit
    congr 1
    · refine List.filter_congr fun a _ => ?_
      by_cases ha : part a = k <;> simp [ha]
    · refine List.filter_congr fun a _ => ?_
      by_cases ha : part a = k
      · simp [ha, hk]
      · simp [ha]

theorem rowNumber_perm (s : SqlSort) (part : α → κ) (le : α → α → Bool) (l : List α) :
    ((rowNumber s part le l).map Prod.fst).Perm l := by
  have hparts : ((rowNumber s part le l).map Prod.fst).Perm
      ((l.map part).dedup.flatMap fun k => l.filter fun a => part a = k) := by
    rw [rowNumber, List.map_flatMap]
    refine List.Perm.flatMap_left _ fun k _ => ?_
    rw [List.zipIdx_map_fst]
    exact s.perm le _
  refine hparts.trans ((flatMap_filter_perm (List.nodup_dedup _) l).trans (List.Perm.of_eq ?_))
  refine List.filter_eq_self.mpr fun a ha => ?_
  simpa using ⟨a, ha, rfl⟩

theorem part_of_mem_sort {s : SqlSort} {part : α → κ} {le : α → α → Bool} {l : List α} {k : κ}
    {e : α × ℕ} (he : e ∈ (s.sort le (l.filter fun a => part a = k)).zipIdx 1) : part e.1 = k := by
  have hmem : e.1 ∈ s.sort le (l.filter fun a => part a = k) := by
    rw [← List.zipIdx_map_fst 1 (s.sort le (l.filter fun a => part a = k))]
    exact List.mem_map_of_mem he
  rw [(s.perm le _).mem_iff, List.mem_filter] at hmem
  exact of_decide_eq_true hmem.2

/-- Of some partitions, the rows of one. -/
theorem filter_partitions (s : SqlSort) (part : α → κ) (le : α → α → Bool) (l : List α) (k : κ)
    {ks : List κ} (hks : ks.Nodup) :
    (ks.flatMap fun k' => (s.sort le (l.filter fun a => part a = k')).zipIdx 1).filter
      (fun e => part e.1 = k) =
        if k ∈ ks then (s.sort le (l.filter fun a => part a = k)).zipIdx 1 else [] := by
  induction ks with
  | nil => simp
  | cons k' ks ih =>
    obtain ⟨hk', hks⟩ := List.nodup_cons.mp hks
    rw [List.flatMap_cons, List.filter_append, ih hks]
    by_cases hkk : k' = k
    · subst hkk
      rw [if_neg hk', if_pos List.mem_cons_self, List.append_nil, List.filter_eq_self]
      exact fun e he => decide_eq_true (part_of_mem_sort he)
    · have hnone : ((s.sort le (l.filter fun a => part a = k')).zipIdx 1).filter
          (fun e => part e.1 = k) = [] := by
        rw [List.filter_eq_nil_iff]
        intro e he
        rw [part_of_mem_sort he]
        simpa using hkk
      rw [hnone, List.nil_append]
      simp [Ne.symm hkk]

/-- What the numbering gives one partition. -/
theorem filter_rowNumber (s : SqlSort) (part : α → κ) (le : α → α → Bool) (l : List α) (k : κ) :
    (rowNumber s part le l).filter (fun e => part e.1 = k) =
      (s.sort le (l.filter fun a => part a = k)).zipIdx 1 := by
  rw [rowNumber, filter_partitions s part le l k (List.nodup_dedup _)]
  split
  · rfl
  · rename_i hk
    have hempty : l.filter (fun a => part a = k) = [] := by
      rw [List.filter_eq_nil_iff]
      intro a ha hpart
      exact hk (List.mem_dedup.mpr (List.mem_map.mpr ⟨a, ha, of_decide_eq_true hpart⟩))
    have hsort : s.sort le (l.filter fun a => part a = k) = [] := by
      rw [hempty]
      exact (s.perm le []).eq_nil
    rw [hsort]
    rfl

theorem false_of_le {P : ℕ → Bool} (hdown : ∀ i, P (i + 1) = true → P i = true) {n i : ℕ}
    (hn : P n = false) (hi : n ≤ i) : P i = false := by
  induction i, hi using Nat.le_induction with
  | base => exact hn
  | succ i _ ih => exact Bool.eq_false_iff.mpr fun h => Bool.eq_false_iff.mp ih (hdown i h)

/-- The rows with the numbers up to some limit are the first ones, as many
as the limit allows. -/
theorem filter_zipIdx_take {P : ℕ → Bool} (hdown : ∀ i, P (i + 1) = true → P i = true)
    (l : List α) (n : ℕ) :
    ∃ k ≤ l.length, ((l.zipIdx n).filter fun e => P e.2).map Prod.fst = l.take k ∧
      (0 < k → P (n + k - 1) = true) ∧ (k < l.length → P (n + k) = false) := by
  induction l generalizing n with
  | nil => exact ⟨0, Nat.le_refl 0, rfl, by simp, by simp⟩
  | cons a l ih =>
    rw [List.zipIdx_cons]
    by_cases hP : P n = true
    · obtain ⟨k, hk, htake, hin, hout⟩ := ih (n + 1)
      refine ⟨k + 1, Nat.succ_le_succ hk, ?_, fun _ => ?_, fun hlt => ?_⟩
      · rw [List.filter_cons_of_pos (p := fun e : α × ℕ => P e.2) hP, List.map_cons, htake,
          List.take_succ_cons]
      · cases k with
        | zero => exact hP
        | succ k => simpa [Nat.add_assoc, Nat.add_comm 1] using hin (Nat.succ_pos k)
      · simpa [Nat.add_assoc, Nat.add_comm 1] using hout (Nat.lt_of_succ_lt_succ hlt)
    · -- past the limit no later number is within it
      have hnone : ((a, n) :: l.zipIdx (n + 1)).filter (fun e => P e.2) = [] := by
        rw [List.filter_eq_nil_iff]
        intro e he
        rcases List.mem_cons.mp he with rfl | he
        · simpa using hP
        · have hle := List.le_snd_of_mem_zipIdx he
          simp [false_of_le hdown (by simpa using hP) (show n ≤ e.2 by omega)]
      exact ⟨0, Nat.zero_le _, by rw [hnone]; rfl, by simp, fun _ => by simpa using hP⟩

/-! ## Aggregates -/

section Aggregates

variable [LinearOrder β]

/-- `MAX`. -/
def sqlMax (vs : List (Option β)) : Option β := (vs.filterMap id).max?

/-- `MIN`. -/
def sqlMin (vs : List (Option β)) : Option β := (vs.filterMap id).min?

/-- `SUM`. -/
def sqlSum (vs : List (Option ℤ)) : Option ℤ :=
  if vs.filterMap id = [] then none else some (vs.filterMap id).sum

theorem sqlMax_eq_some_iff {vs : List (Option β)} {x : β} :
    sqlMax vs = some x ↔ some x ∈ vs ∧ ∀ y, some y ∈ vs → y ≤ x := by
  rw [sqlMax, List.max?_eq_some_iff]
  simp

theorem sqlMax_perm {vs ws : List (Option β)} (h : vs.Perm ws) : sqlMax vs = sqlMax ws := by
  refine Option.ext fun x => ?_
  simp only [sqlMax_eq_some_iff, h.mem_iff]

theorem sqlMin_eq_some_iff {vs : List (Option β)} {x : β} :
    sqlMin vs = some x ↔ some x ∈ vs ∧ ∀ y, some y ∈ vs → x ≤ y := by
  rw [sqlMin, List.min?_eq_some_iff]
  simp

theorem sqlMin_perm {vs ws : List (Option β)} (h : vs.Perm ws) : sqlMin vs = sqlMin ws := by
  refine Option.ext fun x => ?_
  simp only [sqlMin_eq_some_iff, h.mem_iff]

/-- There is a greatest and a least of the values there are. -/
theorem exists_sqlMax {vs : List (Option β)} {x : β} (h : some x ∈ vs) :
    ∃ y, sqlMax vs = some y ∧ x ≤ y := by
  have hmem : x ∈ vs.filterMap id := List.mem_filterMap.mpr ⟨some x, h, rfl⟩
  cases hmax : sqlMax vs with
  | none =>
    rw [sqlMax, List.max?_eq_none_iff] at hmax
    rw [hmax] at hmem
    exact absurd hmem (by simp)
  | some y => exact ⟨y, rfl, (sqlMax_eq_some_iff.mp hmax).2 x h⟩

theorem exists_sqlMin {vs : List (Option β)} {x : β} (h : some x ∈ vs) :
    ∃ y, sqlMin vs = some y ∧ y ≤ x := by
  have hmem : x ∈ vs.filterMap id := List.mem_filterMap.mpr ⟨some x, h, rfl⟩
  cases hmin : sqlMin vs with
  | none =>
    rw [sqlMin, List.min?_eq_none_iff] at hmin
    rw [hmin] at hmem
    exact absurd hmem (by simp)
  | some y => exact ⟨y, rfl, (sqlMin_eq_some_iff.mp hmin).2 x h⟩

/-- One value in every row. -/
theorem sqlMax_const {vs : List (Option β)} {o : Option β} (hne : vs ≠ [])
    (h : ∀ v ∈ vs, v = o) : sqlMax vs = o := by
  obtain ⟨v, hv⟩ := List.exists_mem_of_ne_nil vs hne
  cases o with
  | none =>
    have hnil : vs.filterMap id = [] := List.filterMap_eq_nil_iff.mpr h
    rw [sqlMax, hnil]
    rfl
  | some x =>
    rw [sqlMax_eq_some_iff]
    exact ⟨h v hv ▸ hv, fun y hy => (Option.some.inj (h _ hy)).le⟩

omit [LinearOrder β] in
/-- The one row with a number. -/
theorem filterMap_zipIdx (key : α → Option β) (l : List α) (n : ℕ) (k : ℤ) :
    ((l.zipIdx n).map fun e => if (e.2 : ℤ) = k then key e.1 else none).filterMap id =
      if n ≤ k then ((l[(k - n).toNat]?).bind key).toList else [] := by
  induction l generalizing n with
  | nil => simp
  | cons a l ih =>
    rw [List.zipIdx_cons, List.map_cons, List.filterMap_cons, ih]
    by_cases hk : (n : ℤ) = k
    · subst hk
      cases ha : key a <;> simp [ha]
    · rw [if_neg hk]
      simp only [id]
      by_cases hle : (n : ℤ) ≤ k
      · have hstep : (k - n).toNat = (k - (n + 1 : ℕ)).toNat + 1 := by omega
        rw [if_pos hle, if_pos (by omega), hstep, List.getElem?_cons_succ]
      · rw [if_neg hle, if_neg (by omega)]

/-- `MAX(CASE WHEN rn = k THEN key END)` of a partition numbered by its keys,
at the rank of a percentile. -/
theorem sqlMax_at_rank {key : α → Option β} {l : List α} {p : ℚ} (s : SqlSort) (hp0 : 0 < p) :
    sqlMax (((s.sort (ascNullsLast key) l).zipIdx 1).map fun e =>
      if (e.2 : ℤ) = ⌈p * (l.filterMap key).length⌉ then key e.1 else none) =
        nearestRank p (l.filterMap key) := by
  have hsorted := s.sorted (ascNullsLast_trans key) (ascNullsLast_total key) l
  have hperm := (s.perm (ascNullsLast key) l).filterMap key
  rw [nearestRank_of_perm hperm (sorted_filterMap_of_nullsLast hsorted), sqlMax, filterMap_zipIdx,
    bind_getElem?_of_nullsLast hsorted]
  split
  · have hlist : ∀ o : Option β, o.toList.max? = o := fun o => by cases o <;> rfl
    rw [Nat.cast_one, hlist]
  · -- a rank below one is the rank of no value
    rename_i hrank
    have hzero : (l.filterMap key).length = 0 := by
      by_contra hne
      have hpos : (0 : ℚ) < (l.filterMap key).length := by exact_mod_cast Nat.pos_of_ne_zero hne
      have hceil : 0 < ⌈p * (l.filterMap key).length⌉ := Int.ceil_pos.mpr (mul_pos hp0 hpos)
      omega
    have hnil : (s.sort (ascNullsLast key) l).filterMap key = [] := by
      rw [← List.length_eq_zero_iff, hperm.length_eq, hzero]
    rw [hnil]
    rfl

end Aggregates

/-! ## Joins -/

/-- `LEFT JOIN table USING (on)`. -/
def leftJoin (on : α → κ) (l : List α) (table : List (κ × β)) : List (α × Option β) :=
  l.flatMap fun a =>
    match table.filter fun e => e.1 = on a with
    | [] => [(a, none)]
    | es => es.map fun e => (a, some e.2)

/-- A table made of the groups of the rows has one entry for each row. -/
theorem leftJoin_groupBy (on : α → κ) (l : List α) (f : κ × List α → β) :
    leftJoin on l ((groupBy on l).map fun g => (g.1, f g)) =
      l.map fun a => (a, some (f (on a, l.filter fun b => on b = on a))) := by
  have hentry : ∀ a ∈ l, ((groupBy on l).map fun g => (g.1, f g)).filter (fun e => e.1 = on a) =
      [(on a, f (on a, l.filter fun b => on b = on a))] := by
    intro a ha
    have hmem : on a ∈ (l.map on).dedup := List.mem_dedup.mpr (List.mem_map_of_mem ha)
    have hone : (l.map on).dedup.filter (fun k => k = on a) = [on a] := by
      rw [List.filter_eq, List.count_eq_one_of_mem (List.nodup_dedup _) hmem, List.replicate_one]
    rw [groupBy, List.map_map, List.filter_map]
    simp only [Function.comp_def]
    rw [hone]
    rfl
  refine (List.flatMap_congr fun a ha => ?_).trans List.map_eq_flatMap.symm
  rw [hentry a ha]
  rfl

end UmansGate.Lib
