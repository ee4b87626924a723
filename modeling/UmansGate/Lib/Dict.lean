/-
UmansGate.Lib.Dict — finite maps in insertion order.

`Dict κ α` is a list of entries read by first match. `set` overwrites an
entry in place and appends a new key at the end, which is the order
`Object.keys` and `Map` iteration report for string keys. `total f` sums
`f` over the values; `total_set` is the one lemma counter proofs need.
-/
import Mathlib.Data.List.Basic
import Mathlib.Tactic.Abel

namespace UmansGate.Lib

/-- A finite map as its entries in insertion order. -/
abbrev Dict (κ α : Type) := List (κ × α)

namespace Dict

variable {κ α β : Type}

/-- The keys, in insertion order. -/
def keys (d : Dict κ α) : List κ := d.map Prod.fst

/-- The values, in insertion order. -/
def values (d : Dict κ α) : List α := d.map Prod.snd

/-- Apply a function to every value. -/
def mapVals (f : α → β) (d : Dict κ α) : Dict κ β := d.map fun e => (e.1, f e.2)

/-- Sum of a function over the values. -/
def total (f : α → Int) (d : Dict κ α) : Int := (d.map fun e => f e.2).sum

variable [DecidableEq κ]

/-- The value stored under a key. -/
def get? : Dict κ α → κ → Option α
  | [], _ => none
  | (k', v) :: d, k => if k' = k then some v else get? d k

/-- The value stored under a key, or a default (`d[k] ?? v`). -/
def getD (d : Dict κ α) (k : κ) (v : α) : α := (d.get? k).getD v

/-- Store a value: in place when the key is there, at the end otherwise. -/
def set : Dict κ α → κ → α → Dict κ α
  | [], k, v => [(k, v)]
  | (k', v') :: d, k, v => if k' = k then (k, v) :: d else (k', v') :: set d k v

/-- Remove a key (`Map.delete`). -/
def erase (d : Dict κ α) (k : κ) : Dict κ α := d.filter fun e => e.1 ≠ k

@[simp] theorem get?_nil (k : κ) : get? ([] : Dict κ α) k = none := rfl

theorem get?_cons (k' k : κ) (v : α) (d : Dict κ α) :
    get? ((k', v) :: d) k = if k' = k then some v else d.get? k := rfl

theorem get?_set (d : Dict κ α) (k k' : κ) (v : α) :
    (d.set k v).get? k' = if k = k' then some v else d.get? k' := by
  induction d with
  | nil => simp [set, get?]
  | cons e d ih =>
    obtain ⟨k₀, v₀⟩ := e
    by_cases h : k₀ = k
    · subst h
      by_cases h' : k₀ = k' <;> simp [set, get?, h']
    · by_cases h' : k₀ = k'
      · subst h'
        simp [set, get?, h, Ne.symm h]
      · simp [set, get?, h, h', ih]

@[simp] theorem get?_set_self (d : Dict κ α) (k : κ) (v : α) :
    (d.set k v).get? k = some v := by simp [get?_set]

theorem get?_erase (d : Dict κ α) (k k' : κ) :
    (d.erase k).get? k' = if k = k' then none else d.get? k' := by
  induction d with
  | nil => simp [erase]
  | cons e d ih =>
    obtain ⟨k₀, v₀⟩ := e
    have herase : erase ((k₀, v₀) :: d) k =
        if k₀ = k then erase d k else (k₀, v₀) :: erase d k := by
      by_cases hk : k₀ = k
      · simp [erase, hk]
      · simp [erase, hk]
    by_cases h : k₀ = k
    · subst h
      rw [herase, if_pos rfl, ih, get?_cons]
      by_cases h' : k₀ = k'
      · simp [h']
      · simp [h']
    · rw [herase, if_neg h, get?_cons, get?_cons, ih]
      by_cases h' : k₀ = k'
      · subst h'
        simp [Ne.symm h]
      · simp [h']

theorem getD_set (d : Dict κ α) (k k' : κ) (v w : α) :
    (d.set k v).getD k' w = if k = k' then v else d.getD k' w := by
  simp only [getD, get?_set]
  split <;> rfl

@[simp] theorem getD_set_self (d : Dict κ α) (k : κ) (v w : α) :
    (d.set k v).getD k w = v := by simp [getD_set]

/-- `d[k] = (d[k] ?? 0) + x` adds `x` under `k` only. -/
theorem getD_set_getD_add (d : Dict κ Int) (k k' : κ) (x : Int) :
    (d.set k (d.getD k 0 + x)).getD k' 0 = d.getD k' 0 + if k' = k then x else 0 := by
  rw [getD_set]
  by_cases h : k = k'
  · rw [if_pos h, if_pos h.symm, h]
  · rw [if_neg h, if_neg (Ne.symm h), Int.add_zero]

/-- Storing the value that is there changes nothing. -/
theorem set_eq_self {d : Dict κ α} {k : κ} {v : α} (h : d.get? k = some v) : d.set k v = d := by
  induction d with
  | nil => simp at h
  | cons e d ih =>
    obtain ⟨k₀, v₀⟩ := e
    rw [get?_cons] at h
    by_cases hk : k₀ = k
    · rw [if_pos hk, Option.some.injEq] at h
      rw [set, if_pos hk, hk, h]
    · rw [if_neg hk] at h
      rw [set, if_neg hk, ih h]

/-- The last value stored is the one that stays. -/
theorem set_set (d : Dict κ α) (k : κ) (v w : α) : (d.set k v).set k w = d.set k w := by
  induction d with
  | nil => simp [set]
  | cons e d ih =>
    obtain ⟨k₀, v₀⟩ := e
    by_cases hk : k₀ = k
    · simp [set, hk]
    · simp [set, hk, ih]

/-- A key that is there keeps its place, so two values can be stored in either
order. -/
theorem set_comm {d : Dict κ α} {k k' : κ} (hne : k ≠ k') (hk : d.get? k ≠ none) (v w : α) :
    (d.set k v).set k' w = (d.set k' w).set k v := by
  induction d with
  | nil => exact absurd rfl hk
  | cons e d ih =>
    obtain ⟨k₀, v₀⟩ := e
    by_cases h : k₀ = k
    · subst h
      simp [set, hne]
    · rw [get?_cons, if_neg h] at hk
      by_cases h' : k₀ = k'
      · subst h'
        simp [set, h]
      · simp [set, h, h', ih hk]

/-- Storing under a key changes no other entry. -/
theorem filter_set (d : Dict κ α) (k : κ) (v : α) :
    (d.set k v).filter (fun e => decide (e.1 ≠ k)) = d.filter fun e => decide (e.1 ≠ k) := by
  induction d with
  | nil => simp [set]
  | cons e d ih =>
    obtain ⟨k₀, v₀⟩ := e
    by_cases hk : k₀ = k
    · simp [set, hk]
    · rw [set, if_neg hk, List.filter_cons_of_pos (by simp [hk]), ih,
        List.filter_cons_of_pos (by simp [hk])]

/-- A new key is stored at the end. -/
theorem set_eq_append {d : Dict κ α} {k : κ} (h : d.get? k = none) (v : α) :
    d.set k v = d ++ [(k, v)] := by
  induction d with
  | nil => rfl
  | cons e d ih =>
    obtain ⟨k₀, v₀⟩ := e
    rw [get?_cons] at h
    by_cases hk : k₀ = k
    · simp [hk] at h
    · rw [if_neg hk] at h
      rw [set, if_neg hk, ih h, List.cons_append]

/-- `set` changes the total by the new value's share minus the old one's. -/
theorem total_set (f : α → Int) (d : Dict κ α) (k : κ) (v : α) :
    (d.set k v).total f = d.total f - ((d.get? k).map f).getD 0 + f v := by
  induction d with
  | nil => simp [set, total, get?]
  | cons e d ih =>
    obtain ⟨k₀, v₀⟩ := e
    by_cases h : k₀ = k
    · subst h
      simp only [set, total, get?, if_pos, List.map_cons, List.sum_cons, Option.map_some,
        Option.getD_some]
      abel
    · simp only [set, total, get?, if_neg h, List.map_cons, List.sum_cons] at ih ⊢
      rw [ih]
      abel

/-- A new entry adds its share to the total. -/
theorem total_set_of_none {f : α → Int} {d : Dict κ α} {k : κ} (h : d.get? k = none) (v : α) :
    (d.set k v).total f = d.total f + f v := by
  rw [total_set, h]
  simp

/-- An overwritten entry exchanges its share of the total. -/
theorem total_set_of_some {f : α → Int} {d : Dict κ α} {k : κ} {v₀ : α} (h : d.get? k = some v₀)
    (v : α) : (d.set k v).total f = d.total f - f v₀ + f v := by
  rw [total_set, h]
  rfl

/-- `d[k] = (d[k] ?? 0) + x` adds `x` to the total of a counter map. -/
theorem total_set_getD_add (d : Dict κ Int) (k : κ) (x : Int) :
    (d.set k (d.getD k 0 + x)).total id = d.total id + x := by
  rw [total_set, Option.map_id]
  simp only [getD, id_eq]
  abel

theorem get?_mapVals (f : α → β) (d : Dict κ α) (k : κ) :
    (d.mapVals f).get? k = (d.get? k).map f := by
  induction d with
  | nil => rfl
  | cons e d ih =>
    obtain ⟨k₀, v₀⟩ := e
    simp only [mapVals, List.map_cons, get?_cons] at ih ⊢
    split
    · rfl
    · exact ih

theorem getD_mapVals (f : α → β) (d : Dict κ α) (k : κ) (v : α) :
    (d.mapVals f).getD k (f v) = f (d.getD k v) := by
  rw [getD, get?_mapVals, getD, Option.getD_map]

theorem mapVals_set (f : α → β) (d : Dict κ α) (k : κ) (v : α) :
    (d.set k v).mapVals f = (d.mapVals f).set k (f v) := by
  induction d with
  | nil => rfl
  | cons e d ih =>
    obtain ⟨k₀, v₀⟩ := e
    by_cases h : k₀ = k
    · simp [set, mapVals, h]
    · simp only [mapVals] at ih
      simp [set, mapVals, h, ih]

omit [DecidableEq κ] in
@[simp] theorem keys_mapVals (f : α → β) (d : Dict κ α) : (d.mapVals f).keys = d.keys := by
  simp [keys, mapVals, Function.comp_def]

/-- Membership of a stored value. -/
theorem mem_of_get? {d : Dict κ α} {k : κ} {v : α} (h : d.get? k = some v) : (k, v) ∈ d := by
  induction d with
  | nil => simp at h
  | cons e d ih =>
    obtain ⟨k₀, v₀⟩ := e
    rw [get?_cons] at h
    split at h
    · rename_i hk
      cases h
      simp [hk]
    · exact List.mem_cons_of_mem _ (ih h)

/-- An entry of the updated map is the new one or an old one. -/
theorem mem_set {d : Dict κ α} {k : κ} {v : α} {e : κ × α} (h : e ∈ d.set k v) :
    e = (k, v) ∨ e ∈ d := by
  induction d with
  | nil => simpa [set] using h
  | cons e₀ d ih =>
    obtain ⟨k₀, v₀⟩ := e₀
    by_cases hk : k₀ = k
    · simp only [set, if_pos hk, List.mem_cons] at h
      rcases h with h | h
      · exact .inl h
      · exact .inr (List.mem_cons_of_mem _ h)
    · simp only [set, if_neg hk, List.mem_cons] at h
      rcases h with h | h
      · exact .inr (by simp [h])
      · exact (ih h).imp_right (List.mem_cons_of_mem _)

omit [DecidableEq κ] in
@[simp] theorem total_mapVals (f : β → Int) (g : α → β) (d : Dict κ α) :
    (d.mapVals g).total f = d.total fun v => f (g v) := by
  simp [total, mapVals, Function.comp_def]

omit [DecidableEq κ] in
/-- Totals of pointwise equal functions agree. -/
theorem total_congr {f g : α → Int} {d : Dict κ α} (h : ∀ e ∈ d, f e.2 = g e.2) :
    d.total f = d.total g := by
  unfold total
  rw [List.map_congr_left h]

omit [DecidableEq κ] in
theorem total_add (f g : α → Int) (d : Dict κ α) :
    (d.total fun v => f v + g v) = d.total f + d.total g := by
  induction d with
  | nil => rfl
  | cons e d ih =>
    simp only [total, List.map_cons, List.sum_cons] at ih ⊢
    rw [ih]
    abel

omit [DecidableEq κ] in
theorem total_le {f g : α → Int} {d : Dict κ α} (h : ∀ e ∈ d, f e.2 ≤ g e.2) :
    d.total f ≤ d.total g := by
  induction d with
  | nil => exact Int.le_refl 0
  | cons e d ih =>
    have h₁ := h e (by simp)
    have h₂ := ih fun x hx => h x (List.mem_cons_of_mem _ hx)
    simp only [total, List.map_cons, List.sum_cons] at h₂ ⊢
    omega

omit [DecidableEq κ] in
theorem total_nonneg {f : α → Int} {d : Dict κ α} (h : ∀ e ∈ d, 0 ≤ f e.2) : 0 ≤ d.total f := by
  induction d with
  | nil => simp [total]
  | cons e d ih =>
    have h₁ := h e (by simp)
    have h₂ := ih fun x hx => h x (List.mem_cons_of_mem _ hx)
    simp only [total, List.map_cons, List.sum_cons] at h₂ ⊢
    omega

/-! ## Keys -/

omit [DecidableEq κ] in
theorem keys_cons (k : κ) (v : α) (d : Dict κ α) : keys ((k, v) :: d) = k :: keys d := rfl

theorem keys_set (d : Dict κ α) (k : κ) (v : α) :
    (d.set k v).keys = if k ∈ d.keys then d.keys else d.keys ++ [k] := by
  induction d with
  | nil => rfl
  | cons e d ih =>
    obtain ⟨k₀, v₀⟩ := e
    by_cases h : k₀ = k
    · subst h
      simp [set, keys]
    · rw [set, if_neg h, keys_cons, keys_cons, ih]
      by_cases hk : k ∈ keys d
      · rw [if_pos hk, if_pos (List.mem_cons_of_mem _ hk)]
      · rw [if_neg hk, if_neg (by simp [Ne.symm h, hk]), List.cons_append]

/-- Storing a value keeps the keys distinct. -/
theorem nodup_keys_set {d : Dict κ α} (h : d.keys.Nodup) (k : κ) (v : α) :
    (d.set k v).keys.Nodup := by
  rw [keys_set]
  split
  · exact h
  · rename_i hk
    refine List.nodup_append.mpr ⟨h, by simp, ?_⟩
    intro a ha b hb hab
    rw [List.mem_singleton] at hb
    exact hk (hb ▸ hab ▸ ha)

theorem get?_eq_none_of_not_mem {d : Dict κ α} {k : κ} (h : k ∉ d.keys) : d.get? k = none := by
  induction d with
  | nil => rfl
  | cons e d ih =>
    obtain ⟨k₀, v₀⟩ := e
    simp only [keys, List.map_cons, List.mem_cons, not_or] at h ih
    rw [get?_cons, if_neg (Ne.symm h.1)]
    exact ih h.2

theorem get?_ne_none_of_mem {d : Dict κ α} {k : κ} (h : k ∈ d.keys) : d.get? k ≠ none := by
  induction d with
  | nil => simp [keys] at h
  | cons e d ih =>
    obtain ⟨k₀, v₀⟩ := e
    rw [get?_cons]
    by_cases hk : k₀ = k
    · simp [hk]
    · rw [if_neg hk]
      exact ih ((List.mem_cons.mp h).resolve_left (Ne.symm hk))

theorem get?_append (d d' : Dict κ α) (k : κ) : (d ++ d').get? k = (d.get? k).or (d'.get? k) := by
  induction d with
  | nil => rfl
  | cons e d ih =>
    obtain ⟨k₀, v₀⟩ := e
    rw [List.cons_append, get?_cons, get?_cons]
    split
    · rfl
    · exact ih

/-- A key whose entries all have the value `g` gives it. -/
theorem get?_eq_of_forall {d : Dict κ α} {g : κ → Option α} (h : ∀ e ∈ d, g e.1 = some e.2) {k : κ}
    (hk : k ∈ d.keys) : d.get? k = g k := by
  obtain ⟨v, hv⟩ := Option.ne_none_iff_exists'.mp (get?_ne_none_of_mem hk)
  rw [hv]
  exact (h _ (mem_of_get? hv)).symm

/-- Over distinct keys every entry is the one its key finds. -/
theorem mem_iff_get? {d : Dict κ α} (h : d.keys.Nodup) {k : κ} {v : α} :
    (k, v) ∈ d ↔ d.get? k = some v := by
  refine ⟨fun hmem => ?_, mem_of_get?⟩
  induction d with
  | nil => exact absurd hmem (by simp)
  | cons e d ih =>
    obtain ⟨k₀, v₀⟩ := e
    rw [keys_cons, List.nodup_cons] at h
    rw [get?_cons]
    rcases List.mem_cons.mp hmem with heq | hmem
    · cases heq
      rw [if_pos rfl]
    · have hne : k₀ ≠ k := by
        rintro rfl
        exact h.1 (List.mem_map_of_mem hmem)
      rw [if_neg hne]
      exact ih h.2 hmem

/-- A function applied to every entry. -/
theorem get?_map (d : Dict κ α) (f : κ → α → β) (k : κ) :
    get? (d.map fun e => (e.1, f e.1 e.2)) k = (d.get? k).map (f k) := by
  induction d with
  | nil => rfl
  | cons e d ih =>
    obtain ⟨k₀, v₀⟩ := e
    rw [List.map_cons, get?_cons, get?_cons]
    by_cases h : k₀ = k
    · rw [if_pos h, if_pos h, h]
      rfl
    · rw [if_neg h, if_neg h]
      exact ih

theorem get?_filter {d : Dict κ α} (h : d.keys.Nodup) (p : κ → α → Bool) (k : κ) :
    get? (d.filter fun e => p e.1 e.2) k = (d.get? k).filter (p k) := by
  induction d with
  | nil => rfl
  | cons e d ih =>
    obtain ⟨k₀, v₀⟩ := e
    rw [keys_cons, List.nodup_cons] at h
    have hrest := ih h.2
    by_cases hk : k₀ = k
    · subst hk
      rw [get?_eq_none_of_not_mem h.1] at hrest
      rw [get?_cons, if_pos rfl, List.filter_cons, Option.filter_some]
      split
      · rw [get?_cons, if_pos rfl]
      · exact hrest
    · rw [get?_cons, if_neg hk, List.filter_cons]
      split
      · rw [get?_cons, if_neg hk]
        exact hrest
      · exact hrest

/-- Entries dropped by their keys. -/
theorem get?_filter_keys (d : Dict κ α) (p : κ → Bool) (k : κ) :
    get? (d.filter fun e => p e.1) k = if p k then d.get? k else none := by
  induction d with
  | nil => simp
  | cons e d ih =>
    obtain ⟨k₀, v₀⟩ := e
    rw [List.filter_cons, get?_cons]
    by_cases hk : k₀ = k
    · subst hk
      by_cases hp : p k₀ = true
      · rw [if_pos hp, get?_cons, if_pos rfl, if_pos rfl, if_pos hp]
      · rw [if_neg hp, ih, if_neg hp, if_neg hp]
    · rw [if_neg hk]
      split
      · rw [get?_cons, if_neg hk, ih]
      · exact ih

/-- Over distinct keys the total is the sum over the keys. -/
theorem total_eq_sum_keys {d : Dict κ Int} (h : d.keys.Nodup) :
    d.total id = (d.keys.map fun k => d.getD k 0).sum := by
  induction d with
  | nil => rfl
  | cons e d ih =>
    obtain ⟨k₀, v₀⟩ := e
    rw [keys, List.map_cons, List.nodup_cons] at h
    have hrest : ((keys d).map fun k => getD ((k₀, v₀) :: d) k 0) =
        (keys d).map fun k => getD d k 0 := by
      refine List.map_congr_left fun k hk => ?_
      have hne : k₀ ≠ k := by
        rintro rfl
        exact h.1 hk
      simp only [getD, get?_cons, if_neg hne]
    have hd := ih h.2
    simp only [total, id_eq] at hd
    simp only [keys] at hrest
    simp only [total, keys, List.map_cons, List.sum_cons, hd, hrest, id_eq]
    simp [getD, get?_cons]

end Dict

end UmansGate.Lib
