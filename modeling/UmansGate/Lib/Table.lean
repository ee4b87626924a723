/-
UmansGate.Lib.Table — a database table with an auto-increment key.

`Table α` keeps its rows by ascending id, all of them below the counter
that the next insert takes its id from. The counter never falls, so the id
of a deleted row is never given out again. Updates and deletes take a
condition on the id and the row, as `WHERE` does.
-/
import UmansGate.Lib.Dict

namespace UmansGate.Lib

structure Table (α : Type) where
  rows : Dict ℕ α
  nextId : ℕ
  sorted : rows.keys.Pairwise (· < ·)
  fresh : ∀ id ∈ rows.keys, id < nextId

namespace Table

variable {α : Type}

def empty : Table α := ⟨[], 1, List.Pairwise.nil, by simp [Dict.keys]⟩

/-- Add a row under the next id. -/
def insert (t : Table α) (a : α) : Table α where
  rows := t.rows ++ [(t.nextId, a)]
  nextId := t.nextId + 1
  sorted := by
    rw [Dict.keys, List.map_append]
    refine List.pairwise_append.mpr ⟨t.sorted, by simp, fun id hid id' hid' => ?_⟩
    rw [List.mem_singleton.mp hid']
    exact t.fresh id hid
  fresh := by
    intro id hid
    rw [Dict.keys, List.map_append] at hid
    rcases List.mem_append.mp hid with hid | hid
    · exact Nat.lt_succ_of_lt (t.fresh id hid)
    · rw [List.mem_singleton.mp hid]
      exact Nat.lt_succ_self _

theorem keys_map (rows : Dict ℕ α) (f : ℕ → α → α) :
    Dict.keys (rows.map fun r => (r.1, f r.1 r.2)) = rows.keys := by
  simp [Dict.keys, Function.comp_def]

/-- `UPDATE … WHERE p`. -/
def update (t : Table α) (p : ℕ → α → Bool) (f : α → α) : Table α where
  rows := t.rows.map fun r => (r.1, if p r.1 r.2 then f r.2 else r.2)
  nextId := t.nextId
  sorted := by
    rw [keys_map t.rows fun id a => if p id a then f a else a]
    exact t.sorted
  fresh := by
    rw [keys_map t.rows fun id a => if p id a then f a else a]
    exact t.fresh

/-- `DELETE … WHERE p`. -/
def delete (t : Table α) (p : ℕ → α → Bool) : Table α where
  rows := t.rows.filter fun r => !p r.1 r.2
  nextId := t.nextId
  sorted := t.sorted.sublist (List.filter_sublist.map Prod.fst)
  fresh := fun id hid => t.fresh id ((List.filter_sublist.map Prod.fst).subset hid)

/-- The row under an id. -/
def get? (t : Table α) (id : ℕ) : Option α := t.rows.get? id

variable {t : Table α} {id : ℕ} {a : α}

@[simp] theorem nextId_insert (t : Table α) (a : α) : (t.insert a).nextId = t.nextId + 1 := rfl

@[simp] theorem nextId_update (t : Table α) (p : ℕ → α → Bool) (f : α → α) :
    (t.update p f).nextId = t.nextId := rfl

@[simp] theorem nextId_delete (t : Table α) (p : ℕ → α → Bool) :
    (t.delete p).nextId = t.nextId := rfl

theorem nodup_keys (t : Table α) : t.rows.keys.Nodup :=
  t.sorted.imp fun h => Nat.ne_of_lt h

theorem mem_rows_iff : (id, a) ∈ t.rows ↔ t.get? id = some a :=
  Dict.mem_iff_get? t.nodup_keys

theorem lt_nextId (h : t.get? id = some a) : id < t.nextId :=
  t.fresh id (List.mem_map_of_mem (mem_rows_iff.mpr h))

theorem get?_insert (t : Table α) (a : α) (id : ℕ) :
    (t.insert a).get? id = if id = t.nextId then some a else t.get? id := by
  by_cases h : id = t.nextId
  · rw [if_pos h, ← mem_rows_iff, h]
    exact List.mem_append_right _ (List.mem_singleton_self _)
  · rw [if_neg h, get?, insert, Dict.get?_append, Dict.get?_cons, if_neg (Ne.symm h)]
    exact Option.or_none

theorem get?_update (t : Table α) (p : ℕ → α → Bool) (f : α → α) (id : ℕ) :
    (t.update p f).get? id = (t.get? id).map fun a => if p id a then f a else a :=
  Dict.get?_map t.rows (fun id a => if p id a then f a else a) id

theorem get?_delete (t : Table α) (p : ℕ → α → Bool) (id : ℕ) :
    (t.delete p).get? id = (t.get? id).filter fun a => !p id a := by
  rw [get?, delete]
  exact Dict.get?_filter t.nodup_keys (fun id a => !p id a) id

theorem get?_of_delete {p : ℕ → α → Bool} (h : (t.delete p).get? id = some a) :
    t.get? id = some a := by
  rw [get?_delete, Option.filter_eq_some_iff] at h
  exact h.1

theorem ext_rows {t t' : Table α} (hr : t.rows = t'.rows) (hn : t.nextId = t'.nextId) : t = t' := by
  cases t
  cases t'
  cases hr
  cases hn
  rfl

/-- An update that changes no row it meets is none. -/
theorem update_eq_self {p : ℕ → α → Bool} {f : α → α}
    (h : ∀ id a, t.get? id = some a → p id a = true → f a = a) : t.update p f = t := by
  refine ext_rows ?_ rfl
  have hrow : ∀ r ∈ t.rows, (r.1, if p r.1 r.2 then f r.2 else r.2) = r := by
    intro r hr
    by_cases hp : p r.1 r.2 = true
    · rw [if_pos hp, h r.1 r.2 (mem_rows_iff.mp hr) hp]
    · rw [if_neg hp]
  exact (List.map_congr_left hrow).trans (List.map_id t.rows)

end Table

end UmansGate.Lib
