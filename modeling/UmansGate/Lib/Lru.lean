/-
UmansGate.Lib.Lru — a least-recently-used cache with a time to live.

The entries stand in the order of their last use, the most recent first.
An entry is stale more than `ttl` after it was last set; reading it does
not set it again. A `ttl` of 0 is no limit, and so is a `max` of 0.
-/
import Mathlib.Data.List.Basic

namespace UmansGate.Lib

structure LruEntry (κ α : Type) where
  key : κ
  value : α
  start : Int
  deriving DecidableEq, Repr

structure Lru (κ α : Type) where
  max : ℕ
  ttl : Int
  entries : List (LruEntry κ α)
  deriving DecidableEq, Repr

namespace Lru

variable {κ α : Type} [DecidableEq κ]

def stale (c : Lru κ α) (now : Int) (e : LruEntry κ α) : Bool :=
  c.ttl ≠ 0 && decide (now - e.start > c.ttl)

def find? (c : Lru κ α) (key : κ) : Option (LruEntry κ α) := c.entries.find? (·.key = key)

def erase (c : Lru κ α) (key : κ) : Lru κ α :=
  { c with entries := c.entries.filter (·.key ≠ key) }

/-- A live entry is there. -/
def has (c : Lru κ α) (now : Int) (key : κ) : Bool :=
  (c.find? key).any fun e => !c.stale now e

/-- The value of a live entry, which becomes the most recent; a stale one
is removed. -/
def get (c : Lru κ α) (now : Int) (key : κ) : Lru κ α × Option α :=
  match c.find? key with
  | none => (c, none)
  | some e =>
    if c.stale now e then (c.erase key, none)
    else ({ c with entries := e :: (c.erase key).entries }, some e.value)

/-- The least recently used entry makes room. -/
def set (c : Lru κ α) (now : Int) (key : κ) (value : α) : Lru κ α :=
  let entries := ⟨key, value, now⟩ :: (c.erase key).entries
  { c with entries := if c.max = 0 then entries else entries.take c.max }

variable {c : Lru κ α} {now : Int} {key : κ} {value : α} {e : LruEntry κ α}

@[simp] theorem ttl_get : (c.get now key).1.ttl = c.ttl := by
  unfold get
  split
  · rfl
  · split
    · rfl
    · rfl

@[simp] theorem ttl_set : (c.set now key value).ttl = c.ttl := rfl

/-- A read adds no entry. -/
theorem mem_of_mem_get (h : e ∈ (c.get now key).1.entries) : e ∈ c.entries := by
  unfold get at h
  split at h
  · exact h
  · rename_i found hfound
    split at h
    · exact (List.mem_filter.mp h).1
    · rcases List.mem_cons.mp h with rfl | h
      · exact List.mem_of_find?_eq_some hfound
      · exact (List.mem_filter.mp h).1

/-- What a read returns is the value of a live entry. -/
theorem get_eq_some (h : (c.get now key).2 = some value) :
    ∃ e ∈ c.entries, e.key = key ∧ e.value = value ∧ c.stale now e = false := by
  unfold get at h
  split at h
  · cases h
  · rename_i found hfound
    split at h
    · cases h
    · rename_i hlive
      exact ⟨found, List.mem_of_find?_eq_some hfound, by simpa using List.find?_some hfound,
        Option.some.inj h, by simpa using hlive⟩

/-- A write adds its own entry only. -/
theorem mem_of_mem_set (h : e ∈ (c.set now key value).entries) :
    e = ⟨key, value, now⟩ ∨ e ∈ c.entries := by
  have hmem : e ∈ (⟨key, value, now⟩ : LruEntry κ α) :: (c.erase key).entries := by
    simp only [set] at h
    split at h
    · exact h
    · exact List.mem_of_mem_take h
  rcases List.mem_cons.mp hmem with rfl | hmem
  · exact .inl rfl
  · exact .inr (List.mem_filter.mp hmem).1

/-- A read hits exactly where a live entry is. -/
theorem isSome_get : (c.get now key).2.isSome = c.has now key := by
  unfold get has
  split
  · rename_i hnone
    rw [hnone]
    rfl
  · rename_i found hfound
    rw [hfound]
    split
    · rename_i hstale
      simp [hstale]
    · rename_i hlive
      simp [hlive]

end Lru

end UmansGate.Lib
