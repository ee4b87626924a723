/-
UmansGate.Lib.Promises — numbered promises.

A promise gets the next number when it is posted and waits in `pending`
until it is settled; `settled` records the outcomes, oldest first. A number
that does not wait is never settled. `Valid first` says that every number
from `first` on either waits or has one outcome.
-/
import UmansGate.Lib.Dict

namespace UmansGate.Lib

/-- `π` is what is kept of a waiting promise, `ρ` an outcome. -/
structure Promises (π ρ : Type) where
  next : Nat
  pending : Dict Nat π
  settled : Dict Nat ρ

namespace Promises

variable {π ρ : Type} {t : Promises π ρ} {first id : Nat}

def new (first : Nat) : Promises π ρ := ⟨first, [], []⟩

/-- The number of the new promise is `t.next`. -/
def post (t : Promises π ρ) (p : π) : Promises π ρ :=
  { t with next := t.next + 1, pending := t.pending.set t.next p }

def settle (t : Promises π ρ) (id : Nat) (r : ρ) : Promises π ρ :=
  match t.pending.get? id with
  | none => t
  | some _ => { t with pending := t.pending.erase id, settled := t.settled ++ [(id, r)] }

/-- Every promise that waits gets this outcome. -/
def settleAll (t : Promises π ρ) (r : ρ) : Promises π ρ :=
  { t with pending := [], settled := t.settled ++ t.pending.map fun e => (e.1, r) }

/-- Every number handed out waits or has one outcome. -/
structure Valid (first : Nat) (t : Promises π ρ) : Prop where
  le : first ≤ t.next
  perm : (t.settled.keys ++ t.pending.keys).Perm (List.range' first (t.next - first))

/-! ## What `Valid` says -/

theorem Valid.nodup (h : Valid first t) : (t.settled.keys ++ t.pending.keys).Nodup :=
  h.perm.nodup_iff.mpr List.nodup_range'

theorem Valid.mem_iff (h : Valid first t) :
    id ∈ t.settled.keys ∨ id ∈ t.pending.keys ↔ first ≤ id ∧ id < t.next := by
  have hle := h.le
  rw [← List.mem_append, h.perm.mem_iff, List.mem_range'_1]
  omega

/-- The next number is new. -/
theorem Valid.next_not_mem (h : Valid first t) : t.next ∉ t.pending.keys := by
  intro hmem
  have hlt := (h.mem_iff.mp (.inr hmem)).2
  omega

/-! ## The operations keep it -/

theorem valid_new (first : Nat) : Valid first (new first : Promises π ρ) := by
  refine ⟨Nat.le_refl first, ?_⟩
  simp [new, Dict.keys]

theorem keys_erase (d : Dict Nat π) (id : Nat) : (d.erase id).keys = d.keys.filter (· ≠ id) := by
  simp [Dict.erase, Dict.keys, List.filter_map, Function.comp_def]

/-- A number taken out of the middle goes to the end. -/
theorem perm_filter_ne {l : List Nat} (hl : l.Nodup) (hid : id ∈ l) :
    (id :: l.filter (· ≠ id)).Perm l := by
  have herase : l.filter (· ≠ id) = l.erase id := by
    rw [hl.erase_eq_filter]
    refine List.filter_congr fun x _ => ?_
    by_cases h : x = id
    · simp [h]
    · simp [h]
  rw [herase]
  exact (List.perm_cons_erase hid).symm

theorem Valid.post (h : Valid first t) (p : π) : Valid first (t.post p) := by
  refine ⟨Nat.le_succ_of_le h.le, ?_⟩
  have hkeys : (t.post p).pending.keys = t.pending.keys ++ [t.next] := by
    rw [Promises.post, Dict.set_eq_append (Dict.get?_eq_none_of_not_mem h.next_not_mem)]
    simp [Dict.keys]
  have hrange : List.range' first (t.next + 1 - first) =
      List.range' first (t.next - first) ++ [t.next] := by
    have hle := h.le
    rw [Nat.succ_sub hle, List.range'_1_concat]
    congr 2
    omega
  rw [hkeys, ← List.append_assoc]
  change (t.settled.keys ++ t.pending.keys ++ [t.next]).Perm (List.range' first (t.next + 1 - first))
  rw [hrange]
  exact h.perm.append_right _

theorem Valid.settle (h : Valid first t) (id : Nat) (r : ρ) : Valid first (t.settle id r) := by
  unfold Promises.settle
  split
  · exact h
  · rename_i p hp
    refine ⟨h.le, ?_⟩
    have hmem : id ∈ t.pending.keys := List.mem_map_of_mem (Dict.mem_of_get? hp)
    have hnodup : t.pending.keys.Nodup := (List.nodup_append.mp h.nodup).2.1
    have hsettled : Dict.keys (t.settled ++ [(id, r)]) = t.settled.keys ++ [id] := by
      simp [Dict.keys]
    dsimp only
    rw [hsettled, keys_erase, List.append_assoc]
    exact ((perm_filter_ne hnodup hmem).append_left _).trans h.perm

theorem Valid.settleAll (h : Valid first t) (r : ρ) : Valid first (t.settleAll r) := by
  refine ⟨h.le, ?_⟩
  have hkeys : (t.settleAll r).settled.keys ++ (t.settleAll r).pending.keys =
      t.settled.keys ++ t.pending.keys := by
    simp [Promises.settleAll, Dict.keys]
  rw [hkeys]
  exact h.perm

/-! ## Steps -/

/-- What a step may do to the promises. -/
inductive Step (t : Promises π ρ) : Promises π ρ → Prop
  | keep : Step t t
  | post (p : π) : Step t (t.post p)
  | settle (id : Nat) (r : ρ) : Step t (t.settle id r)
  | settleAll (r : ρ) : Step t (t.settleAll r)

variable {t' : Promises π ρ}

theorem Valid.step (h : Valid first t) (hs : Step t t') : Valid first t' := by
  cases hs with
  | keep => exact h
  | post p => exact h.post p
  | settle id r => exact h.settle id r
  | settleAll r => exact h.settleAll r

@[simp] theorem next_settle (t : Promises π ρ) (id : Nat) (r : ρ) :
    (t.settle id r).next = t.next := by
  unfold settle
  split
  · rfl
  · rfl

theorem Step.next_le (hs : Step t t') : t.next ≤ t'.next := by
  cases hs with
  | keep => exact Nat.le_refl _
  | post p => exact Nat.le_succ _
  | settle id r => exact Nat.le_of_eq (next_settle t id r).symm
  | settleAll r => exact Nat.le_refl _

/-- An outcome is kept. -/
theorem Step.settled (hs : Step t t') : t.settled <+: t'.settled := by
  cases hs with
  | keep => exact List.prefix_refl _
  | post p => exact List.prefix_refl _
  | settle id r =>
    unfold Promises.settle
    split
    · exact List.prefix_refl _
    · exact List.prefix_append _ _
  | settleAll r => exact List.prefix_append _ _

/-- A promise that waits waits on, or is settled. -/
theorem Step.pending (hs : Step t t') (h : Valid first t) {p : π} (hp : t.pending.get? id = some p) :
    t'.pending.get? id = some p ∨ id ∈ t'.settled.keys := by
  have hmem : id ∈ t.pending.keys := List.mem_map_of_mem (Dict.mem_of_get? hp)
  cases hs with
  | keep => exact .inl hp
  | post q =>
    refine .inl ?_
    have hne : t.next ≠ id := by
      rintro rfl
      exact h.next_not_mem hmem
    simp [Promises.post, Dict.get?_set, hne, hp]
  | settle id' r =>
    by_cases heq : id' = id
    · subst heq
      refine .inr ?_
      simp [Promises.settle, hp, Dict.keys]
    · refine .inl ?_
      unfold Promises.settle
      split
      · exact hp
      · simp [Dict.get?_erase, heq, hp]
  | settleAll r =>
    refine .inr ?_
    have hkeys : (t.settleAll r).settled.keys = t.settled.keys ++ t.pending.keys := by
      simp [Promises.settleAll, Dict.keys]
    rw [hkeys]
    exact List.mem_append_right _ hmem

/-- Settling a promise that waits records its outcome. -/
theorem mem_settled_of_settle {p : π} (hp : t.pending.get? id = some p) (r : ρ) :
    id ∈ (t.settle id r).settled.keys := by
  simp [settle, hp, Dict.keys]

/-- An outcome found after a promise was settled was there before, or is
the one given. -/
theorem mem_settle {e : Nat × ρ} {r : ρ} (h : e ∈ (t.settle id r).settled) :
    e ∈ t.settled ∨ e = (id, r) := by
  unfold settle at h
  split at h
  · exact .inl h
  · exact (List.mem_append.mp h).imp_right List.mem_singleton.mp

theorem mem_settleAll {e : Nat × ρ} {r : ρ} (h : e ∈ (t.settleAll r).settled) :
    e ∈ t.settled ∨ e.2 = r := by
  refine (List.mem_append.mp h).imp_right fun hmem => ?_
  obtain ⟨p, -, rfl⟩ := List.mem_map.mp hmem
  rfl

end Promises

end UmansGate.Lib
