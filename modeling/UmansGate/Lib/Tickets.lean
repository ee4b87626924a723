/-
UmansGate.Lib.Tickets — service by numbered tickets.

Parties take numbers in order of arrival, each with a kind. Who is not
served on arrival joins the end of the queue; who is in the queue may
leave it. `served` lists the parties in the order in which they were first
served; a party may be served again. `InOrder` is first come, first served
within each kind, `Valid n` the invariant that keeps it while `n` is the
next number.
-/
import UmansGate.Lib.Dict

namespace UmansGate.Lib

/-- Numbers with their kinds: the queue, and who has been served. -/
structure Tickets (κ : Type) where
  queue : List (Nat × κ)
  served : Dict Nat κ
  deriving DecidableEq

namespace Tickets

variable {κ : Type} {t : Tickets κ} {n : Nat} {k : κ}

/-- A number is served, once. -/
def serve (t : Tickets κ) (i : Nat) (k : κ) : Tickets κ :=
  { t with served := if (t.served.get? i).isSome then t.served else t.served.set i k }

/-- Who waits after a service waited before it, and was not served. -/
theorem of_get?_serve {i j : Nat} (h : (t.serve i k).served.get? j = none) :
    j ≠ i ∧ t.served.get? j = none := by
  unfold serve at h
  dsimp only at h
  split at h
  · rename_i hsome
    refine ⟨?_, h⟩
    rintro rfl
    simp [h] at hsome
  · rw [Dict.get?_set] at h
    by_cases hij : i = j
    · simp [hij] at h
    · rw [if_neg hij] at h
      exact ⟨Ne.symm hij, h⟩

/-- Within a kind, numbers are served in order, and nobody was served while
an earlier number waited that is still not served. -/
structure InOrder (t : Tickets κ) : Prop where
  served : t.served.Pairwise fun e e' => e.2 = e'.2 → e.1 < e'.1
  waiting : ∀ w ∈ t.queue, t.served.get? w.1 = none → ∀ e ∈ t.served, e.2 = w.2 → e.1 < w.1

/-- `InOrder`, with a queue in order of arrival. -/
structure Valid (n : Nat) (t : Tickets κ) : Prop where
  inOrder : t.InOrder
  ascending : t.queue.Pairwise fun w w' => w.1 < w'.1
  queue_lt : ∀ w ∈ t.queue, w.1 < n
  served_lt : ∀ e ∈ t.served, e.1 < n

theorem valid_empty (κ : Type) : Valid 0 (⟨[], []⟩ : Tickets κ) :=
  ⟨⟨.nil, by simp⟩, .nil, by simp, by simp⟩

/-- The next number is not served yet. -/
theorem Valid.get?_next (h : Valid n t) : t.served.get? n = none := by
  cases hg : t.served.get? n with
  | none => rfl
  | some k => exact absurd (h.served_lt _ (Dict.mem_of_get? hg)) (Nat.lt_irrefl n)

/-- A number is passed over. -/
theorem Valid.next (h : Valid n t) : Valid (n + 1) t :=
  { h with
    queue_lt := fun w hw => Nat.lt_succ_of_lt (h.queue_lt w hw)
    served_lt := fun e he => Nat.lt_succ_of_lt (h.served_lt e he) }

/-- Some parties leave the queue. -/
theorem Valid.leave (h : Valid n t) {l : List (Nat × κ)} (hl : l.Sublist t.queue) :
    Valid n { t with queue := l } where
  inOrder := ⟨h.inOrder.served, fun w hw => h.inOrder.waiting w (hl.subset hw)⟩
  ascending := h.ascending.sublist hl
  queue_lt w hw := h.queue_lt w (hl.subset hw)
  served_lt := h.served_lt

/-- The next party queues. -/
theorem Valid.join (h : Valid n t) (k : κ) :
    Valid (n + 1) { t with queue := t.queue ++ [(n, k)] } := by
  refine ⟨⟨h.inOrder.served, ?_⟩, ?_, ?_, h.next.served_lt⟩
  · intro w hw hnone e he hk
    rcases List.mem_append.mp hw with hw | hw
    · exact h.inOrder.waiting w hw hnone e he hk
    · rw [List.mem_singleton.mp hw]
      exact h.served_lt e he
  · refine List.pairwise_append.mpr ⟨h.ascending, List.pairwise_singleton _ _, ?_⟩
    intro w hw w' hw'
    rw [List.mem_singleton.mp hw']
    exact h.queue_lt w hw
  · intro w hw
    rcases List.mem_append.mp hw with hw | hw
    · exact h.next.queue_lt w hw
    · rw [List.mem_singleton.mp hw]
      exact Nat.lt_succ_self n

/-- Number `i` of kind `k` is served for the first time: every number of
the kind that was served is lower, and every one that waits is higher. -/
theorem Valid.serve_first (h : Valid n t) {i : Nat} (hi : i < n) (hnew : t.served.get? i = none)
    (hserved : ∀ e ∈ t.served, e.2 = k → e.1 < i)
    (hwaiting : ∀ w ∈ t.queue, t.served.get? w.1 = none → w.1 ≠ i → w.2 = k → i < w.1) :
    Valid n (t.serve i k) := by
  unfold serve
  rw [hnew, if_neg (by simp), Dict.set_eq_append hnew]
  refine ⟨⟨?_, ?_⟩, h.ascending, h.queue_lt, ?_⟩
  · refine List.pairwise_append.mpr ⟨h.inOrder.served, List.pairwise_singleton _ _, ?_⟩
    intro e he e' he' hk
    rw [List.mem_singleton.mp he'] at hk ⊢
    exact hserved e he hk
  · intro w hw hnone e he hk
    rw [Dict.get?_append, Option.or_eq_none_iff] at hnone
    have hne : w.1 ≠ i := fun heq => by simp [heq, Dict.get?_cons] at hnone
    rcases List.mem_append.mp he with he | he
    · exact h.inOrder.waiting w hw hnone.1 e he hk
    · rw [List.mem_singleton.mp he] at hk ⊢
      exact hwaiting w hw hnone.1 hne hk.symm
  · intro e he
    rcases List.mem_append.mp he with he | he
    · exact h.served_lt e he
    · rw [List.mem_singleton.mp he]
      exact hi

/-- The next party is served on arrival; nobody of its kind may wait. -/
theorem Valid.serve_arrival (h : Valid n t)
    (hnone : ∀ w ∈ t.queue, t.served.get? w.1 = none → w.2 ≠ k) :
    Valid (n + 1) (t.serve n k) := by
  refine h.next.serve_first (Nat.lt_succ_self n) h.get?_next (fun e he _ => h.served_lt e he) ?_
  intro w hw hw' _ hk
  exact absurd hk (hnone w hw hw')

/-- A party in the queue is served; nobody of its kind may wait in front of
it. -/
theorem Valid.serve_queued (h : Valid n t) {pre post : List (Nat × κ)} {w : Nat × κ}
    (hq : t.queue = pre ++ w :: post)
    (hpre : ∀ x ∈ pre, t.served.get? x.1 = none → x.2 ≠ w.2) : Valid n (t.serve w.1 w.2) := by
  have hmem : w ∈ t.queue := by simp [hq]
  cases hg : t.served.get? w.1 with
  | some k =>
    unfold serve
    rw [if_pos (by simp [hg])]
    exact h
  | none =>
    have hasc := h.ascending
    rw [hq, List.pairwise_append, List.pairwise_cons] at hasc
    refine h.serve_first (h.queue_lt w hmem) hg (h.inOrder.waiting w hmem hg) ?_
    intro x hx hnone hne hk
    rw [hq, List.mem_append, List.mem_cons] at hx
    rcases hx with hx | rfl | hx
    · exact absurd hk (hpre x hx hnone)
    · exact absurd rfl hne
    · exact hasc.2.1.1 x hx

/-- A party served past a waiting one of its kind is out of order. -/
theorem Valid.not_inOrder_serve (h : Valid n t) {w : Nat × κ} (hw : w ∈ t.queue)
    (hnone : t.served.get? w.1 = none) (hk : w.2 = k) : ¬ (t.serve n k).InOrder := by
  intro hord
  have hlt := h.queue_lt w hw
  unfold serve at hord
  rw [h.get?_next, if_neg (by simp)] at hord
  have := hord.waiting w hw (by rw [Dict.get?_set, if_neg (by omega), hnone])
    (n, k) (Dict.mem_of_get? (Dict.get?_set_self _ _ _)) hk.symm
  dsimp only at this
  omega

end Tickets

end UmansGate.Lib
