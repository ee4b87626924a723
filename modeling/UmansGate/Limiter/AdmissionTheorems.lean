/-
UmansGate.Limiter.AdmissionTheorems — `canGrant` as arithmetic.

With a finite limit every quantity of `canGrant` is an integer, and the
admission test is one inequality per branch (`canGrant_iff`); with a NaN
limit it refuses everything. `Tighter s s'` says that `s'` is `s` with
one more grant or one more waiter; nothing that `s` refuses is granted in
`s'`, which is why one pass of `drainWaiters` is enough.
-/
import Mathlib.Algebra.Order.BigOperators.Group.List
import UmansGate.Limiter.Semaphore

namespace UmansGate.Limiter

open UmansGate.Lib

namespace Semaphore

/-- What is kept free of the limit for intention `k'` when `k` asks, with
effective reservations `E`. -/
def keptFor (s : Semaphore) (E : Dict String Int) (k k' : String) : Int :=
  if k' = k then 0
  else if s.activeByIntention.getD k' 0 + s.queuedByIntention.getD k' 0 = 0 then 0
  else max 0 (E.getD k' 0 - s.activeByIntention.getD k' 0)

/-- What is kept free for all other intentions. -/
def kept (s : Semaphore) (E : Dict String Int) (k : String) : Int :=
  (E.keys.map (s.keptFor E k)).sum

/-- A loop that stores integers builds a map of integers with distinct
keys. -/
theorem foldl_set_fin (f : String → Int) (keys : List String) (E : Dict String Int)
    (h : E.keys.Nodup) :
    ∃ E' : Dict String Int, E'.keys.Nodup ∧
      keys.foldl (fun out k => out.set k (Num.fin (f k))) (E.mapVals Num.fin) =
        E'.mapVals Num.fin := by
  induction keys generalizing E with
  | nil => exact ⟨E, h, rfl⟩
  | cons k keys ih =>
    rw [List.foldl_cons, ← Dict.mapVals_set]
    exact ih _ (Dict.nodup_keys_set h k _)

/-- The proportional split under a finite limit. -/
theorem foldl_share_fin (f : String → Int) (keys : List String) (E : Dict String Int)
    (h : E.keys.Nodup) (r : Int) :
    ∃ (E' : Dict String Int) (r' : Int), E'.keys.Nodup ∧
      keys.foldl (fun (acc : Dict String (Num Int) × Num Int) k =>
          (acc.1.set k (Num.max (.fin 0) (Num.min (Num.fin (f k)) acc.2)),
            acc.2.sub (Num.max (.fin 0) (Num.min (Num.fin (f k)) acc.2))))
        (E.mapVals Num.fin, Num.fin r) = (E'.mapVals Num.fin, Num.fin r') := by
  induction keys generalizing E r with
  | nil => exact ⟨E, r, h, rfl⟩
  | cons k keys ih =>
    rw [List.foldl_cons]
    simp only [Num.min_fin_fin, Num.max_fin_fin, Num.sub_fin_fin]
    rw [← Dict.mapVals_set]
    exact ih _ (Dict.nodup_keys_set h k _) _

variable [ShareRounding]

/-- With a finite limit the effective reservations are integers. -/
theorem effectiveReservations_fin {s : Semaphore} {l : Int} (hl : s.limit = .fin l) :
    ∃ E : Dict String Int, E.keys.Nodup ∧ s.effectiveReservations = E.mapVals Num.fin := by
  simp only [effectiveReservations, hl, Num.map_fin]
  split
  · exact foldl_set_fin _ _ [] List.nodup_nil
  · obtain ⟨E, r, hnd, h⟩ := foldl_share_fin (fun k => ShareRounding.floorShare
      (s.reservations.getD k 0)
      (s.reservations.keys.foldl (fun acc k => acc + s.reservations.getD k 0) 0) l)
      s.reservations.keys [] List.nodup_nil l
    exact ⟨E, hnd, congrArg Prod.fst h⟩

theorem effectiveReservations_congr {s s' : Semaphore} (hl : s'.limit = s.limit)
    (hr : s'.reservations = s.reservations) :
    s'.effectiveReservations = s.effectiveReservations := by
  simp only [effectiveReservations, hl, hr]

omit [ShareRounding] in
theorem capacity_fin {s : Semaphore} {l : Int} (hl : s.limit = .fin l) (E : Dict String Int)
    (k : String) : s.capacity k (E.mapVals Num.fin) = .fin (l - s.kept E k) := by
  have hstep : ∀ (keys : List String) (acc : Int),
      keys.foldl (fun reserved k' =>
        if k' = k then reserved
        else if s.activeByIntention.getD k' 0 + s.queuedByIntention.getD k' 0 = 0 then reserved
        else reserved.add (Num.max (.fin 0) (((E.mapVals Num.fin).getD k' (.fin 0)).sub
          (.fin (s.activeByIntention.getD k' 0))))) (Num.fin acc) =
        .fin (acc + (keys.map (s.keptFor E k)).sum) := by
    intro keys
    induction keys with
    | nil => intro acc; simp
    | cons k' keys ih =>
      intro acc
      rw [List.foldl_cons, List.map_cons, List.sum_cons, ← Int.add_assoc, ← ih]
      congr 1
      unfold keptFor
      split
      · simp
      · split
        · simp
        · rw [Dict.getD_mapVals]
          rfl
  rw [capacity, Dict.keys_mapVals]
  have := hstep E.keys 0
  simp only at this ⊢
  rw [this, hl, kept, Int.zero_add]
  rfl

/-- The admission test under a finite limit. -/
theorem canGrant_iff {s : Semaphore} {l : Int} (hl : s.limit = .fin l) {E : Dict String Int}
    (hE : s.effectiveReservations = E.mapVals Num.fin) (k : String) (w : Int) :
    s.canGrant k w = true ↔
      s.active + w ≤ l ∧ (s.activeByIntention.getD k 0 + w ≤ E.getD k 0 ∨
        s.overSubscribed (E.mapVals Num.fin) = true ∨ s.active + w ≤ l - s.kept E k) := by
  have hres : (E.mapVals Num.fin).getD k (.fin 0) = .fin (E.getD k 0) := Dict.getD_mapVals _ _ _ _
  unfold canGrant
  simp only [hE, hres, hl, capacity_fin hl, Num.lt_fin_fin, Num.le_fin_fin, decide_eq_true_eq]
  by_cases hlt : l < s.active + w
  · rw [if_pos hlt]
    exact ⟨fun h => absurd h (by simp), fun h => absurd h.1 (by omega)⟩
  · rw [if_neg hlt]
    by_cases hown : s.activeByIntention.getD k 0 + w ≤ E.getD k 0
    · rw [if_pos hown]
      exact ⟨fun _ => ⟨by omega, .inl hown⟩, fun _ => rfl⟩
    · rw [if_neg hown]
      cases s.overSubscribed (E.mapVals Num.fin) with
      | true =>
        rw [if_pos rfl, decide_eq_true_eq]
        exact ⟨fun h => ⟨h, .inr (.inl rfl)⟩, fun h => h.1⟩
      | false =>
        rw [if_neg (by simp), decide_eq_true_eq]
        refine ⟨fun h => ⟨by omega, .inr (.inr h)⟩, fun h => ?_⟩
        rcases h.2 with h | h | h
        · exact absurd h hown
        · exact absurd h (by simp)
        · exact h

omit [ShareRounding] in
/-- Under a NaN limit every computed share is NaN. -/
theorem foldl_share_nan (g : String → Num Int → Num Int) (hg : ∀ k x, g k x = .nan)
    (keys : List String) (out : Dict String (Num Int)) (r : Num Int)
    (hout : ∀ k, out.getD k (.fin 0) = .nan ∨ out.getD k (.fin 0) = .fin 0) (k : String) :
    (keys.foldl (fun (acc : Dict String (Num Int) × Num Int) k =>
        (acc.1.set k (g k acc.2), acc.2.sub (g k acc.2))) (out, r)).1.getD k (.fin 0) = .nan ∨
      (keys.foldl (fun (acc : Dict String (Num Int) × Num Int) k =>
        (acc.1.set k (g k acc.2), acc.2.sub (g k acc.2))) (out, r)).1.getD k (.fin 0) = .fin 0 := by
  induction keys generalizing out r with
  | nil => exact hout k
  | cons k' keys ih =>
    rw [List.foldl_cons]
    refine ih _ _ fun k'' => ?_
    rw [Dict.getD_set, hg]
    split
    · exact .inl rfl
    · exact hout k''

/-- A NaN limit refuses every positive weight. -/
theorem canGrant_nan {s : Semaphore} (hl : s.limit = .nan) {k : String} {w : Int} (hw : 0 < w)
    (ha : 0 ≤ s.activeByIntention.getD k 0) : s.canGrant k w = false := by
  have hres : s.effectiveReservations.getD k (.fin 0) = .nan ∨
      s.effectiveReservations.getD k (.fin 0) = .fin 0 := by
    simp only [effectiveReservations, hl, Num.le_nan_right, Bool.false_eq_true, if_false]
    exact foldl_share_nan (fun k r => Num.max (.fin 0) (Num.min ((Num.nan : Num Int).map _) r))
      (fun k r => by simp) _ [] .nan (fun _ => .inr rfl) k
  have hcap : s.capacity k s.effectiveReservations = .nan := by
    rw [capacity, hl, Num.sub_nan_left]
  unfold canGrant
  simp only [hl, hcap, Num.lt_nan_left, Num.le_nan_right, Bool.false_eq_true, if_false]
  rcases hres with h | h
  · simp [h]
  · rw [h, Num.le_fin_fin, decide_eq_false (by omega)]
    simp

/-! ## One more grant, one more waiter -/

/-- `s'` is `s` after a grant of weight `b` to `j`, or with more demand:
limits and reservations are the same, no demand has gone. -/
structure Tighter (s s' : Semaphore) (j : String) (b : Int) : Prop where
  limit_eq : s'.limit = s.limit
  reservations_eq : s'.reservations = s.reservations
  weight_nonneg : 0 ≤ b
  active_eq : s'.active = s.active + b
  byIntention_eq : ∀ k, s'.activeByIntention.getD k 0 =
    s.activeByIntention.getD k 0 + if k = j then b else 0
  demand : ∀ k, s'.activeByIntention.getD k 0 + s'.queuedByIntention.getD k 0 = 0 →
    s.activeByIntention.getD k 0 + s.queuedByIntention.getD k 0 = 0

omit [ShareRounding] in
/-- A sum over distinct keys of which one summand falls by at most `b`. -/
theorem sum_sub_le {f f' : String → Int} {j : String} {b : Int} (hb : 0 ≤ b) (keys : List String)
    (hnd : keys.Nodup) (hj : f j - b ≤ f' j) (hf : ∀ k, k ≠ j → f k ≤ f' k) :
    (keys.map f).sum - b ≤ (keys.map f').sum := by
  induction keys with
  | nil => simpa using hb
  | cons k keys ih =>
    rw [List.nodup_cons] at hnd
    rw [List.map_cons, List.map_cons, List.sum_cons, List.sum_cons]
    by_cases hk : k = j
    · -- the falling summand is here, so it is not among the rest
      have hrest : (keys.map f).sum ≤ (keys.map f').sum := by
        refine List.sum_le_sum fun x hx => hf x ?_
        rintro rfl
        exact hnd.1 (hk ▸ hx)
      rw [hk]
      omega
    · have := ih hnd.2
      have := hf k hk
      omega

omit [ShareRounding] in
/-- What a grant to `j` uses up was at most what was kept for `j`. -/
theorem Tighter.kept_le {s s' : Semaphore} {j : String} {b : Int} (h : Tighter s s' j b)
    {E : Dict String Int} (hE : E.keys.Nodup) (k : String) : s.kept E k - b ≤ s'.kept E k := by
  have hkept : ∀ k', s.keptFor E k k' - (if k' = j then b else 0) ≤ s'.keptFor E k k' := by
    intro k'
    have hb := h.weight_nonneg
    have ha := h.byIntention_eq k'
    have hd := h.demand k'
    unfold keptFor
    by_cases hk : k' = k
    · rw [if_pos hk, if_pos hk]
      split <;> omega
    · rw [if_neg hk, if_neg hk]
      by_cases h₀ : s.activeByIntention.getD k' 0 + s.queuedByIntention.getD k' 0 = 0
      · rw [if_pos h₀]
        split <;> split <;> omega
      · rw [if_neg h₀, if_neg fun h' => h₀ (hd h'), ha]
        split <;> omega
  refine sum_sub_le h.weight_nonneg E.keys hE (j := j) ?_ fun k' hk' => ?_
  · have := hkept j
    rwa [if_pos rfl] at this
  · have := hkept k'
    rwa [if_neg hk', sub_zero] at this

/-- What `s` refuses, `s'` refuses. -/
theorem Tighter.canGrant {s s' : Semaphore} {j : String} {b : Int} (h : Tighter s s' j b)
    {l : Int} (hl : s.limit = .fin l) {k : String} {w : Int}
    (hc : s'.canGrant k w = true) : s.canGrant k w = true := by
  obtain ⟨E, hnd, hE⟩ := effectiveReservations_fin hl
  have hE' : s'.effectiveReservations = E.mapVals Num.fin :=
    (effectiveReservations_congr h.limit_eq h.reservations_eq).trans hE
  have hover : s'.overSubscribed (E.mapVals Num.fin) = s.overSubscribed (E.mapVals Num.fin) := by
    simp only [overSubscribed, h.reservations_eq]
  rw [canGrant_iff (h.limit_eq.trans hl) hE', h.active_eq, h.byIntention_eq k, hover] at hc
  rw [canGrant_iff hl hE]
  have hb := h.weight_nonneg
  have hkept := h.kept_le hnd k
  obtain ⟨hle, hc⟩ := hc
  refine ⟨by omega, ?_⟩
  rcases hc with hc | hc | hc
  · left
    split at hc <;> omega
  · exact .inr (.inl hc)
  · right
    right
    omega

end Semaphore

end UmansGate.Limiter
