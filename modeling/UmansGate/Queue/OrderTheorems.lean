/-
UmansGate.Queue.OrderTheorems — the order in which the updates of one
capture reach its row.

`guardedFlush` waits for the flush it finds. `flushNow`, as `index.ts`
calls it at shutdown, does not: an older batch of the same capture may
still be in flight, fail, return to the front of the queue and be stored
last (`stale_retry_wins`). A guarded flush can overtake such a call in the
same way. As long as no flush takes an update of a capture that is in
flight, at most one batch in flight knows a capture, and what is stored,
in flight and queued for it stands in the order of `queueUpdate`
(`Ordered`).
-/
import UmansGate.Queue.ConservationTheorems

namespace UmansGate.Queue

open UmansGate.Lib

variable {Req Res : Type}

/-! ## Updates of one capture -/

/-- The updates of one capture. -/
def updatesOf (id : Nat) (items : List (QueuedUpdate Req Res)) : List (QueuedUpdate Req Res) :=
  items.filter (·.id = id)

@[simp] theorem updatesOf_nil (id : Nat) :
    updatesOf id ([] : List (QueuedUpdate Req Res)) = [] := rfl

@[simp] theorem updatesOf_append (id : Nat) (a b : List (QueuedUpdate Req Res)) :
    updatesOf id (a ++ b) = updatesOf id a ++ updatesOf id b := by
  simp [updatesOf]

@[simp] theorem mem_updatesOf {id : Nat} {x : QueuedUpdate Req Res}
    {items : List (QueuedUpdate Req Res)} : x ∈ updatesOf id items ↔ x ∈ items ∧ x.id = id := by
  simp [updatesOf]

/-- Two batches without a common capture. -/
def Disjoint (a b : List (QueuedUpdate Req Res)) : Prop :=
  ∀ x ∈ a, ∀ y ∈ b, x.id ≠ y.id

theorem Disjoint.symm {a b : List (QueuedUpdate Req Res)} (h : Disjoint a b) : Disjoint b a :=
  fun x hx y hy => (h y hy x hx).symm

/-- Where two batches share no capture, one of them has no update of it. -/
theorem Disjoint.updatesOf_eq_nil {a b : List (QueuedUpdate Req Res)} (h : Disjoint a b)
    (id : Nat) : updatesOf id a = [] ∨ updatesOf id b = [] := by
  by_cases ha : updatesOf id a = []
  · exact .inl ha
  · right
    obtain ⟨x, hx⟩ := List.exists_mem_of_ne_nil _ ha
    obtain ⟨hxa, hxid⟩ := mem_updatesOf.mp hx
    apply List.eq_nil_iff_forall_not_mem.mpr
    intro y hy
    obtain ⟨hyb, hyid⟩ := mem_updatesOf.mp hy
    exact h x hxa y hyb (hxid.trans hyid.symm)

namespace WriteQueue

variable {s : WriteQueue Req Res}

/-- The updates in flight. -/
def airborne (s : WriteQueue Req Res) : List (QueuedUpdate Req Res) :=
  (s.inFlight.map Flush.batch).flatten

/-- The updates written to the row of a capture, oldest write first. -/
def writes (s : WriteQueue Req Res) (id : Nat) : List (QueuedUpdate Req Res) :=
  updatesOf id s.committed.flatten

/-- The update whose values the row of a capture holds. -/
def row (s : WriteQueue Req Res) (id : Nat) : Option (QueuedUpdate Req Res) :=
  (s.writes id).getLast?

/-- The update was neither passed to `onDrop` nor given up after
`MAX_FLUSH_RETRIES` failures. -/
def Kept (s : WriteQueue Req Res) (u : QueuedUpdate Req Res) : Prop :=
  ∃ lost : Multiset (QueuedUpdate Req Res),
    s.places + lost = s.queued ∧ u ∉ s.dropped ∧ u ∉ lost

/-- No update is stored after a newer one of its capture, and an idle
queue leaves in each row the newest update that was kept. -/
structure Fresh (s : WriteQueue Req Res) : Prop where
  ordered : ∀ id, (s.writes id).Sublist (updatesOf id s.queued)
  idle : s.queue = [] → s.inFlight = [] → ∀ id older u newer,
    updatesOf id s.queued = older ++ u :: newer → s.Kept u → (∀ v ∈ newer, v ∉ s.writes id) →
    s.row id = some u

/-- The updates that a `flushNow` called by `guardedFlush` takes. -/
def guardedTaken (s : WriteQueue Req Res) (queue : List (QueuedUpdate Req Res)) :
    List (QueuedUpdate Req Res) :=
  match s.flushing with
  | some _ => []
  | none => queue

/-- The updates that a `flushNow` called in this step takes. -/
def taken (s : WriteQueue Req Res) : Op Req Res → List (QueuedUpdate Req Res)
  | .queueUpdate id reqMeta res =>
    let queue := s.queue ++ [⟨id, reqMeta, res⟩]
    if (queue.length : Int) ≥ s.config.flushBatch ∨
        (queue.length : Int) ≥ s.config.queueMaxDepth ∨ s.flushTimer ≠ none then
      s.guardedTaken queue
    else []
  | .flushNow => s.queue
  | .flushTimeout id =>
    match s.flushTimers.find? (·.id = id) with
    | none => []
    | some timer => if timer.due ≤ s.now then s.guardedTaken s.queue else []
  | .retryTimeout =>
    match s.retryTimer with
    | none => []
    | some due => if due ≤ s.now then s.guardedTaken s.queue else []
  | .thenHandler => if 0 < s.resumed then s.guardedTaken s.queue else []
  | .drainForShutdown | .reply .. | .finallyHandler | .tick _ => []

/-- The step flushes an update of a capture that is in flight. -/
def Overlaps (s : WriteQueue Req Res) (op : Op Req Res) : Prop :=
  ¬ Disjoint s.airborne (s.taken op)

/-! ## The order of what is stored, in flight and queued -/

/-- The updates of a capture that are stored, in flight or queued stand in
the order of their `queueUpdate`, and no two batches in flight share one. -/
structure Ordered (s : WriteQueue Req Res) : Prop where
  apart : s.inFlight.Pairwise fun f g => Disjoint f.batch g.batch
  sublist : ∀ id, (s.writes id ++ updatesOf id s.airborne ++ updatesOf id s.queue).Sublist
    (updatesOf id s.queued)

/-- The fields that no timer or promise handler is part of. -/
theorem Ordered.congr {s' : WriteQueue Req Res} (h : s.Ordered) (hq : s'.queue = s.queue)
    (hf : s'.inFlight = s.inFlight) (hc : s'.committed = s.committed)
    (hqueued : s'.queued = s.queued) : s'.Ordered := by
  constructor
  · rw [hf]
    exact h.apart
  · intro id
    rw [writes, airborne, hq, hf, hc, hqueued]
    exact h.sublist id

theorem Ordered.settle (h : s.Ordered) (guarded ok : Bool) : (s.settle guarded ok).Ordered := by
  cases guarded with
  | true => exact h.congr rfl rfl rfl rfl
  | false => exact h

theorem Ordered.clearFlushTimer (h : s.Ordered) : s.clearFlushTimer.Ordered := by
  unfold WriteQueue.clearFlushTimer
  split
  · exact h
  · exact h.congr rfl rfl rfl rfl

/-- An update that arrives is the newest of its capture. -/
theorem Ordered.push (h : s.Ordered) (item : QueuedUpdate Req Res) :
    { s with queue := s.queue ++ [item], queued := s.queued ++ [item] }.Ordered := by
  refine ⟨h.apart, fun id => ?_⟩
  simp only [updatesOf_append, ← List.append_assoc]
  exact (h.sublist id).append_right _

/-- The oldest entries of the queue may go. -/
theorem Ordered.shift (h : s.Ordered) {s' : WriteQueue Req Res} (hq : s'.queue.Sublist s.queue)
    (hf : s'.inFlight = s.inFlight) (hc : s'.committed = s.committed)
    (hqueued : s'.queued = s.queued) : s'.Ordered := by
  constructor
  · rw [hf]
    exact h.apart
  · intro id
    rw [writes, airborne, hf, hc, hqueued]
    exact ((hq.filter _).append_left _).trans (h.sublist id)

/-- The queue moves into one batch behind the batches in flight. -/
theorem Ordered.flushNow (h : s.Ordered) (guarded : Bool)
    (hapart : Disjoint s.airborne s.queue) : (s.flushNow guarded).Ordered := by
  simp only [WriteQueue.flushNow]
  split
  · have h₀ : { s with flushTimer := none }.Ordered := h.congr rfl rfl rfl rfl
    exact h₀.settle guarded true
  · constructor
    · refine List.pairwise_append.mpr ⟨h.apart, List.pairwise_singleton _ _, ?_⟩
      intro f hf g hg
      rw [List.mem_singleton.mp hg]
      intro x hx
      exact hapart x (List.mem_flatten.mpr ⟨f.batch, List.mem_map_of_mem hf, hx⟩)
    · intro id
      have hsub := h.sublist id
      simpa [writes, airborne] using hsub

theorem Ordered.guardedFlush (h : s.Ordered)
    (hapart : Disjoint s.airborne (s.guardedTaken s.queue)) : s.guardedFlush.Ordered := by
  unfold WriteQueue.guardedFlush
  unfold guardedTaken at hapart
  split
  · exact h.congr rfl rfl rfl rfl
  · rename_i hnone
    rw [hnone] at hapart
    have h₀ : { s with flushing := some .running }.Ordered := h.congr rfl rfl rfl rfl
    exact h₀.flushNow true hapart

theorem Ordered.dropOverflow (h : s.Ordered) : s.dropOverflow.Ordered := by
  unfold WriteQueue.dropOverflow
  split
  · split
    · exact h
    · rename_i hq
      exact h.shift (hq ▸ List.sublist_cons_self _ _) rfl rfl rfl
  · exact h

theorem Ordered.queueUpdate (h : s.Ordered) {id : Nat} {reqMeta : Req} {res : Res}
    (hapart : Disjoint s.airborne (s.taken (.queueUpdate id reqMeta res))) :
    (s.queueUpdate ⟨id, reqMeta, res⟩).Ordered := by
  have h₀ := h.push ⟨id, reqMeta, res⟩
  simp only [WriteQueue.queueUpdate]
  split
  · exact h₀.congr rfl rfl rfl rfl
  · rename_i hflush
    refine (h₀.clearFlushTimer.guardedFlush ?_).dropOverflow
    simp only [taken] at hapart
    rw [if_pos (by tauto)] at hapart
    unfold WriteQueue.clearFlushTimer
    split
    · exact hapart
    · exact hapart

theorem Ordered.drainLoop (h : s.Ordered) {rest : List (QueuedUpdate Req Res)}
    (hq : s.queue = rest) : (s.drainLoop rest).Ordered := by
  induction rest generalizing s with
  | nil => exact h
  | cons x rest ih =>
    have hdrop : ({ s with queue := rest }.drop x).Ordered :=
      h.shift (hq ▸ List.sublist_cons_self _ _) rfl rfl rfl
    simp only [WriteQueue.drainLoop]
    split
    · exact hdrop
    · exact ih hdrop rfl

theorem Ordered.drainForShutdown (h : s.Ordered) : s.drainForShutdown.Ordered := by
  have h₀ : { s.clearFlushTimer with retryTimer := none }.Ordered :=
    h.clearFlushTimer.congr rfl rfl rfl rfl
  exact h₀.drainLoop rfl

/-- The batches left when one of them lands know nothing of its captures. -/
theorem Ordered.land (h : s.Ordered) {n : Nat} {f : Flush Req Res}
    (hf : s.inFlight[n]? = some f) (id : Nat) :
    let rest := ((s.inFlight.eraseIdx n).map Flush.batch).flatten
    updatesOf id s.airborne = updatesOf id f.batch ++ updatesOf id rest ∧
      updatesOf id s.airborne = updatesOf id rest ++ updatesOf id f.batch := by
  obtain ⟨before, behind, hsplit, herase⟩ : ∃ before behind,
      s.inFlight = before ++ f :: behind ∧ s.inFlight.eraseIdx n = before ++ behind := by
    obtain ⟨hlt, hget⟩ := List.getElem?_eq_some_iff.mp hf
    refine ⟨s.inFlight.take n, s.inFlight.drop (n + 1), ?_, List.eraseIdx_eq_take_drop_succ _ _⟩
    rw [← hget, List.getElem_cons_drop, List.take_append_drop]
  have hapart := h.apart
  rw [hsplit] at hapart
  obtain ⟨-, hright, hleft⟩ := List.pairwise_append.mp hapart
  have hbefore : Disjoint (before.map Flush.batch).flatten f.batch := by
    intro x hx
    obtain ⟨_, hb, hxb⟩ := List.mem_flatten.mp hx
    obtain ⟨g, hg, rfl⟩ := List.mem_map.mp hb
    exact hleft g hg f List.mem_cons_self x hxb
  have hbehind : Disjoint f.batch (behind.map Flush.batch).flatten := by
    intro x hx y hy
    obtain ⟨_, hb, hyb⟩ := List.mem_flatten.mp hy
    obtain ⟨g, hg, rfl⟩ := List.mem_map.mp hb
    exact (List.pairwise_cons.mp hright).1 g hg x hx y hyb
  simp only [herase]
  simp only [airborne, hsplit, List.map_append, List.map_cons,
    List.flatten_append, List.flatten_cons, updatesOf_append]
  rcases hbefore.updatesOf_eq_nil id with hb | hb <;>
    rcases hbehind.updatesOf_eq_nil id with ha | ha <;> simp [hb, ha]

/-- A batch that lands is stored behind what is stored, or returns in
front of what is queued. -/
theorem Ordered.resume (h : s.Ordered) (n : Nat) (reply : Reply) : (s.resume n reply).Ordered := by
  simp only [WriteQueue.resume]
  split
  · exact h
  · rename_i f hf
    have hland := h.land hf
    have hapart : (s.inFlight.eraseIdx n).Pairwise fun f g => Disjoint f.batch g.batch :=
      h.apart.sublist (List.eraseIdx_sublist _ _)
    cases reply with
    | resolved throws =>
      refine Ordered.settle ⟨hapart, fun id => ?_⟩ f.guarded _
      have hsub := h.sublist id
      rw [(hland id).1] at hsub
      simpa [flushDone, writes, airborne] using hsub
    | rejected =>
      refine Ordered.settle ?_ f.guarded _
      have hback : ∀ id, (s.writes id ++ updatesOf id ((s.inFlight.eraseIdx n).map Flush.batch).flatten
          ++ updatesOf id (f.batch ++ s.queue)).Sublist (updatesOf id s.queued) := by
        intro id
        have hsub := h.sublist id
        rw [(hland id).2] at hsub
        simpa using hsub
      simp only [flushFailed]
      split
      · exact ⟨hapart, fun id => (List.Sublist.append_left (List.nil_sublist _) _).trans (hback id)⟩
      · exact ⟨hapart, hback⟩

/-! ## Runs -/

/-- A step that flushes no update of a capture in flight keeps the order. -/
theorem ordered_step (h : s.Ordered) (op : Op Req Res) (hop : ¬ s.Overlaps op) :
    (s.step op).Ordered := by
  have hapart : Disjoint s.airborne (s.taken op) := not_not.mp hop
  cases op with
  | queueUpdate id reqMeta res => exact h.queueUpdate hapart
  | flushNow => exact h.flushNow false hapart
  | drainForShutdown => exact h.drainForShutdown
  | flushTimeout id =>
    simp only [taken] at hapart
    simp only [step]
    split
    · exact h
    · rename_i timer htimer
      simp only [htimer] at hapart
      split
      · rename_i hdue
        rw [if_pos hdue] at hapart
        exact Ordered.guardedFlush (h.congr rfl rfl rfl rfl) hapart
      · exact h
  | retryTimeout =>
    simp only [taken] at hapart
    simp only [step]
    split
    · exact h
    · rename_i due hretry
      simp only [hretry] at hapart
      split
      · rename_i hdue
        rw [if_pos hdue] at hapart
        exact Ordered.guardedFlush (h.congr rfl rfl rfl rfl) hapart
      · exact h
  | reply n reply => exact h.resume n reply
  | finallyHandler =>
    simp only [step, finallyHandler]
    split
    · exact h.congr rfl rfl rfl rfl
    · exact h
  | thenHandler =>
    simp only [taken] at hapart
    simp only [step, thenHandler]
    split
    · exact h
    · rename_i n hresumed
      rw [if_pos (by omega)] at hapart
      split
      · exact Ordered.guardedFlush (h.congr rfl rfl rfl rfl) hapart
      · exact h.congr rfl rfl rfl rfl
  | tick ms => exact h.congr rfl rfl rfl rfl

theorem ordered_new (config : QueueConfig Req Res) : (new config).Ordered := by
  refine ⟨List.Pairwise.nil, fun id => ?_⟩
  simp [new, writes, airborne]

/-- A sublist that misses what stands behind `u`, and no copy of `u`, ends
in `u`. -/
theorem getLast?_of_sublist {α : Type} [DecidableEq α] {l older newer : List α} {u : α}
    (hsub : l.Sublist (older ++ u :: newer)) (hnewer : ∀ v ∈ newer, v ∉ l)
    (hcount : l.count u = (older ++ u :: newer).count u) : l.getLast? = some u := by
  obtain ⟨a, b, rfl, ha, hb⟩ := List.sublist_append_iff.mp hsub
  have hnil : ∀ c : List α, c.Sublist newer → c.Sublist b → c = [] := by
    intro c hc hcb
    apply List.eq_nil_iff_forall_not_mem.mpr
    intro v hv
    exact hnewer v (hc.subset hv) (List.mem_append_right a (hcb.subset hv))
  rcases List.sublist_cons_iff.mp hb with hb | ⟨c, rfl, hc⟩
  · rw [hnil b hb (List.Sublist.refl b), List.append_nil, List.count_append,
      List.count_cons_self] at hcount
    have hle := ha.count_le u
    omega
  · rw [hnil c hc (List.sublist_cons_self u c)]
    simp

/-- The order of the stored updates decides what an idle queue leaves. -/
theorem Ordered.fresh (h : s.Ordered) : s.Fresh := by
  have hwrites : ∀ id, (s.writes id).Sublist (updatesOf id s.queued) := by
    intro id
    refine List.Sublist.trans ?_ (h.sublist id)
    rw [List.append_assoc]
    exact List.sublist_append_left _ _
  refine ⟨hwrites, fun hq hf id older u newer hqueued hkept hnewer => ?_⟩
  classical
  obtain ⟨lost, hplaced, hdropped, hlost⟩ := hkept
  have hu : u.id = id := by
    have hmem : u ∈ updatesOf id s.queued := by simp [hqueued]
    exact (mem_updatesOf.mp hmem).2
  -- an idle queue has stored every copy of a kept update
  have hstored : s.committed.flatten.count u = s.queued.count u := by
    have hcount := congrArg (Multiset.count u) hplaced
    simpa [places, flying, hq, hf, entries_eq_flatten, Multiset.count_eq_zero_of_notMem hlost,
      List.count_eq_zero_of_not_mem hdropped] using hcount
  refine getLast?_of_sublist (hqueued ▸ hwrites id) hnewer ?_
  rw [← hqueued, writes, updatesOf, updatesOf, List.count_filter (by simpa using hu),
    List.count_filter (by simpa using hu)]
  exact hstored

/-- In every run in which no step flushes an update of a capture that is
in flight, no update is stored after a newer one of its capture. -/
theorem fresh_of_not_overlaps (config : QueueConfig Req Res) (ops : List (Op Req Res))
    (h : StepsMeet step (fun s op => ¬ s.Overlaps op) (new config) ops) :
    (after config ops).Fresh := by
  have hordered : (after config ops).Ordered :=
    run_invariant_of_stepsMeet (I := Ordered) (fun _ op hs hop => ordered_step hs op hop)
      (ordered_new config) h
  exact hordered.fresh

/-! ## Guarded flushes -/

/-- One batch is in flight while `this.flushing` runs, and none otherwise. -/
def Serial (s : WriteQueue Req Res) : Prop :=
  match s.flushing with
  | some .running => ∃ batch, s.inFlight = [⟨batch, true⟩]
  | some (.settled _) | none => s.inFlight = []

theorem Serial.guardedFlush (h : s.Serial) : s.guardedFlush.Serial := by
  unfold WriteQueue.guardedFlush
  split
  · exact h
  · rename_i hnone
    simp only [Serial, hnone] at h
    simp only [WriteQueue.flushNow, WriteQueue.settle]
    split
    · simp [Serial, h]
    · simp [Serial, h]

theorem Serial.clearFlushTimer (h : s.Serial) : s.clearFlushTimer.Serial := by
  unfold WriteQueue.clearFlushTimer
  split
  · exact h
  · exact h

theorem Serial.dropOverflow (h : s.Serial) : s.dropOverflow.Serial := by
  unfold WriteQueue.dropOverflow
  split
  · split
    · exact h
    · exact h
  · exact h

theorem Serial.drainLoop (h : s.Serial) (rest : List (QueuedUpdate Req Res)) :
    (s.drainLoop rest).Serial := by
  induction rest generalizing s with
  | nil => exact h
  | cons x rest ih =>
    simp only [WriteQueue.drainLoop]
    split
    · exact h
    · exact ih h

@[simp] theorem flushFailed_inFlight (batch : List (QueuedUpdate Req Res)) :
    (s.flushFailed batch).inFlight = s.inFlight := by
  simp only [WriteQueue.flushFailed]
  split
  · rfl
  · rfl

/-- Without a direct `flushNow` the batches go one after the other. -/
theorem serial_step (h : s.Serial) {op : Op Req Res} (hop : op ≠ .flushNow) :
    (s.step op).Serial := by
  cases op with
  | queueUpdate id reqMeta res =>
    let item : QueuedUpdate Req Res := ⟨id, reqMeta, res⟩
    have h₀ : { s with queue := s.queue ++ [item], queued := s.queued ++ [item] }.Serial := h
    simp only [step, WriteQueue.queueUpdate]
    split
    · exact h
    · exact h₀.clearFlushTimer.guardedFlush.dropOverflow
  | flushNow => exact absurd rfl hop
  | drainForShutdown =>
    have h₀ : { s.clearFlushTimer with retryTimer := none }.Serial := h.clearFlushTimer
    exact h₀.drainLoop _
  | flushTimeout id =>
    simp only [step]
    split
    · exact h
    · split
      · exact Serial.guardedFlush h
      · exact h
  | retryTimeout =>
    simp only [step]
    split
    · exact h
    · split
      · exact Serial.guardedFlush h
      · exact h
  | reply n reply =>
    simp only [step, WriteQueue.resume]
    split
    · exact h
    · rename_i f hf
      unfold Serial at h
      split at h
      · obtain ⟨batch, hflight⟩ := h
        rw [hflight, List.getElem?_singleton] at hf
        split at hf
        · rename_i hn
          obtain rfl := hn
          obtain rfl := Option.some.inj hf
          cases reply with
          | resolved throws => simp [WriteQueue.flushDone, WriteQueue.settle, Serial, hflight]
          | rejected => simp [WriteQueue.settle, Serial, hflight]
        · cases hf
      all_goals
        rw [h] at hf
        cases hf
  | finallyHandler =>
    simp only [step, finallyHandler]
    split
    · rename_i ok hsettled
      simpa [Serial, hsettled] using h
    · exact h
  | thenHandler =>
    simp only [step, thenHandler]
    split
    · exact h
    · split
      · exact Serial.guardedFlush h
      · exact h
  | tick ms => exact h

/-- A guarded flush finds no batch in flight. -/
theorem Serial.not_overlaps (h : s.Serial) {op : Op Req Res} (hop : op ≠ .flushNow) :
    ¬ s.Overlaps op := by
  have hguarded : ∀ queue, Disjoint s.airborne (s.guardedTaken queue) := by
    intro queue x hx y hy
    unfold guardedTaken at hy
    split at hy
    · exact absurd hy List.not_mem_nil
    · rename_i hnone
      simp only [Serial, hnone] at h
      simp [airborne, h] at hx
  have hnil : Disjoint s.airborne [] := fun _ _ _ hy => absurd hy List.not_mem_nil
  refine not_not.mpr ?_
  cases op with
  | queueUpdate id reqMeta res =>
    simp only [taken]
    split
    · exact hguarded _
    · exact hnil
  | flushNow => exact absurd rfl hop
  | flushTimeout id =>
    simp only [taken]
    split
    · exact hnil
    · split
      · exact hguarded _
      · exact hnil
  | retryTimeout =>
    simp only [taken]
    split
    · exact hnil
    · split
      · exact hguarded _
      · exact hnil
  | thenHandler =>
    simp only [taken]
    split
    · exact hguarded _
    · exact hnil
  | drainForShutdown | reply n reply | finallyHandler | tick ms => exact hnil

/-- As long as nothing calls `flushNow` directly, no flush overlaps another. -/
theorem not_overlaps_of_guarded (h : s.Serial) {ops : List (Op Req Res)}
    (hops : ∀ op ∈ ops, op ≠ .flushNow) :
    StepsMeet step (fun s op => ¬ s.Overlaps op) s ops := by
  induction ops generalizing s with
  | nil => trivial
  | cons op ops ih =>
    have hop := hops op List.mem_cons_self
    exact ⟨h.not_overlaps hop,
      ih (serial_step h hop) fun op' hop' => hops op' (List.mem_cons_of_mem op hop')⟩

/-! ## A run that goes wrong -/

/-- Two updates of capture 1: the shutdown flushes the second while the
first is in flight. The store rejects the first, then resolves the other
two batches in the order they were sent. -/
def overtaken : List (Op Unit Nat) :=
  [.queueUpdate 1 () 1, .queueUpdate 1 () 2, .flushNow, .reply 0 .rejected, .finallyHandler,
    .thenHandler, .reply 0 (.resolved false), .reply 0 (.resolved false)]

/-- The queue is idle, dropped nothing, and the row holds the older update. -/
theorem stale_retry_wins :
    let s := after ⟨50, 1, 100, fun _ => false⟩ overtaken
    s.queue = [] ∧ s.inFlight = [] ∧ s.dropped = [] ∧ s.queued = [⟨1, (), 1⟩, ⟨1, (), 2⟩] ∧
      s.row 1 = some ⟨1, (), 1⟩ ∧ ¬ s.Fresh := by
  refine ⟨by decide +kernel, by decide +kernel, by decide +kernel, by decide +kernel,
    by decide +kernel, fun h => ?_⟩
  have hordered : ¬ (writes (after ⟨50, 1, 100, fun _ => false⟩ overtaken) 1).Sublist
      (updatesOf 1 (after ⟨50, 1, 100, fun _ => false⟩ overtaken).queued) := by decide +kernel
  exact hordered (h.ordered 1)

/-- Two updates of one capture, flushed one after the other. -/
theorem fresh_in_turn :
    (after ⟨50, 1, 100, fun _ => false⟩ ([.queueUpdate 1 () 1, .reply 0 (.resolved false),
      .finallyHandler, .queueUpdate 1 () 2, .reply 0 (.resolved false)] : List (Op Unit Nat))).Fresh :=
  fresh_of_not_overlaps _ _ (by
    simp [StepsMeet, Overlaps, Disjoint, airborne, taken, guardedTaken, step, new,
      WriteQueue.queueUpdate, WriteQueue.clearFlushTimer, WriteQueue.guardedFlush,
      WriteQueue.flushNow, WriteQueue.dropOverflow, WriteQueue.resume, WriteQueue.flushDone,
      WriteQueue.settle, WriteQueue.finallyHandler])

end WriteQueue

end UmansGate.Queue
