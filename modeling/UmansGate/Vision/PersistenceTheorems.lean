/-
UmansGate.Vision.PersistenceTheorems — what a read of the persistent
description store returns.

A set is pending, in the database, or dropped by the third flush that failed
in a row. The log of a run has every set with a mark on the dropped ones;
`Backed` says that the pending writes are its end and that a row holds the
last set before them that was not dropped. So a read returns the latest set
that was not dropped, and where a drop took a newer one, the older one
again.
-/
import UmansGate.Lib.Transition
import UmansGate.Vision.CacheTheorems

namespace UmansGate.Vision

open UmansGate.Lib

variable {κ α : Type} [DecidableEq κ]

/-! ## Runs -/

/-- A set, and whether a flush dropped it. -/
abbrev LoggedSet (κ α : Type) := PendingWrite κ α × Bool

structure StoreRun (κ α : Type) where
  store : PersistentDescriptionStore κ α
  /-- Every set, the oldest first. -/
  log : List (LoggedSet κ α)
  /-- The flushes that had something to write: whether they failed. -/
  flushes : List Bool
  /-- The keys whose row was evicted and not stored again. -/
  evicted : List κ

inductive StoreOp (κ α : Type) where
  | get (now : Int) (key : κ)
  | set (now : Int) (key : κ) (description : α) (fails : Bool)
  | evict (now : Int)
  | flushNow (fails : Bool)
  | close (fails : Bool)

namespace PersistentDescriptionStore

/-- A flush has something to write. -/
def tries (p : PersistentDescriptionStore κ α) : Bool := !p.closed && !p.pendingWrites.isEmpty

/-- A flush drops its batch. -/
def drops (p : PersistentDescriptionStore κ α) (fails : Bool) : Bool :=
  p.tries && fails && decide (p.flushRetries + 1 ≥ MAX_FLUSH_RETRIES)

/-- A set before it flushes. -/
def push (p : PersistentDescriptionStore κ α) (w : PendingWrite κ α) :
    PersistentDescriptionStore κ α :=
  { p with pendingWrites := p.pendingWrites ++ [w] }

end PersistentDescriptionStore

namespace StoreRun

/-- The last `n` sets are dropped. -/
def dropLast (n : ℕ) (log : List (LoggedSet κ α)) : List (LoggedSet κ α) :=
  log.take (log.length - n) ++ (log.drop (log.length - n)).map fun e => (e.1, true)

def flushNow (s : StoreRun κ α) (fails : Bool) : StoreRun κ α where
  store := s.store.flushNow fails
  log := if s.store.drops fails then dropLast s.store.pendingWrites.length s.log else s.log
  flushes := if s.store.tries then s.flushes ++ [fails] else s.flushes
  evicted :=
    if s.store.tries && !fails then
      s.evicted.filter fun key => key ∉ s.store.pendingWrites.map (·.key)
    else s.evicted

def maybeEvict (s : StoreRun κ α) (now : Int) : StoreRun κ α :=
  let store := s.store.maybeEvict now
  { s with
    store := store
    evicted := s.evicted ++ s.store.rows.keys.filter fun key => (store.rows.get? key).isNone }

def push (s : StoreRun κ α) (w : PendingWrite κ α) : StoreRun κ α :=
  { s with store := s.store.push w, log := s.log ++ [(w, false)] }

def set (s : StoreRun κ α) (now : Int) (key : κ) (description : α) (fails : Bool) : StoreRun κ α :=
  let s := s.push ⟨key, description, now⟩
  let s := if s.store.pendingWrites.length ≥ s.store.flushBatch then s.flushNow fails
    else { s with store := { s.store with flushTimer := true } }
  s.maybeEvict now

def step (s : StoreRun κ α) : StoreOp κ α → StoreRun κ α
  | .get now key => { s with store := (s.store.get now key).1 }
  | .set now key description fails => s.set now key description fails
  | .evict now => s.maybeEvict now
  | .flushNow fails => s.flushNow fails
  | .close fails =>
    let s := s.flushNow fails
    { s with store := { s.store with closed := true } }

/-- The store over the rows of an earlier process, each a set of it. -/
def init (ttlMs : Int) (maxRows flushBatch : ℕ) (rows : Dict κ (DescriptionRow α)) :
    StoreRun κ α where
  store := .new ttlMs maxRows flushBatch rows
  log := rows.reverse.map fun r => (⟨r.1, r.2.description, r.2.createdAt⟩, false)
  flushes := []
  evicted := []

theorem store_set (s : StoreRun κ α) (now : Int) (key : κ) (description : α) (fails : Bool) :
    (s.set now key description fails).store = s.store.set now key description fails := by
  have hpush : (s.push ⟨key, description, now⟩).store =
      { s.store with pendingWrites := s.store.pendingWrites ++ [⟨key, description, now⟩] } := rfl
  unfold StoreRun.set PersistentDescriptionStore.set
  simp only [hpush]
  split
  · rfl
  · rfl

/-- The store of a run is the one its calls lead to. -/
theorem store_step (s : StoreRun κ α) (op : StoreOp κ α) : (s.step op).store =
    match op with
    | .get now key => (s.store.get now key).1
    | .set now key description fails => s.store.set now key description fails
    | .evict now => s.store.maybeEvict now
    | .flushNow fails => s.store.flushNow fails
    | .close fails => s.store.close fails := by
  cases op with
  | set now key description fails => exact s.store_set now key description fails
  | _ => rfl

/-- The latest set of a key. -/
def latest (log : List (LoggedSet κ α)) (key : κ) : Option (PendingWrite κ α) :=
  ((log.map Prod.fst).reverse).find? (·.key = key)

/-- The latest that was not dropped. -/
def latestKept (log : List (LoggedSet κ α)) (key : κ) : Option (PendingWrite κ α) :=
  latest (log.filter fun e => !e.2) key

/-- The row of the key was evicted, and no set of it is pending. -/
def Evicted (s : StoreRun κ α) (key : κ) : Prop :=
  key ∈ s.evicted ∧ key ∉ s.store.pendingWrites.map (·.key)

instance (s : StoreRun κ α) (key : κ) : Decidable (s.Evicted key) :=
  inferInstanceAs (Decidable (_ ∧ _))

/-- The latest set that was not dropped, unless it is evicted or expired. -/
def readable (s : StoreRun κ α) (now : Int) (key : κ) : Option α :=
  (latestKept s.log key).bind fun w =>
    if s.Evicted key ∨ now - w.now > s.store.ttlMs then none else some w.description

/-! ## Logs -/

section Log

variable {log log' : List (LoggedSet κ α)} {key : κ}

theorem latest_append : latest (log ++ log') key = (latest log' key).or (latest log key) := by
  rw [latest, List.map_append, List.reverse_append, List.find?_append]
  rfl

theorem latestKept_append :
    latestKept (log ++ log') key = (latestKept log' key).or (latestKept log key) := by
  rw [latestKept, List.filter_append, latest_append]
  rfl

/-- Pending writes are not dropped. -/
theorem latestKept_pending (pending : List (PendingWrite κ α)) (key : κ) :
    latestKept (pending.map fun w => (w, false)) key = pending.reverse.find? (·.key = key) := by
  have hkept : (pending.map fun w => (w, false)).filter (fun e : LoggedSet κ α => !e.2) =
      pending.map fun w => (w, false) := by
    rw [List.filter_eq_self]
    intro e he
    obtain ⟨w, -, rfl⟩ := List.mem_map.mp he
    rfl
  rw [latestKept, hkept, latest, List.map_map]
  exact congrArg (fun l => List.find? _ (List.reverse l)) (List.map_id pending)

theorem latestKept_dropped (pending : List (PendingWrite κ α)) (key : κ) :
    latestKept (pending.map fun w => (w, true)) key = none := by
  have hnone : (pending.map fun w => (w, true)).filter (fun e : LoggedSet κ α => !e.2) = [] := by
    rw [List.filter_eq_nil_iff]
    intro e he
    obtain ⟨w, -, rfl⟩ := List.mem_map.mp he
    simp
  rw [latestKept, hnone]
  rfl

/-- Where nothing was dropped the latest set is the one that counts. -/
theorem latestKept_eq_latest (h : ∀ e ∈ log, e.2 = false) : latestKept log key = latest log key := by
  rw [latestKept, List.filter_eq_self.mpr fun e he => by rw [h e he]; rfl]

omit [DecidableEq κ] in
theorem dropLast_append (settled : List (LoggedSet κ α)) (pending : List (PendingWrite κ α)) :
    dropLast pending.length (settled ++ pending.map fun w => (w, false)) =
      settled ++ pending.map fun w => (w, true) := by
  have hlength : (settled ++ pending.map fun w => (w, false)).length - pending.length =
      settled.length := by
    rw [List.length_append, List.length_map, Nat.add_sub_cancel]
  rw [dropLast, hlength, List.take_left, List.drop_left, List.map_map]
  rfl

end Log

/-! ## Rows -/

/-- A row without its access time. -/
def written (row : DescriptionRow α) : α × Int := (row.description, row.createdAt)

/-- What a set writes. -/
def toWrite (w : PendingWrite κ α) : α × Int := (w.description, w.now)

/-- A flush leaves the last of its writes under each key. -/
theorem get?_foldl_upsert (pending : List (PendingWrite κ α)) (rows : Dict κ (DescriptionRow α))
    (key : κ) : ((pending.foldl PersistentDescriptionStore.upsert rows).get? key).map written =
      ((pending.reverse.find? (·.key = key)).map toWrite).or ((rows.get? key).map written) := by
  induction pending generalizing rows with
  | nil => rfl
  | cons w pending ih =>
    rw [List.foldl_cons, ih, List.reverse_cons, List.find?_append, PersistentDescriptionStore.upsert,
      Dict.get?_set]
    cases pending.reverse.find? (·.key = key) with
    | some w' => rfl
    | none =>
      by_cases hkey : w.key = key
      · simp [hkey, written, toWrite]
      · simp [hkey]

theorem get?_filter_keys (rows : Dict κ (DescriptionRow α)) (keys : List κ) (key : κ) :
    Dict.get? (rows.filter fun r => r.1 ∉ keys) key =
      if key ∈ keys then none else rows.get? key := by
  induction rows with
  | nil => simp
  | cons r rows ih =>
    obtain ⟨k, row⟩ := r
    by_cases hk : k ∈ keys
    · rw [List.filter_cons_of_neg (by simpa using hk), ih, Dict.get?_cons]
      by_cases heq : k = key
      · rw [← heq, if_pos hk, if_pos hk]
      · rw [if_neg heq]
    · rw [List.filter_cons_of_pos (by simpa using hk), Dict.get?_cons, Dict.get?_cons, ih]
      by_cases heq : k = key
      · rw [if_pos heq, if_pos heq, ← heq, if_neg hk]
      · rw [if_neg heq, if_neg heq]

/-- An eviction keeps a row or deletes it. -/
theorem get?_maybeEvict (p : PersistentDescriptionStore κ α) (now : Int) (key : κ) :
    (p.maybeEvict now).rows.get? key = none ∨ (p.maybeEvict now).rows.get? key = p.rows.get? key := by
  unfold PersistentDescriptionStore.maybeEvict
  split
  · exact .inr rfl
  · simp only [PersistentDescriptionStore.evict, get?_filter_keys]
    split
    · exact .inl rfl
    · split
      · exact .inl rfl
      · exact .inr rfl

theorem pendingWrites_maybeEvict (p : PersistentDescriptionStore κ α) (now : Int) :
    (p.maybeEvict now).pendingWrites = p.pendingWrites := by
  unfold PersistentDescriptionStore.maybeEvict
  split <;> rfl

theorem flushRetries_maybeEvict (p : PersistentDescriptionStore κ α) (now : Int) :
    (p.maybeEvict now).flushRetries = p.flushRetries := by
  unfold PersistentDescriptionStore.maybeEvict
  split <;> rfl

/-- A read keeps what is written in the rows. -/
theorem written_get (p : PersistentDescriptionStore κ α) (now : Int) (key key' : κ) :
    ((p.get now key).1.rows.get? key').map written = (p.rows.get? key').map written := by
  unfold PersistentDescriptionStore.get
  split
  · rfl
  · split
    · rfl
    · rename_i row hrow
      rw [Dict.get?_set]
      by_cases hkey : key = key'
      · rw [if_pos hkey, ← hkey, hrow]
        rfl
      · rw [if_neg hkey]

/-- A key is pending where a read finds a write of it. -/
theorem mem_pending_iff (pending : List (PendingWrite κ α)) (key : κ) :
    key ∈ pending.map (·.key) ↔ (pending.reverse.find? (·.key = key)).isSome = true := by
  rw [List.find?_isSome]
  simp

/-! ## The invariant -/

/-- The log is what was settled, then the pending writes; a row is the latest
settled set that was kept, unless it was evicted; and a set was dropped only
behind `MAX_FLUSH_RETRIES` failures in a row. -/
structure Backed (s : StoreRun κ α) (settled : List (LoggedSet κ α)) : Prop where
  log : s.log = settled ++ s.store.pendingWrites.map fun w => (w, false)
  rows : ∀ key, (s.store.rows.get? key).map written =
    if key ∈ s.evicted then none else (latestKept settled key).map toWrite
  retries : List.replicate s.store.flushRetries true <:+ s.flushes
  dropped : ∀ e ∈ s.log, e.2 = true → List.replicate MAX_FLUSH_RETRIES true <:+: s.flushes

variable {s : StoreRun κ α} {settled : List (LoggedSet κ α)}

theorem Backed.latestKept (h : s.Backed settled) (key : κ) : latestKept s.log key =
    (s.store.pendingWrites.reverse.find? (·.key = key)).or (latestKept settled key) := by
  rw [h.log, latestKept_append, latestKept_pending]

theorem Backed.push (h : s.Backed settled) (w : PendingWrite κ α) : (s.push w).Backed settled := by
  refine ⟨?_, h.rows, h.retries, fun e he hdropped => ?_⟩
  · show s.log ++ [(w, false)] = settled ++ (s.store.pendingWrites ++ [w]).map fun w => (w, false)
    rw [h.log, List.map_append, List.append_assoc]
    rfl
  · rcases List.mem_append.mp (he : e ∈ s.log ++ [(w, false)]) with he | he
    · exact h.dropped e he hdropped
    · rw [List.mem_singleton.mp he] at hdropped
      cases hdropped

theorem Backed.maybeEvict (h : s.Backed settled) (now : Int) : (s.maybeEvict now).Backed settled := by
  refine ⟨?_, fun key => ?_, ?_, h.dropped⟩
  · rw [StoreRun.maybeEvict, pendingWrites_maybeEvict]
    exact h.log
  · have hgone : key ∈ (s.maybeEvict now).evicted ↔
        key ∈ s.evicted ∨ (s.store.rows.get? key ≠ none ∧
          (s.store.maybeEvict now).rows.get? key = none) := by
      rw [StoreRun.maybeEvict, List.mem_append, List.mem_filter, Option.isNone_iff_eq_none]
      refine or_congr_right (and_congr_left fun _ => ⟨Dict.get?_ne_none_of_mem, fun hne => ?_⟩)
      by_contra hnot
      exact hne (Dict.get?_eq_none_of_not_mem hnot)
    have hrow := h.rows key
    show ((s.store.maybeEvict now).rows.get? key).map written = _
    rcases get?_maybeEvict s.store now key with hnone | hsame
    · rw [hnone, Option.map_none]
      by_cases hmem : key ∈ (s.maybeEvict now).evicted
      · rw [if_pos hmem]
      · have hnot : key ∉ s.evicted ∧ s.store.rows.get? key = none := by
          by_contra hc
          exact hmem (hgone.mpr (by tauto))
        rw [if_neg hnot.1, hnot.2] at hrow
        rw [if_neg hmem, ← hrow, Option.map_none]
    · rw [hsame, hrow]
      by_cases hmem : key ∈ s.evicted
      · rw [if_pos hmem, if_pos (hgone.mpr (.inl hmem))]
      · rw [if_neg hmem] at hrow ⊢
        by_cases hmem' : key ∈ (s.maybeEvict now).evicted
        · obtain ⟨hne, hnone⟩ := (hgone.mp hmem').resolve_left hmem
          exact absurd (hsame.symm.trans hnone) hne
        · rw [if_neg hmem']
  · rw [StoreRun.maybeEvict, flushRetries_maybeEvict]
    exact h.retries

/-! ## What a flush does -/

/-- The run behind a flush that stored its batch. -/
def stored (s : StoreRun κ α) : StoreRun κ α where
  store := { s.store with
    flushTimer := false
    rows := s.store.pendingWrites.foldl PersistentDescriptionStore.upsert s.store.rows
    pendingWrites := []
    flushRetries := 0 }
  log := s.log
  flushes := s.flushes ++ [false]
  evicted := s.evicted.filter fun key => key ∉ s.store.pendingWrites.map (·.key)

/-- The run behind a flush that queued its batch again. -/
def requeued (s : StoreRun κ α) : StoreRun κ α :=
  { s with
    store := { s.store with flushTimer := false, flushRetries := s.store.flushRetries + 1 }
    flushes := s.flushes ++ [true] }

/-- The run behind a flush that dropped it. -/
def gaveUp (s : StoreRun κ α) : StoreRun κ α :=
  { s with
    store := { s.store with flushTimer := false, pendingWrites := [], flushRetries := 0 }
    log := dropLast s.store.pendingWrites.length s.log
    flushes := s.flushes ++ [true] }

theorem flushNow_cases (s : StoreRun κ α) (fails : Bool) :
    s.flushNow fails = { s with store := { s.store with flushTimer := false } } ∨
      s.flushNow fails = s.stored ∨ s.flushNow fails = s.requeued ∨
      (s.flushNow fails = s.gaveUp ∧ s.store.flushRetries + 1 ≥ MAX_FLUSH_RETRIES) := by
  by_cases htries : s.store.tries = true
  · right
    have hopen : ¬ (s.store.closed = true ∨ s.store.pendingWrites = []) := by
      simpa [PersistentDescriptionStore.tries] using htries
    cases fails with
    | false =>
      left
      have hstore : s.store.flushNow false = s.stored.store :=
        (if_neg hopen).trans (if_neg Bool.false_ne_true)
      simp [StoreRun.flushNow, hstore, PersistentDescriptionStore.drops, htries, stored]
    | true =>
      right
      by_cases hlast : s.store.flushRetries + 1 ≥ MAX_FLUSH_RETRIES
      · have hstore : s.store.flushNow true = s.gaveUp.store :=
          (if_neg hopen).trans ((if_pos rfl).trans (if_pos hlast))
        right
        refine ⟨?_, hlast⟩
        simp [StoreRun.flushNow, hstore, PersistentDescriptionStore.drops, htries, hlast, gaveUp]
      · have hstore : s.store.flushNow true = s.requeued.store :=
          (if_neg hopen).trans ((if_pos rfl).trans (if_neg hlast))
        left
        simp [StoreRun.flushNow, hstore, PersistentDescriptionStore.drops, htries, hlast, requeued]
  · left
    have hclosed : s.store.closed = true ∨ s.store.pendingWrites = [] := by
      by_contra hopen
      exact htries (by simpa [PersistentDescriptionStore.tries] using hopen)
    have hstore : s.store.flushNow fails = { s.store with flushTimer := false } := if_pos hclosed
    rw [Bool.not_eq_true] at htries
    simp [StoreRun.flushNow, hstore, PersistentDescriptionStore.drops, htries]

/-- A flush that adds to the flushes keeps what was dropped before. -/
theorem Backed.dropped_concat (h : s.Backed settled) (failed : Bool) (e : LoggedSet κ α)
    (he : e ∈ s.log) (hdropped : e.2 = true) :
    List.replicate MAX_FLUSH_RETRIES true <:+: s.flushes ++ [failed] :=
  (h.dropped e he hdropped).trans (List.prefix_append _ _).isInfix

/-- The batch is settled, and its keys have their rows again. -/
theorem Backed.stored (h : s.Backed settled) : s.stored.Backed s.log := by
  refine ⟨(List.append_nil _).symm, fun key => ?_, List.nil_suffix, h.dropped_concat false⟩
  show ((s.store.pendingWrites.foldl PersistentDescriptionStore.upsert s.store.rows).get? key).map
    written = _
  rw [get?_foldl_upsert, h.rows, h.latestKept]
  have hmem : key ∈ s.stored.evicted ↔
      key ∈ s.evicted ∧ key ∉ s.store.pendingWrites.map (·.key) := by
    simp [StoreRun.stored]
  cases hfind : s.store.pendingWrites.reverse.find? (·.key = key) with
  | some w =>
    have hpending := (mem_pending_iff s.store.pendingWrites key).mpr (by rw [hfind]; rfl)
    rw [if_neg fun hin => (hmem.mp hin).2 hpending]
    rfl
  | none =>
    have hpending : key ∉ s.store.pendingWrites.map (·.key) := by
      rw [mem_pending_iff, hfind]
      exact Bool.false_ne_true
    rw [Option.map_none, Option.none_or, Option.none_or]
    simp only [hmem, hpending, not_false_iff, and_true]

/-- One more failure in a row. -/
theorem Backed.retries_concat (h : s.Backed settled) :
    List.replicate (s.store.flushRetries + 1) true <:+ s.flushes ++ [true] := by
  obtain ⟨before, hbefore⟩ := h.retries
  refine ⟨before, ?_⟩
  rw [List.replicate_succ', ← List.append_assoc, hbefore]

theorem Backed.requeued (h : s.Backed settled) : s.requeued.Backed settled :=
  ⟨h.log, h.rows, h.retries_concat, h.dropped_concat true⟩

/-- The batch is settled and counts no more. -/
theorem Backed.gaveUp (h : s.Backed settled)
    (hlast : s.store.flushRetries + 1 ≥ MAX_FLUSH_RETRIES) :
    s.gaveUp.Backed (settled ++ s.store.pendingWrites.map fun w => (w, true)) := by
  refine ⟨?_, fun key => ?_, List.nil_suffix, fun _ _ _ => ?_⟩
  · show dropLast s.store.pendingWrites.length s.log = _
    rw [h.log, dropLast_append]
    exact (List.append_nil _).symm
  · rw [latestKept_append, latestKept_dropped, Option.none_or]
    exact h.rows key
  · refine List.IsInfix.trans ?_ h.retries_concat.isInfix
    rw [← Nat.sub_add_cancel hlast, List.replicate_add]
    exact (List.suffix_append _ _).isInfix

/-- A flush settles the pending writes or leaves them. -/
theorem Backed.flushNow (h : s.Backed settled) (fails : Bool) :
    ∃ settled', (s.flushNow fails).Backed settled' := by
  rcases s.flushNow_cases fails with hidle | hstored | hrequeued | ⟨hgaveUp, hlast⟩
  · exact ⟨settled, by rw [hidle]; exact ⟨h.log, h.rows, h.retries, h.dropped⟩⟩
  · exact ⟨s.log, by rw [hstored]; exact h.stored⟩
  · exact ⟨settled, by rw [hrequeued]; exact h.requeued⟩
  · exact ⟨_, by rw [hgaveUp]; exact h.gaveUp hlast⟩

/-! ## Reads -/

theorem Backed.step (h : s.Backed settled) (op : StoreOp κ α) :
    ∃ settled', (s.step op).Backed settled' := by
  cases op with
  | get now key =>
    have hpending : (s.store.get now key).1.pendingWrites = s.store.pendingWrites ∧
        (s.store.get now key).1.flushRetries = s.store.flushRetries := by
      unfold PersistentDescriptionStore.get
      split
      · exact ⟨rfl, rfl⟩
      · split <;> exact ⟨rfl, rfl⟩
    refine ⟨settled, ?_, fun key' => ?_, ?_, h.dropped⟩
    · rw [StoreRun.step, hpending.1]
      exact h.log
    · exact (written_get s.store now key key').trans (h.rows key')
    · rw [StoreRun.step, hpending.2]
      exact h.retries
  | set now key description fails =>
    have hpush := h.push ⟨key, description, now⟩
    simp only [StoreRun.step, StoreRun.set]
    split
    · obtain ⟨settled', hflush⟩ := hpush.flushNow fails
      exact ⟨settled', hflush.maybeEvict now⟩
    · have htimer : { s.push ⟨key, description, now⟩ with store :=
          { (s.push ⟨key, description, now⟩).store with flushTimer := true } }.Backed settled :=
        ⟨hpush.log, hpush.rows, hpush.retries, hpush.dropped⟩
      exact ⟨settled, htimer.maybeEvict now⟩
  | evict now => exact ⟨settled, h.maybeEvict now⟩
  | flushNow fails => exact h.flushNow fails
  | close fails =>
    obtain ⟨settled', hflush⟩ := h.flushNow fails
    exact ⟨settled', hflush.log, hflush.rows, hflush.retries, hflush.dropped⟩

/-- The rows of an earlier process are its sets. -/
theorem backed_init (ttlMs : Int) (maxRows flushBatch : ℕ) (rows : Dict κ (DescriptionRow α)) :
    (init ttlMs maxRows flushBatch rows).Backed (init ttlMs maxRows flushBatch rows).log := by
  refine ⟨(List.append_nil _).symm, fun key => ?_, List.nil_suffix, fun e he hdropped => ?_⟩
  · show (rows.get? key).map written = (latestKept (rows.reverse.map fun r =>
      ((⟨r.1, r.2.description, r.2.createdAt⟩ : PendingWrite κ α), false)) key).map toWrite
    induction rows with
    | nil => rfl
    | cons r rows ih =>
      obtain ⟨k, row⟩ := r
      rw [List.reverse_cons, List.map_append, latestKept_append, Dict.get?_cons]
      by_cases hkey : k = key
      · simp [latestKept, latest, hkey, written, toWrite]
      · rw [if_neg hkey, ih]
        simp [latestKept, latest, hkey]
  · obtain ⟨r, -, rfl⟩ := List.mem_map.mp he
    cases hdropped

theorem backed_run (ttlMs : Int) (maxRows flushBatch : ℕ) (rows : Dict κ (DescriptionRow α))
    (ops : List (StoreOp κ α)) :
    ∃ settled, (run step (init ttlMs maxRows flushBatch rows) ops).Backed settled :=
  run_invariant (I := fun s : StoreRun κ α => ∃ settled, s.Backed settled)
    (fun _ op h => h.elim fun _ hb => hb.step op) ⟨_, backed_init ttlMs maxRows flushBatch rows⟩ ops

/-- A read returns the latest set that was not dropped. -/
theorem Backed.read (h : s.Backed settled) (now : Int) (key : κ) :
    (s.store.get now key).2 = s.readable now key := by
  rw [readable, h.latestKept]
  unfold PersistentDescriptionStore.get
  cases hfind : s.store.pendingWrites.reverse.find? (·.key = key) with
  | some w =>
    have hpending := (mem_pending_iff s.store.pendingWrites key).mpr (by rw [hfind]; rfl)
    simp [Evicted, hpending]
  | none =>
    have hpending : key ∉ s.store.pendingWrites.map (·.key) := by
      rw [mem_pending_iff, hfind]
      exact Bool.false_ne_true
    have hrow := h.rows key
    rw [Option.none_or]
    by_cases hevicted : key ∈ s.evicted
    · rw [if_pos hevicted, Option.map_eq_none_iff] at hrow
      rw [hrow]
      cases StoreRun.latestKept settled key with
      | none => rfl
      | some w => simp [Evicted, hevicted, hpending]
    · rw [if_neg hevicted] at hrow
      cases hget : s.store.rows.get? key with
      | none =>
        rw [hget, Option.map_none, eq_comm, Option.map_eq_none_iff] at hrow
        rw [hrow]
        rfl
      | some row =>
        rw [hget, Option.map_some, eq_comm, Option.map_eq_some_iff] at hrow
        obtain ⟨w, hw, hwrote⟩ := hrow
        rw [hw]
        simp only [toWrite, written, Prod.mk.injEq] at hwrote
        simp [Evicted, hevicted, hwrote]

/-- What a read of a key returns. -/
structure ReadsYourWrites (s : StoreRun κ α) (now : Int) (key : κ) : Prop where
  /-- The latest set that was not dropped, or null if it is expired or evicted. -/
  read : (s.store.get now key).2 = s.readable now key
  /-- Without `MAX_FLUSH_RETRIES` failures in a row that is the latest set. -/
  latest : ¬ List.replicate MAX_FLUSH_RETRIES true <:+: s.flushes →
    latestKept s.log key = latest s.log key

/-- Every read of a run returns the latest set of its key that no flush
dropped. -/
theorem reads_your_writes (ttlMs : Int) (maxRows flushBatch : ℕ) (rows : Dict κ (DescriptionRow α))
    (ops : List (StoreOp κ α)) (now : Int) (key : κ) :
    (run step (init ttlMs maxRows flushBatch rows) ops).ReadsYourWrites now key := by
  obtain ⟨settled, h⟩ := backed_run ttlMs maxRows flushBatch rows ops
  refine ⟨h.read now key, fun hnot => latestKept_eq_latest fun e he => ?_⟩
  by_contra hdropped
  exact hnot (h.dropped e he (by simpa using hdropped))

/-! ### A dropped batch -/

/-- A description is stored, its successor fails three flushes. -/
def droppedUpdate : List (StoreOp ℕ ℕ) :=
  [.set 0 1 10 false, .flushNow false, .set 1 1 11 false, .flushNow true, .flushNow true,
    .flushNow true]

/-- The read returns the description before the latest. -/
theorem dropped_update_uncovers_older :
    ¬ ∀ (ops : List (StoreOp ℕ ℕ)) (now : Int) (key : ℕ),
      ((run step (init 1000 100 50 []) ops).store.get now key).2 = none ∨
        ((run step (init 1000 100 50 []) ops).store.get now key).2 =
          (latest (run step (init 1000 100 50 []) ops).log key).map (·.description) := by
  intro h
  have hread := h droppedUpdate 2 1
  revert hread
  decide

end StoreRun

end UmansGate.Vision
