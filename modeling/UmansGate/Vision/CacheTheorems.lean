/-
UmansGate.Vision.CacheTheorems — what holds of every description in the
two tiers.

`Holds P ttlMs` says that every description is kept under a date for which
`P` holds: the date of the last set in the LRU, `created_at` in the store.
Every operation keeps it that sets a description only where `P` holds of the
present date; `Served` adds that a call returns a description that is live
by its date. What a call promotes is a description the cache already has,
so the hypothesis on a promotion may use its older date.
-/
import UmansGate.Vision.DescriptionCache

namespace UmansGate.Vision

open UmansGate.Lib

variable {κ α : Type} [DecidableEq κ]

/-! ## What a call promotes -/

namespace DescriptionCache

/-- What a lookup takes over from the store. -/
def promotedKey (c : DescriptionCache κ α) (now : Int) (key : κ) : Option α :=
  if c.cache.has now key then none else c.stored now key

/-- What `getOrCompute` takes over from the store, or for a context from the
image-only key. -/
def promoted (c : DescriptionCache κ α) (now : Int) (imgKey : κ) (ctxKey : Option κ) : Option α :=
  if c.cache.has now (ctxKey.getD imgKey) then none
  else
    match c.stored now (ctxKey.getD imgKey), ctxKey with
    | some description, _ => some description
    | none, none => none
    | none, some _ => (c.cache.get now imgKey).2.or (c.stored now imgKey)

/-- The rows that `warmIntoCache` sets. -/
def warmed (c : DescriptionCache κ α) (now : Int) (limit : ℕ) (fails : Bool) :
    List (κ × DescriptionRow α) :=
  match c.persistent with
  | none => []
  | some p => (p.flushNow fails).listForWarming limit (now - p.ttlMs)

end DescriptionCache

/-! ## The tiers -/

variable {P : Int → α → Prop} {ttlMs now : Int} {key imgKey : κ} {ctxKey : Option κ} {d : α}

/-- The store has every description under a date for which `P` holds. -/
structure PersistentDescriptionStore.Holds (p : PersistentDescriptionStore κ α)
    (P : Int → α → Prop) (ttlMs : Int) : Prop where
  ttl : p.ttlMs = ttlMs
  pending : ∀ pw ∈ p.pendingWrites, P pw.now pw.description
  rows : ∀ row ∈ p.rows, P row.2.createdAt row.2.description

/-- So does the LRU. -/
structure DescriptionCache.Holds (c : DescriptionCache κ α) (P : Int → α → Prop) (ttlMs : Int) :
    Prop where
  ttl : c.cache.ttl = ttlMs
  cached : ∀ e ∈ c.cache.entries, P e.start e.value
  store : ∀ p, c.persistent = some p → p.Holds P ttlMs

namespace PersistentDescriptionStore

variable {p : PersistentDescriptionStore κ α} {fails : Bool}

theorem Holds.get (h : p.Holds P ttlMs) : (p.get now key).1.Holds P ttlMs := by
  unfold PersistentDescriptionStore.get
  split
  · exact h
  · split
    · exact h
    · rename_i row hrow
      refine ⟨h.ttl, h.pending, fun r hr => ?_⟩
      rcases Dict.mem_set hr with rfl | hr
      · have hdate := h.rows _ (Dict.mem_of_get? hrow)
        exact hdate
      · exact h.rows r hr

theorem Holds.get_live (h : p.Holds P ttlMs) (hd : (p.get now key).2 = some d) :
    ∃ t, P t d ∧ now - t ≤ ttlMs := by
  rw [← h.ttl]
  unfold PersistentDescriptionStore.get at hd
  split at hd
  · rename_i pw hpw
    have hmem : pw ∈ p.pendingWrites := List.mem_reverse.mp (List.mem_of_find?_eq_some hpw)
    simp only [Option.ite_none_left_eq_some, Option.some.injEq] at hd
    obtain ⟨hlive, rfl⟩ := hd
    exact ⟨pw.now, h.pending pw hmem, by omega⟩
  · split at hd
    · cases hd
    · rename_i row hrow
      simp only [Option.ite_none_left_eq_some, Option.some.injEq] at hd
      obtain ⟨hlive, rfl⟩ := hd
      exact ⟨row.createdAt, h.rows _ (Dict.mem_of_get? hrow), by omega⟩

theorem holds_upsert {rows : Dict κ (DescriptionRow α)} {pw : PendingWrite κ α}
    (h : ∀ row ∈ rows, P row.2.createdAt row.2.description) (hpw : P pw.now pw.description) :
    ∀ row ∈ upsert rows pw, P row.2.createdAt row.2.description := by
  intro row hrow
  rcases Dict.mem_set hrow with rfl | hrow
  · exact hpw
  · exact h row hrow

theorem holds_foldl_upsert {rows : Dict κ (DescriptionRow α)} {pws : List (PendingWrite κ α)}
    (h : ∀ row ∈ rows, P row.2.createdAt row.2.description)
    (hpws : ∀ pw ∈ pws, P pw.now pw.description) :
    ∀ row ∈ pws.foldl upsert rows, P row.2.createdAt row.2.description := by
  induction pws generalizing rows with
  | nil => exact h
  | cons pw pws ih =>
    exact ih (holds_upsert h (hpws pw List.mem_cons_self))
      fun pw' h' => hpws pw' (List.mem_cons_of_mem pw h')

theorem Holds.flushNow (h : p.Holds P ttlMs) : (p.flushNow fails).Holds P ttlMs := by
  simp only [PersistentDescriptionStore.flushNow]
  split
  · exact ⟨h.ttl, h.pending, h.rows⟩
  · split
    · split
      · exact ⟨h.ttl, by simp, h.rows⟩
      · exact ⟨h.ttl, h.pending, h.rows⟩
    · exact ⟨h.ttl, by simp, holds_foldl_upsert h.rows h.pending⟩

theorem ttlMs_flushNow : (p.flushNow fails).ttlMs = p.ttlMs := by
  simp only [PersistentDescriptionStore.flushNow]
  split
  · rfl
  · split
    · split
      · rfl
      · rfl
    · rfl

theorem mem_of_mem_evict {rows : Dict κ (DescriptionRow α)} {cutoff : Int} {maxRows : ℕ}
    {row : κ × DescriptionRow α} (h : row ∈ evict rows cutoff maxRows) : row ∈ rows :=
  (List.mem_filter.mp (List.mem_filter.mp h).1).1

theorem Holds.maybeEvict (h : p.Holds P ttlMs) : (p.maybeEvict now).Holds P ttlMs := by
  unfold PersistentDescriptionStore.maybeEvict
  split
  · exact h
  · exact ⟨h.ttl, h.pending, fun row hrow => h.rows row (mem_of_mem_evict hrow)⟩

theorem Holds.set (h : p.Holds P ttlMs) (hd : P now d) :
    (p.set now key d fails).Holds P ttlMs := by
  have hpushed : ∀ pw ∈ p.pendingWrites ++ [(⟨key, d, now⟩ : PendingWrite κ α)],
      P pw.now pw.description := by
    intro pw hpw
    rcases List.mem_append.mp hpw with hpw | hpw
    · exact h.pending pw hpw
    · rw [List.mem_singleton.mp hpw]
      exact hd
  simp only [PersistentDescriptionStore.set]
  refine Holds.maybeEvict ?_
  split
  · exact Holds.flushNow ⟨h.ttl, hpushed, h.rows⟩
  · exact ⟨h.ttl, hpushed, h.rows⟩

theorem Holds.close (h : p.Holds P ttlMs) : (p.close fails).Holds P ttlMs :=
  ⟨h.flushNow.ttl, h.flushNow.pending, h.flushNow.rows⟩

omit [DecidableEq κ] in
theorem Holds.new {rows : Dict κ (DescriptionRow α)} {maxRows flushBatch : ℕ}
    (h : ∀ row ∈ rows, P row.2.createdAt row.2.description) :
    (PersistentDescriptionStore.new ttlMs maxRows flushBatch rows).Holds P ttlMs :=
  ⟨rfl, by simp [PersistentDescriptionStore.new], h⟩

end PersistentDescriptionStore

namespace DescriptionCache

variable {c : DescriptionCache κ α}

theorem Holds.cacheSet (h : c.Holds P ttlMs) (hd : P now d) :
    (c.cacheSet now key d).Holds P ttlMs := by
  refine ⟨h.ttl, fun e he => ?_, h.store⟩
  rcases Lru.mem_of_mem_set he with rfl | he
  · exact hd
  · exact h.cached e he

omit [DecidableEq κ] in
theorem Holds.mapPersistent (h : c.Holds P ttlMs)
    {f : PersistentDescriptionStore κ α → PersistentDescriptionStore κ α}
    (hf : ∀ p : PersistentDescriptionStore κ α, p.Holds P ttlMs → (f p).Holds P ttlMs) :
    DescriptionCache.Holds { c with persistent := c.persistent.map f } P ttlMs := by
  refine ⟨h.ttl, h.cached, fun p hp => ?_⟩
  obtain ⟨p', hp', rfl⟩ := Option.map_eq_some_iff.mp hp
  exact hf p' (h.store p' hp')

theorem Holds.persistentSet {fails : Bool} (h : c.Holds P ttlMs) (hd : P now d) :
    (c.persistentSet now key d fails).Holds P ttlMs :=
  h.mapPersistent fun _ hp => hp.set hd

theorem Holds.storeDual {ctxKey : κ} {fails : Bool × Bool} (h : c.Holds P ttlMs) (hd : P now d) :
    (c.storeDual now imgKey ctxKey d fails).Holds P ttlMs :=
  (((h.cacheSet hd).cacheSet hd).persistentSet hd).persistentSet hd

omit [DecidableEq κ] in
theorem Holds.new {maxSize : ℕ} {persistent : Option (PersistentDescriptionStore κ α)}
    (h : ∀ p, persistent = some p → p.Holds P ttlMs) :
    (DescriptionCache.new maxSize ttlMs persistent).Holds P ttlMs :=
  ⟨rfl, by simp [DescriptionCache.new], h⟩

/-- A restart keeps what the store has. -/
theorem Holds.restart {fails : Bool} (h : c.Holds P ttlMs) :
    (DescriptionCache.new c.cache.max c.cache.ttl (c.persistent.map fun p =>
      .new p.ttlMs p.maxRows p.flushBatch (p.close fails).rows)).Holds P ttlMs := by
  rw [h.ttl]
  refine Holds.new fun p hp => ?_
  obtain ⟨p', hp', rfl⟩ := Option.map_eq_some_iff.mp hp
  rw [(h.store p' hp').ttl]
  exact .new (h.store p' hp').close.rows

theorem Holds.persistentGet (h : c.Holds P ttlMs) (now : Int) (key : κ) :
    (c.persistentGet now key).1.Holds P ttlMs := by
  unfold DescriptionCache.persistentGet
  split
  · exact h
  · rename_i p hp
    refine ⟨h.ttl, h.cached, fun p' hp' => ?_⟩
    cases hp'
    exact (h.store p hp).get

theorem Holds.get (h : c.Holds P ttlMs) (now : Int) (key : κ) :
    DescriptionCache.Holds { c with cache := (c.cache.get now key).1 } P ttlMs :=
  ⟨Lru.ttl_get.trans h.ttl, fun e he => h.cached e (Lru.mem_of_mem_get he), h.store⟩

/-! ## What a call returns -/

/-- A description was set under `P` and is not past its ttl; an LRU without
a ttl keeps it forever. -/
def Live (P : Int → α → Prop) (ttlMs now : Int) (d : α) : Prop :=
  ∃ t, P t d ∧ (0 < ttlMs → now - t ≤ ttlMs)

omit [DecidableEq κ] in
theorem Live.of_now (hd : P now d) : Live P ttlMs now d :=
  ⟨now, hd, fun httl => by omega⟩

theorem Holds.stored_live (h : c.Holds P ttlMs) (hd : c.stored now key = some d) :
    Live P ttlMs now d := by
  obtain ⟨p, hp, hget⟩ := Option.bind_eq_some_iff.mp hd
  obtain ⟨t, ht, hlive⟩ := (h.store p hp).get_live hget
  exact ⟨t, ht, fun _ => hlive⟩

theorem Holds.get_live (h : c.Holds P ttlMs) (hd : (c.cache.get now key).2 = some d) :
    Live P ttlMs now d := by
  obtain ⟨e, he, -, rfl, hlive⟩ := Lru.get_eq_some hd
  refine ⟨e.start, h.cached e he, fun httl => ?_⟩
  have hne : ttlMs ≠ 0 := by omega
  simp [Lru.stale, h.ttl, hne] at hlive
  omega

/-- A call left the tiers under `P` and returned a live description or the
one it computed. -/
structure Served (P : Int → α → Prop) (ttlMs now : Int) (compute : Option α)
    (r : DescriptionCache κ α × Option α) : Prop where
  holds : r.1.Holds P ttlMs
  live : ∀ d, r.2 = some d → compute = some d ∨ Live P ttlMs now d

omit [DecidableEq κ] in
theorem Served.of_lookup {compute : Option α} {r : DescriptionCache κ α × Option α}
    (h : Served P ttlMs now none r) : Served P ttlMs now compute r := by
  refine ⟨h.holds, fun d hd => .inr ?_⟩
  rcases h.live d hd with hnone | hlive
  · cases hnone
  · exact hlive

theorem promotedKey_eq_some (h : c.promotedKey now key = some d) :
    (c.cache.get now key).2.or (c.stored now key) = some d := by
  unfold promotedKey at h
  split at h
  · cases h
  · rename_i hhas
    rw [← Lru.isSome_get, Option.not_isSome_iff_eq_none] at hhas
    rw [hhas, Option.none_or]
    exact h

theorem served_takePersisted (h : c.Holds P ttlMs)
    (hold : ∀ t d, P t d → c.stored now key = some d → P now d) :
    Served P ttlMs now none (c.takePersisted now key) := by
  have hget := h.persistentGet now key
  have hsnd := c.persistentGet_snd now key
  unfold takePersisted
  split
  · rename_i c' hc'
    rw [hc'] at hget
    exact ⟨hget, by simp⟩
  · rename_i c' persisted hc'
    rw [hc'] at hget hsnd
    have hlive := h.stored_live hsnd.symm
    have hnow : P now persisted := by
      obtain ⟨t, ht, -⟩ := hlive
      exact hold t persisted ht hsnd.symm
    refine ⟨hget.cacheSet hnow, fun d hd => .inr ?_⟩
    cases hd
    exact hlive

theorem served_lookup (h : c.Holds P ttlMs)
    (hold : ∀ t d, P t d → c.promotedKey now key = some d → P now d) :
    Served P ttlMs now none (c.lookup now key) := by
  have hget := h.get now key
  unfold lookup
  split
  · rename_i cache cached hc
    rw [hc] at hget
    refine ⟨hget, fun d hd => .inr ?_⟩
    cases hd
    exact h.get_live (by rw [hc])
  · rename_i cache hc
    have hhas : c.cache.has now key = false := by
      rw [← Lru.isSome_get, hc]
      rfl
    rw [hc] at hget
    refine served_takePersisted hget fun t d ht hd => hold t d ht ?_
    rw [promotedKey, hhas]
    exact hd

theorem served_takeImageOnly (h : c.Holds P ttlMs)
    (hold : ctxKey ≠ none → ∀ t d, P t d →
      (c.cache.get now imgKey).2.or (c.stored now imgKey) = some d → P now d) :
    Served P ttlMs now none (c.takeImageOnly now imgKey ctxKey) := by
  cases ctxKey with
  | none => exact ⟨h, by simp [takeImageOnly]⟩
  | some ctxKey =>
    have hold := hold (Option.some_ne_none ctxKey)
    have hlookup := served_lookup h fun t d ht hd => hold t d ht (promotedKey_eq_some hd)
    have hsnd := c.lookup_snd now imgKey
    simp only [takeImageOnly, getImageOnly]
    split
    · rename_i c' hc'
      rw [hc'] at hlookup
      exact ⟨hlookup.holds, by simp⟩
    · rename_i c' imageOnly hc'
      rw [hc'] at hlookup hsnd
      have hnow : P now imageOnly := by
        rcases hlookup.live imageOnly rfl with hnone | ⟨t, ht, -⟩
        · cases hnone
        · exact hold t imageOnly ht hsnd.symm
      exact ⟨hlookup.holds.cacheSet hnow, hlookup.live⟩

theorem served_storeComputed {compute : Option α} {isCacheable : α → Bool} {fails : Bool × Bool}
    (h : c.Holds P ttlMs) (hcompute : ∀ d, compute = some d → isCacheable d = true → P now d) :
    Served P ttlMs now compute (c.storeComputed now imgKey ctxKey compute isCacheable fails) := by
  cases compute with
  | none => exact ⟨h, by simp [storeComputed]⟩
  | some value =>
    simp only [storeComputed]
    split
    · rename_i hcacheable
      have hvalue := hcompute value rfl hcacheable
      cases ctxKey with
      | some ctxKey => exact ⟨h.storeDual hvalue, fun d => .inl⟩
      | none => exact ⟨(h.cacheSet hvalue).persistentSet hvalue, fun d => .inl⟩
    · exact ⟨h, fun d => .inl⟩

theorem served_getOrCompute {compute : Option α} {isCacheable : α → Bool} {fails : Bool × Bool}
    (h : c.Holds P ttlMs) (hcompute : ∀ d, compute = some d → isCacheable d = true → P now d)
    (hold : ∀ t d, P t d → c.promoted now imgKey ctxKey = some d → P now d) :
    Served P ttlMs now compute (c.getOrCompute now imgKey ctxKey compute isCacheable fails) := by
  simp only [getOrCompute]
  by_cases hhas : c.cache.has now (ctxKey.getD imgKey) = true
  · -- a live entry of the LRU: nothing is promoted
    rw [if_pos hhas]
    have hlookup : Served P ttlMs now none (c.lookup now (ctxKey.getD imgKey)) :=
      served_lookup h fun t d _ hd => by simp [promotedKey, hhas] at hd
    have hsome : (c.lookup now (ctxKey.getD imgKey)).2.isSome := by
      rw [lookup_snd, Option.isSome_or, Lru.isSome_get, hhas, Bool.true_or]
    split
    · rename_i hc'
      rw [hc'] at hlookup
      exact hlookup.of_lookup
    · rename_i hc'
      rw [hc'] at hsome
      cases hsome
  · rw [if_neg hhas]
    simp only [promoted, if_neg hhas] at hold
    have htake : Served P ttlMs now none (c.takePersisted now (ctxKey.getD imgKey)) :=
      served_takePersisted h fun t d ht hd => hold t d ht (by rw [hd])
    split
    · rename_i hc'
      rw [hc'] at htake
      exact htake.of_lookup
    · rename_i c' hc'
      -- the store has nothing under the key, and the read changed no other lookup
      obtain ⟨hcache, hstored⟩ := takePersisted_miss hc'
      have hmiss : c.stored now (ctxKey.getD imgKey) = none := by
        rw [← takePersisted_snd, hc']
      rw [hc'] at htake
      have himage : Served P ttlMs now none (c'.takeImageOnly now imgKey ctxKey) := by
        refine served_takeImageOnly htake.holds fun hctx t d ht hd => hold t d ht ?_
        obtain ⟨ctx, rfl⟩ := Option.ne_none_iff_exists'.mp hctx
        rw [hcache, hstored] at hd
        rw [hmiss]
        exact hd
      split
      · rename_i hc''
        rw [hc''] at himage
        exact himage.of_lookup
      · rename_i hc''
        rw [hc''] at himage
        exact served_storeComputed himage.holds hcompute

/-- A call that computes a value returns one. -/
theorem isSome_getOrCompute {value : α} {isCacheable : α → Bool} {fails : Bool × Bool} :
    (c.getOrCompute now imgKey ctxKey (some value) isCacheable fails).2.isSome := by
  simp only [getOrCompute]
  split
  · rfl
  · split
    · rfl
    · simp only [storeComputed]
      split
      · split <;> rfl
      · rfl

theorem Holds.warmIntoCache {limit : ℕ} {fails : Bool} (h : c.Holds P ttlMs)
    (hold : ∀ row ∈ c.warmed now limit fails,
      P row.2.createdAt row.2.description → P now row.2.description) :
    (c.warmIntoCache now limit fails).Holds P ttlMs := by
  unfold DescriptionCache.warmIntoCache
  unfold warmed at hold
  split
  · exact h
  · rename_i p hp
    have hflushed : (p.flushNow fails).Holds P ttlMs := (h.store p hp).flushNow
    have hstart : DescriptionCache.Holds { c with persistent := some (p.flushNow fails) }
        P ttlMs := by
      refine ⟨h.ttl, h.cached, fun p' hp' => ?_⟩
      cases hp'
      exact hflushed
    rw [hp] at hold
    simp only [PersistentDescriptionStore.ttlMs_flushNow] at hold ⊢
    have hrows : ∀ row ∈ (p.flushNow fails).listForWarming limit (now - p.ttlMs),
        P now row.2.description := fun row hrow =>
      hold row hrow (hflushed.rows row
        (List.mem_filter.mp (List.mem_mergeSort.mp (List.mem_of_mem_take hrow))).1)
    generalize (p.flushNow fails).listForWarming limit (now - p.ttlMs) = warming at hrows
    generalize ({ c with persistent := some (p.flushNow fails) } : DescriptionCache κ α) = c'
      at hstart
    induction warming generalizing c' with
    | nil => exact hstart
    | cons row warming ih =>
      exact ih (fun r hr => hrows r (List.mem_cons_of_mem row hr)) _
        (hstart.cacheSet (hrows row List.mem_cons_self))

end DescriptionCache

end UmansGate.Vision
