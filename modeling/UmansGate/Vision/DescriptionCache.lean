/-
UmansGate.Vision.DescriptionCache — the two levels of the description cache
(`src/vision/cache.ts`, `src/vision/persistent-cache.ts` and
`src/vision-description-store.ts`).

Keys are digests, so a lookup takes the key of the image and, with a
context hash, the key of the image in its context. Values are a parameter.
The clock is read once for a call. `fails` says whether the transaction of
a flush fails, for each flush of a call that may flush twice. The counters for the statistics and the columns that no
query reads (`image_hash`, `model`, `prompt_version`) are left out.
-/
import UmansGate.Lib.Dict
import UmansGate.Lib.Lru

namespace UmansGate.Vision

open UmansGate.Lib

def EVICTION_INTERVAL_MS : Int := 60000
def MAX_FLUSH_RETRIES : ℕ := 3

/-- A row of `vision_descriptions`. -/
structure DescriptionRow (α : Type) where
  description : α
  createdAt : Int
  lastAccessedAt : Int
  deriving DecidableEq, Repr

structure PendingWrite (κ α : Type) where
  key : κ
  description : α
  now : Int
  deriving DecidableEq, Repr

structure PersistentDescriptionStore (κ α : Type) where
  ttlMs : Int
  maxRows : ℕ
  flushBatch : ℕ
  rows : Dict κ (DescriptionRow α)
  pendingWrites : List (PendingWrite κ α)
  flushTimer : Bool
  flushRetries : ℕ
  lastEvictionAt : Int
  closed : Bool
  deriving DecidableEq, Repr

variable {κ α : Type} [DecidableEq κ]

namespace PersistentDescriptionStore

/-- The constructor, over the rows of an opened database. -/
def new (ttlMs : Int) (maxRows flushBatch : ℕ) (rows : Dict κ (DescriptionRow α)) :
    PersistentDescriptionStore κ α :=
  ⟨ttlMs, maxRows, flushBatch, rows, [], false, 0, 0, false⟩

/-- The description of a key that is not older than `ttlMs`, pending or
stored; a stored row is touched. -/
def get (p : PersistentDescriptionStore κ α) (now : Int) (key : κ) :
    PersistentDescriptionStore κ α × Option α :=
  match p.pendingWrites.reverse.find? (·.key = key) with
  | some pw => (p, if now - pw.now > p.ttlMs then none else some pw.description)
  | none =>
    match p.rows.get? key with
    | none => (p, none)
    | some row =>
      ({ p with rows := p.rows.set key { row with lastAccessedAt := now } },
        if now - row.createdAt > p.ttlMs then none else some row.description)

/-- `INSERT INTO vision_descriptions … ON CONFLICT(key) DO UPDATE SET …`. -/
def upsert (rows : Dict κ (DescriptionRow α)) (pw : PendingWrite κ α) :
    Dict κ (DescriptionRow α) :=
  rows.set pw.key ⟨pw.description, pw.now, pw.now⟩

def flushNow (p : PersistentDescriptionStore κ α) (fails : Bool) :
    PersistentDescriptionStore κ α :=
  let p := { p with flushTimer := false }
  if p.closed ∨ p.pendingWrites = [] then p
  else if fails then
    if p.flushRetries + 1 ≥ MAX_FLUSH_RETRIES then { p with pendingWrites := [], flushRetries := 0 }
    else { p with flushRetries := p.flushRetries + 1 }
  else { p with rows := p.pendingWrites.foldl upsert p.rows, pendingWrites := [], flushRetries := 0 }

/-- The keys of the `n` rows that were not accessed for longest. -/
def leastAccessed (rows : Dict κ (DescriptionRow α)) (n : ℕ) : List κ :=
  ((rows.mergeSort fun a b => a.2.lastAccessedAt ≤ b.2.lastAccessedAt).map Prod.fst).take n

/-- The expired rows, at most 1000 of them, and the rows beyond `maxRows`. -/
def evict (rows : Dict κ (DescriptionRow α)) (cutoff : Int) (maxRows : ℕ) :
    Dict κ (DescriptionRow α) :=
  let expired := leastAccessed (rows.filter fun r => r.2.createdAt < cutoff) 1000
  let rows := rows.filter fun r => r.1 ∉ expired
  let overflow := leastAccessed rows (rows.length - maxRows)
  rows.filter fun r => r.1 ∉ overflow

def maybeEvict (p : PersistentDescriptionStore κ α) (now : Int) :
    PersistentDescriptionStore κ α :=
  if now - p.lastEvictionAt < EVICTION_INTERVAL_MS then p
  else { p with lastEvictionAt := now, rows := evict p.rows (now - p.ttlMs) p.maxRows }

def set (p : PersistentDescriptionStore κ α) (now : Int) (key : κ) (description : α)
    (fails : Bool) : PersistentDescriptionStore κ α :=
  let p := { p with
    pendingWrites := p.pendingWrites ++ [(⟨key, description, now⟩ : PendingWrite κ α)] }
  let p := if p.pendingWrites.length ≥ p.flushBatch then p.flushNow fails
    else { p with flushTimer := true }
  p.maybeEvict now

def close (p : PersistentDescriptionStore κ α) (fails : Bool) : PersistentDescriptionStore κ α :=
  { p.flushNow fails with closed := true }

/-- The rows that are warmed, the most recently accessed first. -/
def listForWarming (p : PersistentDescriptionStore κ α) (limit : ℕ) (cutoff : Int) :
    List (κ × DescriptionRow α) :=
  ((p.rows.filter fun r => r.2.createdAt > cutoff).mergeSort
    fun a b => b.2.lastAccessedAt ≤ a.2.lastAccessedAt).take limit

end PersistentDescriptionStore

structure DescriptionCache (κ α : Type) where
  cache : Lru κ α
  persistent : Option (PersistentDescriptionStore κ α)
  deriving DecidableEq, Repr

namespace DescriptionCache

/-- The constructor. -/
def new (maxSize : ℕ) (ttlMs : Int) (persistent : Option (PersistentDescriptionStore κ α)) :
    DescriptionCache κ α :=
  ⟨⟨maxSize, ttlMs, []⟩, persistent⟩

/-- `this.persistent.get(key)`; null without a persistent store. -/
def persistentGet (c : DescriptionCache κ α) (now : Int) (key : κ) :
    DescriptionCache κ α × Option α :=
  match c.persistent with
  | none => (c, none)
  | some p =>
    let (p, persisted) := p.get now key
    ({ c with persistent := some p }, persisted)

def cacheSet (c : DescriptionCache κ α) (now : Int) (key : κ) (description : α) :
    DescriptionCache κ α :=
  { c with cache := c.cache.set now key description }

def persistentSet (c : DescriptionCache κ α) (now : Int) (key : κ) (description : α)
    (fails : Bool) : DescriptionCache κ α :=
  { c with persistent := c.persistent.map fun p => p.set now key description fails }

/-- A persistent hit is set in the LRU. -/
def takePersisted (c : DescriptionCache κ α) (now : Int) (key : κ) :
    DescriptionCache κ α × Option α :=
  match c.persistentGet now key with
  | (c, none) => (c, none)
  | (c, some persisted) => (c.cacheSet now key persisted, some persisted)

/-- The two tiers under one key. -/
def lookup (c : DescriptionCache κ α) (now : Int) (key : κ) : DescriptionCache κ α × Option α :=
  match c.cache.get now key with
  | (cache, some cached) => ({ c with cache := cache }, some cached)
  | (cache, none) => { c with cache := cache }.takePersisted now key

def getImageOnly (c : DescriptionCache κ α) (now : Int) (imgKey : κ) :
    DescriptionCache κ α × Option α :=
  c.lookup now imgKey

def storeDual (c : DescriptionCache κ α) (now : Int) (imgKey ctxKey : κ) (description : α)
    (fails : Bool × Bool) : DescriptionCache κ α :=
  let c := (c.cacheSet now ctxKey description).cacheSet now imgKey description
  (c.persistentSet now ctxKey description fails.1).persistentSet now imgKey description fails.2

/-- The image-only hit, which the context key takes over. -/
def takeImageOnly (c : DescriptionCache κ α) (now : Int) (imgKey : κ) (ctxKey : Option κ) :
    DescriptionCache κ α × Option α :=
  match ctxKey with
  | none => (c, none)
  | some ctxKey =>
    match c.getImageOnly now imgKey with
    | (c, none) => (c, none)
    | (c, some imageOnly) => (c.cacheSet now ctxKey imageOnly, some imageOnly)

/-- The value of `compute`, none where it throws, stored if it is cacheable. -/
def storeComputed (c : DescriptionCache κ α) (now : Int) (imgKey : κ) (ctxKey : Option κ)
    (compute : Option α) (isCacheable : α → Bool) (fails : Bool × Bool) :
    DescriptionCache κ α × Option α :=
  match compute with
  | none => (c, none)
  | some value =>
    if isCacheable value then
      match ctxKey with
      | some ctxKey => (c.storeDual now imgKey ctxKey value fails, some value)
      | none => ((c.cacheSet now imgKey value).persistentSet now imgKey value fails.1, some value)
    else (c, some value)

/-- `getOrCompute`; `ctxKey` is there with a context hash. -/
def getOrCompute (c : DescriptionCache κ α) (now : Int) (imgKey : κ) (ctxKey : Option κ)
    (compute : Option α) (isCacheable : α → Bool) (fails : Bool × Bool) :
    DescriptionCache κ α × Option α :=
  let key := ctxKey.getD imgKey
  -- `has` is asked first and sees no stale entry, which `get` would remove
  let hit := if c.cache.has now key then c.lookup now key else c.takePersisted now key
  match hit with
  | (c, some v) => (c, some v)
  | (c, none) =>
    match c.takeImageOnly now imgKey ctxKey with
    | (c, some imageOnly) => (c, some imageOnly)
    | (c, none) => c.storeComputed now imgKey ctxKey compute isCacheable fails

/-- `warmIntoCache` over `warm`. -/
def warmIntoCache (c : DescriptionCache κ α) (now : Int) (limit : ℕ) (fails : Bool) :
    DescriptionCache κ α :=
  match c.persistent with
  | none => c
  | some p =>
    let p := p.flushNow fails
    (p.listForWarming limit (now - p.ttlMs)).foldl
      (fun c row => c.cacheSet now row.1 row.2.description) { c with persistent := some p }

end DescriptionCache

/-! ## What a read returns -/

namespace PersistentDescriptionStore

variable {now : Int} {key : κ}

/-- A read leaves every later read as it was. -/
theorem get_get (p : PersistentDescriptionStore κ α) (key' : κ) :
    ((p.get now key).1.get now key').2 = (p.get now key').2 := by
  have htouched : ∀ row, p.rows.get? key = some row →
      ({ p with rows := p.rows.set key { row with lastAccessedAt := now } }.get now key').2 =
        (p.get now key').2 := by
    intro row hrow
    by_cases hkey : key = key'
    · subst hkey
      simp only [PersistentDescriptionStore.get, Dict.get?_set_self, hrow]
      split <;> rfl
    · simp only [PersistentDescriptionStore.get, Dict.get?_set, if_neg hkey]
      split
      · rfl
      · split <;> rfl
  cases hpending : p.pendingWrites.reverse.find? (·.key = key) with
  | some pw => simp [PersistentDescriptionStore.get, hpending]
  | none =>
    cases hrow : p.rows.get? key with
    | none => simp [PersistentDescriptionStore.get, hpending, hrow]
    | some row =>
      have hget : (p.get now key).1 =
          { p with rows := p.rows.set key { row with lastAccessedAt := now } } := by
        simp [PersistentDescriptionStore.get, hpending, hrow]
      rw [hget]
      exact htouched row hrow

end PersistentDescriptionStore

namespace DescriptionCache

/-- The live description that the store has under a key. -/
def stored (c : DescriptionCache κ α) (now : Int) (key : κ) : Option α :=
  c.persistent.bind fun p => (p.get now key).2

section Reads

variable (c : DescriptionCache κ α) (now : Int) (key key' : κ)

@[simp] theorem cache_persistentGet : (c.persistentGet now key).1.cache = c.cache := by
  unfold persistentGet
  split <;> rfl

@[simp] theorem persistentGet_snd : (c.persistentGet now key).2 = c.stored now key := by
  unfold persistentGet stored
  split
  · rename_i hnone
    rw [hnone]
    rfl
  · rename_i p hp
    rw [hp]
    rfl

@[simp] theorem stored_persistentGet :
    (c.persistentGet now key).1.stored now key' = c.stored now key' := by
  unfold persistentGet stored
  split
  · rfl
  · rename_i p hp
    rw [hp]
    exact p.get_get key'

theorem takePersisted_snd : (c.takePersisted now key).2 = c.stored now key := by
  rw [← persistentGet_snd]
  unfold takePersisted
  split
  · rename_i hget
    rw [hget]
  · rename_i hget
    rw [hget]

theorem lookup_snd :
    (c.lookup now key).2 = (c.cache.get now key).2.or (c.stored now key) := by
  unfold lookup
  rcases c.cache.get now key with ⟨cache, _ | cached⟩
  · exact takePersisted_snd { c with cache := cache } now key
  · rfl

theorem takeImageOnly_snd (imgKey : κ) (ctxKey : Option κ) :
    (c.takeImageOnly now imgKey ctxKey).2 =
      ctxKey.bind fun _ => (c.cache.get now imgKey).2.or (c.stored now imgKey) := by
  cases ctxKey with
  | none => rfl
  | some ctxKey =>
    rw [Option.bind_some, ← lookup_snd]
    simp only [takeImageOnly, getImageOnly]
    split
    · rename_i hlookup
      rw [hlookup]
    · rename_i hlookup
      rw [hlookup]

variable {c now key}

/-- A miss of the store changes no later lookup. -/
theorem takePersisted_miss {c' : DescriptionCache κ α} (h : c.takePersisted now key = (c', none)) :
    c'.cache = c.cache ∧ ∀ key', c'.stored now key' = c.stored now key' := by
  have hget : c.persistentGet now key = (c', none) := by
    unfold takePersisted at h
    split at h
    · rename_i hnone
      rw [hnone]
      exact h
    · cases h
  have hcache := c.cache_persistentGet now key
  have hstored := c.stored_persistentGet now key
  rw [hget] at hcache hstored
  exact ⟨hcache, hstored⟩

end Reads

/-- What the cache has for an image: the description of its context, or of
the image. -/
def held (c : DescriptionCache κ α) (now : Int) (imgKey : κ) (ctxKey : Option κ) : Option α :=
  (ctxKey.bind fun key => (c.cache.get now key).2.or (c.stored now key)).or
    ((c.cache.get now imgKey).2.or (c.stored now imgKey))

/-- A call whose `compute` throws returns what the cache has. -/
theorem getOrCompute_snd (c : DescriptionCache κ α) (now : Int) (imgKey : κ) (ctxKey : Option κ)
    (isCacheable : α → Bool) (fails : Bool × Bool) :
    (c.getOrCompute now imgKey ctxKey none isCacheable fails).2 = c.held now imgKey ctxKey := by
  have hkey : c.held now imgKey ctxKey =
      ((c.cache.get now (ctxKey.getD imgKey)).2.or (c.stored now (ctxKey.getD imgKey))).or
        (ctxKey.bind fun _ => (c.cache.get now imgKey).2.or (c.stored now imgKey)) := by
    cases ctxKey with
    | none => simp [held]
    | some key => simp [held]
  rw [hkey]
  simp only [getOrCompute]
  by_cases hhas : c.cache.has now (ctxKey.getD imgKey) = true
  · rw [if_pos hhas, ← lookup_snd]
    have hsome : (c.lookup now (ctxKey.getD imgKey)).2.isSome := by
      rw [lookup_snd, Option.isSome_or, Lru.isSome_get, hhas, Bool.true_or]
    split
    · rename_i hlookup
      rw [hlookup]
      rfl
    · rename_i hlookup
      rw [hlookup] at hsome
      cases hsome
  · have hget : (c.cache.get now (ctxKey.getD imgKey)).2 = none := by
      rwa [← Option.not_isSome_iff_eq_none, Lru.isSome_get]
    rw [if_neg hhas, hget, Option.none_or, ← takePersisted_snd]
    split
    · rename_i htake
      rw [htake]
      rfl
    · rename_i c' htake
      obtain ⟨hcache, hstored⟩ := takePersisted_miss htake
      have himage := c'.takeImageOnly_snd now imgKey ctxKey
      rw [hcache, hstored] at himage
      rw [htake, Option.none_or, ← himage]
      split
      · rename_i htakeImage
        rw [htakeImage]
      · rename_i htakeImage
        rw [htakeImage]
        rfl

end DescriptionCache

end UmansGate.Vision
