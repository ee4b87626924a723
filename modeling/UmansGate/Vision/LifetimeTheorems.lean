/-
UmansGate.Vision.LifetimeTheorems — how old a description is when the cache
returns it.

Both tiers drop what is older than the ttl, but each by a date of its own:
the store by `created_at`, which is when the description was produced, and
the LRU by its last set. A promotion sets the description again, so the LRU
keeps it for a whole ttl more (`promoted_description_outlives_ttl`).

A description carries the time it was produced as a ghost. `Dated` says that
no tier holds a description under a later date, and every operation that
promotes no older description keeps it.
-/
import UmansGate.Lib.Transition
import UmansGate.Vision.CacheTheorems

namespace UmansGate.Vision

open UmansGate.Lib

/-- A text with the time of the vision call that produced it. -/
structure Description (β : Type) where
  text : β
  producedAt : Int
  deriving DecidableEq, Repr

variable {κ β : Type} [DecidableEq κ]

/-! ## Runs -/

structure CacheRun (κ β : Type) where
  now : Int
  cache : DescriptionCache κ (Description β)
  /-- Every description returned, with the time. -/
  returned : List (Description β × Int)

/-- What can happen to the cache. A vision call answers with its text;
`restart` closes the store and opens the database again. -/
inductive CacheOp (κ β : Type) where
  | wait (ms : ℕ)
  | getOrCompute (imgKey : κ) (ctxKey : Option κ) (compute : Option β) (isCacheable : β → Bool)
      (fails : Bool × Bool)
  | getImageOnly (imgKey : κ)
  | storeDual (imgKey ctxKey : κ) (description : β) (fails : Bool × Bool)
  | warmIntoCache (limit : ℕ) (fails : Bool)
  | persistentGet (key : κ)
  | persistentSet (key : κ) (description : β) (fails : Bool)
  | flushNow (fails : Bool)
  | close (fails : Bool)
  | restart (fails : Bool)

namespace CacheRun

/-- The cache as a call left it, with what the call returned. -/
def answer (s : CacheRun κ β)
    (r : DescriptionCache κ (Description β) × Option (Description β)) : CacheRun κ β :=
  { s with cache := r.1, returned := s.returned ++ (r.2.map fun d => (d, s.now)).toList }

def mapPersistent (s : CacheRun κ β)
    (f : PersistentDescriptionStore κ (Description β) →
      PersistentDescriptionStore κ (Description β)) : CacheRun κ β :=
  { s with cache := { s.cache with persistent := s.cache.persistent.map f } }

def step (s : CacheRun κ β) : CacheOp κ β → CacheRun κ β
  | .wait ms => { s with now := s.now + ms }
  | .getOrCompute imgKey ctxKey compute isCacheable fails =>
    s.answer (s.cache.getOrCompute s.now imgKey ctxKey
      (compute.map fun text => ⟨text, s.now⟩) (fun d => isCacheable d.text) fails)
  | .getImageOnly imgKey => s.answer (s.cache.getImageOnly s.now imgKey)
  | .storeDual imgKey ctxKey text fails =>
    { s with cache := s.cache.storeDual s.now imgKey ctxKey ⟨text, s.now⟩ fails }
  | .warmIntoCache limit fails => { s with cache := s.cache.warmIntoCache s.now limit fails }
  | .persistentGet key => s.answer (s.cache.persistentGet s.now key)
  | .persistentSet key text fails =>
    { s with cache := s.cache.persistentSet s.now key ⟨text, s.now⟩ fails }
  | .flushNow fails => s.mapPersistent (·.flushNow fails)
  | .close fails => s.mapPersistent (·.close fails)
  | .restart fails =>
    let reopened := s.cache.persistent.map fun p =>
      PersistentDescriptionStore.new p.ttlMs p.maxRows p.flushBatch (p.close fails).rows
    { s with cache := DescriptionCache.new s.cache.cache.max s.cache.cache.ttl reopened }

/-- The cache as it starts, over the rows `(key, text, created_at)` of an
earlier process. -/
def init (now : Int) (maxSize : ℕ) (ttlMs : Int) (store : Option (ℕ × ℕ))
    (rows : List (κ × β × Int)) : CacheRun κ β where
  now := now
  cache := .new maxSize ttlMs (store.map fun (maxRows, flushBatch) =>
    .new ttlMs maxRows flushBatch
      (rows.map fun (key, text, createdAt) => (key, ⟨⟨text, createdAt⟩, createdAt, createdAt⟩)))
  returned := []

/-- The step sets a description again that was produced before. -/
def promotesOld (s : CacheRun κ β) : CacheOp κ β → Bool
  | .getOrCompute imgKey ctxKey _ _ _ =>
    (s.cache.promoted s.now imgKey ctxKey).any fun d => d.producedAt < s.now
  | .getImageOnly imgKey =>
    (s.cache.promotedKey s.now imgKey).any fun d => d.producedAt < s.now
  | .warmIntoCache limit fails =>
    (s.cache.warmed s.now limit fails).any fun row => row.2.description.producedAt < s.now
  | _ => false

end CacheRun

/-! ## Dates -/

/-- The cache keeps no description under a later date than the one it was
produced on. -/
abbrev DescriptionCache.Dated (c : DescriptionCache κ (Description β)) (ttlMs : Int) : Prop :=
  c.Holds (fun t d => t ≤ d.producedAt) ttlMs

variable {ttlMs now : Int}

omit [DecidableEq κ] in
theorem DescriptionCache.Live.lifetime {d : Description β} (httl : 0 < ttlMs)
    (h : Live (fun t d => t ≤ d.producedAt) ttlMs now d) : now - d.producedAt ≤ ttlMs := by
  obtain ⟨t, ht, hlive⟩ := h
  have := hlive httl
  omega

/-! ## Lifetimes -/

namespace CacheRun

open DescriptionCache

/-- The invariant: the tiers are dated, and what was returned was not past
its ttl. -/
structure Timely (ttlMs : Int) (s : CacheRun κ β) : Prop where
  dated : s.cache.Dated ttlMs
  lifetime : ∀ r ∈ s.returned, r.2 - r.1.producedAt ≤ ttlMs

variable {s : CacheRun κ β}

omit [DecidableEq κ] in
theorem Timely.answer (httl : 0 < ttlMs) (h : s.Timely ttlMs)
    {r : DescriptionCache κ (Description β) × Option (Description β)}
    (compute : Option (Description β)) (hcompute : ∀ d, compute = some d → s.now ≤ d.producedAt)
    (hr : Served (fun t d => t ≤ d.producedAt) ttlMs s.now compute r) :
    (s.answer r).Timely ttlMs := by
  refine ⟨hr.holds, fun x hx => ?_⟩
  rcases List.mem_append.mp hx with hx | hx
  · exact h.lifetime x hx
  · obtain ⟨d, hd, rfl⟩ := Option.map_eq_some_iff.mp (Option.mem_toList.mp hx)
    rcases hr.live d hd with hnew | hlive
    · exact (Live.of_now (hcompute d hnew)).lifetime httl
    · exact hlive.lifetime httl

theorem timely_step (httl : 0 < ttlMs) (h : s.Timely ttlMs) (op : CacheOp κ β)
    (hop : s.promotesOld op = false) : (s.step op).Timely ttlMs := by
  cases op with
  | wait ms => exact ⟨h.dated, h.lifetime⟩
  | getOrCompute imgKey ctxKey compute isCacheable fails =>
    have hcompute : ∀ d, (compute.map fun text => (⟨text, s.now⟩ : Description β)) = some d →
        s.now ≤ d.producedAt := by
      intro d hd
      obtain ⟨text, -, rfl⟩ := Option.map_eq_some_iff.mp hd
      exact Int.le_refl s.now
    refine h.answer httl _ hcompute (served_getOrCompute h.dated (fun d hd _ => hcompute d hd)
      fun _ d _ hd => ?_)
    simpa [promotesOld, hd] using hop
  | getImageOnly imgKey =>
    refine h.answer httl none (by simp) (served_lookup h.dated fun _ d _ hd => ?_)
    simpa [promotesOld, hd] using hop
  | storeDual imgKey ctxKey text fails =>
    exact ⟨h.dated.storeDual (Int.le_refl s.now), h.lifetime⟩
  | warmIntoCache limit fails =>
    refine ⟨h.dated.warmIntoCache fun row hrow _ => ?_, h.lifetime⟩
    simp only [promotesOld, List.any_eq_false, decide_eq_true_eq, Int.not_lt] at hop
    exact hop row hrow
  | persistentGet key =>
    refine h.answer httl none (by simp)
      ⟨h.dated.persistentGet s.now key, fun d hd => .inr ?_⟩
    exact h.dated.stored_live ((s.cache.persistentGet_snd s.now key).symm.trans hd)
  | persistentSet key text fails =>
    exact ⟨h.dated.persistentSet (Int.le_refl s.now), h.lifetime⟩
  | flushNow fails => exact ⟨h.dated.mapPersistent fun p hp => hp.flushNow, h.lifetime⟩
  | close fails => exact ⟨h.dated.mapPersistent fun p hp => hp.close, h.lifetime⟩
  | restart fails => exact ⟨h.dated.restart, h.lifetime⟩

omit [DecidableEq κ] in
theorem timely_init (start : Int) (maxSize : ℕ) (store : Option (ℕ × ℕ))
    (rows : List (κ × β × Int)) : (init start maxSize ttlMs store rows).Timely ttlMs := by
  refine ⟨Holds.new fun p hp => ?_, by simp [init]⟩
  obtain ⟨_, -, rfl⟩ := Option.map_eq_some_iff.mp hp
  refine PersistentDescriptionStore.Holds.new fun row hrow => ?_
  obtain ⟨_, -, rfl⟩ := List.mem_map.mp hrow
  exact Int.le_refl _

/-- **A cache that promotes no older description returns none past its
ttl**, through every flush, restart and failed transaction. -/
theorem lifetime_of_not_promotesOld (start : Int) (maxSize : ℕ) (ttlMs : Int)
    (store : Option (ℕ × ℕ)) (rows : List (κ × β × Int)) (ops : List (CacheOp κ β))
    (httl : 0 < ttlMs)
    (h : StepsMeet step (fun s op => s.promotesOld op = false)
      (init start maxSize ttlMs store rows) ops) :
    ∀ r ∈ (run step (init start maxSize ttlMs store rows) ops).returned,
      r.2 - r.1.producedAt ≤ ttlMs :=
  (run_invariant_of_stepsMeet (I := Timely ttlMs)
    (fun _ op hs hop => timely_step httl hs op hop) (timely_init start maxSize store rows) h).lifetime

/-- A description that stays in the LRU is computed again after its ttl. -/
theorem computed_again_after_ttl :
    let ops : List (CacheOp ℕ ℕ) :=
      [.getOrCompute 1 none (some 10) (fun _ => true) (false, false), .wait 900,
        .getOrCompute 1 none (some 11) (fun _ => true) (false, false), .wait 900,
        .getOrCompute 1 none (some 12) (fun _ => true) (false, false)]
    0 < (1000 : Int) ∧
    StepsMeet step (fun s op => s.promotesOld op = false) (init 0 100 1000 (some (100, 50)) []) ops ∧
    (run step (init 0 100 1000 (some (100, 50)) []) ops).returned.map (fun r => (r.1.text, r.2)) =
      [(10, 0), (10, 900), (12, 1800)] ∧
    ∀ r ∈ (run step (init 0 100 1000 (some (100, 50)) []) ops).returned,
      r.2 - r.1.producedAt ≤ 1000 := by
  have hmeet : StepsMeet step (fun s op => s.promotesOld op = false)
      (init 0 100 1000 (some (100, 50)) [])
      ([.getOrCompute 1 none (some 10) (fun _ => true) (false, false), .wait 900,
        .getOrCompute 1 none (some 11) (fun _ => true) (false, false), .wait 900,
        .getOrCompute 1 none (some 12) (fun _ => true) (false, false)] : List (CacheOp ℕ ℕ)) := by
    decide
  exact ⟨by decide, hmeet, by decide,
    lifetime_of_not_promotesOld 0 100 1000 (some (100, 50)) [] _ (by decide) hmeet⟩

/-- After a restart the store's description of 900 ms is set in the LRU for
another 1000 ms, and returned 1800 ms after it was produced. -/
theorem promoted_description_outlives_ttl :
    (run step (init 0 100 1000 (some (100, 50)) [])
      ([.getOrCompute 1 none (some 10) (fun _ => true) (false, false), .wait 900, .restart false,
        .getOrCompute 1 none none (fun _ => true) (false, false), .wait 900,
        .getOrCompute 1 none none (fun _ => true) (false, false)] :
        List (CacheOp ℕ ℕ))).returned =
      [(⟨10, 0⟩, 0), (⟨10, 0⟩, 900), (⟨10, 0⟩, 1800)] ∧ ¬ (1800 - 0 : Int) ≤ 1000 := by decide

end CacheRun

end UmansGate.Vision
