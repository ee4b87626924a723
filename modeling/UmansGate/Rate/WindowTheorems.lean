/-
UmansGate.Rate.WindowTheorems — the limiter counts a window.

The limiter keeps the admitted entries of the window before the last call,
and their sum (`Tracks`); the binary search cuts where filtering would
(`prune_eq`). A call first prunes, and pruning twice is pruning once
(`prune_prune`), so a call that only prunes is not noticed later. The last
entry admitted in a window saw all the others, so the window holds no more
than the limit (`windowWeight_admit`).
-/
import Mathlib.Algebra.BigOperators.Group.List.Basic
import Mathlib.Algebra.Order.BigOperators.Group.List
import Mathlib.Tactic.Linarith
import UmansGate.Rate.SlidingWindow

namespace UmansGate.Rate

open UmansGate.Lib

/-- The weight of a list of entries. -/
def weightOf (entries : List Entry) : ℚ := (entries.map (·.weight)).sum

/-- The entries that are not older than the window at the time. -/
def windowAt (entries : List Entry) (windowMs now : ℚ) : List Entry :=
  entries.filter fun e => now - windowMs ≤ e.time

/-- The weight of the entries between `t - windowMs` and `t`. -/
def windowWeight (entries : List Entry) (windowMs t : ℚ) : ℚ :=
  weightOf (entries.filter fun e => t - windowMs ≤ e.time ∧ e.time ≤ t)

@[simp] theorem weightOf_append (l l' : List Entry) :
    weightOf (l ++ l') = weightOf l + weightOf l' := by
  simp [weightOf]

@[simp] theorem weightOf_singleton (e : Entry) : weightOf [e] = e.weight := by
  simp [weightOf]

/-- A part of the entries weighs no more. -/
theorem weightOf_filter_le {l : List Entry} (h : ∀ e ∈ l, 0 ≤ e.weight) {p q : Entry → Bool}
    (hpq : ∀ e ∈ l, p e = true → q e = true) : weightOf (l.filter p) ≤ weightOf (l.filter q) := by
  induction l with
  | nil => simp
  | cons e l ih =>
    have hrest := ih (fun x hx => h x (List.mem_cons_of_mem e hx))
      fun x hx => hpq x (List.mem_cons_of_mem e hx)
    have hweight := h e List.mem_cons_self
    have hcons : ∀ l' : List Entry, weightOf (e :: l') = e.weight + weightOf l' := by
      simp [weightOf]
    cases hp : p e with
    | true =>
      rw [List.filter_cons_of_pos hp, List.filter_cons_of_pos (hpq e List.mem_cons_self hp), hcons,
        hcons]
      linarith
    | false =>
      rw [List.filter_cons_of_neg (by simp [hp])]
      cases hq : q e with
      | true =>
        rw [List.filter_cons_of_pos hq, hcons]
        linarith
      | false =>
        rw [List.filter_cons_of_neg (by simp [hq])]
        exact hrest

theorem windowAt_windowAt {entries : List Entry} {windowMs now now' : ℚ} (h : now ≤ now') :
    windowAt (windowAt entries windowMs now) windowMs now' = windowAt entries windowMs now' := by
  simp only [windowAt, List.filter_filter]
  refine List.filter_congr fun e _ => ?_
  by_cases hin : now' - windowMs ≤ e.time
  · have hin' : now - windowMs ≤ e.time := by linarith
    simp [hin, hin']
  · simp [hin]

theorem foldl_sub_weight (l : List Entry) (sum : ℚ) :
    l.foldl (fun sum e => sum - e.weight) sum = sum - weightOf l := by
  induction l generalizing sum with
  | nil => simp [weightOf]
  | cons e l ih =>
    rw [List.foldl_cons, ih]
    simp only [weightOf, List.map_cons, List.sum_cons]
    linarith

namespace SlidingWindowRateLimiter

variable {rl : SlidingWindowRateLimiter} {now now' : ℚ}

/-- The entries lie in the order of their times, and the sum is theirs. -/
structure Sums (rl : SlidingWindowRateLimiter) : Prop where
  sorted : rl.entries.Pairwise fun a b => a.time ≤ b.time
  sum : rl.runningSum = weightOf rl.entries

/-- The binary search is the filter, and the sum is what is left. -/
theorem prune_eq (h : rl.Sums) (now : ℚ) :
    rl.prune now = { rl with
      entries := windowAt rl.entries rl.windowMs now
      runningSum := weightOf (windowAt rl.entries rl.windowMs now) } := by
  have hcut := take_cutAt (p := fun e : Entry => decide (e.time < now - rl.windowMs))
    (h.sorted.imp fun hle hlt => by
      rw [decide_eq_true_eq] at hlt ⊢
      linarith)
  have hkept : rl.entries.drop (cutAt (fun e : Entry => decide (e.time < now - rl.windowMs))
      rl.entries) = windowAt rl.entries rl.windowMs now := by
    rw [hcut.2, windowAt]
    refine List.filter_congr fun e _ => ?_
    by_cases hlt : e.time < now - rl.windowMs
    · have hold : ¬ now - rl.windowMs ≤ e.time := not_le.mpr hlt
      simp only [hlt, hold, decide_true, decide_false, Bool.not_true]
    · simp only [hlt, not_lt.mp hlt, decide_true, decide_false, Bool.not_false]
  have hsplit : weightOf rl.entries =
      weightOf (rl.entries.take (cutAt (fun e : Entry => decide (e.time < now - rl.windowMs))
        rl.entries)) + weightOf (windowAt rl.entries rl.windowMs now) := by
    rw [← hkept, ← weightOf_append, List.take_append_drop]
  unfold prune
  simp only [hkept, foldl_sub_weight, h.sum]
  congr 1
  linarith

theorem sums_prune (h : rl.Sums) (now : ℚ) : (rl.prune now).Sums := by
  rw [prune_eq h]
  exact ⟨h.sorted.filter _, rfl⟩

/-- What is pruned later need not be pruned before. -/
theorem prune_prune (h : rl.Sums) (hle : now ≤ now') :
    (rl.prune now).prune now' = rl.prune now' := by
  rw [prune_eq (sums_prune h now), prune_eq h, prune_eq h]
  simp only [windowAt_windowAt hle]

/-- A call does not notice that the limiter was pruned before. -/
theorem call_prune (h : rl.Sums) {call : RateCall} (hle : now ≤ call.now) :
    (rl.prune now).call call = rl.call call := by
  have heq : (rl.prune now).prune call.now = rl.prune call.now := prune_prune h hle
  cases call with
  | check weight now' => simp only [RateCall.now] at heq; simp only [call, check, heq]
  | peek weight now' => simp only [RateCall.now] at heq; simp only [call, peek, heq]
  | count now' => simp only [RateCall.now] at heq; simp only [call, count, heq]

theorem answers_prune (h : rl.Sums) {calls : List RateCall}
    (hle : ∀ call ∈ calls, now ≤ call.now) : (rl.prune now).answers calls = rl.answers calls := by
  cases calls with
  | nil => rfl
  | cons call calls =>
    simp only [answers, call_prune h (hle call List.mem_cons_self)]

/-- `peek` answers as `check` does. -/
theorem peek_eq_check (rl : SlidingWindowRateLimiter) (weight now : ℚ) :
    (rl.peek weight now).1 = (rl.check weight now).1 := by
  simp only [peek, check]
  split
  · rfl
  · rfl

theorem allowed_verdict_iff (rl : SlidingWindowRateLimiter) (weight now : ℚ) :
    (rl.verdict weight now).allowed = true ↔ rl.runningSum + weight ≤ rl.limit := by
  simp only [verdict]
  split
  · rename_i h
    simpa using h
  · rename_i h
    simpa using h

end SlidingWindowRateLimiter

namespace WindowRun

open SlidingWindowRateLimiter

variable {s : WindowRun} {call : RateCall}

/-- What a run keeps. -/
structure Tracks (config : RateLimitConfig) (s : WindowRun) : Prop where
  limit : s.limiter.limit = config.limit
  windowMs : s.limiter.windowMs = config.windowSeconds * 1000
  sums : s.limiter.Sums
  past : ∀ now, s.last = some now → ∀ e ∈ s.admitted, e.time ≤ now
  empty : s.last = none → s.admitted = []
  nonneg : ∀ e ∈ s.admitted, 0 ≤ e.weight
  retained : ∀ now, (∀ last ∈ s.last, last ≤ now) →
    windowAt s.limiter.entries s.limiter.windowMs now = windowAt s.admitted s.limiter.windowMs now
  exact : 0 ≤ config.windowSeconds → ∀ now, s.last = some now →
    s.limiter.entries = windowAt s.admitted s.limiter.windowMs now
  bounded : 0 ≤ config.limit → ∀ t, windowWeight s.admitted s.limiter.windowMs t ≤ config.limit

variable {config : RateLimitConfig} {now : ℚ}

theorem tracks_init (config : RateLimitConfig) : Tracks config (init config) where
  limit := rfl
  windowMs := rfl
  sums := ⟨List.Pairwise.nil, rfl⟩
  past := by simp [init]
  empty := fun _ => rfl
  nonneg := by simp [init]
  retained := fun _ _ => rfl
  exact := by simp [init]
  bounded := fun hlimit _ => by simpa [init, windowWeight, weightOf] using hlimit

/-- What a call finds after pruning. -/
theorem Tracks.prune_eq (h : Tracks config s) (hnow : ∀ last ∈ s.last, last ≤ now) :
    s.limiter.prune now = { s.limiter with
      entries := windowAt s.admitted s.limiter.windowMs now
      runningSum := weightOf (windowAt s.admitted s.limiter.windowMs now) } := by
  rw [SlidingWindowRateLimiter.prune_eq h.sums, h.retained now hnow]

/-- Nothing was admitted later than now. -/
theorem Tracks.time_le (h : Tracks config s) (hnow : ∀ last ∈ s.last, last ≤ now) {e : Entry}
    (he : e ∈ s.admitted) : e.time ≤ now := by
  cases hlast : s.last with
  | none =>
    rw [h.empty hlast] at he
    cases he
  | some last => exact (h.past last hlast e he).trans (hnow last hlast)

/-- A call that only prunes. -/
theorem Tracks.pruned (h : Tracks config s) (hnow : ∀ last ∈ s.last, last ≤ now) :
    Tracks config ⟨s.limiter.prune now, s.admitted, some now⟩ where
  limit := by rw [h.prune_eq hnow]; exact h.limit
  windowMs := by rw [h.prune_eq hnow]; exact h.windowMs
  sums := sums_prune h.sums now
  past := fun _ heq e he => Option.some.inj heq ▸ h.time_le hnow he
  empty := fun hnone => by cases hnone
  nonneg := h.nonneg
  retained := fun now' hle => by
    rw [h.prune_eq hnow]
    exact windowAt_windowAt (hle now rfl)
  exact := fun _ now' heq => by
    rw [h.prune_eq hnow, ← Option.some.inj heq]
  bounded := by rw [h.prune_eq hnow]; exact h.bounded

/-- The last entry admitted in a window saw all the others. -/
theorem windowWeight_admit (h : Tracks config s) (hnow : ∀ last ∈ s.last, last ≤ now) {weight : ℚ}
    (hallowed : (s.limiter.prune now).runningSum + weight ≤ config.limit)
    (hlimit : 0 ≤ config.limit) (t : ℚ) :
    windowWeight (s.admitted ++ [⟨now, weight⟩]) s.limiter.windowMs t ≤ config.limit := by
  simp only [windowWeight, List.filter_append, weightOf_append]
  by_cases hin : t - s.limiter.windowMs ≤ now ∧ now ≤ t
  · have hsee : weightOf (s.admitted.filter fun e =>
        t - s.limiter.windowMs ≤ e.time ∧ e.time ≤ t) ≤ (s.limiter.prune now).runningSum := by
      rw [h.prune_eq hnow]
      refine weightOf_filter_le h.nonneg fun e _ he => ?_
      simp only [decide_eq_true_eq] at he ⊢
      linarith [he.1, hin.2]
    have hlast : [(⟨now, weight⟩ : Entry)].filter (fun e =>
        t - s.limiter.windowMs ≤ e.time ∧ e.time ≤ t) = [⟨now, weight⟩] :=
      List.filter_cons_of_pos (by simpa using hin)
    rw [hlast, weightOf_singleton]
    linarith
  · have hlast : [(⟨now, weight⟩ : Entry)].filter (fun e =>
        t - s.limiter.windowMs ≤ e.time ∧ e.time ≤ t) = [] :=
      List.filter_cons_of_neg (by simpa using hin)
    have hnone : weightOf [] = 0 := rfl
    rw [hlast, hnone, add_zero]
    exact h.bounded hlimit t

/-- A call that admits its request. -/
theorem Tracks.admit (h : Tracks config s) (hnow : ∀ last ∈ s.last, last ≤ now) {weight : ℚ}
    (hweight : 0 ≤ weight)
    (hallowed : (s.limiter.prune now).runningSum + weight ≤ config.limit) :
    Tracks config ⟨{ s.limiter.prune now with
      entries := (s.limiter.prune now).entries ++ [⟨now, weight⟩]
      runningSum := (s.limiter.prune now).runningSum + weight },
      s.admitted ++ [⟨now, weight⟩], some now⟩ := by
  have hpruned := h.pruned hnow
  have hentries : (s.limiter.prune now).entries = windowAt s.admitted s.limiter.windowMs now := by
    rw [h.prune_eq hnow]
  have hwindow : (s.limiter.prune now).windowMs = s.limiter.windowMs := by rw [h.prune_eq hnow]
  constructor
  · exact hpruned.limit
  · exact hpruned.windowMs
  · constructor
    · refine List.pairwise_append.mpr ⟨hpruned.sums.sorted, List.pairwise_singleton _ _, ?_⟩
      intro a ha b hb
      rw [List.mem_singleton.mp hb]
      rw [hentries] at ha
      exact h.time_le hnow (List.mem_filter.mp ha).1
    · rw [weightOf_append, weightOf_singleton, ← hpruned.sums.sum]
  · intro _ heq e he
    obtain rfl := Option.some.inj heq
    rcases List.mem_append.mp he with he | he
    · exact h.time_le hnow he
    · rw [List.mem_singleton.mp he]
  · intro hnone
    cases hnone
  · intro e he
    rcases List.mem_append.mp he with he | he
    · exact h.nonneg e he
    · rw [List.mem_singleton.mp he]
      exact hweight
  · intro now' hle
    have hrest := hpruned.retained now' hle
    simp only [windowAt, List.filter_append] at hrest ⊢
    rw [hrest]
  · intro hpositive now' heq
    obtain rfl := Option.some.inj heq
    have hself : now - s.limiter.windowMs ≤ now := by
      rw [h.windowMs]
      linarith
    simp only [hwindow, hentries, windowAt, List.filter_append]
    rw [List.filter_cons_of_pos (by simpa using hself), List.filter_nil]
  · intro hlimit t
    simp only [hwindow]
    exact windowWeight_admit h hnow hallowed hlimit t

theorem tracks_step (h : Tracks config s) (hcall : s.InOrder call) :
    Tracks config (s.step call) := by
  obtain ⟨hnow, hweight⟩ := hcall
  cases call with
  | peek weight now =>
    have hnow : ∀ last ∈ s.last, last ≤ now := hnow
    simpa [step, admits, SlidingWindowRateLimiter.call, peek, RateCall.now] using h.pruned hnow
  | count now =>
    have hnow : ∀ last ∈ s.last, last ≤ now := hnow
    simpa [step, admits, SlidingWindowRateLimiter.call, count, RateCall.now] using h.pruned hnow
  | check weight now =>
    have hnow : ∀ last ∈ s.last, last ≤ now := hnow
    have hlimit : (s.limiter.prune now).limit = config.limit := by
      rw [h.prune_eq hnow]
      exact h.limit
    cases hallowed : ((s.limiter.prune now).verdict weight now).allowed with
    | true =>
      have hsum := (allowed_verdict_iff _ weight now).mp hallowed
      rw [hlimit] at hsum
      simpa [step, admits, SlidingWindowRateLimiter.call, check, hallowed, RateCall.now] using
        h.admit hnow (hweight weight now rfl) hsum
    | false =>
      simpa [step, admits, SlidingWindowRateLimiter.call, check, hallowed, RateCall.now] using h.pruned hnow

/-- **The limiter counts its window.** After every run in which time does not
go back and no weight is negative: the running sum is that of the retained
entries; pruning at any later time retains, as filtering does, the admitted
entries of the window before it, and those of the window before the last call
are what is retained now; `peek` answers as `check` would and changes no
later answer, nor does `count`; and what was admitted in any window is within
the limit. -/
theorem counts_window {config : RateLimitConfig} {calls : List RateCall}
    (h : StepsMeet step InOrder (init config) calls) :
    let s := run step (init config) calls
    s.limiter.runningSum = weightOf s.limiter.entries ∧
    (∀ now, (∀ last ∈ s.last, last ≤ now) → (s.limiter.prune now).entries =
      windowAt s.admitted (config.windowSeconds * 1000) now) ∧
    (0 ≤ config.windowSeconds → ∀ now, s.last = some now → s.limiter.entries =
      windowAt s.admitted (config.windowSeconds * 1000) now) ∧
    (∀ weight now, (s.limiter.peek weight now).1 = (s.limiter.check weight now).1) ∧
    (∀ weight now later, (∀ call ∈ later, now ≤ call.now) →
      (s.limiter.peek weight now).2.answers later = s.limiter.answers later ∧
      (s.limiter.count now).2.answers later = s.limiter.answers later) ∧
    (0 ≤ config.limit → ∀ t,
      windowWeight s.admitted (config.windowSeconds * 1000) t ≤ config.limit) := by
  have htracks : Tracks config (run step (init config) calls) :=
    run_invariant_of_stepsMeet (fun _ _ hs hcall => tracks_step hs hcall) (tracks_init config) h
  rw [← htracks.windowMs]
  refine ⟨htracks.sums.sum, fun now hnow => ?_, htracks.exact,
    fun weight now => peek_eq_check _ weight now, fun weight now later hlater => ?_,
    htracks.bounded⟩
  · rw [htracks.prune_eq hnow]
  · exact ⟨answers_prune htracks.sums hlater, answers_prune htracks.sums hlater⟩

/-- Two requests of weight two against a limit of three, and a third one when
the first leaves the window. -/
theorem counts_window_three :
    StepsMeet step InOrder (init ⟨3, 1⟩) [.check 2 0, .check 2 1000, .check 2 1001] ∧
      windowWeight (run step (init ⟨3, 1⟩) [.check 2 0, .check 2 1000, .check 2 1001]).admitted
        1000 1001 ≤ 3 := by
  have hmeet : StepsMeet step InOrder (init ⟨3, 1⟩) [.check 2 0, .check 2 1000, .check 2 1001] := by
    refine ⟨?_, ?_, ?_, trivial⟩
    · simp [InOrder, init, RateCall.now]
    · simp [InOrder, init, step, RateCall.now]
    · norm_num [InOrder, init, step, RateCall.now]
  have hbound := (counts_window hmeet).2.2.2.2.2 (by norm_num) 1001
  exact ⟨hmeet, by simpa using hbound⟩

end WindowRun

/-- The proxy makes no limiter with a limit that is not positive. -/
theorem limit_pos_of_createRateLimiter {rateLimitRequests : ℚ} {snap : Option RateSnapshot}
    {requestUseHardCap neverLimitRequests : Bool} {rl : SlidingWindowRateLimiter}
    (h : createRateLimiter rateLimitRequests snap requestUseHardCap neverLimitRequests = some rl) :
    ∃ config : RateLimitConfig, rl = .new config ∧ 0 < config.limit := by
  unfold createRateLimiter at h
  split at h
  · cases h
  · split at h
    · cases h
    · simp only at h
      split at h
      · rename_i hpos
        obtain rfl := Option.some.inj h
        exact ⟨_, rfl, hpos⟩
      · split at h
        · rename_i limit _
          split at h
          · rename_i hpos
            obtain rfl := Option.some.inj h
            exact ⟨_, rfl, hpos⟩
          · cases h
        · cases h

end UmansGate.Rate
