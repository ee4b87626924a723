/-
UmansGate.Rate.RetryTheorems — when the advertised seconds are enough.

Calls that admit nothing only take entries from the front (`dropped`), and
the binary search reaches the first entry whenever it is older than the
cutoff (`cutAt_pos`), whatever the order of the others. So the oldest entry
is gone after the advertised seconds unless these end exactly where it does:
the seconds are rounded up, and an entry as old as the cutoff is kept.
-/
import UmansGate.Rate.WindowTheorems

namespace UmansGate.Rate

open UmansGate.Lib

/-- The loop does not stop at zero when the first position is before the cut. -/
theorem lowerBound_pos {p : ℕ → Bool} {lo hi : ℕ} (hlt : lo < hi) (hp : p 0 = true) :
    0 < lowerBound p lo hi := by
  fun_induction lowerBound p lo hi with
  | case1 lo hi _ mid hmid ih =>
    by_cases hnext : mid + 1 < hi
    · exact ih hnext
    · rw [lowerBound, if_neg hnext]
      omega
  | case2 lo hi _ mid hmid ih =>
    by_cases hnext : lo < mid
    · exact ih hnext
    · rw [lowerBound, if_neg hnext]
      rcases Nat.eq_zero_or_pos lo with rfl | hlo
      · obtain hzero : mid = 0 := by omega
        rw [hzero] at hmid
        exact absurd hp hmid
      · exact hlo
  | case3 lo hi hge => exact absurd hlt hge

theorem cutAt_pos {α : Type} {p : α → Bool} {a : α} {l : List α} (hp : p a = true) :
    0 < cutAt p (a :: l) :=
  lowerBound_pos (by simp) (by simpa using hp)

namespace SlidingWindowRateLimiter

variable {rl : SlidingWindowRateLimiter}

/-- Without the first entries. -/
def dropped (rl : SlidingWindowRateLimiter) (n : ℕ) : SlidingWindowRateLimiter :=
  { rl with
    entries := rl.entries.drop n
    runningSum := rl.runningSum - weightOf (rl.entries.take n) }

@[simp] theorem dropped_zero (rl : SlidingWindowRateLimiter) : rl.dropped 0 = rl := by
  simp [dropped, weightOf]

theorem dropped_dropped (rl : SlidingWindowRateLimiter) (m n : ℕ) :
    (rl.dropped m).dropped n = rl.dropped (m + n) := by
  simp only [dropped, List.drop_drop, List.take_add, weightOf_append]
  congr 1
  linarith

/-- How many entries are pruned. -/
def pruned (rl : SlidingWindowRateLimiter) (now : ℚ) : ℕ :=
  cutAt (fun e => decide (e.time < now - rl.windowMs)) rl.entries

theorem prune_eq_dropped (rl : SlidingWindowRateLimiter) (now : ℚ) :
    rl.prune now = rl.dropped (rl.pruned now) := by
  simp only [prune, dropped, pruned, foldl_sub_weight]

/-- A call that admits nothing only prunes. -/
theorem call_eq_prune {call : RateCall} (h : WindowRun.admits rl call = []) :
    (rl.call call).2 = rl.prune call.now := by
  cases call with
  | peek weight now => rfl
  | count now => rfl
  | check weight now =>
    cases hallowed : ((rl.prune now).verdict weight now).allowed with
    | true => simp [WindowRun.admits, check, hallowed] at h
    | false => simp [call, check, hallowed, RateCall.now]

/-- What the calls leave. -/
def after (rl : SlidingWindowRateLimiter) (calls : List RateCall) : SlidingWindowRateLimiter :=
  run (fun rl call => (rl.call call).2) rl calls

/-- The calls admit no request. -/
def AdmitsNone (rl : SlidingWindowRateLimiter) (calls : List RateCall) : Prop :=
  StepsMeet (fun rl call => (rl.call call).2) (fun rl call => WindowRun.admits rl call = []) rl
    calls

/-- Calls that admit nothing only take entries from the front. -/
theorem after_eq_dropped {calls : List RateCall} (h : rl.AdmitsNone calls) :
    ∃ n, rl.after calls = rl.dropped n := by
  refine run_invariant_of_stepsMeet (I := fun rl' => ∃ n, rl' = rl.dropped n) ?_
    ⟨0, (dropped_zero rl).symm⟩ h
  rintro _ call ⟨n, rfl⟩ hnone
  refine ⟨n + (rl.dropped n).pruned call.now, ?_⟩
  rw [call_eq_prune hnone, prune_eq_dropped, dropped_dropped]

/-- The first entry is pruned when it is older than the cutoff, in whatever
order the entries lie. -/
theorem pruned_pos {now : ℚ} {oldest : Entry} {rest : List Entry}
    (hentries : rl.entries = oldest :: rest) (hold : oldest.time < now - rl.windowMs) :
    0 < rl.pruned now := by
  rw [pruned, hentries]
  exact cutAt_pos (by simpa using hold)

/-- Entries in the order of their times stay when the first one does. -/
theorem prune_entries_of_not_lt {now : ℚ} {oldest : Entry} {rest : List Entry}
    (hsorted : rl.entries.Pairwise fun a b => a.time ≤ b.time)
    (hentries : rl.entries = oldest :: rest) (hkept : ¬ oldest.time < now - rl.windowMs) :
    (rl.prune now).entries = rl.entries := by
  have hcut := take_cutAt (p := fun e : Entry => decide (e.time < now - rl.windowMs))
    (hsorted.imp fun hle hlt => by
      rw [decide_eq_true_eq] at hlt ⊢
      linarith)
  have hall : ∀ e ∈ rl.entries, now - rl.windowMs ≤ e.time := by
    rw [hentries] at hsorted ⊢
    intro e he
    rcases List.mem_cons.mp he with rfl | he
    · exact not_lt.mp hkept
    · exact (not_lt.mp hkept).trans ((List.pairwise_cons.mp hsorted).1 e he)
  calc (rl.prune now).entries
      = rl.entries.filter fun e => !decide (e.time < now - rl.windowMs) := hcut.2
    _ = rl.entries := List.filter_eq_self.mpr fun e he => by
        simpa using not_lt.mpr (hall e he)

/-- After calls that admit nothing the first entry is gone as soon as it is
older than the cutoff. -/
theorem prune_after {calls : List RateCall} {now : ℚ} {oldest : Entry} {rest : List Entry}
    (h : rl.AdmitsNone calls) (hentries : rl.entries = oldest :: rest)
    (hold : oldest.time < now - rl.windowMs) :
    ∃ n, 0 < n ∧ (rl.after calls).prune now = rl.dropped n := by
  obtain ⟨n, hn⟩ := after_eq_dropped h
  refine ⟨n + (rl.dropped n).pruned now, ?_, by rw [hn, prune_eq_dropped, dropped_dropped]⟩
  rcases Nat.eq_zero_or_pos n with rfl | hpos
  · rw [dropped_zero, Nat.zero_add]
    exact pruned_pos hentries hold
  · exact Nat.add_pos_left hpos _

/-- The first entries weigh at least what the very first one does. -/
theorem weight_le_weightOf_take {oldest : Entry} {rest : List Entry}
    (hweights : ∀ e ∈ rest, 0 ≤ e.weight) {n : ℕ} (hn : 0 < n) :
    oldest.weight ≤ weightOf ((oldest :: rest).take n) := by
  obtain ⟨m, rfl⟩ := Nat.exists_eq_succ_of_ne_zero (Nat.ne_of_gt hn)
  have hrest : 0 ≤ weightOf (rest.take m) := by
    refine List.sum_nonneg fun w hw => ?_
    obtain ⟨e, he, rfl⟩ := List.mem_map.mp hw
    exact hweights e (List.mem_of_mem_take he)
  simp only [List.take_succ_cons, weightOf, List.map_cons, List.sum_cons] at hrest ⊢
  linarith

theorem check_allowed_iff (rl : SlidingWindowRateLimiter) (weight now : ℚ) :
    (rl.check weight now).1.allowed = true ↔
      (rl.prune now).runningSum + weight ≤ (rl.prune now).limit := by
  rw [← allowed_verdict_iff (rl.prune now) weight now]
  simp only [check]
  split
  · rfl
  · rfl

/-- A refused check leaves the pruned limiter, and says the seconds until the
oldest entry is due, rounded up and at least one. -/
theorem check_refused {weight now : ℚ} (h : (rl.check weight now).1.allowed = false) :
    (rl.check weight now).2 = rl.prune now ∧
      ∀ oldest rest, (rl.prune now).entries = oldest :: rest →
        (rl.check weight now).1.retryAfterSeconds =
          some (max 1 ⌈(oldest.time + rl.windowMs - now) / 1000⌉) := by
  have hwindow : (rl.prune now).windowMs = rl.windowMs := rfl
  cases hallowed : ((rl.prune now).verdict weight now).allowed with
  | true => simp [check, hallowed] at h
  | false =>
    have hfull : (rl.prune now).runningSum + weight > (rl.prune now).limit := by
      by_contra hle
      have := (allowed_verdict_iff _ weight now).mpr (not_lt.mp hle)
      simp [hallowed] at this
    simp only [check, hallowed, Bool.false_eq_true, if_false, true_and]
    intro oldest rest hentries
    simp only [verdict, if_pos hfull, hentries, List.head?_cons, hwindow]

/-- The oldest entry is due a whole number of seconds, at least one, after
the time. -/
def DueOnTheSecond (rl : SlidingWindowRateLimiter) (oldest : Entry) (now : ℚ) : Prop :=
  ∃ k : ℕ, 0 < k ∧ oldest.time + rl.windowMs - now = k * 1000

/-- The entry is older than the cutoff when the advertised seconds are over,
unless it is due on the second. -/
theorem lt_cutoff_iff {oldest : Entry} {now : ℚ} :
    oldest.time <
        now + (max 1 ⌈(oldest.time + rl.windowMs - now) / 1000⌉ : ℤ) * 1000 - rl.windowMs ↔
      ¬ rl.DueOnTheSecond oldest now := by
  generalize hd : oldest.time + rl.windowMs - now = d
  have hshift : oldest.time < now + (max 1 ⌈d / 1000⌉ : ℤ) * 1000 - rl.windowMs ↔
      d < (max 1 ⌈d / 1000⌉ : ℤ) * 1000 := by
    constructor <;> intro h <;> linarith
  rw [hshift, DueOnTheSecond, hd]
  have hceil : d / 1000 ≤ ⌈d / 1000⌉ := Int.le_ceil _
  constructor
  · rintro hlt ⟨k, hk, rfl⟩
    have hone : (1 : ℤ) ≤ k := by exact_mod_cast hk
    rw [mul_div_cancel_right₀ _ (by norm_num), Int.ceil_natCast, max_eq_right hone] at hlt
    simp at hlt
  · intro hdue
    rcases le_total ⌈d / 1000⌉ 1 with hle | hle
    · rw [max_eq_left hle]
      have hsecond : d / 1000 ≤ 1 := hceil.trans (by exact_mod_cast hle)
      have hne : d ≠ 1000 := fun heq => hdue ⟨1, Nat.one_pos, by rw [heq]; norm_num⟩
      have hbound : d ≤ 1000 := by linarith
      have hstrict : d < 1000 := lt_of_le_of_ne hbound hne
      push_cast
      linarith
    · rw [max_eq_right hle]
      obtain ⟨k, hk⟩ := Int.eq_ofNat_of_zero_le (Int.le_trans Int.one_nonneg hle)
      rw [hk] at hceil hle ⊢
      have hbound : d ≤ k * 1000 := by
        push_cast at hceil
        linarith
      refine lt_of_le_of_ne (by exact_mod_cast hbound) fun heq => hdue ⟨k, ?_, ?_⟩
      · exact_mod_cast hle
      · exact_mod_cast heq

/-- After the advertised seconds, whatever calls that admit nothing came in
between, the oldest entry retained by the refused check has left the window,
and the check is admitted if that entry covers the missing room. -/
def Sufficient (rl : SlidingWindowRateLimiter) (weight t : ℚ) (r : ℤ) (oldest : Entry) : Prop :=
  ∀ calls, (rl.check weight t).2.AdmitsNone calls →
    (∃ n, 0 < n ∧ (((rl.check weight t).2.after calls).prune (t + r * 1000)).entries =
      (rl.check weight t).2.entries.drop n) ∧
    ((rl.check weight t).2.runningSum + weight - rl.limit ≤ oldest.weight →
      (((rl.check weight t).2.after calls).check weight (t + r * 1000)).1.allowed = true)

/-- **The advertised seconds are enough unless the oldest entry is due on the
second.** In every state that refuses a check: when the oldest retained entry
is not due a whole number of seconds later, it has left the window when the
advertised seconds are over, and if it covers the missing room the same check
is admitted. In states whose entries lie in the order of their times that is
the only exception, and one without exception. -/
theorem retryAfter_sufficient_iff {weight t : ℚ} {r : ℤ} {oldest : Entry} {rest : List Entry}
    (hweights : ∀ e ∈ rl.entries, 0 ≤ e.weight)
    (hrefused : (rl.check weight t).1.allowed = false)
    (hretry : (rl.check weight t).1.retryAfterSeconds = some r)
    (holdest : (rl.check weight t).2.entries = oldest :: rest) :
    (¬ rl.DueOnTheSecond oldest t → rl.Sufficient weight t r oldest) ∧
      (rl.entries.Pairwise (fun a b => a.time ≤ b.time) →
        (rl.Sufficient weight t r oldest ↔ ¬ rl.DueOnTheSecond oldest t)) := by
  obtain ⟨hstate, hseconds⟩ := check_refused hrefused
  rw [hstate] at holdest
  obtain rfl : max 1 ⌈(oldest.time + rl.windowMs - t) / 1000⌉ = r := by
    have := hseconds oldest rest holdest
    rw [hretry] at this
    exact (Option.some.inj this).symm
  have hwindow : (rl.prune t).windowMs = rl.windowMs := rfl
  have hlimit : (rl.prune t).limit = rl.limit := rfl
  have hrest : ∀ e ∈ rest, 0 ≤ e.weight := fun e he => by
    have hmem : e ∈ (rl.prune t).entries := by
      rw [holdest]
      exact List.mem_cons_of_mem oldest he
    exact hweights e (List.mem_of_mem_drop hmem)
  have henough : ¬ rl.DueOnTheSecond oldest t →
      rl.Sufficient weight t (max 1 ⌈(oldest.time + rl.windowMs - t) / 1000⌉) oldest := by
    intro hdue calls hnone
    rw [hstate] at hnone ⊢
    obtain ⟨n, hn, hprune⟩ := prune_after hnone holdest (by
      rw [hwindow]
      exact lt_cutoff_iff.mpr hdue)
    refine ⟨⟨n, hn, by rw [hprune, dropped]⟩, fun hcovers => ?_⟩
    have hweight : oldest.weight ≤ weightOf ((rl.prune t).entries.take n) := by
      rw [holdest]
      exact weight_le_weightOf_take hrest hn
    rw [check_allowed_iff, hprune]
    simp only [dropped]
    linarith
  refine ⟨henough, fun hsorted => ⟨fun hsufficient => ?_, henough⟩⟩
  -- without calls in between, the entry left because it was older than the cutoff
  obtain ⟨⟨n, hn, hleft⟩, -⟩ := hsufficient [] trivial
  rw [hstate] at hleft
  refine lt_cutoff_iff.mp (by_contra fun hkept => ?_)
  have horder : (rl.prune t).entries.Pairwise fun a b => a.time ≤ b.time :=
    hsorted.sublist (List.drop_sublist _ _)
  have hstay := prune_entries_of_not_lt horder holdest (by rwa [hwindow])
  have hlength := congrArg List.length (hstay.symm.trans hleft)
  simp only [holdest, List.length_drop, List.length_cons] at hlength
  omega

/-- Half a second into its window an entry is not due on the second: the
check is admitted a second later. -/
theorem retryAfter_sufficient_half :
    Sufficient ⟨[⟨0, 1⟩], 1, 1, 1000⟩ 1 500 1 ⟨0, 1⟩ := by
  have hkept : prune ⟨[⟨0, 1⟩], 1, 1, 1000⟩ 500 = ⟨[⟨0, 1⟩], 1, 1, 1000⟩ := by decide +kernel
  have hrefused : (check ⟨[⟨0, 1⟩], 1, 1, 1000⟩ 1 500).1 = ⟨false, 0, some 1⟩ := by decide +kernel
  have hentries : (check ⟨[⟨0, 1⟩], 1, 1, 1000⟩ 1 500).2.entries = [⟨0, 1⟩] := by
    rw [(check_refused (by rw [hrefused])).1, hkept]
  refine (retryAfter_sufficient_iff ?_ ?_ ?_ hentries).1 ?_
  · simp
  · rw [hrefused]
  · rw [hrefused]
  · rintro ⟨k, hk, heq⟩
    have hone : (1 : ℚ) ≤ k := by exact_mod_cast hk
    norm_num at heq
    linarith

/-- An entry admitted at the start of a window of one second, and the same
check refused right then and again when the second that it was told to wait
is over. -/
theorem retryAfter_not_sufficient :
    let rl := (check (new ⟨1, 1⟩) 1 0).2
    (rl.check 1 0).1 = ⟨false, 0, some 1⟩ ∧ (rl.check 1 0).2.entries = [⟨0, 1⟩] ∧
      ((rl.check 1 0).2.check 1 (0 + 1 * 1000)).1 = ⟨false, 0, some 1⟩ ∧
      ¬ rl.Sufficient 1 0 1 ⟨0, 1⟩ := by
  refine ⟨by decide +kernel, by decide +kernel, by decide +kernel, fun h => ?_⟩
  have hrefused : (((check (new ⟨1, 1⟩) 1 0).2.check 1 0).2.check 1 (0 + 1 * 1000)).1.allowed =
      false := by decide +kernel
  have hcovers : ((check (new ⟨1, 1⟩) 1 0).2.check 1 0).2.runningSum + 1 -
      (check (new ⟨1, 1⟩) 1 0).2.limit ≤ 1 := by decide +kernel
  have hadmitted := (h [] trivial).2 hcovers
  simp only [after, run_nil, Int.cast_one] at hadmitted
  rw [hrefused] at hadmitted
  cases hadmitted

end SlidingWindowRateLimiter

end UmansGate.Rate
