/-
UmansGate.UsageHistory.ActivityTheorems — the hour buckets of a day's active
minutes.

An interval that counts is credited to the hour it begins in, whole. So the
buckets lose nothing, but the last interval of an hour can carry its bucket
past sixty minutes, by as much as it reaches behind the hour's end. All this
is in exact arithmetic: sums of doubles can end in another last digit.
-/
import Mathlib.Algebra.Order.BigOperators.Group.List
import Mathlib.Tactic.Linarith
import Mathlib.Tactic.FieldSimp
import UmansGate.UsageHistory.Daily

namespace UmansGate.UsageHistory

open UmansGate.Lib

variable {config : DownsampleConfig} {st : ActivityScan} {dayUtc : Int} {h : ℕ}
  {samples : List UsageSample}

/-! ## Intervals -/

/-- Two adjacent samples. -/
abbrev Interval := UsageSample × UsageSample

namespace Interval

/-- How long the interval is. -/
def ms (i : Interval) : Int := i.2.fetchedAt - i.1.fetchedAt

/-- The hour it begins in. -/
def hour (i : Interval) : ℕ := getUTCHours i.1.fetchedAt

/-- The part of it between two times. -/
def overlapMs (start stop : Int) (i : Interval) : Int :=
  max 0 (min i.2.fetchedAt stop - max i.1.fetchedAt start)

/-- The part of it behind a time. -/
def behindMs (stop : Int) (i : Interval) : Int := max 0 (i.2.fetchedAt - stop)

end Interval

/-- How long the intervals are together. -/
def totalMs (intervals : List Interval) : Int := (intervals.map Interval.ms).sum

/-- The intervals that begin in an hour. -/
def inHour (h : ℕ) (intervals : List Interval) : List Interval :=
  intervals.filter fun i => i.hour = h

theorem totalMs_append (a b : List Interval) : totalMs (a ++ b) = totalMs a + totalMs b := by
  simp [totalMs]

theorem getUTCHours_lt (ms : Int) : getUTCHours ms < 24 := by
  unfold getUTCHours
  omega

/-! ## The intervals that count -/

/-- The step counts the interval. -/
def ActivityScan.counts (config : DownsampleConfig) (st : ActivityScan) (i : Interval) : Bool :=
  if i.ms > config.usageGapThresholdMinutes * MS_PER_MINUTE ∧ i.1.ambient ≠ i.2.ambient then false
  else if i.2.ambient.tokensIn ≠ i.1.ambient.tokensIn ∨
      i.2.ambient.tokensOut ≠ i.1.ambient.tokensOut ∨
      i.2.ambient.tokensCached ≠ i.1.ambient.tokensCached then true
  else if i.1.ambient.concurrentSessions = 0 ∧ i.2.ambient.concurrentSessions = 0 then false
  else if activityKey i.1.ambient = activityKey i.2.ambient then
    (st.idleStreakMs + i.ms : Int) ≤ config.usageIdleSessionTimeoutMinutes * MS_PER_MINUTE
  else true

/-- The intervals the scan counts. -/
def counted (config : DownsampleConfig) : ActivityScan → List Interval → List Interval
  | _, [] => []
  | st, i :: rest =>
    (if st.counts config i then [i] else []) ++ counted config (st.step config i.1 i.2) rest

theorem counted_sublist (config : DownsampleConfig) (st : ActivityScan) (intervals : List Interval) :
    (counted config st intervals).Sublist intervals := by
  induction intervals generalizing st with
  | nil => exact List.Sublist.refl _
  | cons i rest ih =>
    rw [counted]
    split
    · exact (ih _).cons_cons i
    · exact (ih _).cons i

/-- The step credits an interval that counts to the total and to its hour, and
no other. -/
theorem step_credits (config : DownsampleConfig) (st : ActivityScan) (i : Interval) :
    let st' := st.step config i.1 i.2
    if st.counts config i then
      st'.accumulatedActiveMinutes = st.accumulatedActiveMinutes + (i.ms : ℚ) / MS_PER_MINUTE ∧
        st'.hourBuckets = st.hourBuckets.modify i.hour (· + (i.ms : ℚ) / MS_PER_MINUTE)
    else st'.accumulatedActiveMinutes = st.accumulatedActiveMinutes ∧
      st'.hourBuckets = st.hourBuckets := by
  intro st'
  by_cases hgap : i.ms > config.usageGapThresholdMinutes * MS_PER_MINUTE ∧ i.1.ambient ≠ i.2.ambient
  · have hcounts : st.counts config i = false := if_pos hgap
    have hstep : st' = { st with hasGap := true, idleStreakMs := 0 } := if_pos hgap
    rw [hcounts, hstep]
    exact ⟨rfl, rfl⟩
  by_cases htokens : i.2.ambient.tokensIn ≠ i.1.ambient.tokensIn ∨
      i.2.ambient.tokensOut ≠ i.1.ambient.tokensOut ∨
      i.2.ambient.tokensCached ≠ i.1.ambient.tokensCached
  · have hcounts : st.counts config i = true := (if_neg hgap).trans (if_pos htokens)
    have hstep : st' = { st with idleStreakMs := 0 }.count i.1 i.ms :=
      (if_neg hgap).trans (if_pos htokens)
    rw [hcounts, hstep]
    exact ⟨rfl, rfl⟩
  by_cases hidle : i.1.ambient.concurrentSessions = 0 ∧ i.2.ambient.concurrentSessions = 0
  · have hcounts : st.counts config i = false :=
      (if_neg hgap).trans ((if_neg htokens).trans (if_pos hidle))
    have hstep : st' = { st with idleStreakMs := 0 } :=
      (if_neg hgap).trans ((if_neg htokens).trans (if_pos hidle))
    rw [hcounts, hstep]
    exact ⟨rfl, rfl⟩
  by_cases hkey : activityKey i.1.ambient = activityKey i.2.ambient
  · have hcounts : st.counts config i = decide ((st.idleStreakMs + i.ms : Int) ≤
        config.usageIdleSessionTimeoutMinutes * MS_PER_MINUTE) :=
      (if_neg hgap).trans ((if_neg htokens).trans ((if_neg hidle).trans (if_pos hkey)))
    have hstep : st' = if (st.idleStreakMs + i.ms : Int) ≤
        config.usageIdleSessionTimeoutMinutes * MS_PER_MINUTE then
        { st with idleStreakMs := st.idleStreakMs + i.ms }.count i.1 i.ms
      else { st with idleStreakMs := st.idleStreakMs + i.ms } :=
      (if_neg hgap).trans ((if_neg htokens).trans ((if_neg hidle).trans (if_pos hkey)))
    by_cases hstreak : (st.idleStreakMs + i.ms : Int) ≤
        config.usageIdleSessionTimeoutMinutes * MS_PER_MINUTE
    · rw [hcounts, hstep, if_pos hstreak, decide_eq_true hstreak]
      exact ⟨rfl, rfl⟩
    · rw [hcounts, hstep, if_neg hstreak, decide_eq_false hstreak]
      exact ⟨rfl, rfl⟩
  · have hcounts : st.counts config i = true :=
      (if_neg hgap).trans ((if_neg htokens).trans ((if_neg hidle).trans (if_neg hkey)))
    have hstep : st' = { st with idleStreakMs := 0 }.count i.1 i.ms :=
      (if_neg hgap).trans ((if_neg htokens).trans ((if_neg hidle).trans (if_neg hkey)))
    rw [hcounts, hstep]
    exact ⟨rfl, rfl⟩

/-! ## What the scan has credited -/

/-- The intervals credited so far: each to the total and to the hour it begins
in. -/
structure Tallies (st : ActivityScan) (credited : List Interval) : Prop where
  length : st.hourBuckets.length = 24
  sum : st.hourBuckets.sum = st.accumulatedActiveMinutes
  total : st.accumulatedActiveMinutes = (totalMs credited : ℚ) / MS_PER_MINUTE
  bucket : ∀ h, st.hourBuckets.getD h 0 = (totalMs (inHour h credited) : ℚ) / MS_PER_MINUTE

theorem tallies_new : Tallies .new [] := by
  refine ⟨rfl, by decide +kernel, by simp [ActivityScan.new, totalMs], fun h => ?_⟩
  have hzero : (List.replicate 24 (0 : ℚ)).getD h 0 = 0 := by
    rw [List.getD_eq_getElem?_getD, List.getElem?_replicate]
    split <;> rfl
  rw [ActivityScan.new, hzero]
  simp [totalMs, inHour]

theorem sum_modify_add (l : List ℚ) (i : ℕ) (x : ℚ) (hi : i < l.length) :
    (l.modify i (· + x)).sum = l.sum + x := by
  induction l generalizing i with
  | nil => simp at hi
  | cons a l ih =>
    cases i with
    | zero =>
      rw [List.modify_zero_cons, List.sum_cons, List.sum_cons]
      ring
    | succ i =>
      rw [List.modify_succ_cons, List.sum_cons, List.sum_cons, ih i (by simpa using hi)]
      ring

theorem getD_modify_add (l : List ℚ) (i h : ℕ) (x : ℚ) (hi : i < l.length) :
    (l.modify i (· + x)).getD h 0 = l.getD h 0 + if i = h then x else 0 := by
  rw [List.getD_eq_getElem?_getD, List.getD_eq_getElem?_getD, List.getElem?_modify]
  by_cases heq : i = h
  · subst heq
    rw [List.getElem?_eq_getElem hi]
    simp
  · simp [heq]

theorem Tallies.step {credited : List Interval} (ht : Tallies st credited)
    (config : DownsampleConfig) (i : Interval) :
    Tallies (st.step config i.1 i.2)
      (credited ++ if st.counts config i then [i] else []) := by
  have hcredits := step_credits config st i
  by_cases hcounts : st.counts config i = true
  · simp only [hcounts, if_true] at hcredits ⊢
    obtain ⟨htotal, hbuckets⟩ := hcredits
    have hin : i.hour < st.hourBuckets.length := by
      rw [ht.length]
      exact getUTCHours_lt _
    refine ⟨?_, ?_, ?_, fun h => ?_⟩
    · rw [hbuckets, List.length_modify, ht.length]
    · rw [hbuckets, htotal, sum_modify_add _ _ _ hin, ht.sum]
    · rw [htotal, ht.total, totalMs_append, totalMs, totalMs, List.map_singleton,
        List.sum_singleton]
      push_cast
      ring
    · rw [hbuckets, getD_modify_add _ _ _ _ hin, ht.bucket, inHour, inHour, List.filter_append,
        totalMs_append]
      by_cases hhour : i.hour = h
      · simp [hhour, totalMs, add_div]
      · simp [hhour, totalMs]
  · rw [Bool.not_eq_true] at hcounts
    simp only [hcounts, Bool.false_eq_true, if_false] at hcredits ⊢
    obtain ⟨htotal, hbuckets⟩ := hcredits
    rw [List.append_nil]
    exact ⟨by rw [hbuckets, ht.length], by rw [hbuckets, htotal, ht.sum],
      by rw [htotal, ht.total], fun h => by rw [hbuckets, ht.bucket]⟩

theorem Tallies.run {credited : List Interval} (ht : Tallies st credited)
    (config : DownsampleConfig) (intervals : List Interval) :
    Tallies (intervals.foldl (fun st pair => st.step config pair.1 pair.2) st)
      (credited ++ counted config st intervals) := by
  induction intervals generalizing st credited with
  | nil =>
    rw [counted, List.append_nil]
    exact ht
  | cons i rest ih =>
    rw [List.foldl_cons, counted, ← List.append_assoc]
    exact ih (ht.step config i)

/-- The intervals of a day that count. -/
def countedOf (config : DownsampleConfig) (samples : List UsageSample) : List Interval :=
  counted config .new (adjacent samples)

theorem tallies_activityScan (config : DownsampleConfig) (samples : List UsageSample) :
    Tallies (activityScan config samples) (countedOf config samples) :=
  tallies_new.run config (adjacent samples)

/-! ## The samples of a day -/

/-- Samples of one day in ascending order. -/
structure Ascending (dayUtc : Int) (samples : List UsageSample) : Prop where
  sorted : samples.Pairwise fun a b => a.fetchedAt ≤ b.fetchedAt
  ofDay : ∀ s ∈ samples, UsageHistoryStore.inDays dayUtc dayUtc s.fetchedAt = true

/-- The time at which an hour of a day begins. -/
def hourStartMs (dayUtc : Int) (h : ℕ) : Int := utcMidnightMs dayUtc + h * (60 * MS_PER_MINUTE)

theorem hour_bounds {ms : Int} (hday : UsageHistoryStore.inDays dayUtc dayUtc ms = true) :
    hourStartMs dayUtc (getUTCHours ms) ≤ ms ∧ ms < hourStartMs dayUtc (getUTCHours ms + 1) := by
  obtain ⟨hfrom, hto⟩ := (Bool.and_eq_true _ _).mp hday
  have hfrom := of_decide_eq_true hfrom
  have hto := of_decide_eq_true hto
  simp only [utcMidnightMs, MS_PER_DAY] at hfrom hto
  simp only [hourStartMs, utcMidnightMs, getUTCHours, MS_PER_DAY, MS_PER_MINUTE]
  omega

/-- An interval ends before the next one begins. -/
theorem pairwise_adjacent (hs : samples.Pairwise fun a b => a.fetchedAt ≤ b.fetchedAt) :
    (adjacent samples).Pairwise fun i j => i.2.fetchedAt ≤ j.1.fetchedAt := by
  induction samples with
  | nil => exact List.Pairwise.nil
  | cons s rest ih =>
    cases rest with
    | nil => exact List.Pairwise.nil
    | cons t rest =>
      obtain ⟨-, htail⟩ := List.pairwise_cons.mp hs
      refine List.pairwise_cons.mpr ⟨fun j hj => ?_, ih htail⟩
      have hmem : j.1 ∈ t :: rest := (List.of_mem_zip hj).1
      rcases List.mem_cons.mp hmem with heq | hbehind
      · rw [heq]
      · exact (List.pairwise_cons.mp htail).1 j.1 hbehind

theorem ms_nonneg (hs : samples.Pairwise fun a b => a.fetchedAt ≤ b.fetchedAt) {i : Interval}
    (hi : i ∈ adjacent samples) : 0 ≤ i.ms := by
  induction samples with
  | nil => cases hi
  | cons s rest ih =>
    cases rest with
    | nil => cases hi
    | cons t rest =>
      obtain ⟨hhead, htail⟩ := List.pairwise_cons.mp hs
      rcases List.mem_cons.mp hi with rfl | hbehind
      · exact Int.sub_nonneg_of_le (hhead t List.mem_cons_self)
      · exact ih htail hbehind

/-- The intervals telescope. -/
theorem totalMs_adjacent (s last : UsageSample) (rest : List UsageSample)
    (hlast : (s :: rest).getLast? = some last) :
    totalMs (adjacent (s :: rest)) = last.fetchedAt - s.fetchedAt := by
  induction rest generalizing s with
  | nil =>
    rw [List.getLast?_singleton, Option.some.injEq] at hlast
    rw [hlast, sub_self]
    rfl
  | cons t rest ih =>
    rw [List.getLast?_cons_cons] at hlast
    have hrest := ih t hlast
    show (t.fetchedAt - s.fetchedAt) + totalMs (adjacent (t :: rest)) = _
    rw [hrest]
    omega

/-- So do their parts between two times. -/
theorem sum_overlapMs_le (start stop : Int) (hle : start ≤ stop) (s : UsageSample)
    (rest : List UsageSample)
    (hs : (s :: rest).Pairwise fun a b => a.fetchedAt ≤ b.fetchedAt) :
    ((adjacent (s :: rest)).map (Interval.overlapMs start stop)).sum ≤
      max 0 (stop - max s.fetchedAt start) := by
  induction rest generalizing s with
  | nil => exact le_max_left _ _
  | cons t rest ih =>
    obtain ⟨hhead, htail⟩ := List.pairwise_cons.mp hs
    have hst := hhead t List.mem_cons_self
    have hrest := ih t htail
    show Interval.overlapMs start stop (s, t) +
      ((adjacent (t :: rest)).map (Interval.overlapMs start stop)).sum ≤ _
    simp only [Interval.overlapMs] at hrest ⊢
    omega

/-! ## The buckets -/

/-- The minutes by which counted intervals that begin in the hour reach behind
its end. -/
def overrunMinutes (config : DownsampleConfig) (dayUtc : Int) (samples : List UsageSample) (h : ℕ) :
    ℚ :=
  (((inHour h (countedOf config samples)).map
    (Interval.behindMs (hourStartMs dayUtc (h + 1)))).sum : Int) / MS_PER_MINUTE

theorem inHour_sublist (config : DownsampleConfig) (samples : List UsageSample) (h : ℕ) :
    (inHour h (countedOf config samples)).Sublist (adjacent samples) :=
  List.filter_sublist.trans (counted_sublist config .new (adjacent samples))

/-- The time counted within an hour is at most the hour. -/
theorem totalMs_inHour_le (config : DownsampleConfig) (ha : Ascending dayUtc samples) (h : ℕ) :
    totalMs (inHour h (countedOf config samples)) ≤ 60 * MS_PER_MINUTE +
      ((inHour h (countedOf config samples)).map
        (Interval.behindMs (hourStartMs dayUtc (h + 1)))).sum := by
  have hsub := inHour_sublist config samples h
  have hhour : hourStartMs dayUtc (h + 1) = hourStartMs dayUtc h + 60 * MS_PER_MINUTE := by
    simp only [hourStartMs]
    push_cast
    ring
  have hparts : ∀ i ∈ inHour h (countedOf config samples), i.ms =
      i.overlapMs (hourStartMs dayUtc h) (hourStartMs dayUtc (h + 1)) +
        i.behindMs (hourStartMs dayUtc (h + 1)) := by
    intro i hi
    have hbegins : i.hour = h := by simpa using (List.mem_filter.mp hi).2
    have hnonneg := ms_nonneg ha.sorted (hsub.subset hi)
    obtain ⟨hstart, hstop⟩ := hour_bounds (ha.ofDay i.1 (List.of_mem_zip (hsub.subset hi)).1)
    rw [show getUTCHours i.1.fetchedAt = h from hbegins] at hstart hstop
    simp only [Interval.ms, Interval.overlapMs, Interval.behindMs] at hnonneg ⊢
    omega
  have hoverlap : ((inHour h (countedOf config samples)).map
      (Interval.overlapMs (hourStartMs dayUtc h) (hourStartMs dayUtc (h + 1)))).sum ≤
      60 * MS_PER_MINUTE := by
    refine ((hsub.map _).sum_le_sum fun x hx => ?_).trans ?_
    · obtain ⟨i, -, rfl⟩ := List.mem_map.mp hx
      exact le_max_left _ _
    · have hpos : (0 : Int) < MS_PER_MINUTE := by decide
      cases samples with
      | nil => exact (Int.mul_pos (by decide) hpos).le
      | cons s rest =>
        have hsum := sum_overlapMs_le (hourStartMs dayUtc h) (hourStartMs dayUtc (h + 1)) (by omega)
          s rest ha.sorted
        omega
  rw [totalMs, List.map_congr_left hparts, List.sum_map_add]
  exact Int.add_le_add_right hoverlap _

/-- At most one interval of an hour reaches behind its end. -/
theorem length_crossing_le (config : DownsampleConfig) (ha : Ascending dayUtc samples) (h : ℕ) :
    ((inHour h (countedOf config samples)).filter fun i =>
      i.2.fetchedAt > hourStartMs dayUtc (h + 1)).length ≤ 1 := by
  have hsub := inHour_sublist config samples h
  have hpairs := (pairwise_adjacent ha.sorted).sublist (List.filter_sublist.trans hsub :
    ((inHour h (countedOf config samples)).filter fun i =>
      i.2.fetchedAt > hourStartMs dayUtc (h + 1)).Sublist (adjacent samples))
  have hmem : ∀ i ∈ (inHour h (countedOf config samples)).filter (fun i =>
      i.2.fetchedAt > hourStartMs dayUtc (h + 1)),
      i.2.fetchedAt > hourStartMs dayUtc (h + 1) ∧
        i.1.fetchedAt < hourStartMs dayUtc (h + 1) := by
    intro i hi
    obtain ⟨hin, hcrosses⟩ := List.mem_filter.mp hi
    have hbegins : i.hour = h := by simpa using (List.mem_filter.mp hin).2
    obtain ⟨-, hstop⟩ := hour_bounds (ha.ofDay i.1 (List.of_mem_zip (hsub.subset hin)).1)
    rw [show getUTCHours i.1.fetchedAt = h from hbegins] at hstop
    exact ⟨by simpa using hcrosses, hstop⟩
  generalize (inHour h (countedOf config samples)).filter (fun i =>
    i.2.fetchedAt > hourStartMs dayUtc (h + 1)) = crossing at hpairs hmem
  cases crossing with
  | nil => exact Nat.zero_le 1
  | cons i rest =>
    cases rest with
    | nil => exact le_refl 1
    | cons j rest =>
      have hbefore := (List.pairwise_cons.mp hpairs).1 j List.mem_cons_self
      have hi := hmem i List.mem_cons_self
      have hj := hmem j (List.mem_cons_of_mem _ List.mem_cons_self)
      omega

/-- What the buckets of a day's samples are. -/
structure BucketsSound (config : DownsampleConfig) (dayUtc : Int) (samples : List UsageSample)
    (scan : ActivityScan) : Prop where
  length : scan.hourBuckets.length = 24
  atMost : ∀ h, scan.hourBuckets.getD h 0 ≤ 60 + overrunMinutes config dayUtc samples h
  crossing : ∀ h, ((inHour h (countedOf config samples)).filter fun i =>
    i.2.fetchedAt > hourStartMs dayUtc (h + 1)).length ≤ 1
  sum : scan.hourBuckets.sum = scan.accumulatedActiveMinutes
  span : ∀ first ∈ samples.head?, ∀ last ∈ samples.getLast?,
    scan.accumulatedActiveMinutes ≤ ((last.fetchedAt - first.fetchedAt : Int) : ℚ) / MS_PER_MINUTE

theorem msPerMinute_pos : (0 : ℚ) < MS_PER_MINUTE := by
  norm_num [MS_PER_MINUTE]

/-- Nothing is lost, a bucket holds at most its hour and the overrun of its
last interval, and the total at most the time between the first sample and the
last. -/
theorem bucketsSound_activityScan (config : DownsampleConfig) (dayUtc : Int)
    (samples : List UsageSample) (ha : Ascending dayUtc samples) :
    BucketsSound config dayUtc samples (activityScan config samples) := by
  have ht := tallies_activityScan config samples
  refine ⟨ht.length, fun h => ?_, length_crossing_le config ha, ht.sum, ?_⟩
  · have hms : (totalMs (inHour h (countedOf config samples)) : ℚ) ≤ 60 * MS_PER_MINUTE +
        (((inHour h (countedOf config samples)).map
          (Interval.behindMs (hourStartMs dayUtc (h + 1)))).sum : Int) := by
      exact_mod_cast totalMs_inHour_le config ha h
    rw [ht.bucket, overrunMinutes, div_le_iff₀ msPerMinute_pos, add_mul,
      div_mul_cancel₀ _ msPerMinute_pos.ne']
    exact hms
  · intro first hfirst last hlast
    cases samples with
    | nil => cases hfirst
    | cons s rest =>
      rw [List.head?_cons, Option.mem_def, Option.some.injEq] at hfirst
      have hadjacent := totalMs_adjacent s last rest hlast
      have hle : totalMs (countedOf config (s :: rest)) ≤ last.fetchedAt - first.fetchedAt := by
        rw [← hfirst, ← hadjacent]
        refine ((counted_sublist config .new (adjacent (s :: rest))).map _).sum_le_sum fun x hx => ?_
        obtain ⟨i, hi, rfl⟩ := List.mem_map.mp hx
        exact ms_nonneg ha.sorted hi
      rw [ht.total, div_le_div_iff_of_pos_right msPerMinute_pos]
      exact_mod_cast hle

/-! ### Polls across an hour -/

/-- A sample at a minute of the first day; the tokens advance with it. -/
def busySample (minute : ℕ) : UsageSample where
  fetchedAt := minute * MS_PER_MINUTE
  ambient :=
    ⟨true, none, "unknown", none, none, none, none, 4, 8, 0, 0, none, none, 1, 1, minute, 0, 0, none,
      none, none, false, none, none, false, none, "normal", none⟩

/-- Three polls in the first hour and one in the second. -/
def busySamples : List UsageSample := [busySample 0, busySample 29, busySample 58, busySample 87]

theorem ascending_busySamples : Ascending 0 busySamples := ⟨by decide, by decide⟩

/-- The first hour has 87 minutes. -/
theorem first_hour_overfull :
    Ascending 0 busySamples ∧
      ¬ ∀ h, (activityScan ⟨30, 5, 30⟩ busySamples).hourBuckets.getD h 0 ≤ 60 := by
  refine ⟨ascending_busySamples, fun hle => ?_⟩
  have hfirst := hle 0
  revert hfirst
  decide +kernel

/-- Its buckets are sound up to that overrun. -/
theorem busySamples_sound :
    BucketsSound ⟨30, 5, 30⟩ 0 busySamples (activityScan ⟨30, 5, 30⟩ busySamples) :=
  bucketsSound_activityScan ⟨30, 5, 30⟩ 0 busySamples ascending_busySamples

end UmansGate.UsageHistory
