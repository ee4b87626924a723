/-
UmansGate.UsageHistory.RetentionTheorems — when a daily row is computed
again after its samples were pruned.

Only a forced downsampling replaces a row, by one of the samples that are
left (`daily_of_redoes`). A run keeps the row of every day that was computed from
all samples of the day exactly when no step forces such a day after a part
of them was pruned (`no_row_degraded_iff`). The jobs of the proxy never do
that while the retention stays as it is (`keepsHistory_of_automatic`): what
they prune lies before the days they force.
-/
import Mathlib.Data.List.Nodup
import Mathlib.Data.List.Perm.Subperm
import UmansGate.UsageHistory.Jobs

namespace UmansGate.UsageHistory

open UmansGate.Lib

/-! ## Days -/

@[simp] theorem addDays_eq (dayUtc days : Int) : addDays dayUtc days = dayUtc + days := by
  unfold addDays dayUtcOf utcMidnightMs
  rw [← Int.add_mul, Int.mul_ediv_cancel _ (by decide)]

/-- A time lies in one day. -/
theorem inDays_self_iff {dayUtc ms : Int} :
    UsageHistoryStore.inDays dayUtc dayUtc ms = true ↔ dayUtcOf ms = dayUtc := by
  simp only [UsageHistoryStore.inDays, Bool.and_eq_true, decide_eq_true_eq]
  simp only [utcMidnightMs, dayUtcOf, MS_PER_DAY]
  omega

theorem mem_daysFrom {start stop dayUtc : Int} :
    dayUtc ∈ daysFrom start stop ↔ start ≤ dayUtc ∧ dayUtc ≤ stop := by
  simp only [daysFrom, List.mem_map, List.mem_range]
  constructor
  · rintro ⟨i, hi, rfl⟩
    omega
  · rintro ⟨hstart, hstop⟩
    exact ⟨(dayUtc - start).toNat, by omega, by omega⟩

theorem nodup_daysFrom (start stop : Int) : (daysFrom start stop).Nodup :=
  List.nodup_range.map (f := fun (i : ℕ) => start + i) fun i j h => by simpa using h

/-! ## Samples of a day -/

/-- The samples of a day. -/
def samplesOf (rows : List (ℕ × UsageSample)) (dayUtc : Int) : List (ℕ × UsageSample) :=
  rows.filter fun r => dayUtcOf r.2.fetchedAt = dayUtc

theorem mem_samplesOf {rows : List (ℕ × UsageSample)} {dayUtc : Int} {r : ℕ × UsageSample} :
    r ∈ samplesOf rows dayUtc ↔ r ∈ rows ∧ dayUtcOf r.2.fetchedAt = dayUtc := by
  simp [samplesOf]

section

@[simp] theorem daily_handleSnapshot (store : UsageHistoryStore) (snap : UsageSample)
    (throws : Bool) : (store.handleSnapshot snap throws).daily = store.daily := by
  unfold UsageHistoryStore.handleSnapshot
  simp only
  split_ifs
  · rfl
  · rfl
  · rfl
  · rfl

variable {store : UsageHistoryStore} {config : DownsampleConfig} {now dayUtc : Int}

@[simp] theorem computeDailyRow_dayUtc :
    (computeDailyRow store config now dayUtc).row.dayUtc = dayUtc := by
  simp only [computeDailyRow, dailyRow]
  split <;> rfl

/-- A row is computed from the samples of its day that are left. -/
theorem source_perm : (computeDailyRow store config now dayUtc).source.Perm
    (samplesOf store.samples.rows dayUtc) := by
  have hsorted : (store.getSampleRange dayUtc dayUtc).Perm
      (samplesOf store.samples.rows dayUtc) := by
    refine (List.mergeSort_perm _ _).trans (List.Perm.of_eq ?_)
    refine List.filter_congr fun r _ => ?_
    rw [Bool.eq_iff_iff, inDays_self_iff, decide_eq_true_eq]
  refine (hsorted.filter _).trans (List.Perm.of_eq ?_)
  refine List.filter_eq_self.mpr fun r hr => ?_
  exact inDays_self_iff.mpr (mem_samplesOf.mp hr).2

/-! ## Downsampling a range -/

variable {force : Bool} {cursor start stop : Int} {days : List Int}

theorem downsampleCursor_daily : (downsampleCursor config now force store cursor).daily =
    if force = true ∨ store.daily.get? cursor = none then
      store.daily.set cursor (computeDailyRow store config now cursor)
    else store.daily := by
  have hset : (downsampleDay store config now cursor).daily =
      store.daily.set cursor (computeDailyRow store config now cursor) := by
    simp [downsampleDay, UsageHistoryStore.upsertDailyRow]
  unfold downsampleCursor UsageHistoryStore.getDailyRow
  split
  · simp only
    split
    · exact hset
    · exact hset
  · rfl

/-- A day loses its samples only when it lies before the retention. -/
theorem downsampleCursor_samples (store : UsageHistoryStore) (config : DownsampleConfig)
    (now cursor : Int) (force : Bool) :
    (downsampleCursor config now force store cursor).samples = store.samples ∨
    utcMidnightMs cursor < now - config.usageRawRetentionDays * MS_PER_DAY ∧
      (downsampleCursor config now force store cursor).samples =
        store.samples.delete fun _ s => UsageHistoryStore.inDays cursor cursor s.fetchedAt := by
  unfold downsampleCursor
  split
  · simp only
    split
    · rename_i hold
      exact .inr ⟨hold, rfl⟩
    · exact .inl rfl
  · exact .inl rfl

theorem samplesOf_downsampleCursor {dayUtc : Int} (h : dayUtc ≠ cursor) :
    samplesOf (downsampleCursor config now force store cursor).samples.rows dayUtc =
      samplesOf store.samples.rows dayUtc := by
  rcases downsampleCursor_samples store config now cursor force with hsame | ⟨-, hdelete⟩
  · rw [hsame]
  · rw [hdelete]
    simp only [Table.delete, samplesOf, List.filter_filter]
    refine List.filter_congr fun r _ => ?_
    cases hday : UsageHistoryStore.inDays cursor cursor r.2.fetchedAt with
    | true => simp [inDays_self_iff.mp hday, Ne.symm h]
    | false => simp

/-- A range replaces the rows of its days, and a day that is not in it keeps
its row and its samples. -/
theorem foldl_downsampleCursor_not_mem {dayUtc : Int} (h : dayUtc ∉ days)
    (store : UsageHistoryStore) :
    (days.foldl (downsampleCursor config now force) store).daily.get? dayUtc =
        store.daily.get? dayUtc ∧
      samplesOf (days.foldl (downsampleCursor config now force) store).samples.rows dayUtc =
        samplesOf store.samples.rows dayUtc := by
  induction days generalizing store with
  | nil => exact ⟨rfl, rfl⟩
  | cons cursor days ih =>
    obtain ⟨hne, hnot⟩ := not_or.mp (mt List.mem_cons.mpr h)
    obtain ⟨hdaily, hsamples⟩ := ih hnot (downsampleCursor config now force store cursor)
    refine ⟨hdaily.trans ?_, hsamples.trans (samplesOf_downsampleCursor hne)⟩
    rw [downsampleCursor_daily]
    split
    · rw [Dict.get?_set, if_neg (Ne.symm hne)]
    · rfl

/-- A forced range computes the row of each of its days from the samples
that the day has. -/
theorem foldl_downsampleCursor_mem {dayUtc : Int} (hnodup : days.Nodup) (h : dayUtc ∈ days)
    (store : UsageHistoryStore) :
    ∃ entry, (days.foldl (downsampleCursor config now true) store).daily.get? dayUtc = some entry ∧
      entry.source.Perm (samplesOf store.samples.rows dayUtc) := by
  induction days generalizing store with
  | nil => cases h
  | cons cursor days ih =>
    obtain ⟨hnot, hnodup⟩ := List.nodup_cons.mp hnodup
    rcases List.mem_cons.mp h with rfl | hmem
    · refine ⟨computeDailyRow store config now dayUtc, ?_, source_perm⟩
      rw [List.foldl_cons, (foldl_downsampleCursor_not_mem hnot _).1, downsampleCursor_daily,
        if_pos (.inl rfl), Dict.get?_set_self]
    · have hne : dayUtc ≠ cursor := by
        rintro rfl
        exact hnot hmem
      obtain ⟨entry, hentry, hperm⟩ := ih hnodup hmem (downsampleCursor config now true store cursor)
      rw [samplesOf_downsampleCursor hne] at hperm
      exact ⟨entry, hentry, hperm⟩

/-- A range that is not forced keeps every row that is there. -/
theorem foldl_downsampleCursor_unforced {dayUtc : Int} {entry : DailyEntry}
    (h : store.daily.get? dayUtc = some entry) :
    (days.foldl (downsampleCursor config now false) store).daily.get? dayUtc = some entry := by
  induction days generalizing store with
  | nil => exact h
  | cons cursor days ih =>
    refine ih ?_
    rw [downsampleCursor_daily]
    split
    · rename_i hcursor
      rw [Dict.get?_set]
      split
      · rename_i heq
        subst heq
        rcases hcursor with hforce | hnone
        · cases hforce
        · rw [h] at hnone
          cases hnone
      · exact h
    · exact h

/-- What a range prunes lies before the retention. -/
theorem foldl_downsampleCursor_samples {r : ℕ × UsageSample} (h : r ∈ store.samples.rows) :
    r ∈ (days.foldl (downsampleCursor config now force) store).samples.rows ∨
      utcMidnightMs (dayUtcOf r.2.fetchedAt) <
        now - config.usageRawRetentionDays * MS_PER_DAY := by
  induction days generalizing store with
  | nil => exact .inl h
  | cons cursor days ih =>
    rcases downsampleCursor_samples store config now cursor force with hsame | ⟨hold, hdelete⟩
    · exact ih (by rw [hsame]; exact h)
    · cases hday : UsageHistoryStore.inDays cursor cursor r.2.fetchedAt with
      | true =>
        rw [inDays_self_iff.mp hday]
        exact .inr hold
      | false =>
        refine ih ?_
        rw [hdelete]
        exact List.mem_filter.mpr ⟨h, by simp [hday]⟩

end

/-! ## Steps -/

namespace HistoryRun

/-- The step computes the row of the day whether or not there is one. -/
def redoes (s : HistoryRun) : HistoryOp → Int → Prop
  | .dailyDownsample, dayUtc =>
    dayUtcOf s.now - (s.config.usageRawRetentionDays - 1) ≤ dayUtc ∧ dayUtc ≤ dayUtcOf s.now
  | .refreshToday, dayUtc => dayUtc = dayUtcOf s.now
  | .downsample fromParam toParam, dayUtc =>
    (requestedDays s.config s.now fromParam toParam).1 ≤ dayUtc ∧
      dayUtc ≤ (requestedDays s.config s.now fromParam toParam).2
  | _, _ => False

/-- The row was computed from all samples of the day. -/
def Complete (s : HistoryRun) (dayUtc : Int) (entry : DailyEntry) : Prop :=
  ∀ r ∈ samplesOf s.inserted dayUtc, r ∈ entry.source

/-- A sample of the day is gone. -/
def Pruned (s : HistoryRun) (dayUtc : Int) : Prop :=
  ∃ r ∈ samplesOf s.inserted dayUtc, r ∉ s.store.samples.rows

/-- The row of a pruned day, computed from all its samples, gives way to one
of fewer samples. -/
def Degrades (s s' : HistoryRun) : Prop :=
  ∃ dayUtc entry entry', s.store.daily.get? dayUtc = some entry ∧ s.Complete dayUtc entry ∧
    s.Pruned dayUtc ∧ s'.store.daily.get? dayUtc = some entry' ∧
    entry'.source.length < entry.source.length

/-- The step computes no such row again. -/
def KeepsHistory (s : HistoryRun) (op : HistoryOp) : Prop :=
  ∀ dayUtc ∈ s.store.daily.keys, s.redoes op dayUtc →
    ∀ entry ∈ s.store.daily.get? dayUtc, s.Complete dayUtc entry → ¬ s.Pruned dayUtc

variable {s : HistoryRun} {op : HistoryOp} {dayUtc : Int} {entry : DailyEntry}

/-- The backfill in front of the forced days keeps every row. -/
theorem daily_backfill {store : UsageHistoryStore} (config : DownsampleConfig)
    (now start cutoff : Int) (h : store.daily.get? dayUtc = some entry) :
    (if start < cutoff then downsampleRange store config now start (addDays cutoff (-1)) false
      else store).daily.get? dayUtc = some entry := by
  split
  · exact foldl_downsampleCursor_unforced h
  · exact h

/-- And the samples of the forced days. -/
theorem samplesOf_backfill (store : UsageHistoryStore) (config : DownsampleConfig)
    (now start : Int) {cutoff : Int} (h : cutoff ≤ dayUtc) :
    samplesOf (if start < cutoff then
        downsampleRange store config now start (addDays cutoff (-1)) false
      else store).samples.rows dayUtc = samplesOf store.samples.rows dayUtc := by
  split
  · refine (foldl_downsampleCursor_not_mem (fun hbefore => ?_) store).2
    have hlast := (mem_daysFrom.mp hbefore).2
    rw [addDays_eq] at hlast
    omega
  · rfl

/-- A row that is computed again is one of the samples that are left. -/
theorem daily_of_redoes (h : s.redoes op dayUtc) :
    ∃ entry, (s.step op).store.daily.get? dayUtc = some entry ∧
      entry.source.Perm (samplesOf s.store.samples.rows dayUtc) := by
  cases op with
  | clock now => cases h
  | reload config => cases h
  | snapshot snap throws => cases h
  | event snap transition tupleKind previousEventId => cases h
  | prune => cases h
  | restart => cases h
  | dailyDownsample =>
    obtain ⟨hcutoff, htoday⟩ := h
    have hmem : dayUtc ∈ daysFrom
        (addDays (dayUtcOf s.now) (-(s.config.usageRawRetentionDays - 1))) (dayUtcOf s.now) :=
      mem_daysFrom.mpr ⟨by rw [addDays_eq]; omega, htoday⟩
    simp only [step, runDailyDownsample]
    obtain ⟨entry, hentry, hperm⟩ := foldl_downsampleCursor_mem (nodup_daysFrom _ _) hmem _
    exact ⟨entry, hentry, hperm.trans (List.Perm.of_eq
      (samplesOf_backfill s.store s.config s.now _ (mem_daysFrom.mp hmem).1))⟩
  | refreshToday =>
    obtain rfl : dayUtc = dayUtcOf s.now := h
    refine ⟨computeDailyRow s.store s.config s.now (dayUtcOf s.now), ?_, source_perm⟩
    simp [step, refreshTodayDaily, downsampleDay, UsageHistoryStore.upsertDailyRow]
  | downsample fromParam toParam =>
    exact foldl_downsampleCursor_mem (nodup_daysFrom _ _) (mem_daysFrom.mpr h) s.store

/-- Any other row stays. -/
theorem daily_of_not_redoes (h : ¬ s.redoes op dayUtc)
    (hentry : s.store.daily.get? dayUtc = some entry) :
    (s.step op).store.daily.get? dayUtc = some entry := by
  cases op with
  | clock now => exact hentry
  | reload config => exact hentry
  | snapshot snap throws =>
    simp only [step, daily_handleSnapshot]
    exact hentry
  | event snap transition tupleKind previousEventId => exact hentry
  | prune => exact hentry
  | restart => exact hentry
  | dailyDownsample =>
    simp only [step, runDailyDownsample]
    refine ((foldl_downsampleCursor_not_mem (fun hmem => h ?_) _).1).trans
      (daily_backfill s.config s.now _ _ hentry)
    have := mem_daysFrom.mp hmem
    rw [addDays_eq] at this
    exact ⟨by omega, this.2⟩
  | refreshToday =>
    have hne : dayUtcOf s.now ≠ dayUtc := fun heq => h heq.symm
    simp only [step, refreshTodayDaily, downsampleDay, UsageHistoryStore.upsertDailyRow,
      computeDailyRow_dayUtc, Dict.get?_set, if_neg hne]
    exact hentry
  | downsample fromParam toParam =>
    exact ((foldl_downsampleCursor_not_mem (fun hmem => h (mem_daysFrom.mp hmem))
      s.store).1).trans hentry

/-! ## What was inserted -/

/-- The table has no sample that was not inserted, and gave each its own
id. -/
structure Recorded (s : HistoryRun) : Prop where
  kept : s.store.samples.rows ⊆ s.inserted
  nodup : (s.inserted.map Prod.fst).Nodup
  fresh : ∀ r ∈ s.inserted, r.1 < s.store.samples.nextId

/-- Samples are only deleted. -/
structure Shrinks (store store' : UsageHistoryStore) : Prop where
  rows : store'.samples.rows ⊆ store.samples.rows
  nextId : store'.samples.nextId = store.samples.nextId

theorem Shrinks.refl (store : UsageHistoryStore) : Shrinks store store := ⟨fun _ h => h, rfl⟩

theorem Shrinks.trans {store store' store'' : UsageHistoryStore} (h : Shrinks store store')
    (h' : Shrinks store' store'') : Shrinks store store'' :=
  ⟨fun _ hr => h.rows (h'.rows hr), h'.nextId.trans h.nextId⟩

theorem shrinks_downsampleRange (store : UsageHistoryStore) (config : DownsampleConfig)
    (now start stop : Int) (force : Bool) :
    Shrinks store (downsampleRange store config now start stop force) := by
  unfold downsampleRange
  induction daysFrom start stop generalizing store with
  | nil => exact .refl store
  | cons cursor days ih =>
    refine Shrinks.trans ?_ (ih (downsampleCursor config now force store cursor))
    rcases downsampleCursor_samples store config now cursor force with hsame | ⟨-, hdelete⟩
    · exact ⟨by rw [hsame]; exact fun _ h => h, by rw [hsame]⟩
    · exact ⟨by rw [hdelete]; exact List.filter_subset_self _, by rw [hdelete]; rfl⟩

theorem shrinks_pruneOldSamples (store : UsageHistoryStore) (now retentionDays : Int) :
    Shrinks store (pruneOldSamples store now retentionDays) :=
  ⟨List.filter_subset_self _, rfl⟩

theorem shrinks_runDailyDownsample (store : UsageHistoryStore) (config : DownsampleConfig)
    (now : Int) : Shrinks store (runDailyDownsample store config now) := by
  refine Shrinks.trans (Shrinks.trans ?_ (shrinks_downsampleRange _ config now _ _ true))
    (shrinks_pruneOldSamples _ now config.usageRawRetentionDays)
  split
  · exact shrinks_downsampleRange store config now _ _ false
  · exact .refl store

theorem Recorded.shrink (h : s.Recorded) {store : UsageHistoryStore}
    (hstore : Shrinks s.store store) : Recorded { s with store := store } :=
  ⟨fun _ hr => h.kept (hstore.rows hr), h.nodup, fun r hr => hstore.nextId ▸ h.fresh r hr⟩

theorem samples_handleSnapshot (store : UsageHistoryStore) (snap : UsageSample) (throws : Bool) :
    (store.handleSnapshot snap throws).samples =
      if snap.ambient.ok = true ∧ store.lastKey ≠ some snap.ambient ∧ throws = false then
        store.samples.insert snap
      else store.samples := by
  unfold UsageHistoryStore.handleSnapshot
  by_cases hok : snap.ambient.ok = true
  · by_cases hkey : store.lastKey = some snap.ambient
    · simp [hok, hkey]
    · cases throws with
      | true => simp [hok, hkey]
      | false => simp [hok, hkey]
  · simp [hok]

theorem Recorded.snapshot (h : s.Recorded) (snap : UsageSample) (throws : Bool) :
    (s.step (.snapshot snap throws)).Recorded := by
  have hsamples := samples_handleSnapshot s.store snap throws
  simp only [step, written]
  split at hsamples
  · rename_i hwritten
    rw [if_pos hwritten]
    constructor
    · rw [hsamples]
      intro r hr
      rcases List.mem_append.mp hr with hr | hr
      · exact List.mem_append_left _ (h.kept hr)
      · exact List.mem_append_right _ hr
    · rw [List.map_append]
      refine List.nodup_append.mpr ⟨h.nodup, by simp, fun id hid id' hid' => ?_⟩
      obtain ⟨r, hr, rfl⟩ := List.mem_map.mp hid
      have hlt := h.fresh r hr
      rw [List.map_singleton, List.mem_singleton] at hid'
      omega
    · rw [hsamples]
      intro r hr
      rw [Table.nextId_insert]
      rcases List.mem_append.mp hr with hr | hr
      · exact Nat.lt_succ_of_lt (h.fresh r hr)
      · rw [List.mem_singleton.mp hr]
        exact Nat.lt_succ_self _
  · rename_i hnot
    rw [if_neg hnot, List.append_nil]
    exact ⟨by rw [hsamples]; exact h.kept, h.nodup, by rw [hsamples]; exact h.fresh⟩

theorem recorded_step (h : s.Recorded) (op : HistoryOp) : (s.step op).Recorded := by
  cases op with
  | clock now => exact ⟨h.kept, h.nodup, h.fresh⟩
  | reload config => exact ⟨h.kept, h.nodup, h.fresh⟩
  | snapshot snap throws => exact h.snapshot snap throws
  | event snap transition tupleKind previousEventId => exact ⟨h.kept, h.nodup, h.fresh⟩
  | dailyDownsample => exact h.shrink (shrinks_runDailyDownsample s.store s.config s.now)
  | refreshToday => exact ⟨h.kept, h.nodup, h.fresh⟩
  | downsample fromParam toParam =>
    exact h.shrink (shrinks_downsampleRange s.store s.config s.now _ _ true)
  | prune => exact h.shrink (shrinks_pruneOldSamples s.store s.now _)
  | restart => exact ⟨h.kept, h.nodup, h.fresh⟩

/-! ## Rows of pruned days -/

/-- Of a pruned day fewer samples are left than a complete row has. -/
theorem length_lt_of_pruned (h : s.Recorded) (hcomplete : s.Complete dayUtc entry)
    (hpruned : s.Pruned dayUtc) :
    (samplesOf s.store.samples.rows dayUtc).length < entry.source.length := by
  obtain ⟨r, hr, hgone⟩ := hpruned
  have hnodup : (samplesOf s.store.samples.rows dayUtc).Nodup :=
    (List.Nodup.of_map _ s.store.samples.nodup_keys).filter _
  have hleft : (r :: samplesOf s.store.samples.rows dayUtc).Nodup :=
    List.nodup_cons.mpr ⟨fun hmem => hgone (mem_samplesOf.mp hmem).1, hnodup⟩
  have hsub : r :: samplesOf s.store.samples.rows dayUtc ⊆ entry.source := by
    intro x hx
    rcases List.mem_cons.mp hx with rfl | hx
    · exact hcomplete x hr
    · obtain ⟨hrow, hday⟩ := mem_samplesOf.mp hx
      exact hcomplete x (mem_samplesOf.mpr ⟨h.kept hrow, hday⟩)
  exact (hleft.subperm hsub).length_le

/-- A step degrades a row exactly when it computes the complete row of a
pruned day again. -/
theorem degrades_step_iff (h : s.Recorded) : s.Degrades (s.step op) ↔ ¬ s.KeepsHistory op := by
  constructor
  · rintro ⟨dayUtc, entry, entry', hentry, hcomplete, hpruned, hentry', hfewer⟩ hkeeps
    by_cases hredo : s.redoes op dayUtc
    · have hkey : dayUtc ∈ s.store.daily.keys :=
        List.mem_map_of_mem (Dict.mem_of_get? hentry)
      exact hkeeps dayUtc hkey hredo entry hentry hcomplete hpruned
    · rw [daily_of_not_redoes hredo hentry] at hentry'
      obtain rfl := Option.some.inj hentry'
      exact Nat.lt_irrefl _ hfewer
  · intro hnot
    simp only [KeepsHistory, not_forall, not_not] at hnot
    obtain ⟨dayUtc, -, hredo, entry, hentry, hcomplete, hpruned⟩ := hnot
    obtain ⟨entry', hentry', hperm⟩ := daily_of_redoes hredo
    refine ⟨dayUtc, entry, entry', hentry, hcomplete, hpruned, hentry', ?_⟩
    rw [hperm.length_eq]
    exact length_lt_of_pruned h hcomplete hpruned

theorem recorded_init (now : Int) (config : DownsampleConfig) : (init now config).Recorded :=
  ⟨by simp [init, UsageHistoryStore.new, Table.empty], by simp [init], by simp [init]⟩

/-- **No complete row of a pruned day gives way to one of fewer samples**
exactly in the runs where no step computes such a row again. -/
theorem no_row_degraded_iff (now : Int) (config : DownsampleConfig) (ops : List HistoryOp) :
    (∀ pre op, pre ++ [op] <+: ops →
      ¬ (run step (init now config) pre).Degrades (run step (init now config) (pre ++ [op]))) ↔
    StepsMeet step KeepsHistory (init now config) ops :=
  forall_steps_iff_stepsMeet (I := Recorded) (P := KeepsHistory)
    (Q := fun s _ s' => ¬ s.Degrades s') (fun _ op h _ => recorded_step h op)
    (fun _ _ h => by rw [degrades_step_iff h, not_not]) (recorded_init now config) ops

/-! A sample of the first day, downsampled on that day and pruned a week
later. A request without parameters then starts at the first day. -/

def defaultConfig : DownsampleConfig := ⟨60, 5, 7⟩

def idleSnapshot (fetchedAt : Int) : UsageSample where
  fetchedAt := fetchedAt
  ambient :=
    ⟨true, none, "pro", none, none, none, none, 4, 8, 0, 0, none, none, 0, 0, 0, 0, 0, none, none,
      none, false, none, none, false, none, "normal", none⟩

def weekLater : List HistoryOp :=
  [.snapshot (idleSnapshot 10) false, .dailyDownsample,
    .clock (7 * MS_PER_DAY + 60 * MS_PER_MINUTE), .dailyDownsample]

theorem request_degrades_first_day :
    ¬ ∀ (now : Int) (config : DownsampleConfig) (ops pre : List HistoryOp) (op : HistoryOp),
      pre ++ [op] <+: ops → ¬ (run step (init now config) pre).Degrades
        (run step (init now config) (pre ++ [op])) := by
  intro h
  refine h 10 defaultConfig (weekLater ++ [.downsample none none]) weekLater
    (.downsample none none) (List.prefix_refl _) ?_
  rw [run_append, run_cons, run_nil]
  have hrecorded : (run step (init 10 defaultConfig) weekLater).Recorded :=
    run_invariant (I := Recorded) (fun _ op h => recorded_step h op) (recorded_init _ _) weekLater
  refine (degrades_step_iff hrecorded).mpr fun hkeeps => ?_
  have hsource : ((run step (init 10 defaultConfig) weekLater).store.daily.get? 0).map (·.source) =
      some [(1, idleSnapshot 10)] := by decide +kernel
  have hinserted : (run step (init 10 defaultConfig) weekLater).inserted =
      [(1, idleSnapshot 10)] := by decide +kernel
  have hrows : (run step (init 10 defaultConfig) weekLater).store.samples.rows = [] := by
    decide +kernel
  have hredo : (run step (init 10 defaultConfig) weekLater).redoes (.downsample none none) 0 := by
    refine ⟨?_, ?_⟩
    · decide +kernel
    · decide +kernel
  obtain ⟨entry, hentry, hentrySource⟩ := Option.map_eq_some_iff.mp hsource
  refine hkeeps 0 (List.mem_map_of_mem (Dict.mem_of_get? hentry)) hredo entry hentry ?_ ?_
  · intro r hr
    rw [hentrySource, ← hinserted]
    exact (mem_samplesOf.mp hr).1
  · refine ⟨(1, idleSnapshot 10), mem_samplesOf.mpr ⟨?_, by decide +kernel⟩, ?_⟩
    · rw [hinserted]
      exact List.mem_singleton_self _
    · rw [hrows]
      exact List.not_mem_nil

/-! ## The jobs of the proxy -/

/-- The step is none of a user: time goes on, and a reload does not keep
samples longer. -/
def Automatic (s : HistoryRun) : HistoryOp → Prop
  | .clock now => s.now ≤ now
  | .reload config =>
    1 ≤ config.usageRawRetentionDays ∧ config.usageRawRetentionDays ≤ s.config.usageRawRetentionDays
  | .downsample _ _ => False
  | _ => True

/-- What is pruned lies before the retention. -/
structure PrunedBefore (s : HistoryRun) : Prop where
  positive : 1 ≤ s.config.usageRawRetentionDays
  before : ∀ r ∈ s.inserted, r ∈ s.store.samples.rows ∨
    dayUtcOf r.2.fetchedAt + s.config.usageRawRetentionDays ≤ dayUtcOf s.now

theorem add_le_dayUtcOf_of_midnight {dayUtc days now : Int}
    (h : utcMidnightMs dayUtc < now - days * MS_PER_DAY) : dayUtc + days ≤ dayUtcOf now := by
  simp only [utcMidnightMs, dayUtcOf, MS_PER_DAY] at *
  omega

theorem add_le_dayUtcOf_of_time {ms days now : Int} (h : ms < now - days * MS_PER_DAY) :
    dayUtcOf ms + days ≤ dayUtcOf now := by
  simp only [dayUtcOf, MS_PER_DAY] at *
  omega

theorem mem_rows_downsampleRange {store : UsageHistoryStore} (config : DownsampleConfig)
    (now start stop : Int) (force : Bool) {r : ℕ × UsageSample} (h : r ∈ store.samples.rows) :
    r ∈ (downsampleRange store config now start stop force).samples.rows ∨
      dayUtcOf r.2.fetchedAt + config.usageRawRetentionDays ≤ dayUtcOf now :=
  (foldl_downsampleCursor_samples h).imp_right add_le_dayUtcOf_of_midnight

theorem mem_rows_pruneOldSamples {store : UsageHistoryStore} (now retentionDays : Int)
    {r : ℕ × UsageSample} (h : r ∈ store.samples.rows) :
    r ∈ (pruneOldSamples store now retentionDays).samples.rows ∨
      dayUtcOf r.2.fetchedAt + retentionDays ≤ dayUtcOf now := by
  by_cases hold : r.2.fetchedAt < now - retentionDays * MS_PER_DAY
  · exact .inr (add_le_dayUtcOf_of_time hold)
  · exact .inl (List.mem_filter.mpr ⟨h, by simpa using hold⟩)

theorem mem_rows_runDailyDownsample {store : UsageHistoryStore} (config : DownsampleConfig)
    (now : Int) {r : ℕ × UsageSample} (h : r ∈ store.samples.rows) :
    r ∈ (runDailyDownsample store config now).samples.rows ∨
      dayUtcOf r.2.fetchedAt + config.usageRawRetentionDays ≤ dayUtcOf now := by
  unfold runDailyDownsample
  simp only
  split
  · rcases mem_rows_downsampleRange config now _ _ false h with hback | hold
    · rcases mem_rows_downsampleRange config now _ _ true hback with hforce | hold
      · exact mem_rows_pruneOldSamples now _ hforce
      · exact .inr hold
    · exact .inr hold
  · rcases mem_rows_downsampleRange config now _ _ true h with hforce | hold
    · exact mem_rows_pruneOldSamples now _ hforce
    · exact .inr hold

theorem prunedBefore_step (h : s.PrunedBefore) (hop : s.Automatic op) :
    (s.step op).PrunedBefore := by
  cases op with
  | clock now =>
    have hnow : s.now ≤ now := hop
    refine ⟨h.positive, fun r hr => (h.before r hr).imp_right fun hold => hold.trans ?_⟩
    exact Int.ediv_le_ediv (by decide) hnow
  | reload config =>
    refine ⟨hop.1, fun r hr => (h.before r hr).imp_right fun hold => ?_⟩
    exact (Int.add_le_add_left hop.2 _).trans hold
  | snapshot snap throws =>
    refine ⟨h.positive, ?_⟩
    simp only [step, written, samples_handleSnapshot]
    split
    · intro r hr
      rcases List.mem_append.mp hr with hr | hr
      · exact (h.before r hr).imp_left fun hrow => List.mem_append_left _ hrow
      · exact .inl (List.mem_append_right _ hr)
    · simpa using h.before
  | event snap transition tupleKind previousEventId => exact ⟨h.positive, h.before⟩
  | dailyDownsample =>
    refine ⟨h.positive, fun r hr => ?_⟩
    rcases h.before r hr with hrow | hold
    · exact mem_rows_runDailyDownsample s.config s.now hrow
    · exact .inr hold
  | refreshToday => exact ⟨h.positive, h.before⟩
  | downsample fromParam toParam => exact hop.elim
  | prune =>
    refine ⟨h.positive, fun r hr => ?_⟩
    rcases h.before r hr with hrow | hold
    · exact mem_rows_pruneOldSamples s.now _ hrow
    · exact .inr hold
  | restart => exact ⟨h.positive, h.before⟩

/-- A job of the proxy computes no day again whose samples it pruned. -/
theorem keepsHistory_of_prunedBefore (h : s.PrunedBefore) (hop : s.Automatic op) :
    s.KeepsHistory op := by
  rintro dayUtc - hredo entry - - ⟨r, hr, hgone⟩
  obtain ⟨hinserted, rfl⟩ := mem_samplesOf.mp hr
  have hold := (h.before r hinserted).resolve_left hgone
  have hpositive := h.positive
  cases op with
  | dailyDownsample =>
    have hforced := hredo.1
    omega
  | refreshToday =>
    have htoday : dayUtcOf r.2.fetchedAt = dayUtcOf s.now := hredo
    omega
  | downsample fromParam toParam => exact hop
  | clock now => exact hredo
  | reload config => exact hredo
  | snapshot snap throws => exact hredo
  | event snap transition tupleKind previousEventId => exact hredo
  | prune => exact hredo
  | restart => exact hredo

/-- A run of the proxy's own jobs, with a retention that is not raised,
keeps the history. -/
theorem keepsHistory_of_automatic {now : Int} {config : DownsampleConfig} {ops : List HistoryOp}
    (hpositive : 1 ≤ config.usageRawRetentionDays)
    (h : StepsMeet step Automatic (init now config) ops) :
    StepsMeet step KeepsHistory (init now config) ops :=
  h.imp_of_invariant (I := PrunedBefore) (fun _ _ hs hop => prunedBefore_step hs hop)
    (fun _ _ hs hop => keepsHistory_of_prunedBefore hs hop)
    ⟨hpositive, by simp [init]⟩

end HistoryRun

end UmansGate.UsageHistory
