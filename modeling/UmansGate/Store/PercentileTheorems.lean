/-
UmansGate.Store.PercentileTheorems — which captures the percentiles of the
performance query are of.

The rows of the query are groups of a model and a provider, its ranks and
counts are those of the model. A row's percentiles are therefore the
nearest-rank percentiles of all captures of its model in the window
(`percentiles_performanceRow`), its other columns those of its group, and
the two populations meet when the rank falls on the same value in both
(`percentiles_describe_iff`).
-/
import UmansGate.Store.Performance

namespace UmansGate.Store

open UmansGate.Lib

variable {s : SqlSort} {limit : Num ℚ} {t : CaptureTable} {rows : List Sample}

def ofModel (model : String) (rows : List Sample) : List Sample :=
  rows.filter fun r => r.model = model

def ofGroup (model : String) (provider : Option String) (rows : List Sample) : List Sample :=
  rows.filter fun r => (r.model, r.provider) = (model, provider)

def values (measure : Measure) (rows : List Sample) : List ℚ :=
  rows.filterMap fun r => r.value measure

/-! ## Ranks -/

theorem value_pos (p : Percentile) : 0 < p.value := by
  cases p <;> norm_num [Percentile.value]

theorem value_le_one (p : Percentile) : p.value ≤ 1 := by
  cases p <;> norm_num [Percentile.value]

theorem ceilMul_value (p : Percentile) {n : ℕ} (hn : n < 2 ^ 48) :
    ceilMul p.value n = ⌈p.value * n⌉ := by
  cases p with
  | p10 => exact ceilMul_tenth hn
  | p50 => exact ceilMul_half hn
  | p95 => exact ceilMul_nineteenTwentieths hn

/-- Both numberings of the rows, as pairs. -/
theorem ranked_sample_perm (s : SqlSort) (rows : List Sample) :
    ((ranked s rows).map Ranked.sample).Perm rows := by
  have hsecond := (rowNumber_perm s (fun e : Sample × ℕ => e.1.model)
    (ascNullsLast fun e => e.1.tps)
    (rowNumber s Sample.model (ascNullsLast Sample.ttftMs) rows)).map Prod.fst
  have hfirst := rowNumber_perm s Sample.model (ascNullsLast Sample.ttftMs) rows
  rw [List.map_map] at hsecond
  rw [ranked, List.map_map]
  exact hsecond.trans hfirst

theorem cnt_ranked {r : Ranked} (hr : r ∈ ranked s rows) (measure : Measure) :
    r.cnt measure = (values measure (ofModel r.sample.model rows)).length := by
  rw [ranked] at hr
  obtain ⟨e, -, rfl⟩ := List.mem_map.mp hr
  exact countOver_eq _ _ _ _

/-- At a rank of the first numbering. -/
theorem sqlMax_ttft (s : SqlSort) (rows : List Sample) (model : String) {p : ℚ} (hp : 0 < p) :
    sqlMax (((ranked s rows).filter fun r => r.sample.model = model).map fun r =>
      if (r.rn .ttft : ℤ) = ⌈p * (values .ttft (ofModel model rows)).length⌉ then
        r.sample.value .ttft else none) =
      nearestRank p (values .ttft (ofModel model rows)) := by
  rw [ranked, List.filter_map, List.map_map]
  -- what is read of a row is what the first numbering gave it
  have hfirst := rowNumber_perm s (fun e : Sample × ℕ => e.1.model)
    (ascNullsLast fun e => e.1.tps) (rowNumber s Sample.model (ascNullsLast Sample.ttftMs) rows)
  have hperm := (hfirst.filter fun e => e.1.model = model).map fun e =>
    if (e.2 : ℤ) = ⌈p * (values .ttft (ofModel model rows)).length⌉ then e.1.ttftMs else none
  rw [List.filter_map, List.map_map] at hperm
  refine (sqlMax_perm hperm).trans ?_
  rw [filter_rowNumber s Sample.model]
  exact sqlMax_at_rank s hp

/-- At a rank of the second. -/
theorem sqlMax_tps (s : SqlSort) (rows : List Sample) (model : String) {p : ℚ} (hp : 0 < p) :
    sqlMax (((ranked s rows).filter fun r => r.sample.model = model).map fun r =>
      if (r.rn .tps : ℤ) = ⌈p * (values .tps (ofModel model rows)).length⌉ then
        r.sample.value .tps else none) =
      nearestRank p (values .tps (ofModel model rows)) := by
  have hvalues : (((rowNumber s Sample.model (ascNullsLast Sample.ttftMs) rows).filter
      fun e => e.1.model = model).filterMap fun e => e.1.tps).Perm
        (values .tps (ofModel model rows)) := by
    have hperm := ((rowNumber_perm s Sample.model (ascNullsLast Sample.ttftMs) rows).filter
      fun r => r.model = model).filterMap Sample.tps
    rw [List.filter_map, List.filterMap_map] at hperm
    exact hperm
  rw [ranked, List.filter_map, List.map_map]
  have hnumbered := filter_rowNumber s (fun e : Sample × ℕ => e.1.model)
    (ascNullsLast fun e => e.1.tps) (rowNumber s Sample.model (ascNullsLast Sample.ttftMs) rows)
    model
  have hrank := @sqlMax_at_rank _ _ _ (fun e : Sample × ℕ => e.1.tps)
    ((rowNumber s Sample.model (ascNullsLast Sample.ttftMs) rows).filter fun e => e.1.model = model)
    p s hp
  rw [← hnumbered, nearestRank_perm hvalues, hvalues.length_eq] at hrank
  exact hrank

/-- The value at a rank of the rows of a model is their percentile. -/
theorem valueAtRank_ofModel (hrows : rows.length < 2 ^ 48) (model : String) (measure : Measure)
    (p : Percentile) :
    valueAtRank ((ranked s rows).filter fun r => r.sample.model = model) measure p =
      nearestRank p.value (values measure (ofModel model rows)) := by
  have hlength : (values measure (ofModel model rows)).length < 2 ^ 48 :=
    lt_of_le_of_lt ((List.length_filterMap_le _ _).trans (List.length_filter_le _ _)) hrows
  have hrank : ∀ r ∈ (ranked s rows).filter (fun r => r.sample.model = model),
      ceilMul p.value (r.cnt measure) =
        ⌈p.value * (values measure (ofModel model rows)).length⌉ := by
    intro r hr
    obtain ⟨hmem, hmodel⟩ := List.mem_filter.mp hr
    rw [cnt_ranked hmem, of_decide_eq_true hmodel, ceilMul_value p hlength]
  have hmap : valueAtRank ((ranked s rows).filter fun r => r.sample.model = model) measure p =
      sqlMax (((ranked s rows).filter fun r => r.sample.model = model).map fun r =>
        if (r.rn measure : ℤ) = ⌈p.value * (values measure (ofModel model rows)).length⌉ then
          r.sample.value measure else none) := by
    rw [valueAtRank]
    congr 1
    refine List.map_congr_left fun r hr => ?_
    rw [hrank r hr]
  rw [hmap]
  cases measure with
  | ttft => exact sqlMax_ttft s rows model (value_pos p)
  | tps => exact sqlMax_tps s rows model (value_pos p)

/-! ## The window -/

theorem length_base_le (s : SqlSort) (limit : Num ℚ) (samples : List Sample) :
    (base s limit samples).length ≤ samples.length := by
  have hperm := rowNumber_perm s Sample.model (desc Sample.startedAt) samples
  rw [base, List.length_map, ← hperm.length_eq, List.length_map]
  exact List.length_filter_le _ _

theorem length_base_lt (s : SqlSort) (limit : Num ℚ) (t : CaptureTable) :
    (base s limit (doneSamples t)).length < 2 ^ 48 := by
  have hdone : (doneSamples t).length ≤ t.val.rows.length := by
    rw [doneSamples]
    exact (List.length_filterMap_le _ _).trans (by rw [Dict.values, List.length_map])
  exact lt_of_le_of_lt ((length_base_le s limit _).trans hdone) t.property

/-- The window is a latest part of the done captures, as long as the limit
allows. -/
structure Latest (limit : Num ℚ) (done window : List Sample) : Prop where
  rest : ∃ rest, (window ++ rest).Perm done ∧
    (∀ r ∈ window, ∀ r' ∈ rest, desc Sample.startedAt r r' = true) ∧
    (rest ≠ [] → (Num.fin (window.length + 1 : ℚ)).le limit = false)
  within : window ≠ [] → (Num.fin (window.length : ℚ)).le limit = true

theorem le_limit_of_succ {n : ℕ} (h : (Num.fin ((n + 1 : ℕ) : ℚ)).le limit = true) :
    (Num.fin (n : ℚ)).le limit = true := by
  cases limit with
  | nan => simp at h
  | negInf => simp [Num.le] at h
  | posInf => rfl
  | fin q =>
    rw [Num.le_fin_fin, decide_eq_true_eq] at h ⊢
    push_cast at h
    linarith

/-- The window of one model. -/
theorem ofModel_base (s : SqlSort) (limit : Num ℚ) (samples : List Sample) (model : String) :
    ofModel model (base s limit samples) =
      (((s.sort (desc Sample.startedAt) (ofModel model samples)).zipIdx 1).filter fun e =>
        (Num.fin (e.2 : ℚ)).le limit).map Prod.fst := by
  have hnumbered := filter_rowNumber s Sample.model (desc Sample.startedAt) samples model
  have hcomm := List.filter_comm (fun e : Sample × ℕ => decide (e.1.model = model))
    (fun e => (Num.fin (e.2 : ℚ)).le limit)
    (rowNumber s Sample.model (desc Sample.startedAt) samples)
  rw [hnumbered] at hcomm
  rw [ofModel, base, List.filter_map]
  exact congrArg (List.map Prod.fst) hcomm

theorem latest_base (s : SqlSort) (limit : Num ℚ) (samples : List Sample) (model : String) :
    Latest limit (ofModel model samples) (ofModel model (base s limit samples)) := by
  obtain ⟨k, hk, htake, hin, hout⟩ := filter_zipIdx_take
    (P := fun n => (Num.fin (n : ℚ)).le limit) (fun n h => le_limit_of_succ h)
    (s.sort (desc Sample.startedAt) (ofModel model samples)) 1
  have hsorted := s.sorted (desc_trans Sample.startedAt) (desc_total Sample.startedAt)
    (ofModel model samples)
  have hperm := s.perm (desc Sample.startedAt) (ofModel model samples)
  rw [ofModel_base, htake]
  generalize s.sort (desc Sample.startedAt) (ofModel model samples) = sorted at *
  have hlength : (sorted.take k).length = k := List.length_take_of_le hk
  refine ⟨⟨sorted.drop k, ?_, ?_, ?_⟩, ?_⟩
  · rw [List.take_append_drop]
    exact hperm
  · rw [← List.take_append_drop k sorted, List.pairwise_append] at hsorted
    exact hsorted.2.2
  · intro hne
    have hlt : k < sorted.length := by
      by_contra hge
      exact hne (List.drop_of_length_le (by omega))
    have h := hout hlt
    rw [hlength]
    push_cast at h
    rwa [add_comm] at h
  · intro hne
    have hpos : 0 < k := by
      rcases Nat.eq_zero_or_pos k with rfl | hpos
      · exact absurd rfl hne
      · exact hpos
    have h := hin hpos
    rw [hlength]
    rwa [Nat.add_sub_cancel_left] at h

/-! ## The rows of the query -/

/-- The ranked rows with the percentiles of their models. -/
def joined (s : SqlSort) (rows : List Sample) : List (Ranked × Option PercentileColumns) :=
  (ranked s rows).map fun r =>
    (r, some (valueAtRank ((ranked s rows).filter fun r' => r'.sample.model = r.sample.model)))

theorem leftJoin_pctiles (s : SqlSort) (rows : List Sample) :
    leftJoin (fun r => r.sample.model) (ranked s rows) (pctiles (ranked s rows)) =
      joined s rows := by
  generalize hranked : ranked s rows = l
  rw [joined, hranked, pctiles, leftJoin_groupBy (fun r : Ranked => r.sample.model) l fun g =>
    valueAtRank g.2]

/-- The joined rows of one group. -/
def joinedGroup (s : SqlSort) (rows : List Sample) (model : String) (provider : Option String) :
    List (Ranked × Option PercentileColumns) :=
  (joined s rows).filter fun e => (e.1.sample.model, e.1.sample.provider) = (model, provider)

/-- A group has the rows of its model and provider. -/
theorem joinedGroup_sample_perm (s : SqlSort) (rows : List Sample) (model : String)
    (provider : Option String) :
    ((joinedGroup s rows model provider).map fun e => e.1.sample).Perm
      (ofGroup model provider rows) := by
  have hperm := (ranked_sample_perm s rows).filter fun r =>
    (r.model, r.provider) = (model, provider)
  rw [List.filter_map] at hperm
  rw [joinedGroup, joined, List.filter_map, List.map_map]
  exact hperm

/-- The query has one row for each model and provider of the window. -/
theorem mem_performanceQuery {row : PerformanceRow} :
    row ∈ performanceQuery s limit t ↔ ∃ r ∈ base s limit (doneSamples t),
      row = performanceRow ((r.model, r.provider),
        joinedGroup s (base s limit (doneSamples t)) r.model r.provider) := by
  generalize hrows : base s limit (doneSamples t) = rows
  rw [performanceQuery, (s.perm _ _).mem_iff, hrows, leftJoin_pctiles]
  simp only [List.mem_map, mem_groupBy]
  constructor
  · rintro ⟨⟨⟨model, provider⟩, group⟩, ⟨⟨e, he, hkey⟩, hgroup⟩, rfl⟩
    have hsample : e.1.sample ∈ rows := by
      rw [← (ranked_sample_perm s rows).mem_iff]
      obtain ⟨r, hr, rfl⟩ := List.mem_map.mp he
      exact List.mem_map_of_mem hr
    obtain ⟨rfl, rfl⟩ := Prod.mk.inj hkey
    exact ⟨e.1.sample, hsample, by rw [show group = _ from hgroup]; rfl⟩
  · rintro ⟨r, hr, rfl⟩
    rw [← (ranked_sample_perm s rows).mem_iff] at hr
    obtain ⟨r', hr', rfl⟩ := List.mem_map.mp hr
    exact ⟨_, ⟨⟨_, List.mem_map_of_mem hr', rfl⟩, rfl⟩, rfl⟩

variable {r : Sample}

theorem joinedGroup_ne_nil (hr : r ∈ rows) : joinedGroup s rows r.model r.provider ≠ [] := by
  intro hnil
  have hperm := joinedGroup_sample_perm s rows r.model r.provider
  rw [hnil, List.map_nil] at hperm
  have hmem : r ∈ ofGroup r.model r.provider rows := List.mem_filter.mpr ⟨hr, by simp⟩
  rw [← hperm.mem_iff] at hmem
  exact absurd hmem (by simp)

/-- **The percentiles of a row are those of all rows of its model.** -/
theorem percentiles_performanceRow (s : SqlSort) (hrows : rows.length < 2 ^ 48) (hr : r ∈ rows)
    (measure : Measure) (p : Percentile) :
    (performanceRow ((r.model, r.provider), joinedGroup s rows r.model r.provider)).percentiles
      measure p = nearestRank p.value (values measure (ofModel r.model rows)) := by
  rw [performanceRow_percentiles]
  refine sqlMax_const (by simpa using joinedGroup_ne_nil hr) fun v hv => ?_
  obtain ⟨e, he, rfl⟩ := List.mem_map.mp hv
  obtain ⟨hjoined, hkey⟩ := List.mem_filter.mp he
  obtain ⟨r', -, rfl⟩ := List.mem_map.mp hjoined
  obtain ⟨hmodel, -⟩ := Prod.mk.inj (of_decide_eq_true hkey)
  rw [Option.bind_some, hmodel]
  exact valueAtRank_ofModel hrows r.model measure p

theorem requestCount_performanceRow (s : SqlSort) (rows : List Sample) (r : Sample) :
    (performanceRow ((r.model, r.provider), joinedGroup s rows r.model r.provider)).requestCount =
      (ofGroup r.model r.provider rows).length := by
  rw [← (joinedGroup_sample_perm s rows r.model r.provider).length_eq, List.length_map]
  rfl

theorem ttftMax_performanceRow (s : SqlSort) (rows : List Sample) (r : Sample) :
    (performanceRow ((r.model, r.provider), joinedGroup s rows r.model r.provider)).ttftMax =
      sqlMax ((ofGroup r.model r.provider rows).map Sample.ttftMs) := by
  rw [performanceRow_ttftMax]
  exact sqlMax_perm ((joinedGroup_sample_perm s rows r.model r.provider).map Sample.ttftMs)

theorem tpsMin_performanceRow (s : SqlSort) (rows : List Sample) (r : Sample) :
    (performanceRow ((r.model, r.provider), joinedGroup s rows r.model r.provider)).tpsMin =
      sqlMin ((ofGroup r.model r.provider rows).map Sample.tps) := by
  rw [performanceRow_tpsMin]
  exact sqlMin_perm ((joinedGroup_sample_perm s rows r.model r.provider).map Sample.tps)

/-! ## What the percentiles describe -/

/-- The row counts the captures of its model and provider in the window, its
percentiles are theirs, and they ascend between the two extremes. -/
structure Describes (limit : Num ℚ) (done window : List Sample) (row : PerformanceRow) : Prop where
  latest : Latest limit (ofModel row.model done) (ofModel row.model window)
  counted : row.requestCount = (ofGroup row.model row.provider window).length
  percentile : ∀ measure p, row.percentiles measure p =
    nearestRank p.value (values measure (ofGroup row.model row.provider window))
  ttft : ∀ a b c, row.percentiles .ttft .p10 = some a → row.percentiles .ttft .p50 = some b →
    row.percentiles .ttft .p95 = some c → ∃ d, row.ttftMax = some d ∧ a ≤ b ∧ b ≤ c ∧ c ≤ d
  tps : ∀ a b c, row.percentiles .tps .p10 = some a → row.percentiles .tps .p50 = some b →
    row.percentiles .tps .p95 = some c → ∃ d, row.tpsMin = some d ∧ d ≤ a ∧ a ≤ b ∧ b ≤ c

theorem values_ofGroup_subset (measure : Measure) (model : String) (provider : Option String)
    (rows : List Sample) : ∀ v ∈ values measure (ofGroup model provider rows),
      v ∈ values measure (ofModel model rows) := by
  intro v hv
  obtain ⟨r, hr, hvalue⟩ := List.mem_filterMap.mp hv
  obtain ⟨hmem, hkey⟩ := List.mem_filter.mp hr
  obtain ⟨hmodel, -⟩ := Prod.mk.inj (of_decide_eq_true hkey)
  exact List.mem_filterMap.mpr ⟨r, List.mem_filter.mpr ⟨hmem, decide_eq_true hmodel⟩, hvalue⟩

/-- A value of a list of rows, as the aggregates read them. -/
theorem some_mem_of_values {measure : Measure} {v : ℚ} (h : v ∈ values measure rows) :
    some v ∈ rows.map fun r => r.value measure := by
  obtain ⟨r, hr, hvalue⟩ := List.mem_filterMap.mp h
  exact List.mem_map.mpr ⟨r, hr, hvalue⟩

theorem p10_le_p50 : Percentile.p10.value ≤ Percentile.p50.value := by norm_num [Percentile.value]

theorem p50_le_p95 : Percentile.p50.value ≤ Percentile.p95.value := by norm_num [Percentile.value]

/-- The percentiles of one list ascend. -/
theorem nearestRank_ascend {vs : List ℚ} {a b c : ℚ}
    (ha : nearestRank Percentile.p10.value vs = some a)
    (hb : nearestRank Percentile.p50.value vs = some b)
    (hc : nearestRank Percentile.p95.value vs = some c) : a ≤ b ∧ b ≤ c :=
  ⟨nearestRank_mono (value_pos .p10) p10_le_p50 (value_le_one .p50) ha hb,
    nearestRank_mono (value_pos .p50) p50_le_p95 (value_le_one .p95) hb hc⟩

theorem describes_iff {samples : List Sample} (hrows : (base s limit samples).length < 2 ^ 48)
    (hr : r ∈ base s limit samples) :
    Describes limit samples (base s limit samples) (performanceRow ((r.model, r.provider),
      joinedGroup s (base s limit samples) r.model r.provider)) ↔
      ∀ measure p, SharesRank (p : Percentile).value
        (values measure (ofModel r.model (base s limit samples)))
        (values measure (ofGroup r.model r.provider (base s limit samples))) := by
  have hlatest := latest_base s limit samples r.model
  generalize base s limit samples = rows at *
  have hpercentiles := percentiles_performanceRow s hrows hr
  have hmax := ttftMax_performanceRow s rows r
  have hmin := tpsMin_performanceRow s rows r
  have hshares : ∀ measure p, nearestRank (p : Percentile).value
      (values measure (ofModel r.model rows)) =
        nearestRank p.value (values measure (ofGroup r.model r.provider rows)) ↔ _ :=
    fun measure p => nearestRank_eq_iff_sharesRank (value_pos p) (value_le_one p)
      (values_ofGroup_subset measure r.model r.provider rows)
  constructor
  · intro h measure p
    exact (hshares measure p).mp ((hpercentiles measure p).symm.trans (h.percentile measure p))
  · intro h
    have hgroup : ∀ measure p, _ = nearestRank (p : Percentile).value
        (values measure (ofGroup r.model r.provider rows)) := fun measure p =>
      (hpercentiles measure p).trans ((hshares measure p).mpr (h measure p))
    refine ⟨hlatest, requestCount_performanceRow s rows r, hgroup, ?_, ?_⟩
    · intro a b c ha hb hc
      rw [hgroup] at ha hb hc
      obtain ⟨d, hd, hcd⟩ := exists_sqlMax (some_mem_of_values (mem_of_nearestRank hc))
      obtain ⟨hab, hbc⟩ := nearestRank_ascend ha hb hc
      exact ⟨d, hmax.trans hd, hab, hbc, hcd⟩
    · intro a b c ha hb hc
      rw [hgroup] at ha hb hc
      obtain ⟨d, hd, hda⟩ := exists_sqlMin (some_mem_of_values (mem_of_nearestRank ha))
      obtain ⟨hab, hbc⟩ := nearestRank_ascend ha hb hc
      exact ⟨d, hmin.trans hd, hda, hab, hbc⟩

/-- **Every row's percentiles describe the captures it counts exactly when
the ranks fall on the same values in the group and in its model.** -/
theorem percentiles_describe_iff (s : SqlSort) (limit : Num ℚ) (t : CaptureTable) :
    (∀ row ∈ performanceQuery s limit t,
      Describes limit (doneSamples t) (base s limit (doneSamples t)) row) ↔
      ∀ r ∈ base s limit (doneSamples t), ∀ measure p, SharesRank (p : Percentile).value
        (values measure (ofModel r.model (base s limit (doneSamples t))))
        (values measure (ofGroup r.model r.provider (base s limit (doneSamples t)))) := by
  have hrows := length_base_lt s limit t
  constructor
  · intro h r hr
    exact (describes_iff hrows hr).mp (h _ (mem_performanceQuery.mpr ⟨r, hr, rfl⟩))
  · intro h row hrow
    obtain ⟨r, hr, rfl⟩ := mem_performanceQuery.mp hrow
    exact (describes_iff hrows hr).mpr (h r hr)

/-- A model with one provider. -/
theorem sharesRank_of_oneProvider
    (h : ∀ r' ∈ rows, r'.model = r.model → r'.provider = r.provider) (measure : Measure)
    (p : Percentile) :
    SharesRank p.value (values measure (ofModel r.model rows))
      (values measure (ofGroup r.model r.provider rows)) := by
  have hsame : ofGroup r.model r.provider rows = ofModel r.model rows := by
    refine List.filter_congr fun r' hr' => ?_
    by_cases hmodel : r'.model = r.model
    · simp [hmodel, h r' hr' hmodel]
    · simp [hmodel]
  rw [hsame]
  exact (nearestRank_eq_iff_sharesRank (value_pos p) (value_le_one p) fun _ hv => hv).mp rfl

/-- The dashboard gets the percentiles of the model under the name of one
provider, which is `anthropic` where the captures have none. -/
theorem percentiles_getPerformanceStats {row : PerformanceStatsRow}
    (h : row ∈ getPerformanceStats s limit t) :
    ∃ r ∈ base s limit (doneSamples t), row.model = r.model ∧
      row.provider = r.provider.getD "anthropic" ∧ ∀ measure p, row.percentiles measure p =
        nearestRank (p : Percentile).value
          (values measure (ofModel r.model (base s limit (doneSamples t)))) := by
  obtain ⟨row', hrow', rfl⟩ := List.mem_map.mp h
  obtain ⟨r, hr, rfl⟩ := mem_performanceQuery.mp hrow'
  refine ⟨r, hr, rfl, rfl, ?_⟩
  intro measure p
  rw [statsRow_percentiles]
  exact percentiles_performanceRow s (length_base_lt s limit t) hr measure p

/-! ## Two providers -/

def doneCapture (provider : String) (ttftMs : ℚ) : CaptureColumns :=
  { model := some "m", state := some "done", provider := some provider, ttftMs := some ttftMs }

/-- Two done captures of one model: 100 ms from one provider, 9 s from the
other. -/
def twoProviders : CaptureTable :=
  ⟨(Table.empty.insert (doneCapture "anthropic" 100)).insert (doneCapture "openai" 9000), by decide⟩

def fastSample : Sample where
  model := "m"
  provider := some "anthropic"
  streaming := none
  ttftMs := some 100
  tps := none
  totalInputTokens := none
  totalOutputTokens := none
  cacheReadTokens := none
  thinkingTokens := none
  thinkingBlockCount := none
  startedAt := none

/-- The row of the first has a p95 of 9 s over a greatest value of 100 ms. -/
theorem percentiles_of_other_provider :
    (∃ row ∈ performanceQuery .stable (.fin 200) twoProviders,
      row.provider = some "anthropic" ∧ row.requestCount = 1 ∧
        row.percentiles .ttft .p95 = some 9000 ∧ row.ttftMax = some 100) ∧
      ¬ ∀ s limit t, ∀ row ∈ performanceQuery s limit t,
        Describes limit (doneSamples t) (base s limit (doneSamples t)) row := by
  have hr : fastSample ∈ base .stable (.fin 200) (doneSamples twoProviders) := by decide +kernel
  have hrows := length_base_lt .stable (.fin 200) twoProviders
  have hrow := mem_performanceQuery.mpr ⟨fastSample, hr, rfl⟩
  have hp10 := percentiles_performanceRow .stable hrows hr .ttft .p10
  have hp50 := percentiles_performanceRow .stable hrows hr .ttft .p50
  have hp95 := percentiles_performanceRow .stable hrows hr .ttft .p95
  have hmax := ttftMax_performanceRow .stable
    (base .stable (.fin 200) (doneSamples twoProviders)) fastSample
  have hcount := requestCount_performanceRow .stable
    (base .stable (.fin 200) (doneSamples twoProviders)) fastSample
  have hvalues : values .ttft (ofModel fastSample.model
      (base .stable (.fin 200) (doneSamples twoProviders))) = [100, 9000] := by
    decide +kernel
  rw [hvalues] at hp10 hp50 hp95
  have h10 := hp10.trans (show _ = some 100 by decide +kernel)
  have h50 := hp50.trans (show _ = some 100 by decide +kernel)
  have h95 := hp95.trans (show _ = some 9000 by decide +kernel)
  have h100 := hmax.trans (show _ = some 100 by decide +kernel)
  have hone := hcount.trans (show _ = 1 by decide +kernel)
  refine ⟨⟨_, hrow, rfl, hone, h95, h100⟩, fun hall => ?_⟩
  obtain ⟨d, hd, -, -, hle⟩ := (hall _ _ _ _ hrow).ttft 100 100 9000 h10 h50 h95
  rw [h100, Option.some.injEq] at hd
  rw [← hd] at hle
  norm_num at hle

end UmansGate.Store
