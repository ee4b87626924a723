/-
UmansGate.UsageHistory.BanTheorems — the ban durations of a daily row.

A ban is a chain of events: an onset, morphs, a resolved one, each pointing
back at the one before. The row closes an onset at the event that points
back at it, which is the first morph where there is one, so the rest of the
chain is lost.
-/
import Mathlib.Algebra.Order.BigOperators.Group.List
import Mathlib.Data.List.Chain
import Mathlib.Data.List.Nodup
import UmansGate.UsageHistory.ChainTheorems
import UmansGate.UsageHistory.Daily

namespace UmansGate.UsageHistory

open UmansGate.Lib

variable {store : UsageHistoryStore} {dayUtc : Int} {e : ℕ × UsageEvent}

/-! ## Chains -/

/-- An onset, its morphs and its end. -/
structure BanChain where
  onset : ℕ × UsageEvent
  morphs : List (ℕ × UsageEvent)
  resolved : ℕ × UsageEvent
  isOnset : onset.2.transition = .onset
  areMorphs : ∀ e ∈ morphs, e.2.transition = .morph
  isResolved : resolved.2.transition = .resolved
  unreferring : onset.2.previousEventId = none
  linked : (onset :: (morphs ++ [resolved])).IsChain
    fun a b => b.2.previousEventId = some a.1
  oneKind : ∀ e ∈ morphs ++ [resolved], e.2.tupleKind = onset.2.tupleKind
  ascending : (onset :: (morphs ++ [resolved])).Pairwise fun a b => a.2.onsetAt ≤ b.2.onsetAt

namespace BanChain

variable {c : BanChain}

def tupleKind (c : BanChain) : TupleKind := c.onset.2.tupleKind

/-- The events behind the onset. -/
def rest (c : BanChain) : List (ℕ × UsageEvent) := c.morphs ++ [c.resolved]

def events (c : BanChain) : List (ℕ × UsageEvent) := c.onset :: c.rest

/-- The event that points back at the onset. -/
def second (c : BanChain) : ℕ × UsageEvent := c.morphs.headD c.resolved

/-- How long the ban lasted. -/
def durationMs (c : BanChain) : Int := c.resolved.2.onsetAt - c.onset.2.onsetAt

/-- How long it lasted up to its second event. -/
def firstMs (c : BanChain) : Int := c.second.2.onsetAt - c.onset.2.onsetAt

theorem head?_rest (c : BanChain) : c.rest.head? = some c.second := by
  rw [rest, second]
  cases c.morphs <;> rfl

theorem second_mem (c : BanChain) : c.second ∈ c.rest := List.mem_of_head? c.head?_rest

theorem tupleKind_of_mem (h : e ∈ c.events) : e.2.tupleKind = c.tupleKind := by
  rcases List.mem_cons.mp h with rfl | hrest
  · rfl
  · exact c.oneKind e hrest

/-- Only the onset is one. -/
theorem transition_of_rest (h : e ∈ c.rest) : e.2.transition ≠ .onset := by
  rcases List.mem_append.mp h with hmorph | hend
  · rw [c.areMorphs e hmorph]
    decide
  · rw [List.mem_singleton.mp hend, c.isResolved]
    decide

theorem second_refers (c : BanChain) : c.second.2.previousEventId = some c.onset.1 := by
  have hlinked := c.linked
  rw [← rest] at hlinked
  have hhead := c.head?_rest
  cases hrest : c.rest with
  | nil =>
    rw [hrest] at hhead
    cases hhead
  | cons x xs =>
    rw [hrest] at hlinked hhead
    rw [← Option.some.inj hhead]
    exact (List.isChain_cons_cons.mp hlinked).1

/-- An event behind another is the next one, or refers to one behind it. -/
theorem refers_of_isChain {x : ℕ × UsageEvent} {l : List (ℕ × UsageEvent)}
    (hchain : (x :: l).IsChain fun a b => b.2.previousEventId = some a.1) (hmem : e ∈ l) {id : ℕ}
    (hrefers : e.2.previousEventId = some id) :
    (l.head? = some e ∧ id = x.1) ∨ ∃ a ∈ l, a.1 = id := by
  induction l generalizing x with
  | nil => cases hmem
  | cons y l ih =>
    obtain ⟨hxy, hchain⟩ := List.isChain_cons_cons.mp hchain
    rcases List.mem_cons.mp hmem with rfl | hmem
    · rw [hxy, Option.some.injEq] at hrefers
      exact .inl ⟨rfl, hrefers.symm⟩
    · rcases ih hchain hmem with ⟨-, hid⟩ | ⟨a, ha, hid⟩
      · exact .inr ⟨y, List.mem_cons_self, hid.symm⟩
      · exact .inr ⟨a, List.mem_cons_of_mem _ ha, hid⟩

/-- An event of a chain refers to none, is the second, or refers to one behind
the onset. -/
theorem refers_cases (h : e ∈ c.events) {id : ℕ} (hrefers : e.2.previousEventId = some id) :
    (e = c.second ∧ id = c.onset.1) ∨ ∃ a ∈ c.rest, a.1 = id := by
  rcases List.mem_cons.mp h with rfl | hrest
  · rw [c.unreferring] at hrefers
    cases hrefers
  · have hlinked := c.linked
    rw [← rest] at hlinked
    rcases refers_of_isChain hlinked hrest hrefers with ⟨hhead, hid⟩ | hbehind
    · rw [c.head?_rest, Option.some.injEq] at hhead
      exact .inl ⟨hhead.symm, hid⟩
    · exact .inr hbehind

theorem firstMs_nonneg (c : BanChain) : 0 ≤ c.firstMs :=
  Int.sub_nonneg_of_le ((List.pairwise_cons.mp c.ascending).1 c.second c.second_mem)

theorem firstMs_le (c : BanChain) : c.firstMs ≤ c.durationMs := by
  have hle : c.second.2.onsetAt ≤ c.resolved.2.onsetAt := by
    have hpair := (List.pairwise_cons.mp c.ascending).2
    unfold second
    cases hmorphs : c.morphs with
    | nil => exact le_refl _
    | cons m ms =>
      rw [hmorphs, List.cons_append, List.pairwise_cons] at hpair
      exact hpair.1 c.resolved (List.mem_append_right _ (List.mem_singleton_self _))
  exact Int.sub_le_sub_right hle _

end BanChain

/-! ## The events of a day -/

/-- The events that the row of a day is computed from. -/
def dayEvents (store : UsageHistoryStore) (dayUtc : Int) : List (ℕ × UsageEvent) :=
  (store.getEventsForDateRange dayUtc dayUtc).filter fun e =>
    UsageHistoryStore.inDays dayUtc dayUtc e.2.onsetAt

/-- The events of the day are those of the chains, in some order. -/
def MadeOf (store : UsageHistoryStore) (dayUtc : Int) (chains : List BanChain) : Prop :=
  (dayEvents store dayUtc).Perm (chains.flatMap BanChain.events)

/-- The chains of a kind. -/
def chainsOf (tupleKind : TupleKind) (chains : List BanChain) : List BanChain :=
  chains.filter fun c => c.tupleKind = tupleKind

theorem mem_rows_of_dayEvents (h : e ∈ dayEvents store dayUtc) : e ∈ store.events.rows :=
  List.mem_of_mem_filter (List.mem_mergeSort.mp (List.mem_of_mem_filter h))

theorem nodup_dayEvents (store : UsageHistoryStore) (dayUtc : Int) :
    (dayEvents store dayUtc).Nodup := by
  have hrows : store.events.rows.Nodup := List.Nodup.of_map _ store.events.nodup_keys
  exact ((List.mergeSort_perm _ _).nodup_iff.mpr (hrows.filter _)).filter _

variable {chains : List BanChain}

section Day

variable (h : MadeOf store dayUtc chains)

include h

theorem mem_dayEvents_of_chain {c : BanChain} (hc : c ∈ chains) (he : e ∈ c.events) :
    e ∈ dayEvents store dayUtc :=
  h.mem_iff.mpr (List.mem_flatMap.mpr ⟨c, hc, he⟩)

/-- One onset begins one chain. -/
theorem chain_eq_of_onset {c c' : BanChain} (hc : c ∈ chains) (hc' : c' ∈ chains)
    (honset : c.onset = c'.onset) : c = c' := by
  have hnodup := h.nodup_iff.mp (nodup_dayEvents store dayUtc)
  have hdisjoint := (List.nodup_flatMap.mp hnodup).2
  by_contra hne
  have hpair : (c.events).Disjoint c'.events := by
    have hsymm : Std.Symm (Function.onFun List.Disjoint BanChain.events) :=
      ⟨fun _ _ hab _ hx hx' => hab hx' hx⟩
    exact hdisjoint.forall hc hc' hne
  refine hpair (List.mem_cons_self : c.onset ∈ c.events) ?_
  rw [honset]
  exact List.mem_cons_self

/-- Only the second event points back at the onset. -/
theorem eq_second_of_refers {c : BanChain} (hc : c ∈ chains) (he : e ∈ dayEvents store dayUtc)
    (hrefers : e.2.previousEventId = some c.onset.1) : e = c.second := by
  obtain ⟨c', hc', hmem⟩ := List.mem_flatMap.mp (h.mem_iff.mp he)
  have honset := mem_rows_of_dayEvents (mem_dayEvents_of_chain h hc List.mem_cons_self)
  rcases BanChain.refers_cases hmem hrefers with ⟨rfl, hid⟩ | ⟨a, ha, hid⟩
  · have hmem' := mem_rows_of_dayEvents (mem_dayEvents_of_chain h hc' List.mem_cons_self)
    rw [chain_eq_of_onset h hc hc' (eq_of_id honset hmem' hid)]
  · have hmem' := mem_rows_of_dayEvents
      (mem_dayEvents_of_chain h hc' (List.mem_cons_of_mem _ ha))
    have hsame := eq_of_id hmem' honset hid
    exact absurd c.isOnset (hsame ▸ BanChain.transition_of_rest ha)

/-- The onsets of a kind are those of its chains. -/
theorem onsets_perm (tupleKind : TupleKind) :
    (((dayEvents store dayUtc).filter fun e => e.2.tupleKind = tupleKind).filter
      fun e => e.2.transition = .onset).Perm
      ((chainsOf tupleKind chains).map BanChain.onset) := by
  refine ((h.filter _).filter _).trans (.of_eq ?_)
  have hchain : ∀ c : BanChain, (c.events.filter fun e => e.2.tupleKind = tupleKind).filter
      (fun e => e.2.transition = .onset) =
      if c.tupleKind = tupleKind then [c.onset] else [] := by
    intro c
    have hrest : (c.rest.filter fun e => e.2.tupleKind = tupleKind).filter
        (fun e => e.2.transition = .onset) = [] := by
      rw [List.filter_eq_nil_iff]
      intro e he
      simp [BanChain.transition_of_rest (List.mem_of_mem_filter he)]
    have hown : c.onset.2.tupleKind = c.tupleKind := rfl
    rw [BanChain.events, List.filter_cons, hown]
    by_cases hkind : c.tupleKind = tupleKind
    · rw [if_pos (decide_eq_true hkind), List.filter_cons, hrest, if_pos (by simp [c.isOnset]),
        if_pos hkind]
    · rw [if_neg (by simpa using hkind), hrest, if_neg hkind]
  unfold chainsOf
  clear h
  induction chains with
  | nil => rfl
  | cons c chains ih =>
    rw [List.flatMap_cons, List.filter_append, List.filter_append, ih, hchain, List.filter_cons]
    by_cases hkind : c.tupleKind = tupleKind <;> simp [hkind]

/-- The row closes every ban at its second event. -/
theorem banTotalMs_eq (tupleKind : TupleKind) (endMs : Int) :
    banTotalMs tupleKind endMs (dayEvents store dayUtc) =
      ((chainsOf tupleKind chains).map BanChain.firstMs).sum := by
  unfold banTotalMs
  rw [((onsets_perm h tupleKind).map _).sum_eq, List.map_map]
  refine congrArg List.sum (List.map_congr_left fun c hc => ?_)
  obtain ⟨hc, hkind⟩ := List.mem_filter.mp hc
  have hsecond : c.second ∈ (dayEvents store dayUtc).filter fun e => e.2.tupleKind = tupleKind := by
    have hmem : c.second ∈ c.events := List.mem_cons_of_mem _ c.second_mem
    refine List.mem_filter.mpr ⟨mem_dayEvents_of_chain h hc hmem, ?_⟩
    rw [BanChain.tupleKind_of_mem hmem]
    exact hkind
  have hcloser : ((dayEvents store dayUtc).filter fun e => e.2.tupleKind = tupleKind).find?
      (fun e => e.2.previousEventId = some c.onset.1) = some c.second := by
    cases hfind : ((dayEvents store dayUtc).filter fun e => e.2.tupleKind = tupleKind).find?
        (fun e => e.2.previousEventId = some c.onset.1) with
    | none =>
      rw [List.find?_eq_none] at hfind
      exact absurd c.second_refers (by simpa using hfind c.second hsecond)
    | some e =>
      have hrefers : e.2.previousEventId = some c.onset.1 := by
        simpa using List.find?_some hfind
      rw [eq_second_of_refers h hc (List.mem_of_mem_filter (List.mem_of_find?_eq_some hfind)) hrefers]
  have hnonneg := c.firstMs_nonneg
  rw [BanChain.firstMs] at hnonneg ⊢
  simp only [Function.comp_apply, hcloser, Option.map_some, Option.some_or, Option.getD_some]
  exact max_eq_right hnonneg

end Day

/-! ## The row -/

/-- The total duration of the bans of a kind. -/
def UsageDailyRow.banTotalDurationMs (row : UsageDailyRow) : TupleKind → Int
  | .priority => row.priorityBanTotalDurationMs
  | .serviceMode => row.serviceModeBanTotalDurationMs

/-- The day has a sample. -/
def HasSample (store : UsageHistoryStore) (dayUtc : Int) : Prop :=
  ∃ r ∈ store.samples.rows, UsageHistoryStore.inDays dayUtc dayUtc r.2.fetchedAt = true

/-- A row without samples has no duration. -/
theorem banTotalDurationMs_dailyRow (config : DownsampleConfig) (now dayUtc : Int)
    (samples : List UsageSample) (events : List (ℕ × UsageEvent)) (tupleKind : TupleKind) :
    (dailyRow config now dayUtc samples events).banTotalDurationMs tupleKind =
      if samples = [] then 0
      else banTotalMs tupleKind (utcMidnightMs dayUtc + MS_PER_DAY) events := by
  cases samples with
  | nil => cases tupleKind <;> rfl
  | cons s rest =>
    obtain ⟨last, hlast⟩ : ∃ last, (s :: rest).getLast? = some last := ⟨_, List.getLast?_cons⟩
    unfold dailyRow
    rw [List.head?_cons, hlast, if_neg (List.cons_ne_nil s rest)]
    cases tupleKind <;> rfl

theorem banTotalDurationMs_computeDailyRow (store : UsageHistoryStore) (config : DownsampleConfig)
    (now dayUtc : Int) (tupleKind : TupleKind) [Decidable (HasSample store dayUtc)] :
    (computeDailyRow store config now dayUtc).row.banTotalDurationMs tupleKind =
      if HasSample store dayUtc then
        banTotalMs tupleKind (utcMidnightMs dayUtc + MS_PER_DAY) (dayEvents store dayUtc)
      else 0 := by
  have hrow := banTotalDurationMs_dailyRow config now dayUtc
    (((store.getSampleRange dayUtc dayUtc).filter fun r =>
      UsageHistoryStore.inDays dayUtc dayUtc r.2.fetchedAt).map Prod.snd)
    (dayEvents store dayUtc) tupleKind
  refine hrow.trans ?_
  have hsamples : ((store.getSampleRange dayUtc dayUtc).filter fun r =>
      UsageHistoryStore.inDays dayUtc dayUtc r.2.fetchedAt).map Prod.snd = [] ↔
      ¬ HasSample store dayUtc := by
    rw [List.map_eq_nil_iff, List.filter_eq_nil_iff, HasSample, not_exists]
    refine forall_congr' fun r => ?_
    rw [UsageHistoryStore.getSampleRange, List.mem_mergeSort, List.mem_filter]
    tauto
  by_cases hhas : HasSample store dayUtc
  · rw [if_pos hhas, if_neg fun hnil => hsamples.mp hnil hhas]
  · rw [if_neg hhas, if_pos (hsamples.mpr hhas)]

/-- The row's durations are those of the chains. -/
def BanDurations (store : UsageHistoryStore) (config : DownsampleConfig) (now dayUtc : Int)
    (chains : List BanChain) : Prop :=
  ∀ tupleKind, (computeDailyRow store config now dayUtc).row.banTotalDurationMs tupleKind =
    ((chainsOf tupleKind chains).map BanChain.durationMs).sum

/-- Every ban is over at its second event, or at once if the day has no
sample. -/
def EndsAtSecond (store : UsageHistoryStore) (dayUtc : Int) (c : BanChain) : Prop :=
  (HasSample store dayUtc → c.second.2.onsetAt = c.resolved.2.onsetAt) ∧
    (¬ HasSample store dayUtc → c.onset.2.onsetAt = c.resolved.2.onsetAt)

theorem sum_eq_iff_of_le {f g : BanChain → Int} (hle : ∀ c ∈ chains, f c ≤ g c) :
    (chains.map f).sum = (chains.map g).sum ↔ ∀ c ∈ chains, f c = g c := by
  constructor
  · intro hsum c hc
    by_contra hne
    exact absurd hsum (List.sum_lt_sum f g hle ⟨c, hc, lt_of_le_of_ne (hle c hc) hne⟩).ne
  · intro h
    rw [List.map_congr_left h]

/-- The row has the durations of a day's chains exactly if every ban ends at
the event behind its onset. -/
theorem banDurations_iff (store : UsageHistoryStore) (config : DownsampleConfig) (now dayUtc : Int)
    (chains : List BanChain) (h : MadeOf store dayUtc chains) :
    BanDurations store config now dayUtc chains ↔ ∀ c ∈ chains, EndsAtSecond store dayUtc c := by
  classical
  have hkinds : (∀ c ∈ chains, EndsAtSecond store dayUtc c) ↔
      ∀ tupleKind, ∀ c ∈ chainsOf tupleKind chains, EndsAtSecond store dayUtc c := by
    constructor
    · intro hends tupleKind c hc
      exact hends c (List.mem_of_mem_filter hc)
    · intro hends c hc
      exact hends c.tupleKind c (List.mem_filter.mpr ⟨hc, decide_eq_true rfl⟩)
  rw [hkinds]
  refine forall_congr' fun tupleKind => ?_
  rw [banTotalDurationMs_computeDailyRow]
  by_cases hhas : HasSample store dayUtc
  · rw [if_pos hhas, banTotalMs_eq h, sum_eq_iff_of_le fun c _ => c.firstMs_le]
    refine forall_congr' fun c => forall_congr' fun _ => ?_
    simp only [EndsAtSecond, hhas, BanChain.firstMs, BanChain.durationMs]
    constructor
    · intro heq
      exact ⟨fun _ => Int.sub_left_inj _ |>.mp heq, fun hnot => absurd trivial hnot⟩
    · intro hp
      obtain ⟨heq, _⟩ := hp
      rw [heq trivial]
  · have hzero : (0 : Int) = ((chainsOf tupleKind chains).map fun _ => (0 : Int)).sum := by simp
    rw [if_neg hhas, hzero, sum_eq_iff_of_le fun c _ => c.firstMs_nonneg.trans c.firstMs_le]
    refine forall_congr' fun c => forall_congr' fun _ => ?_
    simp only [EndsAtSecond, hhas, BanChain.durationMs]
    constructor
    · intro heq
      exact ⟨fun hnot => hnot.elim, fun _ => by omega⟩
    · intro hp
      obtain ⟨_, heq⟩ := hp
      rw [heq not_false]
      omega

/-! ### Two bans of a day -/

/-- A snapshot at a minute of the first day. -/
def minuteSnapshot (minute : Int) (low demoted : Bool) : UsageSample where
  fetchedAt := minute * MS_PER_MINUTE
  ambient := { (EventRun.prioritySnapshot low).ambient with unitsDemoted := demoted }

def priorityEvent (snap : UsageSample) (transition : EventTransition)
    (previousEventId : Option ℕ) : UsageEvent :=
  ⟨snap.fetchedAt, transition, .priority, previousEventId, snap.ambient,
    deriveCacheHitRate snap.ambient⟩

/-- The store behind these snapshots, with a sample of the first one. -/
def storeOf (snaps : List UsageSample) : UsageHistoryStore :=
  (run EventRun.step EventRun.init (snaps.map EventOp.snapshot)).store.handleSnapshot
    (minuteSnapshot 0 false false) false

/-- The priority is low from minute 1, the units are demoted from minute 2 and
all is well at minute 3. -/
def morphedBan : BanChain where
  onset := (1, priorityEvent (minuteSnapshot 1 true false) .onset none)
  morphs := [(2, priorityEvent (minuteSnapshot 2 true true) .morph (some 1))]
  resolved := (3, priorityEvent (minuteSnapshot 3 false false) .resolved (some 2))
  isOnset := rfl
  areMorphs := by decide
  isResolved := rfl
  unreferring := rfl
  linked := by decide
  oneKind := by decide
  ascending := by decide

def morphedDay : UsageHistoryStore :=
  storeOf [minuteSnapshot 0 false false, minuteSnapshot 1 true false, minuteSnapshot 2 true true,
    minuteSnapshot 3 false false]

/-- The priority is low from minute 1 to minute 3. -/
def plainBan : BanChain where
  onset := (1, priorityEvent (minuteSnapshot 1 true false) .onset none)
  morphs := []
  resolved := (2, priorityEvent (minuteSnapshot 3 false false) .resolved (some 1))
  isOnset := rfl
  areMorphs := by decide
  isResolved := rfl
  unreferring := rfl
  linked := by decide
  oneKind := by decide
  ascending := by decide

def plainDay : UsageHistoryStore :=
  storeOf [minuteSnapshot 0 false false, minuteSnapshot 1 true false, minuteSnapshot 3 false false]

theorem hasSample_of_rows {snap : UsageSample} (hrows : (1, snap) ∈ store.samples.rows)
    (hday : UsageHistoryStore.inDays 0 0 snap.fetchedAt = true) : HasSample store 0 :=
  ⟨_, hrows, hday⟩

/-- The events of the store, if all of them are of the day. -/
theorem madeOf_of_rows (hrows : store.events.rows = chains.flatMap BanChain.events)
    (hdays : ∀ e ∈ store.events.rows, UsageHistoryStore.inDays dayUtc dayUtc e.2.onsetAt = true) :
    MadeOf store dayUtc chains := by
  rw [MadeOf, ← hrows, dayEvents, UsageHistoryStore.getEventsForDateRange,
    List.filter_eq_self.mpr hdays, List.filter_eq_self.mpr fun e he =>
      hdays e (List.mem_mergeSort.mp he)]
  exact List.mergeSort_perm _ _

/-- The second minute of the ban is lost. -/
theorem morphed_ban_cut_short :
    MadeOf morphedDay 0 [morphedBan] ∧
      ¬ BanDurations morphedDay ⟨30, 5, 30⟩ 0 0 [morphedBan] := by
  classical
  have hmade : MadeOf morphedDay 0 [morphedBan] :=
    madeOf_of_rows (by decide +kernel) (by decide +kernel)
  refine ⟨hmade, fun hdurations => ?_⟩
  have htotal := hdurations .priority
  have hsample : HasSample morphedDay 0 := hasSample_of_rows
    (show (1, minuteSnapshot 0 false false) ∈ morphedDay.samples.rows by decide +kernel) (by decide)
  rw [banTotalDurationMs_computeDailyRow, if_pos hsample, banTotalMs_eq hmade] at htotal
  revert htotal
  decide

/-- A ban without morphs has its whole duration. -/
theorem plain_ban_counted : BanDurations plainDay ⟨30, 5, 30⟩ 0 0 [plainBan] :=
  (banDurations_iff plainDay ⟨30, 5, 30⟩ 0 0 [plainBan]
    (madeOf_of_rows (by decide +kernel) (by decide +kernel))).mpr fun c hc => by
      rw [List.mem_singleton.mp hc]
      exact ⟨fun _ => rfl, fun hnone => absurd (hasSample_of_rows
        (show (1, minuteSnapshot 0 false false) ∈ plainDay.samples.rows by decide +kernel)
        (by decide)) hnone⟩

end UmansGate.UsageHistory
