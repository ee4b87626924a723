/-
UmansGate.Usage.RefreshTheorems — what the snapshot of the usage client is
after any calls and answers.

The flag is up exactly while one request is on the wire, so no fetch runs
beside another and none leaves the flag behind, whatever the answers are. The
snapshot is that of the last usable response, and its caps are the last that
any response named. A failure since then changes three of its fields
(`Shows`). The callbacks are called with such snapshots and no others, so none
is ever given the fail-safe.
-/
import UmansGate.Usage.UsageClient

namespace UmansGate.Usage

open UmansGate.Lib UmansGate.UsageHistory

variable {dateParse : String → Option Int} {answered later : List Answer} {snap : UsageSnapshot}
  {s : UsageRun} {a : Answer} {raw : RawUsage} {now : Int}

/-! ## Answers -/

namespace Answer

/-- The response of an answer that is usable. -/
def raw? (a : Answer) : Option RawUsage :=
  match a.result with
  | .usage raw => some raw
  | .malformed => none
  | .error => none

/-- The time of an answer that is a failure. -/
def failedAt? (a : Answer) : Option Int := if a.result = .error then some a.now else none

end Answer

inductive Cap where
  | hardCap
  | softLimit

namespace Cap

def ofSnapshot (snap : UsageSnapshot) : Cap → ℚ
  | .hardCap => snap.ambient.concurrencyHardCap
  | .softLimit => snap.ambient.concurrencySoftLimit

def ofRaw (limits : RawConcurrencyLimits) : Cap → Option ℚ
  | .hardCap => limits.hard_cap
  | .softLimit => limits.limit

/-- The cap that an answer names. -/
def named (cap : Cap) (a : Answer) : Option ℚ :=
  a.raw?.bind fun raw => raw.concurrency.bind fun limits => cap.ofRaw limits

/-- The last cap that was named, and one before there is any. -/
def lastNamed (cap : Cap) (answered : List Answer) : ℚ :=
  (answered.filterMap cap.named).getLast?.getD 1

end Cap

variable {cap : Cap}

theorem getLast?_filterMap_snoc {α β : Type} {f : α → Option β} {l : List α} {x : α} :
    ((l ++ [x]).filterMap f).getLast? = (f x).or (l.filterMap f).getLast? := by
  rw [List.filterMap_append]
  cases hx : f x with
  | none => simp [hx]
  | some y => simp [hx]

theorem lastNamed_snoc :
    cap.lastNamed (answered ++ [a]) = (cap.named a).getD (cap.lastNamed answered) := by
  rw [Cap.lastNamed, getLast?_filterMap_snoc]
  cases cap.named a with
  | none => rfl
  | some value => rfl

theorem named_of_raw? (h : a.raw? = none) : cap.named a = none := by
  rw [Cap.named, h, Option.bind_none]

theorem lastNamed_append (h : ∀ a ∈ later, a.raw? = none) :
    cap.lastNamed (answered ++ later) = cap.lastNamed answered := by
  have hnone : later.filterMap cap.named = [] :=
    List.filterMap_eq_nil_iff.mpr fun a ha => named_of_raw? (h a ha)
  rw [Cap.lastNamed, List.filterMap_append, hnone, List.append_nil, Cap.lastNamed]

/-! ## Snapshots -/

/-- What failures leave of a snapshot, with the time of the last one. -/
def afterFailures (later : List Answer) (snap : UsageSnapshot) : UsageSnapshot :=
  match (later.filterMap Answer.failedAt?).getLast? with
  | none => snap
  | some now => UsageClient.failed snap now

theorem failed_failed {now' : Int} :
    UsageClient.failed (UsageClient.failed snap now) now' = UsageClient.failed snap now' := rfl

theorem afterFailures_snoc :
    afterFailures (later ++ [a]) snap = afterFailures [a] (afterFailures later snap) := by
  have hsingle : ([a].filterMap Answer.failedAt?).getLast? = a.failedAt? := by
    cases ha : a.failedAt? <;> simp [ha]
  rw [afterFailures, afterFailures, getLast?_filterMap_snoc, hsingle]
  cases a.failedAt? with
  | none => rfl
  | some now =>
    simp only [Option.some_or, afterFailures]
    split
    · rfl
    · rw [failed_failed]

theorem ofSnapshot_afterFailures :
    cap.ofSnapshot (afterFailures later snap) = cap.ofSnapshot snap := by
  rw [afterFailures]
  split
  · rfl
  · cases cap <;> rfl

/-- The snapshot that a response makes after those answers. -/
def reported (dateParse : String → Option Int) (before : List Answer) (raw : RawUsage)
    (now : Int) : UsageSnapshot :=
  buildSnapshot dateParse raw true (Cap.hardCap.lastNamed before) (Cap.softLimit.lastNamed before) now

/-- The snapshot is that of the last usable response, as the failures since
have left it. -/
def Shows (dateParse : String → Option Int) (answered : List Answer) (snap : UsageSnapshot) : Prop :=
  ∃ before raw now later, answered = before ++ ⟨.usage raw, now⟩ :: later ∧
    (∀ a ∈ later, a.raw? = none) ∧ snap = afterFailures later (reported dateParse before raw now)

theorem ofSnapshot_reported {before : List Answer} :
    cap.ofSnapshot (reported dateParse before raw now) =
      cap.lastNamed (before ++ [⟨.usage raw, now⟩]) := by
  rw [lastNamed_snoc]
  cases cap <;> rfl

/-- The caps of a snapshot are the last that were named. -/
theorem Shows.ofSnapshot (h : Shows dateParse answered snap) :
    cap.ofSnapshot snap = cap.lastNamed answered := by
  obtain ⟨before, raw, now, later, rfl, hlater, rfl⟩ := h
  rw [ofSnapshot_afterFailures, ofSnapshot_reported,
    List.append_cons before _ later, lastNamed_append hlater]

theorem shows_snoc_usage :
    Shows dateParse (answered ++ [⟨.usage raw, now⟩]) (reported dateParse answered raw now) :=
  ⟨answered, raw, now, [], rfl, by simp, rfl⟩

/-- What there is of a snapshot. -/
def Shown (dateParse : String → Option Int) (answered : List Answer) : Option UsageSnapshot → Prop
  | none => ∀ a ∈ answered, a.raw? = none
  | some snap => Shows dateParse answered snap

theorem raw?_eq_none_snoc (h : ∀ b ∈ answered, b.raw? = none) (ha : a.raw? = none) :
    ∀ b ∈ answered ++ [a], b.raw? = none := by
  intro b hb
  obtain hb | hb := List.mem_append.mp hb
  · exact h b hb
  · rwa [List.mem_singleton.mp hb]

/-- An answer that is not usable is one more of those since. -/
theorem Shown.snoc {snapshot : Option UsageSnapshot} (h : Shown dateParse answered snapshot)
    (ha : a.raw? = none) :
    Shown dateParse (answered ++ [a]) (snapshot.map (afterFailures [a])) := by
  cases snapshot with
  | none => exact raw?_eq_none_snoc h ha
  | some snap =>
    obtain ⟨before, raw, now, later, rfl, hlater, rfl⟩ := h
    exact ⟨before, raw, now, later ++ [a], by simp, raw?_eq_none_snoc hlater ha,
      afterFailures_snoc.symm⟩

theorem Shown.getD_ofSnapshot {snapshot : Option UsageSnapshot}
    (h : Shown dateParse answered snapshot) (cap : Cap) :
    (snapshot.map cap.ofSnapshot).getD 1 = cap.lastNamed answered := by
  cases snapshot with
  | some snap => exact Shows.ofSnapshot h
  | none =>
    have hnil : cap.lastNamed ([] ++ answered) = cap.lastNamed [] := lastNamed_append h
    exact hnil.symm

/-- The snapshot after an answer. -/
theorem settle_shown {c : UsageClient} (h : Shown dateParse answered c.snapshot) (a : Answer) :
    Shown dateParse (answered ++ [a]) (c.settle dateParse a.result a.now).1.snapshot := by
  cases hresult : a.result with
  | usage raw =>
    have hbuilt : reported dateParse answered raw a.now = buildSnapshot dateParse raw true
        ((c.snapshot.map Cap.hardCap.ofSnapshot).getD 1)
        ((c.snapshot.map Cap.softLimit.ofSnapshot).getD 1) a.now := by
      rw [h.getD_ofSnapshot, h.getD_ofSnapshot, reported]
    have ha : a = ⟨.usage raw, a.now⟩ := by rw [← hresult]
    change Shows dateParse _ (buildSnapshot dateParse raw true _ _ a.now)
    rw [ha]
    exact hbuilt ▸ shows_snoc_usage
  | malformed =>
    have hkept : afterFailures [a] = id := by
      funext snap
      simp [afterFailures, Answer.failedAt?, hresult]
    have hshown := h.snoc (a := a) (by rw [Answer.raw?, hresult])
    rwa [hkept, Option.map_id] at hshown
  | error =>
    have hfailed : afterFailures [a] = (UsageClient.failed · a.now) := by
      funext snap
      simp [afterFailures, Answer.failedAt?, hresult]
    have hshown := h.snoc (a := a) (by rw [Answer.raw?, hresult])
    rwa [hfailed] at hshown

/-- The callbacks are called with the snapshot there is. -/
theorem settle_called {c : UsageClient} (result : FetchUsageResult) (now : Int)
    (hsnap : (c.settle dateParse result now).2 = some snap) :
    (c.settle dateParse result now).1.snapshot = some snap := by
  cases result with
  | usage raw => exact hsnap
  | malformed => cases hsnap
  | error => exact hsnap

/-! ## Runs -/

/-- What is true of the client and of what it has sent and called. -/
structure Tracks (dateParse : String → Option Int) (s : UsageRun) : Prop where
  /-- One request is on the wire while the flag is up, and none else. -/
  inFlight : s.inFlight = if s.client.fetching then 1 else 0
  shown : Shown dateParse s.answered s.client.snapshot
  called : ∀ call ∈ s.calls, ∃ answered, answered <+: s.answered ∧
    Shows dateParse answered call.2

theorem tracks_init (apiKey : Option String) : Tracks dateParse (.init apiKey) where
  inFlight := rfl
  shown _ h := nomatch h
  called _ h := nomatch h

theorem refresh_inFlight {c : UsageClient} {inFlight : ℕ}
    (h : inFlight = if c.fetching then 1 else 0) :
    inFlight + (if c.refresh.2 then 1 else 0) = if c.refresh.1.fetching then 1 else 0 := by
  rw [UsageClient.refresh]
  cases hfetching : c.fetching with
  | true => simpa [hfetching] using h
  | false =>
    cases hkey : c.hasKey with
    | true => simpa [hfetching] using h
    | false => simpa [hfetching] using h

theorem refresh_snapshot {c : UsageClient} : c.refresh.1.snapshot = c.snapshot := by
  rw [UsageClient.refresh]
  split <;> rfl

theorem Tracks.refresh (h : Tracks dateParse s) : Tracks dateParse (s.sends s.client.refresh) where
  inFlight := refresh_inFlight h.inFlight
  shown := by
    rw [UsageRun.sends, refresh_snapshot]
    exact h.shown
  called := h.called

theorem Tracks.start (h : Tracks dateParse s) : Tracks dateParse (s.sends s.client.start) := by
  rw [UsageClient.start]
  split
  · exact ⟨h.inFlight, h.shown, h.called⟩
  · exact ⟨h.refresh.inFlight, h.refresh.shown, h.refresh.called⟩

theorem Tracks.answer (h : Tracks dateParse s) (hsent : 0 < s.inFlight) (a : Answer) :
    Tracks dateParse (s.answer dateParse a) := by
  have hshown := settle_shown h.shown a
  have hone : s.inFlight = 1 := by
    have hflag := h.inFlight
    split at hflag <;> omega
  have hdown : (s.client.settle dateParse a.result a.now).1.fetching = false := by
    cases ha : a.result <;> rfl
  constructor
  · rw [UsageRun.answer]
    simp [hone, hdown]
  · exact hshown
  · intro call hcall
    obtain hold | hnew := List.mem_append.mp hcall
    · obtain ⟨answered, hprefix, hshows⟩ := h.called call hold
      exact ⟨answered, hprefix.trans (List.prefix_append _ _), hshows⟩
    · refine ⟨s.answered ++ [a], List.prefix_rfl, ?_⟩
      cases hsnap : (s.client.settle dateParse a.result a.now).2 with
      | none =>
        rw [hsnap] at hnew
        cases hnew
      | some snap =>
        rw [hsnap, Option.map_some, Option.getD_some, List.mem_map] at hnew
        obtain ⟨cb, -, rfl⟩ := hnew
        rw [settle_called a.result a.now hsnap] at hshown
        exact hshown

theorem step_tracks (h : Tracks dateParse s) (op : ClientOp) :
    Tracks dateParse (s.step dateParse op) := by
  cases op with
  | onChange cb => exact ⟨h.inFlight, h.shown, h.called⟩
  | start => exact h.start
  | stop => exact ⟨h.inFlight, h.shown, h.called⟩
  | refresh => exact h.refresh
  | tick =>
    rw [UsageRun.step]
    split
    · exact h.refresh
    · exact h
  | answer a =>
    rw [UsageRun.step]
    split
    · rename_i hsent
      exact h.answer hsent a
    · exact h

theorem run_tracks (dateParse : String → Option Int) (apiKey : Option String)
    (ops : List ClientOp) : Tracks dateParse (run (UsageRun.step dateParse) (.init apiKey) ops) :=
  run_invariant (I := Tracks dateParse) (fun _ op h => step_tracks h op) (tracks_init apiKey) ops

/-- **The snapshot follows the answers.** In every run at most one request is on
the wire, and the flag is up exactly then. The snapshot is that of the last
usable response as later failures left it, its caps are the last that were
named, and every callback was called with what was such a snapshot then. -/
theorem snapshot_follows_answers (dateParse : String → Option Int) (apiKey : Option String)
    (ops : List ClientOp) :
    let s := run (UsageRun.step dateParse) (.init apiKey) ops
    (s.inFlight = if s.client.fetching then 1 else 0) ∧
      Shown dateParse s.answered s.client.snapshot ∧
      (∀ cap : Cap, (s.client.snapshot.map cap.ofSnapshot).getD 1 = cap.lastNamed s.answered) ∧
      ∀ call ∈ s.calls, ∃ answered, answered <+: s.answered ∧ Shows dateParse answered call.2 ∧
        ∀ cap : Cap, cap.ofSnapshot call.2 = cap.lastNamed answered := by
  intro s
  have h : Tracks dateParse s := run_tracks dateParse apiKey ops
  refine ⟨h.inFlight, h.shown, fun cap => h.shown.getD_ofSnapshot cap, fun call hcall => ?_⟩
  obtain ⟨answered, hprefix, hshows⟩ := h.called call hcall
  exact ⟨answered, hprefix, hshows, fun cap => hshows.ofSnapshot⟩

end UmansGate.Usage
