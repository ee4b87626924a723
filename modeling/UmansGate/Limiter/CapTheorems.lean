/-
UmansGate.Limiter.CapTheorems — the limit bounds every grant.

`canGrant` refuses whatever would take `active` over `limit` before it
looks at reservations, and `limit` never exceeds `hardCap`. Both facts
are read off the log: `granted` records the counters at the moment of
the grant. The results hold with throwing callbacks and after a shutdown
too; only a NaN handed to `resize` is excluded, since it makes `limit` NaN.
-/
import UmansGate.Limiter.Moves

namespace UmansGate.Limiter

open UmansGate.Lib

/-- `resize` is given finite numbers. -/
def Op.FiniteResize : Op → Prop
  | .resize newLimit => newLimit.isFinite = true
  | _ => True

/-- The limit is a number between one slot and the hard cap. -/
def Semaphore.LimitInCap (s : Semaphore) : Prop :=
  ∃ l, s.limit = .fin l ∧ SCALE ≤ l ∧ l ≤ s.hardCap

/-- The counters of a grant are within the limit, and the limit within the
cap. -/
def Grant.WithinCap (g : Grant) : Prop :=
  ∃ l, g.limit = .fin l ∧ g.active ≤ l ∧ l ≤ g.hardCap

/-- What a log entry says about a grant, if it is one. -/
def Event.OnGrant (P : Grant → Prop) : Event → Prop
  | .granted g => P g
  | _ => True

section Limits

variable [ShareRounding] {n : Nat} {op : Op} {s₀ s s' : Semaphore}

/-- Every admission branch refuses what would exceed the limit. -/
theorem canGrant_le {k : String} {w l : Int} (hl : s.limit = .fin l)
    (h : s.canGrant k w = true) : s.active + w ≤ l := by
  unfold Semaphore.canGrant at h
  simp only at h
  split at h
  · exact absurd h (by simp)
  · rename_i hlt
    rw [hl, Num.lt_fin_fin, decide_eq_true_eq] at hlt
    omega

theorem Grant.From.withinCap {g : Grant} (hg : g.From s) (hs : s.LimitInCap) : g.WithinCap := by
  obtain ⟨-, ⟨k, hc⟩, ha, hl, hh⟩ := hg
  obtain ⟨l, hlim, -, hle⟩ := hs
  refine ⟨l, hl.trans hlim, ?_, hh ▸ hle⟩
  rw [ha]
  exact canGrant_le hlim hc

/-- What holds of every grant out of `s` holds of every grant a change of
`s` logs. -/
theorem Event.LoggedBy.onGrant {P : Grant → Prop} (hP : ∀ g, g.From s → P g) {e : Event}
    (h : e.LoggedBy op s) : e.OnGrant P := by
  cases e with
  | granted g => exact hP g h.1
  | _ => trivial

/-! ## The limit stays in the cap -/

omit [ShareRounding] in
/-- A cap is at least one slot. -/
theorem SCALE_le_scaledCap (arg : Num ℚ) : SCALE ≤ Semaphore.scaledCap arg := by
  have h : ∀ q : ℚ, SCALE ≤ max 1 (floorNum q) * SCALE := by
    intro q
    have : 1 ≤ max 1 (floorNum q) := le_max_left _ _
    unfold SCALE
    omega
  exact h _

omit [ShareRounding] in
theorem limitInCap_new (opts : ConcurrencyGateOptions) : (Semaphore.new opts).LimitInCap := by
  have h := SCALE_le_scaledCap (.fin opts.hardCap)
  exact ⟨_, rfl, le_max_left _ _, max_le h (min_le_right _ _)⟩

omit [ShareRounding] in
theorem limitInCap_clampLimit (h : s.LimitInCap) {newLimit : Num ℚ}
    (hfin : newLimit.isFinite = true) : { s with limit := s.clampLimit newLimit }.LimitInCap := by
  obtain ⟨l, _, hlo, hhi⟩ := h
  have hne : (newLimit.map fun q => roundNum (q * SCALE)) ≠ .nan :=
    Num.map_ne_nan _ (Num.ne_nan_of_isFinite hfin)
  obtain ⟨a, ha, h₁, h₂⟩ := Num.clamp_fin SCALE s.hardCap (le_trans hlo hhi) hne
  exact ⟨a, ha, h₁, h₂⟩

omit [ShareRounding] in
theorem limitInCap_setHardCap (h : s.LimitInCap) (newHardCap : Num ℚ) (softLimit : Int) :
    { s with
      hardCap := Semaphore.scaledCap newHardCap
      softLimit := softLimit
      limit :=
        if Num.lt (.fin (Semaphore.scaledCap newHardCap)) s.limit then
          .fin (Semaphore.scaledCap newHardCap)
        else s.limit }.LimitInCap := by
  obtain ⟨l, hl, hlo, hhi⟩ := h
  have hcap := SCALE_le_scaledCap newHardCap
  by_cases hlt : Semaphore.scaledCap newHardCap < l
  · refine ⟨Semaphore.scaledCap newHardCap, ?_, hcap, le_rfl⟩
    rw [hl, Num.lt_fin_fin, decide_eq_true hlt, if_pos rfl]
  · refine ⟨l, ?_, hlo, Int.not_lt.mp hlt⟩
    rw [hl, Num.lt_fin_fin, decide_eq_false hlt]
    rfl

/-- Only `resize` and `setHardCap` touch the limit or the cap. -/
theorem Move.limit_cases (hm : Move n op s₀ s s') :
    (s'.limit = s.limit ∧ s'.hardCap = s.hardCap) ∨
      (∃ x, op = .resize x ∧ s' = { s with limit := s.clampLimit x }) ∨
      ∃ x softLimit, op = .setHardCap x ∧
        s' = { s with
          hardCap := Semaphore.scaledCap x
          softLimit := softLimit
          limit :=
            if Num.lt (.fin (Semaphore.scaledCap x)) s.limit then .fin (Semaphore.scaledCap x)
            else s.limit } := by
  cases hm with
  | resize hop => exact .inr (.inl ⟨_, hop, rfl⟩)
  | setHardCap hop => exact .inr (.inr ⟨_, _, hop, rfl⟩)
  | note _ => exact .inl ⟨rfl, rfl⟩
  | grantWaiter _ _ _ _ =>
    exact .inl (by
      simp only [Semaphore.grantWaiter, Semaphore.grant_fst, Semaphore.decQueued_eq, and_self])
  | grantThrown _ _ _ _ _ _ =>
    exact .inl (by
      simp only [Semaphore.grantWaiter, Semaphore.grant_fst, Semaphore.decQueued_eq, and_self])
  | leave _ _ _ _ => exact .inl (by simp only [Semaphore.leave, Semaphore.decQueued_eq, and_self])
  | @release now id _ =>
    rcases s.release_cases now id with heq | ⟨p, timer, _, _, heq⟩ <;> rw [heq] <;>
      exact .inl ⟨rfl, rfl⟩
  | applyReleases _ =>
    obtain ⟨a, d, es, _, heq⟩ := s.applyReleases_eq
    rw [heq]
    exact .inl ⟨rfl, rfl⟩
  | setSoftLimit _ => exact .inl ⟨rfl, rfl⟩
  | @reconfigure opts _ =>
    simp only [Semaphore.reconfigure]
    split <;> exact .inl ⟨rfl, rfl⟩
  | shutdown _ =>
    obtain ⟨q, es, _, heq⟩ := s.shutdown_eq
    rw [heq]
    exact .inl ⟨rfl, rfl⟩

theorem Intake.limit_eq {opts : AcquireOptions} (hin : Intake n opts s s') :
    s'.limit = s.limit ∧ s'.hardCap = s.hardCap := by
  cases hin with
  | grant _ _ _ _ => simp only [Semaphore.grant_fst, and_self]
  | enqueue _ _ _ _ henq =>
    obtain ⟨-, rfl⟩ := Semaphore.enqueue_eq henq
    exact ⟨rfl, rfl⟩

omit [ShareRounding] in
theorem Semaphore.LimitInCap.congr (h : s.LimitInCap)
    (heq : s'.limit = s.limit ∧ s'.hardCap = s.hardCap) : s'.LimitInCap := by
  unfold Semaphore.LimitInCap
  rw [heq.1, heq.2]
  exact h

theorem Move.limitInCap (hm : Move n op s₀ s s') (hop : op.FiniteResize) (h : s.LimitInCap) :
    s'.LimitInCap := by
  rcases hm.limit_cases with heq | ⟨x, rfl, rfl⟩ | ⟨x, softLimit, -, rfl⟩
  · exact h.congr heq
  · exact limitInCap_clampLimit h hop
  · exact limitInCap_setHardCap h x softLimit

/-- Without `resize` the limit never rises. -/
theorem Move.limit_le (hm : Move n op s₀ s s') (hop : ∀ x, op ≠ .resize x) {l : Int}
    (hl : s.limit = .fin l) : ∃ l', s'.limit = .fin l' ∧ l' ≤ l := by
  rcases hm.limit_cases with heq | ⟨x, rfl, _⟩ | ⟨x, softLimit, -, rfl⟩
  · exact ⟨l, heq.1.trans hl, le_rfl⟩
  · exact absurd rfl (hop x)
  · by_cases hlt : Semaphore.scaledCap x < l
    · refine ⟨Semaphore.scaledCap x, ?_, hlt.le⟩
      show (if _ then _ else _) = _
      rw [hl, Num.lt_fin_fin, decide_eq_true hlt, if_pos rfl]
    · refine ⟨l, ?_, le_rfl⟩
      show (if _ then _ else _) = _
      rw [hl, Num.lt_fin_fin, decide_eq_false hlt]
      rfl

/-! ## Every run -/

/-- What a run keeps: the limit in the cap, and every grant so far within
the limit of its moment. -/
theorem withinCap_after (opts : ConcurrencyGateOptions) {ops : List Op}
    (hops : ∀ op ∈ ops, op.FiniteResize) :
    (Gate.after opts ops).semaphore.LimitInCap ∧
      LogGrows (Event.OnGrant Grant.WithinCap) (Semaphore.new opts) (Gate.after opts ops).semaphore := by
  have h : (Gate.after opts ops).semaphore.Weighted ∧
      (Gate.after opts ops).semaphore.LimitInCap ∧
      LogGrows (Event.OnGrant Grant.WithinCap) (Semaphore.new opts) (Gate.after opts ops).semaphore := by
    refine semaphore_invariant (I := fun s => s.Weighted ∧ s.LimitInCap ∧
      LogGrows (Event.OnGrant Grant.WithinCap) (Semaphore.new opts) s) (A := Op.FiniteResize) ?_ ?_ hops
      ⟨weighted_new opts, limitInCap_new opts, .refl _ _⟩
    · intro n op s₀ s s' hop hp hq hm
      obtain ⟨hw₀, _⟩ := hp
      obtain ⟨hw, hcap, hlog⟩ := hq
      exact ⟨hm.weighted hw₀ hw, hm.limitInCap hop hcap,
        hlog.trans (hm.logGrows hw) fun _ => Event.LoggedBy.onGrant fun _ hg => hg.withinCap hcap⟩
    · intro n opts' s s' _ hp hin
      obtain ⟨hw, hcap, hlog⟩ := hp
      exact ⟨hin.weighted hw, hcap.congr hin.limit_eq,
        hlog.trans hin.logGrows fun _ => Event.LoggedBy.onGrant fun _ hg => hg.withinCap hcap⟩
  exact h.2

/-- A step that cannot lower `active`: neither the release timer nor a
shutdown. -/
def Op.KeepsActive : Op → Prop
  | .cooldownExpiry => False
  | .shutdown => False
  | _ => True

/-- Over the limit `canGrant` refuses every positive weight. -/
theorem not_canGrant_of_over {l : Int} (hl : s.limit = .fin l) (hover : l < s.active) {k : String}
    {w : Int} (hw : 0 < w) : s.canGrant k w ≠ true := by
  intro hc
  have := canGrant_le hl hc
  omega

/-- Over the limit `active` stands still until releases are applied. -/
theorem Move.active_eq (hm : Move n op s₀ s s') (hop : op.KeepsActive) {l : Int}
    (hl : s.limit = .fin l) (hover : l < s.active) (hw : s.Weighted) : s'.active = s.active := by
  cases hm with
  | note _ => rfl
  | @grantWaiter pre w post _ hs hc _ =>
    exact absurd hc (not_canGrant_of_over hl hover (hw w (by simp [hs])))
  | @grantThrown pre w post visited _ hs hc _ _ _ =>
    exact absurd hc (not_canGrant_of_over hl hover (hw w (by simp [hs])))
  | leave _ _ _ _ => rw [Semaphore.leave, Semaphore.decQueued_eq]
  | @release now id _ =>
    rcases s.release_cases now id with heq | ⟨p, timer, _, _, heq⟩ <;> rw [heq]
  | applyReleases hop' =>
    subst hop'
    exact absurd hop (by simp [Op.KeepsActive])
  | resize _ => rfl
  | setHardCap _ => rfl
  | setSoftLimit _ => rfl
  | @reconfigure opts _ =>
    simp only [Semaphore.reconfigure]
    split <;> rfl
  | shutdown hop' =>
    subst hop'
    exact absurd hop (by simp [Op.KeepsActive])

theorem Intake.active_eq {opts : AcquireOptions} (hin : Intake n opts s s') {l : Int}
    (hl : s.limit = .fin l) (hover : l < s.active) : s'.active = s.active := by
  cases hin with
  | grant _ _ hw hc => exact absurd hc (not_canGrant_of_over hl hover hw)
  | enqueue _ _ _ _ henq =>
    obtain ⟨-, rfl⟩ := Semaphore.enqueue_eq henq
    rfl

/-- A continuation without `resize` from a state with limit `l`: every
grant in it leaves at most `l` active. -/
theorem grants_le_of_no_resize {g : Gate} {l : Int} (hl : g.semaphore.limit = .fin l)
    (hw : g.semaphore.Weighted) {ops : List Op} (hops : ∀ op ∈ ops, ∀ x, op ≠ .resize x) :
    LogGrows (Event.OnGrant fun e => e.active ≤ l) g.semaphore (Lib.run Gate.step g ops).semaphore := by
  have h : (∃ l', (Lib.run Gate.step g ops).semaphore.limit = .fin l' ∧ l' ≤ l) ∧
      (Lib.run Gate.step g ops).semaphore.Weighted ∧
      LogGrows (Event.OnGrant fun e => e.active ≤ l) g.semaphore (Lib.run Gate.step g ops).semaphore := by
    refine semaphore_invariant (I := fun s => (∃ l', s.limit = .fin l' ∧ l' ≤ l) ∧
      s.Weighted ∧ LogGrows (Event.OnGrant fun e => e.active ≤ l) g.semaphore s)
      (A := fun op => ∀ x, op ≠ .resize x) ?_ ?_ hops ⟨⟨l, hl, le_rfl⟩, hw, .refl _ _⟩
    · intro n op s₀ s s' hop hp hq hm
      obtain ⟨_, hw₀, _⟩ := hp
      obtain ⟨⟨l', hl', hle⟩, hws, hlog⟩ := hq
      obtain ⟨l'', hl'', hle'⟩ := hm.limit_le hop hl'
      refine ⟨⟨l'', hl'', hle'.trans hle⟩, hm.weighted hw₀ hws,
        hlog.trans (hm.logGrows hws) fun _ => Event.LoggedBy.onGrant ?_⟩
      rintro e ⟨-, ⟨k, hc⟩, ha, -, -⟩
      have := canGrant_le hl' hc
      omega
    · intro n opts s s' _ hp hin
      obtain ⟨⟨l', hl', hle⟩, hws, hlog⟩ := hp
      refine ⟨⟨l', hin.limit_eq.1.trans hl', hle⟩, hin.weighted hws,
        hlog.trans hin.logGrows fun _ => Event.LoggedBy.onGrant ?_⟩
      rintro e ⟨-, ⟨k, hc⟩, ha, -, -⟩
      have := canGrant_le hl' hc
      omega
  exact h.2.2

/-- A continuation that neither raises the limit nor applies releases, from
a state over its limit: no grant at all. -/
theorem no_grant_while_over {g : Gate} {l : Int} (hl : g.semaphore.limit = .fin l)
    (hover : l < g.semaphore.active) (hw : g.semaphore.Weighted) {ops : List Op}
    (hops : ∀ op ∈ ops, op.KeepsActive ∧ ∀ x, op ≠ .resize x) :
    LogGrows (Event.OnGrant fun _ => False) g.semaphore (Lib.run Gate.step g ops).semaphore := by
  have h : (∃ l', (Lib.run Gate.step g ops).semaphore.limit = .fin l' ∧ l' ≤ l) ∧
      (Lib.run Gate.step g ops).semaphore.active = g.semaphore.active ∧
      (Lib.run Gate.step g ops).semaphore.Weighted ∧
      LogGrows (Event.OnGrant fun _ => False) g.semaphore (Lib.run Gate.step g ops).semaphore := by
    refine semaphore_invariant (I := fun s => (∃ l', s.limit = .fin l' ∧ l' ≤ l) ∧
      s.active = g.semaphore.active ∧ s.Weighted ∧ LogGrows (Event.OnGrant fun _ => False) g.semaphore s)
      (A := fun op => op.KeepsActive ∧ ∀ x, op ≠ .resize x)
      ?_ ?_ hops ⟨⟨l, hl, le_rfl⟩, rfl, hw, .refl _ _⟩
    · intro n op s₀ s s' hp hq hr hm
      obtain ⟨hop, hop'⟩ := hp
      obtain ⟨_, _, hw₀, _⟩ := hq
      obtain ⟨⟨l', hl', hle⟩, hact, hws, hlog⟩ := hr
      have hover' : l' < s.active := by omega
      obtain ⟨l'', hl'', hle'⟩ := hm.limit_le hop' hl'
      refine ⟨⟨l'', hl'', hle'.trans hle⟩, (hm.active_eq hop hl' hover' hws).trans hact,
        hm.weighted hw₀ hws, hlog.trans (hm.logGrows hws) fun _ => Event.LoggedBy.onGrant ?_⟩
      rintro e ⟨hpos, ⟨k, hc⟩, -, -, -⟩
      exact not_canGrant_of_over hl' hover' hpos hc
    · intro n opts s s' _ hp hin
      obtain ⟨⟨l', hl', hle⟩, hact, hws, hlog⟩ := hp
      have hover' : l' < s.active := by omega
      refine ⟨⟨l', hin.limit_eq.1.trans hl', hle⟩, (hin.active_eq hl' hover').trans hact,
        hin.weighted hws, hlog.trans hin.logGrows fun _ => Event.LoggedBy.onGrant ?_⟩
      rintro e ⟨hpos, ⟨k, hc⟩, -, -, -⟩
      exact not_canGrant_of_over hl' hover' hpos hc
  exact h.2.2.2

/-- Cap safety: in every run with finite `resize` arguments every grant is
within the limit of its moment and that limit within the hard cap. From a
state with limit `l`, until the next `resize`, every grant leaves at most
`l` active; while `active` is over `l` and no release is applied, there is
none. -/
theorem cap_safety (opts : ConcurrencyGateOptions) (ops : List Op)
    (hops : ∀ op ∈ ops, op.FiniteResize) :
    (∀ e, .granted e ∈ (Gate.after opts ops).semaphore.log → e.WithinCap) ∧
      ∃ l, (Gate.after opts ops).semaphore.limit = .fin l ∧
        l ≤ (Gate.after opts ops).semaphore.hardCap ∧
        (∀ later : List Op, (∀ op ∈ later, ∀ x, op ≠ .resize x) →
          LogGrows (Event.OnGrant fun e => e.active ≤ l) (Gate.after opts ops).semaphore
            (Gate.after opts (ops ++ later)).semaphore) ∧
        ∀ later : List Op, (∀ op ∈ later, op.KeepsActive ∧ ∀ x, op ≠ .resize x) →
          l < (Gate.after opts ops).semaphore.active →
          LogGrows (Event.OnGrant fun _ => False) (Gate.after opts ops).semaphore
            (Gate.after opts (ops ++ later)).semaphore := by
  obtain ⟨⟨l, hl, -, hle⟩, es, hlog, hes⟩ := withinCap_after opts hops
  have hw := weighted_after opts ops
  have happ : ∀ later, Gate.after opts (ops ++ later) =
      Lib.run Gate.step (Gate.after opts ops) later := fun later => run_append _ _ _ _
  refine ⟨fun e he => ?_, l, hl, hle, fun later hlater => ?_, fun later hlater hover => ?_⟩
  · rw [hlog] at he
    have hnil : (Semaphore.new opts).log = [] := rfl
    rw [hnil, List.append_nil] at he
    exact hes _ he
  · rw [happ]
    exact grants_le_of_no_resize hl hw hlater
  · rw [happ]
    exact no_grant_while_over hl hover hw hlater

end Limits

section Runs

attribute [local instance] exactShare

/-- Two requests run and a third waits when the cap drops to one slot. -/
def loweredCap : List Op := [.acquire {}, .acquire {}, .acquire {}, .setHardCap (.fin 1)]

/-- Over the lowered cap the first release grants nothing. -/
theorem cap_safety_loweredCap :
    ∃ l, (Gate.after twoSlots loweredCap).semaphore.limit = .fin l ∧
      l < (Gate.after twoSlots loweredCap).semaphore.active ∧
      LogGrows (Event.OnGrant fun _ => False) (Gate.after twoSlots loweredCap).semaphore
        (Gate.after twoSlots (loweredCap ++ [.release 0, .tick 5])).semaphore := by
  obtain ⟨-, l, hl, -, -, hnone⟩ :=
    cap_safety twoSlots loweredCap (by simp [loweredCap, Op.FiniteResize])
  have hlim : (Gate.after twoSlots loweredCap).semaphore.limit = .fin 1000 := by decide +kernel
  have hact : (Gate.after twoSlots loweredCap).semaphore.active = 2000 := by decide +kernel
  have hl' : l = 1000 := by
    rw [hl] at hlim
    exact Num.fin.inj hlim
  have hover : l < (Gate.after twoSlots loweredCap).semaphore.active := by omega
  exact ⟨l, hl, hover, hnone [.release 0, .tick 5] (by simp [Op.KeepsActive]) hover⟩

end Runs

end UmansGate.Limiter
