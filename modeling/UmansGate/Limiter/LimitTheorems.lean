/-
UmansGate.Limiter.LimitTheorems — the limits lie between one permit and the
hard cap.

The setters differ in what they do with a number that is none. `setHardCap`
and `setSoftLimit` take 1 for NaN and the infinities, but a number that
overflows when it is scaled becomes an infinite cap. `resize` clamps an
infinity and keeps NaN, and every comparison with NaN is false. Over runs the
bounds hold, and an idle gate grants a permit, exactly when none of this
happens (`limits_bounded_iff`). A gate that is given whole numbers of
ordinary size has these limits (`agrees_after`).
-/
import UmansGate.Limiter.Limits
import UmansGate.Limiter.Moves

namespace UmansGate.Limiter

open UmansGate.Lib

/-- The cap of this number can be scaled. -/
def ScaleFits (q : ℚ) : Prop := (max 1 ⌊q⌋ : Int) * 1000 < overflowBound

instance (q : ℚ) : Decidable (ScaleFits q) := inferInstanceAs (Decidable (_ < _))

/-- `resize` is not given NaN, and the setters no number that overflows. -/
def LimitOp.Fits : LimitOp → Prop
  | .resize newLimit => newLimit ≠ .nan
  | .setHardCap newHardCap => ∀ q, newHardCap = .fin q → ScaleFits q
  | .setSoftLimit newSoftLimit => ∀ q, newSoftLimit = .fin q → ScaleFits q
  | .reconfigure _ => True

/-- The constructor has no guard. -/
def CapFits : Num ℚ → Prop
  | .fin q => ScaleFits q
  | .negInf => True
  | _ => False

namespace GateLimits

/-- The limits are integers, and one permit at least; the limit is within
the cap. -/
def Bounded (g : GateLimits) : Prop :=
  ∃ limit hardCap softLimit : Int, g.limit = .fin limit ∧ g.hardCap = .fin hardCap ∧
    g.softLimit = .fin softLimit ∧ 1000 ≤ limit ∧ limit ≤ hardCap ∧ 1000 ≤ softLimit

/-- Nothing is in use and nothing waits. -/
structure Idle (load : Load) : Prop where
  active : load.active = .fin 0
  byIntention : ∀ k, load.activeByIntention.getD k (.fin 0) = .fin 0
  queued : ∀ k, load.queuedByIntention.getD k (.fin 0) = .fin 0

/-- A permit is granted to whoever asks first. -/
def AdmitsIdle (g : GateLimits) : Prop :=
  ∀ load intention, Idle load → g.canGrant load intention scale = true

variable {g : GateLimits} {x : Num ℚ}

/-! ## Scaling -/

/-- A positive integer is scaled to an infinity, or to at least one
permit. -/
theorem mulD_scale {n : Int} (hn : 1 ≤ n) :
    (overflowBound ≤ n * 1000 ∧ (Num.fin (n : ℚ)).mulD scale = .posInf) ∨
      (n : ℚ) * 1000 < overflowBound ∧
        ∃ m : Int, (Num.fin (n : ℚ)).mulD scale = .fin m ∧ 1000 ≤ m := by
  have hcast : ((n * 1000 : Int) : ℚ) = n * 1000 := by push_cast; rfl
  rcases toDouble_intCast (n := n * 1000) (by omega) with ⟨hover, hinf⟩ | ⟨hfits, m, hm, hle⟩
  · rw [hcast] at hover hinf
    exact .inl ⟨hover, hinf⟩
  · rw [hcast] at hfits hm
    refine .inr ⟨hfits, m, hm, ?_⟩
    omega

theorem scaledFloor_fin (q : ℚ) :
    scaledFloor (.fin q) = (Num.fin ((max 1 ⌊q⌋ : Int) : ℚ)).mulD scale := by
  simp [scaledFloor, Num.floorD]

theorem scaledFloor_of_fits (h : CapFits x) : ∃ m : Int, scaledFloor x = .fin m ∧ 1000 ≤ m := by
  cases x with
  | nan => exact h.elim
  | posInf => exact h.elim
  | negInf =>
    rcases mulD_scale (n := 1) le_rfl with ⟨hover, -⟩ | ⟨-, m, hm, hle⟩
    · refine absurd hover (not_le.mpr ?_)
      have hbound : (2 : ℚ) ^ 10 ≤ overflowBound := two_pow_le_overflowBound (by norm_num)
      norm_num at hbound ⊢
      linarith
    · have hone : scaledFloor .negInf = (Num.fin ((1 : Int) : ℚ)).mulD scale := by
        simp [scaledFloor, Num.floorD, Num.map, Num.max, Num.le]
      exact ⟨m, hone.trans hm, hle⟩
  | fin q =>
    rw [scaledFloor_fin]
    rcases mulD_scale (le_max_left 1 ⌊q⌋) with ⟨hover, -⟩ | ⟨-, hm⟩
    · exact absurd hover (not_le.mpr h)
    · exact hm

theorem scaledFloor_ne_fin (h : ¬ CapFits x) (m : ℚ) : scaledFloor x ≠ .fin m := by
  cases x with
  | nan => simp [scaledFloor, Num.floorD, Num.mulD]
  | negInf => exact absurd trivial h
  | posInf => simp [scaledFloor, Num.floorD, Num.mulD, Num.map, Num.max, Num.le, scale, Num.infOfSign, Num.sign]
  | fin q =>
    rw [scaledFloor_fin]
    rcases mulD_scale (le_max_left 1 ⌊q⌋) with ⟨-, hinf⟩ | ⟨hfits, -⟩
    · rw [hinf]
      simp
    · exact absurd hfits h

theorem toDouble_ne_nan (q : ℚ) : toDouble q ≠ .nan := by
  unfold toDouble
  split
  · simp
  · split
    · simp
    · simp

theorem mulD_scale_eq_nan_iff : x.mulD scale = .nan ↔ x = .nan := by
  cases x with
  | nan => simp [Num.mulD]
  | negInf => norm_num [Num.mulD, scale, Num.infOfSign, Num.sign]
  | posInf => norm_num [Num.mulD, scale, Num.infOfSign, Num.sign]
  | fin q => simp [Num.mulD, scale, toDouble_ne_nan]

/-- Rounded and clamped, any number but NaN is an integer between the
bounds. -/
theorem clamp_roundD {y : Num ℚ} (hy : y ≠ .nan) {lo hi : Int} (h : lo ≤ hi) :
    ∃ l : Int, Num.max (.fin (lo : ℚ)) (Num.min y.roundD (.fin (hi : ℚ))) = .fin l ∧
      lo ≤ l ∧ l ≤ hi := by
  cases y with
  | nan => exact absurd rfl hy
  | negInf => exact ⟨lo, rfl, le_rfl, h⟩
  | posInf =>
    refine ⟨max lo hi, ?_, le_max_left _ _, max_le h le_rfl⟩
    simp [Num.roundD, Num.map, Num.min, Num.le]
  | fin q =>
    refine ⟨max lo (min ⌊q + 1 / 2⌋ hi), ?_, le_max_left _ _, max_le h (min_le_right _ _)⟩
    simp [Num.roundD]

theorem Num.eq_of_eqD {x y : Num ℚ} (h : x.eqD y = true) : x = y := by
  cases x <;> simp_all [Num.eqD]

/-! ## One call -/

theorem not_bounded_of_nan (h : g.limit = .nan) : ¬ g.Bounded := by
  rintro ⟨limit, -, -, hlimit, -⟩
  rw [h] at hlimit
  cases hlimit

theorem bounded_new_iff (opts : LimitOptions) :
    (new opts).Bounded ↔ CapFits opts.hardCap ∧ CapFits opts.softLimit := by
  constructor
  · rintro ⟨limit, hardCap, softLimit, -, hhard, hsoft, -⟩
    exact ⟨not_not.mp fun h => scaledFloor_ne_fin h _ hhard,
      not_not.mp fun h => scaledFloor_ne_fin h _ hsoft⟩
  · rintro ⟨hhard, hsoft⟩
    obtain ⟨hardCap, hhardCap, hhardLow⟩ := scaledFloor_of_fits hhard
    obtain ⟨softLimit, hsoftLimit, hsoftLow⟩ := scaledFloor_of_fits hsoft
    refine ⟨max 1000 (min softLimit hardCap), hardCap, softLimit, ?_, hhardCap, hsoftLimit,
      le_max_left _ _, max_le hhardLow (min_le_right _ _), hsoftLow⟩
    simp [new, hhardCap, hsoftLimit, scale]

theorem bounded_resize_iff (h : g.Bounded) : (g.resize x).Bounded ↔ x ≠ .nan := by
  obtain ⟨limit, hardCap, softLimit, hlimit, hhard, hsoft, hlow, hle, hsoftLow⟩ := h
  constructor
  · rintro hbounded rfl
    refine not_bounded_of_nan ?_ hbounded
    simp [resize, Num.mulD, Num.roundD, Num.eqD]
  · intro hne
    obtain ⟨l, hl, hll, hlh⟩ := clamp_roundD (mt mulD_scale_eq_nan_iff.mp hne) (hlow.trans hle)
    unfold resize
    simp only [hhard]
    split
    · exact ⟨limit, hardCap, softLimit, hlimit, hhard, hsoft, hlow, hle, hsoftLow⟩
    · exact ⟨l, hardCap, softLimit, by exact_mod_cast hl, rfl, hsoft, hll, hlh, hsoftLow⟩

/-- What the guard lets through fits, unless it overflows. -/
theorem capFits_failSafe : CapFits (failSafe x) ↔ ∀ q, x = .fin q → ScaleFits q := by
  have hone : ScaleFits 1 := by
    have hbound : (2 : ℚ) ^ 10 ≤ overflowBound := two_pow_le_overflowBound (by norm_num)
    norm_num [ScaleFits] at hbound ⊢
    linarith
  cases x with
  | nan => simpa [failSafe, Num.isFinite, CapFits] using hone
  | negInf => simpa [failSafe, Num.isFinite, CapFits] using hone
  | posInf => simpa [failSafe, Num.isFinite, CapFits] using hone
  | fin q => simp [failSafe, Num.isFinite, CapFits]

/-- The setters take a cap as the constructor does, but for NaN and infinity. -/
theorem scaledFloor_failSafe_iff :
    scaledFloor (failSafe x) = scaledFloor x ↔ x ≠ .nan ∧ x ≠ .posInf := by
  have hunfit : (∀ q, x ≠ .fin q) → ¬ CapFits x → scaledFloor (failSafe x) ≠ scaledFloor x := by
    intro hno hx heq
    obtain ⟨m, hm, -⟩ := scaledFloor_of_fits (capFits_failSafe.mpr fun q hq => absurd hq (hno q))
    exact scaledFloor_ne_fin hx m (heq ▸ hm)
  cases x with
  | nan => simpa using hunfit (by simp) not_false
  | posInf => simpa using hunfit (by simp) not_false
  | negInf => simp [failSafe, Num.isFinite, scaledFloor, Num.floorD, Num.map, Num.max, Num.le]
  | fin q => simp [failSafe, Num.isFinite]

theorem eqD_eq_false {cap : Num ℚ} {n : ℚ} (h : cap ≠ .fin n) : cap.eqD (.fin n) = false := by
  cases cap <;> simp_all [Num.eqD]

theorem lower_eq_min (cap n : Int) :
    (if Num.lt (.fin (cap : ℚ)) (.fin (n : ℚ)) then .fin (cap : ℚ) else .fin (n : ℚ)) =
      Num.fin ((min cap n : Int) : ℚ) := by
  by_cases h : cap < n
  · simp [h, h.le]
  · simp [h, not_lt.mp h]

theorem bounded_setHardCap_iff (h : g.Bounded) :
    (g.setHardCap x).Bounded ↔ ∀ q, x = .fin q → ScaleFits q := by
  rw [← capFits_failSafe]
  obtain ⟨limit, hardCap, softLimit, hlimit, hhard, hsoft, hlow, hle, hsoftLow⟩ := h
  constructor
  · intro hbounded
    refine not_not.mp fun hnot => ?_
    have hcap := scaledFloor_ne_fin hnot
    simp only [setHardCap, hhard, eqD_eq_false (hcap _)] at hbounded
    obtain ⟨_, hardCap', _, _, hhard', _⟩ := hbounded
    exact hcap _ hhard'
  · intro hfits
    obtain ⟨cap, hcap, hcapLow⟩ := scaledFloor_of_fits hfits
    simp only [setHardCap, hcap]
    split
    · exact ⟨limit, hardCap, softLimit, hlimit, hhard, hsoft, hlow, hle, hsoftLow⟩
    · refine ⟨min cap limit, cap, min cap softLimit, ?_, rfl, ?_, le_min hcapLow hlow,
        min_le_left _ _, le_min hcapLow hsoftLow⟩
      · rw [hlimit]
        exact lower_eq_min cap limit
      · rw [hsoft]
        exact lower_eq_min cap softLimit

theorem bounded_setSoftLimit_iff (h : g.Bounded) :
    (g.setSoftLimit x).Bounded ↔ ∀ q, x = .fin q → ScaleFits q := by
  rw [← capFits_failSafe]
  obtain ⟨limit, hardCap, softLimit, hlimit, hhard, hsoft, hlow, hle, hsoftLow⟩ := h
  constructor
  · intro hbounded
    refine not_not.mp fun hnot => ?_
    have hv := scaledFloor_ne_fin hnot
    simp only [setSoftLimit, hsoft, eqD_eq_false (hv _)] at hbounded
    obtain ⟨_, _, softLimit', _, _, hsoft', _⟩ := hbounded
    exact hv _ hsoft'
  · intro hfits
    obtain ⟨v, hv, hvLow⟩ := scaledFloor_of_fits hfits
    simp only [setSoftLimit, hv]
    split
    · exact ⟨limit, hardCap, softLimit, hlimit, hhard, hsoft, hlow, hle, hsoftLow⟩
    · exact ⟨limit, hardCap, v, hlimit, hhard, rfl, hlow, hle, hvLow⟩

theorem bounded_step_iff (h : g.Bounded) {op : LimitOp} : (g.step op).Bounded ↔ op.Fits := by
  cases op with
  | resize newLimit => exact bounded_resize_iff h
  | setHardCap newHardCap => exact bounded_setHardCap_iff h
  | setSoftLimit newSoftLimit => exact bounded_setSoftLimit_iff h
  | reconfigure opts => exact iff_of_true h trivial

/-! ## An idle gate -/

theorem addD_zero_scale : (Num.fin 0).addD scale = .fin 1000 := by
  have h := toDouble_exact (n := 1000) (by norm_num) (by norm_num)
  simpa [Num.addD, scale] using h

/-- Reservations of idle intentions are borrowed. -/
theorem reserved_idle {load : Load} (h : Idle load) (intention : String)
    (effRes : Dict String (Num ℚ)) (keys : List String) :
    keys.foldl (fun (reserved : Num ℚ) k =>
        if k = intention then reserved
        else
          let active := load.activeByIntention.getD k (.fin 0)
          let queued := load.queuedByIntention.getD k (.fin 0)
          if (active.addD queued).eqD (.fin 0) then reserved
          else reserved.addD (Num.max (.fin 0) ((effRes.getD k (.fin 0)).subD active)))
      (.fin 0) = .fin 0 := by
  have hzero : ((Num.fin 0).addD (.fin 0)).eqD (.fin 0) = true := by
    have h := toDouble_exact (n := 0) (by norm_num) (by norm_num)
    have h : toDouble 0 = .fin 0 := by simpa using h
    simp [Num.addD, h, Num.eqD]
  induction keys with
  | nil => rfl
  | cons k keys ih =>
    rw [List.foldl_cons]
    simp only [h.byIntention, h.queued, hzero, if_true, ite_self] at ih ⊢
    exact ih

theorem canGrant_idle_bounded (h : g.Bounded) : g.AdmitsIdle := by
  intro load intention hidle
  obtain ⟨limit, -, -, hlimit, -, -, hlow, -⟩ := h
  have hle : (1000 : ℚ) ≤ limit := by exact_mod_cast hlow
  have hcapacity : ∀ effRes, Num.le (.fin 1000) (g.capacity load intention effRes) = true := by
    intro effRes
    unfold capacity
    rw [reserved_idle hidle, hlimit]
    rcases toDouble_intCast (n := limit) (by omega) with ⟨-, hinf⟩ | ⟨-, m, hm, hmin⟩
    · simp [Num.subD, hinf, Num.le]
    · have hm' : (1000 : ℚ) ≤ m := by
        have : (1000 : Int) ≤ m := by omega
        exact_mod_cast this
      simp [Num.subD, hm, hm']
  unfold canGrant
  simp only [hidle.active, hidle.byIntention, addD_zero_scale, hlimit, Num.lt_fin_fin,
    Num.le_fin_fin, hcapacity, hle, decide_true, ite_self, not_lt.mpr hle, decide_false]
  simp

/-! ## Every run -/

/-- **The limits stay in their bounds, and an idle gate grants a permit,**
exactly in the runs where no cap overflows when it is scaled and `resize` is
not given NaN. -/
theorem limits_bounded_iff (opts : LimitOptions) (ops : List LimitOp) :
    (∀ pre, pre <+: ops →
      (run step (new opts) pre).Bounded ∧ (run step (new opts) pre).AdmitsIdle) ↔
    (CapFits opts.hardCap ∧ CapFits opts.softLimit) ∧ ∀ op ∈ ops, op.Fits := by
  have hrun : ∀ h : (new opts).Bounded, (∀ pre, pre <+: ops → (run step (new opts) pre).Bounded) ↔
      ∀ op ∈ ops, op.Fits := fun h =>
    (throughout_iff_stepsMeet (I := Bounded) (P := fun _ op => op.Fits)
      (fun _ _ _ hbounded => bounded_step_iff hbounded) h).trans stepsMeet_const_iff
  constructor
  · intro h
    have hnew : (new opts).Bounded := (h [] List.nil_prefix).1
    exact ⟨(bounded_new_iff opts).mp hnew, (hrun hnew).mp fun pre hpre => (h pre hpre).1⟩
  · rintro ⟨hopts, hops⟩ pre hpre
    have hbounded := (hrun ((bounded_new_iff opts).mpr hopts)).mpr hops pre hpre
    exact ⟨hbounded, canGrant_idle_bounded hbounded⟩

/-- A gate for two requests. -/
def two : LimitOptions := ⟨.fin 2, .fin 2, .fin 10, .fin 4, .fin 100, none⟩

theorem resize_nan_unbounded :
    ¬ ∀ (opts : LimitOptions) (ops : List LimitOp),
      CapFits opts.hardCap → CapFits opts.softLimit → (run step (new opts) ops).Bounded := by
  intro h
  have hfits : ScaleFits 2 := by decide +kernel
  exact not_bounded_of_nan (by decide +kernel) (h two [.resize .nan] hfits hfits)

end GateLimits

/-! ## The limits of a gate -/

/-- What the operation does to the limits. -/
def Op.limitOp : Op → Option LimitOp
  | .resize newLimit => some (.resize newLimit)
  | .setHardCap newHardCap => some (.setHardCap newHardCap)
  | .setSoftLimit newSoftLimit => some (.setSoftLimit newSoftLimit)
  | _ => none

/-- Nothing is rounded when the number is scaled. -/
def ScalesExactly (q : ℚ) : Prop := ⌊q⌋ ≤ 2 ^ 43

/-- The setters are given numbers that scale exactly, and `resize` whole
ones. -/
def Op.WholeLimit : Op → Prop
  | .resize newLimit => ∃ n : Int, newLimit = .fin n ∧ -2 ^ 43 ≤ n ∧ n ≤ 2 ^ 43
  | .setHardCap newHardCap => ∀ q, newHardCap = .fin q → ScalesExactly q
  | .setSoftLimit newSoftLimit => ∀ q, newSoftLimit = .fin q → ScalesExactly q
  | _ => True

/-- The integers of the semaphore are the limits. -/
structure Agrees (s : Semaphore) (g : GateLimits) : Prop where
  limit : g.limit = s.limit.map fun l : Int => (l : ℚ)
  hardCap : g.hardCap = .fin s.hardCap
  softLimit : g.softLimit = .fin s.softLimit

/-- The limits stay. -/
structure SameLimits (s s' : Semaphore) : Prop where
  limit : s'.limit = s.limit
  hardCap : s'.hardCap = s.hardCap
  softLimit : s'.softLimit = s.softLimit

section Agreement

open GateLimits

variable [ShareRounding] {n : ℕ} {op : Op} {s₀ s s' : Semaphore} {g : GateLimits}

omit [ShareRounding] in
theorem SameLimits.refl (s : Semaphore) : SameLimits s s := ⟨rfl, rfl, rfl⟩

omit [ShareRounding] in
theorem SameLimits.trans {s₁ s₂ s₃ : Semaphore} (h : SameLimits s₁ s₂) (h' : SameLimits s₂ s₃) :
    SameLimits s₁ s₃ :=
  ⟨h'.limit.trans h.limit, h'.hardCap.trans h.hardCap, h'.softLimit.trans h.softLimit⟩

omit [ShareRounding] in
theorem Agrees.congr (h : Agrees s g) (hsame : SameLimits s s') : Agrees s' g :=
  ⟨by rw [hsame.limit]; exact h.limit, by rw [hsame.hardCap]; exact h.hardCap,
    by rw [hsame.softLimit]; exact h.softLimit⟩

/-- Only the setters change a limit. -/
theorem Move.sameLimits (hop : op.limitOp = none) (hm : Move n op s₀ s s') : SameLimits s s' := by
  cases hm with
  | note _ => exact ⟨rfl, rfl, rfl⟩
  | grantWaiter _ _ _ _ =>
    constructor <;> simp only [Semaphore.grantWaiter, Semaphore.grant_fst, Semaphore.decQueued_eq]
  | grantThrown _ _ _ _ _ _ =>
    constructor <;> simp only [Semaphore.grantWaiter, Semaphore.grant_fst, Semaphore.decQueued_eq]
  | leave _ _ _ _ => constructor <;> simp only [Semaphore.leave, Semaphore.decQueued_eq]
  | @release now id _ =>
    rcases s.release_cases now id with heq | ⟨p, timer, -, -, heq⟩
    · rw [heq]
      exact .refl s
    · rw [heq]
      exact ⟨rfl, rfl, rfl⟩
  | applyReleases _ =>
    obtain ⟨a, d, es, -, heq⟩ := s.applyReleases_eq
    rw [heq]
    exact ⟨rfl, rfl, rfl⟩
  | resize h => simp [h, Op.limitOp] at hop
  | setHardCap h => simp [h, Op.limitOp] at hop
  | setSoftLimit h => simp [h, Op.limitOp] at hop
  | @reconfigure opts _ =>
    simp only [Semaphore.reconfigure]
    split
    · exact ⟨rfl, rfl, rfl⟩
    · exact ⟨rfl, rfl, rfl⟩
  | shutdown _ =>
    obtain ⟨q, es, -, heq⟩ := s.shutdown_eq
    rw [heq]
    exact ⟨rfl, rfl, rfl⟩

theorem Intake.sameLimits {opts : AcquireOptions} (hin : Intake n opts s s') : SameLimits s s' := by
  cases hin with
  | grant _ _ _ _ => constructor <;> simp only [Semaphore.grant_fst]
  | enqueue _ _ _ _ henq =>
    obtain ⟨-, rfl⟩ := Semaphore.enqueue_eq henq
    exact ⟨rfl, rfl, rfl⟩

/-- Draining the queue is no setter. -/
theorem drainWaiters_sameLimits (s : Semaphore) : SameLimits s s.drainWaiters.1 :=
  (drainWaiters_moves (n := 0) (show Op.Drains .cooldownExpiry from trivial) rfl).invariant
    (I := SameLimits s) (fun _ _ h hm => h.trans (hm.sameLimits rfl)) (.refl s)

theorem step_sameLimits (g : Gate) (hop : op.limitOp = none) :
    SameLimits g.semaphore (g.step op).semaphore := by
  refine step_invariant (I := fun _ s => SameLimits g.semaphore s) ?_ (fun _ h => h) ?_ (.refl _)
  · intro _ _ _ _ h hm
    exact h.trans (hm.sameLimits hop)
  · intro _ _ _ _ h hin
    exact h.trans hin.sameLimits

/-! ### The setters -/

omit [ShareRounding] in
theorem toDouble_scaled {n : Int} (hlo : -2 ^ 43 ≤ n) (hhi : n ≤ 2 ^ 43) :
    (Num.fin (n : ℚ)).mulD scale = .fin ((n * 1000 : Int) : ℚ) := by
  have h := toDouble_exact (n := n * 1000) (by omega) (by omega)
  rw [← h]
  simp [Num.mulD, scale]

omit [ShareRounding] in
theorem scaledFloor_eq_scaledCap {x : Num ℚ} (h : ∀ q, x = .fin q → ScalesExactly q) :
    scaledFloor (failSafe x) = .fin (Semaphore.scaledCap x) := by
  have hcap : ∀ q, ScalesExactly q →
      scaledFloor (.fin q) = .fin ((max 1 ⌊q⌋ * SCALE : Int) : ℚ) := by
    intro q hq
    rw [scaledFloor_fin]
    exact toDouble_scaled (le_trans (by norm_num) (le_max_left 1 ⌊q⌋)) (max_le (by norm_num) hq)
  have hone : ScalesExactly 1 := by norm_num [ScalesExactly]
  cases x with
  | nan => exact hcap 1 hone
  | negInf => exact hcap 1 hone
  | posInf => exact hcap 1 hone
  | fin q => exact hcap q (h q rfl)

omit [ShareRounding] in
theorem eqD_fin (a b : Int) : (Num.fin (a : ℚ)).eqD (.fin b) = decide (a = b) := by
  simp [Num.eqD]

omit [ShareRounding] in
/-- The clamped limit of the semaphore is the one of the doubles. -/
theorem clampLimit_agrees (h : Agrees s g) {n : Int} (hlo : -2 ^ 43 ≤ n) (hhi : n ≤ 2 ^ 43) :
    Num.max scale (Num.min ((Num.fin (n : ℚ)).mulD scale).roundD g.hardCap) =
      (s.clampLimit (.fin n)).map fun l : Int => (l : ℚ) := by
  have hfloor : ⌊((n * 1000 : Int) : ℚ) + 1 / 2⌋ = n * 1000 := by
    rw [Int.floor_intCast_add]
    norm_num
  have hround : roundNum ((n : ℚ) * SCALE) = n * 1000 := by
    rw [← hfloor]
    show ⌊(n : ℚ) * SCALE + 1 / 2⌋ = _
    push_cast [SCALE]
    rfl
  rw [toDouble_scaled hlo hhi, h.hardCap]
  simp only [Semaphore.clampLimit, Num.roundD, Num.map_fin, hround, hfloor, Num.min_fin_fin, scale,
    Num.max_fin_fin]
  push_cast [SCALE]
  rfl

theorem agrees_resize (h : Agrees s g) {n : Int} (hlo : -2 ^ 43 ≤ n) (hhi : n ≤ 2 ^ 43) :
    Agrees (s.resize (.fin n)).1 (g.resize (.fin n)) := by
  have hlimits : SameLimits { s with limit := s.clampLimit (.fin n) } (s.resize (.fin n)).1 := by
    simp only [Semaphore.resize]
    split
    · rename_i hsame
      exact ⟨hsame.1.symm, rfl, rfl⟩
    · exact drainWaiters_sameLimits _
  refine Agrees.congr ?_ hlimits
  unfold GateLimits.resize
  simp only
  rw [clampLimit_agrees h hlo hhi]
  split
  · rename_i hsame
    exact ⟨(Num.eq_of_eqD hsame).symm, h.hardCap, h.softLimit⟩
  · exact ⟨rfl, h.hardCap, h.softLimit⟩

theorem agrees_setHardCap (h : Agrees s g) {x : Num ℚ} (hx : ∀ q, x = .fin q → ScalesExactly q) :
    Agrees (s.setHardCap x).1 (g.setHardCap x) := by
  simp only [Semaphore.setHardCap, GateLimits.setHardCap, scaledFloor_eq_scaledCap hx, h.hardCap,
    eqD_fin]
  by_cases hcap : Semaphore.scaledCap x = s.hardCap
  · simp only [hcap, decide_true, if_true]
    exact h
  · have hsoft : (if Num.lt (.fin (Semaphore.scaledCap x : ℚ)) g.softLimit then
        .fin (Semaphore.scaledCap x : ℚ) else g.softLimit) =
        Num.fin ((if s.softLimit > Semaphore.scaledCap x then Semaphore.scaledCap x
          else s.softLimit : Int) : ℚ) := by
      rw [h.softLimit, Num.lt_fin_fin]
      by_cases hlt : Semaphore.scaledCap x < s.softLimit
      · simp [hlt]
      · simp [hlt]
    have hlimit : (if Num.lt (.fin (Semaphore.scaledCap x : ℚ)) g.limit then
        .fin (Semaphore.scaledCap x : ℚ) else g.limit) =
        (if Num.lt (.fin (Semaphore.scaledCap x)) s.limit then .fin (Semaphore.scaledCap x)
          else s.limit).map fun l : Int => (l : ℚ) := by
      rw [h.limit]
      cases s.limit with
      | nan => simp [Num.map]
      | negInf => simp [Num.map, Num.lt]
      | posInf => simp [Num.map, Num.lt]
      | fin l =>
        by_cases hlt : Semaphore.scaledCap x < l
        · simp [hlt]
        · simp [hlt]
    simp only [hcap, decide_false, if_false, Bool.false_eq_true]
    split
    · rename_i hlt
      rw [if_pos hlt] at hlimit
      exact Agrees.congr ⟨hlimit, rfl, hsoft⟩ (drainWaiters_sameLimits _)
    · rename_i hlt
      rw [if_neg hlt] at hlimit
      exact ⟨hlimit, rfl, hsoft⟩

omit [ShareRounding] in
theorem agrees_setSoftLimit (h : Agrees s g) {x : Num ℚ}
    (hx : ∀ q, x = .fin q → ScalesExactly q) :
    Agrees (s.setSoftLimit x).1 (g.setSoftLimit x) := by
  simp only [Semaphore.setSoftLimit, GateLimits.setSoftLimit, scaledFloor_eq_scaledCap hx,
    h.softLimit, eqD_fin]
  by_cases hv : Semaphore.scaledCap x = s.softLimit
  · simp only [hv, decide_true, if_true]
    exact h
  · simp only [hv, decide_false, if_false, Bool.false_eq_true]
    exact ⟨h.limit, h.hardCap, rfl⟩

omit [ShareRounding] in
theorem afterSetter_sameLimits (g : Gate) (r : Semaphore × Bool) :
    SameLimits r.1 (g.afterSetter r).semaphore := by
  unfold Gate.afterSetter
  split
  · exact ⟨rfl, rfl, rfl⟩
  · exact ⟨rfl, rfl, rfl⟩

/-- What an operation of the gate does to the limits. -/
theorem agrees_step {gate : Gate} (h : Agrees gate.semaphore g) (hop : op.WholeLimit) :
    Agrees (gate.step op).semaphore (op.limitOp.elim g g.step) := by
  cases op with
  | resize newLimit =>
    obtain ⟨n, rfl, hlo, hhi⟩ := hop
    exact (agrees_resize h hlo hhi).congr (afterSetter_sameLimits gate _)
  | setHardCap newHardCap => exact (agrees_setHardCap h hop).congr (afterSetter_sameLimits gate _)
  | setSoftLimit newSoftLimit =>
    exact (agrees_setSoftLimit h hop).congr (afterSetter_sameLimits gate _)
  | _ => exact h.congr (step_sameLimits gate rfl)

/-- The options of a gate, as the limits read them. -/
def ConcurrencyGateOptions.limits (opts : ConcurrencyGateOptions) : LimitOptions where
  hardCap := .fin opts.hardCap
  softLimit := .fin opts.softLimit
  releaseCooldownMs := .fin opts.releaseCooldownMs
  maxQueueDepth := .fin opts.maxQueueDepth
  queueTimeoutMs := .fin opts.queueTimeoutMs
  intentions := opts.intentions.map fun src => src.mapVals .fin

omit [ShareRounding] in
theorem agrees_new {opts : ConcurrencyGateOptions} (hhard : ScalesExactly opts.hardCap)
    (hsoft : ScalesExactly opts.softLimit) :
    Agrees (Semaphore.new opts) (GateLimits.new opts.limits) := by
  have hcap : ∀ q, ScalesExactly q →
      scaledFloor (.fin q) = .fin ((max 1 (floorNum q) * SCALE : Int) : ℚ) := fun q hq =>
    scaledFloor_eq_scaledCap (x := .fin q) fun _ heq => Num.fin.inj heq ▸ hq
  constructor
  · simp only [GateLimits.new, ConcurrencyGateOptions.limits, hcap _ hhard, hcap _ hsoft, scale,
      Num.min_fin_fin, Num.max_fin_fin, Semaphore.new, Num.map_fin]
    push_cast [SCALE]
    rfl
  · exact hcap _ hhard
  · exact hcap _ hsoft

theorem agrees_run {gate : Gate} {g : GateLimits} (h : Agrees gate.semaphore g) {ops : List Op}
    (hops : ∀ op ∈ ops, op.WholeLimit) :
    Agrees (Lib.run Gate.step gate ops).semaphore
      (Lib.run GateLimits.step g (ops.filterMap Op.limitOp)) := by
  induction ops generalizing gate g with
  | nil => exact h
  | cons op ops ih =>
    obtain ⟨hop, hops⟩ := List.forall_mem_cons.mp hops
    have hrest := ih (agrees_step h hop) hops
    rw [run_cons, List.filterMap_cons]
    cases hlimit : op.limitOp with
    | none => simpa [hlimit] using hrest
    | some o => simpa [hlimit] using hrest

/-- The limits of a gate that is given whole numbers of ordinary size are
those of its setters alone. -/
theorem agrees_after {opts : ConcurrencyGateOptions} (hhard : ScalesExactly opts.hardCap)
    (hsoft : ScalesExactly opts.softLimit) {ops : List Op} (hops : ∀ op ∈ ops, op.WholeLimit) :
    Agrees (Gate.after opts ops).semaphore
      (Lib.run GateLimits.step (.new opts.limits) (ops.filterMap Op.limitOp)) := by
  exact agrees_run (agrees_new hhard hsoft) hops

end Agreement

end UmansGate.Limiter
