/-
UmansGate.Auth.GuessTheorems — how often a token can be guessed.

Every guard asks for the lockout first, and compares and records only after
it, so the limiter knows all failures of the window before the request
(`Keeps`). One that is recorded saw fewer than the limit of them, and a
request that comes while the limit is in its window sees all of it.
-/
import Mathlib.Tactic.Linarith
import UmansGate.Auth.AuthFailureLimiter

namespace UmansGate.Auth

open UmansGate.Lib

/-- The times lie in a window. -/
def inWindow (windowMs start t : ℚ) : Bool := decide (start ≤ t ∧ t ≤ start + windowMs)

/-- Nothing came later than now. -/
def Until (last : Option ℚ) (now : ℚ) : Prop := ∀ t ∈ last, t ≤ now

theorem Until.trans {last : Option ℚ} {now now' : ℚ} (h : Until last now) (hle : now ≤ now') :
    Until last now' :=
  fun t ht => (h t ht).trans hle

theorem until_some {now now' : ℚ} : Until (some now) now' ↔ now ≤ now' := by
  simp [Until]

/-- Among times in their order the first that are too old are all of them. -/
theorem dropWhile_eq_filter {times : List ℚ} (h : times.Pairwise (· ≤ ·)) (cutoff : ℚ) :
    (times.dropWhile fun t => ! decide (t ≥ cutoff)) =
      times.filter fun t => decide (cutoff ≤ t) := by
  induction times with
  | nil => rfl
  | cons t times ih =>
    obtain ⟨hfirst, hrest⟩ := List.pairwise_cons.mp h
    by_cases hkept : cutoff ≤ t
    · have hall : ∀ x ∈ t :: times, decide (cutoff ≤ x) = true := by
        intro x hx
        rw [decide_eq_true_eq]
        rcases List.mem_cons.mp hx with rfl | hx
        · exact hkept
        · exact hkept.trans (hfirst x hx)
      rw [List.filter_eq_self.mpr hall, List.dropWhile_cons_of_neg (by simpa using hkept)]
    · rw [List.dropWhile_cons_of_pos (by simpa using hkept),
        List.filter_cons_of_neg (by simpa using hkept), ih hrest]

namespace AuthFailureLimiter

variable {l : AuthFailureLimiter} {now now' : ℚ}

/-- The slice from the first time that is not too old. -/
theorem prune_eq (l : AuthFailureLimiter) (now : ℚ) :
    l.prune now = { l with
      failures := l.failures.dropWhile fun t => ! decide (t ≥ now - l.windowMs) } := by
  have hslice : (l.failures.dropWhile fun t => ! decide (t ≥ now - l.windowMs)) =
      l.failures.drop (l.failures.findIdx fun t => decide (t ≥ now - l.windowMs)) := by
    rw [List.dropWhile_eq_drop_findIdx_not]
    simp only [Bool.not_not]
  rw [hslice]
  unfold prune
  simp only
  split
  · rename_i hnone
    rw [List.findIdx_eq_length_of_false (List.findIdx?_eq_none_iff.mp hnone), List.drop_length]
  · rename_i idx hsome
    obtain ⟨-, hidx⟩ := List.findIdx?_eq_some_iff_findIdx_eq.mp hsome
    rw [hidx]
    split
    · rfl
    · have hzero : idx = 0 := by omega
      rw [hzero, List.drop_zero]

/-- What pruning keeps of times in their order. -/
theorem failures_prune (hsorted : l.failures.Pairwise (· ≤ ·)) (now : ℚ) :
    (l.prune now).failures = l.failures.filter fun t => decide (now - l.windowMs ≤ t) := by
  rw [prune_eq]
  exact dropWhile_eq_filter hsorted _

@[simp] theorem windowMs_prune (l : AuthFailureLimiter) (now : ℚ) :
    (l.prune now).windowMs = l.windowMs := by
  rw [prune_eq]

@[simp] theorem maxFailures_prune (l : AuthFailureLimiter) (now : ℚ) :
    (l.prune now).maxFailures = l.maxFailures := by
  rw [prune_eq]

/-- The limiter knows the failures since the last success that are not too
old, and no window holds more of them than it allows. -/
structure Keeps (l : AuthFailureLimiter) (since : List ℚ) (last : Option ℚ) : Prop where
  sorted : l.failures.Pairwise (· ≤ ·)
  past : ∀ now, Until last now → ∀ t ∈ since, t ≤ now
  retained : ∀ now, Until last now →
    (l.prune now).failures = since.filter fun t => decide (now - l.windowMs ≤ t)
  bounded : ∀ start, since.countP (inWindow l.windowMs start) ≤ l.maxFailures

variable {since : List ℚ} {last : Option ℚ}

theorem keeps_new (maxFailures : ℕ) (windowSeconds : ℚ) (last : Option ℚ) :
    Keeps (new maxFailures windowSeconds) [] last where
  sorted := List.Pairwise.nil
  past := by simp
  retained := fun _ _ => rfl
  bounded := by simp

/-- Time goes on. -/
theorem Keeps.wait (h : Keeps l since last) (hlast : Until last now) : Keeps l since (some now) where
  sorted := h.sorted
  past := fun _ hnow => h.past _ (hlast.trans (until_some.mp hnow))
  retained := fun _ hnow => h.retained _ (hlast.trans (until_some.mp hnow))
  bounded := h.bounded

theorem Keeps.prune (h : Keeps l since last) (hlast : Until last now) :
    Keeps (l.prune now) since (some now) where
  sorted := by
    rw [failures_prune h.sorted]
    exact h.sorted.filter _
  past := (h.wait hlast).past
  retained := fun later hlater => by
    have hle : now ≤ later := hlater now rfl
    have hpruned : (l.prune now).failures.Pairwise (· ≤ ·) := by
      rw [failures_prune h.sorted]
      exact h.sorted.filter _
    rw [failures_prune hpruned, h.retained now hlast, windowMs_prune, List.filter_filter]
    refine List.filter_congr fun t _ => ?_
    by_cases hin : later - l.windowMs ≤ t
    · have hin' : now - l.windowMs ≤ t := by linarith
      simp [hin, hin']
    · simp [hin]
  bounded := by
    rw [windowMs_prune, maxFailures_prune]
    exact h.bounded

theorem keeps_reset (l : AuthFailureLimiter) (last : Option ℚ) : Keeps l.reset [] last where
  sorted := List.Pairwise.nil
  past := by simp
  retained := fun _ _ => rfl
  bounded := by simp

theorem isLockedOut_iff (h : Keeps l since last) (hlast : Until last now) :
    (l.isLockedOut now).1 = true ↔
      l.maxFailures ≤ since.countP fun t => decide (now - l.windowMs ≤ t) := by
  simp only [isLockedOut, decide_eq_true_eq, maxFailures_prune, h.retained now hlast, ge_iff_le,
    List.countP_eq_length_filter]

/-- A failure that finds fewer than the limiter allows is recorded. -/
theorem Keeps.recordFailure (h : Keeps l since (some now))
    (hcount : (since.countP fun t => decide (now - l.windowMs ≤ t)) < l.maxFailures) :
    Keeps (l.recordFailure now) (since ++ [now]) (some now) := by
  have hpruned := h.prune (until_some.mpr le_rfl)
  have hearlier : ∀ t ∈ since, t ≤ now := h.past now (until_some.mpr le_rfl)
  have hfailures : (l.recordFailure now).failures = (l.prune now).failures ++ [now] := rfl
  have hkept : (l.prune now).failures = since.filter fun t => decide (now - l.windowMs ≤ t) :=
    h.retained now (until_some.mpr le_rfl)
  have hwindow : (l.recordFailure now).windowMs = l.windowMs := windowMs_prune l now
  have hsorted : (l.recordFailure now).failures.Pairwise (· ≤ ·) := by
    rw [hfailures]
    refine List.pairwise_append.mpr ⟨hpruned.sorted, List.pairwise_singleton _ _, ?_⟩
    intro t ht t' ht'
    rw [List.mem_singleton.mp ht']
    rw [hkept] at ht
    exact hearlier t (List.mem_filter.mp ht).1
  constructor
  · exact hsorted
  · intro now' hnow t ht
    rcases List.mem_append.mp ht with ht | ht
    · exact h.past now' hnow t ht
    · rw [List.mem_singleton.mp ht]
      exact until_some.mp hnow
  · intro now' hnow
    have hle := until_some.mp hnow
    rw [failures_prune hsorted, hfailures, hkept, hwindow, List.filter_append, List.filter_append,
      List.filter_filter]
    congr 1
    refine List.filter_congr fun t _ => ?_
    by_cases hin : now' - l.windowMs ≤ t
    · have hin' : now - l.windowMs ≤ t := by linarith
      simp [hin, hin']
    · simp [hin]
  · intro start
    rw [hwindow, List.countP_append]
    have hmax : (l.recordFailure now).maxFailures = l.maxFailures := maxFailures_prune l now
    rw [hmax]
    cases hin : inWindow l.windowMs start now with
    | false =>
      have hnone : [now].countP (inWindow l.windowMs start) = 0 := by simp [hin]
      rw [hnone]
      exact h.bounded start
    | true =>
      -- the others of the window are not too old for the failure that is recorded
      have hothers : since.countP (inWindow l.windowMs start) ≤
          since.countP fun t => decide (now - l.windowMs ≤ t) := by
        refine List.countP_mono_left fun t _ ht => ?_
        simp only [inWindow, decide_eq_true_eq] at ht hin ⊢
        linarith [ht.1, hin.2]
      have hone : [now].countP (inWindow l.windowMs start) = 1 := by simp [hin]
      rw [hone]
      omega

/-- In a window that holds as many failures as the limiter allows, it is
locked. -/
theorem Keeps.locked (h : Keeps l since last) (hlast : Until last now) {start : ℚ}
    (hfull : l.maxFailures ≤ since.countP (inWindow l.windowMs start))
    (hin : now ≤ start + l.windowMs) : (l.isLockedOut now).1 = true := by
  rw [isLockedOut_iff h hlast]
  refine hfull.trans (List.countP_mono_left fun t _ ht => ?_)
  simp only [inWindow, decide_eq_true_eq] at ht ⊢
  linarith [ht.1]

end AuthFailureLimiter

/-- The token was compared and is right. -/
def Outcome.authenticated (o : Outcome) : Bool :=
  match o.reply with
  | .accepted _ => ! o.compared.isEmpty
  | _ => false

/-- The times of the attempts that were answered as unauthorized. -/
def failuresOf (served : List (Request × Outcome)) : List ℚ :=
  (served.filter fun e => decide (e.2.reply = .unauthorized)).map (·.1.recordedAt)

namespace Server

variable {s : Server} {req : Request} {l : AuthFailureLimiter}

/-- Without a token the guards let every request pass. -/
theorem guarded_of_none (h : given s.dashboardToken = none) (req : Request) (endpoint : Endpoint)
    (presented : String → Option (String × String)) :
    s.guarded req endpoint presented = (⟨.accepted endpoint, []⟩, s) := by
  simp only [guarded, h]

/-- What happens to a request: it meets the guard of one endpoint, or none
and nothing is compared. The first are attempts if there is a token. -/
theorem dispatch_cases (s : Server) (req : Request) :
    (s.attempts req = (given s.dashboardToken).isSome ∧
      ∃ endpoint presented, s.dispatch req = s.guarded req endpoint presented) ∨
    (s.attempts req = false ∧ ∃ reply, s.dispatch req = (⟨reply, []⟩, s) ∧ reply ≠ .unauthorized) := by
  unfold attempts dispatch
  split
  · unfold upgrade
    split
    · rename_i hforeign
      exact .inr ⟨by simp [hforeign], .forbidden, rfl, by simp⟩
    · rename_i hlocal
      exact .inl ⟨by simp [hlocal], _, _, rfl⟩
  · split
    · exact .inr ⟨by simp, .crossOriginForbidden, rfl, by simp⟩
    · split
      · unfold handleViewer
        split
        · rename_i hapi
          exact .inl ⟨by simp [hapi], _, _, rfl⟩
        · rename_i hpage
          exact .inr ⟨by simp [hpage], .accepted .viewer, rfl, by simp⟩
      · split
        · rename_i hhealth
          refine .inl ⟨?_, _, _, rfl⟩
          rw [Bool.and_eq_true] at hhealth
          simp [hhealth.1, hhealth.2]
        · split
          · rename_i hmetrics
            refine .inl ⟨?_, _, _, rfl⟩
            rw [Bool.and_eq_true] at hmetrics
            simp [hmetrics.1, hmetrics.2]
          · rename_i hhealth hmetrics
            refine .inr ⟨?_, .accepted .proxy, rfl, by simp⟩
            rw [Bool.and_or_distrib_right, Bool.eq_false_iff.mpr hhealth,
              Bool.eq_false_iff.mpr hmetrics]
            simp

/-- The limiter of a server that has a token keeps the failures. -/
def Tracks (maxFailures : ℕ) (windowMs : ℚ) (s : Server) (since : List ℚ) (last : Option ℚ) :
    Prop :=
  (given s.dashboardToken).isSome = true ∧ ∃ l, s.authFailureLimiter = some l ∧
    l.maxFailures = maxFailures ∧ l.windowMs = windowMs ∧ l.Keeps since last

variable {maxFailures : ℕ} {windowMs : ℚ} {since : List ℚ} {last : Option ℚ} {endpoint : Endpoint}
  {presented : String → Option (String × String)}

theorem guarded_of_locked (htoken : (given s.dashboardToken).isSome = true)
    (hl : s.authFailureLimiter = some l) (hlocked : (l.isLockedOut req.checkedAt).1 = true) :
    s.guarded req endpoint presented = (⟨.tooManyAttempts, []⟩,
      { s with authFailureLimiter := some (l.prune req.checkedAt) }) := by
  obtain ⟨token, htoken⟩ := Option.isSome_iff_exists.mp htoken
  simp only [guarded, htoken, hl, Option.map_some, Option.getD_some, hlocked, if_true]
  rfl

theorem guarded_of_unlocked {token : String} (htoken : given s.dashboardToken = some token)
    (hl : s.authFailureLimiter = some l) (hlocked : (l.isLockedOut req.checkedAt).1 = false) :
    s.guarded req endpoint presented =
      if (presented token).toList.any fun (a, b) => tokensEqual a b then
        (⟨.accepted endpoint, (presented token).toList⟩,
          { s with authFailureLimiter := some (l.prune req.checkedAt).reset })
      else
        (⟨.unauthorized, (presented token).toList⟩, { s with
          authFailureLimiter := some ((l.prune req.checkedAt).recordFailure req.recordedAt) }) := by
  simp only [guarded, htoken, hl, Option.map_some, Option.getD_some, hlocked]
  rfl

/-- A guard keeps track of what it answers. -/
theorem guarded_tracks (h : Tracks maxFailures windowMs s since last)
    (hlast : Until last req.checkedAt) (hle : req.checkedAt ≤ req.recordedAt) :
    ∃ since', Tracks maxFailures windowMs (s.guarded req endpoint presented).2 since'
        (some req.recordedAt) ∧
      ((s.guarded req endpoint presented).1.authenticated = false →
        since' = since ++ failuresOf [(req, (s.guarded req endpoint presented).1)]) := by
  obtain ⟨htoken, l, hl, hmax, hwindow, hkeeps⟩ := h
  have hwait := (hkeeps.prune hlast).wait (until_some.mpr hle)
  have hmax' : (l.prune req.checkedAt).maxFailures = maxFailures := by simpa using hmax
  have hwindow' : (l.prune req.checkedAt).windowMs = windowMs := by simpa using hwindow
  cases hlocked : (l.isLockedOut req.checkedAt).1 with
  | true =>
    rw [guarded_of_locked htoken hl hlocked]
    refine ⟨since, ⟨htoken, _, rfl, hmax', hwindow', hwait⟩, fun _ => ?_⟩
    simp [failuresOf]
  | false =>
    obtain ⟨token, htoken'⟩ := Option.isSome_iff_exists.mp htoken
    rw [guarded_of_unlocked htoken' hl hlocked]
    split
    · rename_i hright
      refine ⟨[], ⟨htoken, _, rfl, hmax', hwindow', AuthFailureLimiter.keeps_reset _ _⟩,
        fun hauth => ?_⟩
      simp only [Outcome.authenticated, Bool.not_eq_false'] at hauth
      rw [List.isEmpty_iff.mp hauth] at hright
      cases hright
    · have hopen : (since.countP fun t => decide
          (req.recordedAt - (l.prune req.checkedAt).windowMs ≤ t)) <
          (l.prune req.checkedAt).maxFailures := by
        have hfew : (since.countP fun t => decide (req.checkedAt - l.windowMs ≤ t)) <
            l.maxFailures := by
          rw [← not_le, ← AuthFailureLimiter.isLockedOut_iff hkeeps hlast, hlocked]
          exact Bool.false_ne_true
        refine lt_of_le_of_lt (List.countP_mono_left fun t _ ht => ?_) (hfew.trans_eq (by simp))
        simp only [decide_eq_true_eq, AuthFailureLimiter.windowMs_prune] at ht ⊢
        linarith
      refine ⟨since ++ [req.recordedAt], ⟨htoken, _, rfl, ?_, ?_, hwait.recordFailure hopen⟩,
        fun _ => rfl⟩
      · simpa [AuthFailureLimiter.recordFailure] using hmax
      · simpa [AuthFailureLimiter.recordFailure] using hwindow

/-- Every request leaves the failures kept. -/
theorem dispatch_tracks (h : Tracks maxFailures windowMs s since last)
    (hlast : Until last req.checkedAt) (hle : req.checkedAt ≤ req.recordedAt) :
    ∃ since', Tracks maxFailures windowMs (s.dispatch req).2 since' (some req.recordedAt) ∧
      ((s.dispatch req).1.authenticated = false →
        since' = since ++ failuresOf [(req, (s.dispatch req).1)]) := by
  rcases dispatch_cases s req with ⟨-, endpoint, presented, heq⟩ | ⟨-, reply, heq, hreply⟩
  · rw [heq]
    exact guarded_tracks h hlast hle
  · rw [heq]
    obtain ⟨htoken, l, hl, hmax, hwindow, hkeeps⟩ := h
    refine ⟨since, ⟨htoken, l, hl, hmax, hwindow, hkeeps.wait (hlast.trans hle)⟩, fun _ => ?_⟩
    simp [failuresOf, hreply]

/-- Each request asks for the lockout after the one before it was recorded. -/
def InOrder : Option ℚ → List Request → Prop
  | _, [] => True
  | last, req :: reqs => Until last req.checkedAt ∧ req.checkedAt ≤ req.recordedAt ∧
      InOrder (some req.recordedAt) reqs

instance : ∀ last reqs, Decidable (InOrder last reqs)
  | _, [] => .isTrue trivial
  | last, req :: reqs =>
      haveI : Decidable (Until last req.checkedAt) :=
        inferInstanceAs (Decidable (∀ t ∈ last, t ≤ req.checkedAt))
      haveI := instDecidableInOrder (some req.recordedAt) reqs
      inferInstanceAs (Decidable (Until last req.checkedAt ∧ req.checkedAt ≤ req.recordedAt ∧
        InOrder (some req.recordedAt) reqs))

/-- When the last of the requests was recorded. -/
def lastOf : Option ℚ → List Request → Option ℚ
  | last, [] => last
  | _, req :: reqs => lastOf (some req.recordedAt) reqs

theorem inOrder_append {reqs reqs' : List Request} {last : Option ℚ} :
    InOrder last (reqs ++ reqs') ↔ InOrder last reqs ∧ InOrder (lastOf last reqs) reqs' := by
  induction reqs generalizing last with
  | nil => simp [InOrder, lastOf]
  | cons req reqs ih => simp [InOrder, lastOf, ih, and_assoc]

/-- A run leaves the failures kept, and without a success adds those that it
answered. -/
theorem after_tracks {reqs : List Request} (h : Tracks maxFailures windowMs s since last)
    (horder : InOrder last reqs) :
    ∃ since', Tracks maxFailures windowMs (s.after reqs) since' (lastOf last reqs) ∧
      ((∀ e ∈ s.serve reqs, e.2.authenticated = false) →
        since' = since ++ failuresOf (s.serve reqs)) := by
  induction reqs generalizing s since last with
  | nil => exact ⟨since, h, fun _ => by simp [serve, failuresOf]⟩
  | cons req reqs ih =>
    obtain ⟨hlast, hle, horder⟩ := horder
    obtain ⟨since₁, hnext, hadds⟩ := dispatch_tracks h hlast hle
    obtain ⟨since₂, hend, hmore⟩ := ih hnext horder
    refine ⟨since₂, hend, fun hfailed => ?_⟩
    have hfirst := hadds (hfailed _ List.mem_cons_self)
    have hrest := hmore fun e he => hfailed e (List.mem_cons_of_mem _ he)
    have hserve : failuresOf (s.serve (req :: reqs)) =
        failuresOf [(req, (s.dispatch req).1)] ++ failuresOf ((s.dispatch req).2.serve reqs) := by
      simp only [failuresOf, serve, ← List.map_append, ← List.filter_append, List.singleton_append]
    rw [hrest, hfirst, hserve, List.append_assoc]

theorem start_tracks {viewerPrefix : String} {port : ℕ} {token : Option String}
    {windowSeconds : ℚ} (htoken : (given token).isSome = true) :
    Tracks maxFailures (windowSeconds * 1000)
      (start viewerPrefix port token maxFailures windowSeconds) [] none := by
  obtain ⟨t, ht⟩ := Option.isSome_iff_exists.mp htoken
  refine ⟨htoken, .new maxFailures windowSeconds, ?_, rfl, rfl, AuthFailureLimiter.keeps_new _ _ _⟩
  simp [start, ht]

/-- Without a token nothing is answered as unauthorized. -/
theorem serve_of_none {reqs : List Request} (h : given s.dashboardToken = none) :
    s.after reqs = s ∧ failuresOf (s.serve reqs) = [] := by
  induction reqs with
  | nil => exact ⟨rfl, rfl⟩
  | cons req reqs ih =>
    obtain ⟨reply, heq, hreply⟩ : ∃ reply, s.dispatch req = (⟨reply, []⟩, s) ∧
        reply ≠ .unauthorized := by
      rcases dispatch_cases s req with ⟨-, endpoint, presented, heq⟩ | ⟨-, heq⟩
      · rw [guarded_of_none h] at heq
        exact ⟨_, heq, by simp⟩
      · exact heq
    have hnext : (s.dispatch req).2 = s := by rw [heq]
    constructor
    · show (s.dispatch req).2.after reqs = s
      rw [hnext]
      exact ih.1
    · rw [serve, hnext, heq]
      simpa [failuresOf, hreply] using ih.2

/-- **The guesses are bounded.** In every run of requests over the guarded
endpoints, over any stretch of it without a successful authentication, no
window has more attempts that are answered as unauthorized than the limiter
allows; and when a window has that many, every attempt that still comes in it
is refused, and nothing is compared for it. -/
theorem guesses_bounded {viewerPrefix : String} {port : ℕ} {token : Option String}
    {maxFailures : ℕ} {windowSeconds : ℚ} {before between : List Request}
    (horder : InOrder none (before ++ between))
    (hfailed : ∀ e ∈ ((start viewerPrefix port token maxFailures windowSeconds).after before).serve
      between, e.2.authenticated = false) (first : ℚ) :
    let s := (start viewerPrefix port token maxFailures windowSeconds).after before
    let failures := (failuresOf (s.serve between)).countP (inWindow (windowSeconds * 1000) first)
    failures ≤ maxFailures ∧
      (failures = maxFailures → ∀ req, InOrder none (before ++ between ++ [req]) →
        (s.after between).attempts req = true → req.checkedAt ≤ first + windowSeconds * 1000 →
          ((s.after between).dispatch req).1 = ⟨.tooManyAttempts, []⟩) := by
  intro s failures
  cases htoken : given token with
  | none =>
    have hnone : given (start viewerPrefix port token maxFailures windowSeconds).dashboardToken =
        none := htoken
    have hsame : s = start viewerPrefix port token maxFailures windowSeconds :=
      (serve_of_none hnone).1
    rw [← hsame] at hnone
    have hzero : failures = 0 := by simp only [failures, (serve_of_none hnone).2, List.countP_nil]
    rw [hzero, (serve_of_none hnone).1]
    refine ⟨Nat.zero_le _, fun _ req _ hattempt _ => ?_⟩
    simp [attempts, hnone] at hattempt
  | some t =>
    obtain ⟨horderBefore, horderBetween⟩ := inOrder_append.mp horder
    have hstart : Tracks maxFailures (windowSeconds * 1000)
        (start viewerPrefix port token maxFailures windowSeconds) [] none :=
      start_tracks (by rw [htoken, Option.isSome_some])
    obtain ⟨since, hbefore, -⟩ := after_tracks hstart horderBefore
    obtain ⟨since', ⟨htoken', l, hl, rfl, hwindow, hkeeps⟩, hadds⟩ :=
      after_tracks hbefore horderBetween
    have hknown : failures ≤ since'.countP (inWindow l.windowMs first) := by
      rw [hadds hfailed, List.countP_append, hwindow]
      exact Nat.le_add_left _ _
    refine ⟨hknown.trans (hkeeps.bounded first), fun hfull req hnext hattempt hin => ?_⟩
    rw [List.append_assoc, inOrder_append, inOrder_append] at hnext
    have hlocked := hkeeps.locked hnext.2.2.1 (hfull.symm.le.trans hknown) (by rwa [hwindow])
    rcases dispatch_cases (s.after between) req with ⟨-, endpoint, presented, heq⟩ | ⟨hnone, -⟩
    · rw [heq, guarded_of_locked htoken' hl hlocked]
    · rw [hattempt] at hnone
      cases hnone

/-- One guess in a minute: after a wrong token the right one is refused, and
not compared. -/
theorem guesses_bounded_once :
    let wrong : Request := ⟨"GET", "/health", none, none, some "Bearer guess", none, 0, 1⟩
    let right : Request := ⟨"GET", "/metrics", none, none, some "Bearer secret", none, 2, 2⟩
    let s := (start "/dashboard" 8084 (some "secret") 1 60).after []
    (failuresOf (s.serve [wrong])).countP (inWindow (60 * 1000) 0) = 1 ∧
      ((s.after [wrong]).dispatch right).1 = ⟨.tooManyAttempts, []⟩ := by
  intro wrong right s
  have hone : (failuresOf (s.serve [wrong])).countP (inWindow (60 * 1000) 0) = 1 := by
    decide +kernel
  have horder : InOrder none ([] ++ [wrong] ++ [right]) := by decide +kernel
  have hfailed : ∀ e ∈ s.serve [wrong], e.2.authenticated = false := by decide +kernel
  have hattempt : (s.after [wrong]).attempts right = true := by decide +kernel
  have hin : right.checkedAt ≤ 0 + 60 * 1000 := by decide +kernel
  exact ⟨hone, (guesses_bounded (inOrder_append.mp horder).1 hfailed 0).2 hone right horder hattempt
    hin⟩

end Server

end UmansGate.Auth
