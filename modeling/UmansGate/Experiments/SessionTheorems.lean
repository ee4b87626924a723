/-
UmansGate.Experiments.SessionTheorems — what the row of a session tells of the
retries before it.

A retry opens a session or counts one more failure in it, and raises the salt
on every second one or when it is forced to. So the row that is found at the
end of a run is a digest of the retries since the one that opened the session
(`OpenedBy`). The time of expiry is set by that one, and no later retry or
raise moves it.
-/
import UmansGate.Experiments.RewriteTheorems

namespace UmansGate.Experiments

open UmansGate.Lib

variable {sha256 : List UInt8 → JsString} {db : RewriteDb} {sid : JsString}
  {row : IdRewriteSession} {ttlMs : ℚ} {r first : RetryRequest} {rs later : List RetryRequest}

/-! ## One retry -/

/-- The row of a session that begins with a retry. -/
def newRow (ttlMs : ℚ) (r : RetryRequest) : IdRewriteSession :=
  ⟨r.freshSalt, 1, 1, r.recordedAt + ttlMs⟩

/-- The retry raises the salt of a session with that many failures. -/
def Raises (r : RetryRequest) (consecutive502s : ℕ) : Prop :=
  (r.forceEscalate || shouldEscalate consecutive502s) = true

instance (r : RetryRequest) (consecutive502s : ℕ) : Decidable (Raises r consecutive502s) :=
  inferInstanceAs (Decidable (_ = _))

/-- The row after the decision about its salt. -/
def raised (r : RetryRequest) (row : IdRewriteSession) : IdRewriteSession :=
  if Raises r row.consecutive502s then
    { row with salt := r.newSalt, saltVersion := row.saltVersion + 1 }
  else row

/-- The row a retry leaves of its session. -/
def rowAfter (ttlMs : ℚ) (r : RetryRequest) : Option IdRewriteSession → IdRewriteSession
  | some row =>
      if row.expiresAt > r.checkedAt then
        raised r { row with consecutive502s := row.consecutive502s + 1 }
      else raised r (newRow ttlMs r)
  | none => raised r (newRow ttlMs r)

theorem record_other {sessionId salt : JsString} {now : ℚ} (h : sid ≠ sessionId) :
    (db.recordIdRewriteSession sessionId salt ttlMs now).sessions.get? sid =
      db.sessions.get? sid := by
  rw [RewriteDb.recordIdRewriteSession]
  split
  · rw [Dict.get?_set, if_neg h.symm]
  · rw [Dict.get?_set, if_neg h.symm]

theorem getOrCreateSession_other {sessionId salt : JsString} {checkedAt now : ℚ}
    (h : sid ≠ sessionId) :
    (getOrCreateSession ttlMs db sessionId checkedAt now salt).2.sessions.get? sid =
      db.sessions.get? sid := by
  rw [getOrCreateSession]
  split
  · split
    · exact record_other h
    · rw [record_other h, RewriteDb.clearIdRewriteSession, Dict.get?_erase, if_neg h.symm]
  · exact record_other h

theorem escalate_other {sessionId salt : JsString} {now : ℚ} (h : sid ≠ sessionId) :
    (escalate ttlMs db sessionId now salt).2.sessions.get? sid = db.sessions.get? sid := by
  rw [escalate]
  split
  · exact record_other h
  · rw [RewriteDb.escalateRewriteSalt]
    split
    · rfl
    · rw [Dict.get?_set, if_neg h.symm]

theorem openSession_other (h : sid ≠ r.sessionId) :
    (openSession ttlMs db r).2.sessions.get? sid = db.sessions.get? sid := by
  rw [openSession]
  split
  · rw [escalate_other h, getOrCreateSession_other h]
  · exact getOrCreateSession_other h

/-- Opening counts the failure, or begins anew. -/
theorem getOrCreateSession_row (ttlMs : ℚ) (db : RewriteDb) (r : RetryRequest) :
    ∃ row, (getOrCreateSession ttlMs db r.sessionId r.checkedAt r.recordedAt
        r.freshSalt).2.sessions.get? r.sessionId = some row ∧
      (getOrCreateSession ttlMs db r.sessionId r.checkedAt r.recordedAt
        r.freshSalt).1.consecutive502s = row.consecutive502s ∧
      raised r row = rowAfter ttlMs r (db.sessions.get? r.sessionId) := by
  rw [getOrCreateSession, RewriteDb.getIdRewriteSession]
  cases hexisting : db.sessions.get? r.sessionId with
  | none => exact ⟨newRow ttlMs r, record_new hexisting, rfl, rfl⟩
  | some existing =>
    by_cases hlive : existing.expiresAt > r.checkedAt
    · refine ⟨{ existing with consecutive502s := existing.consecutive502s + 1 }, ?_, ?_, ?_⟩
      · simp only [if_pos hlive, record_existing hexisting]
      · simp [if_pos hlive, RewriteDb.getIdRewriteSession, record_existing hexisting]
      · simp only [rowAfter, if_pos hlive]
    · refine ⟨newRow ttlMs r, ?_, ?_, ?_⟩
      · simp only [if_neg hlive]
        exact record_new get?_clear
      · simp only [if_neg hlive]
        rfl
      · simp only [rowAfter, if_neg hlive]

theorem openSession_row :
    (openSession ttlMs db r).2.sessions.get? r.sessionId =
      some (rowAfter ttlMs r (db.sessions.get? r.sessionId)) := by
  obtain ⟨row, hrow, hcount, hraised⟩ := getOrCreateSession_row ttlMs db r
  rw [openSession, ← hraised]
  simp only [hcount]
  rw [raised]
  by_cases hraises : (r.forceEscalate || shouldEscalate row.consecutive502s) = true
  · rw [if_pos hraises, if_pos (show Raises r row.consecutive502s from hraises), escalate,
      RewriteDb.getIdRewriteSession, hrow]
    simp [RewriteDb.escalateRewriteSalt, hrow, Dict.get?_set_self]
  · rw [if_neg hraises, if_neg (show ¬ Raises r row.consecutive502s from hraises), hrow]

/-! ## Raises -/

/-- How many of the retries raise the salt, after so many failures. -/
def raises : ℕ → List RetryRequest → ℕ
  | _, [] => 0
  | failures, r :: rs =>
      (if Raises r (failures + 1) then 1 else 0) + raises (failures + 1) rs

theorem raises_snoc (failures : ℕ) :
    raises failures (rs ++ [r]) =
      raises failures rs + if Raises r (failures + rs.length + 1) then 1 else 0 := by
  induction rs generalizing failures with
  | nil => simp [raises]
  | cons first rs ih =>
    have hcount : failures + 1 + rs.length + 1 = failures + (rs.length + 1) + 1 := by omega
    rw [List.cons_append, raises, ih, raises, List.length_cons, hcount]
    exact (Nat.add_assoc _ _ _).symm

theorem raises_le (rs : List RetryRequest) (failures : ℕ) : raises failures rs ≤ rs.length := by
  induction rs generalizing failures with
  | nil => simp [raises]
  | cons first rs ih =>
    have hrest := ih (failures + 1)
    rw [raises, List.length_cons]
    split <;> omega

theorem shouldEscalate_iff {n : ℕ} : shouldEscalate n = true ↔ 2 ≤ n ∧ n % 2 = 0 := by
  simp [shouldEscalate]

/-- Every second failure raises the salt. -/
theorem half_le_raises (rs : List RetryRequest) (failures : ℕ) :
    (failures + rs.length) / 2 ≤ failures / 2 + raises failures rs := by
  induction rs generalizing failures with
  | nil => simp [raises]
  | cons first rs ih =>
    have hrest := ih (failures + 1)
    have heven : (failures + 1) % 2 = 0 → Raises first (failures + 1) := by
      intro h
      have hsecond : shouldEscalate (failures + 1) = true := shouldEscalate_iff.mpr ⟨by omega, h⟩
      simp [Raises, hsecond]
    rw [raises, List.length_cons]
    split
    · omega
    · rename_i hnot
      have hodd : (failures + 1) % 2 ≠ 0 := fun h => hnot (heven h)
      omega

theorem raises_eq_half (h : ∀ r ∈ rs, r.forceEscalate = false) (failures : ℕ) :
    failures / 2 + raises failures rs = (failures + rs.length) / 2 := by
  induction rs generalizing failures with
  | nil => simp [raises]
  | cons first rs ih =>
    have hrest := ih (fun r hr => h r (List.mem_cons_of_mem first hr)) (failures + 1)
    have hraises : Raises first (failures + 1) ↔ (failures + 1) % 2 = 0 := by
      rw [Raises, h first List.mem_cons_self, Bool.false_or, shouldEscalate_iff]
      omega
    rw [raises, List.length_cons]
    split
    · rename_i heven
      rw [hraises] at heven
      omega
    · rename_i hodd
      rw [hraises] at hodd
      omega

/-! ## The retries a row tells of -/

/-- The row is that of a session which the first of the retries opened. -/
structure OpenedBy (ttlMs : ℚ) (row : IdRewriteSession) (first : RetryRequest)
    (later : List RetryRequest) : Prop where
  count : row.consecutive502s = 1 + later.length
  version : row.saltVersion = 1 + raises 0 (first :: later)
  expiry : row.expiresAt = first.recordedAt + ttlMs
  inTime : ∀ r ∈ later, r.checkedAt < row.expiresAt

theorem raised_count : (raised r row).consecutive502s = row.consecutive502s := by
  rw [raised]
  split <;> rfl

theorem raised_expiresAt : (raised r row).expiresAt = row.expiresAt := by
  rw [raised]
  split <;> rfl

theorem raised_saltVersion : (raised r row).saltVersion =
    row.saltVersion + if Raises r row.consecutive502s then 1 else 0 := by
  rw [raised]
  split <;> rfl

theorem openedBy_newRow : OpenedBy ttlMs (raised r (newRow ttlMs r)) r [] where
  count := raised_count
  version := by rw [raised_saltVersion]; rfl
  expiry := raised_expiresAt
  inTime _ h := nomatch h

theorem OpenedBy.retry (h : OpenedBy ttlMs row first later) (hlive : r.checkedAt < row.expiresAt) :
    OpenedBy ttlMs (raised r { row with consecutive502s := row.consecutive502s + 1 }) first
      (later ++ [r]) where
  count := by
    rw [raised_count, List.length_append, h.count]
    rfl
  version := by
    rw [raised_saltVersion, ← List.cons_append, raises_snoc, List.length_cons, h.version, h.count]
    simp only [Nat.add_comm, Nat.add_left_comm, Nat.zero_add]
  expiry := raised_expiresAt.trans h.expiry
  inTime := by
    intro r' hr'
    rw [raised_expiresAt]
    obtain hr' | hr' := List.mem_append.mp hr'
    · exact h.inTime r' hr'
    · rw [List.mem_singleton.mp hr']
      exact hlive

/-! ## Runs -/

/-- The retries of a session among the steps. -/
def retriesOf (sid : JsString) : List Step → List RetryRequest
  | [] => []
  | .retry r :: steps => if r.sessionId = sid then r :: retriesOf sid steps else retriesOf sid steps
  | .clearSession _ :: steps => retriesOf sid steps
  | .pruneExpired _ :: steps => retriesOf sid steps

theorem retriesOf_append (steps steps' : List Step) :
    retriesOf sid (steps ++ steps') = retriesOf sid steps ++ retriesOf sid steps' := by
  induction steps with
  | nil => rfl
  | cons s steps ih =>
    cases s with
    | retry r =>
      rw [List.cons_append, retriesOf, retriesOf, ih]
      split
      · rfl
      · rfl
    | clearSession _ => exact ih
    | pruneExpired _ => exact ih

/-- The row was opened by a retry among the steps, and it tells of those since. -/
def Remembered (ttlMs : ℚ) (sid : JsString) (row : IdRewriteSession) (steps : List Step) : Prop :=
  ∃ before first after, steps = before ++ .retry first :: after ∧ first.sessionId = sid ∧
    OpenedBy ttlMs row first (retriesOf sid after) ∧ ∀ s ∈ after, s ≠ .clearSession sid

theorem Remembered.snoc {steps : List Step} {s : Step} (h : Remembered ttlMs sid row steps)
    (hretries : retriesOf sid [s] = []) (hkept : s ≠ .clearSession sid) :
    Remembered ttlMs sid row (steps ++ [s]) := by
  obtain ⟨before, first, after, rfl, hfirst, hopened, hafter⟩ := h
  refine ⟨before, first, after ++ [s], by simp, hfirst, ?_, ?_⟩
  · rwa [retriesOf_append, hretries, List.append_nil]
  · intro s' hs'
    obtain hs' | hs' := List.mem_append.mp hs'
    · exact hafter s' hs'
    · rwa [List.mem_singleton.mp hs']

theorem remembered_new (steps : List Step) (hsid : r.sessionId = sid) :
    Remembered ttlMs sid (raised r (newRow ttlMs r)) (steps ++ [.retry r]) :=
  ⟨steps, r, [], rfl, hsid, openedBy_newRow, fun _ h => nomatch h⟩

theorem Remembered.retry {steps : List Step} (h : Remembered ttlMs sid row steps)
    (hsid : r.sessionId = sid) (hlive : r.checkedAt < row.expiresAt) :
    Remembered ttlMs sid (raised r { row with consecutive502s := row.consecutive502s + 1 })
      (steps ++ [.retry r]) := by
  obtain ⟨before, first, after, rfl, hfirst, hopened, hafter⟩ := h
  refine ⟨before, first, after ++ [.retry r], by simp, hfirst, ?_, ?_⟩
  · have hretries : retriesOf sid (after ++ [.retry r]) = retriesOf sid after ++ [r] := by
      rw [retriesOf_append, retriesOf, if_pos hsid]
      rfl
    rw [hretries]
    exact hopened.retry hlive
  · intro s hs
    obtain hs | hs := List.mem_append.mp hs
    · exact hafter s hs
    · rw [List.mem_singleton.mp hs]
      exact fun heq => by cases heq

/-- What a step leaves of a session is remembered. -/
theorem step_remembered {steps : List Step} (hconsistent : Consistent sha256 db)
    (h : ∀ row, db.sessions.get? sid = some row → Remembered ttlMs sid row steps) (s : Step)
    (hrow : (step sha256 ttlMs db s).sessions.get? sid = some row) :
    Remembered ttlMs sid row (steps ++ [s]) := by
  cases s with
  | retry r =>
    rw [(step_retry hconsistent r).2] at hrow
    by_cases hsid : r.sessionId = sid
    · subst hsid
      rw [openSession_row, Option.some_inj] at hrow
      subst hrow
      cases hold : db.sessions.get? r.sessionId with
      | none => exact remembered_new steps rfl
      | some old =>
        rw [rowAfter]
        split
        · rename_i hlive
          exact (h old hold).retry rfl hlive
        · exact remembered_new steps rfl
    · rw [openSession_other (Ne.symm hsid)] at hrow
      exact (h row hrow).snoc (by rw [retriesOf, if_neg hsid]; rfl) fun heq => by cases heq
  | clearSession ended =>
    rw [step, RewriteDb.clearIdRewriteSession, Dict.get?_erase] at hrow
    split at hrow
    · cases hrow
    · rename_i hne
      exact (h row hrow).snoc rfl fun heq => hne (Step.clearSession.inj heq)
  | pruneExpired now =>
    rw [step, RewriteDb.pruneExpiredRewriteSessions,
      Dict.get?_filter_keys _ fun key => ¬ db.expired now key] at hrow
    split at hrow
    · exact (h row hrow).snoc rfl fun heq => by cases heq
    · cases hrow

theorem run_remembered (steps : List Step) (sid : JsString) {row : IdRewriteSession}
    (hrow : (run (step sha256 ttlMs) {} steps).sessions.get? sid = some row) :
    Remembered ttlMs sid row steps := by
  induction steps using List.reverseRecOn generalizing row with
  | nil => cases hrow
  | append_singleton steps s ih =>
    rw [run_append] at hrow
    exact step_remembered (run_consistent steps) (fun _ h => ih h) s hrow

/-- No statement of a retry throws on consistent tables. -/
theorem rewriteRequest_ne_none (h : Consistent sha256 db) (r : RetryRequest) :
    rewriteRequest sha256 ttlMs db r ≠ none := by
  have hholds : Holds (openSession ttlMs db r).2 r.sessionId (openSession ttlMs db r).1 :=
    openSession_holds ttlMs db r
  obtain ⟨result, db₁, hbody, -, hconsistent, hsessions⟩ :=
    rewriteBody_eq (h.openSession ttlMs r) hholds r.bodyText r.headers
  obtain ⟨acc, hheaders, -, -⟩ :=
    rewriteHeaders_eq hconsistent (hholds.of_sessions hsessions) r.headers
  rw [rewriteRequest, hbody, Option.bind_some, hheaders]
  intro heq
  cases heq

/-- **A session remembers its retries.** In every run no retry throws, and the
row of a session tells of the retries since the one that opened it: they are
counted, each began before the time of expiry, which is the opening one's, and
the version was raised on every second failure and by those that were forced. -/
theorem session_tells (steps : List Step) :
    (∀ r, rewriteRequest sha256 ttlMs (run (step sha256 ttlMs) {} steps) r ≠ none) ∧
      ∀ sid row, (run (step sha256 ttlMs) {} steps).sessions.get? sid = some row →
        (∃ before first after, steps = before ++ .retry first :: after ∧ first.sessionId = sid ∧
          OpenedBy ttlMs row first (retriesOf sid after) ∧ ∀ s ∈ after, s ≠ .clearSession sid) ∧
        1 + row.consecutive502s / 2 ≤ row.saltVersion ∧
        row.saltVersion ≤ 1 + row.consecutive502s ∧
        ((∀ r ∈ retriesOf sid steps, r.forceEscalate = false) →
          row.saltVersion = 1 + row.consecutive502s / 2) := by
  refine ⟨rewriteRequest_ne_none (run_consistent steps), fun sid row hrow => ?_⟩
  have hremembered := run_remembered steps sid hrow
  refine ⟨hremembered, ?_⟩
  obtain ⟨before, first, after, rfl, hfirst, hopened, -⟩ := hremembered
  have hlength : (first :: retriesOf sid after).length = row.consecutive502s := by
    rw [hopened.count, List.length_cons, Nat.add_comm]
  have hhalf := half_le_raises (first :: retriesOf sid after) 0
  have hall := raises_le (first :: retriesOf sid after) 0
  rw [hlength] at hall
  rw [hlength] at hhalf
  refine ⟨?_, ?_, fun hunforced => ?_⟩
  · rw [hopened.version]
    omega
  · rw [hopened.version]
    omega
  · have hsince : ∀ r ∈ first :: retriesOf sid after, r.forceEscalate = false := by
      intro r hr
      refine hunforced r ?_
      rw [retriesOf_append, retriesOf, if_pos hfirst]
      exact List.mem_append_right _ hr
    have heq := raises_eq_half hsince 0
    rw [hlength] at heq
    rw [hopened.version]
    omega

/-- A retry of that session at that time. -/
def retryAt (now : ℚ) (forceEscalate : Bool) : RetryRequest where
  sessionId := js "ses_094245ee8ffeE1vAORqPmsfxAI"
  bodyText := []
  headers := []
  forceEscalate := forceEscalate
  checkedAt := now
  recordedAt := now
  freshSalt := js "5f0c3a9d2b7e4816a4d0c9f1e2b38756"
  newSalt := js "90ab1c2d3e4f5061728394a5b6c7d8e9"

/-- A session whose second and third failures raise the salt. -/
def raisedTwice : List Step := [.retry (retryAt 10 false), .retry (retryAt 20 false),
  .pruneExpired 30, .retry (retryAt 40 true)]

def raisedTwiceRow : IdRewriteSession :=
  ⟨js "90ab1c2d3e4f5061728394a5b6c7d8e9", 3, 3, 60010⟩

theorem raisedTwice_row :
    (run (step (fun _ => []) 60000) {} raisedTwice).sessions.get?
      (js "ses_094245ee8ffeE1vAORqPmsfxAI") = some raisedTwiceRow := by
  decide +kernel

theorem raisedTwice_tells :
    raisedTwiceRow.saltVersion ≤ 1 + raisedTwiceRow.consecutive502s ∧
      ∃ before first after, raisedTwice = before ++ .retry first :: after ∧
        first.sessionId = js "ses_094245ee8ffeE1vAORqPmsfxAI" ∧
        OpenedBy 60000 raisedTwiceRow first
          (retriesOf (js "ses_094245ee8ffeE1vAORqPmsfxAI") after) ∧
        ∀ s ∈ after, s ≠ .clearSession (js "ses_094245ee8ffeE1vAORqPmsfxAI") :=
  have htells := (session_tells raisedTwice).2 _ _ raisedTwice_row
  ⟨htells.2.2.1, htells.1⟩

end UmansGate.Experiments
