/-
UmansGate.Usage.UsageClient — the snapshots of `/v1/usage`
(`usage/aggregator.ts`, `usage/parser.ts`, `usage/pricing-tier.ts`).

A refresh is one GET, and a refresh while one is under way does nothing. A
response that is usable makes a snapshot, and its concurrency caps are carried
over from the one before where the response leaves them out. A fetch that fails
only marks the snapshot there is. Every change is passed to the callbacks.

The address, the time of the requests and `Date.parse` come from outside. A
field of the response is absent or of its declared type, and of a text, a number
or an array every field is absent; a response that is null, which makes
`buildSnapshot` throw, is `malformed`. What a callback does is not seen, since
what it throws is caught. `UsageRun` keeps next to the client the requests on
the wire, the answers and the calls.
-/
import UmansGate.Lib.Transition
import UmansGate.UsageHistory.Store

namespace UmansGate.Usage

open UmansGate.Lib UmansGate.UsageHistory

/-! ## Responses -/

/-- A date as it is sent: a text or a number of milliseconds. -/
inductive RawDate where
  | text (text : String)
  | ms (ms : Int)
  deriving DecidableEq, Repr

structure RawRequestLimits where
  limit : Option ℚ
  hard_cap : Option ℚ
  window_seconds : Option ℚ
  deriving DecidableEq, Repr

structure RawConcurrencyLimits where
  limit : Option ℚ
  hard_cap : Option ℚ
  deriving DecidableEq, Repr

structure RawLimits where
  requests : Option RawRequestLimits
  concurrency : Option RawConcurrencyLimits
  deriving DecidableEq, Repr

structure RawWindow where
  started_at : Option RawDate
  resets_at : Option RawDate
  remaining_minutes : Option ℚ
  deriving DecidableEq, Repr

structure RawPriority where
  low : Option Bool
  boxed_until : Option RawDate
  reason : Option String
  units_demoted : Option Bool
  demoted_until : Option RawDate
  deriving DecidableEq, Repr

structure RawServiceMode where
  current : Option String
  resets_at : Option RawDate
  deriving DecidableEq, Repr

structure RawPriorityBudgetEntry where
  category : String
  label : String
  models : List String
  used_pct : ℚ
  over_budget_today : Bool
  mode : String
  resets_at : Option RawDate
  deriving DecidableEq, Repr

structure RawCounts where
  requests_in_window : Option ℚ
  weighted_in_window : Option ℚ
  remaining_requests : Option ℚ
  weighted_remaining_requests : Option ℚ
  concurrent_sessions : Option ℚ
  weighted_concurrent_sessions : Option ℚ
  tokens_in : Option ℚ
  tokens_out : Option ℚ
  tokens_cached : Option ℚ
  priority : Option RawPriority
  service_mode : Option RawServiceMode
  priority_budget : Option (List RawPriorityBudgetEntry)
  deriving DecidableEq, Repr

structure RawUsage where
  user_id : Option String
  limits : Option RawLimits
  window : Option RawWindow
  usage : Option RawCounts
  deriving DecidableEq, Repr

namespace RawUsage

variable (raw : RawUsage)

def requests : Option RawRequestLimits := raw.limits.bind RawLimits.requests

def concurrency : Option RawConcurrencyLimits := raw.limits.bind RawLimits.concurrency

def priority : Option RawPriority := raw.usage.bind RawCounts.priority

def service_mode : Option RawServiceMode := raw.usage.bind RawCounts.service_mode

end RawUsage

/-! ## Snapshots -/

inductive WalletTier where
  | tier (index : Fin 4)
  | unknown
  deriving DecidableEq, Repr

structure WalletTierRow where
  tier : Fin 4
  requestsLimit : ℚ
  concurrencyLimit : ℚ
  windowSeconds : ℚ

def WALLET_TIERS : List WalletTierRow :=
  [{ tier := 0, requestsLimit := 500, windowSeconds := 18000, concurrencyLimit := 4 },
    { tier := 1, requestsLimit := 1000, windowSeconds := 18000, concurrencyLimit := 8 },
    { tier := 2, requestsLimit := 2000, windowSeconds := 18000, concurrencyLimit := 12 },
    { tier := 3, requestsLimit := 4000, windowSeconds := 18000, concurrencyLimit := 16 }]

/-- The other two fields of its input are not read. -/
def deriveWalletTier (requestsLimit : Option ℚ) : WalletTier :=
  match requestsLimit with
  | none => .unknown
  | some limit =>
      match WALLET_TIERS.find? fun row => row.requestsLimit = limit with
      | none => .unknown
      | some row => .tier row.tier

structure PriorityBudgetEntry where
  category : String
  label : String
  models : List String
  usedPct : ℚ
  overBudgetToday : Bool
  mode : String
  resetsAt : Option Int
  deriving DecidableEq, Repr

structure UsageSnapshot extends UsageSample where
  walletTier : WalletTier
  priorityBudget : List PriorityBudgetEntry
  deriving DecidableEq, Repr

section

variable (dateParse : String → Option Int)

def toEpochMs : Option RawDate → Option Int
  | none => none
  | some (.ms ms) => some ms
  | some (.text text) => dateParse text

def mapPriorityBudget (raw : Option (List RawPriorityBudgetEntry)) : List PriorityBudgetEntry :=
  (raw.getD []).map fun e =>
    { category := e.category
      label := e.label
      models := e.models
      usedPct := e.used_pct
      overBudgetToday := e.over_budget_today
      mode := e.mode
      resetsAt := toEpochMs dateParse e.resets_at }

def buildSnapshot (raw : RawUsage) (ok : Bool) (lastConcurrencyHardCap lastConcurrencySoftLimit : ℚ)
    (now : Int) : UsageSnapshot where
  fetchedAt := now
  ambient :=
    { ok := ok
      userId := raw.user_id
      plan := "unknown"
      planSlug := none
      requestsLimit := raw.requests.bind (·.limit)
      requestsHardCap := raw.requests.bind (·.hard_cap)
      requestsWindowSeconds := raw.requests.bind (·.window_seconds)
      concurrencySoftLimit := (raw.concurrency.bind (·.limit)).getD lastConcurrencySoftLimit
      concurrencyHardCap := (raw.concurrency.bind (·.hard_cap)).getD lastConcurrencyHardCap
      requestsInWindow := (raw.usage.bind (·.requests_in_window)).getD 0
      weightedRequestsInWindow := (raw.usage.bind (·.weighted_in_window)).getD 0
      requestsRemaining := raw.usage.bind (·.remaining_requests)
      weightedRemainingRequests := raw.usage.bind (·.weighted_remaining_requests)
      concurrentSessions := (raw.usage.bind (·.concurrent_sessions)).getD 0
      weightedConcurrentSessions := (raw.usage.bind (·.weighted_concurrent_sessions)).getD 0
      tokensIn := (raw.usage.bind (·.tokens_in)).getD 0
      tokensOut := (raw.usage.bind (·.tokens_out)).getD 0
      tokensCached := (raw.usage.bind (·.tokens_cached)).getD 0
      windowStartedAt := toEpochMs dateParse (raw.window.bind (·.started_at))
      windowResetsAt := toEpochMs dateParse (raw.window.bind (·.resets_at))
      windowRemainingMinutes := raw.window.bind (·.remaining_minutes)
      priorityLow := (raw.priority.bind (·.low)).getD false
      boxedUntil := toEpochMs dateParse (raw.priority.bind (·.boxed_until))
      boxedReason := raw.priority.bind (·.reason)
      unitsDemoted := (raw.priority.bind (·.units_demoted)).getD false
      demotedUntil := toEpochMs dateParse (raw.priority.bind (·.demoted_until))
      serviceModeCurrent := (raw.service_mode.bind (·.current)).getD "normal"
      serviceModeResetsAt := toEpochMs dateParse (raw.service_mode.bind (·.resets_at)) }
  walletTier := deriveWalletTier (raw.requests.bind (·.limit))
  priorityBudget := mapPriorityBudget dateParse (raw.usage.bind (·.priority_budget))

def failSafeSnapshot : UsageSnapshot where
  fetchedAt := 0
  ambient :=
    { ok := false
      userId := none
      plan := "unknown"
      planSlug := none
      requestsLimit := none
      requestsHardCap := none
      requestsWindowSeconds := none
      concurrencySoftLimit := 1
      concurrencyHardCap := 1
      requestsInWindow := 0
      weightedRequestsInWindow := 0
      requestsRemaining := none
      weightedRemainingRequests := none
      concurrentSessions := 0
      weightedConcurrentSessions := 0
      tokensIn := 0
      tokensOut := 0
      tokensCached := 0
      windowStartedAt := none
      windowResetsAt := none
      windowRemainingMinutes := none
      priorityLow := true
      boxedUntil := none
      boxedReason := none
      unitsDemoted := false
      demotedUntil := none
      serviceModeCurrent := "normal"
      serviceModeResetsAt := none }
  walletTier := .unknown
  priorityBudget := []

/-! ## The client -/

/-- How a fetch ends. -/
inductive FetchUsageResult where
  | usage (raw : RawUsage)
  | malformed
  | error
  deriving DecidableEq, Repr

/-- Callbacks are numbered. -/
structure UsageClient where
  apiKey : Option String
  snapshot : Option UsageSnapshot
  /-- There is a timer. -/
  timer : Bool
  fetching : Bool
  onChangeCbs : List ℕ
  deriving DecidableEq, Repr

namespace UsageClient

def new (apiKey : Option String) : UsageClient := ⟨apiKey, none, false, false, []⟩

variable (c : UsageClient)

/-- An empty key is none. -/
def hasKey : Bool := c.apiKey.any (· ≠ "")

def getSnapshot : UsageSnapshot := c.snapshot.getD failSafeSnapshot

/-- The client, and whether a request is sent. -/
def refresh : UsageClient × Bool :=
  if c.fetching || !c.hasKey then (c, false) else ({ c with fetching := true }, true)

def start : UsageClient × Bool :=
  if !c.hasKey || c.timer then (c, false)
  else ({ c.refresh.1 with timer := true }, c.refresh.2)

def stop : UsageClient := { c with timer := false, onChangeCbs := [] }

def applySnapshot (raw : RawUsage) (now : Int) : UsageClient :=
  let lastHardCap := (c.snapshot.map (·.ambient.concurrencyHardCap)).getD 1
  let lastSoftLimit := (c.snapshot.map (·.ambient.concurrencySoftLimit)).getD 1
  { c with snapshot := some (buildSnapshot dateParse raw true lastHardCap lastSoftLimit now) }

/-- A snapshot after a fetch that failed. -/
def failed (snapshot : UsageSnapshot) (now : Int) : UsageSnapshot :=
  { snapshot with
    fetchedAt := now
    ambient := { snapshot.ambient with ok := false, priorityLow := false } }

def applyFailedSnapshot (now : Int) : UsageClient :=
  { c with snapshot := c.snapshot.map (failed · now) }

/-- The rest of `refresh`, and the snapshot that the callbacks are called
with. -/
def settle (result : FetchUsageResult) (now : Int) : UsageClient × Option UsageSnapshot :=
  let c := { c with fetching := false }
  match result with
  | .usage raw => (c.applySnapshot dateParse raw now, (c.applySnapshot dateParse raw now).snapshot)
  | .malformed => (c, none)
  | .error => (c.applyFailedSnapshot now, (c.applyFailedSnapshot now).snapshot)

end UsageClient

/-! ## Runs -/

structure Answer where
  result : FetchUsageResult
  now : Int
  deriving DecidableEq, Repr

structure UsageRun where
  client : UsageClient
  /-- The requests that have no answer yet. -/
  inFlight : ℕ
  answered : List Answer
  /-- The calls of callbacks. -/
  calls : List (ℕ × UsageSnapshot)
  deriving DecidableEq, Repr

inductive ClientOp where
  | onChange (cb : ℕ)
  | start
  | stop
  | refresh
  /-- The timer fires. -/
  | tick
  /-- A request is answered. -/
  | answer (answer : Answer)
  deriving DecidableEq, Repr

namespace UsageRun

def init (apiKey : Option String) : UsageRun := ⟨.new apiKey, 0, [], []⟩

variable (s : UsageRun)

/-- The client does something that may send a request. -/
def sends (next : UsageClient × Bool) : UsageRun :=
  { s with client := next.1, inFlight := s.inFlight + if next.2 then 1 else 0 }

def answer (a : Answer) : UsageRun :=
  let settled := s.client.settle dateParse a.result a.now
  { client := settled.1
    inFlight := s.inFlight - 1
    answered := s.answered ++ [a]
    calls := s.calls ++
      (settled.2.map fun snap => settled.1.onChangeCbs.map fun cb => (cb, snap)).getD [] }

def step (s : UsageRun) : ClientOp → UsageRun
  | .onChange cb => { s with client := { s.client with onChangeCbs := s.client.onChangeCbs ++ [cb] } }
  | .start => s.sends s.client.start
  | .stop => { s with client := s.client.stop }
  | .refresh => s.sends s.client.refresh
  | .tick => if s.client.timer then s.sends s.client.refresh else s
  | .answer a => if 0 < s.inFlight then s.answer dateParse a else s

end UsageRun

end

end UmansGate.Usage
