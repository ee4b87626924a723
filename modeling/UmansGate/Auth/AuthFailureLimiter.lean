/-
UmansGate.Auth.AuthFailureLimiter — the dashboard token and its guards
(`src/auth.ts`, `createRequestDispatcher` of `src/index.ts`, `handleViewer`
of `src/viewer.ts`).

The part of a request up to its guard runs without an await, so a request is
one step. It reads the clock twice, when it asks for the lockout and when it
records a failure. An outcome lists the comparisons that were made for it.
What the handlers behind the guards do is left out.
-/
import Mathlib.Data.Rat.Defs
import Mathlib.Algebra.Order.Ring.Rat
import UmansGate.Lib.Transition

namespace UmansGate.Auth

open UmansGate.Lib

/-- Compares bytes, of equal lengths only. -/
def tokensEqual (a b : String) : Bool :=
  let bufA := a.toUTF8.data
  let bufB := b.toUTF8.data
  if bufA.size ≠ bufB.size then false else decide (bufA = bufB)

structure AuthFailureLimiter where
  failures : List ℚ
  maxFailures : ℕ
  windowMs : ℚ
  deriving DecidableEq, Repr

namespace AuthFailureLimiter

def new (maxFailures : ℕ) (windowSeconds : ℚ) : AuthFailureLimiter :=
  ⟨[], maxFailures, windowSeconds * 1000⟩

def prune (l : AuthFailureLimiter) (now : ℚ) : AuthFailureLimiter :=
  let cutoff := now - l.windowMs
  match l.failures.findIdx? (fun t => decide (t ≥ cutoff)) with
  | none => { l with failures := [] }
  | some idx => if idx > 0 then { l with failures := l.failures.drop idx } else l

def recordFailure (l : AuthFailureLimiter) (now : ℚ) : AuthFailureLimiter :=
  let l := l.prune now
  { l with failures := l.failures ++ [now] }

def isLockedOut (l : AuthFailureLimiter) (now : ℚ) : Bool × AuthFailureLimiter :=
  let l := l.prune now
  (decide (l.failures.length ≥ l.maxFailures), l)

def reset (l : AuthFailureLimiter) : AuthFailureLimiter := { l with failures := [] }

end AuthFailureLimiter

/-- What the dispatcher reads of a request, and the two times it reads the
clock at. A referer comes with the origin that its address has, if it is an
address. -/
structure Request where
  method : String
  pathname : String
  origin : Option String
  referer : Option (String × Option String)
  authorization : Option String
  wsToken : Option String
  checkedAt : ℚ
  recordedAt : ℚ
  deriving DecidableEq, Repr

inductive Endpoint where
  | upgrade
  | viewer
  | health
  | metrics
  | proxy
  deriving DecidableEq, Repr

inductive Reply where
  | accepted (endpoint : Endpoint)
  | forbidden
  | crossOriginForbidden
  | tooManyAttempts
  | unauthorized
  deriving DecidableEq, Repr

structure Outcome where
  reply : Reply
  compared : List (String × String)
  deriving DecidableEq, Repr

/-- A string that is there and not empty. -/
def given (s : Option String) : Option String := s.filter (· ≠ "")

structure Server where
  viewerPrefix : String
  port : ℕ
  dashboardToken : Option String
  authFailureLimiter : Option AuthFailureLimiter
  deriving DecidableEq, Repr

namespace Server

/-- The limiter is there when a token is configured. -/
def start (viewerPrefix : String) (port : ℕ) (dashboardToken : Option String) (maxFailures : ℕ)
    (windowSeconds : ℚ) : Server where
  viewerPrefix := viewerPrefix
  port := port
  dashboardToken := dashboardToken
  authFailureLimiter := (given dashboardToken).map fun _ => .new maxFailures windowSeconds

/-- The guard of an endpoint: `presented` is what would be compared, if the
request presents anything. -/
def guarded (s : Server) (req : Request) (endpoint : Endpoint)
    (presented : String → Option (String × String)) : Outcome × Server :=
  match given s.dashboardToken with
  | none => (⟨.accepted endpoint, []⟩, s)
  | some token =>
    let lockout := s.authFailureLimiter.map (·.isLockedOut req.checkedAt)
    let s := { s with authFailureLimiter := lockout.map (·.2) }
    if (lockout.map (·.1)).getD false then (⟨.tooManyAttempts, []⟩, s)
    else
      let compared := (presented token).toList
      if compared.any fun (a, b) => tokensEqual a b then
        let limiter := s.authFailureLimiter.map (·.reset)
        (⟨.accepted endpoint, compared⟩, { s with authFailureLimiter := limiter })
      else
        let limiter := s.authFailureLimiter.map (·.recordFailure req.recordedAt)
        (⟨.unauthorized, compared⟩, { s with authFailureLimiter := limiter })

/-- `isTokenAuthorized` compares the header with the bearer token. -/
def isTokenAuthorized (req : Request) (token : String) : Option (String × String) :=
  (given req.authorization).map fun auth => (auth, "Bearer " ++ token)

def localOrigins (s : Server) : List String :=
  ["http://127.0.0.1:" ++ toString s.port, "http://localhost:" ++ toString s.port]

def foreignOrigin (s : Server) (req : Request) : Bool :=
  (given req.origin).any fun origin => ! s.localOrigins.contains origin

def upgrade (s : Server) (req : Request) : Outcome × Server :=
  if s.foreignOrigin req then (⟨.forbidden, []⟩, s)
  else
    s.guarded req .upgrade fun token => (given req.wsToken).map fun wsToken => (wsToken, token)

def startsWith (p : String) (pre : String) : Bool := pre.toList.isPrefixOf p.toList

/-- The path is one of the viewer. -/
def isViewer (s : Server) (p : String) : Bool :=
  p == s.viewerPrefix || startsWith p (s.viewerPrefix ++ "/")

/-- The origin, or without one the referer, is foreign. -/
def crossOrigin (s : Server) (req : Request) : Bool :=
  (req.method == "POST" || req.method == "DELETE") && s.isViewer req.pathname &&
    (s.foreignOrigin req || (given req.origin).isNone &&
      match req.referer with
      | some (referer, refererOrigin) =>
        referer ≠ "" && ! refererOrigin.any (s.localOrigins.contains ·)
      | none => false)

/-- Only the routes of the API ask for the token. -/
def handleViewer (s : Server) (req : Request) : Outcome × Server :=
  if req.pathname == s.viewerPrefix ++ "/api" ||
      startsWith req.pathname (s.viewerPrefix ++ "/api/") then
    s.guarded req .viewer (isTokenAuthorized req)
  else (⟨.accepted .viewer, []⟩, s)

def handleHealth (s : Server) (req : Request) : Outcome × Server :=
  s.guarded req .health (isTokenAuthorized req)

def handleMetrics (s : Server) (req : Request) : Outcome × Server :=
  s.guarded req .metrics (isTokenAuthorized req)

def dispatch (s : Server) (req : Request) : Outcome × Server :=
  if req.pathname == s.viewerPrefix ++ "/ws" then s.upgrade req
  else if s.crossOrigin req then (⟨.crossOriginForbidden, []⟩, s)
  else if s.isViewer req.pathname then s.handleViewer req
  else if req.pathname == "/health" && req.method == "GET" then s.handleHealth req
  else if req.pathname == "/metrics" && req.method == "GET" then s.handleMetrics req
  else (⟨.accepted .proxy, []⟩, s)

/-- The requests one after the other, each with its outcome. -/
def serve (s : Server) : List Request → List (Request × Outcome)
  | [] => []
  | req :: reqs => (req, (s.dispatch req).1) :: (s.dispatch req).2.serve reqs

/-- The server after the requests. -/
def after (s : Server) (reqs : List Request) : Server := run (fun s req => (s.dispatch req).2) s reqs

/-- The request is an attempt: it reaches the guard of an endpoint. -/
def attempts (s : Server) (req : Request) : Bool :=
  (given s.dashboardToken).isSome &&
    if req.pathname == s.viewerPrefix ++ "/ws" then ! s.foreignOrigin req
    else if s.crossOrigin req then false
    else if s.isViewer req.pathname then
      req.pathname == s.viewerPrefix ++ "/api" ||
        startsWith req.pathname (s.viewerPrefix ++ "/api/")
    else (req.pathname == "/health" || req.pathname == "/metrics") && req.method == "GET"

end Server

end UmansGate.Auth
