/-
UmansGate.Experiments.RewriteIds — the rewriting of tool-use ids
(`experiments/rewrite-ids.ts` and its tables in `db.ts`).

A request that failed is retried with every tool-use id in its body replaced
by a generated one. A session has a salt with a version. The id generated for
an original one is a truncated hash of the salt, the version and the original,
and it is stored, so that later requests of the session use it again.
`escalate` draws a new salt and raises the version.

SHA-256, the clock and the random salts come from outside.
-/
import UmansGate.Lib.Transition
import UmansGate.Lib.Utf8
import UmansGate.Lib.StringTokens

namespace UmansGate.Experiments

open UmansGate.Lib

/-! ## Tables -/

/-- A row of `id_rewrite_sessions`, as far as it is read. -/
structure IdRewriteSession where
  salt : JsString
  saltVersion : ℕ
  consecutive502s : ℕ
  expiresAt : ℚ
  deriving DecidableEq, Repr

inductive IdType where
  | toolUseId
  | sessionId
  deriving DecidableEq, Repr

/-- What is unique in `id_rewrite_mappings`. -/
structure MappingKey where
  sessionId : JsString
  originalId : JsString
  idType : IdType
  saltVersion : ℕ
  deriving DecidableEq, Repr

structure RewriteDb where
  sessions : Dict JsString IdRewriteSession := []
  /-- The rewritten ids. -/
  mappings : Dict MappingKey JsString := []
  deriving DecidableEq, Repr

namespace RewriteDb

variable (db : RewriteDb)

def recordIdRewriteSession (sessionId salt : JsString) (ttlMs now : ℚ) : RewriteDb :=
  match db.sessions.get? sessionId with
  | none => { db with sessions := db.sessions.set sessionId ⟨salt, 1, 1, now + ttlMs⟩ }
  | some row =>
      { db with
        sessions := db.sessions.set sessionId
          { row with consecutive502s := row.consecutive502s + 1 } }

def getIdRewriteSession (sessionId : JsString) : Option IdRewriteSession :=
  db.sessions.get? sessionId

def escalateRewriteSalt (sessionId newSalt : JsString) : RewriteDb :=
  match db.sessions.get? sessionId with
  | none => db
  | some row =>
      { db with
        sessions := db.sessions.set sessionId
          { row with salt := newSalt, saltVersion := row.saltVersion + 1 } }

def clearIdRewriteSession (sessionId : JsString) : RewriteDb where
  sessions := db.sessions.erase sessionId
  mappings := db.mappings.filter fun m => m.1.sessionId ≠ sessionId

def getRewriteMapping (key : MappingKey) : Option JsString := db.mappings.get? key

/-- An existing mapping is left alone. Without a session the foreign key fails
and the statement throws. -/
def setRewriteMapping (key : MappingKey) (rewrittenId : JsString) : Option RewriteDb :=
  match db.sessions.get? key.sessionId, db.mappings.get? key with
  | none, _ => none
  | some _, some _ => some db
  | some _, none => some { db with mappings := db.mappings.set key rewrittenId }

/-- Whether the session of that id is expired. -/
def expired (now : ℚ) (sessionId : JsString) : Bool :=
  (db.sessions.get? sessionId).any fun row => row.expiresAt < now

/-- The id of a session is its primary key. -/
def pruneExpiredRewriteSessions (now : ℚ) : RewriteDb where
  sessions := db.sessions.filter fun s => ¬ db.expired now s.1
  mappings := db.mappings.filter fun m => ¬ db.expired now m.1.sessionId

end RewriteDb

/-! ## Ids -/

/-- `[A-Za-z0-9]`. -/
def isIdUnit (u : UInt16) : Bool :=
  (48 ≤ u && u ≤ 57) || (65 ≤ u && u ≤ 90) || (97 ≤ u && u ≤ 122)

/-- `(?:call_|toolu_)`. -/
def idStarts : List JsString := [js "call_", js "toolu_"]

/-- The match of `TOOL_USE_ID_PATTERN` at the beginning of a text. -/
def toolUseIdAt (text : JsString) : Option JsString :=
  match idStarts.find? (·.isPrefixOf text) with
  | none => none
  | some start =>
      let rest := (text.drop start.length).take 24
      if rest.length = 24 ∧ rest.all isIdUnit = true then some (start ++ rest) else none

/-- The matches of `TOOL_USE_ID_PATTERN` with their positions. -/
def toolUseIdMatches (text : JsString) : List (ℕ × JsString) := matchesFrom toolUseIdAt 0 0 text

/-- `set.add(id)`. -/
def addId (ids : List JsString) (id : JsString) : List JsString :=
  if id ∈ ids then ids else ids ++ [id]

/-- The set of tool-use ids in a body, in the order they are found. -/
def toolUseIds (text : JsString) : List JsString :=
  ((toolUseIdMatches text).map Prod.snd).foldl addId []

def extractPrefix (id : JsString) : JsString :=
  if (js "call_").isPrefixOf id then js "call"
  else if (js "toolu_").isPrefixOf id then js "toolu"
  else js "call"

structure RewriteSessionState where
  salt : JsString
  saltVersion : ℕ
  consecutive502s : ℕ
  deriving DecidableEq, Repr

section

variable (sha256 : List UInt8 → JsString)

/-- The first 24 digits of the hash of an id under a salt. -/
def truncatedHash (salt : JsString) (saltVersion : ℕ) (originalId : JsString) : JsString :=
  (sha256 (utf8 salt ++ utf8 (js (toString saltVersion)) ++ utf8 originalId)).take 24

def deterministicRewrite (originalId salt : JsString) (saltVersion : ℕ) (start : JsString) :
    JsString :=
  start ++ js "_" ++ truncatedHash sha256 salt saltVersion originalId

/-! ## Sessions -/

def shouldEscalate (consecutive502s : ℕ) : Bool :=
  2 ≤ consecutive502s && consecutive502s % 2 = 0

/-- `getOrCreateSession`, where the clock reads `checkedAt` and then
`recordedAt`. -/
def getOrCreateSession (ttlMs : ℚ) (db : RewriteDb) (sessionId : JsString)
    (checkedAt recordedAt : ℚ) (freshSalt : JsString) : RewriteSessionState × RewriteDb :=
  match db.getIdRewriteSession sessionId with
  | some existing =>
      if existing.expiresAt > checkedAt then
        let db := db.recordIdRewriteSession sessionId existing.salt ttlMs recordedAt
        let updated := db.getIdRewriteSession sessionId
        (⟨existing.salt, existing.saltVersion,
          (updated.map (·.consecutive502s)).getD existing.consecutive502s⟩, db)
      else
        (⟨freshSalt, 1, 1⟩, (db.clearIdRewriteSession sessionId).recordIdRewriteSession sessionId
          freshSalt ttlMs recordedAt)
  | none =>
      (⟨freshSalt, 1, 1⟩, db.recordIdRewriteSession sessionId freshSalt ttlMs recordedAt)

def escalate (ttlMs : ℚ) (db : RewriteDb) (sessionId : JsString) (now : ℚ) (newSalt : JsString) :
    RewriteSessionState × RewriteDb :=
  match db.getIdRewriteSession sessionId with
  | none => (⟨newSalt, 1, 1⟩, db.recordIdRewriteSession sessionId newSalt ttlMs now)
  | some existing =>
      let db := db.escalateRewriteSalt sessionId newSalt
      let updated := db.getIdRewriteSession sessionId
      (⟨newSalt, (updated.map (·.saltVersion)).getD existing.saltVersion,
        (updated.map (·.consecutive502s)).getD existing.consecutive502s⟩, db)

/-! ## Rewriting -/

structure RewriteResult where
  rewritten : Bool
  body : JsString
  saltVersion : ℕ
  fieldsRewritten : List JsString
  toolUseIdsRewritten : ℕ
  sessionId : JsString
  deriving DecidableEq, Repr

def toolUseKey (sessionId : JsString) (state : RewriteSessionState) (originalId : JsString) :
    MappingKey :=
  ⟨sessionId, originalId, .toolUseId, state.saltVersion⟩

/-- The id that replaces an original one: the stored one or a generated one. -/
def rewrittenIdOf (db : RewriteDb) (sessionId : JsString) (state : RewriteSessionState)
    (originalId : JsString) : JsString :=
  (db.getRewriteMapping (toolUseKey sessionId state originalId)).getD
    (deterministicRewrite sha256 originalId state.salt state.saltVersion
      (extractPrefix originalId))

/-- One round of the loop over the ids. -/
def rewriteId (sessionId : JsString) (state : RewriteSessionState)
    (acc : RewriteDb × JsString) (originalId : JsString) : Option (RewriteDb × JsString) :=
  let key := toolUseKey sessionId state originalId
  let rewrittenId := rewrittenIdOf sha256 acc.1 sessionId state originalId
  let db := match acc.1.getRewriteMapping key with
    | some (_ :: _) => some acc.1
    | _ => acc.1.setRewriteMapping key rewrittenId
  db.map fun db => (db, replaceAll originalId rewrittenId acc.2)

/-- The header a session is named in. -/
def sessionHeader (headers : Dict JsString JsString) : Option JsString :=
  (headers.get? (js "x-session-id")).or (headers.get? (js "x-session-affinity"))

/-- `rewriteBody`; none when a statement of the database throws. -/
def rewriteBody (db : RewriteDb) (bodyText : JsString) (headers : Dict JsString JsString)
    (sessionId : JsString) (state : RewriteSessionState) : Option (RewriteResult × RewriteDb) :=
  let ids := toolUseIds bodyText
  let fields :=
    (if sessionHeader headers = some sessionId ∧ sessionId ≠ [] then [js "x-session-id"] else []) ++
      if 0 < ids.length then [js "tool_use_ids"] else []
  (ids.foldlM (rewriteId sha256 sessionId state) (db, bodyText)).map fun acc =>
    (⟨0 < fields.length, acc.2, state.saltVersion, fields, ids.length, sessionId⟩, acc.1)

/-- One round of the loop over the headers. -/
def rewriteHeader (sessionId : JsString) (state : RewriteSessionState)
    (acc : RewriteDb × Dict JsString JsString × Option JsString) (key : JsString) :
    Option (RewriteDb × Dict JsString JsString × Option JsString) :=
  let (db, out, newSessionId) := acc
  if out.get? key = some sessionId ∧ sessionId ≠ [] then
    match newSessionId.filter (· ≠ []) with
    | some newSessionId => some (db, out.set key newSessionId, some newSessionId)
    | none =>
        let mapping : MappingKey := ⟨sessionId, sessionId, .sessionId, state.saltVersion⟩
        match (db.getRewriteMapping mapping).filter (· ≠ []) with
        | some mapped => some (db, out.set key mapped, some mapped)
        | none =>
            let mapped := deterministicRewrite sha256 sessionId state.salt state.saltVersion
              (js "ses")
            (db.setRewriteMapping mapping mapped).map fun db =>
              (db, out.set key mapped, some mapped)
  else some acc

def rewriteHeaders (db : RewriteDb) (headers : Dict JsString JsString) (sessionId : JsString)
    (state : RewriteSessionState) :
    Option (RewriteDb × Dict JsString JsString × Option JsString) :=
  [js "x-session-id", js "x-session-affinity"].foldlM (rewriteHeader sha256 sessionId state)
    (db, headers, none)

/-! ## Requests -/

/-- A request that is retried, with the readings of the clock and the salts
that are drawn. -/
structure RetryRequest where
  sessionId : JsString
  bodyText : JsString
  headers : Dict JsString JsString
  forceEscalate : Bool
  checkedAt : ℚ
  recordedAt : ℚ
  freshSalt : JsString
  newSalt : JsString

/-- The session state a retried request is rewritten with. -/
def openSession (ttlMs : ℚ) (db : RewriteDb) (r : RetryRequest) :
    RewriteSessionState × RewriteDb :=
  let opened := getOrCreateSession ttlMs db r.sessionId r.checkedAt r.recordedAt r.freshSalt
  if r.forceEscalate || shouldEscalate opened.1.consecutive502s then
    escalate ttlMs opened.2 r.sessionId r.recordedAt r.newSalt
  else opened

/-- `attemptRewriteRetry` up to its request: the body and then the headers. -/
def rewriteRequest (ttlMs : ℚ) (db : RewriteDb) (r : RetryRequest) :
    Option (RewriteResult × Dict JsString JsString × RewriteDb) :=
  let opened := openSession ttlMs db r
  (rewriteBody sha256 opened.2 r.bodyText r.headers r.sessionId opened.1).bind fun body =>
    (rewriteHeaders sha256 body.2 r.headers r.sessionId opened.1).map fun headers =>
      (body.1, headers.2.1, headers.1)

inductive Step where
  | retry (request : RetryRequest)
  | clearSession (sessionId : JsString)
  | pruneExpired (now : ℚ)

def step (ttlMs : ℚ) (db : RewriteDb) : Step → RewriteDb
  | .retry r => ((rewriteRequest sha256 ttlMs db r).map fun result => result.2.2).getD
      (openSession ttlMs db r).2
  | .clearSession sessionId => db.clearIdRewriteSession sessionId
  | .pruneExpired now => db.pruneExpiredRewriteSessions now

end

end UmansGate.Experiments
