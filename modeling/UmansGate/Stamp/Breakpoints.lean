/-
UmansGate.Stamp.Breakpoints — the cache breakpoints of a body and the
reminder block (`src/restamp-breakpoints.ts`, `src/stamp.ts`,
`src/experiments/strip-omo-reminder.ts`).

The blocks are client JSON, so any value may stand where a block is
expected. Reading a property of `null` throws; of anything else it is
undefined.
-/
import UmansGate.Stamp.Fields

namespace UmansGate.Stamp

open UmansGate.Lib

/-- How a step ends. The body is stamped in place, so a step that throws
leaves one too. -/
inductive Stamped where
  | returned (body : Json) (changed : Bool)
  | threw (body : Json)

/-- The body as the step leaves it. -/
def Stamped.body : Stamped → Json
  | returned body _ => body
  | threw body => body

def Stamped.hasThrown : Stamped → Bool
  | returned _ _ => false
  | threw _ => true

/-! ## Layout B -/

def BREAKPOINT : Json := .obj [(js "type", .str (js "ephemeral"))]

/-- `block.type === "text" || block.type === undefined`; none where it throws. -/
def isTextBlock : Json → Option Bool
  | .null => none
  | block => some (block.propIs (js "type") (.str (js "text")) || !block.has (js "type"))

/-- The block carries an ephemeral `cache_control`. -/
def hasBreakpoint (block : Json) : Bool :=
  match block.get? (js "cache_control") with
  | some cc => cc.propIs (js "type") (.str (js "ephemeral"))
  | none => false

def stripBreakpoint (block : Json) : Json :=
  if hasBreakpoint block then block.remove (js "cache_control") else block

/-- A block that is no object is spread into one. -/
def withBreakpoint (block : Json) : Json :=
  if hasBreakpoint block then block
  else (Json.obj block.spread).set (js "cache_control") BREAKPOINT

/-- A user message with blocks. -/
def isBreakpointTarget (m : Json) : Bool :=
  m.propIs (js "role") (.str (js "user")) &&
    match m.items? (js "content") with
    | some content => !content.isEmpty
    | none => false

/-- The last such message (the loop from the end). -/
def lastUserIdx : List Json → Option ℕ
  | [] => none
  | m :: rest =>
    match lastUserIdx rest with
    | some i => some (i + 1)
    | none => if isBreakpointTarget m then some 0 else none

def restampBlock (shouldHaveBp : Bool) (b : Json) : Json :=
  if shouldHaveBp then withBreakpoint b else stripBreakpoint b

/-- Whether block `bi` of message `mi` is the one to carry the breakpoint. -/
def isLastBlockOfLastUser (lastUser : Option ℕ) (mi length bi : ℕ) : Bool :=
  lastUser = some mi && bi + 1 = length

def restampContent (lastUser : Option ℕ) (mi : ℕ) (content : List Json) : List Json :=
  content.mapIdx fun bi b => restampBlock (isLastBlockOfLastUser lastUser mi content.length bi) b

def contentChanged (lastUser : Option ℕ) (mi : ℕ) (content : List Json) : Bool :=
  (content.mapIdx fun bi b =>
    isLastBlockOfLastUser lastUser mi content.length bi != hasBreakpoint b).any id

def restampMessage (lastUser : Option ℕ) (mi : ℕ) (m : Json) : Json × Bool :=
  match m.items? (js "content") with
  | some content =>
    if contentChanged lastUser mi content then
      (m.set (js "content") (.arr (restampContent lastUser mi content)), true)
    else (m, false)
  | none => (m, false)

/-- The system blocks, and whether one changed; none where it throws. -/
def restampSystem : List Json → Option (List Json × Bool)
  | [] => some ([], false)
  | b :: rest =>
    (isTextBlock b).map fun isText =>
      ((if isText then withBreakpoint b else b) :: rest.map stripBreakpoint,
        isText && !hasBreakpoint b || rest.any hasBreakpoint)

inductive Restamped where
  /-- The reference that came in. -/
  | same
  | rebuilt (body : Json)
  | threw

def restampBreakpoints (body : Json) : Restamped :=
  match body.items? (js "messages") with
  | none => .same
  | some [] => .same
  | some messages =>
    let lastUser := lastUserIdx messages
    let restamped := messages.mapIdx fun mi m => restampMessage lastUser mi m
    let changed := restamped.any Prod.snd
    let withMessages := fun b : Json => b.set (js "messages") (.arr (restamped.map Prod.fst))
    match body.items? (js "system") with
    | none => if changed then .rebuilt (withMessages body) else .same
    | some blocks =>
      match restampSystem blocks with
      | none => .threw
      | some (system, sysChanged) =>
        if sysChanged then .rebuilt (withMessages (body.set (js "system") (.arr system)))
        else if changed then .rebuilt (withMessages body)
        else .same

/-! ## The ttl -/

/-- An ephemeral `cache_control` without a ttl. -/
def lacksTtl (block : Json) : Bool :=
  match block.get? (js "cache_control") with
  | some cc =>
    cc.propIs (js "type") (.str (js "ephemeral")) &&
      !(match cc.get? (js "ttl") with
        | some ttl => ttl.truthy
        | none => false)
  | none => false

def stampBlockTtl (ttl : JsString) (block : Json) : Json :=
  match block.get? (js "cache_control") with
  | some cc =>
    if lacksTtl block then block.set (js "cache_control") (cc.set (js "ttl") (.str ttl)) else block
  | none => block

/-- `stamp(v[key])`: the value and the number of blocks stamped. -/
def stampTtlIn (ttl : JsString) (key : JsString) (v : Json) : Json × ℕ :=
  match v.items? key with
  | some blocks => (v.set key (.arr (blocks.map (stampBlockTtl ttl))), blocks.countP lacksTtl)
  | none => (v, 0)

/-- The loop over the messages, the number of blocks stamped, and whether it
throws: it does at a `null`. -/
def stampTtlMessages (ttl : JsString) : List Json → List Json × ℕ × Bool
  | [] => ([], 0, false)
  | .null :: rest => (.null :: rest, 0, true)
  | m :: rest =>
    let (rest', n, threw) := stampTtlMessages ttl rest
    ((stampTtlIn ttl (js "content") m).1 :: rest', (stampTtlIn ttl (js "content") m).2 + n, threw)

/-- The body, the number of blocks stamped, and whether the walk threw: only
an array, a string and a nullish value can be iterated. -/
def stampCacheTtl (body : Json) (ttl : JsString) : Json × ℕ × Bool :=
  let (body, n) := stampTtlIn ttl (js "system") body
  match body.get? (js "messages") with
  | none => (body, n, false)
  | some .null => (body, n, false)
  | some (.str _) => (body, n, false)
  | some (.arr messages) =>
    let (messages', n', threw) := stampTtlMessages ttl messages
    (body.set (js "messages") (.arr messages'), n + n', threw)
  | some _ => (body, n, true)

/-! ## The reminder -/

def OMO_REMINDER_MARKER : JsString := js "\n[Category+Skill Reminder]"

def isOmoReminderBlock (block : Json) : Bool :=
  match block.str? (js "text") with
  | some text => OMO_REMINDER_MARKER.isPrefixOf text
  | none => false

/-- The messages without the reminder in the first one; none where there is
no reminder. -/
def stripMessages : List Json → Option (List Json)
  | [] => none
  | first :: rest =>
    match first.items? (js "content") with
    | some content =>
      if content.any isOmoReminderBlock then
        let nextContent := content.filter fun block => !isOmoReminderBlock block
        some (first.set (js "content") (.arr nextContent) :: rest)
      else none
    | none => none

/-- None is the reference that came in. -/
def stripOmoReminder (body : Json) : Option Json :=
  match body.items? (js "messages") with
  | some messages =>
    (stripMessages messages).map fun nextMessages =>
      body.set (js "messages") (.arr nextMessages)
  | none => none

end UmansGate.Stamp
