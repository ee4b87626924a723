/-
UmansGate.Stamp.Inbound — the views of a request body that the proxy keeps
(`src/proxy.ts`, `parseInbound`, `insertEarlyCapture`, `runVisionHandoff`).

The steps stamp the parsed body in place; the bytes are written again
behind them if one reported a change. An exception out of a step, its log
line included, ends the loop and is logged. `reqBuf` is the text of the
bytes. A body that is falsy is parsed once more by the vision stage and
then skipped.
-/
import UmansGate.Lib.JsonText
import UmansGate.Stamp.Pipeline

namespace UmansGate.Stamp

open UmansGate.Lib

/-- The steps that apply, one after the other. `fault` is the number of steps
whose work is done when an exception of another origin is thrown. -/
def runUntil (ctx : StampContext) : Option ℕ → List StampStep → Json → Bool → Stamped
  | some 0, _, body, _ => .threw body
  | _, [], body, changed => .returned body changed
  | fault, step :: rest, body, changed =>
    if step.applies ctx then
      match step.apply body ctx with
      | .returned body stepChanged =>
        runUntil ctx (fault.map Nat.pred) rest body (changed || stepChanged)
      | .threw body => .threw body
    else runUntil ctx (fault.map Nat.pred) rest body changed

/-- The loop is entered for an object only. -/
def stampRun (ctx : StampContext) (fault : Option ℕ) (body : Json) : Stamped :=
  if body.isObject then runUntil ctx fault STAMP_PIPELINE body false else .returned body false

structure Inbound where
  reqBuf : JsString
  body : Json

namespace Inbound

variable (inbound : Inbound)

/-- What goes upstream. -/
def forwarded : JsString := inbound.reqBuf

/-- `reqBodyText`, the body of the capture row. -/
def captured : JsString := inbound.reqBuf

/-- The body that `processBody` gets. -/
def handedToVision : Option Json := if inbound.body.truthy then some inbound.body else none

end Inbound

/-- The views behind the loop. -/
def parseInbound (ctx : StampContext) (fault : Option ℕ) (reqBuf : JsString) (body : Json) : Inbound :=
  match stampRun ctx fault body with
  | .returned body true => ⟨stringify body, body⟩
  | .returned body false => ⟨reqBuf, body⟩
  | .threw body => ⟨reqBuf, body⟩

end UmansGate.Stamp
