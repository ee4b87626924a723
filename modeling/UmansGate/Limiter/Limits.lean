/-
UmansGate.Limiter.Limits — the limits of the semaphore for any numbers
(`src/limiter/gate.ts`, class `Semaphore`).

`Semaphore` counts in integers, which its callers keep small. Here every
number is a double, so that a setter can be given any: NaN, an infinity, a
fraction, or one that is too large to be scaled. The queue and the permits
are left out: no setter of a limit reads them, and draining the queue changes
no limit. What admission reads of them is a `Load`.
-/
import UmansGate.Lib.Dict
import UmansGate.Lib.Double
import UmansGate.Lib.Transition

namespace UmansGate.Limiter

open UmansGate.Lib

/-- The fields of the semaphore that its setters write. -/
structure GateLimits where
  limit : Num ℚ
  hardCap : Num ℚ
  softLimit : Num ℚ
  releaseCooldownMs : Num ℚ
  maxQueueDepth : Num ℚ
  queueTimeoutMs : Num ℚ
  reservations : Dict String (Num ℚ)

/-- The constructor options that the semaphore reads. -/
structure LimitOptions where
  hardCap : Num ℚ
  softLimit : Num ℚ
  releaseCooldownMs : Num ℚ
  maxQueueDepth : Num ℚ
  queueTimeoutMs : Num ℚ
  intentions : Option (Dict String (Num ℚ)) := none

/-- And those that `reconfigure` reads. -/
structure LimitReconfigureOptions where
  releaseCooldownMs : Option (Num ℚ) := none
  maxQueueDepth : Option (Num ℚ) := none
  queueTimeoutMs : Option (Num ℚ) := none
  intentions : Option (Dict String (Num ℚ)) := none

/-- What is in use and what waits. -/
structure Load where
  active : Num ℚ
  activeByIntention : Dict String (Num ℚ)
  queuedByIntention : Dict String (Num ℚ)

inductive LimitOp where
  | resize (newLimit : Num ℚ)
  | setHardCap (newHardCap : Num ℚ)
  | setSoftLimit (newSoftLimit : Num ℚ)
  | reconfigure (opts : LimitReconfigureOptions)

namespace GateLimits

/-- `SCALE`. -/
def scale : Num ℚ := .fin 1000

/-- `Math.max(1, Math.floor(x)) * SCALE`. -/
def scaledFloor (x : Num ℚ) : Num ℚ := (Num.max (.fin 1) x.floorD).mulD scale

/-- `Math.round(src[key] * SCALE)` for every key. -/
def scaleIntentions (src : Dict String (Num ℚ)) : Dict String (Num ℚ) :=
  src.keys.foldl (fun out key => out.set key ((src.getD key .nan).mulD scale).roundD) []

def new (opts : LimitOptions) : GateLimits :=
  let hardCap := scaledFloor opts.hardCap
  let softLimit := scaledFloor opts.softLimit
  { limit := Num.max scale (Num.min softLimit hardCap)
    hardCap := hardCap
    softLimit := softLimit
    releaseCooldownMs := opts.releaseCooldownMs
    maxQueueDepth := opts.maxQueueDepth
    queueTimeoutMs := opts.queueTimeoutMs
    reservations := scaleIntentions (opts.intentions.getD [("main", .fin 1)]) }

def reconfigure (g : GateLimits) (opts : LimitReconfigureOptions) : GateLimits :=
  { g with
    releaseCooldownMs := opts.releaseCooldownMs.getD g.releaseCooldownMs
    maxQueueDepth := opts.maxQueueDepth.getD g.maxQueueDepth
    queueTimeoutMs := opts.queueTimeoutMs.getD g.queueTimeoutMs
    reservations := (opts.intentions.map scaleIntentions).getD g.reservations }

def resize (g : GateLimits) (newLimit : Num ℚ) : GateLimits :=
  let scaled := (newLimit.mulD scale).roundD
  let clamped := Num.max scale (Num.min scaled g.hardCap)
  if clamped.eqD g.limit then g else { g with limit := clamped }

/-- The guard of `setHardCap` and `setSoftLimit`. -/
def failSafe (x : Num ℚ) : Num ℚ := if x.isFinite then x else .fin 1

def setHardCap (g : GateLimits) (newHardCap : Num ℚ) : GateLimits :=
  let cap := scaledFloor (failSafe newHardCap)
  if cap.eqD g.hardCap then g
  else
    { g with
      hardCap := cap
      softLimit := if Num.lt cap g.softLimit then cap else g.softLimit
      limit := if Num.lt cap g.limit then cap else g.limit }

def setSoftLimit (g : GateLimits) (newSoftLimit : Num ℚ) : GateLimits :=
  let v := scaledFloor (failSafe newSoftLimit)
  if v.eqD g.softLimit then g else { g with softLimit := v }

def step (g : GateLimits) : LimitOp → GateLimits
  | .resize newLimit => g.resize newLimit
  | .setHardCap newHardCap => g.setHardCap newHardCap
  | .setSoftLimit newSoftLimit => g.setSoftLimit newSoftLimit
  | .reconfigure opts => g.reconfigure opts

/-! ## Admission -/

def effectiveReservations (g : GateLimits) : Dict String (Num ℚ) :=
  let keys := g.reservations.keys
  let sum := keys.foldl (fun s k => s.addD (g.reservations.getD k (.fin 0))) (.fin 0)
  if Num.le sum g.limit then
    keys.foldl (fun out k => out.set k (g.reservations.getD k (.fin 0))) []
  else
    (keys.foldl (fun (acc : Dict String (Num ℚ) × Num ℚ) k =>
        let scaled := (((g.reservations.getD k (.fin 0)).divD sum).mulD g.limit).floorD
        let v := Num.max (.fin 0) (Num.min scaled acc.2)
        (acc.1.set k v, acc.2.subD v))
      ([], g.limit)).1

def capacity (g : GateLimits) (load : Load) (intention : String) (effRes : Dict String (Num ℚ)) :
    Num ℚ :=
  g.limit.subD
    (effRes.keys.foldl (fun reserved k =>
        if k = intention then reserved
        else
          let active := load.activeByIntention.getD k (.fin 0)
          let queued := load.queuedByIntention.getD k (.fin 0)
          if (active.addD queued).eqD (.fin 0) then reserved
          else reserved.addD (Num.max (.fin 0) ((effRes.getD k (.fin 0)).subD active)))
      (.fin 0))

def canGrant (g : GateLimits) (load : Load) (intention : String) (weight : Num ℚ) : Bool :=
  let effRes := g.effectiveReservations
  let reserved := effRes.getD intention (.fin 0)
  if Num.lt g.limit (load.active.addD weight) then false
  else if Num.le ((load.activeByIntention.getD intention (.fin 0)).addD weight) reserved then true
  else
    let overSubscribed := g.reservations.keys.any fun k =>
      Num.lt (effRes.getD k (.fin 0)) (g.reservations.getD k (.fin 0))
    if overSubscribed then Num.le (load.active.addD weight) g.limit
    else Num.le (load.active.addD weight) (g.capacity load intention effRes)

end GateLimits

end UmansGate.Limiter
