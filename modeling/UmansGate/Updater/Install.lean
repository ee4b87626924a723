/-
UmansGate.Updater.Install — SHA256SUMS and the install of a standalone
binary (`src/updater.ts`).

The answers of the network and of the file system are inputs: `World` says
what a request gets and `FileCalls` how each file call ends. `Disk` holds the
binary that runs and the temporary file beside it. What is printed and what
the npm or the development install do are left out.
-/
import UmansGate.Lib.JsText
import UmansGate.Updater.Versions

namespace UmansGate.Updater

open UmansGate.Lib

abbrev Bytes := List UInt8

/-! ## SHA256SUMS -/

def isHexUnit (u : UInt16) : Bool := isDigit u || (65 ≤ u && u ≤ 70) || (97 ≤ u && u ≤ 102)

/-- What `.` does not match. -/
def isLineTerminator (u : UInt16) : Bool := u = 10 || u = 13 || u = 0x2028 || u = 0x2029

/-- `\*?` before `.+`: a star is skipped if something is left behind it. -/
def skipStar : JsString → JsString
  | u :: v :: t => if u = 42 then v :: t else u :: v :: t
  | name => name

/-- The groups of `/^([0-9a-fA-F]{64})\s+\*?(.+)$/` in a text without spaces at
its ends. -/
def matchSum (line : JsString) : Option (JsString × JsString) :=
  let digest := line.take 64
  let rest := line.drop 64
  let name := skipStar (rest.dropWhile isSpaceUnit)
  if digest.length = 64 ∧ digest.all isHexUnit ∧ rest.head?.any isSpaceUnit ∧ name ≠ [] ∧
      ¬ name.any isLineTerminator then
    some (digest, name)
  else none

/-- `digest.toLowerCase()`. -/
def lowerHex (digest : JsString) : JsString :=
  digest.map fun u => if 65 ≤ u && u ≤ 70 then u + 32 else u

def parseSha256Sums (sums assetName : JsString) : Option JsString :=
  (linesOf sums).findSome? fun line =>
    match matchSum (trim line) with
    | some (digest, name) => if name = assetName then some (lowerHex digest) else none
    | none => none

/-! ## Download and replace -/

/-- An asset of a release. -/
structure Asset where
  name : JsString
  browserDownloadUrl : JsString
  size : ℚ
  deriving DecidableEq

/-- How a request ends: it or its body fails, the status is not ok, or the body
is there. -/
inductive Answer (α : Type) where
  | rejects
  | notOk
  | ok (body : α)

structure World where
  platform : JsString
  arch : JsString
  /-- The assets that `fetchLatestRelease` finds. -/
  release : Option (List Asset)
  fetchBytes : JsString → Answer Bytes
  fetchText : JsString → Answer JsString

/-- How `writeSync` ends: it writes so many bytes, or throws and leaves some. -/
inductive Write where
  | wrote (n : ℕ)
  | fails (left : Bytes)

/-- How `copyFileSync` ends: it throws and leaves a part, or nothing. -/
inductive Copy where
  | done
  | fails (left : Option Bytes)

/-- The file calls in their order; `true` where one succeeds. -/
structure FileCalls where
  openSync : Bool
  writeSync : Write
  closeSync : Bool
  chmodSync : Bool
  renameSync : Bool
  copyFileSync : Copy
  unlinkSync : Bool

structure Disk where
  binary : Option Bytes
  tmp : Option Bytes

inductive Exit where
  | returned
  /-- `process.exit(1)`. -/
  | exited
  | threw
  deriving DecidableEq, Repr

def SHA256SUMS_ASSET : JsString := js "SHA256SUMS"

def platformAssetName (platform arch : JsString) : Option JsString :=
  if arch = js "x64" ∨ arch = js "arm64" then
    if platform = js "linux" then some (js "umans-gate-linux-" ++ arch)
    else if platform = js "darwin" then some (js "umans-gate-darwin-" ++ arch)
    else if platform = js "win32" then some (js "umans-gate-win32-" ++ arch ++ js ".exe")
    else none
  else none

/-- The rename of the temporary file, or its copy where that fails. -/
def moveIntoPlace (calls : FileCalls) (disk : Disk) : Exit × Disk :=
  if calls.renameSync then (.returned, { binary := disk.tmp, tmp := none })
  else
    match calls.copyFileSync with
    | .fails left => (.exited, { disk with binary := left })
    | .done =>
      if calls.unlinkSync then (.returned, { binary := disk.tmp, tmp := none })
      else (.exited, { disk with binary := disk.tmp })

/-- The temporary file is written and put in the place of the binary. -/
def replaceBinary (platform : JsString) (calls : FileCalls) (buffer : Bytes) (disk : Disk) :
    Exit × Disk :=
  if ¬ calls.openSync then (.threw, disk)
  else
    match calls.writeSync with
    | .fails left => (.threw, { disk with tmp := some left })
    | .wrote n =>
      let disk := { disk with tmp := some (buffer.take n) }
      if ¬ calls.closeSync then (.threw, disk)
      else if platform ≠ js "win32" ∧ ¬ calls.chmodSync then (.threw, disk)
      else moveIntoPlace calls disk

def downloadAndReplaceStandaloneBinary (computeSha256 : Bytes → JsString) (w : World)
    (calls : FileCalls) (disk : Disk) : Exit × Disk :=
  match w.release with
  | none => (.exited, disk)
  | some assets =>
    match platformAssetName w.platform w.arch with
    | none => (.exited, disk)
    | some assetName =>
      match assets.find? fun a => a.name = assetName with
      | none => (.exited, disk)
      | some asset =>
        match w.fetchBytes asset.browserDownloadUrl with
        | .rejects => (.threw, disk)
        | .notOk => (.exited, disk)
        | .ok buffer =>
          if (buffer.length : ℚ) ≠ asset.size then (.exited, disk)
          else
            match assets.find? fun a => a.name = SHA256SUMS_ASSET with
            | none => (.exited, disk)
            | some sumsAsset =>
              match w.fetchText sumsAsset.browserDownloadUrl with
              | .rejects => (.threw, disk)
              | .notOk => (.exited, disk)
              | .ok sumsText =>
                match parseSha256Sums sumsText assetName with
                | none => (.exited, disk)
                | some expectedDigest =>
                  if computeSha256 buffer ≠ expectedDigest then (.exited, disk)
                  else replaceBinary w.platform calls buffer disk

/-! ## The update -/

inductive InstallMethod where
  | npmGlobal
  | standalone
  | development
  deriving DecidableEq, Repr

/-- One `umans-gate update`. -/
structure Update where
  currentVersion : JsString
  latest : Option JsString
  method : InstallMethod
  /-- `npm update -g` succeeds. -/
  npmUpdate : Bool
  world : World
  calls : FileCalls

/-- `performUpdate` with its install, as far as it reaches the binary of a
standalone install. -/
def Update.perform (computeSha256 : Bytes → JsString) (u : Update) (disk : Disk) : Exit × Disk :=
  match u.latest with
  | none => (.exited, disk)
  | some _ =>
    if performUpdate u.currentVersion u.latest then
      match u.method with
      | .npmGlobal => (if u.npmUpdate then .returned else .exited, disk)
      | .standalone => downloadAndReplaceStandaloneBinary computeSha256 u.world u.calls disk
      | .development => (.returned, disk)
    else (.returned, disk)

end UmansGate.Updater
