/-
UmansGate.Updater.Versions — version numbers and the update check
(`src/updater.ts`).

Of an answer of the registry or of GitHub only its version is kept: the
texts of the errors, the release notes and the install itself are left
out. `Version` and its `precedence` are semantic versioning's and no part
of the source, which only knows the strings; build metadata is left out.
-/
import UmansGate.Lib.Numerals
import UmansGate.Lib.PieceOrder

namespace UmansGate.Updater

open UmansGate.Lib

/-! ## Comparing two strings -/

/-- `s.split(".").map(Number)`. -/
def pieces (s : JsString) : List (Num ℚ) := (s.splitOn 46).map numberOf

def compareVersions (a b : JsString) : ℤ :=
  let pa := pieces a
  let pb := pieces b
  ((List.range (max pa.length pb.length)).findSome? fun i =>
    let va := pa.getD i (.fin 0)
    let vb := pb.getD i (.fin 0)
    if va.lt vb then some (-1) else if vb.lt va then some 1 else none).getD 0

/-! ## The latest version

An answer is the body of an ok response; none where there is no answer, it
is not ok, or its body does not parse. -/

def fetchVersionFromNpm (answer : Option Json) : Option JsString :=
  (answer.bind fun data => data.str? (js "version")).filter (· ≠ [])

/-- `tag_name.replace(/^v/, "")`. -/
def stripV (tagName : JsString) : JsString :=
  if tagName.head? = some 118 then tagName.tail else tagName

/-- A tag name that is no string throws, and the version is none. -/
def fetchVersionFromGithub (answer : Option Json) : Option JsString :=
  (answer.bind fun data => data.str? (js "tag_name")).map stripV

def fetchLatestVersion (npm github : Option Json) : Option JsString :=
  (fetchVersionFromNpm npm).or ((fetchVersionFromGithub github).filter (· ≠ []))

/-! ## The update check -/

/-- What `checkForUpdate` prints. -/
inductive UpdateNotice where
  | unknown
  | available
  | upToDate
  | ahead
  deriving DecidableEq, Repr

def checkForUpdate (currentVersion : JsString) (latest : Option JsString) : UpdateNotice :=
  match latest with
  | none => .unknown
  | some latest =>
    let cmp := compareVersions currentVersion latest
    if cmp < 0 then .available else if cmp = 0 then .upToDate else .ahead

/-- `performUpdate` goes on to install. -/
def performUpdate (currentVersion : JsString) (latest : Option JsString) : Bool :=
  match latest with
  | none => false
  | some latest => ¬ 0 ≤ compareVersions currentVersion latest

/-- The `updateAvailable` of `refreshVersionCheck`. -/
def updateAvailable (currentVersion : JsString) (latest : Option JsString) : Bool :=
  match latest with
  | none => false
  | some latest => compareVersions currentVersion latest < 0

/-! ## Semantic versions -/

/-- A letter, a digit or a hyphen. -/
def isIdentifierUnit (u : UInt16) : Bool :=
  isDigit u || (65 ≤ u && u ≤ 90) || (97 ≤ u && u ≤ 122) || u = 45

/-- An identifier of more than digits. -/
structure Alphanumeric where
  text : JsString
  units : text.all isIdentifierUnit = true
  notNumeric : text.any (fun u => !isDigit u) = true
  deriving DecidableEq

/-- A dot-separated part of a pre-release; a number has no leading zero. -/
inductive Identifier where
  | numeric (n : ℕ)
  | alphanumeric (t : Alphanumeric)
  deriving DecidableEq

def Identifier.text : Identifier → JsString
  | numeric n => Json.indexKey n
  | alphanumeric t => t.text

/-- MAJOR.MINOR.PATCH and the identifiers of the pre-release; a release has
none. -/
structure Version where
  major : ℕ
  minor : ℕ
  patch : ℕ
  pre : List Identifier
  deriving DecidableEq

def Version.text (v : Version) : JsString :=
  [46].intercalate [Json.indexKey v.major, Json.indexKey v.minor, Json.indexKey v.patch] ++
    match v.pre with
    | [] => []
    | ids => 45 :: [46].intercalate (ids.map Identifier.text)

/-- Numbers by value and below the others, those by their units. -/
def Identifier.order : Identifier → Identifier → Ordering
  | numeric m, numeric n => compare m n
  | numeric _, alphanumeric _ => .lt
  | alphanumeric _, numeric _ => .gt
  | alphanumeric s, alphanumeric t => s.text.compareLex compare t.text

/-- A release is above its pre-releases. -/
def preOrder : List Identifier → List Identifier → Ordering
  | [], [] => .eq
  | [], _ :: _ => .gt
  | _ :: _, [] => .lt
  | x :: xs, y :: ys => (x :: xs).compareLex Identifier.order (y :: ys)

def precedence (a b : Version) : Ordering :=
  (compare a.major b.major).then <| (compare a.minor b.minor).then <|
    (compare a.patch b.patch).then (preOrder a.pre b.pre)

structure Version.IsPreReleaseOf (b a : Version) : Prop where
  release : a.pre = []
  preRelease : b.pre ≠ []
  major : b.major = a.major
  minor : b.minor = a.minor
  patch : b.patch = a.patch

/-- What `compareVersions` returns for an order. -/
def orderSign : Ordering → ℤ
  | .lt => -1
  | .eq => 0
  | .gt => 1

end UmansGate.Updater
