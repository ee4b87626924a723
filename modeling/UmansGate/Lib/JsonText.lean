/-
UmansGate.Lib.JsonText — `JSON.stringify` without a replacer or spaces.

The text of a value in UTF-16 code units, with the shortest digits of a
number that read back as that number. `Plain` units stand for themselves
inside a string; every other unit is escaped, so the quotes of a text are
the ends of its strings and those behind a backslash.
-/
import Mathlib.Data.Nat.Digits.Defs
import UmansGate.Lib.Json

namespace UmansGate.Lib

/-! ## Numbers -/

/-- The decimal digits of a positive number. -/
def decimal (n : ℕ) : JsString := (Nat.digits 10 n).reverse.map fun d => (48 + d).toUInt16

/-- The magnitude of a finite number as a fraction. -/
def magnitude (x : Float) : ℕ × ℕ :=
  let bits := x.toBits.toNat
  let fraction := bits % 2 ^ 52
  let exponent := bits / 2 ^ 52 % 2 ^ 11
  if exponent = 0 then (fraction, 2 ^ 1074)
  else if exponent < 1075 then (fraction + 2 ^ 52, 2 ^ (1075 - exponent))
  else ((fraction + 2 ^ 52) * 2 ^ (exponent - 1075), 1)

/-- The `n` with `10 ^ (n - 1) ≤ num / den < 10 ^ n`. -/
def decimalPoint (num den : ℕ) : ℤ :=
  if den ≤ num then (Nat.digits 10 (num / den)).length
  else
    match (List.range 330).find? fun j => den ≤ num * 10 ^ j with
    | some j => 1 - j
    | none => 0

/-- `s * 10 ^ e`. -/
def ofDecimal (s : ℕ) (e : ℤ) : Float :=
  if 0 ≤ e then Float.ofScientific s false e.toNat else Float.ofScientific s true (-e).toNat

/-- The `k` digits closest to a number, if they read back as it. -/
def digitsOf (x : Float) (num den : ℕ) (n : ℤ) (k : ℕ) : Option ℕ :=
  let e := n - k
  let num' := if 0 ≤ e then num else num * 10 ^ (-e).toNat
  let den' := if 0 ≤ e then den * 10 ^ e.toNat else den
  let s := num' / den'
  let candidates := if 2 * (num' % den') ≤ den' then [s, s + 1] else [s + 1, s]
  candidates.find? fun s => ofDecimal s e == x

/-- The digits `s` of a positive finite number, as few as possible, their
count `k` and the place `n` of the point. -/
def shortest (x : Float) : ℕ × ℕ × ℤ :=
  let (num, den) := magnitude x
  let n := decimalPoint num den
  match (List.range 17).findSome? fun k => (digitsOf x num den n (k + 1)).map (·, k + 1) with
  | some (s, k) => if s = 10 ^ k then (s / 10, k, n + 1) else (s, k, n)
  | none => (0, 1, 1)

def zeros (n : ℕ) : JsString := List.replicate n 48

/-- `Number::toString` of a positive finite number. -/
def positiveText (x : Float) : JsString :=
  let (s, k, n) := shortest x
  let digits := decimal s
  if (k : ℤ) ≤ n ∧ n ≤ 21 then digits ++ zeros (n - k).toNat
  else if 0 < n ∧ n ≤ 21 then digits.take n.toNat ++ js "." ++ digits.drop n.toNat
  else if -6 < n ∧ n ≤ 0 then js "0." ++ zeros (-n).toNat ++ digits
  else
    let e := n - 1
    let exponent := (if 0 < e then js "e+" else js "e-") ++ decimal e.natAbs
    if k = 1 then digits ++ exponent
    else digits.take 1 ++ js "." ++ digits.drop 1 ++ exponent

/-- The text of a number; a number that is not finite is `null`. -/
def numberText (x : Float) : JsString :=
  if x.isFinite then
    if x == 0 then js "0"
    else if x < 0 then js "-" ++ positiveText (-x)
    else positiveText x
  else js "null"

/-! ## Strings -/

/-- The two units around a string, and the one before an escaped unit. -/
def quote : UInt16 := 34

def backslash : UInt16 := 92

def isHighSurrogate (u : UInt16) : Bool := 0xD800 ≤ u && u < 0xDC00

def isLowSurrogate (u : UInt16) : Bool := 0xDC00 ≤ u && u < 0xE000

def hexDigit (n : ℕ) : UInt16 := if n < 10 then (48 + n).toUInt16 else (87 + n).toUInt16

/-- The escape of one unit by its number. -/
def unicodeEscape (u : UInt16) : JsString :=
  [backslash, 117] ++ [12, 8, 4, 0].map fun shift => hexDigit (u.toNat / 2 ^ shift % 16)

/-- A unit of a string that is no half of a pair. -/
def escapeUnit (u : UInt16) : JsString :=
  if u = 8 then [backslash, 98]
  else if u = 9 then [backslash, 116]
  else if u = 10 then [backslash, 110]
  else if u = 12 then [backslash, 102]
  else if u = 13 then [backslash, 114]
  else if u = quote then [backslash, quote]
  else if u = backslash then [backslash, backslash]
  else if u < 32 ∨ isHighSurrogate u = true ∨ isLowSurrogate u = true then unicodeEscape u
  else [u]

/-- The units of a string between its quotes. -/
def escape : JsString → JsString
  | [] => []
  | [u] => escapeUnit u
  | u :: v :: rest =>
    if isHighSurrogate u && isLowSurrogate v then u :: v :: escape rest
    else escapeUnit u ++ escape (v :: rest)

/-- `QuoteJSONString`. -/
def quoteString (s : JsString) : JsString := quote :: escape s ++ [quote]

/-! ## Values -/

mutual

def stringify : Json → JsString
  | .null => js "null"
  | .bool b => if b then js "true" else js "false"
  | .num n => numberText n
  | .str s => quoteString s
  | .arr items => js "[" ++ itemsText items ++ js "]"
  | .obj fields => js "\x7b" ++ fieldsText fields ++ js "\x7d"

def itemsText : List Json → JsString
  | [] => []
  | [v] => stringify v
  | v :: w :: rest => stringify v ++ js "," ++ itemsText (w :: rest)

def fieldsText : List (JsString × Json) → JsString
  | [] => []
  | [(key, v)] => quoteString key ++ js ":" ++ stringify v
  | (key, v) :: field :: rest =>
    quoteString key ++ js ":" ++ stringify v ++ js "," ++ fieldsText (field :: rest)

end

end UmansGate.Lib
