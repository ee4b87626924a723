/-
UmansGate.Lib.JsNumber — `Number(s)` of a string, rounded to a double.
-/
import UmansGate.Lib.Double
import UmansGate.Lib.JsText
import UmansGate.Lib.JsonRead

namespace UmansGate.Lib

/-- The value of a digit in any base up to 16; 16 and more for other units. -/
def digitValue (u : UInt16) : ℕ :=
  if isDigit u then u.toNat - 48
  else if 97 ≤ u && u ≤ 102 then u.toNat - 87
  else if 65 ≤ u && u ≤ 70 then u.toNat - 55
  else 16

/-- The digits behind `0x`, `0o` or `0b`. -/
def radixNumber (base : ℕ) (digits : JsString) : Num ℚ :=
  if digits = [] ∨ digits.any (fun u => base ≤ digitValue u) then .nan
  else toDouble (digits.foldl (fun n u => base * n + digitValue u) 0 : ℕ)

/-- A decimal literal without its sign. -/
def decimalNumber (t : JsString) : Num ℚ :=
  if t = js "Infinity" then .posInf
  else
    let int := t.takeWhile isDigit
    let rest := t.dropWhile isDigit
    let fraction := if rest.head? = some 46 then rest.tail.takeWhile isDigit else []
    let rest := if rest.head? = some 46 then rest.tail.dropWhile isDigit else rest
    match readExponent rest with
    | some (exponent, []) =>
      if int = [] ∧ fraction = [] then .nan
      else
        toDouble ((digitsValue (int ++ fraction) : ℚ) * (10 : ℚ) ^ (exponent - fraction.length))
    | _ => .nan

/-- `Number(s)`. -/
def numberOf (s : JsString) : Num ℚ :=
  match trim s with
  | [] => .fin 0
  | u :: rest =>
    if u = 43 then decimalNumber rest
    else if u = 45 then (Num.fin 0).subD (decimalNumber rest)
    else if u = 48 then
      match rest with
      | [] => .fin 0
      | v :: digits =>
        if v = 120 ∨ v = 88 then radixNumber 16 digits
        else if v = 111 ∨ v = 79 then radixNumber 8 digits
        else if v = 98 ∨ v = 66 then radixNumber 2 digits
        else decimalNumber (u :: rest)
    else decimalNumber (u :: rest)

end UmansGate.Lib
