/-
UmansGate.Lib.JsonRead — `JSON.parse` of a text without a reviver.

The reader of each production returns the value and the text behind it.
`fuel` bounds the nesting of the calls; a call spends at most two of it for
each unit of the text, so `parse` never runs out. Of two properties with one
name the second replaces the first.
-/
import UmansGate.Lib.JsonObject
import UmansGate.Lib.JsonText

namespace UmansGate.Lib

/-! ## Words and numbers -/

def isJsonSpace (u : UInt16) : Bool := u = 32 || u = 9 || u = 10 || u = 13

def skipSpace (t : JsString) : JsString := t.dropWhile isJsonSpace

def isDigit (u : UInt16) : Bool := 48 ≤ u && u ≤ 57

def digitsValue (digits : JsString) : ℕ := digits.foldl (fun n u => 10 * n + (u.toNat - 48)) 0

/-- The text behind the word, if it begins with it. -/
def readWord (w t : JsString) : Option JsString := if w.isPrefixOf t then some (t.drop w.length) else none

/-- The sign and the digits of an exponent, if there is one. -/
def readExponent (t : JsString) : Option (ℤ × JsString) :=
  match t with
  | [] => some (0, [])
  | u :: rest =>
    if u = 101 ∨ u = 69 then
      let sign : ℤ := if rest.head? = some 45 then -1 else 1
      let rest := if rest.head? = some 45 ∨ rest.head? = some 43 then rest.tail else rest
      let digits := rest.takeWhile isDigit
      if digits = [] then none
      else some (sign * digitsValue digits, rest.dropWhile isDigit)
    else some (0, u :: rest)

/-- The digits behind the point, if there is one. -/
def readFraction (t : JsString) : Option (JsString × JsString) :=
  match t with
  | [] => some ([], [])
  | u :: rest =>
    if u = 46 then
      let digits := rest.takeWhile isDigit
      if digits = [] then none else some (digits, rest.dropWhile isDigit)
    else some ([], u :: rest)

def readNumber (t : JsString) : Option (Json × JsString) :=
  let negative := t.head? = some 45
  let t := if negative then t.tail else t
  let int := t.takeWhile isDigit
  if int = [] ∨ (int.head? = some 48 ∧ 1 < int.length) then none
  else
    match readFraction (t.dropWhile isDigit) with
    | none => none
    | some (fraction, t) =>
      match readExponent t with
      | none => none
      | some (exponent, t) =>
        let v := ofDecimal (digitsValue (int ++ fraction)) (exponent - fraction.length)
        some (.num (if negative then -v else v), t)

/-! ## Strings -/

/-- The value of a hexadecimal digit in either case. -/
def hexDigitValue (u : UInt16) : Option ℕ :=
  if isDigit u then some (u.toNat - 48)
  else if 97 ≤ u && u ≤ 102 then some (u.toNat - 87)
  else if 65 ≤ u && u ≤ 70 then some (u.toNat - 55)
  else none

def readHex (digits : JsString) : Option UInt16 :=
  (digits.foldl (fun n u => n.bind fun n => (hexDigitValue u).map fun d => 16 * n + d) (some 0)).map
    (·.toUInt16)

/-- The unit that a backslash and a letter stand for. -/
def escapedUnit (c : UInt16) : Option UInt16 :=
  if c = quote ∨ c = backslash ∨ c = 47 then some c
  else if c = 98 then some 8
  else if c = 102 then some 12
  else if c = 110 then some 10
  else if c = 114 then some 13
  else if c = 116 then some 9
  else none

/-- The units of a string behind its opening quote. -/
def readString : JsString → Option (JsString × JsString)
  | [] => none
  | u :: rest =>
    if u = quote then some ([], rest)
    else if u < 32 then none
    else if u = backslash then
      match rest with
      | [] => none
      | c :: rest =>
        if c = 117 then
          match rest with
          | h₁ :: h₂ :: h₃ :: h₄ :: rest =>
            (readHex [h₁, h₂, h₃, h₄]).bind fun v => (readString rest).map fun r => (v :: r.1, r.2)
          | _ => none
        else (escapedUnit c).bind fun v => (readString rest).map fun r => (v :: r.1, r.2)
    else (readString rest).map fun r => (u :: r.1, r.2)

/-! ## Values -/

mutual

def readValue : ℕ → JsString → Option (Json × JsString)
  | 0, _ => none
  | fuel + 1, t =>
    match skipSpace t with
    | [] => none
    | u :: rest =>
      if u = 123 then
        match skipSpace rest with
        | [] => none
        | v :: more =>
          if v = 125 then some (.obj [], more)
          else (readMembers fuel [] (v :: more)).map fun r => (.obj r.1, r.2)
      else if u = 91 then
        match skipSpace rest with
        | [] => none
        | v :: more =>
          if v = 93 then some (.arr [], more)
          else (readElements fuel (v :: more)).map fun r => (.arr r.1, r.2)
      else if u = quote then (readString rest).map fun r => (.str r.1, r.2)
      else if u = 110 then (readWord (js "null") (u :: rest)).map fun t => (.null, t)
      else if u = 116 then (readWord (js "true") (u :: rest)).map fun t => (.bool true, t)
      else if u = 102 then (readWord (js "false") (u :: rest)).map fun t => (.bool false, t)
      else readNumber (u :: rest)

/-- The elements of an array up to its end. -/
def readElements : ℕ → JsString → Option (List Json × JsString)
  | 0, _ => none
  | fuel + 1, t =>
    match readValue fuel t with
    | none => none
    | some (v, t) =>
      match skipSpace t with
      | [] => none
      | u :: rest =>
        if u = 44 then (readElements fuel rest).map fun r => (v :: r.1, r.2)
        else if u = 93 then some ([v], rest)
        else none

/-- The members of an object up to its end, after those already read. -/
def readMembers : ℕ → Fields → JsString → Option (Fields × JsString)
  | 0, _, _ => none
  | fuel + 1, fields, t =>
    match skipSpace t with
    | [] => none
    | u :: rest =>
      if u = quote then
        match readString rest with
        | none => none
        | some (key, t) =>
          match skipSpace t with
          | [] => none
          | u :: rest =>
            if u = 58 then
              match readValue fuel rest with
              | none => none
              | some (v, t) =>
                match skipSpace t with
                | [] => none
                | u :: rest =>
                  if u = 44 then readMembers fuel (fields.set key v) rest
                  else if u = 125 then some (fields.set key v, rest)
                  else none
            else none
      else none

end

/-- `JSON.parse`; none where it throws. -/
def Json.parse (t : JsString) : Option Json :=
  match readValue (2 * t.length + 2) t with
  | some (v, rest) => if skipSpace rest = [] then some v else none
  | none => none

end UmansGate.Lib
