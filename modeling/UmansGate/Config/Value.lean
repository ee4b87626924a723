/-
UmansGate.Config.Value — the values of a configuration file.

Numbers are exact, so that a configuration can be checked by evaluation.
`stored` is what a value is read back as once it was written.
-/
import UmansGate.Lib.JsNumber

namespace UmansGate.Config

open UmansGate.Lib

/-- A value of the file. -/
inductive Value where
  | null
  | bool (b : Bool)
  | num (n : Num ℚ)
  | str (s : JsString)
  | arr (items : List Value)
  | obj (fields : List (JsString × Value))

namespace Value

def int (i : ℤ) : Value := num (.fin i)

def text (s : String) : Value := str (js s)

/-- The value of `Number.isInteger(v)`. -/
def integer? : Value → Option ℤ
  | num (.fin q) => if q.den = 1 then some q.num else none
  | _ => none

/-- `typeof v === "boolean"`. -/
def isBool : Value → Bool
  | bool _ => true
  | _ => false

/-- `v === true`. -/
def isTrue : Value → Bool
  | bool b => b
  | _ => false

/-- `typeof v === "string"`. -/
def isString : Value → Bool
  | str _ => true
  | _ => false

def isNull : Value → Bool
  | null => true
  | _ => false

/-- `v === s`. -/
def isText (s : String) : Value → Bool
  | str t => t = js s
  | _ => false

mutual

/-- `JSON.parse(JSON.stringify(v))`. -/
def stored : Value → Value
  | null => null
  | bool b => bool b
  | num n => if n.isFinite then num n else null
  | str s => str s
  | arr items => arr (storedItems items)
  | obj fields => obj (storedFields fields)

def storedItems : List Value → List Value
  | [] => []
  | v :: items => stored v :: storedItems items

def storedFields : List (JsString × Value) → List (JsString × Value)
  | [] => []
  | (key, v) :: fields => (key, stored v) :: storedFields fields

end

mutual

/-- `String(v)` throws: an object has a `toString` of its own, which is no function. -/
def stringThrows : Value → Bool
  | arr items => itemsThrow items
  | obj fields => fields.any fun e => e.1 = js "toString"
  | _ => false

def itemsThrow : List Value → Bool
  | [] => false
  | v :: items => stringThrows v || itemsThrow items

end

/-- A unit of `toLowerCase()`, as far as ASCII can be its result. -/
def lowerUnit (u : UInt16) : UInt16 := if 65 ≤ u && u ≤ 90 then u + 32 else u

/-- `String(v).toLowerCase()` is one of the words. The texts of null, a boolean,
a number and an object are none of them, and that of an array with more than one
element has a comma. -/
def namesOneOf (words : List String) : Value → Bool
  | str s => words.any fun w => s.map lowerUnit = js w
  | arr [v] => namesOneOf words v
  | _ => false

/-! ## What is read back -/

@[simp] theorem stored_str (s : JsString) : stored (str s) = str s := rfl

@[simp] theorem stored_null : stored null = null := rfl

@[simp] theorem stored_bool (b : Bool) : stored (bool b) = bool b := rfl

theorem integer?_stored (v : Value) : v.stored.integer? = v.integer? := by
  cases v with
  | num n => cases n <;> simp [stored, Num.isFinite, integer?]
  | null => rfl
  | bool b => rfl
  | str s => rfl
  | arr items => rfl
  | obj fields => rfl

@[simp] theorem isBool_stored (v : Value) : v.stored.isBool = v.isBool := by
  cases v with
  | num n => cases n <;> simp [stored, Num.isFinite, isBool]
  | null => rfl
  | bool b => rfl
  | str s => rfl
  | arr items => rfl
  | obj fields => rfl

@[simp] theorem isString_stored (v : Value) : v.stored.isString = v.isString := by
  cases v with
  | num n => cases n <;> simp [stored, Num.isFinite, isString]
  | null => rfl
  | bool b => rfl
  | str s => rfl
  | arr items => rfl
  | obj fields => rfl

@[simp] theorem isText_stored (s : String) (v : Value) : v.stored.isText s = v.isText s := by
  cases v with
  | num n => cases n <;> simp [stored, Num.isFinite, isText]
  | null => rfl
  | bool b => rfl
  | str t => rfl
  | arr items => rfl
  | obj fields => rfl

theorem isNull_stored {v : Value} (h : v.isNull = true) : v.stored.isNull = true := by
  cases v with
  | null => rfl
  | bool b => simp [isNull] at h
  | num n => simp [isNull] at h
  | str s => simp [isNull] at h
  | arr items => simp [isNull] at h
  | obj fields => simp [isNull] at h

theorem any_storedFields (fields : List (JsString × Value)) (name : JsString) :
    (storedFields fields).any (fun e => e.1 = name) = fields.any fun e => e.1 = name := by
  induction fields with
  | nil => rfl
  | cons e fields ih => simp [storedFields, ih]

mutual

theorem stringThrows_stored (v : Value) : v.stored.stringThrows = v.stringThrows := by
  cases v with
  | num n => cases n <;> rfl
  | null => rfl
  | bool b => rfl
  | str s => rfl
  | arr items =>
    simp only [stored, stringThrows]
    exact itemsThrow_stored items
  | obj fields => exact any_storedFields fields (js "toString")

theorem itemsThrow_stored (items : List Value) :
    itemsThrow (storedItems items) = itemsThrow items := by
  cases items with
  | nil => rfl
  | cons v items =>
    simp only [storedItems, itemsThrow, stringThrows_stored v, itemsThrow_stored items]

end

theorem namesOneOf_stored {words : List String} {v : Value} (h : v.namesOneOf words = true) :
    v.stored.namesOneOf words = true := by
  fun_induction namesOneOf words v with
  | case1 s => exact h
  | case2 v ih => exact ih h
  | case3 v _ _ => simp at h

end Value

end UmansGate.Config
