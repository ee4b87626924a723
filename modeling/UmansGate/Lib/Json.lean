/-
UmansGate.Lib.Json — JSON values as `JSON.parse` returns them.

Strings are sequences of UTF-16 code units, numbers are IEEE doubles, and
an object is its properties in order. `get?` reads a property and is none
on everything but an object. A function that walks the arrays nested in a
value recurses on `items?`; `sizeOf_items?_lt` is its termination argument
and `listInduction` the induction that follows such a walk.
-/
import UmansGate.Lib.Dict

namespace UmansGate.Lib

/-- A JavaScript string. -/
abbrev JsString := List UInt16

/-- The code units of a character. -/
def utf16 (c : Char) : JsString :=
  if c.toNat < 0x10000 then [c.toNat.toUInt16]
  else
    let n := c.toNat - 0x10000
    [(0xD800 + n / 0x400).toUInt16, (0xDC00 + n % 0x400).toUInt16]

/-- A string literal. -/
def js (s : String) : JsString := s.toList.flatMap utf16

inductive Json where
  | null
  | bool (b : Bool)
  | num (n : Float)
  | str (s : JsString)
  | arr (items : List Json)
  | obj (fields : List (JsString × Json))

namespace Json

/-- The property `key` of a value. -/
def get? : Json → JsString → Option Json
  | obj fields, key => Dict.get? fields key
  | _, _ => none

/-- Store a property of an object. -/
def set : Json → JsString → Json → Json
  | obj fields, key, value => obj (Dict.set fields key value)
  | v, _, _ => v

/-- `typeof v === "object" && v !== null`. -/
def isObject : Json → Bool
  | arr _ => true
  | obj _ => true
  | _ => false

/-- The property `key`, if it is a string. -/
def str? (v : Json) (key : JsString) : Option JsString :=
  match v.get? key with
  | some (str s) => some s
  | _ => none

/-- The property `key`, if it is an array. -/
def items? (v : Json) (key : JsString) : Option (List Json) :=
  match v.get? key with
  | some (arr items) => some items
  | _ => none

/-- The value is this string. -/
def isStr : Json → JsString → Bool
  | str s, lit => s = lit
  | _, _ => false

variable {key : JsString} {v w : Json} {items : List Json}

theorem items?_eq_some : v.items? key = some items ↔ v.get? key = some (arr items) := by
  unfold items?
  split
  · rename_i l heq
    rw [heq]
    simp
  · rename_i hno
    constructor
    · intro h
      exact absurd h (by simp)
    · intro h
      exact absurd h (hno items)

theorem isObject_of_get? (h : v.get? key = some w) : v.isObject = true := by
  cases v with
  | obj fields => rfl
  | _ => exact absurd h (by simp [get?])

/-- A property is smaller than its object. -/
theorem sizeOf_get?_lt (h : v.get? key = some w) : sizeOf w < sizeOf v := by
  cases v with
  | obj fields =>
    have hmem : (key, w) ∈ fields := Dict.mem_of_get? h
    have hlt := List.sizeOf_lt_of_mem hmem
    simp only [Prod.mk.sizeOf_spec] at hlt
    simp only [obj.sizeOf_spec]
    omega
  | _ => exact absurd h (by simp [get?])

theorem sizeOf_items?_lt (h : v.items? key = some items) : sizeOf items < sizeOf v := by
  have hlt := sizeOf_get?_lt (items?_eq_some.mp h)
  simp only [arr.sizeOf_spec] at hlt
  omega

/-- Induction along a walk that enters the arrays under `key`. -/
theorem listInduction {P : List Json → Prop} (key : JsString) (nil : P [])
    (cons : ∀ v rest, (∀ items, v.items? key = some items → P items) → P rest → P (v :: rest)) :
    ∀ items, P items
  | [] => nil
  | v :: rest => cons v rest (fun items _ => listInduction key nil cons items)
      (listInduction key nil cons rest)
termination_by items => sizeOf items
decreasing_by
  · have hlt := sizeOf_items?_lt ‹_›
    simp only [List.cons.sizeOf_spec]
    omega
  · simp only [List.cons.sizeOf_spec]
    omega

/-- The property just stored. -/
theorem get?_set (h : v.get? key = some w) (value : Json) :
    (v.set key value).get? key = some value := by
  cases v with
  | obj fields => exact Dict.get?_set_self fields key value
  | _ => exact absurd h (by simp [get?])

/-- Two arrays stored under a key that holds one are equal when the objects are. -/
theorem arr_of_set_eq {xs ys : List Json} (h : v.items? key = some items)
    (heq : v.set key (arr xs) = v.set key (arr ys)) : xs = ys := by
  have hget := items?_eq_some.mp h
  have hx := get?_set hget (arr xs)
  rw [heq, get?_set hget (arr ys)] at hx
  cases hx
  rfl

theorem get?_set_of_ne {key' : JsString} (hne : key ≠ key') (value : Json) :
    (v.set key value).get? key' = v.get? key' := by
  cases v with
  | obj fields =>
    simp only [set, get?]
    rw [Dict.get?_set, if_neg hne]
  | _ => rfl

end Json

end UmansGate.Lib
