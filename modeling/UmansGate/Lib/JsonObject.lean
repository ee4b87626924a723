/-
UmansGate.Lib.JsonObject — what the language does with the properties of
a parsed value: the spread `{ ...v }`, `in`, `delete`, assignment,
truthiness.

`assign` is the assignment under a key the program does not choose. It
stores no property under `__proto__` unless the object has one of its own,
as `JSON.parse` makes them: that assignment sets the prototype, which is
not part of the value.
-/
import UmansGate.Lib.Json

namespace UmansGate.Lib

/-- The properties of an object, in order. -/
abbrev Fields := Dict JsString Json

namespace Json

/-- The name of an index. -/
def indexKey (i : ℕ) : JsString := js (toString i)

/-- The properties that `{ ...v }` copies. -/
def spread : Json → Fields
  | arr items => items.mapIdx fun i v => (indexKey i, v)
  | obj fields => fields
  | str s => s.mapIdx fun i u => (indexKey i, str [u])
  | _ => []

/-- `v` is an object and no array. -/
def isRecord : Json → Bool
  | obj _ => true
  | _ => false

/-- `key in v`. -/
def has (v : Json) (key : JsString) : Bool := (v.get? key).isSome

/-- `delete v[key]`. -/
def remove : Json → JsString → Json
  | obj fields, key => obj (fields.filter fun e => e.1 ≠ key)
  | v, _ => v

def truthy : Json → Bool
  | null => false
  | bool b => b
  | num n => !(n == 0 || n.isNaN)
  | str s => s ≠ []
  | _ => true

/-- `v === w`; two arrays or objects are two references. -/
def strictEquals : Json → Json → Bool
  | null, null => true
  | bool b, bool c => b = c
  | num n, num m => n == m
  | str s, str t => s = t
  | _, _ => false

/-- `v[key] === w`. -/
def propIs (v : Json) (key : JsString) (w : Json) : Bool :=
  match v.get? key with
  | some x => strictEquals x w
  | none => false

def protoKey : JsString := js "__proto__"

/-- `v[key] = value` for any key. -/
def assign (v : Json) (key : JsString) (value : Json) : Json :=
  if key = protoKey ∧ v.get? key = none then v else v.set key value

/-- One assignment for each entry (`Object.assign`). -/
def assignAll (v : Json) : Fields → Json
  | [] => v
  | (key, value) :: entries => assignAll (v.assign key value) entries

variable {key key' : JsString} {v w : Json} {entries : Fields}

/-! ## Indices -/

theorem toNat_of_mem_toDigits {n : ℕ} {c : Char} (hc : c ∈ Nat.toDigits 10 n) :
    48 ≤ c.toNat ∧ c.toNat ≤ 57 := by
  have hdigit := Nat.isDigit_of_mem_toDigits (by decide) (by decide) hc
  simp only [Char.isDigit, Bool.and_eq_true, decide_eq_true_eq] at hdigit
  exact hdigit

theorem indexKey_eq (n : ℕ) :
    indexKey n = (Nat.toDigits 10 n).map fun c => c.toNat.toUInt16 := by
  have hdigits : ∀ c ∈ Nat.toDigits 10 n, c.toNat ≤ 57 := fun c hc => (toNat_of_mem_toDigits hc).2
  unfold indexKey js
  rw [Nat.toString_eq_repr, Nat.toList_repr]
  generalize Nat.toDigits 10 n = cs at hdigits
  induction cs with
  | nil => rfl
  | cons c cs ih =>
    have hc := hdigits c List.mem_cons_self
    rw [List.flatMap_cons, List.map_cons, ih fun d hd => hdigits d (List.mem_cons_of_mem c hd),
      utf16, if_pos (by omega)]
    rfl

/-- An index is read back from its name. -/
theorem indexKey_injective : Function.Injective indexKey := by
  have hread : ∀ n, Nat.ofDigitChars 10 ((indexKey n).map fun u => Char.ofNat u.toNat) 0 =
      n := by
    intro n
    have hchars : (indexKey n).map (fun u => Char.ofNat u.toNat) = Nat.toDigits 10 n := by
      rw [indexKey_eq, List.map_map]
      refine (List.map_congr_left fun c hc => ?_).trans (List.map_id _)
      have hdigit := toNat_of_mem_toDigits hc
      have hunit : c.toNat.toUInt16.toNat = c.toNat := by
        simp only [Nat.toUInt16, UInt16.toNat_ofNat']
        omega
      simp only [Function.comp, hunit, Char.ofNat_toNat, id]
    rw [hchars]
    exact Nat.ofDigitChars_toDigits (by decide) (by decide)
  intro m n h
  rw [← hread m, ← hread n, h]

/-! ## Reading after writing -/

theorem get?_set_record (h : v.isRecord = true) (value : Json) :
    (v.set key value).get? key' = if key = key' then some value else v.get? key' := by
  cases v with
  | obj fields => exact Dict.get?_set fields key key' value
  | _ => exact absurd h (by simp [isRecord])

@[simp] theorem isRecord_set (v : Json) (key : JsString) (value : Json) :
    (v.set key value).isRecord = v.isRecord := by
  cases v <;> rfl

/-- Storing what is there changes nothing. -/
theorem set_eq_self (h : v.get? key = some w) : v.set key w = v := by
  cases v with
  | obj fields => exact congrArg obj (Dict.set_eq_self h)
  | _ => rfl

theorem set_of_not_record (h : v.isRecord = false) (key : JsString) (value : Json) :
    v.set key value = v := by
  cases v with
  | obj fields => exact absurd h (by simp [isRecord])
  | _ => rfl

theorem get?_of_not_record (h : v.isRecord = false) (key : JsString) : v.get? key = none := by
  cases v with
  | obj fields => exact absurd h (by simp [isRecord])
  | _ => rfl

theorem isRecord_of_get? (h : v.get? key = some w) : v.isRecord = true := by
  cases v with
  | obj fields => rfl
  | _ => exact absurd h (by simp [get?])

theorem isObject_of_isRecord (h : v.isRecord = true) : v.isObject = true := by
  cases v with
  | obj fields => rfl
  | _ => exact absurd h (by simp [isRecord])

/-- What a write leaves under a key of its own or of another. -/
theorem set_eq_iff (h : v.isRecord = true) (value : Json) :
    v.set key value = v ↔ v.get? key = some value := by
  constructor
  · intro heq
    rw [← heq, get?_set_record h, if_pos rfl]
  · exact set_eq_self

theorem get?_remove (v : Json) (key key' : JsString) :
    (v.remove key).get? key' = if key = key' then none else v.get? key' := by
  cases v with
  | obj fields =>
    simp only [remove, get?]
    induction fields with
    | nil => simp
    | cons e fields ih =>
      obtain ⟨k, x⟩ := e
      by_cases hk : k = key
      · rw [List.filter_cons_of_neg (by simp [hk]), ih, Dict.get?_cons, hk]
        split <;> rfl
      · rw [List.filter_cons_of_pos (by simp [hk]), Dict.get?_cons, Dict.get?_cons, ih]
        by_cases hk' : k = key'
        · rw [if_pos hk', if_pos hk', if_neg (fun heq => hk (hk'.trans heq.symm))]
        · rw [if_neg hk', if_neg hk']
  | _ => simp [remove, get?]

@[simp] theorem isRecord_remove (v : Json) (key : JsString) :
    (v.remove key).isRecord = v.isRecord := by
  cases v <;> rfl

theorem remove_of_not_record (h : v.isRecord = false) (key : JsString) : v.remove key = v := by
  cases v with
  | obj fields => exact absurd h (by simp [isRecord])
  | _ => rfl

/-- A property that is not there cannot be removed. -/
theorem remove_eq_self (h : v.get? key = none) : v.remove key = v := by
  cases v with
  | obj fields =>
    have hne : ∀ e ∈ fields, decide (e.1 ≠ key) = true := by
      intro e he
      rw [decide_eq_true_iff]
      rintro rfl
      have hmem : e.1 ∈ Dict.keys fields := List.mem_map_of_mem he
      exact absurd h (Dict.get?_ne_none_of_mem hmem)
    exact congrArg obj (List.filter_eq_self.mpr hne)
  | _ => rfl

/-- The last value stored is the one that stays. -/
theorem set_set (v : Json) (key : JsString) (x y : Json) : (v.set key x).set key y = v.set key y := by
  cases v with
  | obj fields => exact congrArg obj (Dict.set_set fields key x y)
  | _ => rfl

theorem remove_set (v : Json) (key : JsString) (x : Json) :
    (v.set key x).remove key = v.remove key := by
  cases v with
  | obj fields => exact congrArg obj (Dict.filter_set fields key x)
  | _ => rfl

theorem remove_remove (v : Json) (key : JsString) : (v.remove key).remove key = v.remove key := by
  cases v with
  | obj fields => simp [remove]
  | _ => rfl

/-! ## Arrays of an object -/

/-- The array under a key replaced; anything else under it stays. -/
def mapItems (key : JsString) (f : List Json → List Json) (v : Json) : Json :=
  match v.items? key with
  | some items => v.set key (arr (f items))
  | none => v

section MapItems

variable {f g : List Json → List Json}

theorem mapItems_of_items? {items : List Json} (h : v.items? key = some items)
    (f : List Json → List Json) : v.mapItems key f = v.set key (arr (f items)) := by
  simp [mapItems, h]

theorem mapItems_of_none (h : v.items? key = none) (f : List Json → List Json) :
    v.mapItems key f = v := by
  simp [mapItems, h]

theorem items?_mapItems (key : JsString) (f : List Json → List Json) (v : Json) :
    (v.mapItems key f).items? key = (v.items? key).map f := by
  cases h : v.items? key with
  | some items =>
    rw [mapItems_of_items? h]
    exact items?_eq_some.mpr (get?_set (items?_eq_some.mp h) _)
  | none =>
    rw [mapItems_of_none h]
    exact h

theorem get?_mapItems_of_ne (hne : key ≠ key') (f : List Json → List Json) (v : Json) :
    (v.mapItems key f).get? key' = v.get? key' := by
  unfold mapItems
  split
  · exact get?_set_of_ne hne _
  · rfl

theorem items?_mapItems_of_ne (hne : key ≠ key') (f : List Json → List Json) (v : Json) :
    (v.mapItems key f).items? key' = v.items? key' := by
  unfold items?
  rw [get?_mapItems_of_ne hne]

theorem mapItems_mapItems (key : JsString) (f g : List Json → List Json) (v : Json) :
    (v.mapItems key f).mapItems key g = v.mapItems key (g ∘ f) := by
  have hitems := items?_mapItems key f v
  cases h : v.items? key with
  | some items =>
    rw [h] at hitems
    rw [mapItems_of_items? hitems, mapItems_of_items? h, mapItems_of_items? h, set_set]
    rfl
  | none =>
    rw [mapItems_of_none h, mapItems_of_none h, mapItems_of_none h]

theorem mapItems_congr (h : ∀ items, v.items? key = some items → f items = g items) :
    v.mapItems key f = v.mapItems key g := by
  unfold mapItems
  split
  · rw [h _ ‹_›]
  · rfl

theorem mapItems_eq_self (h : ∀ items, v.items? key = some items → f items = items) :
    v.mapItems key f = v := by
  unfold mapItems
  split
  · rename_i items hitems
    rw [h items hitems]
    exact set_eq_self (items?_eq_some.mp hitems)
  · rfl

theorem mapItems_eq_self_iff :
    v.mapItems key f = v ↔ ∀ items, v.items? key = some items → f items = items := by
  constructor
  · intro heq items hitems
    have hget := items?_mapItems key f v
    rw [heq, hitems, Option.map_some, Option.some.injEq] at hget
    exact hget.symm
  · exact mapItems_eq_self

/-- Two arrays replaced one after the other are both the ones that were
there. -/
theorem mapItems_mapItems_eq_self_iff (hne : key ≠ key') :
    (v.mapItems key f).mapItems key' g = v ↔
      (∀ items, v.items? key = some items → f items = items) ∧
        ∀ items, v.items? key' = some items → g items = items := by
  constructor
  · intro heq
    have hfirst := items?_mapItems_of_ne (Ne.symm hne) g (v.mapItems key f)
    have hsecond := items?_mapItems key' g (v.mapItems key f)
    rw [heq, items?_mapItems] at hfirst
    rw [heq, items?_mapItems_of_ne hne] at hsecond
    refine ⟨fun items hitems => ?_, fun items hitems => ?_⟩
    · rw [hitems, Option.map_some, Option.some.injEq] at hfirst
      exact hfirst.symm
    · rw [hitems, Option.map_some, Option.some.injEq] at hsecond
      exact hsecond.symm
  · intro hp
    obtain ⟨hfirst, hsecond⟩ := hp
    rw [mapItems_eq_self hfirst, mapItems_eq_self hsecond]

@[simp] theorem isRecord_mapItems (key : JsString) (f : List Json → List Json) (v : Json) :
    (v.mapItems key f).isRecord = v.isRecord := by
  unfold mapItems
  split <;> simp

theorem mapItems_of_not_record (h : v.isRecord = false) (f : List Json → List Json) :
    v.mapItems key f = v := by
  unfold mapItems
  split
  · exact set_of_not_record h key _
  · rfl

/-- The value under the key is the array replaced, or what was there. -/
theorem get?_mapItems (key : JsString) (f : List Json → List Json) (v : Json) :
    (v.mapItems key f).get? key =
      match v.get? key with
      | some (arr items) => some (arr (f items))
      | other => other := by
  cases h : v.items? key with
  | some items =>
    have hget := items?_eq_some.mp h
    rw [mapItems_of_items? h, get?_set hget, hget]
  | none =>
    rw [mapItems_of_none h]
    split
    · rename_i items hget
      rw [items?_eq_some.mpr hget] at h
      cases h
    · rfl

end MapItems

/-! ## Assignment -/

@[simp] theorem isRecord_assign (v : Json) (key : JsString) (value : Json) :
    (v.assign key value).isRecord = v.isRecord := by
  unfold assign
  split <;> simp

theorem get?_assign_of_ne (hne : key ≠ key') (value : Json) :
    (v.assign key value).get? key' = v.get? key' := by
  unfold assign
  split
  · rfl
  · exact get?_set_of_ne hne value

theorem assign_of_ne_proto (hne : key ≠ protoKey) (value : Json) :
    v.assign key value = v.set key value :=
  if_neg fun h => hne h.1

@[simp] theorem isRecord_assignAll (v : Json) (entries : Fields) :
    (v.assignAll entries).isRecord = v.isRecord := by
  induction entries generalizing v with
  | nil => rfl
  | cons e entries ih => simp [assignAll, ih]

/-- A key no entry has keeps its value. -/
theorem get?_assignAll_of_not_mem (h : key ∉ Dict.keys entries) :
    (v.assignAll entries).get? key = v.get? key := by
  induction entries generalizing v with
  | nil => rfl
  | cons e entries ih =>
    obtain ⟨k, x⟩ := e
    rw [Dict.keys_cons, List.mem_cons, not_or] at h
    rw [assignAll, ih h.2, get?_assign_of_ne (Ne.symm h.1)]

/-- No assignment gives the object a `__proto__` of its own. -/
theorem get?_assignAll_proto (h : v.get? protoKey = none) :
    (v.assignAll entries).get? protoKey = none := by
  induction entries generalizing v with
  | nil => exact h
  | cons e entries ih =>
    obtain ⟨k, x⟩ := e
    rw [assignAll]
    apply ih
    by_cases hk : k = protoKey
    · rw [assign, if_pos ⟨hk, hk ▸ h⟩]
      exact h
    · rw [get?_assign_of_ne hk]
      exact h

theorem assignAll_append (v : Json) (xs ys : Fields) :
    v.assignAll (xs ++ ys) = (v.assignAll xs).assignAll ys := by
  induction xs generalizing v with
  | nil => rfl
  | cons e xs ih => exact ih (v.assign e.1 e.2)

theorem assignAll_of_not_record (h : v.isRecord = false) (entries : Fields) :
    v.assignAll entries = v := by
  induction entries with
  | nil => rfl
  | cons e entries ih =>
    rw [assignAll, assign, set_of_not_record h, ite_self, ih]

/-- The last entry of a key is the one that stays. -/
theorem get?_assignAll (hrec : v.isRecord = true) (hkey : key = protoKey → v.get? key ≠ none) :
    (v.assignAll entries).get? key = (Dict.get? entries.reverse key).or (v.get? key) := by
  induction entries generalizing v with
  | nil => rfl
  | cons e entries ih =>
    obtain ⟨k, x⟩ := e
    have hnext : key = protoKey → (v.assign k x).get? key ≠ none := by
      intro hproto
      by_cases hk : k = key
      · subst hk
        rw [assign, if_neg fun h => hkey hproto h.2, get?_set_record hrec, if_pos rfl]
        exact Option.some_ne_none x
      · rw [get?_assign_of_ne hk]
        exact hkey hproto
    rw [assignAll, ih (by simpa using hrec) hnext, List.reverse_cons, Dict.get?_append,
      Option.or_assoc]
    congr 1
    by_cases hk : k = key
    · subst hk
      rw [assign, if_neg fun h => hkey h.1 h.2, get?_set_record hrec, if_pos rfl, Dict.get?_cons,
        if_pos rfl]
      rfl
    · rw [get?_assign_of_ne hk, Dict.get?_cons, if_neg hk]
      rfl

/-! ### Assignments that change nothing -/

/-- A property that is there can be stored in. -/
theorem assign_of_ne_none (h : v.get? key ≠ none) (value : Json) :
    v.assign key value = v.set key value :=
  if_neg fun hproto => h hproto.2

theorem assign_set_comm (hne : key ≠ key') (h : v.get? key ≠ none) (x y : Json) :
    (v.set key x).assign key' y = (v.assign key' y).set key x := by
  unfold assign
  rw [get?_set_of_ne hne]
  split
  · rfl
  · cases v with
    | obj fields => exact congrArg obj (Dict.set_comm hne h x y)
    | _ => rfl

/-- A value that is stored over later leaves no trace. -/
theorem assignAll_set_of_mem (h : v.get? key ≠ none) (hmem : key ∈ Dict.keys entries) (x : Json) :
    (v.set key x).assignAll entries = v.assignAll entries := by
  induction entries generalizing v with
  | nil => cases hmem
  | cons e entries ih =>
    obtain ⟨k, y⟩ := e
    have hset : (v.set key x).get? key ≠ none := by
      obtain ⟨w, hw⟩ := Option.ne_none_iff_exists'.mp h
      rw [get?_set hw]
      exact Option.some_ne_none x
    by_cases hk : key = k
    · subst hk
      rw [assignAll, assignAll, assign_of_ne_none hset, assign_of_ne_none h, set_set]
    · rw [Dict.keys_cons, List.mem_cons] at hmem
      rw [assignAll, assignAll, assign_set_comm hk h]
      refine ih ?_ (hmem.resolve_left hk)
      rw [get?_assign_of_ne (Ne.symm hk)]
      exact h

/-- The entries of an object are there already: the last one of each key is
its value, but for a `__proto__` that is not the object's own. -/
def Holds (v : Json) (entries : Fields) : Prop :=
  ∀ key ∈ Dict.keys entries, (key = protoKey → v.get? key ≠ none) →
    v.get? key = Dict.get? entries.reverse key

theorem get?_reverse_ne_none (h : key ∈ Dict.keys entries) :
    Dict.get? entries.reverse key ≠ none :=
  Dict.get?_ne_none_of_mem (by simpa [Dict.keys] using h)

theorem assignAll_eq_self (h : v.Holds entries) : v.assignAll entries = v := by
  induction entries with
  | nil => rfl
  | cons e entries ih =>
    obtain ⟨k, x⟩ := e
    have htail : v.Holds entries := by
      intro key hmem hown
      have hkey := h key (List.mem_cons_of_mem _ hmem) hown
      obtain ⟨w, hw⟩ := Option.ne_none_iff_exists'.mp (get?_reverse_ne_none hmem)
      rw [hkey, List.reverse_cons, Dict.get?_append, hw, Option.some_or]
    rw [assignAll]
    by_cases hproto : k = protoKey ∧ v.get? k = none
    · rw [assign, if_pos hproto]
      exact ih htail
    · have hhead := h k List.mem_cons_self fun hk hnone => hproto ⟨hk, hnone⟩
      have hne : v.get? k ≠ none := by
        rw [hhead]
        exact get?_reverse_ne_none List.mem_cons_self
      rw [assign_of_ne_none hne]
      by_cases hmem : k ∈ Dict.keys entries
      · rw [assignAll_set_of_mem hne hmem]
        exact ih htail
      · have hnone : Dict.get? entries.reverse k = none :=
          Dict.get?_eq_none_of_not_mem (by simpa [Dict.keys] using hmem)
        rw [List.reverse_cons, Dict.get?_append, hnone, Option.none_or, Dict.get?_cons,
          if_pos rfl] at hhead
        rw [set_eq_self hhead]
        exact ih htail

/-- Assigning changes nothing exactly if the entries are there. -/
theorem assignAll_eq_self_iff (hrec : v.isRecord = true) :
    v.assignAll entries = v ↔ v.Holds entries := by
  constructor
  · intro heq key hmem hown
    obtain ⟨w, hw⟩ := Option.ne_none_iff_exists'.mp (get?_reverse_ne_none hmem)
    have hget := (get?_assignAll hrec hown : (v.assignAll entries).get? key = _)
    rw [heq, hw, Option.some_or] at hget
    rw [hget, hw]
  · exact assignAll_eq_self

end Json

end UmansGate.Lib
