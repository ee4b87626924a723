/-
UmansGate.Lib.JsonEqual — deep equality of JSON values.

Arrays are compared by index and objects by key, so the order of the
properties does not count. Numbers are compared as values, not by `===`.
-/
import Mathlib.Data.List.Forall2
import UmansGate.Lib.JsonObject

namespace UmansGate.Lib.Json

inductive DeepEqual : Json → Json → Prop where
  | null : DeepEqual null null
  | bool (b : Bool) : DeepEqual (bool b) (bool b)
  | num (n : Float) : DeepEqual (num n) (num n)
  | str (s : JsString) : DeepEqual (str s) (str s)
  | arr {xs ys : List Json} (hlength : xs.length = ys.length)
      (hitems : ∀ (i : ℕ) x y, xs[i]? = some x → ys[i]? = some y → DeepEqual x y) :
      DeepEqual (arr xs) (arr ys)
  | obj {xs ys : Fields} (hkeys : ∀ key, (Dict.get? xs key).isSome = (Dict.get? ys key).isSome)
      (hvalues : ∀ key x y, Dict.get? xs key = some x → Dict.get? ys key = some y →
        DeepEqual x y) :
      DeepEqual (obj xs) (obj ys)

variable {v w : Json} {key : JsString}

namespace DeepEqual

theorem refl : ∀ v : Json, DeepEqual v v
  | .null => .null
  | .bool b => .bool b
  | .num n => .num n
  | .str s => .str s
  | .arr xs => .arr rfl fun i x y hx hy => by
      rw [hx, Option.some.injEq] at hy
      have hmem : x ∈ xs := List.mem_of_getElem? hx
      exact hy ▸ refl x
  | .obj fields => .obj (fun _ => rfl) fun key x y hx hy => by
      rw [hx, Option.some.injEq] at hy
      have hget : (Json.obj fields).get? key = some x := hx
      exact hy ▸ refl x
termination_by v => sizeOf v
decreasing_by
  · have hlt := List.sizeOf_lt_of_mem hmem
    simp only [arr.sizeOf_spec]
    omega
  · exact sizeOf_get?_lt hget

/-- Deep equality is read off the keys. -/
theorem get? (h : DeepEqual v w) (key : JsString) :
    Option.Rel DeepEqual (v.get? key) (w.get? key) := by
  cases h with
  | obj hkeys hvalues =>
    rename_i xs ys
    have hsome := hkeys key
    show Option.Rel DeepEqual (Dict.get? xs key) (Dict.get? ys key)
    cases hx : Dict.get? xs key with
    | none =>
      rw [hx, Option.isSome_none, eq_comm, Option.isSome_eq_false_iff,
        Option.isNone_iff_eq_none] at hsome
      rw [hsome]
      exact .none
    | some x =>
      rw [hx, Option.isSome_some, eq_comm, Option.isSome_iff_exists] at hsome
      obtain ⟨y, hy⟩ := hsome
      rw [hy]
      exact .some (hvalues key x y hx hy)
  | _ => exact .none

theorem strictEquals (h : DeepEqual v w) (x : Json) : v.strictEquals x = w.strictEquals x := by
  cases h with
  | arr | obj => cases x <;> rfl
  | _ => rfl

theorem propIs (h : DeepEqual v w) (key : JsString) (x : Json) :
    v.propIs key x = w.propIs key x := by
  have hget := h.get? key
  unfold Json.propIs
  cases hv : v.get? key with
  | none =>
    rw [hv] at hget
    generalize w.get? key = o at hget
    cases hget
    rfl
  | some y =>
    rw [hv] at hget
    generalize w.get? key = o at hget
    cases hget with
    | some hrel => exact hrel.strictEquals x

theorem has (h : DeepEqual v w) (key : JsString) : v.has key = w.has key := by
  have hget := h.get? key
  unfold Json.has
  generalize v.get? key = o at hget
  generalize w.get? key = o' at hget
  cases hget <;> rfl

theorem str? (h : DeepEqual v w) (key : JsString) : v.str? key = w.str? key := by
  have hget := h.get? key
  unfold Json.str?
  generalize v.get? key = o at hget
  generalize w.get? key = o' at hget
  cases hget with
  | none => rfl
  | some hrel => cases hrel <;> rfl

theorem truthy (h : DeepEqual v w) : v.truthy = w.truthy := by
  cases h <;> rfl

/-- Equal arrays are equal element by element. -/
theorem forall₂ {xs ys : List Json} (h : DeepEqual (.arr xs) (.arr ys)) :
    List.Forall₂ DeepEqual xs ys := by
  cases h with
  | arr hlength hitems =>
    refine List.forall₂_iff_get.mpr ⟨hlength, fun i hx hy => ?_⟩
    exact hitems i _ _ (List.getElem?_eq_getElem hx) (List.getElem?_eq_getElem hy)

/-- What deep-equal values have in common they have in an array. -/
theorem map_eq_map {α : Type} {f : Json → α} (hf : ∀ v w, DeepEqual v w → f v = f w)
    {xs ys : List Json} (h : List.Forall₂ DeepEqual xs ys) : xs.map f = ys.map f := by
  induction h with
  | nil => rfl
  | cons hitem _ ih => rw [List.map_cons, List.map_cons, hf _ _ hitem, ih]

theorem items? (h : DeepEqual v w) (key : JsString) :
    Option.Rel (List.Forall₂ DeepEqual) (v.items? key) (w.items? key) := by
  have hget := h.get? key
  unfold Json.items?
  generalize v.get? key = o at hget
  generalize w.get? key = o' at hget
  cases hget with
  | none => exact .none
  | some hrel =>
    cases hrel with
    | arr hlength hitems => exact .some (forall₂ (.arr hlength hitems))
    | _ => exact .none

end DeepEqual

/-- Two objects are equal if they are under every key. -/
theorem deepEqual_of_get? (hv : v.isRecord = true) (hw : w.isRecord = true)
    (h : ∀ key, Option.Rel DeepEqual (v.get? key) (w.get? key)) : DeepEqual v w := by
  cases v with
  | obj xs =>
    cases w with
    | obj ys =>
      refine .obj (fun key => ?_) fun key x y hx hy => ?_
      · have hrel : Option.Rel DeepEqual (Dict.get? xs key) (Dict.get? ys key) := h key
        generalize Dict.get? xs key = o at hrel
        generalize Dict.get? ys key = o' at hrel
        cases hrel <;> rfl
      · have hrel : Option.Rel DeepEqual (Dict.get? xs key) (Dict.get? ys key) := h key
        rw [hx, hy] at hrel
        cases hrel
        assumption
    | _ => cases hw
  | _ => cases hv

theorem optionRel_refl (o : Option Json) : Option.Rel DeepEqual o o := by
  cases o with
  | none => exact .none
  | some v => exact .some (.refl v)

end UmansGate.Lib.Json
