/-
UmansGate.Stamp.ShapeTheorems — what `stampThinking` leaves of the client's
thinking where it forces the policy's shape.

The write is skipped where `thinkingEquals` takes the client's thinking for
the shape. The test compares the properties of the shape and no others, so
thinking that has them all keeps whatever stands beside them.
-/
import UmansGate.Lib.JsonEqual
import UmansGate.Stamp.ThinkingTheorems

namespace UmansGate.Stamp

open UmansGate.Lib

variable {policy : StampPolicy} {shape : ThinkingConfig} {t v : Json} {key : JsString}

/-! ## The comparison -/

/-- `t` has the properties of the shape. -/
def Agrees (shape : ThinkingConfig) (t : Json) : Prop :=
  ∀ key v, shape.toJson.get? key = some v → t.get? key = some v

/-- A bare `{ type: "enabled" }` is told from one with a companion. -/
def BareAlike (shape : ThinkingConfig) (t : Json) : Prop :=
  shape = .enabled → t.has (js "keep") = false ∧ t.has (js "clear_thinking") = false

theorem agrees_singleton (k : JsString) (x : Json) :
    (∀ key v, (Json.obj [(k, x)]).get? key = some v → t.get? key = some v) ↔
      t.get? k = some x := by
  simp only [Json.get?, Dict.get?_cons, Dict.get?_nil]
  constructor
  · intro h
    exact h k x (if_pos rfl)
  · intro h key v hv
    split at hv
    · rename_i hkey
      rw [← hkey, h, hv]
    · cases hv

theorem agrees_pair {k k' : JsString} (hne : k ≠ k') (x x' : Json) :
    (∀ key v, (Json.obj [(k, x), (k', x')]).get? key = some v → t.get? key = some v) ↔
      t.get? k = some x ∧ t.get? k' = some x' := by
  simp only [Json.get?, Dict.get?_cons, Dict.get?_nil]
  constructor
  · intro h
    exact ⟨h k x (if_pos rfl), h k' x' ((if_neg hne).trans (if_pos rfl))⟩
  · intro hp key v hv
    obtain ⟨h, h'⟩ := hp
    split at hv
    · rename_i hkey
      rw [← hkey, h, hv]
    · split at hv
      · rename_i hkey
        rw [← hkey, h', hv]
      · cases hv

theorem propIs_str_iff (s : JsString) : t.propIs key (.str s) = true ↔ t.get? key = some (.str s) := by
  unfold Json.propIs
  cases t.get? key with
  | none => simp
  | some x => cases x <;> simp [Json.strictEquals]

theorem propIs_bool_iff (b : Bool) :
    t.propIs key (.bool b) = true ↔ t.get? key = some (.bool b) := by
  unfold Json.propIs
  cases t.get? key with
  | none => simp
  | some x => cases x <;> simp [Json.strictEquals]

theorem has_of_get? (h : t.get? key = some v) : t.has key = true := by
  rw [Json.has, h, Option.isSome_some]

/-- The test compares the properties of the shape. -/
theorem thinkingEquals_iff (shape : ThinkingConfig) (t : Json) :
    thinkingEquals t shape.toJson = true ↔ Agrees shape t ∧ BareAlike shape t := by
  cases shape with
  | adaptive =>
    have hagrees : Agrees .adaptive t ↔ t.get? (js "type") = some (.str (js "adaptive")) :=
      agrees_singleton _ _
    have htest : thinkingEquals t ThinkingConfig.adaptive.toJson =
        t.propIs (js "type") (.str (js "adaptive")) := by
      show (if !t.propIs (js "type") (.str (js "adaptive")) then false else true) = _
      cases t.propIs (js "type") (.str (js "adaptive")) <;> rfl
    rw [htest, propIs_str_iff, hagrees]
    exact ⟨fun h => ⟨h, fun hbare => by cases hbare⟩, fun h => h.1⟩
  | enabledKeep =>
    have hagrees : Agrees .enabledKeep t ↔ t.get? (js "type") = some (.str (js "enabled")) ∧
        t.get? (js "keep") = some (.str (js "all")) := agrees_pair (by decide) _ _
    have htest : thinkingEquals t ThinkingConfig.enabledKeep.toJson =
        (t.propIs (js "type") (.str (js "enabled")) && (t.has (js "keep") &&
          t.propIs (js "keep") (.str (js "all")))) := by
      show (if !t.propIs (js "type") (.str (js "enabled")) then false
        else if t.has (js "keep") && true then t.propIs (js "keep") (.str (js "all"))
        else if t.has (js "clear_thinking") && false then !t.has (js "clear_thinking")
        else !t.has (js "keep") && false && !t.has (js "clear_thinking") && true) = _
      cases t.propIs (js "type") (.str (js "enabled")) <;> cases t.has (js "keep") <;>
        cases t.has (js "clear_thinking") <;> rfl
    rw [htest, hagrees, Bool.and_eq_true, Bool.and_eq_true, propIs_str_iff, propIs_str_iff]
    exact ⟨fun h => ⟨⟨h.1, h.2.2⟩, fun hbare => by cases hbare⟩,
      fun h => ⟨h.1.1, has_of_get? h.1.2, h.1.2⟩⟩
  | enabledClear clear =>
    have hagrees : Agrees (.enabledClear clear) t ↔
        t.get? (js "type") = some (.str (js "enabled")) ∧
          t.get? (js "clear_thinking") = some (.bool clear) := agrees_pair (by decide) _ _
    have htest : thinkingEquals t (ThinkingConfig.enabledClear clear).toJson =
        (t.propIs (js "type") (.str (js "enabled")) && (t.has (js "clear_thinking") &&
          t.propIs (js "clear_thinking") (.bool clear))) := by
      show (if !t.propIs (js "type") (.str (js "enabled")) then false
        else if t.has (js "keep") && false then !t.has (js "keep")
        else if t.has (js "clear_thinking") && true then
          t.propIs (js "clear_thinking") (.bool clear)
        else !t.has (js "keep") && true && !t.has (js "clear_thinking") && false) = _
      cases t.propIs (js "type") (.str (js "enabled")) <;> cases t.has (js "keep") <;>
        cases t.has (js "clear_thinking") <;> rfl
    rw [htest, hagrees, Bool.and_eq_true, Bool.and_eq_true, propIs_str_iff, propIs_bool_iff]
    exact ⟨fun h => ⟨⟨h.1, h.2.2⟩, fun hbare => by cases hbare⟩,
      fun h => ⟨h.1.1, has_of_get? h.1.2, h.1.2⟩⟩
  | enabled =>
    have hagrees : Agrees .enabled t ↔ t.get? (js "type") = some (.str (js "enabled")) :=
      agrees_singleton _ _
    have htest : thinkingEquals t ThinkingConfig.enabled.toJson =
        (t.propIs (js "type") (.str (js "enabled")) &&
          (!t.has (js "keep") && !t.has (js "clear_thinking"))) := by
      show (if !t.propIs (js "type") (.str (js "enabled")) then false
        else if t.has (js "keep") && false then !t.has (js "keep")
        else if t.has (js "clear_thinking") && false then !t.has (js "clear_thinking")
        else !t.has (js "keep") && true && !t.has (js "clear_thinking") && true) = _
      cases t.propIs (js "type") (.str (js "enabled")) <;> cases t.has (js "keep") <;>
        cases t.has (js "clear_thinking") <;> rfl
    rw [htest, hagrees, Bool.and_eq_true, Bool.and_eq_true, propIs_str_iff, Bool.not_eq_true',
      Bool.not_eq_true']
    exact ⟨fun h => ⟨h.1, fun _ => h.2⟩, fun h => ⟨h.1, h.2 rfl⟩⟩

/-! ## The forced thinking -/

/-- `stampThinking` forces this thinking: the client did not disable it, or
the model cannot. -/
def shouldForce (policy : StampPolicy) (t : Json) : Bool :=
  !isNullish (some t) && (!isThinkingDisabled (some t) || !policy.canDisableThinking)

/-- The client's thinking has every property of the shape and more, `keep` and
`clear_thinking` apart where the shape is the bare one. -/
structure CarriesMore (shape : ThinkingConfig) (t : Json) : Prop where
  agrees : Agrees shape t
  bare : BareAlike shape t
  more : ∃ key, t.has key = true ∧ shape.toJson.has key = false

/-- `AnthropicBodyStep` leaves exactly the policy's shape where it forces
thinking. -/
def ForcesExactly (policy : StampPolicy) (body : Json) : Prop :=
  ∀ t, body.get? (js "thinking") = some t → shouldForce policy t = true →
    ∃ forced, (stampAnthropicBody policy body).1.get? (js "thinking") = some forced ∧
      Json.DeepEqual forced policy.thinkingShape.toJson

theorem isRecord_shape (shape : ThinkingConfig) : shape.toJson.isRecord = true := by
  cases shape <;> rfl

/-- Thinking that agrees with the shape is deep-equal to it up to what it has
beside it. -/
theorem deepEqual_shape_iff (hagrees : Agrees shape t) :
    Json.DeepEqual t shape.toJson ↔ ∀ key, t.has key = true → shape.toJson.has key = true := by
  have htype : t.isRecord = true := by
    have hget : ∃ x, shape.toJson.get? (js "type") = some x := by
      cases shape <;> exact ⟨_, rfl⟩
    obtain ⟨x, hx⟩ := hget
    exact Json.isRecord_of_get? (hagrees _ _ hx)
  constructor
  · intro hequal key hkey
    have hrel := hequal.get? key
    unfold Json.has at hkey ⊢
    generalize t.get? key = o at hkey hrel
    generalize shape.toJson.get? key = o' at hrel
    cases hrel with
    | none => exact hkey
    | some _ => rfl
  · intro hkeys
    refine Json.deepEqual_of_get? htype (isRecord_shape shape) fun key => ?_
    cases hshape : shape.toJson.get? key with
    | some x =>
      rw [hagrees key x hshape]
      exact .some (.refl x)
    | none =>
      cases hget : t.get? key with
      | none => exact .none
      | some x =>
        have hhas := hkeys key (has_of_get? hget)
        rw [Json.has, hshape] at hhas
        cases hhas

theorem forcedThinking_of_shouldForce (h : shouldForce policy t = true) :
    forcedThinking policy (some t) =
      some (if thinkingEquals t policy.thinkingShape.toJson then t
        else policy.thinkingShape.toJson) := by
  unfold shouldForce at h
  rw [forcedThinking, h, Bool.true_and]
  cases thinkingEquals t policy.thinkingShape.toJson <;> rfl

/-- One client's thinking. -/
theorem deepEqual_forced_iff {body : Json} (ht : body.get? (js "thinking") = some t)
    (hforce : shouldForce policy t = true) :
    (∃ forced, (stampAnthropicBody policy body).1.get? (js "thinking") = some forced ∧
      Json.DeepEqual forced policy.thinkingShape.toJson) ↔
        ¬ CarriesMore policy.thinkingShape t := by
  rw [get?_stampAnthropicBody_thinking, ht, forcedThinking_of_shouldForce hforce]
  simp only [Option.some.injEq, exists_eq_left']
  by_cases hequals : thinkingEquals t policy.thinkingShape.toJson = true
  · obtain ⟨hagrees, hbare⟩ := (thinkingEquals_iff _ _).mp hequals
    rw [if_pos hequals, deepEqual_shape_iff hagrees]
    constructor
    · intro hkeys hmore
      obtain ⟨key, hkey, hnot⟩ := hmore.more
      rw [hkeys key hkey] at hnot
      cases hnot
    · intro hnot key hkey
      by_contra hmissing
      exact hnot ⟨hagrees, hbare, key, hkey, (Bool.not_eq_true _).mp hmissing⟩
  · rw [if_neg hequals]
    exact ⟨fun _ hmore => hequals ((thinkingEquals_iff _ _).mpr ⟨hmore.agrees, hmore.bare⟩),
      fun _ => .refl _⟩

/-- Forced thinking has the policy's shape unless the client's has all of it
and more. -/
theorem forcesExactly_iff (policy : StampPolicy) (body : Json) :
    ForcesExactly policy body ↔
      ∀ t, body.get? (js "thinking") = some t → shouldForce policy t = true →
        ¬ CarriesMore policy.thinkingShape t :=
  forall_congr' fun _ => forall_congr' fun ht => forall_congr' fun hforce =>
    deepEqual_forced_iff ht hforce

/-! ### A budget beside the shape -/

/-- Adaptive thinking with a budget of its own. -/
def budgetRequest : Json :=
  .obj [(js "model", .str (js "umans-flash")), (js "thinking", .obj [
    (js "type", .str (js "adaptive")), (js "budget_tokens", .num 1024)])]

/-- The budget survives. -/
theorem budget_survives : ¬ ForcesExactly (matchStampOverlay (js "umans-flash")) budgetRequest := by
  intro hforces
  refine (deepEqual_forced_iff rfl (by decide)).mp (hforces _ rfl (by decide))
    ⟨?_, ?_, js "budget_tokens", by decide, by decide⟩
  · exact (agrees_singleton _ _).mpr rfl
  · intro hbare
    exact absurd hbare (by decide)

end UmansGate.Stamp
