/-
UmansGate.Vision.Slots — the image blocks of a body and their places.

The abstract view that the finder and the replacer are compared in. A slot
is a block of the image type of the API, with its path: message index,
block index, then the indices inside nested tool results. `substitute f`
puts `f path` on the slots and leaves the rest of the body as it is; two
substitutions give one body when they agree on the slots, and only then.
-/
import Mathlib.Data.List.Nodup
import UmansGate.Vision.Detect

namespace UmansGate.Vision

open UmansGate.Lib

/-- What an array of a body holds. -/
inductive Level where
  | messages
  | blocks
  deriving DecidableEq, Repr

/-- The `type` of the image blocks of an API. -/
def ApiKind.imageType : ApiKind → String
  | .openai => "image_url"
  | .anthropic => "image"

def isSlot (kind : ApiKind) (level : Level) (part : Json) : Bool :=
  match level with
  | .messages => false
  | .blocks => hasType part kind.imageType

/-- The blocks under a message, or under a tool result. -/
def nested? (kind : ApiKind) (level : Level) (part : Json) : Option (List Json) :=
  match level, kind with
  | .messages, _ => part.items? (js "content")
  | .blocks, .openai => none
  | .blocks, .anthropic => toolContent? part

section

variable {kind : ApiKind} {level : Level} {part : Json} {items : List Json}

theorem items?_of_toolContent? (h : toolContent? part = some items) :
    part.items? (js "content") = some items := by
  unfold toolContent? at h
  split at h
  · exact h
  · exact absurd h (by simp)

theorem items?_of_nested? (h : nested? kind level part = some items) :
    part.items? (js "content") = some items := by
  match level, kind with
  | .messages, _ => exact h
  | .blocks, .openai => exact absurd h (by simp [nested?])
  | .blocks, .anthropic => exact items?_of_toolContent? h

end

/-- The slots of an array that starts at index `i`, in document order. -/
def slotsIn (kind : ApiKind) (level : Level) (i : ℕ) : List Json → List (List ℕ × Json)
  | [] => []
  | part :: rest =>
    (if isSlot kind level part then [([i], part)]
      else
        match _h : nested? kind level part with
        | some items => (slotsIn kind .blocks 0 items).map fun s => (i :: s.1, s.2)
        | none => []) ++ slotsIn kind level (i + 1) rest
termination_by content => sizeOf content
decreasing_by
  · have := Json.sizeOf_items?_lt (items?_of_nested? _h)
    simp only [List.cons.sizeOf_spec]
    omega
  · simp only [List.cons.sizeOf_spec]
    omega

/-- The slots of a body. -/
def slots (kind : ApiKind) (body : Json) : List (List ℕ × Json) :=
  slotsIn kind .messages 0 ((body.items? (js "messages")).getD [])

/-- Put `f path` on the slots of an array that starts at index `i`. -/
def substituteIn (kind : ApiKind) (level : Level) (f : List ℕ → Option Json) (i : ℕ) :
    List Json → List Json
  | [] => []
  | part :: rest =>
    (if isSlot kind level part then (f [i]).getD part
      else
        match _h : nested? kind level part with
        | some items =>
          part.set (js "content") (.arr (substituteIn kind .blocks (fun q => f (i :: q)) 0 items))
        | none => part) :: substituteIn kind level f (i + 1) rest
termination_by content => sizeOf content
decreasing_by
  · have := Json.sizeOf_items?_lt (items?_of_nested? _h)
    simp only [List.cons.sizeOf_spec]
    omega
  · simp only [List.cons.sizeOf_spec]
    omega

def substitute (kind : ApiKind) (f : List ℕ → Option Json) (body : Json) : Json :=
  match body.items? (js "messages") with
  | none => body
  | some messages =>
    body.set (js "messages") (.arr (substituteIn kind .messages f 0 messages))

variable {kind : ApiKind} {level : Level} {i : ℕ} {part : Json} {items rest content : List Json}
  {f g : List ℕ → Option Json} {s : List ℕ × Json}

/-! ## One array cell -/

@[simp] theorem slotsIn_nil (kind : ApiKind) (level : Level) (i : ℕ) :
    slotsIn kind level i [] = [] := by
  rw [slotsIn]

@[simp] theorem substituteIn_nil (kind : ApiKind) (level : Level) (f : List ℕ → Option Json)
    (i : ℕ) : substituteIn kind level f i [] = [] := by
  rw [substituteIn]

theorem slotsIn_slot (h : isSlot kind level part = true) :
    slotsIn kind level i (part :: rest) = ([i], part) :: slotsIn kind level (i + 1) rest := by
  rw [slotsIn, if_pos h]
  rfl

theorem slotsIn_nested (h : isSlot kind level part = false)
    (hn : nested? kind level part = some items) :
    slotsIn kind level i (part :: rest) =
      (slotsIn kind .blocks 0 items).map (fun s => (i :: s.1, s.2)) ++
        slotsIn kind level (i + 1) rest := by
  rw [slotsIn, if_neg (by simp [h])]
  split
  · rename_i items' heq
    rw [hn] at heq
    cases heq
    rfl
  · rename_i heq
    exact absurd (hn.symm.trans heq) (by simp)

theorem slotsIn_other (h : isSlot kind level part = false) (hn : nested? kind level part = none) :
    slotsIn kind level i (part :: rest) = slotsIn kind level (i + 1) rest := by
  rw [slotsIn, if_neg (by simp [h])]
  split
  · rename_i items' heq
    exact absurd (hn.symm.trans heq) (by simp)
  · rfl

theorem nested?_messages (kind : ApiKind) (msg : Json) :
    nested? kind .messages msg = msg.items? (js "content") := by
  cases kind with
  | openai => rfl
  | anthropic => rfl

/-- A message has the slots of its blocks, if it has blocks. -/
theorem slotsIn_message (kind : ApiKind) (i : ℕ) (msg : Json) (rest : List Json) :
    slotsIn kind .messages i (msg :: rest) =
      (slotsIn kind .blocks 0 ((msg.items? (js "content")).getD [])).map
        (fun s => (i :: s.1, s.2)) ++ slotsIn kind .messages (i + 1) rest := by
  have hslot : isSlot kind .messages msg = false := rfl
  have hn := nested?_messages kind msg
  cases hcontent : msg.items? (js "content") with
  | none =>
    rw [slotsIn_other hslot (hn.trans hcontent), Option.getD_none, slotsIn_nil]
    rfl
  | some content => rw [slotsIn_nested hslot (hn.trans hcontent), Option.getD_some]

theorem substituteIn_slot (h : isSlot kind level part = true) :
    substituteIn kind level f i (part :: rest) =
      (f [i]).getD part :: substituteIn kind level f (i + 1) rest := by
  rw [substituteIn, if_pos h]

theorem substituteIn_nested (h : isSlot kind level part = false)
    (hn : nested? kind level part = some items) :
    substituteIn kind level f i (part :: rest) =
      part.set (js "content") (.arr (substituteIn kind .blocks (fun q => f (i :: q)) 0 items)) ::
        substituteIn kind level f (i + 1) rest := by
  rw [substituteIn, if_neg (by simp [h])]
  split
  · rename_i items' heq
    rw [hn] at heq
    cases heq
    rfl
  · rename_i heq
    exact absurd (hn.symm.trans heq) (by simp)

theorem substituteIn_other (h : isSlot kind level part = false)
    (hn : nested? kind level part = none) :
    substituteIn kind level f i (part :: rest) =
      part :: substituteIn kind level f (i + 1) rest := by
  rw [substituteIn, if_neg (by simp [h])]
  split
  · rename_i items' heq
    exact absurd (hn.symm.trans heq) (by simp)
  · rfl

/-- Induction along the walk, one case for each kind of part. -/
theorem slotInduction (kind : ApiKind) {P : List Json → Level → ℕ → Prop}
    (nil : ∀ level i, P [] level i)
    (slot : ∀ level i part rest, isSlot kind level part = true →
      P rest level (i + 1) → P (part :: rest) level i)
    (nested : ∀ level i part items rest, isSlot kind level part = false →
      nested? kind level part = some items → P items .blocks 0 →
      P rest level (i + 1) → P (part :: rest) level i)
    (other : ∀ level i part rest, isSlot kind level part = false →
      nested? kind level part = none → P rest level (i + 1) → P (part :: rest) level i)
    (content : List Json) : ∀ level i, P content level i := by
  induction content using Json.listInduction (js "content") with
  | nil => exact nil
  | cons part rest ihitems ihrest =>
    intro level i
    cases hslot : isSlot kind level part with
    | true => exact slot level i part rest hslot (ihrest level (i + 1))
    | false =>
      cases hn : nested? kind level part with
      | none => exact other level i part rest hslot hn (ihrest level (i + 1))
      | some items =>
        exact nested level i part items rest hslot hn
          (ihitems items (items?_of_nested? hn) .blocks 0) (ihrest level (i + 1))

/-! ## Paths -/

/-- The slots of an array have its indices, from the first on. -/
theorem head_le_of_mem (h : s ∈ slotsIn kind level i content) :
    ∃ j q, s.1 = j :: q ∧ i ≤ j := by
  induction content generalizing i with
  | nil => exact absurd h (by simp)
  | cons part rest ih =>
    have hrest : s ∈ slotsIn kind level (i + 1) rest → ∃ j q, s.1 = j :: q ∧ i ≤ j := by
      intro hs
      obtain ⟨j, q, heq, hle⟩ := ih hs
      exact ⟨j, q, heq, by omega⟩
    cases hslot : isSlot kind level part with
    | true =>
      rw [slotsIn_slot hslot] at h
      rcases List.mem_cons.mp h with rfl | h
      · exact ⟨i, [], rfl, Nat.le_refl i⟩
      · exact hrest h
    | false =>
      cases hn : nested? kind level part with
      | none =>
        rw [slotsIn_other hslot hn] at h
        exact hrest h
      | some items =>
        rw [slotsIn_nested hslot hn] at h
        rcases List.mem_append.mp h with h | h
        · obtain ⟨t, _, rfl⟩ := List.mem_map.mp h
          exact ⟨i, t.1, rfl, Nat.le_refl i⟩
        · exact hrest h

theorem not_mem_of_head {q : List ℕ} (h : s ∈ slotsIn kind level (i + 1) content) :
    s.1 ≠ i :: q := by
  intro heq
  obtain ⟨j, r, hj, hle⟩ := head_le_of_mem h
  rw [hj] at heq
  cases heq
  omega

theorem slotsIn_nodup (kind : ApiKind) (content : List Json) (level : Level) (i : ℕ) :
    ((slotsIn kind level i content).map Prod.fst).Nodup := by
  induction content, level, i using slotInduction kind with
  | nil level i => simp
  | slot level i part rest hslot ih =>
    rw [slotsIn_slot hslot, List.map_cons, List.nodup_cons]
    refine ⟨fun hmem => ?_, ih⟩
    obtain ⟨s, hs, heq⟩ := List.mem_map.mp hmem
    exact not_mem_of_head hs heq
  | nested level i part items rest hslot hn ihitems ih =>
    rw [slotsIn_nested hslot hn, List.map_append, List.nodup_append]
    refine ⟨?_, ih, ?_⟩
    · have hpaths : ((slotsIn kind .blocks 0 items).map fun s => (i :: s.1, s.2)).map Prod.fst =
          ((slotsIn kind .blocks 0 items).map Prod.fst).map (i :: ·) := by
        rw [List.map_map, List.map_map]
        rfl
      rw [hpaths]
      exact ihitems.map List.cons_injective
    · rintro q hq r hr rfl
      obtain ⟨s, hs, rfl⟩ := List.mem_map.mp hr
      obtain ⟨t, ht, heq⟩ := List.mem_map.mp hq
      obtain ⟨u, _, rfl⟩ := List.mem_map.mp ht
      exact not_mem_of_head hs heq.symm
  | other level i part rest hslot hn ih => rwa [slotsIn_other hslot hn]

/-- No two slots share a path. -/
theorem slots_nodup (kind : ApiKind) (body : Json) : ((slots kind body).map Prod.fst).Nodup :=
  slotsIn_nodup kind _ _ _

theorem slotsIn_hasType (kind : ApiKind) (content : List Json) (level : Level) (i : ℕ) :
    ∀ s ∈ slotsIn kind level i content, hasType s.2 kind.imageType = true := by
  induction content, level, i using slotInduction kind with
  | nil level i => simp
  | slot level i part rest hslot ih =>
    rw [slotsIn_slot hslot]
    intro s hs
    rcases List.mem_cons.mp hs with rfl | hs
    · cases level with
      | messages => exact absurd hslot (by simp [isSlot])
      | blocks => exact hslot
    · exact ih s hs
  | nested level i part items rest hslot hn ihitems ih =>
    rw [slotsIn_nested hslot hn]
    intro s hs
    rcases List.mem_append.mp hs with hs | hs
    · obtain ⟨t, ht, rfl⟩ := List.mem_map.mp hs
      exact ihitems t ht
    · exact ih s hs
  | other level i part rest hslot hn ih => rwa [slotsIn_other hslot hn]

/-! ## Substitution -/

/-- The result of a substitution shows what it put on each slot. -/
theorem substituteIn_inj (kind : ApiKind) (content : List Json) (level : Level) (i : ℕ) :
    ∀ {f g : List ℕ → Option Json},
      substituteIn kind level f i content = substituteIn kind level g i content →
      ∀ s ∈ slotsIn kind level i content, (f s.1).getD s.2 = (g s.1).getD s.2 := by
  induction content, level, i using slotInduction kind with
  | nil level i => simp
  | slot level i part rest hslot ih =>
    intro f g h s hs
    rw [substituteIn_slot hslot, substituteIn_slot hslot] at h
    rw [slotsIn_slot hslot] at hs
    obtain ⟨hhead, htail⟩ := List.cons.inj h
    rcases List.mem_cons.mp hs with rfl | hs
    · exact hhead
    · exact ih htail s hs
  | nested level i part items rest hslot hn ihitems ih =>
    intro f g h s hs
    rw [substituteIn_nested hslot hn, substituteIn_nested hslot hn] at h
    rw [slotsIn_nested hslot hn] at hs
    obtain ⟨hhead, htail⟩ := List.cons.inj h
    rcases List.mem_append.mp hs with hs | hs
    · obtain ⟨t, ht, rfl⟩ := List.mem_map.mp hs
      exact ihitems (Json.arr_of_set_eq (items?_of_nested? hn) hhead) t ht
    · exact ih htail s hs
  | other level i part rest hslot hn ih =>
    intro f g h
    rw [substituteIn_other hslot hn, substituteIn_other hslot hn] at h
    rw [slotsIn_other hslot hn]
    exact ih (List.cons.inj h).2

theorem substitute_inj {body : Json} (h : substitute kind f body = substitute kind g body) :
    ∀ s ∈ slots kind body, (f s.1).getD s.2 = (g s.1).getD s.2 := by
  unfold substitute at h
  split at h
  · rename_i heq
    rw [slots, heq]
    simp
  · rename_i messages heq
    rw [slots, heq]
    exact substituteIn_inj kind messages .messages 0 (Json.arr_of_set_eq heq h)

end UmansGate.Vision
