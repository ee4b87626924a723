/-
UmansGate.Vision.BreakpointTheorems — how many cache breakpoints leave the
proxy.

The pipeline lays the breakpoints out before the vision stage. The handoff
then puts one on every text block that replaces an image, also inside a tool
result, where the pipeline leaves blocks alone; the second walk only stamps
the ttl. The count behind the stage is therefore the count before it and one
for each replaced image that is nested or had none (`fresh`).
-/
import UmansGate.Stamp.AtomicityTheorems
import UmansGate.Stamp.LayoutTheorems
import UmansGate.Vision.HandoffTheorems
import UmansGate.Vision.PostVision

namespace UmansGate.Vision

open UmansGate.Lib UmansGate.Stamp

/-! ## Counts -/

def breakpointsIn (blocks : List Json) : ℕ := blocks.countP hasBreakpoint

/-- The blocks of a message, or of a tool result. -/
def contentOf (m : Json) : List Json := (m.items? (js "content")).getD []

/-- The breakpoints on the blocks of the system and of the messages. -/
def breakpoints (body : Json) : ℕ :=
  breakpointsIn ((body.items? (js "system")).getD []) +
    (((body.items? (js "messages")).getD []).map fun m => breakpointsIn (contentOf m)).sum

/-- The block at a path below an array. -/
def blockIn : List Json → List ℕ → Option Json
  | _, [] => none
  | items, [i] => items[i]?
  | items, i :: q => items[i]?.bind fun part => blockIn (contentOf part) q

/-- A block with a breakpoint that is no image. -/
def isCaption (block : Json) : Bool := !hasType block "image" && hasBreakpoint block

/-- The nested images of the body that was handed over where the body that
goes upstream has another block, with a breakpoint. -/
def addedNested (handed sent : Json) : ℕ :=
  (slots .anthropic handed).countP fun s =>
    2 < s.1.length && (blockIn ((sent.items? (js "messages")).getD []) s.1).any isCaption

/-- The breakpoints of an Anthropic request, the nested ones as far as the
proxy added them. -/
def Outbound.breakpoints (out : Outbound) : ℕ :=
  Vision.breakpoints out.reqBody +
    match out.handed with
    | none => 0
    | some handed => addedNested handed out.reqBody

/-- The images among the first `n` image blocks that are nested or carry no
breakpoint. -/
def fresh (body : Json) (n : ℕ) : ℕ :=
  ((slots .anthropic body).take n).countP fun s => 2 < s.1.length || !hasBreakpoint s.2

section

variable {descriptions overflow : List JsString} {positions : Option (List Position)}
  {content items rest : List Json} {part : Json} {level : Level} {i n k : ℕ} {s : List ℕ × Json}

/-! ## The replaced blocks -/

theorem hasBreakpoint_textBlock (text : JsString) :
    hasBreakpoint (textBlock .anthropic text) = true :=
  rfl

theorem hasBreakpoint_set (part value : Json) :
    hasBreakpoint (part.set (js "content") value) = hasBreakpoint part := by
  unfold hasBreakpoint
  rw [Json.get?_set_of_ne (by decide) value]

theorem isCaption_textBlock (text : JsString) : isCaption (textBlock .anthropic text) = true := by
  have htype : hasType (textBlock .anthropic text) "image" = false :=
    isSlot_textBlock .anthropic .anthropic text
  rw [isCaption, htype, hasBreakpoint_textBlock]
  rfl

theorem isCaption_of_isSlot (h : isSlot .anthropic .blocks part = true) : isCaption part = false := by
  have htype : hasType part "image" = true := h
  rw [isCaption, htype]
  rfl

/-- Whether a slot at this depth gains a breakpoint when it is replaced. -/
def gains (depth : ℕ) (s : List ℕ × Json) : Bool := s.1.length = depth && !hasBreakpoint s.2

theorem countP_gains_under (depth : ℕ) (ss : List (List ℕ × Json)) :
    (ss.map fun s => (i :: s.1, s.2)).countP (gains (depth + 1)) = ss.countP (gains depth) := by
  rw [List.countP_map]
  congr 1
  funext s
  simp [gains]

theorem not_gains_under (ss : List (List ℕ × Json)) (h : ∀ s ∈ ss, s.1 ≠ []) :
    (ss.map fun s => (i :: s.1, s.2)).countP (gains 1) = 0 := by
  rw [countP_gains_under, List.countP_eq_zero]
  intro s hs
  have hne : s.1 ≠ [] := h s hs
  simp [gains, hne]

theorem path_ne_nil (h : s ∈ slotsIn .anthropic level i content) : s.1 ≠ [] := by
  obtain ⟨j, q, hpath, _⟩ := head_le_of_mem h
  rw [hpath]
  exact List.cons_ne_nil j q

/-- The blocks of a message gain one breakpoint for each replaced block that
has none; a replaced block inside a tool result is not among them. -/
theorem breakpointsIn_replaceInContentArray (content : List Json) (level : Level) (i : ℕ) :
    level = .blocks → ∀ n ≤ descriptions.length,
      breakpointsIn (replaceInContentArray .anthropic descriptions positions n content).1 =
        breakpointsIn content +
          ((slotsIn .anthropic level i content).take (descriptions.length - n)).countP
            (gains 1) := by
  induction content, level, i using slotInduction .anthropic with
  | nil level i =>
    intro _ n hle
    rw [replaceInContentArray, slotsIn_nil, List.take_nil]
    rfl
  | slot level i part rest hslot ih =>
    rintro rfl n hle
    rw [replaceInContentArray_slot hslot hle, slotsIn_slot hslot]
    have htail := ih rfl (min descriptions.length (n + 1)) (Nat.min_le_left _ _)
    unfold breakpointsIn at htail ⊢
    rcases Nat.lt_or_ge n descriptions.length with hlt | hge
    · have hone : descriptions.length - n = descriptions.length - (n + 1) + 1 := by omega
      rw [Nat.min_eq_right hlt] at htail ⊢
      rw [caption_of_lt hlt, Option.getD_some, List.countP_cons, hasBreakpoint_textBlock, htail,
        hone, List.take_succ_cons, List.countP_cons, List.countP_cons]
      cases hbreak : hasBreakpoint part with
      | true => simp [gains, hbreak]; omega
      | false => simp [gains, hbreak]; omega
    · have hzero : descriptions.length - n = 0 := by omega
      have hstop : descriptions.length - min descriptions.length (n + 1) = 0 := by omega
      rw [hstop, List.take_zero] at htail
      rw [caption_of_le hge, Option.getD_none, hzero, List.take_zero, List.countP_cons,
        List.countP_cons, htail]
      simp
  | nested level i part items rest hslot hn ihitems ih =>
    rintro rfl n hle
    obtain ⟨-, hpast⟩ :=
      slotsIn_replaceInContentArray .anthropic descriptions positions items .blocks 0 rfl n hle
    have htail := ih rfl
      (min descriptions.length (n + (slotsIn .anthropic .blocks 0 items).length))
      (Nat.min_le_left _ _)
    have hrest : descriptions.length -
        min descriptions.length (n + (slotsIn .anthropic .blocks 0 items).length) =
        descriptions.length - n - (slotsIn .anthropic .blocks 0 items).length := by omega
    rw [hrest] at htail
    have hunder : (((slotsIn .anthropic .blocks 0 items).map fun s => (i :: s.1, s.2)).take
        (descriptions.length - n)).countP (gains 1) = 0 := by
      rw [← List.map_take]
      exact not_gains_under _ fun s hs => path_ne_nil (List.mem_of_mem_take hs)
    rw [replaceInContentArray_nested hslot hn, slotsIn_nested hslot hn, List.take_append,
      List.countP_append, hunder, List.length_map]
    simp only [hpast]
    unfold breakpointsIn at htail ⊢
    rw [List.countP_cons, List.countP_cons, hasBreakpoint_set, htail]
    omega
  | other level i part rest hslot hn ih =>
    rintro rfl n hle
    rw [replaceInContentArray_other hslot hn, slotsIn_other hslot hn]
    have htail := ih rfl n hle
    unfold breakpointsIn at htail ⊢
    simp only []
    rw [List.countP_cons, List.countP_cons, htail]
    omega

theorem blockIn_below (items : List Json) (i j : ℕ) (q : List ℕ) :
    blockIn items (i :: j :: q) = items[i]?.bind fun part => blockIn (contentOf part) (j :: q) :=
  rfl

theorem blockIn_succ (part : Json) (rest : List Json) (j : ℕ) (q : List ℕ) :
    blockIn (part :: rest) ((j + 1) :: q) = blockIn rest (j :: q) := by
  cases q with
  | nil => rfl
  | cons j' q => rfl

theorem blockIn_under (part : Json) (rest : List Json) {q : List ℕ} (h : q ≠ []) :
    blockIn (part :: rest) (0 :: q) = blockIn (contentOf part) q := by
  cases q with
  | nil => exact absurd rfl h
  | cons j q => rfl

theorem contentOf_set (h : part.items? (js "content") = some items) (content : List Json) :
    contentOf (part.set (js "content") (.arr content)) = content := by
  rw [contentOf, items?_set h, Option.getD_some]

/-- The blocks of the first slots are captions behind the replacement, those
behind them are not. -/
theorem blockIn_replaceInContentArray (content : List Json) (level : Level) (i : ℕ) :
    level = .blocks → ∀ n ≤ descriptions.length, ∀ k s,
      (slotsIn .anthropic level i content)[k]? = some s →
      ∃ j q, s.1 = (i + j) :: q ∧
        (blockIn (replaceInContentArray .anthropic descriptions positions n content).1
          (j :: q)).any isCaption = decide (n + k < descriptions.length) := by
  induction content, level, i using slotInduction .anthropic with
  | nil level i => simp
  | slot level i part rest hslot ih =>
    rintro rfl n hle k s hs
    rw [slotsIn_slot hslot] at hs
    rw [replaceInContentArray_slot hslot hle]
    cases k with
    | zero =>
      cases hs
      refine ⟨0, [], rfl, ?_⟩
      by_cases hlt : n < descriptions.length
      · simp [blockIn, caption_of_lt hlt, isCaption_textBlock, hlt]
      · simp [blockIn, caption_of_le (Nat.le_of_not_lt hlt), isCaption_of_isSlot hslot, hlt]
    | succ k =>
      rw [List.getElem?_cons_succ] at hs
      obtain ⟨j, q, hpath, hblock⟩ := ih rfl _ (Nat.min_le_left _ (n + 1)) k s hs
      refine ⟨j + 1, q, by rw [hpath, Nat.add_right_comm, Nat.add_assoc], ?_⟩
      simp only [blockIn_succ, hblock, decide_eq_decide]
      omega
  | nested level i part items rest hslot hn ihitems ih =>
    rintro rfl n hle k s hs
    obtain ⟨-, hpast⟩ :=
      slotsIn_replaceInContentArray .anthropic descriptions positions items .blocks 0 rfl n hle
    rw [slotsIn_nested hslot hn] at hs
    rw [replaceInContentArray_nested hslot hn]
    rcases Nat.lt_or_ge k (slotsIn .anthropic .blocks 0 items).length with hlt | hge
    · rw [List.getElem?_append_left (by rwa [List.length_map]), List.getElem?_map] at hs
      obtain ⟨t, ht, rfl⟩ := Option.map_eq_some_iff.mp hs
      obtain ⟨j, q, hpath, hblock⟩ := ihitems rfl n hle k t ht
      refine ⟨0, t.1, rfl, ?_⟩
      simp only [blockIn_under _ _ (path_ne_nil (List.mem_of_getElem? ht)),
        contentOf_set (items?_of_nested? hn)]
      rw [hpath, Nat.zero_add]
      exact hblock
    · rw [List.getElem?_append_right (by rwa [List.length_map]), List.length_map] at hs
      obtain ⟨j, q, hpath, hblock⟩ := ih rfl
        (min descriptions.length (n + (slotsIn .anthropic .blocks 0 items).length))
        (Nat.min_le_left _ _) _ s hs
      refine ⟨j + 1, q, by rw [hpath, Nat.add_right_comm, Nat.add_assoc], ?_⟩
      simp only [hpast, blockIn_succ, hblock, decide_eq_decide]
      omega
  | other level i part rest hslot hn ih =>
    rintro rfl n hle k s hs
    rw [slotsIn_other hslot hn] at hs
    obtain ⟨j, q, hpath, hblock⟩ := ih rfl n hle k s hs
    rw [replaceInContentArray_other hslot hn]
    refine ⟨j + 1, q, by rw [hpath, Nat.add_right_comm, Nat.add_assoc], ?_⟩
    simp only [blockIn_succ, hblock]

/-! ## The messages -/

theorem breakpointsIn_append_textBlock (content : List Json) (text : JsString) :
    breakpointsIn (content ++ [textBlock .openai text]) = breakpointsIn content := by
  unfold breakpointsIn
  rw [List.countP_append]
  rfl

/-- The overflow text is no caption and has no content. -/
theorem blockIn_append_textBlock (content : List Json) (text : JsString) (path : List ℕ) :
    (blockIn (content ++ [textBlock .openai text]) path).any isCaption =
      (blockIn content path).any isCaption := by
  cases path with
  | nil => rfl
  | cons i q =>
    rcases Nat.lt_trichotomy i content.length with hlt | heq | hgt
    · have hget : (content ++ [textBlock .openai text])[i]? = content[i]? :=
        List.getElem?_append_left hlt
      cases q with
      | nil => rw [blockIn, blockIn, hget]
      | cons j q => rw [blockIn_below, blockIn_below, hget]
    · have hget : (content ++ [textBlock .openai text])[i]? = some (textBlock .openai text) := by
        rw [heq, List.getElem?_concat_length]
      have hnone : content[i]? = none := List.getElem?_eq_none (Nat.le_of_eq heq.symm)
      cases q with
      | nil =>
        rw [blockIn, blockIn, hget, hnone]
        rfl
      | cons j q =>
        rw [blockIn_below, blockIn_below, hget, hnone]
        cases q with
        | nil => rfl
        | cons j' q => rfl
    · have hget : (content ++ [textBlock .openai text])[i]? = none :=
        List.getElem?_eq_none (by rw [List.length_append]; exact hgt)
      have hnone : content[i]? = none := List.getElem?_eq_none (Nat.le_of_lt hgt)
      cases q with
      | nil => rw [blockIn, blockIn, hget, hnone]
      | cons j q => rw [blockIn_below, blockIn_below, hget, hnone]

/-- One message and those behind it: the blocks of the message, with or
without the overflow text. -/
theorem replaceInMessages_cons {msg : Json} (h : msg.items? (js "content") = some content)
    (rest : List Json) (n overflowIdx : ℕ) :
    ∃ blocks overflowIdx',
      replaceInMessages .anthropic descriptions overflow positions n overflowIdx (msg :: rest) =
        msg.set (js "content") (.arr blocks) ::
          replaceInMessages .anthropic descriptions overflow positions
            (replaceInContentArray .anthropic descriptions positions n content).2 overflowIdx' rest ∧
      (blocks = (replaceInContentArray .anthropic descriptions positions n content).1 ∨
        blocks = (replaceInContentArray .anthropic descriptions positions n content).1 ++
          [textBlock .openai (joinLines overflow)]) := by
  rw [replaceInMessages, h]
  simp only []
  split
  · exact ⟨_, _, rfl, .inr rfl⟩
  · exact ⟨_, _, rfl, .inl rfl⟩

theorem breakpoints_replaceInMessages (messages : List Json) : ∀ i n overflowIdx : ℕ,
    n ≤ descriptions.length →
      ((replaceInMessages .anthropic descriptions overflow positions n overflowIdx messages).map
          fun m => breakpointsIn (contentOf m)).sum =
        (messages.map fun m => breakpointsIn (contentOf m)).sum +
          ((slotsIn .anthropic .messages i messages).take (descriptions.length - n)).countP
            (gains 2) := by
  induction messages with
  | nil =>
    intro i n overflowIdx _
    rw [replaceInMessages, slotsIn_nil, List.take_nil]
    rfl
  | cons msg rest ih =>
    intro i n overflowIdx hle
    rw [slotsIn_message .anthropic i msg rest]
    cases hcontent : msg.items? (js "content") with
    | none =>
      have hrest := ih (i + 1) n overflowIdx hle
      rw [replaceInMessages, hcontent, Option.getD_none, slotsIn_nil, List.map_nil,
        List.nil_append]
      simp only [List.map_cons, List.sum_cons]
      omega
    | some content =>
      have hblocks : breakpointsIn
          (replaceInContentArray .anthropic descriptions positions n content).1 = _ :=
        breakpointsIn_replaceInContentArray content .blocks 0 rfl n hle
      obtain ⟨-, hcursor⟩ :=
        slotsIn_replaceInContentArray .anthropic descriptions positions content .blocks 0 rfl n hle
      obtain ⟨blocks, overflowIdx', hcons, hcases⟩ :=
        replaceInMessages_cons hcontent rest n overflowIdx
      have hrest := ih (i + 1)
        (replaceInContentArray .anthropic descriptions positions n content).2 overflowIdx' (by omega)
      have hpast : descriptions.length -
          (replaceInContentArray .anthropic descriptions positions n content).2 =
          descriptions.length - n - (slotsIn .anthropic .blocks 0 content).length := by omega
      have hcount : breakpointsIn blocks =
          breakpointsIn (replaceInContentArray .anthropic descriptions positions n content).1 := by
        rcases hcases with rfl | rfl
        · rfl
        · exact breakpointsIn_append_textBlock _ _
      have hmsg : contentOf msg = content := by rw [contentOf, hcontent, Option.getD_some]
      rw [hpast] at hrest
      rw [hcons, Option.getD_some, List.take_append, List.countP_append, List.length_map,
        ← List.map_take, countP_gains_under, List.map_cons, List.map_cons, List.sum_cons,
        List.sum_cons, contentOf_set hcontent, hmsg, hcount, hblocks, hrest]
      omega

theorem blockIn_replaceInMessages (messages : List Json) : ∀ i n overflowIdx : ℕ,
    n ≤ descriptions.length → ∀ k s,
      (slotsIn .anthropic .messages i messages)[k]? = some s →
      ∃ j q, s.1 = (i + j) :: q ∧
        (blockIn (replaceInMessages .anthropic descriptions overflow positions n overflowIdx
          messages) (j :: q)).any isCaption = decide (n + k < descriptions.length) := by
  induction messages with
  | nil => simp
  | cons msg rest ih =>
    intro i n overflowIdx hle k s hs
    rw [slotsIn_message .anthropic i msg rest] at hs
    cases hcontent : msg.items? (js "content") with
    | none =>
      rw [hcontent, Option.getD_none, slotsIn_nil, List.map_nil, List.nil_append] at hs
      obtain ⟨j, q, hpath, hblock⟩ := ih (i + 1) n overflowIdx hle k s hs
      refine ⟨j + 1, q, by rw [hpath, Nat.add_right_comm, Nat.add_assoc], ?_⟩
      rw [replaceInMessages, hcontent]
      simp only [blockIn_succ, hblock]
    | some content =>
      obtain ⟨-, hcursor⟩ :=
        slotsIn_replaceInContentArray .anthropic descriptions positions content .blocks 0 rfl n hle
      obtain ⟨blocks, overflowIdx', hcons, hcases⟩ :=
        replaceInMessages_cons hcontent rest n overflowIdx
      rw [hcons]
      rw [hcontent, Option.getD_some] at hs
      rcases Nat.lt_or_ge k (slotsIn .anthropic .blocks 0 content).length with hlt | hge
      · rw [List.getElem?_append_left (by rwa [List.length_map]), List.getElem?_map] at hs
        obtain ⟨t, ht, rfl⟩ := Option.map_eq_some_iff.mp hs
        obtain ⟨j, q, hpath, hblock⟩ :=
          blockIn_replaceInContentArray content .blocks 0 rfl n hle k t ht
        refine ⟨0, t.1, rfl, ?_⟩
        rw [blockIn_under _ _ (path_ne_nil (List.mem_of_getElem? ht)), contentOf_set hcontent,
          hpath, Nat.zero_add]
        rcases hcases with rfl | rfl
        · exact hblock
        · rw [blockIn_append_textBlock]
          exact hblock
      · rw [List.getElem?_append_right (by rwa [List.length_map]), List.length_map] at hs
        obtain ⟨j, q, hpath, hblock⟩ := ih (i + 1)
          (replaceInContentArray .anthropic descriptions positions n content).2 overflowIdx'
          (by omega) _ s hs
        refine ⟨j + 1, q, by rw [hpath, Nat.add_right_comm, Nat.add_assoc], ?_⟩
        rw [blockIn_succ, hblock, hcursor, decide_eq_decide]
        omega

/-! ## The body -/

variable {body : Json} {messages : List Json}

theorem items?_replaceImageBlocks (h : body.items? (js "messages") = some messages) :
    (replaceImageBlocks body .anthropic descriptions overflow positions).items? (js "messages") =
      some (replaceInMessages .anthropic descriptions overflow positions 0 0 messages) := by
  rw [replaceImageBlocks, h]
  exact Json.items?_eq_some.mpr (Json.get?_set (Json.items?_eq_some.mp h) _)

theorem breakpoints_replaceImageBlocks (body : Json) :
    breakpoints (replaceImageBlocks body .anthropic descriptions overflow positions) =
      breakpoints body + ((slots .anthropic body).take descriptions.length).countP (gains 2) := by
  cases hmessages : body.items? (js "messages") with
  | none => simp [replaceImageBlocks, hmessages, slots]
  | some messages =>
    have hsystem : (replaceImageBlocks body .anthropic descriptions overflow positions).items?
        (js "system") = body.items? (js "system") := by
      rw [replaceImageBlocks, hmessages]
      unfold Json.items?
      rw [Json.get?_set_of_ne (by decide)]
    have hcount : ((replaceInMessages .anthropic descriptions overflow positions 0 0 messages).map
        fun m => breakpointsIn (contentOf m)).sum = _ :=
      breakpoints_replaceInMessages messages 0 0 0 (Nat.zero_le _)
    rw [breakpoints, breakpoints, hsystem, items?_replaceImageBlocks hmessages, hmessages,
      Option.getD_some, Option.getD_some, hcount, slots, hmessages, Option.getD_some, Nat.sub_zero,
      Nat.add_assoc]

/-- A slot of the body holds a caption behind the replacement if there was a
description for it. -/
theorem blockIn_replaceImageBlocks (h : (slots .anthropic body)[k]? = some s) :
    (blockIn (((replaceImageBlocks body .anthropic descriptions overflow positions).items?
      (js "messages")).getD []) s.1).any isCaption = decide (k < descriptions.length) := by
  cases hmessages : body.items? (js "messages") with
  | none =>
    rw [slots, hmessages, Option.getD_none, slotsIn_nil] at h
    exact absurd h (by simp)
  | some messages =>
    rw [slots, hmessages, Option.getD_some] at h
    obtain ⟨j, q, hpath, hblock⟩ := blockIn_replaceInMessages messages 0 0 0 (Nat.zero_le _) k s h
    rw [items?_replaceImageBlocks hmessages, Option.getD_some, hpath, Nat.zero_add, hblock,
      Nat.zero_add]

theorem countP_and_of_lt {α : Type} (P Q : α → Bool) (l : List α) : ∀ r : ℕ,
    (∀ k a, l[k]? = some a → Q a = decide (k < r)) →
      l.countP (fun a => P a && Q a) = (l.take r).countP P := by
  induction l with
  | nil => simp
  | cons a rest ih =>
    intro r h
    have hhead : Q a = decide (0 < r) := h 0 a rfl
    have htail := ih (r - 1) fun k b hk => by
      rw [h (k + 1) b hk, decide_eq_decide]
      omega
    cases r with
    | zero => simp [hhead, htail]
    | succ r => simp [List.countP_cons, hhead, htail]

theorem two_le_length (messages : List Json) : ∀ i : ℕ,
    ∀ s ∈ slotsIn .anthropic .messages i messages, 2 ≤ s.1.length := by
  induction messages with
  | nil => simp
  | cons msg rest ih =>
    intro i s hs
    rw [slotsIn_message, List.mem_append] at hs
    rcases hs with hs | hs
    · obtain ⟨t, ht, rfl⟩ := List.mem_map.mp hs
      have hne : 0 < t.1.length := List.length_pos_of_ne_nil (path_ne_nil ht)
      rw [List.length_cons]
      omega
    · exact ih (i + 1) s hs

theorem fresh_eq (body : Json) (n : ℕ) :
    fresh body n = ((slots .anthropic body).take n).countP (gains 2) +
      ((slots .anthropic body).take n).countP fun s => 2 < s.1.length := by
  have hdeep : ∀ s ∈ (slots .anthropic body).take n, 2 ≤ s.1.length := fun s hs =>
    two_le_length _ 0 s (List.mem_of_mem_take hs)
  unfold fresh
  generalize (slots .anthropic body).take n = ss at hdeep ⊢
  induction ss with
  | nil => rfl
  | cons s rest ih =>
    have hs : 2 ≤ s.1.length := hdeep s List.mem_cons_self
    rw [List.countP_cons, List.countP_cons, List.countP_cons,
      ih fun t ht => hdeep t (List.mem_cons_of_mem _ ht)]
    by_cases htwo : s.1.length = 2
    · simp [gains, htwo]
      omega
    · have hlt : 2 < s.1.length := by omega
      simp [gains, htwo, hlt]
      omega

/-! ## The clone -/

theorem hasBreakpoint_cloneBody (part : Json) :
    hasBreakpoint (cloneBody part) = hasBreakpoint part := by
  unfold hasBreakpoint
  rw [get?_cloneBody]
  cases part.get? (js "cache_control") with
  | none => rfl
  | some cc =>
    simp only [Option.map_some, Json.propIs, get?_cloneBody]
    cases cc.get? (js "type") with
    | none => rfl
    | some type =>
      cases type with
      | num n =>
        rcases cloneBody_num n with ⟨m, heq⟩ | heq
        · rw [Option.map_some, heq]
          rfl
        · rw [Option.map_some, heq]
          rfl
      | _ => rfl

theorem breakpointsIn_map_cloneBody (blocks : List Json) :
    breakpointsIn (blocks.map cloneBody) = breakpointsIn blocks := by
  unfold breakpointsIn
  rw [List.countP_map]
  congr 1
  funext block
  exact hasBreakpoint_cloneBody block

theorem breakpointsIn_cloneBody (v : Json) (key : JsString) :
    breakpointsIn (((cloneBody v).items? key).getD []) = breakpointsIn ((v.items? key).getD []) := by
  rw [items?_cloneBody]
  cases v.items? key with
  | none => rfl
  | some items => exact breakpointsIn_map_cloneBody items

theorem breakpoints_cloneBody (body : Json) : breakpoints (cloneBody body) = breakpoints body := by
  unfold breakpoints
  rw [breakpointsIn_cloneBody, items?_cloneBody]
  cases body.items? (js "messages") with
  | none => rfl
  | some messages =>
    rw [Option.map_some, Option.getD_some, Option.getD_some, List.map_map]
    congr 2
    exact List.map_congr_left fun m _ => breakpointsIn_cloneBody m (js "content")

theorem fresh_cloneBody (body : Json) (n : ℕ) : fresh (cloneBody body) n = fresh body n := by
  unfold fresh
  rw [slots_cloneBody, ← List.map_take, List.countP_map]
  congr 1
  funext s
  simp only [Function.comp_apply, hasBreakpoint_cloneBody]

/-- The breakpoints of a body whose images were replaced: those of the body
that was handed over and those that the replacement added. -/
theorem breakpoints_replaced (body : Json) :
    breakpoints (replaceImageBlocks (cloneBody body) .anthropic descriptions overflow positions) +
        addedNested body
          (replaceImageBlocks (cloneBody body) .anthropic descriptions overflow positions) =
      breakpoints body + fresh body descriptions.length := by
  have hnested : addedNested body
      (replaceImageBlocks (cloneBody body) .anthropic descriptions overflow positions) =
      ((slots .anthropic body).take descriptions.length).countP fun s => 2 < s.1.length := by
    refine countP_and_of_lt _ _ _ _ fun k s hs => ?_
    have hclone : (slots .anthropic (cloneBody body))[k]? = some (s.1, cloneBody s.2) := by
      rw [slots_cloneBody, List.getElem?_map, hs]
      rfl
    show (blockIn _ (s.1, cloneBody s.2).1).any isCaption = decide (k < descriptions.length)
    exact blockIn_replaceImageBlocks hclone
  rw [breakpoints_replaceImageBlocks, hnested, breakpoints_cloneBody, ← fresh_cloneBody body,
    fresh_eq, slots_cloneBody, ← List.map_take, List.countP_map, List.countP_map]
  rw [Nat.add_assoc]
  rfl

/-! ## The second walk -/

theorem isCaption_stampBlockTtl (ttl : JsString) (block : Json) :
    isCaption (stampBlockTtl ttl block) = isCaption block := by
  have htype : hasType (stampBlockTtl ttl block) "image" = hasType block "image" := by
    unfold hasType Json.str?
    rw [get?_stampBlockTtl (by decide)]
  rw [isCaption, isCaption, hasBreakpoint_stampBlockTtl, htype]

theorem contentOf_stampBlockTtl (ttl : JsString) (block : Json) :
    contentOf (stampBlockTtl ttl block) = contentOf block := by
  unfold contentOf Json.items?
  rw [get?_stampBlockTtl (by decide)]

/-- A map that keeps captions, and what stands below them, keeps the captions
at every path. -/
theorem blockIn_map (f : Json → Json) (hcaption : ∀ b, isCaption (f b) = isCaption b)
    (hbelow : ∀ b path, (blockIn (contentOf (f b)) path).any isCaption =
      (blockIn (contentOf b) path).any isCaption) (items : List Json) (path : List ℕ) :
    (blockIn (items.map f) path).any isCaption = (blockIn items path).any isCaption := by
  cases path with
  | nil => rfl
  | cons i q =>
    cases q with
    | nil =>
      rw [blockIn, blockIn, List.getElem?_map]
      cases items[i]? with
      | none => rfl
      | some b => exact hcaption b
    | cons j q =>
      rw [blockIn_below, blockIn_below, List.getElem?_map]
      cases items[i]? with
      | none => rfl
      | some b => exact hbelow b (j :: q)

/-- The ttl on the blocks of a message. -/
def stampMessageTtl : Json → Json :=
  Json.mapItems (js "content") (List.map (stampBlockTtl STAMP_CACHE_TTL_VALUE))

theorem breakpointsIn_map_stampBlockTtl (blocks : List Json) :
    breakpointsIn (blocks.map (stampBlockTtl STAMP_CACHE_TTL_VALUE)) = breakpointsIn blocks := by
  unfold breakpointsIn
  rw [List.countP_map]
  congr 1
  funext block
  exact hasBreakpoint_stampBlockTtl _ block

theorem contentOf_stampMessageTtl (m : Json) :
    contentOf (stampMessageTtl m) = (contentOf m).map (stampBlockTtl STAMP_CACHE_TTL_VALUE) := by
  unfold contentOf stampMessageTtl
  rw [Json.items?_mapItems]
  cases m.items? (js "content") with
  | none => rfl
  | some content => rfl

theorem isCaption_stampMessageTtl (m : Json) : isCaption (stampMessageTtl m) = isCaption m := by
  unfold isCaption hasType Json.str? hasBreakpoint stampMessageTtl
  rw [Json.get?_mapItems_of_ne (by decide), Json.get?_mapItems_of_ne (by decide)]

theorem items?_ttlBody_system (body : Json) :
    (ttlBody body).items? (js "system") =
      (body.items? (js "system")).map (List.map (stampBlockTtl STAMP_CACHE_TTL_VALUE)) := by
  rw [ttlBody, Json.items?_mapItems_of_ne (by decide), Json.items?_mapItems]

theorem items?_ttlBody_messages (h : iterates body = true) :
    (ttlBody body).items? (js "messages") =
      (body.items? (js "messages")).map (List.map stampMessageTtl) := by
  rw [ttlBody, Json.items?_mapItems, items?_messages_mapItems_system]
  cases hmessages : body.items? (js "messages") with
  | none => rfl
  | some messages =>
    have hnull : messages.any isNull = false := by
      rw [iterates, Json.items?_eq_some.mp hmessages] at h
      simpa using h
    rw [Option.map_some, Option.map_some, stampTtlMessages_fst _ hnull]
    rfl

theorem breakpoints_ttlBody (h : iterates body = true) :
    breakpoints (ttlBody body) = breakpoints body := by
  unfold breakpoints
  rw [items?_ttlBody_system, items?_ttlBody_messages h]
  have hsystem : breakpointsIn (((body.items? (js "system")).map
      (List.map (stampBlockTtl STAMP_CACHE_TTL_VALUE))).getD []) =
        breakpointsIn ((body.items? (js "system")).getD []) := by
    cases body.items? (js "system") with
    | none => rfl
    | some blocks => exact breakpointsIn_map_stampBlockTtl blocks
  have hmessage : ∀ m, breakpointsIn (contentOf (stampMessageTtl m)) = breakpointsIn (contentOf m) :=
    fun m => by rw [contentOf_stampMessageTtl, breakpointsIn_map_stampBlockTtl]
  rw [hsystem]
  cases body.items? (js "messages") with
  | none => rfl
  | some messages => simp [Function.comp_def, hmessage]

theorem addedNested_ttlBody (handed : Json) (h : iterates body = true) :
    addedNested handed (ttlBody body) = addedNested handed body := by
  have hblocks : ∀ blocks path,
      (blockIn (blocks.map (stampBlockTtl STAMP_CACHE_TTL_VALUE)) path).any isCaption =
        (blockIn blocks path).any isCaption :=
    blockIn_map _ (isCaption_stampBlockTtl _) fun b path => by rw [contentOf_stampBlockTtl]
  have hmessages : ∀ messages path, (blockIn (messages.map stampMessageTtl) path).any isCaption =
      (blockIn messages path).any isCaption :=
    blockIn_map _ isCaption_stampMessageTtl fun m path => by
      rw [contentOf_stampMessageTtl, hblocks]
  unfold addedNested
  rw [items?_ttlBody_messages h]
  cases body.items? (js "messages") with
  | none => rfl
  | some messages =>
    simp only [Option.map_some, Option.getD_some, hmessages]

/-! ## The stage -/

variable {stage : VisionStage} {kind : ApiKind} {modelName : Option JsString}

theorem process_replaced
    (h : handoffParts stage.config stage.catalog body kind modelName ≠ []) :
    (stage.process body kind modelName).changed = true ∧
      ∃ descriptions overflow positions, descriptions.length = keptCount stage.config kind body ∧
        (stage.process body kind modelName).body =
          replaceImageBlocks (cloneBody body) kind descriptions overflow positions := by
  unfold VisionStage.process
  split
  · exact processBodyCacheOnly_replaced _ _ h
  · exact processBody_replaced _ h

theorem process_unchanged
    (h : handoffParts stage.config stage.catalog body kind modelName = []) :
    (stage.process body kind modelName).changed = false := by
  unfold VisionStage.process
  split
  · exact processBodyCacheOnly_unchanged h
  · exact processBody_unchanged h

theorem stampPostVision_stamped {ctx : StampContext} {stamped : Json}
    (h : stampPostVision body ctx = .returned stamped true) :
    iterates body = true ∧ stamped = ttlBody body := by
  unfold stampPostVision at h
  split at h
  · rename_i happlies
    obtain ⟨changed, happly⟩ := apply_CacheTtlStep ctx (Bool.and_eq_true_iff.mp happlies).2
    rw [happly] at h
    split at h
    · cases h
      exact ⟨‹_›, rfl⟩
    · exact absurd h (by simp)
  · exact absurd h (by simp)

/-- How many blocks the stage replaces in the stamped body; none where it
leaves the request alone. -/
def replacedCount (vision : Option VisionStage) (modelName : Option JsString) (body : Json) :
    Option ℕ :=
  match vision.filter fun _ => body.truthy with
  | none => none
  | some stage =>
    if handoffParts stage.config stage.catalog body .anthropic modelName = [] then none
    else some (keptCount stage.config .anthropic body)

/-- What the stage sends for the request the pipeline hands it. -/
theorem breakpoints_runVisionHandoff (settings : StampPipelineConfig) (models : Catalog)
    (vision : Option VisionStage) (modelName : Option JsString) (request : StampedRequest) :
    (runVisionHandoff settings false models vision modelName request).breakpoints =
      match replacedCount vision modelName request.body with
      | none => breakpoints request.reqBody
      | some n => breakpoints request.body + fresh request.body n := by
  unfold runVisionHandoff replacedCount
  cases hvision : vision.filter fun _ => request.body.truthy with
  | none => rfl
  | some stage =>
    simp only []
    by_cases hparts : handoffParts stage.config stage.catalog request.body .anthropic modelName = []
    · have hsame := process_unchanged hparts
      simp [hsame, hparts, Outbound.breakpoints]
    · obtain ⟨hchanged, descriptions, overflow, positions, hlength, hbody⟩ :=
        process_replaced hparts
      have hcount : breakpoints (stage.process request.body .anthropic modelName).body +
          addedNested request.body (stage.process request.body .anthropic modelName).body =
            breakpoints request.body +
              fresh request.body (keptCount stage.config .anthropic request.body) := by
        rw [hbody, breakpoints_replaced, hlength]
      simp only [Bool.false_eq_true, if_false, hchanged, if_true, if_neg hparts]
      split
      · rename_i stamped hstamped
        obtain ⟨hiterates, rfl⟩ := stampPostVision_stamped hstamped
        rw [Outbound.breakpoints, breakpoints_ttlBody hiterates]
        simp only []
        rw [addedNested_ttlBody _ hiterates, hcount]
      · exact hcount

end

/-- The request as the pipeline hands it over leaves room for the breakpoints
of the replaced images. -/
def FitsFour (settings : StampPipelineConfig) (models : Catalog) (fault : Option ℕ)
    (vision : Option VisionStage) (body : Json) : Prop :=
  let ctx := requestContext settings false models body
  let request := stampRequest ctx fault body
  match replacedCount vision ctx.modelName request.body with
  | none => breakpoints request.reqBody ≤ 4
  | some n => breakpoints request.body + fresh request.body n ≤ 4

/-- At most four breakpoints leave the proxy exactly if those of the stamped
request and the replaced images that are nested or carry none are at most
four. -/
theorem upstream_atMostFour_iff (settings : StampPipelineConfig) (models : Catalog)
    (fault : Option ℕ) (vision : Option VisionStage) (body : Json) :
    (upstream settings false models fault vision body).breakpoints ≤ 4 ↔
      FitsFour settings models fault vision body := by
  unfold upstream FitsFour
  simp only [breakpoints_runVisionHandoff]
  split
  · exact Iff.rfl
  · exact Iff.rfl

/-- A question of five images. -/
def fiveImages : Json :=
  .obj [(js "messages", .arr [.obj [(js "role", .str (js "user")), (js "content", .arr
    (List.replicate 5 (.obj [(js "type", .str (js "image")),
      (js "source", .obj [(js "type", .str (js "url")), (js "url", .str (js "u"))])])))]])]

def stampsOnly : StampPipelineConfig where
  stampClaudeCode := true
  stampModelRules := []
  stampReasoningEffort := none
  experimentStripOmoReminder := false

/-- Every call fails, which leaves a text block as well. -/
def keepsFive : VisionStage where
  config := ⟨.always, 5, false⟩
  catalog := none
  backgroundVision := false
  cached := fun _ => none
  processImage := fun _ _ => none

/-- The pipeline puts a breakpoint on the last image; the replacement puts one
on each of the others. -/
theorem five_images_five_breakpoints :
    stampsOnly.stampClaudeCode = true ∧
      ¬ (upstream stampsOnly false [] none (some keepsFive) fiveImages).breakpoints ≤ 4 := by
  have hreplaced : replacedCount (some keepsFive) none
      (stampRequest (requestContext stampsOnly false [] fiveImages) none fiveImages).body =
        some 5 := by
    decide +kernel
  have hstamped : breakpoints
      (stampRequest (requestContext stampsOnly false [] fiveImages) none fiveImages).body = 1 := by
    decide +kernel
  have hfresh : fresh
      (stampRequest (requestContext stampsOnly false [] fiveImages) none fiveImages).body 5 = 4 := by
    decide +kernel
  refine ⟨rfl, ?_⟩
  have hname : (requestContext stampsOnly false [] fiveImages).modelName = none := rfl
  unfold upstream
  simp only [breakpoints_runVisionHandoff, hname, hreplaced, hstamped, hfresh]
  decide

/-! ## Layout B -/

/-- One entry at most is not zero. -/
theorem sum_le_of_one (last : Option ℕ) (counts : List ℕ) : ∀ i : ℕ,
    (∀ (k c : ℕ), counts[k]? = some c → c ≤ if last = some (i + k) then 1 else 0) →
      counts.sum ≤ if last.any (i ≤ ·) then 1 else 0 := by
  induction counts with
  | nil => simp
  | cons c rest ih =>
    intro i h
    have hhead := h 0 c rfl
    have htail := ih (i + 1) fun k d hd => by
      rw [Nat.add_assoc, Nat.add_comm 1]
      exact h (k + 1) d hd
    rw [List.sum_cons]
    cases last with
    | none =>
      simp only [reduceCtorEq, if_false] at hhead
      simp only [Option.any_none, Bool.false_eq_true, if_false] at htail ⊢
      omega
    | some j =>
      simp only [Nat.add_zero, Option.some.injEq] at hhead
      simp only [Option.any_some, decide_eq_true_eq] at htail ⊢
      by_cases hj : j = i
      · rw [if_pos hj] at hhead
        rw [if_neg (by omega)] at htail
        rw [if_pos (by omega)]
        omega
      · rw [if_neg hj] at hhead
        by_cases hle : i + 1 ≤ j
        · rw [if_pos hle] at htail
          rw [if_pos (by omega)]
          omega
        · rw [if_neg hle] at htail
          omega

/-- Laid out messages carry one breakpoint at most. -/
theorem sum_breakpoints_le_one {messages : List Json} (h : LaidOut messages) :
    (messages.map fun m => breakpointsIn (contentOf m)).sum ≤ 1 := by
  have hone : ∀ mi m, messages[mi]? = some m →
      breakpointsIn (contentOf m) ≤ if lastUserIdx messages = some mi then 1 else 0 := by
    intro mi m hm
    cases hcontent : m.items? (js "content") with
    | none => simp [contentOf, hcontent, breakpointsIn]
    | some content =>
      have hlaid := h mi m content hm hcontent
      rw [contentOf, hcontent, Option.getD_some]
      rcases List.eq_nil_or_concat content with rfl | ⟨init, b, rfl⟩
      · simp [breakpointsIn]
      · rw [List.concat_eq_append] at hlaid ⊢
        obtain ⟨hlast, hinit⟩ := hlaid init b rfl
        have hzero : init.countP hasBreakpoint = 0 := by
          rw [List.countP_eq_zero]
          intro x hx
          rw [hinit x hx]
          exact Bool.false_ne_true
        rw [← lastUserIdx_eq_some] at hlast
        rw [breakpointsIn, List.countP_append, hzero, List.countP_singleton]
        by_cases hbreak : hasBreakpoint b = true
        · simp [hbreak, hlast.mp hbreak]
        · simp [hbreak]
  have hcounts : ∀ (k c : ℕ), (messages.map fun m => breakpointsIn (contentOf m))[k]? = some c →
      c ≤ if lastUserIdx messages = some (0 + k) then 1 else 0 := by
    intro k c hc
    rw [List.getElem?_map] at hc
    obtain ⟨m, hm, rfl⟩ := Option.map_eq_some_iff.mp hc
    rw [Nat.zero_add]
    exact hone k m hm
  have hsum := sum_le_of_one (lastUserIdx messages) _ 0 hcounts
  split at hsum
  · exact hsum
  · omega

/-- A laid out system carries one breakpoint at most. -/
theorem breakpointsIn_system_le_one {before after : Option Json} (h : SystemLaidOut before after) :
    ∀ blocks, after = some (.arr blocks) → breakpointsIn blocks ≤ 1 := by
  rintro blocks rfl
  unfold SystemLaidOut at h
  split at h
  · obtain ⟨b', rest', heq, hrest, -⟩ := h
    cases heq
    have hzero : rest'.countP hasBreakpoint = 0 := by
      rw [List.countP_eq_zero]
      intro x hx
      rw [hrest x hx]
      exact Bool.false_ne_true
    rw [breakpointsIn, List.countP_cons, hzero]
    split
    · omega
    · omega
  · rename_i hnot
    cases blocks with
    | nil => exact Nat.zero_le 1
    | cons b rest => exact absurd h.symm (hnot b rest)

/-- A request laid out by Layout B carries two breakpoints at most, which
leaves room for two images. -/
theorem breakpoints_le_two {ctx : StampContext} {body : Json} {messages : List Json}
    (hobj : body.isObject = true) (h : ReturnsLayoutB ctx body messages) :
    breakpoints (stampRequest ctx none body).body ≤ 2 := by
  obtain ⟨out, changed, hrun, hsystem, hmessages, -⟩ := h
  have hout : (stampRequest ctx none body).body = out := by
    rw [stampRequest_body, stampRun_of_isObject ctx none hobj, runUntil_none]
    rw [runPipeline] at hrun
    rw [hrun, Stamped.body]
  rw [hout, breakpoints]
  have hsys : breakpointsIn ((out.items? (js "system")).getD []) ≤ 1 := by
    cases hitems : out.items? (js "system") with
    | none => exact Nat.zero_le 1
    | some blocks =>
      exact breakpointsIn_system_le_one hsystem blocks (Json.items?_eq_some.mp hitems)
  have hmsg : (((out.items? (js "messages")).getD []).map fun m =>
      breakpointsIn (contentOf m)).sum ≤ 1 := by
    cases hitems : out.items? (js "messages") with
    | none => exact Nat.zero_le 1
    | some messages => exact sum_breakpoints_le_one (hmessages messages (Json.items?_eq_some.mp hitems))
  omega

end UmansGate.Vision
