/-
UmansGate.Lib.Framing — a text cut into blocks at a separator, whole or as
it arrives in chunks.

`drain` takes the complete blocks off a buffer, `feed` appends a chunk and
drains. `Framed` is the cut of a whole text, by the first separator first;
`foldl_feed` says that feeding chunks makes the same cut however the text
was chunked, and hands each block the time of the chunk its separator ends
in (`arrival`).
-/
import Mathlib.Algebra.GroupWithZero.Nat
import Mathlib.Data.List.Basic
import Mathlib.Data.List.Infix

namespace UmansGate.Lib

/-- A piece of a text and the time it arrived. -/
structure Chunk (α τ : Type) where
  text : List α
  time : τ

namespace Framing

section

variable {α τ σ : Type} [DecidableEq α]

/-- The text before the first separator and the text behind it. -/
def cut (sep : List α) : List α → Option (List α × List α)
  | [] => none
  | a :: text =>
    if sep.isPrefixOf (a :: text) then some ([], (a :: text).drop sep.length)
    else (cut sep text).map fun r => (a :: r.1, r.2)

/-- Handle the complete blocks of a buffer, up to `fuel` of them. -/
def drain (sep : List α) (handle : σ → List α → σ) : ℕ → σ → List α → σ × List α
  | 0, s, buf => (s, buf)
  | fuel + 1, s, buf =>
    match cut sep buf with
    | none => (s, buf)
    | some (block, rest) => drain sep handle fuel (handle s block) rest

/-- A chunk arrives: append it to the buffer and handle the complete blocks. -/
def feed (sep : List α) (handle : Option τ → σ → List α → σ) (st : σ × List α)
    (chunk : Chunk α τ) : σ × List α :=
  let buf := st.2 ++ chunk.text
  drain sep (handle (some chunk.time)) buf.length st.1 buf

/-- The text of some chunks. -/
def textOf (chunks : List (Chunk α τ)) : List α := chunks.flatMap Chunk.text

/-- The time of the chunk that brings the text up to `place`, `done` of which
came before. -/
def arrival (done : ℕ) : List (Chunk α τ) → ℕ → Option τ
  | [], _ => none
  | chunk :: chunks, place =>
    if place ≤ done + chunk.text.length then some chunk.time
    else arrival (done + chunk.text.length) chunks place

/-- A text is these blocks, each with the first separator behind it, and a rest
without one. -/
inductive Framed (sep : List α) : List α → List (List α) → List α → Prop
  | rest {text : List α} (h : cut sep text = none) : Framed sep text [] text
  | block {text block more : List α} {blocks : List (List α)} {rest : List α}
      (h : cut sep text = some (block, more)) (hmore : Framed sep more blocks rest) :
      Framed sep text (block :: blocks) rest

/-- The blocks with the places behind their separators. -/
def places (sep : List α) (done : ℕ) : List (List α) → List (List α × ℕ)
  | [] => []
  | block :: blocks =>
    (block, done + block.length + sep.length) ::
      places sep (done + block.length + sep.length) blocks

/-- The blocks of a text. -/
def blocksOf (sep text : List α) : List (List α) :=
  (drain sep (fun blocks block => blocks ++ [block]) text.length [] text).1

/-- The text behind the last separator. -/
def restOf (sep text : List α) : List α :=
  (drain sep (fun (_ : Unit) _ => ()) text.length () text).2

variable {sep text a b x y rest : List α} {blocks : List (List α)} {done : ℕ}

/-! ## Cutting once -/

theorem cut_eq (h : cut sep text = some (x, y)) : text = x ++ sep ++ y := by
  induction text generalizing x with
  | nil => simp [cut] at h
  | cons u text ih =>
    simp only [cut] at h
    split at h
    · rename_i hsep
      obtain ⟨rest, hrest⟩ := List.isPrefixOf_iff_prefix.mp hsep
      obtain ⟨rfl, rfl⟩ := Prod.mk.inj (Option.some.inj h)
      simp [← hrest]
    · obtain ⟨r, hr, hxy⟩ := Option.map_eq_some_iff.mp h
      obtain ⟨rfl, rfl⟩ := Prod.mk.inj hxy
      simpa using ih hr

/-- A cut is made at the same place whatever follows. -/
theorem cut_append (h : cut sep a = some (x, y)) (b : List α) :
    cut sep (a ++ b) = some (x, y ++ b) := by
  induction a generalizing x with
  | nil => simp [cut] at h
  | cons u a ih =>
    have heq := cut_eq h
    simp only [cut] at h
    split at h
    · rename_i hsep
      have hle := (List.isPrefixOf_iff_prefix.mp hsep).length_le
      have happ : sep.isPrefixOf (u :: (a ++ b)) = true :=
        List.isPrefixOf_iff_prefix.mpr
          ((List.isPrefixOf_iff_prefix.mp hsep).trans (List.prefix_append (u :: a) b))
      obtain ⟨rfl, rfl⟩ := Prod.mk.inj (Option.some.inj h)
      simp only [List.cons_append, cut, if_pos happ]
      rw [← List.cons_append, List.drop_append_of_le_length hle]
    · rename_i hsep
      obtain ⟨r, hr, hxy⟩ := Option.map_eq_some_iff.mp h
      obtain ⟨rfl, rfl⟩ := Prod.mk.inj hxy
      have hnot : ¬ sep.isPrefixOf (u :: (a ++ b)) = true := by
        intro happ
        have hlen : sep.length ≤ (u :: a).length := by
          rw [heq]
          simp
          omega
        exact hsep (List.isPrefixOf_iff_prefix.mpr
          (List.prefix_of_prefix_length_le (List.isPrefixOf_iff_prefix.mp happ)
            (List.prefix_append (u :: a) b) hlen))
      simp [cut, hnot, ih hr]

theorem cut_cons_eq_none {u : α} :
    cut sep (u :: a) = none ↔ ¬ sep <+: u :: a ∧ cut sep a = none := by
  simp only [cut, ← List.isPrefixOf_iff_prefix]
  split
  · rename_i hsep
    simp [hsep]
  · rename_i hsep
    simp [hsep]

/-- A text without a separator has none whose end lies inside it. -/
theorem lt_of_cut_append (hsep : sep ≠ []) (hnone : cut sep a = none)
    (h : cut sep (a ++ b) = some (x, y)) : a.length < x.length + sep.length := by
  induction a generalizing x with
  | nil => simpa using Nat.lt_add_left x.length (List.length_pos_iff.mpr hsep)
  | cons u a ih =>
    obtain ⟨hhead, htail⟩ := cut_cons_eq_none.mp hnone
    simp only [List.cons_append, cut] at h
    split at h
    · rename_i hpre
      obtain ⟨rfl, -⟩ := Prod.mk.inj (Option.some.inj h)
      by_contra hlt
      refine hhead (List.prefix_of_prefix_length_le (List.isPrefixOf_iff_prefix.mp hpre)
        (List.prefix_append (u :: a) b) ?_)
      simpa using hlt
    · obtain ⟨r, hr, hxy⟩ := Option.map_eq_some_iff.mp h
      obtain ⟨rfl, rfl⟩ := Prod.mk.inj hxy
      have := ih htail hr
      simp only [List.length_cons]
      omega

/-! ## Cutting a whole text -/

theorem exists_framed (hsep : sep ≠ []) (text : List α) :
    ∃ blocks rest, Framed sep text blocks rest := by
  induction hn : text.length using Nat.strong_induction_on generalizing text with
  | _ n ih =>
    cases hcut : cut sep text with
    | none => exact ⟨[], text, .rest hcut⟩
    | some r =>
      have hlen : text.length = r.1.length + sep.length + r.2.length := by
        simp [cut_eq (x := r.1) (y := r.2) hcut]
        omega
      have hpos := List.length_pos_iff.mpr hsep
      obtain ⟨blocks, rest, hmore⟩ := ih r.2.length (by omega) r.2 rfl
      exact ⟨r.1 :: blocks, rest, .block hcut hmore⟩

theorem Framed.unique {blocks' : List (List α)} {rest' : List α}
    (h : Framed sep text blocks rest) (h' : Framed sep text blocks' rest') :
    blocks = blocks' ∧ rest = rest' := by
  induction h generalizing blocks' rest' with
  | rest hcut =>
    cases h' with
    | rest _ => exact ⟨rfl, rfl⟩
    | block hcut' _ => simp [hcut] at hcut'
  | block hcut _ ih =>
    cases h' with
    | rest hcut' => simp [hcut] at hcut'
    | block hcut' hmore =>
      obtain ⟨rfl, rfl⟩ := Prod.mk.inj (Option.some.inj (hcut.symm.trans hcut'))
      obtain ⟨rfl, rfl⟩ := ih hmore
      exact ⟨rfl, rfl⟩

theorem Framed.cut_rest (h : Framed sep text blocks rest) : cut sep rest = none := by
  induction h with
  | rest hcut => exact hcut
  | block _ _ ih => exact ih

/-- The blocks of a text stay the first ones of every longer text. -/
theorem Framed.append {blocks' : List (List α)} {rest' : List α} (h : Framed sep a blocks rest)
    (h' : Framed sep (rest ++ b) blocks' rest') : Framed sep (a ++ b) (blocks ++ blocks') rest' := by
  induction h with
  | rest _ => exact h'
  | block hcut _ ih => exact .block (cut_append hcut b) (ih h')

/-- The units taken off by the blocks. -/
theorem Framed.length_eq (h : Framed sep text blocks rest) :
    text.length = (blocks.map fun block => block.length + sep.length).sum + rest.length := by
  induction h with
  | rest _ => simp
  | block hcut _ ih =>
    simp only [cut_eq hcut, List.length_append, List.map_cons, List.sum_cons, ih]
    omega

/-- Draining a buffer with enough fuel handles its blocks in order. -/
theorem drain_eq (hsep : sep ≠ []) (h : Framed sep text blocks rest) (handle : σ → List α → σ)
    {fuel : ℕ} (hfuel : text.length ≤ fuel) (s : σ) :
    drain sep handle fuel s text = (blocks.foldl handle s, rest) := by
  induction h generalizing s fuel with
  | rest hcut =>
    cases fuel with
    | zero => rfl
    | succ fuel => simp [drain, hcut]
  | block hcut hmore ih =>
    have hlen := congrArg List.length (cut_eq hcut)
    have hpos := List.length_pos_iff.mpr hsep
    simp only [List.length_append] at hlen
    cases fuel with
    | zero => omega
    | succ fuel => simp [drain, hcut, ih (by omega : _ ≤ fuel)]

theorem framed_blocksOf (hsep : sep ≠ []) (text : List α) :
    Framed sep text (blocksOf sep text) (restOf sep text) := by
  obtain ⟨blocks, rest, h⟩ := exists_framed hsep text
  have hblocks : blocksOf sep text = blocks := by
    rw [blocksOf, drain_eq hsep h _ (Nat.le_refl _)]
    simp [← List.flatMap_def]
  have hrest : restOf sep text = rest := by rw [restOf, drain_eq hsep h _ (Nat.le_refl _)]
  rwa [hblocks, hrest]

/-! ## Feeding chunks -/

omit [DecidableEq α] in
theorem map_fst_places (sep : List α) (blocks : List (List α)) (done : ℕ) :
    (places sep done blocks).map Prod.fst = blocks := by
  induction blocks generalizing done with
  | nil => rfl
  | cons block blocks ih => simp [places, ih]

omit [DecidableEq α] in
theorem places_append (blocks blocks' : List (List α)) (done : ℕ) :
    places sep done (blocks ++ blocks') = places sep done blocks ++
      places sep (done + (blocks.map fun block => block.length + sep.length).sum) blocks' := by
  induction blocks generalizing done with
  | nil => simp [places]
  | cons block blocks ih => simp [places, ih, Nat.add_assoc]

omit [DecidableEq α] in
theorem place_le {p : List α × ℕ} (hp : p ∈ places sep done blocks) :
    p.2 ≤ done + (blocks.map fun block => block.length + sep.length).sum := by
  induction blocks generalizing done with
  | nil => simp [places] at hp
  | cons block blocks ih =>
    simp only [List.map_cons, List.sum_cons]
    rcases List.mem_cons.mp hp with rfl | hp
    · simp only
      omega
    · have := ih hp
      omega

omit [DecidableEq α] in
theorem lt_place {p : List α × ℕ} (hp : p ∈ places sep done blocks) : done + sep.length ≤ p.2 := by
  induction blocks generalizing done with
  | nil => simp [places] at hp
  | cons block blocks ih =>
    rcases List.mem_cons.mp hp with rfl | hp
    · simp only
      omega
    · have := ih hp
      omega

/-- Blocks that no separator of `a` ends have their places behind `a`. -/
theorem Framed.lt_place (hsep : sep ≠ []) (hnone : cut sep a = none)
    (h : Framed sep (a ++ b) blocks rest) {p : List α × ℕ} (hp : p ∈ places sep done blocks) :
    done + a.length < p.2 := by
  cases h with
  | rest _ => simp [places] at hp
  | block hcut hmore =>
    have hfirst := lt_of_cut_append hsep hnone hcut
    rcases List.mem_cons.mp hp with rfl | hp
    · simp only
      omega
    · have := Framing.lt_place hp
      omega

/-- The blocks of chunks that arrive one by one are the blocks of their text,
each handled at the time its separator is complete. -/
theorem foldl_feed (hsep : sep ≠ []) (handle : Option τ → σ → List α → σ)
    {chunks : List (Chunk α τ)} {buf : List α} (hbuf : cut sep buf = none)
    (h : Framed sep (buf ++ textOf chunks) blocks rest) (done : ℕ) (s : σ) :
    chunks.foldl (feed sep handle) (s, buf) =
      ((places sep done blocks).foldl
        (fun s p => handle (arrival (done + buf.length) chunks p.2) s p.1) s, rest) := by
  induction chunks generalizing buf blocks done s with
  | nil =>
    have hnil : Framed sep (buf ++ textOf ([] : List (Chunk α τ))) [] buf := by
      simpa [textOf] using Framed.rest hbuf
    obtain ⟨rfl, rfl⟩ := h.unique hnil
    rfl
  | cons chunk chunks ih =>
    obtain ⟨blocks₁, rest₁, h₁⟩ := exists_framed hsep (buf ++ chunk.text)
    obtain ⟨blocks₂, rest₂, h₂⟩ := exists_framed hsep (rest₁ ++ textOf chunks)
    have happ : buf ++ textOf (chunk :: chunks) = (buf ++ chunk.text) ++ textOf chunks := by
      simp [textOf]
    rw [happ] at h
    obtain ⟨rfl, rfl⟩ := h.unique (h₁.append h₂)
    have hlen := h₁.length_eq
    simp only [List.length_append] at hlen
    have hrest₁ := h₁.cut_rest
    have hbase : done + (blocks₁.map fun b => b.length + sep.length).sum + rest₁.length =
        done + buf.length + chunk.text.length := by omega
    have hnow : ∀ s : σ, (places sep done blocks₁).foldl
        (fun s p => handle (arrival (done + buf.length) (chunk :: chunks) p.2) s p.1) s =
          blocks₁.foldl (handle (some chunk.time)) s := by
      intro s
      rw [← map_fst_places sep blocks₁ done, List.foldl_map, map_fst_places]
      refine List.foldl_ext _ _ _ fun s p hp => ?_
      have := place_le hp
      simp only [arrival]
      rw [if_pos (by omega)]
    have hlater : ∀ s : σ,
        (places sep (done + (blocks₁.map fun b => b.length + sep.length).sum) blocks₂).foldl
          (fun s p => handle (arrival (done + buf.length) (chunk :: chunks) p.2) s p.1) s =
        (places sep (done + (blocks₁.map fun b => b.length + sep.length).sum) blocks₂).foldl
          (fun s p =>
            handle (arrival (done + buf.length + chunk.text.length) chunks p.2) s p.1) s := by
      intro s
      refine List.foldl_ext _ _ _ fun s p hp => ?_
      have := h₂.lt_place hsep hrest₁ hp
      simp only [arrival]
      rw [if_neg (by omega)]
    rw [List.foldl_cons, feed, drain_eq hsep h₁ _ (Nat.le_refl _), ih hrest₁ h₂
      (done + (blocks₁.map fun b => b.length + sep.length).sum), hbase, places_append,
      List.foldl_append, hnow, hlater]

/-! ## Where a block ends and when -/

/-- A block and its separator stand right before its place. -/
theorem Framed.suffix_take (h : Framed sep text blocks rest) (before : List α) {p : List α × ℕ}
    (hp : p ∈ places sep before.length blocks) :
    p.1 ++ sep <:+ (before ++ text).take p.2 ∧ p.2 ≤ (before ++ text).length := by
  induction h generalizing before with
  | rest _ => simp [places] at hp
  | @block text block more blocks rest hcut hmore ih =>
    have htext : before ++ text = (before ++ block ++ sep) ++ more := by simp [cut_eq hcut]
    rw [htext]
    have hlen : before.length + block.length + sep.length = (before ++ block ++ sep).length := by
      simp [Nat.add_assoc]
    rcases List.mem_cons.mp hp with rfl | hp
    · simp only
      rw [hlen, List.take_left]
      exact ⟨⟨before, by simp⟩, by simp⟩
    · exact ih (before ++ block ++ sep) (hlen ▸ hp)

omit [DecidableEq α] in
/-- The chunk of an arrival is the one whose text reaches the place. -/
theorem arrival_spec {chunks : List (Chunk α τ)} {place : ℕ} (hlt : done < place)
    (hle : place ≤ done + (textOf chunks).length) :
    ∃ before chunk after, chunks = before ++ chunk :: after ∧
      arrival done chunks place = some chunk.time ∧ done + (textOf before).length < place ∧
        place ≤ done + (textOf before).length + chunk.text.length := by
  induction chunks generalizing done with
  | nil => simp [textOf] at hle; omega
  | cons chunk chunks ih =>
    by_cases hin : place ≤ done + chunk.text.length
    · exact ⟨[], chunk, chunks, rfl, by simp [arrival, hin], by simpa [textOf] using hlt,
        by simpa [textOf] using hin⟩
    · have hlen : (textOf (chunk :: chunks)).length = chunk.text.length + (textOf chunks).length := by
        simp [textOf]
      obtain ⟨before, c, after, rfl, htime, hbefore, hafter⟩ :=
        @ih (done + chunk.text.length) (by omega) (by omega)
      have hmore : (textOf (chunk :: before)).length = chunk.text.length + (textOf before).length := by
        simp [textOf]
      exact ⟨chunk :: before, c, after, rfl, by simpa [arrival, hin] using htime, by omega,
        by omega⟩

end

end Framing

end UmansGate.Lib
