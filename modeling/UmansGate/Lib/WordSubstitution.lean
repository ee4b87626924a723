/-
UmansGate.Lib.WordSubstitution — replacing the words of a code in a text.

A code says which word a text begins with. A search for its words from left
to right cuts a text into pieces, the words found and the units between them
(`pieces`), and `render f` writes the pieces with each word replaced by its
image. `Scanned` is what makes a list of pieces the pieces of its text. It
holds of every part of such a list, and two scanned lists that are written
alike are equal (`render_injective`), so the replacement loses nothing.

A program that replaces one word after another in the whole text, wherever it
stands, does the same as long as no image overlaps a word in one of the texts
it goes through (`replaceEach_eq_render`).
-/
import Mathlib.Data.List.Infix
import Mathlib.Data.List.Basic

namespace UmansGate.Lib

/-! ## Finding and replacing -/

section

variable {α : Type}

/-- The matches of a global search with their positions. `index` is where the
text begins and `skip` how much of it belongs to the last match. -/
def matchesFrom (matchAt : List α → Option (List α)) : ℕ → ℕ → List α → List (ℕ × List α)
  | _, _, [] => []
  | index, skip + 1, _ :: t => matchesFrom matchAt (index + 1) skip t
  | index, 0, a :: t =>
      match matchAt (a :: t) with
      | some w => (index, w) :: matchesFrom matchAt (index + 1) (w.length - 1) t
      | none => matchesFrom matchAt (index + 1) 0 t

variable [DecidableEq α]

/-- `text.split(w)` for a nonempty `w`. -/
def splitText (w : List α) : ℕ → List α → List (List α)
  | _, [] => [[]]
  | skip + 1, _ :: t => splitText w skip t
  | 0, a :: t =>
      if w <+: a :: t then [] :: splitText w (w.length - 1) t
      else (splitText w 0 t).modifyHead (a :: ·)

/-- `text.split(w).join(v)`. -/
def replaceAll (w v text : List α) : List α := v.intercalate (splitText w 0 text)

theorem splitText_drop (w : List α) (skip : ℕ) (t : List α) :
    splitText w skip t = splitText w 0 (t.drop skip) := by
  induction t generalizing skip with
  | nil => cases skip <;> simp [splitText]
  | cons a t ih =>
    cases skip with
    | zero => rfl
    | succ skip => simpa [splitText] using ih skip

theorem splitText_ne_nil (w : List α) (skip : ℕ) (t : List α) : splitText w skip t ≠ [] := by
  induction t generalizing skip with
  | nil => simp [splitText]
  | cons a t ih =>
    cases skip with
    | zero =>
      rw [splitText]
      split
      · simp
      · cases h : splitText w 0 t with
        | nil => exact absurd h (ih 0)
        | cons p ps => simp
    | succ skip => exact ih skip

@[simp] theorem replaceAll_nil (w v : List α) : replaceAll w v [] = [] := by
  simp [replaceAll, splitText]

theorem replaceAll_cons {w : List α} {a : α} {t : List α} (h : ¬ w <+: a :: t) (v : List α) :
    replaceAll w v (a :: t) = a :: replaceAll w v t := by
  obtain ⟨p, ps, hsplit⟩ := List.exists_cons_of_ne_nil (splitText_ne_nil w 0 t)
  rw [replaceAll, replaceAll, splitText, if_neg h, hsplit]
  cases ps <;> simp [List.intercalate]

theorem replaceAll_append {w : List α} (hw : w ≠ []) (v t : List α) :
    replaceAll w v (w ++ t) = v ++ replaceAll w v t := by
  obtain ⟨a, w, rfl⟩ := List.exists_cons_of_ne_nil hw
  have hbegins : a :: w <+: a :: (w ++ t) := List.prefix_append (a :: w) t
  obtain ⟨p, ps, hsplit⟩ := List.exists_cons_of_ne_nil (splitText_ne_nil (a :: w) 0 t)
  rw [replaceAll, replaceAll, List.cons_append, splitText, if_pos hbegins, splitText_drop]
  simp [hsplit, List.intercalate]

/-- What a word does not begin in is kept. -/
theorem replaceAll_of_forall_not {w u t : List α}
    (h : ∀ i < u.length, ¬ w <+: (u ++ t).drop i) (v : List α) :
    replaceAll w v (u ++ t) = u ++ replaceAll w v t := by
  induction u with
  | nil => rfl
  | cons a u ih =>
    have hhead : ¬ w <+: a :: (u ++ t) := h 0 (by simp)
    rw [List.cons_append, replaceAll_cons hhead, ih fun i hi => ?_, List.cons_append]
    simpa using h (i + 1) (by simpa using hi)

/-- A word begins somewhere in the first part, and then at a first place, or
nowhere. -/
theorem first_or_none (w u t : List α) : (∀ i < u.length, ¬ w <+: (u ++ t).drop i) ∨
    ∃ u₁ u₂, u = u₁ ++ u₂ ∧ u₂ ≠ [] ∧ w <+: u₂ ++ t ∧
      ∀ i < u₁.length, ¬ w <+: (u ++ t).drop i := by
  induction u with
  | nil => exact .inl (by simp)
  | cons a u ih =>
    by_cases hhead : w <+: a :: (u ++ t)
    · exact .inr ⟨[], a :: u, rfl, by simp, hhead, by simp⟩
    · have hstep : ∀ n, (∀ i < n, ¬ w <+: (u ++ t).drop i) →
          ∀ i < n + 1, ¬ w <+: (a :: u ++ t).drop i := by
        intro n hn i hi
        cases i with
        | zero => exact hhead
        | succ i => simpa using hn i (by omega)
      obtain hnone | ⟨u₁, u₂, rfl, hne, hword, hfirst⟩ := ih
      · exact .inl (hstep _ hnone)
      · exact .inr ⟨a :: u₁, u₂, rfl, hne, hword, hstep _ hfirst⟩

end

/-! ## Codes -/

/-- A code whose words may overlap only in their heads: what is left of a
word and also begins another one is within the head of that one. -/
structure Code (α : Type) where
  wordAt : List α → Option (List α)
  head : List α → List α
  wordAt_begins : ∀ {t w}, wordAt t = some w → w <+: t
  wordAt_word : ∀ {t w}, wordAt t = some w → wordAt w = some w
  wordAt_of_begins : ∀ {t w}, wordAt w = some w → w <+: t → wordAt t = some w
  wordAt_nil : wordAt [] = none
  head_begins : ∀ {w}, wordAt w = some w → head w <+: w
  overlap : ∀ {w w' v}, wordAt w = some w → wordAt w' = some w' → v <:+ w →
    v ≠ [] → v.length < w.length → v <+: w' ∨ w' <+: v → v <+: head w'

/-- A piece of a text. -/
inductive Piece (α : Type) where
  | unit (a : α)
  | word (w : List α)
  deriving DecidableEq, Repr

namespace Piece

variable {α : Type}

/-- The piece with a word replaced by its image. -/
def image (f : List α → List α) : Piece α → List α
  | .unit a => [a]
  | .word w => f w

/-- The pieces as a text, each word replaced by its image. -/
def render (f : List α → List α) (ps : List (Piece α)) : List α := ps.flatMap (image f)

@[simp] theorem render_nil (f : List α → List α) : render f [] = [] := rfl

@[simp] theorem render_unit (f : List α → List α) (a : α) (ps : List (Piece α)) :
    render f (.unit a :: ps) = a :: render f ps := rfl

@[simp] theorem render_word (f : List α → List α) (w : List α) (ps : List (Piece α)) :
    render f (.word w :: ps) = f w ++ render f ps := rfl

theorem render_append (f : List α → List α) (ps qs : List (Piece α)) :
    render f (ps ++ qs) = render f ps ++ render f qs := by
  simp [render]

/-- The words among the pieces. -/
def words (ps : List (Piece α)) : List (List α) :=
  ps.filterMap fun
    | .unit _ => none
    | .word w => some w

@[simp] theorem words_nil : words ([] : List (Piece α)) = [] := rfl

@[simp] theorem words_unit (a : α) (ps : List (Piece α)) : words (.unit a :: ps) = words ps := rfl

@[simp] theorem words_word (w : List α) (ps : List (Piece α)) :
    words (.word w :: ps) = w :: words ps := rfl

theorem words_append (ps qs : List (Piece α)) : words (ps ++ qs) = words ps ++ words qs := by
  simp [words]

theorem render_congr {f g : List α → List α} {ps : List (Piece α)}
    (h : ∀ w ∈ words ps, f w = g w) : render f ps = render g ps := by
  induction ps with
  | nil => rfl
  | cons p ps ih =>
    cases p with
    | unit a => rw [render_unit, render_unit, ih h]
    | word w =>
      rw [render_word, render_word, h w (by simp), ih fun w' hw' => h w' (by simp [hw'])]

end Piece

namespace Code

open Piece

variable {α : Type} (c : Code α)

/-- A text that is a word. -/
def IsWord (w : List α) : Prop := c.wordAt w = some w

theorem IsWord.ne_nil {c : Code α} {w : List α} (h : c.IsWord w) : w ≠ [] := by
  rintro rfl
  rw [IsWord, c.wordAt_nil] at h
  cases h

/-- No word begins another. -/
theorem IsWord.eq_of_begins {c : Code α} {w w' t : List α} (hw : c.IsWord w) (hw' : c.IsWord w')
    (h : w <+: t) (h' : w' <+: t) : w = w' :=
  Option.some.inj ((c.wordAt_of_begins hw h).symm.trans (c.wordAt_of_begins hw' h'))

/-- The pieces of a text. -/
def pieces : ℕ → List α → List (Piece α)
  | _, [] => []
  | skip + 1, _ :: t => pieces skip t
  | 0, a :: t =>
      match c.wordAt (a :: t) with
      | some w => .word w :: pieces (w.length - 1) t
      | none => .unit a :: pieces 0 t

/-- No word begins at a unit, and what counts as a word is one. -/
def Scanned : List (Piece α) → Prop
  | [] => True
  | .unit a :: ps => c.wordAt (a :: render id ps) = none ∧ Scanned ps
  | .word w :: ps => c.IsWord w ∧ Scanned ps

variable {c}

theorem pieces_drop (skip : ℕ) (t : List α) : c.pieces skip t = c.pieces 0 (t.drop skip) := by
  induction t generalizing skip with
  | nil => cases skip <;> simp [pieces]
  | cons a t ih =>
    cases skip with
    | zero => rfl
    | succ skip => simpa [pieces] using ih skip

theorem pieces_append {w : List α} (hw : c.IsWord w) (t : List α) :
    c.pieces 0 (w ++ t) = .word w :: c.pieces 0 t := by
  obtain ⟨a, u, rfl⟩ := List.exists_cons_of_ne_nil hw.ne_nil
  have hword : c.wordAt (a :: (u ++ t)) = some (a :: u) :=
    c.wordAt_of_begins hw (List.prefix_append (a :: u) t)
  rw [List.cons_append, pieces, hword]
  simp [pieces_drop]

theorem pieces_unit {a : α} {t : List α} (h : c.wordAt (a :: t) = none) :
    c.pieces 0 (a :: t) = .unit a :: c.pieces 0 t := by
  rw [pieces, h]

/-- Induction along a search. -/
theorem search_induction {P : List α → Prop} (nil : P [])
    (unit : ∀ a t, c.wordAt (a :: t) = none → P t → P (a :: t))
    (word : ∀ w t, c.IsWord w → P t → P (w ++ t)) (t : List α) : P t := by
  induction hn : t.length using Nat.strong_induction_on generalizing t with
  | h n ih =>
    cases t with
    | nil => exact nil
    | cons a t =>
      cases hword : c.wordAt (a :: t) with
      | none => exact unit a t hword (ih t.length (by simp [← hn]) t rfl)
      | some w =>
        have hw : c.IsWord w := c.wordAt_word hword
        obtain ⟨u, hu⟩ := c.wordAt_begins hword
        have hpos : 0 < w.length := List.length_pos_iff.mpr hw.ne_nil
        have hlen := congrArg List.length hu
        rw [List.length_append] at hlen
        rw [← hu]
        exact word w u hw (ih u.length (by omega) u rfl)

@[simp] theorem render_pieces (t : List α) : render id (c.pieces 0 t) = t := by
  induction t using search_induction (c := c) with
  | nil => rfl
  | unit a t h ih => rw [pieces_unit h, render_unit, ih]
  | word w t hw ih => rw [pieces_append hw, render_word, ih, id]

theorem scanned_pieces (t : List α) : c.Scanned (c.pieces 0 t) := by
  induction t using search_induction (c := c) with
  | nil => trivial
  | unit a t h ih =>
    rw [pieces_unit h]
    exact ⟨by rwa [render_pieces], ih⟩
  | word w t hw ih =>
    rw [pieces_append hw]
    exact ⟨hw, ih⟩

theorem Scanned.isWord {ps : List (Piece α)} (h : c.Scanned ps) : ∀ w ∈ words ps, c.IsWord w := by
  induction ps with
  | nil => simp
  | cons p ps ih =>
    cases p with
    | unit a => exact ih h.2
    | word w =>
      intro w' hw'
      rw [words_word, List.mem_cons] at hw'
      obtain rfl | hw' := hw'
      · exact h.1
      · exact ih h.2 w' hw'

/-- A longer text has the words of a shorter one. -/
theorem wordAt_eq_none_of_append {t u : List α} (h : c.wordAt (t ++ u) = none) :
    c.wordAt t = none := by
  cases hword : c.wordAt t with
  | none => rfl
  | some w =>
    have hbegins := (c.wordAt_begins hword).trans (List.prefix_append t u)
    rw [c.wordAt_of_begins (c.wordAt_word hword) hbegins] at h
    cases h

theorem Scanned.append {ps qs : List (Piece α)} (h : c.Scanned (ps ++ qs)) :
    c.Scanned ps ∧ c.Scanned qs := by
  induction ps with
  | nil => exact ⟨trivial, h⟩
  | cons p ps ih =>
    cases p with
    | unit a =>
      obtain ⟨hnone, hrest⟩ := h
      rw [List.append_eq, render_append] at hnone
      exact ⟨⟨wordAt_eq_none_of_append hnone, (ih hrest).1⟩, (ih hrest).2⟩
    | word w => exact ⟨⟨h.1, (ih h.2).1⟩, (ih h.2).2⟩

/-- Parts of a scanned list are scanned. -/
theorem Scanned.part {ps qs : List (Piece α)} (h : c.Scanned qs) (hin : ps <:+: qs) :
    c.Scanned ps := by
  obtain ⟨before, after, rfl⟩ := hin
  exact h.append.1.append.2

/-! ## Replacing all words at once -/

/-- Images of words that are words themselves, with the head and the length
of what they stand for. -/
structure Keeps (c : Code α) (f : List α → List α) (ws : List (List α)) : Prop where
  isWord : ∀ w ∈ ws, c.IsWord w
  image : ∀ w ∈ ws, c.IsWord (f w)
  head : ∀ w ∈ ws, c.head (f w) = c.head w
  length : ∀ w ∈ ws, (f w).length = w.length

section

variable {f : List α → List α} {ws : List (List α)} {ps qs : List (Piece α)}

theorem Keeps.mono {vs : List (List α)} (hf : Keeps c f ws) (h : ∀ w ∈ vs, w ∈ ws) :
    Keeps c f vs :=
  ⟨fun w hw => hf.isWord w (h w hw), fun w hw => hf.image w (h w hw),
    fun w hw => hf.head w (h w hw), fun w hw => hf.length w (h w hw)⟩

theorem length_render (hf : ∀ w ∈ words ps, (f w).length = w.length) :
    (render f ps).length = (render id ps).length := by
  induction ps with
  | nil => rfl
  | cons p ps ih =>
    cases p with
    | unit a => simp [ih hf]
    | word w => simp [hf w (by simp), ih fun w' hw' => hf w' (by simp [hw'])]

/-- What is left of a word stands in the replaced text only where it stood
before: an image shares its head with the word, and no more of it can be
reached. -/
theorem tail_begins (hf : Keeps c f (words ps)) {w v : List α} (hw : c.IsWord w) (hv : v <:+ w)
    (hlt : v.length < w.length) (h : v <+: render f ps) : v <+: render id ps := by
  induction ps generalizing v with
  | nil => exact h
  | cons p ps ih =>
    cases v with
    | nil => exact List.nil_prefix
    | cons b v =>
      cases p with
      | unit a =>
        rw [render_unit, List.cons_prefix_cons] at h ⊢
        have hsuffix : v <:+ w := (List.suffix_cons b v).trans hv
        exact ⟨h.1, ih hf hsuffix (by simp at hlt; omega) h.2⟩
      | word w' =>
        have hmem : w' ∈ words (.word w' :: ps) := by simp
        rw [render_word] at h ⊢
        have hcomparable := List.prefix_or_prefix_of_prefix h (List.prefix_append (f w') _)
        have hhead := c.overlap hw (hf.image w' hmem) hv (by simp) hlt hcomparable
        rw [hf.head w' hmem] at hhead
        exact (hhead.trans (c.head_begins (hf.isWord w' hmem))).trans
          (List.prefix_append w' _)

/-- No word begins at a unit of the replaced text either. -/
theorem unit_not_word {a : α} (hs : c.Scanned (.unit a :: ps)) (hf : Keeps c f (words ps))
    {w : List α} (hw : c.IsWord w) : ¬ w <+: a :: render f ps := by
  intro h
  obtain ⟨b, v, rfl⟩ := List.exists_cons_of_ne_nil hw.ne_nil
  rw [List.cons_prefix_cons] at h
  have htail := tail_begins hf hw (List.suffix_cons b v) (by simp) h.2
  have hword := c.wordAt_of_begins hw (List.cons_prefix_cons.mpr ⟨h.1, htail⟩)
  rw [hs.1] at hword
  cases hword

/-- **The replaced text tells the pieces.** -/
theorem render_injective (hps : c.Scanned ps) (hqs : c.Scanned qs)
    (hf : Keeps c f (words ps ++ words qs))
    (hinj : ∀ w ∈ words ps, ∀ w' ∈ words qs, f w = f w' → w = w')
    (h : render f ps = render f qs) : ps = qs := by
  induction ps generalizing qs with
  | nil =>
    cases qs with
    | nil => rfl
    | cons q qs =>
      cases q with
      | unit b => cases h
      | word w =>
        have hnil := List.append_eq_nil_iff.mp h.symm
        exact absurd hnil.1 (hf.image w (by simp)).ne_nil
  | cons p ps ih =>
    cases p with
    | unit a =>
      cases qs with
      | nil => cases h
      | cons q qs =>
        cases q with
        | unit b =>
          rw [render_unit, render_unit, List.cons.injEq] at h
          rw [h.1, ih hps.2 hqs.2 hf hinj h.2]
        | word w =>
          have hkeeps : Keeps c f (words ps) := hf.mono fun w' hw' => by simp [hw']
          have hbegins : f w <+: a :: render f ps := by
            rw [← render_unit, h]
            exact List.prefix_append (f w) _
          exact absurd hbegins (unit_not_word hps hkeeps (hf.image w (by simp)))
    | word w =>
      cases qs with
      | nil =>
        have hnil := List.append_eq_nil_iff.mp h
        exact absurd hnil.1 (hf.image w (by simp)).ne_nil
      | cons q qs =>
        cases q with
        | unit b =>
          have hkeeps : Keeps c f (words qs) := hf.mono fun w' hw' => by simp [hw']
          have hbegins : f w <+: b :: render f qs := by
            rw [← render_unit, ← h]
            exact List.prefix_append (f w) _
          exact absurd hbegins (unit_not_word hqs hkeeps (hf.image w (by simp)))
        | word w' =>
          rw [render_word, render_word] at h
          have himage : f w = f w' := IsWord.eq_of_begins (hf.image w (by simp))
            (hf.image w' (by simp)) (List.prefix_append (f w) (render f ps))
            (h ▸ List.prefix_append (f w') (render f qs))
          have hword : w = w' := hinj w (by simp) w' (by simp) himage
          subst hword
          have hrest := ih hps.2 hqs.2
            (hf.mono fun v hv => by rw [words_word, words_word]; simp at hv ⊢; tauto)
            (fun v hv v' hv' => hinj v (by simp [hv]) v' (by simp [hv']))
            (List.append_cancel_left h)
          rw [hrest]

theorem keeps_id (hs : ∀ w ∈ ws, c.IsWord w) : Keeps c id ws :=
  ⟨hs, hs, fun _ _ => rfl, fun _ _ => rfl⟩

/-- Parts of a text are equal after the replacement exactly when they were
equal before. -/
theorem render_eq_iff (hps : c.Scanned ps) (hqs : c.Scanned qs)
    (hf : Keeps c f (words ps ++ words qs))
    (hinj : ∀ w ∈ words ps, ∀ w' ∈ words qs, f w = f w' → w = w') :
    render f ps = render f qs ↔ render id ps = render id qs := by
  constructor
  · intro h
    rw [render_injective hps hqs hf hinj h]
  · intro h
    rw [render_injective hps hqs (keeps_id hf.isWord) (fun w _ w' _ h => h) h]

/-- The words of the pieces with the positions they begin at. -/
def offsets : ℕ → List (Piece α) → List (ℕ × List α)
  | _, [] => []
  | index, .unit _ :: ps => offsets (index + 1) ps
  | index, .word w :: ps => (index, w) :: offsets (index + w.length) ps

theorem matchesFrom_drop (matchAt : List α → Option (List α)) (index skip : ℕ) {t : List α}
    (h : skip ≤ t.length) :
    matchesFrom matchAt index skip t = matchesFrom matchAt (index + skip) 0 (t.drop skip) := by
  induction t generalizing index skip with
  | nil =>
    obtain rfl : skip = 0 := by simpa using h
    rfl
  | cons a t ih =>
    cases skip with
    | zero => rfl
    | succ skip =>
      rw [matchesFrom, ih (index + 1) skip (by simpa using h), List.drop_succ_cons,
        show index + 1 + skip = index + (skip + 1) by omega]

theorem matchesFrom_eq (index : ℕ) (t : List α) :
    matchesFrom c.wordAt index 0 t = offsets index (c.pieces 0 t) := by
  induction t using search_induction (c := c) generalizing index with
  | nil => rfl
  | unit a t h ih =>
    rw [pieces_unit h, offsets, ← ih]
    simp [matchesFrom, h]
  | word w t hw ih =>
    obtain ⟨a, u, rfl⟩ := List.exists_cons_of_ne_nil hw.ne_nil
    have hword : c.wordAt (a :: (u ++ t)) = some (a :: u) :=
      c.wordAt_of_begins hw (List.prefix_append (a :: u) t)
    rw [pieces_append hw, offsets, ← ih, List.cons_append, matchesFrom, hword]
    simp only [List.length_cons, Nat.add_sub_cancel]
    rw [matchesFrom_drop _ _ _ (by simp), List.drop_left,
      show index + 1 + u.length = index + (u.length + 1) by omega]

theorem map_snd_offsets (index : ℕ) (ps : List (Piece α)) :
    (offsets index ps).map Prod.snd = words ps := by
  induction ps generalizing index with
  | nil => rfl
  | cons p ps ih =>
    cases p with
    | unit a => exact ih _
    | word w => rw [offsets, List.map_cons, ih, words_word]

theorem le_of_mem_offsets {index : ℕ} {m : ℕ × List α} (h : m ∈ offsets index ps) :
    index ≤ m.1 := by
  induction ps generalizing index with
  | nil => cases h
  | cons p ps ih =>
    cases p with
    | unit a => exact Nat.le_of_succ_le (ih h)
    | word w =>
      rw [offsets, List.mem_cons] at h
      obtain rfl | h := h
      · exact le_rfl
      · exact (Nat.le_add_right _ _).trans (ih h)

/-- Outside the words the text stays. -/
theorem render_getElem? (hf : ∀ w ∈ words ps, (f w).length = w.length) (index : ℕ) {i : ℕ}
    (h : ∀ m ∈ offsets index ps, ¬ (m.1 ≤ index + i ∧ index + i < m.1 + m.2.length)) :
    (render f ps)[i]? = (render id ps)[i]? := by
  induction ps generalizing index i with
  | nil => rfl
  | cons p ps ih =>
    cases p with
    | unit a =>
      cases i with
      | zero => rfl
      | succ i =>
        rw [render_unit, render_unit, List.getElem?_cons_succ, List.getElem?_cons_succ]
        refine ih hf (index + 1) fun m hm => ?_
        rw [show index + 1 + i = index + (i + 1) by omega]
        exact h m hm
    | word w =>
      have hlen := hf w (by simp)
      have hout : ¬ (index ≤ index + i ∧ index + i < index + w.length) :=
        h (index, w) (by simp [offsets])
      have hle : w.length ≤ i := by omega
      rw [render_word, render_word, id, List.getElem?_append_right (by omega),
        List.getElem?_append_right hle, hlen]
      refine ih (fun w' hw' => hf w' (by simp [hw'])) (index + w.length) fun m hm => ?_
      rw [show index + w.length + (i - w.length) = index + i by omega]
      exact h m (by rw [offsets]; exact List.mem_cons_of_mem _ hm)

/-- A word has its image where it stood. -/
theorem take_drop_render (hf : ∀ w ∈ words ps, (f w).length = w.length) (index : ℕ)
    {m : ℕ × List α} (h : m ∈ offsets index ps) :
    ((render f ps).drop (m.1 - index)).take m.2.length = f m.2 := by
  induction ps generalizing index with
  | nil => cases h
  | cons p ps ih =>
    cases p with
    | unit a =>
      have hle : index + 1 ≤ m.1 := le_of_mem_offsets h
      rw [render_unit, show m.1 - index = m.1 - (index + 1) + 1 by omega, List.drop_succ_cons]
      exact ih hf (index + 1) h
    | word w =>
      rw [offsets, List.mem_cons] at h
      obtain rfl | h := h
      · rw [Nat.sub_self, List.drop_zero, render_word, ← hf w (by simp), List.take_left]
      · have hle : index + w.length ≤ m.1 := le_of_mem_offsets h
        rw [render_word, show m.1 - index = (f w).length + (m.1 - (index + w.length)) by
          rw [hf w (by simp)]; omega, List.drop_length_add_append]
        exact ih (fun w' hw' => hf w' (by simp [hw'])) (index + w.length) h

end

/-! ## Replacing one word after another -/

section

variable {f : List α → List α} {ps : List (Piece α)} {ws gens : List (List α)}

/-- Nowhere in the text does one of `gens` overlap or contain one of `ws`. -/
def Apart (ws gens : List (List α)) (t : List α) : Prop :=
  ∀ w ∈ ws, ∀ g ∈ gens, ∀ p q, w <+: t.drop p → g <+: t.drop q →
    p + w.length ≤ q ∨ q + g.length ≤ p

theorem Apart.right {u t : List α} (h : Apart ws gens (u ++ t)) : Apart ws gens t := by
  intro w hw g hg p q hp hq
  have hshift : ∀ n, (u ++ t).drop (u.length + n) = t.drop n := fun n => by
    rw [List.drop_length_add_append]
  have := h w hw g hg (u.length + p) (u.length + q) (by rwa [hshift]) (by rwa [hshift])
  omega

/-- Two texts one of which holds the other or begins within it. -/
def Overlap (w g : List α) : Prop :=
  w <:+: g ∨ g <:+: w ∨ ∃ v, v ≠ [] ∧ (v <:+ w ∧ v <+: g ∨ v <:+ g ∧ v <+: w)

theorem overlap_iff_tails {w g : List α} : Overlap w g ↔ w <:+: g ∨ g <:+: w ∨
    (∃ v ∈ w.tails, v ≠ [] ∧ v <+: g) ∨ ∃ v ∈ g.tails, v ≠ [] ∧ v <+: w := by
  simp only [Overlap, List.mem_tails]
  constructor
  · rintro (h | h | ⟨v, hne, ⟨hv, h⟩ | ⟨hv, h⟩⟩)
    · exact .inl h
    · exact .inr (.inl h)
    · exact .inr (.inr (.inl ⟨v, hv, hne, h⟩))
    · exact .inr (.inr (.inr ⟨v, hv, hne, h⟩))
  · rintro (h | h | ⟨v, hv, hne, h⟩ | ⟨v, hv, hne, h⟩)
    · exact .inl h
    · exact .inr (.inl h)
    · exact .inr (.inr ⟨v, hne, .inl ⟨hv, h⟩⟩)
    · exact .inr (.inr ⟨v, hne, .inr ⟨hv, h⟩⟩)

instance [DecidableEq α] (w g : List α) : Decidable (Overlap w g) :=
  decidable_of_iff _ overlap_iff_tails.symm

theorem overlap_of_begins {w g t : List α} {p q : ℕ} (hw : w <+: t.drop p) (hg : g <+: t.drop q)
    (hle : p ≤ q) (hlt : q < p + w.length) : Overlap w g := by
  have hdrop : w.drop (q - p) <+: t.drop q := by
    have := hw.drop (q - p)
    rwa [List.drop_drop, Nat.add_sub_of_le hle] at this
  have hne : w.drop (q - p) ≠ [] := by
    rw [ne_eq, List.drop_eq_nil_iff]
    omega
  have hsuffix : w.drop (q - p) <:+ w := List.drop_suffix _ w
  obtain hin | hholds := List.prefix_or_prefix_of_prefix hdrop hg
  · exact .inr (.inr ⟨_, hne, .inl ⟨hsuffix, hin⟩⟩)
  · exact .inr (.inl (hholds.isInfix.trans hsuffix.isInfix))

theorem Overlap.symm {w g : List α} (h : Overlap w g) : Overlap g w := by
  obtain h | h | ⟨v, hv, h⟩ := h
  · exact .inr (.inl h)
  · exact .inl h
  · exact .inr (.inr ⟨v, hv, h.symm⟩)

/-- Texts that do not overlap as such are apart in every text. -/
theorem apart_of_not_overlap (h : ∀ w ∈ ws, ∀ g ∈ gens, ¬ Overlap w g) (t : List α) :
    Apart ws gens t := by
  intro w hw g hg p q hp hq
  by_contra hover
  have hlt : q < p + w.length ∧ p < q + g.length := by omega
  obtain hle | hle := Nat.le_total p q
  · exact h w hw g hg (overlap_of_begins hp hq hle hlt.1)
  · exact h w hw g hg (overlap_of_begins hq hp hle hlt.2).symm

variable [DecidableEq α]

/-- The text after the words of the list are replaced in turn. -/
def replaceEach (f : List α → List α) : List (List α) → List α → List α
  | [], t => t
  | w :: ws, t => replaceEach f ws (replaceAll w (f w) t)

/-- The texts it goes through. -/
def textsThrough (f : List α → List α) : List (List α) → List α → List (List α)
  | [], t => [t]
  | w :: ws, t => t :: textsThrough f ws (replaceAll w (f w) t)

theorem mem_textsThrough (f : List α → List α) (ws : List (List α)) (t : List α) :
    t ∈ textsThrough f ws t := by
  cases ws <;> simp [textsThrough]

/-- The images of the words replaced so far. -/
def imageIn (f : List α → List α) (done : List (List α)) (w : List α) : List α :=
  if w ∈ done then f w else w

/-- What a text with some of its words replaced begins with, it began with
before, or it reaches into an image. -/
theorem begins_before_or_reaches {done : List (List α)} {v : List α}
    (h : v <+: render (imageIn f done) ps) : v <+: render id ps ∨
      ∃ w ∈ words ps, ∃ q < v.length, w ∈ done ∧ f w <+: (render (imageIn f done) ps).drop q := by
  induction ps generalizing v with
  | nil => exact .inl h
  | cons p ps ih =>
    cases p with
    | unit a =>
      cases v with
      | nil => exact .inl List.nil_prefix
      | cons b v =>
        rw [render_unit, List.cons_prefix_cons] at h
        obtain hbefore | ⟨w, hw, q, hq, hdone, himage⟩ := ih h.2
        · exact .inl (List.cons_prefix_cons.mpr ⟨h.1, hbefore⟩)
        · exact .inr ⟨w, hw, q + 1, by simpa using hq, hdone, himage⟩
    | word w =>
      by_cases hnil : v = []
      · exact .inl (hnil ▸ List.nil_prefix)
      by_cases hdone : w ∈ done
      · refine .inr ⟨w, by simp, 0, List.length_pos_iff.mpr hnil, hdone, ?_⟩
        rw [render_word, imageIn, if_pos hdone, List.drop_zero]
        exact List.prefix_append (f w) _
      · have himage : imageIn f done w = w := if_neg hdone
        rw [render_word, himage] at h
        rw [render_word, render_word, himage, id]
        obtain hshort | hlong := List.prefix_or_prefix_of_prefix h (List.prefix_append w _)
        · exact .inl (hshort.trans (List.prefix_append w _))
        · obtain ⟨v, rfl⟩ := hlong
          rw [List.prefix_append_right_inj] at h ⊢
          obtain hbefore | ⟨w', hw', q, hq, hdone', himage⟩ := ih h
          · exact .inl hbefore
          · refine .inr ⟨w', by simp [hw'], w.length + q, by simpa using hq, hdone', ?_⟩
            rwa [List.drop_length_add_append]

/-- A word found inside another one has its image there, over the rest of it. -/
theorem not_apart_of_found {o w R : List α} (hwWord : c.IsWord w) (hf : Keeps c f ws)
    (hw : w ∈ ws) (ho : o ∈ ws) (hne : w ≠ o)
    (hfound : ∃ u v, w = u ++ v ∧ v ≠ [] ∧ o <+: v ++ R ∧
      ∀ i < u.length, ¬ o <+: (w ++ R).drop i) :
    ¬ Apart ws (ws.map f) (replaceAll o (f o) (w ++ R)) := by
  obtain ⟨u, v, rfl, hv, hbegins, hfirst⟩ := hfound
  have hoWord : c.IsWord o := hf.isWord o ho
  have hu : u ≠ [] := by
    rintro rfl
    exact hne (hwWord.eq_of_begins hoWord (List.prefix_append _ R) hbegins)
  have hupos := List.length_pos_iff.mpr hu
  have hvpos := List.length_pos_iff.mpr hv
  have hhead : v <+: c.head o := c.overlap hwWord hoWord (List.suffix_append u v) hv
    (by simpa using hupos) (List.prefix_or_prefix_of_prefix (List.prefix_append v R) hbegins)
  have himage : v <+: f o := by
    rw [← hf.head o ho] at hhead
    exact hhead.trans (c.head_begins (hf.image o ho))
  obtain ⟨rest, hrest⟩ := hbegins
  have htext : replaceAll o (f o) (u ++ v ++ R) = u ++ (f o ++ replaceAll o (f o) rest) := by
    rw [List.append_assoc, replaceAll_of_forall_not (by rwa [List.append_assoc] at hfirst),
      ← hrest, replaceAll_append hoWord.ne_nil]
  rw [htext]
  intro hapart
  have hstays : u ++ v <+: u ++ (f o ++ replaceAll o (f o) rest) :=
    (List.prefix_append_right_inj u).mpr (himage.trans (List.prefix_append (f o) _))
  have := hapart (u ++ v) hw (f o) (List.mem_map_of_mem ho) 0 u.length hstays
    (by rw [List.drop_left]; exact List.prefix_append (f o) _)
  have himagepos := List.length_pos_iff.mpr (hf.image o ho).ne_nil
  rw [List.length_append] at this
  omega

/-- Replacing one more word. It is found at its own pieces alone: at a unit or
inside an image it would overlap an image in the text before, and inside
another word its image would overlap that word in the text after. -/
theorem replaceAll_render {done : List (List α)} {o : List α} (hs : c.Scanned ps)
    (hf : Keeps c f ws) (hws : ∀ w ∈ words ps, w ∈ ws) (ho : o ∈ ws) (hnew : o ∉ done)
    (hbefore : Apart ws (ws.map f) (render (imageIn f done) ps))
    (hafter : Apart ws (ws.map f) (replaceAll o (f o) (render (imageIn f done) ps))) :
    replaceAll o (f o) (render (imageIn f done) ps) = render (imageIn f (o :: done)) ps := by
  have hoWord : c.IsWord o := hf.isWord o ho
  induction ps with
  | nil => simp
  | cons p ps ih =>
    cases p with
    | unit a =>
      have hunit : ¬ o <+: a :: render (imageIn f done) ps := by
        intro h
        rw [← render_unit] at h
        obtain hold | ⟨w, hw, q, hq, -, himage⟩ := begins_before_or_reaches h
        · have hword := c.wordAt_of_begins hoWord hold
          rw [render_unit, hs.1] at hword
          cases hword
        · have hpos := (hf.image w (hws w hw)).ne_nil
          have := hbefore o ho (f w) (List.mem_map_of_mem (hws w hw)) 0 q (by simpa using h) himage
          have := List.length_pos_iff.mpr hpos
          omega
      rw [render_unit, replaceAll_cons hunit] at hafter ⊢
      rw [ih hs.2 hws (hbefore.right (u := [a])) (hafter.right (u := [a])), render_unit]
    | word w =>
      have hw : w ∈ ws := hws w (by simp)
      have hrest : ∀ w' ∈ words ps, w' ∈ ws := fun w' hw' => hws w' (by simp [hw'])
      by_cases hdone : w ∈ done
      · have himage : imageIn f done w = f w := if_pos hdone
        have himage' : imageIn f (o :: done) w = f w := if_pos (List.mem_cons_of_mem o hdone)
        have hinside : ∀ i < (f w).length,
            ¬ o <+: (f w ++ render (imageIn f done) ps).drop i := by
          intro i hi h
          rw [render_word, himage] at hbefore
          have := hbefore o ho (f w) (List.mem_map_of_mem hw) i 0 h
            (List.prefix_append (f w) _)
          have := List.length_pos_iff.mpr hoWord.ne_nil
          omega
        rw [render_word, himage] at hbefore hafter ⊢
        rw [replaceAll_of_forall_not hinside] at hafter ⊢
        rw [ih hs.2 hrest hbefore.right hafter.right, render_word, himage']
      · by_cases heq : w = o
        · subst heq
          have himage : imageIn f done w = w := if_neg hdone
          have himage' : imageIn f (w :: done) w = f w := if_pos (by simp)
          rw [render_word, himage] at hbefore hafter ⊢
          rw [replaceAll_append hoWord.ne_nil] at hafter ⊢
          rw [ih hs.2 hrest hbefore.right hafter.right, render_word, himage']
        · have himage : imageIn f done w = w := if_neg hdone
          have himage' : imageIn f (o :: done) w = w := if_neg (by simp [heq, hdone])
          rw [render_word, himage] at hbefore hafter ⊢
          obtain hinside | hfound := first_or_none o w (render (imageIn f done) ps)
          · rw [replaceAll_of_forall_not hinside] at hafter ⊢
            rw [ih hs.2 hrest hbefore.right hafter.right, render_word, himage']
          · exact absurd hafter (not_apart_of_found hs.1 hf hw ho heq hfound)

theorem replaceEach_render {done todo : List (List α)} (hs : c.Scanned ps) (hf : Keeps c f ws)
    (hws : ∀ w ∈ words ps, w ∈ ws) (htodo : ∀ w ∈ todo, w ∈ ws) (hnodup : todo.Nodup)
    (hnew : ∀ w ∈ todo, w ∉ done)
    (hapart : ∀ t ∈ textsThrough f todo (render (imageIn f done) ps), Apart ws (ws.map f) t) :
    replaceEach f todo (render (imageIn f done) ps) =
      render (imageIn f (todo.reverse ++ done)) ps := by
  induction todo generalizing done with
  | nil => rfl
  | cons o todo ih =>
    rw [List.nodup_cons] at hnodup
    have hbefore : Apart ws (ws.map f) (render (imageIn f done) ps) :=
      hapart _ (by simp [textsThrough])
    have hthrough : ∀ t ∈ textsThrough f todo (replaceAll o (f o) (render (imageIn f done) ps)),
        Apart ws (ws.map f) t := fun t ht => hapart t (List.mem_cons_of_mem _ ht)
    have hafter := hthrough _ (mem_textsThrough f todo _)
    have hstep := replaceAll_render hs hf hws (htodo o (by simp)) (hnew o (by simp)) hbefore hafter
    rw [hstep] at hthrough
    rw [replaceEach, hstep, ih (fun w hw => htodo w (by simp [hw])) hnodup.2 ?_ hthrough,
      List.reverse_cons, List.append_assoc, List.singleton_append]
    intro w hw hmem
    rw [List.mem_cons] at hmem
    obtain rfl | hmem := hmem
    · exact hnodup.1 hw
    · exact hnew w (by simp [hw]) hmem

/-- **One word after another is all at once**, as long as no image overlaps a
word in one of the texts on the way. -/
theorem replaceEach_eq_render {t : List α} (hf : Keeps c f ws) (hnodup : ws.Nodup)
    (hws : ∀ w ∈ words (c.pieces 0 t), w ∈ ws)
    (hapart : ∀ t' ∈ textsThrough f ws t, Apart ws (ws.map f) t') :
    replaceEach f ws t = render f (c.pieces 0 t) := by
  have hnone : render (imageIn f []) (c.pieces 0 t) = t := by
    rw [render_congr (g := id) (fun w _ => by simp [imageIn]), render_pieces]
  have hall : replaceEach f ws (render (imageIn f []) (c.pieces 0 t)) =
      render (imageIn f (ws.reverse ++ [])) (c.pieces 0 t) :=
    replaceEach_render (scanned_pieces t) hf hws (fun w hw => hw) hnodup (by simp) (by rwa [hnone])
  rw [hnone, List.append_nil] at hall
  rw [hall]
  exact render_congr fun w hw => if_pos (List.mem_reverse.mpr (hws w hw))

end

end Code

end UmansGate.Lib
