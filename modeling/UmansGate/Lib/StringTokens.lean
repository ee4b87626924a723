/-
UmansGate.Lib.StringTokens — the string tokens of a text.

A string token is what stands between two quotes, where a quote behind a
backslash does not end it. The tokens are found by one walk over symbols of
any kind. Over the pieces of a text it finds the tokens as pieces, so replacing
words that hold neither quote nor backslash acts on each token by itself
(`stringTokens_render`).
-/
import UmansGate.Lib.WordSubstitution

namespace UmansGate.Lib

/-- Which symbols are quotes and which are backslashes. -/
structure Quoting (β : Type) where
  isQuote : β → Bool
  isBackslash : β → Bool

/-- Where a walk over a text is: outside of a token, or inside of one with
what it has read of it, perhaps right behind a backslash. -/
inductive Within (β : Type) where
  | outside
  | inside (token : List β)
  | escaped (token : List β)

namespace Within

variable {β γ : Type}

/-- What has been read of the token. -/
def read : Within β → List β
  | .outside => []
  | .inside token => token
  | .escaped token => token

def map (f : List β → List γ) : Within β → Within γ
  | .outside => .outside
  | .inside token => .inside (f token)
  | .escaped token => .escaped (f token)

end Within

namespace Quoting

variable {β : Type} (q : Quoting β)

/-- The string tokens from here to the end of the text. One that is not closed
is none. -/
def tokensFrom : Within β → List β → List (List β)
  | _, [] => []
  | .outside, b :: t =>
      if q.isQuote b then tokensFrom (.inside []) t else tokensFrom .outside t
  | .inside token, b :: t =>
      if q.isQuote b then token :: tokensFrom .outside t
      else if q.isBackslash b then tokensFrom (.escaped (token ++ [b])) t
      else tokensFrom (.inside (token ++ [b])) t
  | .escaped token, b :: t => tokensFrom (.inside (token ++ [b])) t

/-- The string tokens of a text. -/
def stringTokens (text : List β) : List (List β) := q.tokensFrom .outside text

/-- A symbol that neither opens nor closes a token nor escapes one that would. -/
def Plain (b : β) : Prop := q.isQuote b = false ∧ q.isBackslash b = false

variable {q}

theorem isInfix_of_mem_tokensFrom {token : List β} {s : Within β} {t : List β}
    (h : token ∈ q.tokensFrom s t) : token <:+: s.read ++ t := by
  induction t generalizing s with
  | nil => cases s <;> cases h
  | cons b t ih =>
    have houtside : token ∈ q.tokensFrom .outside t → token <:+: t := fun h => ih h
    have htail : t <:+: b :: t := (List.suffix_cons b t).isInfix
    cases s with
    | outside =>
      rw [tokensFrom] at h
      split at h
      · exact (ih h).trans htail
      · exact (houtside h).trans htail
    | inside read =>
      have hnext : token <:+: (read ++ [b]) ++ t → token <:+: read ++ b :: t := by
        rw [List.append_assoc, List.singleton_append]
        exact id
      rw [tokensFrom] at h
      split at h
      · rw [List.mem_cons] at h
        obtain rfl | h := h
        · exact (List.prefix_append token (b :: t)).isInfix
        · exact ((houtside h).trans htail).trans (List.suffix_append read (b :: t)).isInfix
      · split at h
        · exact hnext (ih h)
        · exact hnext (ih h)
    | escaped read =>
      rw [tokensFrom] at h
      have hnext := ih h
      rwa [Within.read, List.append_assoc, List.singleton_append] at hnext

/-- Tokens are parts of the text. -/
theorem isInfix_of_mem {token t : List β} (h : token ∈ q.stringTokens t) : token <:+: t :=
  isInfix_of_mem_tokensFrom h

/-! ## Plain stretches -/

theorem tokensFrom_outside_append {u : List β} (hu : ∀ b ∈ u, q.Plain b) (t : List β) :
    q.tokensFrom .outside (u ++ t) = q.tokensFrom .outside t := by
  induction u with
  | nil => rfl
  | cons b u ih =>
    have hb := hu b (by simp)
    rw [List.cons_append, tokensFrom, hb.1, if_neg (by simp)]
    exact ih fun b' hb' => hu b' (by simp [hb'])

theorem tokensFrom_inside_append {u : List β} (hu : ∀ b ∈ u, q.Plain b) (token t : List β) :
    q.tokensFrom (.inside token) (u ++ t) = q.tokensFrom (.inside (token ++ u)) t := by
  induction u generalizing token with
  | nil => simp
  | cons b u ih =>
    have hb := hu b (by simp)
    rw [List.cons_append, tokensFrom, hb.1, hb.2, if_neg (by simp), if_neg (by simp),
      ih (fun b' hb' => hu b' (by simp [hb']))]
    simp

/-- The backslash takes the first symbol of the stretch. -/
theorem tokensFrom_escaped_append {u : List β} (hu : ∀ b ∈ u, q.Plain b) (hne : u ≠ [])
    (token t : List β) :
    q.tokensFrom (.escaped token) (u ++ t) = q.tokensFrom (.inside (token ++ u)) t := by
  obtain ⟨b, u, rfl⟩ := List.exists_cons_of_ne_nil hne
  rw [List.cons_append, tokensFrom, tokensFrom_inside_append fun b' hb' => hu b' (by simp [hb'])]
  simp

/-! ## Tokens as pieces -/

section

open Piece

variable {α : Type} (q : Quoting α)

/-- A word is a plain symbol. -/
def ofPieces : Quoting (Piece α) where
  isQuote
    | .unit a => q.isQuote a
    | .word _ => false
  isBackslash
    | .unit a => q.isBackslash a
    | .word _ => false

variable {q} {f : List α → List α} {ps : List (Piece α)}

theorem tokensFrom_render (hne : ∀ w ∈ words ps, f w ≠ [])
    (hplain : ∀ w ∈ words ps, ∀ a ∈ f w, q.Plain a) (s : Within (Piece α)) :
    q.tokensFrom (s.map (render f)) (render f ps) =
      (q.ofPieces.tokensFrom s ps).map (render f) := by
  induction ps generalizing s with
  | nil => cases s <;> rfl
  | cons p ps ih =>
    have hsnoc : ∀ token, render f (token ++ [p]) = render f token ++ p.image f := fun token => by
      simp [render]
    cases p with
    | unit a =>
      replace ih := ih hne hplain
      cases s with
      | outside =>
        rw [render_unit, Within.map, tokensFrom, tokensFrom]
        by_cases hq : q.isQuote a = true
        · rw [if_pos hq, if_pos (show q.ofPieces.isQuote (.unit a) = true from hq)]
          exact ih (.inside [])
        · rw [if_neg hq, if_neg (show ¬ q.ofPieces.isQuote (.unit a) = true from hq)]
          exact ih .outside
      | inside token =>
        rw [render_unit, Within.map, tokensFrom, tokensFrom]
        by_cases hq : q.isQuote a = true
        · rw [if_pos hq, if_pos (show q.ofPieces.isQuote (.unit a) = true from hq), List.map_cons]
          exact congrArg _ (ih .outside)
        · rw [if_neg hq, if_neg (show ¬ q.ofPieces.isQuote (.unit a) = true from hq)]
          by_cases hb : q.isBackslash a = true
          · have hnext := ih (.escaped (token ++ [.unit a]))
            rw [Within.map, hsnoc] at hnext
            rw [if_pos hb, if_pos (show q.ofPieces.isBackslash (.unit a) = true from hb)]
            exact hnext
          · have hnext := ih (.inside (token ++ [.unit a]))
            rw [Within.map, hsnoc] at hnext
            rw [if_neg hb, if_neg (show ¬ q.ofPieces.isBackslash (.unit a) = true from hb)]
            exact hnext
      | escaped token =>
        have hnext := ih (.inside (token ++ [.unit a]))
        rw [Within.map, hsnoc] at hnext
        rw [render_unit, Within.map, tokensFrom, tokensFrom]
        exact hnext
    | word w =>
      have hw := hplain w (by simp)
      replace ih := ih (fun w' hw' => hne w' (by simp [hw']))
        (fun w' hw' => hplain w' (by simp [hw']))
      cases s with
      | outside =>
        rw [render_word, Within.map, tokensFrom_outside_append hw]
        exact ih .outside
      | inside token =>
        rw [render_word, Within.map, tokensFrom_inside_append hw]
        have hnext := ih (.inside (token ++ [.word w]))
        rwa [Within.map, hsnoc] at hnext
      | escaped token =>
        rw [render_word, Within.map, tokensFrom_escaped_append hw (hne w (by simp))]
        have hnext := ih (.inside (token ++ [.word w]))
        rwa [Within.map, hsnoc] at hnext

/-- The tokens of the replaced text are the replaced tokens. -/
theorem stringTokens_render (hne : ∀ w ∈ words ps, f w ≠ [])
    (hplain : ∀ w ∈ words ps, ∀ a ∈ f w, q.Plain a) :
    q.stringTokens (render f ps) = (q.ofPieces.stringTokens ps).map (render f) :=
  tokensFrom_render hne hplain .outside

end

end Quoting

end UmansGate.Lib
