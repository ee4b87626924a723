/-
UmansGate.Lib.JsonLines — a JSON text among other lines.

An object that stands on one line is read off the line as off the whole
(`parse_line`), and what stands behind the line is blank (`blank_of_parse`).

`objects` counts the objects of a value. A value has no more objects than its
text opens (`objects_le_openings`), and fewer only where an object is replaced
by a second property of its name.
-/
import Mathlib.Data.List.Induction
import UmansGate.Lib.JsonPrefix

namespace UmansGate.Lib

section

variable {t r r' rest p ws : JsString} {u : UInt16}

/-! ## Objects among other text -/

theorem parse_eq_some {v : Json} (h : Json.parse t = some v) :
    ∃ r, readValue (2 * t.length + 2) t = some (v, r) ∧ Blank r := by
  unfold Json.parse at h
  split at h
  · rename_i w r hread
    split_ifs at h with hblank
    cases h
    exact ⟨r, hread, skipSpace_eq_nil.mp hblank⟩
  · cases h

/-- The text of an object, and how every text is read that goes on behind it
with something else. -/
theorem exists_of_parse {v : Json} (hv : v.isRecord = true) (hws : Blank ws)
    (h : Json.parse (ws ++ t) = some v) :
    ∃ p r, t = p ++ r ∧ Blank r ∧ p.getLast? = some 125 ∧ ∀ ws' r', Blank ws' →
      Json.parse (ws' ++ (p ++ r')) = if skipSpace r' = [] then some v else none := by
  obtain ⟨r, hread, hblank⟩ := parse_eq_some h
  rw [readValue_blank hws] at hread
  obtain ⟨p, ht, htakes⟩ := readValue_takes _ t v r hread
  refine ⟨p, r, ht, hblank, htakes.closed hv, fun ws' r' hws' => ?_⟩
  have hnum : (∃ x, v = .num x) → r'.head? = r.head? := by
    rintro ⟨x, rfl⟩
    cases hv
  unfold Json.parse
  rw [readValue_blank hws', htakes.reads _ r' (by simp only [List.length_append]; omega) hnum]

/-- Blank text behind a text that ends in a brace is no part of it. -/
theorem exists_append_of_blank {d post : JsString} (h : d ++ post = p ++ r) (hpost : Blank post)
    (hr : Blank r) (hlast : p.getLast? = some 125) : ∃ c, d = p ++ c ∧ Blank c := by
  rcases List.append_eq_append_iff.mp h with ⟨c, hp, hpost'⟩ | ⟨c, hd, hr'⟩
  · cases c using List.reverseRecOn with
    | nil => exact ⟨[], by simpa using hp.symm, by simp [Blank]⟩
    | append_singleton c u =>
      rw [hp, ← List.append_assoc, List.getLast?_concat] at hlast
      cases hlast
      have hbrace := hpost 125 (by rw [hpost']; simp)
      exact absurd hbrace (by decide)
  · exact ⟨c, hd, (Blank.of_append (hr' ▸ hr)).1⟩

/-- An object is read off the line that it stands on. -/
theorem parse_line {v : Json} {pre d post cr : JsString} (hv : v.isRecord = true)
    (hpre : Blank pre) (hpost : Blank post) (hcr : Blank cr)
    (h : Json.parse (pre ++ (d ++ post)) = some v) : Json.parse (d ++ cr) = some v := by
  obtain ⟨p, r, ht, hr, hlast, hparse⟩ := exists_of_parse hv hpre h
  obtain ⟨c, rfl, hc⟩ := exists_append_of_blank ht hpost hr hlast
  have hblank : skipSpace (c ++ cr) = [] := by rw [skipSpace_append hc, skipSpace_eq_nil.mpr hcr]
  have hline := hparse [] (c ++ cr) (by simp [Blank])
  rw [if_pos hblank, List.nil_append, ← List.append_assoc] at hline
  exact hline

/-- Behind a line that is an object by itself only blank text makes a JSON text. -/
theorem blank_of_parse {v w : Json} {pre d post cr : JsString} (hv : v.isRecord = true)
    (hcr : Blank cr) (hline : Json.parse (d ++ cr) = some v) (hpre : Blank pre)
    (h : Json.parse (pre ++ (d ++ post)) = some w) : Json.parse d = some v ∧ Blank post := by
  have hnil : Blank [] := by simp [Blank]
  obtain ⟨p, r, ht, hr, hlast, hparse⟩ := exists_of_parse hv hnil hline
  obtain ⟨c, rfl, hc⟩ := exists_append_of_blank ht hcr hr hlast
  have halone := hparse [] c (by simp [Blank])
  have hwhole := hparse pre (c ++ post) hpre
  rw [if_pos (skipSpace_eq_nil.mpr hc)] at halone
  rw [← List.append_assoc p, h] at hwhole
  split_ifs at hwhole with hblank
  exact ⟨halone, (Blank.of_append (skipSpace_eq_nil.mp hblank)).2⟩

/-! ## Counting objects -/

mutual

/-- The objects of a value, itself included. -/
def objects : Json → ℕ
  | .arr items => itemsObjects items
  | .obj fields => 1 + fieldsObjects fields
  | .null | .bool _ | .num _ | .str _ => 0

def itemsObjects : List Json → ℕ
  | [] => 0
  | v :: rest => objects v + itemsObjects rest

def fieldsObjects : List (JsString × Json) → ℕ
  | [] => 0
  | (_, v) :: rest => objects v + fieldsObjects rest

end

/-- A property that is replaced takes its objects with it. -/
theorem fieldsObjects_set_le (fields : Fields) (key : JsString) (v : Json) :
    fieldsObjects (fields.set key v) ≤ fieldsObjects fields + objects v := by
  induction fields with
  | nil => simp [Dict.set, fieldsObjects]
  | cons field rest ih =>
    obtain ⟨key', w⟩ := field
    rw [Dict.set]
    split
    · simp only [fieldsObjects]
      omega
    · simp only [fieldsObjects]
      omega

theorem openings_plain (hp : Plain p) (r : JsString) :
    openings false (p ++ r) = openings false r := by
  induction p with
  | nil => rfl
  | cons u p ih =>
    obtain ⟨⟨hquote, hbrace⟩, hp⟩ := List.forall_mem_cons.mp hp
    rw [List.cons_append, openings.eq_def]
    simp only [if_neg hquote, if_neg hbrace, ih hp, Nat.zero_add]

theorem Blank.plain (h : Blank p) : Plain p := by
  intro u hu
  have hspace := h u hu
  refine ⟨?_, ?_⟩
  · rintro rfl
    exact absurd hspace (by decide)
  · rintro rfl
    exact absurd hspace (by decide)

theorem openings_skipSpace (t : JsString) : openings false (skipSpace t) = openings false t := by
  obtain ⟨ws, hws, ht⟩ := exists_blank t
  conv_rhs => rw [ht, openings_plain hws.plain]

theorem openings_cons (hne : u ≠ quote ∧ u ≠ 123) (rest : JsString) :
    openings false (u :: rest) = openings false rest :=
  openings_plain (p := [u]) (plain_cons hne (by simp [Plain])) rest

theorem openings_brace (rest : JsString) :
    openings false (123 :: rest) = 1 + openings false rest := by
  rw [openings.eq_def]
  rfl

theorem openings_string {s : JsString} (h : readString t = some (s, r)) :
    openings false (quote :: t) = openings false r := by
  obtain ⟨p, rfl, -, htakes⟩ := readString_takes t s r h
  rw [openings.eq_def]
  simp only [if_pos]
  exact (htakes r).2

/-- A word opens nothing. -/
theorem objects_word (w : JsString) (hplain : w.all (fun u => u != quote && u != 123) = true)
    {x v : Json} (hx : objects x = 0) (h : (readWord w t).map (x, ·) = some (v, r)) :
    objects v + openings false r ≤ openings false t := by
  obtain ⟨r', hread, heq⟩ := Option.map_eq_some_iff.mp h
  cases heq
  rw [readWord_takes hread, openings_plain (.of_all hplain), hx, zero_add]

mutual

theorem objects_readValue : ∀ (fuel : ℕ) (t : JsString) (v : Json) (r : JsString),
    readValue fuel t = some (v, r) → objects v + openings false r ≤ openings false t
  | 0, t, v, r, h => absurd h (by simp [readValue])
  | fuel + 1, t, v, r, h => by
    rw [← openings_skipSpace t]
    rw [readValue] at h
    cases hskip : skipSpace t with
    | nil =>
      rw [hskip] at h
      cases h
    | cons u rest =>
      rw [hskip] at h
      simp only [] at h
      split_ifs at h with hobj harr hstr hnull htrue hfalse
      · subst hobj
        rw [openings_brace, ← openings_skipSpace rest]
        cases hmore : skipSpace rest with
        | nil =>
          rw [hmore] at h
          cases h
        | cons m more =>
          rw [hmore] at h
          simp only [] at h
          split_ifs at h with hclose
          · cases h
            subst hclose
            rw [openings_cons (by decide)]
            simp [objects, fieldsObjects]
          · obtain ⟨⟨fields, r'⟩, hread, heq⟩ := Option.map_eq_some_iff.mp h
            cases heq
            have hle := objects_readMembers fuel [] _ fields _ hread
            simp only [objects, fieldsObjects] at hle ⊢
            omega
      · subst harr
        rw [openings_cons (by decide), ← openings_skipSpace rest]
        cases hmore : skipSpace rest with
        | nil =>
          rw [hmore] at h
          cases h
        | cons m more =>
          rw [hmore] at h
          simp only [] at h
          split_ifs at h with hclose
          · cases h
            subst hclose
            rw [openings_cons (by decide)]
            simp [objects, itemsObjects]
          · obtain ⟨⟨items, r'⟩, hread, heq⟩ := Option.map_eq_some_iff.mp h
            cases heq
            have hle := objects_readElements fuel _ items _ hread
            simpa only [objects] using hle
      · subst hstr
        obtain ⟨⟨s, r'⟩, hread, heq⟩ := Option.map_eq_some_iff.mp h
        cases heq
        rw [openings_string hread]
        simp [objects]
      · exact objects_word (js "null") (by decide) rfl h
      · exact objects_word (js "true") (by decide) rfl h
      · exact objects_word (js "false") (by decide) rfl h
      · obtain ⟨⟨x, rfl⟩, p, hp, -, hplain, -⟩ := readNumber_takes h
        rw [hp, openings_plain hplain]
        simp [objects]

theorem objects_readElements : ∀ (fuel : ℕ) (t : JsString) (items : List Json) (r : JsString),
    readElements fuel t = some (items, r) →
      itemsObjects items + openings false r ≤ openings false t
  | 0, t, items, r, h => absurd h (by simp [readElements])
  | fuel + 1, t, items, r, h => by
    rw [readElements] at h
    split at h
    · cases h
    rename_i v t' hvalue
    have hv := objects_readValue fuel t v t' hvalue
    rw [← openings_skipSpace t'] at hv
    cases hskip : skipSpace t' with
    | nil =>
      rw [hskip] at h
      cases h
    | cons c rest =>
      rw [hskip] at h hv
      simp only [] at h
      split_ifs at h with hcomma hclose
      · subst hcomma
        obtain ⟨⟨items', r'⟩, hread, heq⟩ := Option.map_eq_some_iff.mp h
        cases heq
        have hrest := objects_readElements fuel rest items' _ hread
        rw [openings_cons (by decide)] at hv
        simp only [itemsObjects]
        omega
      · subst hclose
        cases h
        rw [openings_cons (by decide)] at hv
        simpa [itemsObjects] using hv

theorem objects_readMembers : ∀ (fuel : ℕ) (fields : Fields) (t : JsString) (fields' : Fields)
    (r : JsString), readMembers fuel fields t = some (fields', r) →
      fieldsObjects fields' + openings false r ≤ fieldsObjects fields + openings false t
  | 0, fields, t, fields', r, h => absurd h (by simp [readMembers])
  | fuel + 1, fields, t, fields', r, h => by
    rw [← openings_skipSpace t]
    rw [readMembers] at h
    cases hskip : skipSpace t with
    | nil =>
      rw [hskip] at h
      cases h
    | cons u rest =>
      rw [hskip] at h
      simp only [] at h
      split_ifs at h with hquote
      subst hquote
      split at h
      · cases h
      rename_i key t₁ hkey
      rw [openings_string hkey, ← openings_skipSpace t₁]
      cases hskip₁ : skipSpace t₁ with
      | nil =>
        rw [hskip₁] at h
        cases h
      | cons u₁ rest₁ =>
        rw [hskip₁] at h
        simp only [] at h
        split_ifs at h with hcolon
        subst hcolon
        rw [openings_cons (by decide)]
        split at h
        · cases h
        rename_i v t₂ hvalue
        have hv := objects_readValue fuel rest₁ v t₂ hvalue
        have hset := fieldsObjects_set_le fields key v
        rw [← openings_skipSpace t₂] at hv
        cases hskip₂ : skipSpace t₂ with
        | nil =>
          rw [hskip₂] at h
          cases h
        | cons c rest₂ =>
          rw [hskip₂] at h hv
          simp only [] at h
          split_ifs at h with hcomma hclose
          · subst hcomma
            have hrest := objects_readMembers fuel _ rest₂ fields' r h
            rw [openings_cons (by decide)] at hv
            omega
          · subst hclose
            cases h
            rw [openings_cons (by decide)] at hv
            omega

end

/-- A value has no more objects than its text opens. -/
theorem objects_le_openings {v : Json} (h : Json.parse t = some v) :
    objects v ≤ openings false t := by
  obtain ⟨r, hread, -⟩ := parse_eq_some h
  have hle := objects_readValue _ t v r hread
  omega

/-- Blank text is no JSON text. -/
theorem parse_blank (h : Blank t) : Json.parse t = none := by
  unfold Json.parse
  rw [readValue, skipSpace_eq_nil.mpr h]

/-! ## Lines -/

theorem intercalate_append_cons (before : List JsString) (d : JsString) (after : List JsString) :
    ([10] : JsString).intercalate (before ++ d :: after) =
      before.flatMap (· ++ [10]) ++ (d ++ after.flatMap (10 :: ·)) := by
  induction before with
  | nil => exact intercalate_lf d after
  | cons b before ih =>
    rw [List.cons_append, List.intercalate_cons_of_ne_nil (by simp), ih]
    simp

theorem Blank.append (h : Blank ws) (ht : Blank t) : Blank (ws ++ t) := by
  intro u hu
  exact (List.mem_append.mp hu).elim (h u) (ht u)

theorem blank_before {before : List JsString} (h : ∀ d ∈ before, Blank d) :
    Blank (before.flatMap (· ++ [10])) := by
  intro u hu
  obtain ⟨d, hd, hmem⟩ := List.mem_flatMap.mp hu
  exact ((h d hd).append (List.all_eq_true.mp rfl)) u hmem

theorem blank_after {after : List JsString} :
    Blank (after.flatMap (10 :: ·)) ↔ ∀ d ∈ after, Blank d := by
  constructor
  · intro h d hd u hu
    exact h u (List.mem_flatMap.mpr ⟨d, hd, List.mem_cons_of_mem 10 hu⟩)
  · intro h u hu
    obtain ⟨d, hd, hmem⟩ := List.mem_flatMap.mp hu
    rcases List.mem_cons.mp hmem with rfl | hmem
    · decide
    · exact h d hd u hmem

/-- A line feed ends a string that is open. -/
theorem openings_line (inside : Bool) (l rest : JsString) :
    openings inside (l ++ 10 :: rest) = openings inside l + openings false rest := by
  have hfeed : ∀ inside, openings inside (10 :: rest) = openings false rest := by
    intro inside
    cases inside with
    | false => exact openings_cons (by decide) rest
    | true => exact openings_closing (.inr rfl) rest
  fun_induction openings inside l with
  | case1 inside => simp [hfeed]
  | case2 l ih =>
    rw [List.cons_append, openings.eq_def]
    simpa using ih
  | case3 u l hquote ih =>
    rw [List.cons_append, openings.eq_def]
    simp only [if_neg hquote]
    omega
  | case4 u l hclosing ih => rw [List.cons_append, openings_closing hclosing, ih]
  | case5 hback =>
    rw [List.singleton_append, openings.eq_def]
    simp [if_neg hback]
  | case6 c l hback ih =>
    rw [List.cons_append, List.cons_append, openings.eq_def]
    simpa [if_neg hback] using ih
  | case7 u l hclosing hback ih => rw [List.cons_append, openings_inside ⟨hclosing, hback⟩, ih]

theorem openings_intercalate (lines : List JsString) :
    openings false (([10] : JsString).intercalate lines) = (lines.map (openings false)).sum := by
  induction lines with
  | nil => simp [openings]
  | cons l lines ih =>
    cases lines with
    | nil => simp
    | cons m lines =>
      rw [List.intercalate_cons_cons, List.append_assoc, List.singleton_append, openings_line, ih]
      rfl

/-- What is read is no record where the reader builds none. -/
theorem isRecord_of_map {α : Type} {o : Option α} {f : α → Json × JsString} {v : Json}
    (h : o.map f = some (v, r)) (hf : ∀ x, (f x).1.isRecord = false) : v.isRecord = false := by
  obtain ⟨x, -, heq⟩ := Option.map_eq_some_iff.mp h
  have hx := hf x
  rwa [heq] at hx

/-- The text of an object begins with a brace. -/
theorem exists_brace {v : Json} (hv : v.isRecord = true) (h : Json.parse t = some v) :
    ∃ ws rest, Blank ws ∧ t = ws ++ 123 :: rest := by
  obtain ⟨r, hread, -⟩ := parse_eq_some h
  obtain ⟨ws, hws, ht⟩ := exists_blank t
  have hread : readValue (2 * t.length + 1 + 1) t = some (v, r) := hread
  have hnone : v.isRecord ≠ false := by rw [hv]; exact Bool.noConfusion
  rw [readValue] at hread
  cases hskip : skipSpace t with
  | nil =>
    rw [hskip] at hread
    cases hread
  | cons u rest =>
    rw [hskip] at hread ht
    simp only [] at hread
    by_cases hobj : u = 123
    · exact ⟨ws, rest, hws, hobj ▸ ht⟩
    · rw [if_neg hobj] at hread
      split_ifs at hread
      · cases hmore : skipSpace rest with
        | nil =>
          rw [hmore] at hread
          cases hread
        | cons m more =>
          rw [hmore] at hread
          simp only [] at hread
          split_ifs at hread
          · cases hread
            cases hv
          · exact absurd (isRecord_of_map hread fun _ => rfl) hnone
      · exact absurd (isRecord_of_map hread fun _ => rfl) hnone
      · exact absurd (isRecord_of_map hread fun _ => rfl) hnone
      · exact absurd (isRecord_of_map hread fun _ => rfl) hnone
      · exact absurd (isRecord_of_map hread fun _ => rfl) hnone
      · obtain ⟨⟨x, rfl⟩, -⟩ := readNumber_takes hread
        cases hv

/-- The first brace stands on a line behind blank ones. -/
theorem exists_line {lines : List JsString} {rest : JsString} (hws : Blank ws)
    (h : ([10] : JsString).intercalate lines = ws ++ 123 :: rest) :
    ∃ before l after, lines = before ++ l :: after ∧ (∀ d ∈ before, Blank d) ∧
      openings false l ≠ 0 := by
  induction lines generalizing ws with
  | nil => simp at h
  | cons l lines ih =>
    by_cases hl : Blank l
    · have hbrace : ¬ Blank [123] := fun hblank => absurd (hblank 123 (by simp)) (by decide)
      cases lines with
      | nil =>
        rw [List.intercalate_singleton] at h
        have hblank : Blank ([123] ++ rest) := (Blank.of_append (h ▸ hl)).2
        exact absurd (Blank.of_append hblank).1 hbrace
      | cons m lines =>
        rw [List.intercalate_cons_cons, List.append_assoc] at h
        rcases List.append_eq_append_iff.mp h with ⟨c, rfl, hrest⟩ | ⟨c, hlc, hrest⟩
        · cases c with
          | nil => exact absurd (List.cons.inj hrest).1 (by decide)
          | cons u c =>
            rw [List.singleton_append, List.cons_append] at hrest
            obtain ⟨rfl, hmore⟩ := List.cons.inj hrest
            have hc : Blank c := (List.forall_mem_cons.mp (Blank.of_append hws).2).2
            obtain ⟨before, l', after, heq, hbefore, hopens⟩ := ih hc hmore
            exact ⟨l :: before, l', after, by rw [heq]; rfl,
              List.forall_mem_cons.mpr ⟨hl, hbefore⟩, hopens⟩
        · cases c with
          | nil => exact absurd (List.cons.inj hrest).1 (by decide)
          | cons u c =>
            obtain ⟨rfl, -⟩ := List.cons.inj hrest
            have hblank : Blank ([123] ++ c) := (Blank.of_append (hlc ▸ hl)).2
            exact absurd (Blank.of_append hblank).1 hbrace
    · refine ⟨[], l, lines, rfl, by simp, ?_⟩
      rw [intercalate_lf] at h
      rcases List.append_eq_append_iff.mp h with ⟨c, hws', -⟩ | ⟨c, hlc, hrest⟩
      · exact absurd (Blank.of_append (hws' ▸ hws)).1 hl
      · cases c with
        | nil =>
          rw [List.append_nil] at hlc
          exact absurd (hlc ▸ hws) hl
        | cons u c =>
          obtain ⟨rfl, -⟩ := List.cons.inj hrest
          rw [hlc, openings_plain hws.plain, openings_brace]
          omega

end

end UmansGate.Lib
