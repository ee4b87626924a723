/-
UmansGate.Lib.JsonPrefix — what the productions of the JSON reader take.

Each production takes some text off the front whatever stands behind it; only a
number must end there (`readValue_takes`), and the text of an object ends in its
brace. `openings` counts the braces that open an object, outside strings; a line
feed ends a string here, since none stands in one.
-/
import Mathlib.Data.List.TakeWhile
import UmansGate.Lib.JsText
import UmansGate.Lib.JsonRoundTrip

namespace UmansGate.Lib

section

variable {t r r' rest p ws : JsString} {u : UInt16}

/-- The braces that open an object outside strings; `inside` says whether the
text begins in a string. -/
def openings : ( inside : Bool) → JsString → ℕ
  | _, [] => 0
  | false, u :: rest =>
    if u = quote then openings true rest else (if u = 123 then 1 else 0) + openings false rest
  | true, u :: rest =>
    if u = quote ∨ u = 10 then openings false rest
    else if u = backslash then
      match rest with
      | [] => 0
      | c :: rest => openings (c ≠ 10) rest
    else openings true rest

/-! ## Blank text -/

/-- JSON white space. -/
def Blank (t : JsString) : Prop := ∀ u ∈ t, isJsonSpace u = true

theorem skipSpace_append (h : Blank ws) (t : JsString) : skipSpace (ws ++ t) = skipSpace t :=
  List.dropWhile_append_of_pos h

theorem skipSpace_eq_nil : skipSpace t = [] ↔ Blank t := List.dropWhile_eq_nil_iff

theorem exists_blank (t : JsString) : ∃ ws, Blank ws ∧ t = ws ++ skipSpace t :=
  ⟨t.takeWhile isJsonSpace, fun _ hu => List.mem_takeWhile_imp hu,
    List.takeWhile_append_dropWhile.symm⟩

theorem skipSpace_head (h : skipSpace t = u :: rest) : isJsonSpace u = false := by
  have hhead := List.head?_dropWhile_not isJsonSpace t
  rw [← skipSpace, h] at hhead
  simpa using hhead

theorem readValue_blank (h : Blank ws) (fuel : ℕ) (t : JsString) :
    readValue fuel (ws ++ t) = readValue fuel t := by
  cases fuel with
  | zero => simp only [readValue]
  | succ fuel => rw [readValue, readValue, skipSpace_append h]

theorem Blank.of_append (h : Blank (ws ++ t)) : Blank ws ∧ Blank t :=
  ⟨fun u hu => h u (List.mem_append_left t hu), fun u hu => h u (List.mem_append_right ws hu)⟩

/-! ## Numbers -/

/-- Units that are no part of a string and open nothing. -/
def Plain (t : JsString) : Prop := ∀ u ∈ t, u ≠ quote ∧ u ≠ 123

theorem Plain.of_all (h : t.all (fun u => u != quote && u != 123) = true) : Plain t := by
  simpa [Plain] using h

theorem plain_digits (t : JsString) : Plain (t.takeWhile isDigit) := by
  intro u hu
  have hdigit : isDigit u = true := List.mem_takeWhile_imp hu
  refine ⟨?_, ?_⟩
  · rintro rfl
    exact absurd hdigit (by decide)
  · rintro rfl
    exact absurd hdigit (by decide)

theorem Plain.append {p' : JsString} (h : Plain p) (h' : Plain p') : Plain (p ++ p') := by
  intro u hu
  exact (List.mem_append.mp hu).elim (h u) (h' u)

theorem plain_cons (h : u ≠ quote ∧ u ≠ 123) (hp : Plain p) : Plain (u :: p) :=
  List.forall_mem_cons.mpr ⟨h, hp⟩

theorem head?_append_congr (h : r'.head? = r.head?) (p : JsString) :
    (p ++ r').head? = (p ++ r).head? := by
  cases p <;> simp [h]

/-- The digits at the front are the same before every text that goes on with
the same unit. -/
theorem digits_append (t : JsString) (h : r'.head? = (t.dropWhile isDigit).head?) :
    (t.takeWhile isDigit ++ r').takeWhile isDigit = t.takeWhile isDigit ∧
      (t.takeWhile isDigit ++ r').dropWhile isDigit = r' := by
  have hall : ∀ u ∈ t.takeWhile isDigit, isDigit u = true := fun u hu =>
    List.mem_takeWhile_imp hu
  have hnot := List.head?_dropWhile_not isDigit t
  rw [List.takeWhile_append_of_pos hall, List.dropWhile_append_of_pos hall]
  cases r' with
  | nil => simp
  | cons u r' =>
    rw [← h] at hnot
    have hu : isDigit u = false := by simpa using hnot
    simp [hu]

theorem readFraction_takes {fraction : JsString} (h : readFraction t = some (fraction, r)) :
    ∃ p, t = p ++ r ∧ Plain p ∧
      ∀ r', r'.head? = r.head? → readFraction (p ++ r') = some (fraction, r') := by
  cases t with
  | nil =>
    cases h
    refine ⟨[], rfl, by simp [Plain], fun r' hr' => ?_⟩
    rw [List.head?_eq_none_iff.mp hr']
    rfl
  | cons u rest =>
    by_cases hu : u = 46
    · subst hu
      rw [readFraction, if_pos rfl] at h
      simp only [] at h
      split_ifs at h with hdigits
      cases h
      refine ⟨46 :: rest.takeWhile isDigit, by simp,
        plain_cons (by decide) (plain_digits rest), fun r' hr' => ?_⟩
      obtain ⟨htake, hdrop⟩ := digits_append rest hr'
      rw [List.cons_append, readFraction, if_pos rfl]
      simp only [htake, hdrop, if_neg hdigits]
    · rw [readFraction, if_neg hu] at h
      cases h
      refine ⟨[], rfl, by simp [Plain], fun r' hr' => ?_⟩
      obtain ⟨rest', rfl⟩ := List.head?_eq_some_iff.mp hr'
      rw [List.nil_append, readFraction, if_neg hu]

theorem readExponent_takes {exponent : ℤ} (h : readExponent t = some (exponent, r)) :
    ∃ p, t = p ++ r ∧ Plain p ∧
      ∀ r', r'.head? = r.head? → readExponent (p ++ r') = some (exponent, r') := by
  cases t with
  | nil =>
    cases h
    refine ⟨[], rfl, by simp [Plain], fun r' hr' => ?_⟩
    rw [List.head?_eq_none_iff.mp hr']
    rfl
  | cons u rest =>
    rw [readExponent] at h
    by_cases hu : u = 101 ∨ u = 69
    · have hplain : u ≠ quote ∧ u ≠ 123 := by
        rcases hu with rfl | rfl <;> decide
      rw [if_pos hu] at h
      simp only [] at h
      by_cases hsign : rest.head? = some 45 ∨ rest.head? = some 43
      · obtain ⟨c, rest, rfl⟩ : ∃ c tail, rest = c :: tail := by
          cases rest with
          | nil => simp at hsign
          | cons c tail => exact ⟨c, tail, rfl⟩
        have hc : c ≠ quote ∧ c ≠ 123 := by
          rcases hsign with hc | hc <;> cases hc <;> decide
        simp only [if_pos hsign, List.tail_cons] at h
        by_cases hdigits : rest.takeWhile isDigit = []
        · rw [if_pos hdigits] at h
          cases h
        rw [if_neg hdigits] at h
        cases h
        refine ⟨u :: c :: rest.takeWhile isDigit, by simp,
          plain_cons hplain (plain_cons hc (plain_digits rest)), fun r' hr' => ?_⟩
        obtain ⟨htake, hdrop⟩ := digits_append rest hr'
        have hsign' : (c :: (rest.takeWhile isDigit ++ r')).head? = some 45 ∨
            (c :: (rest.takeWhile isDigit ++ r')).head? = some 43 := hsign
        rw [List.cons_append, List.cons_append, readExponent, if_pos hu]
        simp only [if_pos hsign', List.tail_cons, htake, hdrop, if_neg hdigits]
        rfl
      · simp only [if_neg hsign] at h
        by_cases hdigits : rest.takeWhile isDigit = []
        · rw [if_pos hdigits] at h
          cases h
        rw [if_neg hdigits] at h
        cases h
        refine ⟨u :: rest.takeWhile isDigit, by simp, plain_cons hplain (plain_digits rest),
          fun r' hr' => ?_⟩
        obtain ⟨htake, hdrop⟩ := digits_append rest hr'
        have hhead : (rest.takeWhile isDigit ++ r').head? = rest.head? := by
          rw [head?_append_congr hr', List.takeWhile_append_dropWhile]
        rw [List.cons_append, readExponent, if_pos hu]
        simp only [hhead, if_neg hsign, htake, hdrop, if_neg hdigits]
    · rw [if_neg hu] at h
      cases h
      refine ⟨[], rfl, by simp [Plain], fun r' hr' => ?_⟩
      obtain ⟨rest', rfl⟩ := List.head?_eq_some_iff.mp hr'
      rw [List.nil_append, readExponent, if_neg hu]

/-- `readNumber` behind the sign. -/
def readUnsigned (negative : Bool) (t : JsString) : Option (Json × JsString) :=
  let int := t.takeWhile isDigit
  if int = [] ∨ (int.head? = some 48 ∧ 1 < int.length) then none
  else
    match readFraction (t.dropWhile isDigit) with
    | none => none
    | some (fraction, t) =>
      match readExponent t with
      | none => none
      | some (exponent, t) =>
        let v := ofDecimal (digitsValue (int ++ fraction)) (exponent - fraction.length)
        some (.num (if negative then -v else v), t)

theorem readNumber_eq (t : JsString) :
    readNumber t =
      if t.head? = some 45 then readUnsigned true t.tail else readUnsigned false t := by
  unfold readNumber
  by_cases hsign : t.head? = some 45
  · simp only [hsign, if_true]
    rfl
  · simp only [hsign, if_false]
    rfl

theorem readUnsigned_takes {negative : Bool} {v : Json}
    (h : readUnsigned negative t = some (v, r)) :
    (∃ x, v = .num x) ∧ ∃ p, t = p ++ r ∧ p ≠ [] ∧ Plain p ∧
      ∀ r', r'.head? = r.head? → readUnsigned negative (p ++ r') = some (v, r') := by
  unfold readUnsigned at h
  simp only [] at h
  split at h
  · cases h
  rename_i hint
  split at h
  · cases h
  rename_i fraction behind hfraction
  split at h
  · cases h
  rename_i exponent after hexponent
  cases h
  obtain ⟨pf, htf, hplainf, htakesf⟩ := readFraction_takes hfraction
  obtain ⟨pe, hte, hplaine, htakese⟩ := readExponent_takes hexponent
  have hdigits : t.takeWhile isDigit ≠ [] := fun hnil => hint (.inl hnil)
  have ht : t = t.takeWhile isDigit ++ pf ++ pe ++ r := by
    rw [List.append_assoc, ← hte, List.append_assoc, ← htf, List.takeWhile_append_dropWhile]
  refine ⟨⟨_, rfl⟩, t.takeWhile isDigit ++ pf ++ pe, ht, by simp [hdigits],
    ((plain_digits t).append hplainf).append hplaine, fun r' hr' => ?_⟩
  have hbehind : (pe ++ r').head? = behind.head? := by
    rw [hte, head?_append_congr hr']
  have hdrop : (pf ++ (pe ++ r')).head? = (t.dropWhile isDigit).head? := by
    rw [htf, head?_append_congr hbehind]
  obtain ⟨htake', hdrop'⟩ := digits_append t hdrop
  rw [List.append_assoc, List.append_assoc]
  unfold readUnsigned
  simp only [htake', hdrop', if_neg hint, htakesf _ hbehind, htakese r' hr']

theorem readNumber_takes {v : Json} (h : readNumber t = some (v, r)) :
    (∃ x, v = .num x) ∧ ∃ p, t = p ++ r ∧ p ≠ [] ∧ Plain p ∧
      ∀ r', r'.head? = r.head? → readNumber (p ++ r') = some (v, r') := by
  rw [readNumber_eq] at h
  split_ifs at h with hsign
  · obtain ⟨rest, rfl⟩ := List.head?_eq_some_iff.mp hsign
    obtain ⟨hnum, p, hrest, -, hplain, htakes⟩ := readUnsigned_takes h
    refine ⟨hnum, 45 :: p, by rw [List.tail_cons] at hrest; rw [hrest, List.cons_append], by simp,
      plain_cons (by decide) hplain, fun r' hr' => ?_⟩
    rw [readNumber_eq, List.cons_append, List.head?_cons, if_pos rfl, List.tail_cons,
      htakes r' hr']
  · obtain ⟨hnum, p, ht, hne, hplain, htakes⟩ := readUnsigned_takes h
    refine ⟨hnum, p, ht, hne, hplain, fun r' hr' => ?_⟩
    have hsign' : (p ++ r').head? ≠ some 45 := by
      rw [head?_append_congr hr', ← ht]
      exact hsign
    rw [readNumber_eq, if_neg hsign', htakes r' hr']

/-! ## Strings and words -/

theorem readHex_ne {h₁ h₂ h₃ h₄ v : UInt16} (h : readHex [h₁, h₂, h₃, h₄] = some v) :
    ∀ u ∈ [h₁, h₂, h₃, h₄], ¬ (u = quote ∨ u = 10) ∧ u ≠ backslash := by
  have hdigit : ∀ u : UInt16, hexDigitValue u ≠ none → ¬ (u = quote ∨ u = 10) ∧ u ≠ backslash := by
    intro u hu
    refine ⟨?_, ?_⟩
    · rintro (rfl | rfl)
      · exact hu (by decide)
      · exact hu (by decide)
    · rintro rfl
      exact hu (by decide)
  simp only [readHex, List.foldl_cons, List.foldl_nil, Option.map_eq_some_iff,
    Option.bind_eq_some_iff] at h
  obtain ⟨n, ⟨n₃, ⟨n₂, ⟨n₁, ⟨n₀, -, d₁, hd₁, -⟩, d₂, hd₂, -⟩, d₃, hd₃, -⟩, d₄, hd₄, -⟩, -⟩ := h
  simp only [List.forall_mem_cons]
  exact ⟨hdigit h₁ (by simp [hd₁]), hdigit h₂ (by simp [hd₂]), hdigit h₃ (by simp [hd₃]),
    hdigit h₄ (by simp [hd₄]), by simp⟩

theorem openings_closing (h : u = quote ∨ u = 10) (rest : JsString) :
    openings true (u :: rest) = openings false rest := by
  rw [openings.eq_def]
  simp only [if_pos h]

theorem openings_inside (h : ¬ (u = quote ∨ u = 10) ∧ u ≠ backslash) (rest : JsString) :
    openings true (u :: rest) = openings true rest := by
  rw [openings.eq_def]
  simp only [if_neg h.1, if_neg h.2]

theorem openings_escaped (h : u ≠ 10) (rest : JsString) :
    openings true (backslash :: u :: rest) = openings true rest := by
  have hback : ¬ (backslash = quote ∨ backslash = 10) := by decide
  rw [openings.eq_def]
  simp [if_neg hback, h]

theorem readString_hex (h₁ h₂ h₃ h₄ : UInt16) (rest : JsString) :
    readString (backslash :: 117 :: h₁ :: h₂ :: h₃ :: h₄ :: rest) =
      (readHex [h₁, h₂, h₃, h₄]).bind fun v => (readString rest).map fun r => (v :: r.1, r.2) := by
  rw [readString.eq_def]
  simp only [if_neg (show backslash ≠ quote by decide), if_neg (show ¬ backslash < 32 by decide),
    if_pos]

theorem readString_escape_eq {c : UInt16} (hc : c ≠ 117) (rest : JsString) :
    readString (backslash :: c :: rest) =
      (escapedUnit c).bind fun v => (readString rest).map fun r => (v :: r.1, r.2) := by
  rw [readString.eq_def]
  simp only [if_neg (show backslash ≠ quote by decide), if_neg (show ¬ backslash < 32 by decide),
    if_pos, if_neg hc]

/-- What takes a string behind the units `front` takes the whole. -/
theorem exists_takes_string (front : JsString) (f : JsString → JsString) {rest s : JsString}
    (hfront : front ≠ [])
    (hread : ∀ x, readString (front ++ x) = (readString x).map fun y => (f y.1, y.2))
    (hopenings : ∀ x, openings true (front ++ x) = openings true x)
    (ih : ∀ s r, readString rest = some (s, r) → ∃ p, rest = p ++ r ∧ p ≠ [] ∧
      ∀ r', readString (p ++ r') = some (s, r') ∧ openings true (p ++ r') = openings false r')
    (h : readString (front ++ rest) = some (s, r)) :
    ∃ p, front ++ rest = p ++ r ∧ p ≠ [] ∧
      ∀ r', readString (p ++ r') = some (s, r') ∧ openings true (p ++ r') = openings false r' := by
  rw [hread] at h
  obtain ⟨⟨s', r₁⟩, hrest, heq⟩ := Option.map_eq_some_iff.mp h
  cases heq
  obtain ⟨p, hp, -, htakes⟩ := ih s' _ hrest
  refine ⟨front ++ p, by rw [hp, List.append_assoc], by simp [hfront], fun r' => ⟨?_, ?_⟩⟩
  · rw [List.append_assoc, hread, (htakes r').1]
    rfl
  · rw [List.append_assoc, hopenings, (htakes r').2]

/-- A string is taken off, and no brace in it counts. -/
theorem readString_takes (t : JsString) : ∀ s r, readString t = some (s, r) →
    ∃ p, t = p ++ r ∧ p ≠ [] ∧
      ∀ r', readString (p ++ r') = some (s, r') ∧ openings true (p ++ r') = openings false r' := by
  induction t using readString.induct with
  | case1 =>
    intro s r h
    simp [readString] at h
  | case2 rest =>
    intro s r h
    rw [readString_quote] at h
    cases h
    exact ⟨[quote], rfl, by simp, fun r' => ⟨readString_quote r', openings_closing (.inl rfl) r'⟩⟩
  | case3 u rest hquote hlow =>
    intro s r h
    rw [readString.eq_def] at h
    simp [if_neg hquote, if_pos hlow] at h
  | case4 _ _ =>
    intro s r h
    rw [readString.eq_def] at h
    simp only [if_neg (show backslash ≠ quote by decide),
      if_neg (show ¬ backslash < 32 by decide), if_pos, reduceCtorEq] at h
  | case5 h₁ h₂ h₃ h₄ rest _ _ ih =>
    intro s r h
    have hread := readString_hex h₁ h₂ h₃ h₄
    cases hhex : readHex [h₁, h₂, h₃, h₄] with
    | none =>
      rw [hread, hhex] at h
      cases h
    | some v =>
      have hne := readHex_ne hhex
      simp only [List.forall_mem_cons] at hne
      obtain ⟨hne₁, hne₂, hne₃, hne₄, -⟩ := hne
      have hopenings : ∀ x, openings true (backslash :: 117 :: h₁ :: h₂ :: h₃ :: h₄ :: x) =
          openings true x := by
        intro x
        rw [openings_escaped (by decide), openings_inside hne₁, openings_inside hne₂,
          openings_inside hne₃, openings_inside hne₄]
      simp only [hhex, Option.bind_some] at hread
      exact exists_takes_string [backslash, 117, h₁, h₂, h₃, h₄] (v :: ·) (List.cons_ne_nil _ _)
        hread hopenings ih h
  | case6 rest hshort _ _ =>
    intro s r h
    rw [readString.eq_def] at h
    simp only [if_neg (show backslash ≠ quote by decide),
      if_neg (show ¬ backslash < 32 by decide), if_pos, reduceCtorEq] at h
  | case7 c rest hc _ _ ih =>
    intro s r h
    have hread := readString_escape_eq hc
    cases hunit : escapedUnit c with
    | none =>
      rw [hread, hunit] at h
      cases h
    | some v =>
      have hc10 : c ≠ 10 := by
        have hnone : escapedUnit 10 = none := by decide
        rintro rfl
        rw [hnone] at hunit
        cases hunit
      simp only [hunit, Option.bind_some] at hread
      exact exists_takes_string [backslash, c] (v :: ·) (List.cons_ne_nil _ _) hread
        (openings_escaped hc10) ih h
  | case8 u rest hquote hlow hback ih =>
    intro s r h
    have hplain : ¬ (u = quote ∨ u = 10) := by
      rintro (rfl | rfl)
      · exact hquote rfl
      · exact hlow (by decide)
    exact exists_takes_string [u] (u :: ·) (List.cons_ne_nil _ _)
      (readString_plain hquote hlow hback) (openings_inside ⟨hplain, hback⟩) ih h

theorem readWord_takes {w : JsString} (h : readWord w t = some r) : t = w ++ r := by
  unfold readWord at h
  split_ifs at h with hw
  obtain ⟨rest, rfl⟩ := List.isPrefixOf_iff_prefix.mp hw
  cases h
  simp

/-! ## Values -/

theorem head?_blank_cons (ws : JsString) (u : UInt16) (x y : JsString) :
    (ws ++ u :: x).head? = (ws ++ u :: y).head? := by
  cases ws <;> rfl

theorem readMembers_blank (h : Blank ws) (fuel : ℕ) (fields : Fields) (t : JsString) :
    readMembers fuel fields (ws ++ t) = readMembers fuel fields t := by
  cases fuel with
  | zero => simp only [readMembers]
  | succ fuel => rw [readMembers, readMembers, skipSpace_append h]

/-- The value that is read off `p`, whatever stands behind it; behind a number
the text goes on with the same unit as `r`. -/
structure TakesValue (v : Json) (r p : JsString) : Prop where
  nonempty : p ≠ []
  closed : v.isRecord = true → p.getLast? = some 125
  reads : ∀ fuel r', 2 * p.length ≤ fuel → ((∃ x, v = .num x) → r'.head? = r.head?) →
    readValue fuel (p ++ r') = some (v, r')

theorem TakesValue.blank {v : Json} (h : TakesValue v r p) (hws : Blank ws) :
    TakesValue v r (ws ++ p) where
  nonempty := by simp [h.nonempty]
  closed := fun hv => by
    rw [List.getLast?_append, h.closed hv]
    rfl
  reads := fun fuel r' hfuel hr' => by
    rw [List.length_append] at hfuel
    rw [List.append_assoc, readValue_blank hws]
    exact h.reads fuel r' (by omega) hr'

/-- A value that begins with a unit that is no white space. -/
theorem TakesValue.of_succ {v : Json} (hclosed : v.isRecord = true → (u :: p).getLast? = some 125)
    (h : ∀ fuel r', 2 * p.length ≤ fuel → ((∃ x, v = .num x) → r'.head? = r.head?) →
      readValue (fuel + 1) (u :: (p ++ r')) = some (v, r')) : TakesValue v r (u :: p) where
  nonempty := List.cons_ne_nil u p
  closed := hclosed
  reads := fun fuel r' hfuel hr' => by
    rw [List.length_cons] at hfuel
    cases fuel with
    | zero => omega
    | succ fuel => exact h fuel r' (by omega) hr'

theorem takesValue_obj_nil (hws : Blank ws) (r : JsString) :
    TakesValue (.obj []) r (123 :: (ws ++ [125])) := by
  refine .of_succ (fun _ => by simp [List.getLast?_cons, List.getLast?_append])
    fun fuel r' _ _ => ?_
  rw [readValue, skipSpace_cons (by decide)]
  simp only [if_pos, List.append_assoc, skipSpace_append hws, List.singleton_append,
    skipSpace_cons (show isJsonSpace 125 = false by decide)]

theorem takesValue_obj {fields : Fields} {m : UInt16} (hws : Blank ws)
    (hm : isJsonSpace m = false) (hne : m ≠ 125) (hlast : (m :: p).getLast? = some 125)
    (h : ∀ fuel r', 2 * (m :: p).length ≤ fuel →
      readMembers fuel [] (m :: p ++ r') = some (fields, r')) (r : JsString) :
    TakesValue (.obj fields) r (123 :: (ws ++ m :: p)) := by
  refine .of_succ (fun _ => ?_) fun fuel r' hfuel _ => ?_
  · rw [List.getLast?_cons, List.getLast?_append, hlast]
    rfl
  · rw [List.length_append] at hfuel
    have hread := h fuel r' (by omega)
    rw [readValue, skipSpace_cons (by decide)]
    simp only [if_pos, List.append_assoc, skipSpace_append hws, List.cons_append,
      skipSpace_cons hm, if_neg hne] at hread ⊢
    rw [hread]
    rfl

theorem takesValue_arr_nil (hws : Blank ws) (r : JsString) :
    TakesValue (.arr []) r (91 :: (ws ++ [93])) := by
  refine .of_succ (fun h => by cases h) fun fuel r' _ _ => ?_
  rw [readValue, skipSpace_cons (by decide)]
  simp only [if_neg (show (91 : UInt16) ≠ 123 by decide), if_pos, List.append_assoc,
    skipSpace_append hws, List.singleton_append,
    skipSpace_cons (show isJsonSpace 93 = false by decide)]

theorem takesValue_arr {items : List Json} {m : UInt16} (hws : Blank ws)
    (hm : isJsonSpace m = false) (hne : m ≠ 93)
    (h : ∀ fuel r', 2 * (m :: p).length ≤ fuel →
      readElements fuel (m :: p ++ r') = some (items, r')) (r : JsString) :
    TakesValue (.arr items) r (91 :: (ws ++ m :: p)) := by
  refine .of_succ (fun h => by cases h) fun fuel r' hfuel _ => ?_
  rw [List.length_append] at hfuel
  have hread := h fuel r' (by omega)
  rw [readValue, skipSpace_cons (by decide)]
  simp only [if_neg (show (91 : UInt16) ≠ 123 by decide), if_pos, List.append_assoc,
    skipSpace_append hws, List.cons_append, skipSpace_cons hm, if_neg hne] at hread ⊢
  rw [hread]
  rfl

theorem takesValue_str {s : JsString} (h : ∀ r', readString (p ++ r') = some (s, r'))
    (r : JsString) : TakesValue (.str s) r (quote :: p) := by
  refine .of_succ (fun h => by cases h) fun fuel r' _ _ => ?_
  rw [readValue, skipSpace_cons (by decide)]
  simp only [if_neg (show quote ≠ 123 by decide), if_neg (show quote ≠ 91 by decide), if_pos, h]
  rfl

theorem takesValue_num {v : Json} (hnum : ∃ x, v = .num x) (hne : p ≠ [])
    (h : ∀ r', r'.head? = r.head? → readNumber (p ++ r') = some (v, r')) :
    TakesValue v r p := by
  obtain ⟨u, p, rfl⟩ := List.exists_cons_of_ne_nil hne
  refine .of_succ (fun hrecord => ?_) fun fuel r' _ hr' => ?_
  · obtain ⟨x, rfl⟩ := hnum
    cases hrecord
  · have hread := h r' (hr' hnum)
    rw [List.cons_append] at hread
    obtain ⟨hspace, hother⟩ := ne_of_number (readNumber_head hread)
    simp only [List.forall_mem_cons] at hother
    obtain ⟨hobj, harr, hstr, hnull, htrue, hfalse, -⟩ := hother
    rw [readValue, skipSpace_cons hspace]
    simp only [if_neg hobj, if_neg harr, if_neg hstr, if_neg hnull, if_neg htrue, if_neg hfalse]
    exact hread

/-- One member of an object, with what stands behind its value. -/
theorem readMembers_step {fuel : ℕ} {key ps ws₁ pv ws₂ x : JsString} {v : Json} {c : UInt16}
    (fields : Fields) (hps : ∀ r', readString (ps ++ r') = some (key, r')) (hws₁ : Blank ws₁)
    (hv : readValue fuel (pv ++ (ws₂ ++ c :: x)) = some (v, ws₂ ++ c :: x)) (hws₂ : Blank ws₂)
    (hc : isJsonSpace c = false) :
    readMembers (fuel + 1) fields (quote :: (ps ++ (ws₁ ++ 58 :: (pv ++ (ws₂ ++ c :: x))))) =
      if c = 44 then readMembers fuel (fields.set key v) x
      else if c = 125 then some (fields.set key v, x)
      else none := by
  rw [readMembers, skipSpace_cons (by decide)]
  simp only [if_pos, hps, skipSpace_append hws₁,
    skipSpace_cons (show isJsonSpace 58 = false by decide), hv, skipSpace_append hws₂,
    skipSpace_cons hc]

/-- One element of an array. -/
theorem readElements_step {fuel : ℕ} {pv ws x : JsString} {v : Json} {c : UInt16}
    (hv : readValue fuel (pv ++ (ws ++ c :: x)) = some (v, ws ++ c :: x)) (hws : Blank ws)
    (hc : isJsonSpace c = false) :
    readElements (fuel + 1) (pv ++ (ws ++ c :: x)) =
      if c = 44 then (readElements fuel x).map fun r => (v :: r.1, r.2)
      else if c = 93 then some ([v], x)
      else none := by
  rw [readElements]
  simp only [hv, skipSpace_append hws, skipSpace_cons hc]

theorem takesValue_word {v : Json} (hv : v.isRecord = false)
    (h : ∀ fuel t, readValue (fuel + 1) (u :: t) =
      (readWord (u :: p) (u :: t)).map fun t => (v, t)) (r : JsString) :
    TakesValue v r (u :: p) := by
  refine .of_succ (fun hrecord => ?_) fun fuel r' _ _ => ?_
  · rw [hv] at hrecord
    cases hrecord
  · rw [h, ← List.cons_append, readWord_append]
    rfl

theorem readValue_word (fuel : ℕ) (t : JsString) :
    (readValue (fuel + 1) (110 :: t) = (readWord (js "null") (110 :: t)).map fun t => (.null, t)) ∧
    (readValue (fuel + 1) (116 :: t) =
      (readWord (js "true") (116 :: t)).map fun t => (.bool true, t)) ∧
    readValue (fuel + 1) (102 :: t) =
      (readWord (js "false") (102 :: t)).map fun t => (.bool false, t) := by
  refine ⟨?_, ?_, ?_⟩
  · rw [readValue, skipSpace_cons (by decide)]
    rfl
  · rw [readValue, skipSpace_cons (by decide)]
    rfl
  · rw [readValue, skipSpace_cons (by decide)]
    rfl

mutual

/-- A value is taken off the front. -/
theorem readValue_takes : ∀ (fuel : ℕ) (t : JsString) (v : Json) (r : JsString),
    readValue fuel t = some (v, r) → ∃ p, t = p ++ r ∧ TakesValue v r p
  | 0, t, v, r, h => absurd h (by simp [readValue])
  | fuel + 1, t, v, r, h => by
    obtain ⟨ws, hws, ht⟩ := exists_blank t
    have hlift : (∃ p, skipSpace t = p ++ r ∧ TakesValue v r p) →
        ∃ p, t = p ++ r ∧ TakesValue v r p := by
      rintro ⟨p, hp, htakes⟩
      exact ⟨ws ++ p, by rw [List.append_assoc, ← hp, ← ht], htakes.blank hws⟩
    refine hlift ?_
    rw [readValue] at h
    cases hskip : skipSpace t with
    | nil =>
      rw [hskip] at h
      cases h
    | cons u rest =>
      rw [hskip] at h
      simp only [] at h
      split_ifs at h with hobj harr hstr hnull htrue hfalse
      · subst hobj
        obtain ⟨ws', hws', hrest⟩ := exists_blank rest
        cases hmore : skipSpace rest with
        | nil =>
          rw [hmore] at h
          cases h
        | cons m more =>
          rw [hmore] at h hrest
          simp only [] at h
          split_ifs at h with hclose
          · cases h
            subst hclose
            exact ⟨123 :: (ws' ++ [125]), by rw [hrest]; simp, takesValue_obj_nil hws' _⟩
          · obtain ⟨⟨fields, r'⟩, hread, heq⟩ := Option.map_eq_some_iff.mp h
            cases heq
            obtain ⟨p, hp, hne, hlast, htakes⟩ := readMembers_takes fuel [] _ fields _ hread
            obtain ⟨m', p, rfl⟩ := List.exists_cons_of_ne_nil hne
            obtain ⟨rfl, hp⟩ := List.cons.inj hp
            exact ⟨123 :: (ws' ++ m :: p), by rw [hrest, hp]; simp,
              takesValue_obj hws' (skipSpace_head hmore) hclose hlast htakes _⟩
      · subst harr
        obtain ⟨ws', hws', hrest⟩ := exists_blank rest
        cases hmore : skipSpace rest with
        | nil =>
          rw [hmore] at h
          cases h
        | cons m more =>
          rw [hmore] at h hrest
          simp only [] at h
          split_ifs at h with hclose
          · cases h
            subst hclose
            exact ⟨91 :: (ws' ++ [93]), by rw [hrest]; simp, takesValue_arr_nil hws' _⟩
          · obtain ⟨⟨items, r'⟩, hread, heq⟩ := Option.map_eq_some_iff.mp h
            cases heq
            obtain ⟨p, hp, hne, htakes⟩ := readElements_takes fuel _ items _ hread
            obtain ⟨m', p, rfl⟩ := List.exists_cons_of_ne_nil hne
            obtain ⟨rfl, hp⟩ := List.cons.inj hp
            exact ⟨91 :: (ws' ++ m :: p), by rw [hrest, hp]; simp,
              takesValue_arr hws' (skipSpace_head hmore) hclose htakes _⟩
      · subst hstr
        obtain ⟨⟨s, r'⟩, hread, heq⟩ := Option.map_eq_some_iff.mp h
        cases heq
        obtain ⟨p, hp, -, htakes⟩ := readString_takes rest s _ hread
        exact ⟨quote :: p, by rw [hp]; rfl, takesValue_str (fun r' => (htakes r').1) _⟩
      · subst hnull
        obtain ⟨r', hread, heq⟩ := Option.map_eq_some_iff.mp h
        cases heq
        exact ⟨js "null", readWord_takes hread,
          takesValue_word rfl (fun fuel t => (readValue_word fuel t).1) _⟩
      · subst htrue
        obtain ⟨r', hread, heq⟩ := Option.map_eq_some_iff.mp h
        cases heq
        exact ⟨js "true", readWord_takes hread,
          takesValue_word rfl (fun fuel t => (readValue_word fuel t).2.1) _⟩
      · subst hfalse
        obtain ⟨r', hread, heq⟩ := Option.map_eq_some_iff.mp h
        cases heq
        exact ⟨js "false", readWord_takes hread,
          takesValue_word rfl (fun fuel t => (readValue_word fuel t).2.2) _⟩
      · obtain ⟨hnum, p, hp, hne, -, htakes⟩ := readNumber_takes h
        exact ⟨p, hp, takesValue_num hnum hne htakes⟩

theorem readElements_takes : ∀ (fuel : ℕ) (t : JsString) (items : List Json) (r : JsString),
    readElements fuel t = some (items, r) → ∃ p, t = p ++ r ∧ p ≠ [] ∧
      ∀ fuel r', 2 * p.length ≤ fuel → readElements fuel (p ++ r') = some (items, r')
  | 0, t, items, r, h => absurd h (by simp [readElements])
  | fuel + 1, t, items, r, h => by
    rw [readElements] at h
    split at h
    · cases h
    rename_i v t' hvalue
    obtain ⟨pv, hpv, htakesv⟩ := readValue_takes fuel t v t' hvalue
    obtain ⟨ws, hws, ht'⟩ := exists_blank t'
    cases hskip : skipSpace t' with
    | nil =>
      rw [hskip] at h
      cases h
    | cons c rest =>
      have hc := skipSpace_head hskip
      rw [hskip] at h ht'
      have hreads : ∀ fuel x, 2 * pv.length ≤ fuel →
          readValue fuel (pv ++ (ws ++ c :: x)) = some (v, ws ++ c :: x) :=
        fun fuel x hfuel => htakesv.reads fuel _ hfuel fun _ => by
          rw [ht', head?_blank_cons ws c x rest]
      simp only [] at h
      split_ifs at h with hcomma hclose
      · obtain ⟨⟨items', r'⟩, hread, heq⟩ := Option.map_eq_some_iff.mp h
        cases heq
        obtain ⟨p, hp, -, htakes⟩ := readElements_takes fuel rest items' _ hread
        refine ⟨pv ++ (ws ++ c :: p), by rw [hpv, ht', hp]; simp, by simp, fun fuel x hfuel => ?_⟩
        simp only [List.length_append, List.length_cons] at hfuel
        obtain ⟨fuel, rfl⟩ : ∃ n, fuel = n + 1 := ⟨fuel - 1, by omega⟩
        have hstep := readElements_step (hreads fuel (p ++ x) (by omega)) hws hc
        rw [if_pos hcomma, htakes fuel x (by omega)] at hstep
        simpa using hstep
      · cases h
        refine ⟨pv ++ (ws ++ [c]), by rw [hpv, ht']; simp, by simp, fun fuel x hfuel => ?_⟩
        simp only [List.length_append, List.length_cons] at hfuel
        obtain ⟨fuel, rfl⟩ : ∃ n, fuel = n + 1 := ⟨fuel - 1, by omega⟩
        have hstep := readElements_step (hreads fuel x (by omega)) hws hc
        rw [if_neg hcomma, if_pos hclose] at hstep
        simpa using hstep

theorem readMembers_takes : ∀ (fuel : ℕ) (fields : Fields) (t : JsString) (fields' : Fields)
    (r : JsString), readMembers fuel fields t = some (fields', r) →
      ∃ p, t = p ++ r ∧ p ≠ [] ∧ p.getLast? = some 125 ∧ ∀ fuel r', 2 * p.length ≤ fuel →
        readMembers fuel fields (p ++ r') = some (fields', r')
  | 0, fields, t, fields', r, h => absurd h (by simp [readMembers])
  | fuel + 1, fields, t, fields', r, h => by
    obtain ⟨ws, hws, ht⟩ := exists_blank t
    rw [readMembers] at h
    cases hskip : skipSpace t with
    | nil =>
      rw [hskip] at h
      cases h
    | cons u rest =>
      rw [hskip] at h ht
      simp only [] at h
      split_ifs at h with hquote
      subst hquote
      split at h
      · cases h
      rename_i key t₁ hkey
      obtain ⟨ps, hps, -, htakesk⟩ := readString_takes rest key t₁ hkey
      obtain ⟨ws₁, hws₁, ht₁⟩ := exists_blank t₁
      cases hskip₁ : skipSpace t₁ with
      | nil =>
        rw [hskip₁] at h
        cases h
      | cons u₁ rest₁ =>
        rw [hskip₁] at h ht₁
        simp only [] at h
        split_ifs at h with hcolon
        subst hcolon
        split at h
        · cases h
        rename_i v t₂ hvalue
        obtain ⟨pv, hpv, htakesv⟩ := readValue_takes fuel rest₁ v t₂ hvalue
        obtain ⟨ws₂, hws₂, ht₂⟩ := exists_blank t₂
        cases hskip₂ : skipSpace t₂ with
        | nil =>
          rw [hskip₂] at h
          cases h
        | cons c rest₂ =>
          have hc := skipSpace_head hskip₂
          rw [hskip₂] at h ht₂
          have hstep : ∀ fuel x, 2 * pv.length ≤ fuel → readMembers (fuel + 1) fields
              (quote :: (ps ++ (ws₁ ++ 58 :: (pv ++ (ws₂ ++ c :: x))))) =
                if c = 44 then readMembers fuel (fields.set key v) x
                else if c = 125 then some (fields.set key v, x)
                else none := by
            intro fuel x hfuel
            refine readMembers_step fields (fun r' => (htakesk r').1) hws₁ ?_ hws₂ hc
            refine htakesv.reads fuel _ hfuel fun _ => ?_
            rw [ht₂, head?_blank_cons ws₂ c x rest₂]
          have hfront : t = ws ++ quote :: (ps ++ (ws₁ ++ 58 :: (pv ++ (ws₂ ++ c :: rest₂)))) := by
            rw [← ht₂, ← hpv, ← ht₁, ← hps, ← ht]
          simp only [] at h
          split_ifs at h with hcomma hclose
          · obtain ⟨p, hp, -, hlast, htakes⟩ := readMembers_takes fuel _ rest₂ fields' r h
            refine ⟨ws ++ quote :: (ps ++ (ws₁ ++ 58 :: (pv ++ (ws₂ ++ c :: p)))),
              by rw [hfront, hp]; simp, by simp, ?_, fun fuel x hfuel => ?_⟩
            · simp [List.getLast?_append, List.getLast?_cons, hlast]
            · simp only [List.length_append, List.length_cons] at hfuel
              obtain ⟨fuel, rfl⟩ : ∃ n, fuel = n + 1 := ⟨fuel - 1, by omega⟩
              have hread := hstep fuel (p ++ x) (by omega)
              rw [if_pos hcomma, htakes fuel x (by omega)] at hread
              rw [List.append_assoc, readMembers_blank hws]
              simpa using hread
          · cases h
            subst hclose
            refine ⟨ws ++ quote :: (ps ++ (ws₁ ++ 58 :: (pv ++ (ws₂ ++ [125])))),
              by rw [hfront]; simp, by simp, ?_, fun fuel x hfuel => ?_⟩
            · simp [List.getLast?_append, List.getLast?_cons]
            · simp only [List.length_append, List.length_cons] at hfuel
              obtain ⟨fuel, rfl⟩ : ∃ n, fuel = n + 1 := ⟨fuel - 1, by omega⟩
              have hread := hstep fuel x (by omega)
              rw [if_neg hcomma, if_pos rfl] at hread
              rw [List.append_assoc, readMembers_blank hws]
              simpa using hread

end

end

end UmansGate.Lib
