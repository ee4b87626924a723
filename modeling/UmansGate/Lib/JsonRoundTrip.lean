/-
UmansGate.Lib.JsonRoundTrip — a value is read back from its own text.

`parse_stringify` holds for a value whose objects have no two properties of
one name (`Distinct`) and whose numbers are read back from their own texts
(`ReadsBack`): an infinity is written as `null`, the zero with a sign
without it. Every value that `JSON.parse` returns is distinct.

The text of a value is followed by what ends it, so a number is read up to a
unit that no number goes on with (`Ends`).
-/
import Mathlib.Data.List.Nodup
import UmansGate.Lib.JsonQuote
import UmansGate.Lib.JsonRead

namespace UmansGate.Lib

/-- The number is what is read from its text. -/
def ReadsBack (x : Float) : Prop := readNumber (numberText x) = some (.num x, [])

namespace Json

/-- No object has two properties of one name. -/
inductive Distinct : Json → Prop where
  | null : Distinct null
  | bool (b : Bool) : Distinct (bool b)
  | num (n : Float) : Distinct (num n)
  | str (s : JsString) : Distinct (str s)
  | arr {items : List Json} (hitems : ∀ v ∈ items, Distinct v) : Distinct (arr items)
  | obj {fields : Fields} (hkeys : fields.keys.Nodup) (hvalues : ∀ e ∈ fields, Distinct e.2) :
      Distinct (obj fields)

/-- Every number of the value satisfies `P`. -/
inductive EachNumber (P : Float → Prop) : Json → Prop where
  | null : EachNumber P null
  | bool (b : Bool) : EachNumber P (bool b)
  | num {n : Float} (h : P n) : EachNumber P (num n)
  | str (s : JsString) : EachNumber P (str s)
  | arr {items : List Json} (hitems : ∀ v ∈ items, EachNumber P v) : EachNumber P (arr items)
  | obj {fields : Fields} (hvalues : ∀ e ∈ fields, EachNumber P e.2) : EachNumber P (obj fields)

end Json

section

variable {t R s : JsString} {u : UInt16} {fuel : ℕ}

/-! ## Numbers -/

theorem Ends.not_digit (h : Ends R) : ∀ u ∈ R.head?, isDigit u = false := by
  intro u hu
  rcases h u hu with rfl | rfl | rfl
  · rfl
  · rfl
  · rfl

theorem takeWhile_isDigit_append (hR : Ends R) (t : JsString) :
    (t ++ R).takeWhile isDigit = t.takeWhile isDigit := by
  induction t with
  | nil =>
    cases R with
    | nil => rfl
    | cons u R =>
      have hu : isDigit u = false := hR.not_digit u rfl
      simp [hu]
  | cons u t ih =>
    rw [List.cons_append, List.takeWhile_cons, List.takeWhile_cons, ih]

theorem dropWhile_isDigit_append (hR : Ends R) (t : JsString) :
    (t ++ R).dropWhile isDigit = t.dropWhile isDigit ++ R := by
  induction t with
  | nil =>
    cases R with
    | nil => rfl
    | cons u R =>
      have hu : isDigit u = false := hR.not_digit u rfl
      simp [hu]
  | cons u t ih =>
    rw [List.cons_append, List.dropWhile_cons, List.dropWhile_cons, ih]
    split
    · rfl
    · rfl

/-- A reader that stops where the text ends leaves what follows alone. -/
def keepTail {α : Type} (R : JsString) (r : α × JsString) : α × JsString := (r.1, r.2 ++ R)

theorem readFraction_append (hR : Ends R) (t : JsString) :
    readFraction (t ++ R) = (readFraction t).map (keepTail R) := by
  cases t with
  | nil =>
    cases R with
    | nil => rfl
    | cons u R =>
      have hu : u ≠ 46 := by
        rintro rfl
        exact absurd (hR 46 rfl) (by decide)
      show readFraction (u :: R) = some ([], u :: R)
      rw [readFraction, if_neg hu]
  | cons u t =>
    rw [List.cons_append, readFraction, readFraction]
    simp only [takeWhile_isDigit_append hR, dropWhile_isDigit_append hR]
    split
    · split
      · rfl
      · rfl
    · rfl

theorem head?_append_ne (hR : Ends R) (hu : u ∉ ([44, 93, 125] : List UInt16)) (t : JsString) :
    ((t ++ R).head? = some u) = (t.head? = some u) := by
  cases t with
  | nil =>
    rw [List.nil_append, List.head?_nil, eq_iff_iff]
    refine ⟨fun h => absurd ?_ hu, fun h => absurd h (by simp)⟩
    rcases hR u h with rfl | rfl | rfl
    · simp
    · simp
    · simp
  | cons v t => rfl

theorem readExponent_append (hR : Ends R) (t : JsString) :
    readExponent (t ++ R) = (readExponent t).map (keepTail R) := by
  cases t with
  | nil =>
    cases R with
    | nil => rfl
    | cons u R =>
      have hu : ¬ (u = 101 ∨ u = 69) := by
        rintro (rfl | rfl)
        · exact absurd (hR 101 rfl) (by decide)
        · exact absurd (hR 69 rfl) (by decide)
      show readExponent (u :: R) = some (0, u :: R)
      rw [readExponent, if_neg hu]
  | cons u t =>
    rw [List.cons_append, readExponent, readExponent]
    have htail : (if t.head? = some 45 ∨ t.head? = some 43 then (t ++ R).tail else t ++ R) =
        (if t.head? = some 45 ∨ t.head? = some 43 then t.tail else t) ++ R := by
      cases t with
      | nil => simp
      | cons v t =>
        split
        · rfl
        · rfl
    simp only [head?_append_ne hR (show (45 : UInt16) ∉ _ by decide),
      head?_append_ne hR (show (43 : UInt16) ∉ _ by decide), htail, takeWhile_isDigit_append hR,
      dropWhile_isDigit_append hR]
    generalize (if t.head? = some 45 ∨ t.head? = some 43 then t.tail else t) = digits
    split
    · split
      · rfl
      · rfl
    · rfl

theorem readNumber_append (hR : Ends R) (t : JsString) :
    readNumber (t ++ R) = (readNumber t).map (keepTail R) := by
  unfold readNumber
  have htail : (if t.head? = some 45 then (t ++ R).tail else t ++ R) =
      (if t.head? = some 45 then t.tail else t) ++ R := by
    cases t with
    | nil => simp
    | cons v t =>
      split
      · rfl
      · rfl
  simp only [head?_append_ne hR (show (45 : UInt16) ∉ _ by decide), htail,
    takeWhile_isDigit_append hR, dropWhile_isDigit_append hR, readFraction_append hR]
  generalize (if t.head? = some 45 then t.tail else t) = digits
  split
  · rfl
  · cases readFraction (digits.dropWhile isDigit) with
    | none => rfl
    | some r =>
      obtain ⟨fraction, t'⟩ := r
      simp only [Option.map_some, keepTail, readExponent_append hR]
      cases readExponent t' with
      | none => rfl
      | some r => rfl

theorem readNumber_head {r : Json × JsString} (h : readNumber (u :: t) = some r) :
    u = 45 ∨ isDigit u = true := by
  by_cases hminus : u = 45
  · exact .inl hminus
  · cases hdigit : isDigit u with
    | true => exact .inr rfl
    | false =>
      unfold readNumber at h
      simp [hminus, hdigit] at h

theorem skipSpace_cons (h : isJsonSpace u = false) (t : JsString) : skipSpace (u :: t) = u :: t := by
  simp [skipSpace, h]

/-- What a number starts with is no space and starts nothing else. -/
theorem ne_of_number (h : u = 45 ∨ isDigit u = true) : isJsonSpace u = false ∧
    ∀ v ∈ ([123, 91, quote, 110, 116, 102] : List UInt16), u ≠ v := by
  have hother : ∀ v ∈ ([32, 9, 10, 13, 123, 91, quote, 110, 116, 102] : List UInt16), u ≠ v := by
    have hnot : ∀ v ∈ ([32, 9, 10, 13, 123, 91, quote, 110, 116, 102] : List UInt16),
        ¬ (v = 45 ∨ isDigit v = true) :=
      List.all_iff_forall_prop.mp (by decide)
    rintro v hv rfl
    exact hnot u hv h
  simp only [List.forall_mem_cons] at hother
  obtain ⟨h32, h9, h10, h13, hrest⟩ := hother
  refine ⟨by simp [isJsonSpace, h32, h9, h10, h13], ?_⟩
  simpa only [List.forall_mem_cons] using hrest

theorem numberText_cons {x : Float} (hx : ReadsBack x) :
    ∃ u t, numberText x = u :: t ∧ (u = 45 ∨ isDigit u = true) := by
  unfold ReadsBack at hx
  cases htext : numberText x with
  | nil =>
    rw [htext] at hx
    exact absurd hx (by simp [readNumber])
  | cons u t =>
    rw [htext] at hx
    exact ⟨u, t, rfl, readNumber_head hx⟩

theorem readValue_numberText {x : Float} (hx : ReadsBack x) (hR : Ends R) (fuel : ℕ) :
    readValue (fuel + 1) (numberText x ++ R) = some (.num x, R) := by
  have hread : readNumber (numberText x ++ R) = some (.num x, R) := by
    rw [readNumber_append hR, hx]
    rfl
  obtain ⟨u, t, htext, hu⟩ := numberText_cons hx
  obtain ⟨hspace, hne⟩ := ne_of_number hu
  simp only [List.forall_mem_cons] at hne
  obtain ⟨hobj, harr, hstr, hnull, htrue, hfalse, -⟩ := hne
  rw [htext, List.cons_append] at hread ⊢
  rw [readValue, skipSpace_cons hspace]
  simp only [if_neg hobj, if_neg harr, if_neg hstr, if_neg hnull, if_neg htrue, if_neg hfalse]
  exact hread

/-! ## Strings -/

@[simp] theorem readString_quote (X : JsString) : readString (quote :: X) = some ([], X) := by
  rw [readString.eq_def]
  simp only [if_pos]

theorem readString_plain (hquote : u ≠ quote) (hlow : ¬ u < 32) (hback : u ≠ backslash)
    (X : JsString) : readString (u :: X) = (readString X).map fun r => (u :: r.1, r.2) := by
  rw [readString.eq_def]
  simp only [if_neg hquote, if_neg hlow, if_neg hback]

theorem readString_letter {c v : UInt16} (hc : c ≠ 117) (hv : escapedUnit c = some v)
    (X : JsString) :
    readString (backslash :: c :: X) = (readString X).map fun r => (v :: r.1, r.2) := by
  rw [readString.eq_def]
  simp only [if_neg (show backslash ≠ quote by decide), if_neg (show ¬ backslash < 32 by decide),
    if_pos, if_neg hc, hv, Option.bind_some]

theorem readHex_hexDigits : ∀ a < 16, ∀ b < 16, ∀ c < 16, ∀ d < 16,
    readHex [hexDigit a, hexDigit b, hexDigit c, hexDigit d] =
      some (a * 4096 + b * 256 + c * 16 + d).toUInt16 := by
  have hvalue : ∀ n < 16, hexDigitValue (hexDigit n) = some n := by decide
  intro a ha b hb c hc d hd
  simp only [readHex, List.foldl_cons, List.foldl_nil, Option.bind_some, hvalue a ha, hvalue b hb,
    hvalue c hc, hvalue d hd, Option.map_some]
  congr 2
  omega

theorem readString_unicodeEscape (u : UInt16) (X : JsString) :
    readString (unicodeEscape u ++ X) = (readString X).map fun r => (u :: r.1, r.2) := by
  have htext : unicodeEscape u ++ X =
      backslash :: 117 :: hexDigit (u.toNat / 2 ^ 12 % 16) :: hexDigit (u.toNat / 2 ^ 8 % 16) ::
        hexDigit (u.toNat / 2 ^ 4 % 16) :: hexDigit (u.toNat / 2 ^ 0 % 16) :: X := rfl
  have hlt : ∀ n, n % 16 < 16 := fun n => Nat.mod_lt n (by decide)
  rw [htext, readString, if_neg (by decide), if_neg (by decide), if_pos rfl, if_pos rfl]
  simp only [readHex_hexDigits _ (hlt _) _ (hlt _) _ (hlt _) _ (hlt _), toUInt16_hexDigits,
    Option.bind_some]

theorem readString_escapeUnit (u : UInt16) (X : JsString) :
    readString (escapeUnit u ++ X) = (readString X).map fun r => (u :: r.1, r.2) := by
  unfold escapeUnit
  split_ifs with h8 h9 h10 h12 h13 hquote hback hcontrol
  · rw [h8]
    exact readString_letter (by decide) rfl X
  · rw [h9]
    exact readString_letter (by decide) rfl X
  · rw [h10]
    exact readString_letter (by decide) rfl X
  · rw [h12]
    exact readString_letter (by decide) rfl X
  · rw [h13]
    exact readString_letter (by decide) rfl X
  · rw [hquote]
    exact readString_letter (by decide) rfl X
  · rw [hback]
    exact readString_letter (by decide) rfl X
  · exact readString_unicodeEscape u X
  · rw [not_or] at hcontrol
    exact readString_plain hquote hcontrol.1 hback X

theorem surrogate_not_lt (h : isHighSurrogate u = true ∨ isLowSurrogate u = true) : ¬ u < 32 := by
  unfold isHighSurrogate isLowSurrogate at h
  simp only [Bool.and_eq_true, decide_eq_true_eq] at h
  rw [UInt16.lt_iff_toNat_lt]
  rw [UInt16.le_iff_toNat_le, UInt16.le_iff_toNat_le] at h
  have h32 : (32 : UInt16).toNat = 32 := rfl
  have hhigh : (0xD800 : UInt16).toNat = 0xD800 := rfl
  have hlow : (0xDC00 : UInt16).toNat = 0xDC00 := rfl
  rcases h with h | h
  · omega
  · omega

/-- A string is read back up to its closing quote. -/
theorem readString_escape (s R : JsString) : readString (escape s ++ quote :: R) = some (s, R) := by
  fun_induction escape s with
  | case1 => simp
  | case2 u => simp [readString_escapeUnit]
  | case3 u v rest hpair ih =>
    obtain ⟨hu, hv⟩ := Bool.and_eq_true_iff.mp hpair
    rw [List.cons_append, List.cons_append,
      readString_plain (surrogate_ne (.inl hu)).1 (surrogate_not_lt (.inl hu))
        (surrogate_ne_backslash (.inl hu)),
      readString_plain (surrogate_ne (.inr hv)).1 (surrogate_not_lt (.inr hv))
        (surrogate_ne_backslash (.inr hv)), ih]
    rfl
  | case4 u v rest hpair ih =>
    rw [List.append_assoc, readString_escapeUnit, ih]
    rfl

/-! ## Values -/

/-- What follows an element of an array. -/
def itemTail : List Json → JsString → JsString
  | [], R => js "]" ++ R
  | item :: rest, R => js "," ++ (itemsText (item :: rest) ++ (js "]" ++ R))

theorem itemsText_itemTail (v : Json) (rest : List Json) (R : JsString) :
    itemsText (v :: rest) ++ (js "]" ++ R) = stringify v ++ itemTail rest R := by
  rw [itemsText_cons]
  cases rest with
  | nil => rfl
  | cons item rest => rfl

/-- The text of a value starts with no space and no closing bracket. -/
theorem stringify_cons {v : Json} (h : v.EachNumber ReadsBack) :
    ∃ u t, stringify v = u :: t ∧ isJsonSpace u = false ∧ u ≠ 93 := by
  cases h with
  | null => exact ⟨110, _, rfl, rfl, by decide⟩
  | bool b =>
    cases b with
    | false => exact ⟨102, _, rfl, rfl, by decide⟩
    | true => exact ⟨116, _, rfl, rfl, by decide⟩
  | num hx =>
    obtain ⟨u, t, htext, hu⟩ := numberText_cons hx
    have hother : ∀ v ∈ ([93] : List UInt16), ¬ (v = 45 ∨ isDigit v = true) :=
      List.all_iff_forall_prop.mp (by decide)
    refine ⟨u, t, htext, (ne_of_number hu).1, ?_⟩
    rintro rfl
    exact hother 93 (by simp) hu
  | str s => exact ⟨quote, _, rfl, rfl, by decide⟩
  | arr hitems => exact ⟨91, _, rfl, rfl, by decide⟩
  | obj hvalues => exact ⟨123, _, rfl, rfl, by decide⟩

theorem fieldsText_text (key : JsString) (v : Json) (rest : List (JsString × Json)) (R : JsString) :
    fieldsText ((key, v) :: rest) ++ (js "\x7d" ++ R) =
      quote :: (escape key ++ quote :: (58 :: (stringify v ++ fieldTail rest R))) := by
  rw [fieldsText_cons]
  simp [quoteString]
  rfl

theorem length_fieldsText (key : JsString) (v : Json) (rest : List (JsString × Json)) :
    (stringify v).length + (fieldsText rest).length < (fieldsText ((key, v) :: rest)).length := by
  cases rest with
  | nil =>
    simp [fieldsText, quoteString]
    omega
  | cons field rest =>
    simp [fieldsText, quoteString]
    omega

theorem readWord_append (w t : JsString) : readWord w (w ++ t) = some t := by
  simp [readWord]

mutual

theorem readValue_stringify : ∀ (v : Json) (fuel : ℕ) (R : JsString), v.Distinct →
    v.EachNumber ReadsBack → 2 * (stringify v).length ≤ fuel → Ends R →
      readValue fuel (stringify v ++ R) = some (v, R)
  | v, 0, R, _, hnum, hfuel, _ => by
    obtain ⟨u, t, htext, -, -⟩ := stringify_cons hnum
    rw [htext, List.length_cons] at hfuel
    omega
  | .null, fuel + 1, R, _, _, _, _ => by
    have htext : skipSpace (stringify .null ++ R) = 110 :: ([117, 108, 108] ++ R) := rfl
    rw [readValue, htext]
    show (readWord (js "null") (js "null" ++ R)).map _ = _
    rw [readWord_append]
    rfl
  | .bool true, fuel + 1, R, _, _, _, _ => by
    have htext : skipSpace (stringify (.bool true) ++ R) = 116 :: ([114, 117, 101] ++ R) := rfl
    rw [readValue, htext]
    show (readWord (js "true") (js "true" ++ R)).map _ = _
    rw [readWord_append]
    rfl
  | .bool false, fuel + 1, R, _, _, _, _ => by
    have htext : skipSpace (stringify (.bool false) ++ R) = 102 :: ([97, 108, 115, 101] ++ R) := rfl
    rw [readValue, htext]
    show (readWord (js "false") (js "false" ++ R)).map _ = _
    rw [readWord_append]
    rfl
  | .num n, fuel + 1, R, _, .num hx, _, hR => readValue_numberText hx hR fuel
  | .str s, fuel + 1, R, _, _, _, _ => by
    have htext : stringify (.str s) ++ R = quote :: (escape s ++ quote :: R) := by
      simp [stringify, quoteString]
    rw [htext, readValue, skipSpace_cons rfl]
    show (readString (escape s ++ quote :: R)).map _ = _
    rw [readString_escape]
    rfl
  | .arr [], fuel + 1, R, _, _, _, _ => rfl
  | .arr (v :: rest), fuel + 1, R, .arr hdist, .arr hnum, hfuel, _ => by
    have htext : stringify (.arr (v :: rest)) ++ R =
        91 :: (itemsText (v :: rest) ++ (js "]" ++ R)) := by
      simp [stringify]
      rfl
    have helements := readElements_itemsText (v :: rest) fuel R (List.cons_ne_nil v rest) hdist hnum
      (by
        have hlength := congrArg List.length htext
        simp at hlength
        omega)
    obtain ⟨u, t, hfirst, hspace, hbracket⟩ := stringify_cons (hnum v List.mem_cons_self)
    rw [htext, readValue, skipSpace_cons rfl]
    rw [itemsText_itemTail, hfirst, List.cons_append] at helements ⊢
    show (match skipSpace (u :: (t ++ itemTail rest R)) with
      | [] => none
      | v :: more => _) = _
    rw [skipSpace_cons hspace]
    simp only [if_neg hbracket, helements]
    rfl
  | .obj [], fuel + 1, R, _, _, _, _ => rfl
  | .obj ((key, v) :: rest), fuel + 1, R, .obj hkeys hdist, .obj hnum, hfuel, _ => by
    have htext : stringify (.obj ((key, v) :: rest)) ++ R =
        123 :: (fieldsText ((key, v) :: rest) ++ (js "\x7d" ++ R)) := by
      simp [stringify]
      rfl
    have hmembers := readMembers_fieldsText ((key, v) :: rest) fuel [] R (List.cons_ne_nil _ _) hkeys
      hdist hnum (by
        have hlength := congrArg List.length htext
        simp at hlength
        omega)
    rw [htext, readValue, skipSpace_cons rfl]
    rw [fieldsText_text] at hmembers ⊢
    show (readMembers fuel [] _).map _ = _
    rw [hmembers]
    rfl

theorem readElements_itemsText : ∀ (items : List Json) (fuel : ℕ) (R : JsString), items ≠ [] →
    (∀ v ∈ items, v.Distinct) → (∀ v ∈ items, v.EachNumber ReadsBack) →
      2 * (itemsText items).length + 1 ≤ fuel →
        readElements fuel (itemsText items ++ (js "]" ++ R)) = some (items, R)
  | [], _, _, hne, _, _, _ => absurd rfl hne
  | v :: rest, 0, R, _, hdist, hnum, hfuel => by omega
  | [v], fuel + 1, R, _, hdist, hnum, hfuel => by
    have hvalue := readValue_stringify v fuel (js "]" ++ R) (hdist v (by simp)) (hnum v (by simp))
      (by simpa [itemsText] using hfuel) (ends_bracket R)
    rw [itemsText, readElements, hvalue]
    rfl
  | v :: item :: rest, fuel + 1, R, _, hdist, hnum, hfuel => by
    rw [List.forall_mem_cons] at hdist hnum
    simp only [itemsText, List.length_append] at hfuel
    have hcomma : (js ",").length = 1 := rfl
    have hvalue := readValue_stringify v fuel (js "," ++ (itemsText (item :: rest) ++ (js "]" ++ R)))
      hdist.1 hnum.1 (by omega) (ends_comma _)
    have hrest := readElements_itemsText (item :: rest) fuel R (List.cons_ne_nil _ _) hdist.2 hnum.2
      (by omega)
    rw [itemsText_itemTail, itemTail, readElements, hvalue]
    show (readElements fuel (itemsText (item :: rest) ++ (js "]" ++ R))).map _ = _
    rw [hrest]
    rfl

theorem readMembers_fieldsText : ∀ (rest : List (JsString × Json)) (fuel : ℕ) (fields : Fields)
    (R : JsString), rest ≠ [] → (Dict.keys (fields ++ rest)).Nodup → (∀ e ∈ rest, e.2.Distinct) →
      (∀ e ∈ rest, e.2.EachNumber ReadsBack) → 2 * (fieldsText rest).length + 1 ≤ fuel →
        readMembers fuel fields (fieldsText rest ++ (js "\x7d" ++ R)) = some (fields ++ rest, R)
  | [], _, _, _, hne, _, _, _, _ => absurd rfl hne
  | field :: rest, 0, fields, R, _, _, _, _, hfuel => by omega
  | (key, v) :: rest, fuel + 1, fields, R, _, hkeys, hdist, hnum, hfuel => by
    rw [List.forall_mem_cons] at hdist hnum
    have hlength := length_fieldsText key v rest
    have hvalue := readValue_stringify v fuel (fieldTail rest R) hdist.1 hnum.1 (by omega)
      (ends_fieldTail rest R)
    have hfresh : Dict.get? fields key = none := by
      cases hget : Dict.get? fields key with
      | none => rfl
      | some w =>
        rw [Dict.keys, List.map_append, List.map_cons, List.nodup_append] at hkeys
        have hmem : key ∈ fields.map Prod.fst := List.mem_map_of_mem (Dict.mem_of_get? hget)
        exact absurd rfl (hkeys.2.2 key hmem key List.mem_cons_self)
    have hset : Dict.set fields key v = fields ++ [(key, v)] := Dict.set_eq_append hfresh v
    rw [fieldsText_text, readMembers, skipSpace_cons rfl]
    show (match readString (escape key ++ quote :: (58 :: (stringify v ++ fieldTail rest R))) with
      | none => none
      | some (key, t) => _) = _
    rw [readString_escape]
    show (match readValue fuel (stringify v ++ fieldTail rest R) with
      | none => none
      | some (v, t) => _) = _
    rw [hvalue]
    simp only [hset]
    cases rest with
    | nil => rfl
    | cons field rest =>
      have hrest := readMembers_fieldsText (field :: rest) fuel (fields ++ [(key, v)]) R
        (List.cons_ne_nil _ _) (by simpa using hkeys) hdist.2 hnum.2 (by omega)
      show readMembers fuel (fields ++ [(key, v)])
        (fieldsText (field :: rest) ++ (js "\x7d" ++ R)) = _
      rw [hrest]
      simp

end

/-- A value is read back from its text. -/
theorem parse_stringify {v : Json} (hdist : v.Distinct) (hnum : v.EachNumber ReadsBack) :
    Json.parse (stringify v) = some v := by
  have hread := readValue_stringify v (2 * (stringify v).length + 2) [] hdist hnum (by omega)
    (fun u hu => absurd hu (by simp))
  rw [List.append_nil] at hread
  rw [Json.parse, hread]
  rfl

/-! ## Distinct values -/

namespace Json.Distinct

variable {v w : Json} {key : JsString} {fields : Fields}

theorem values (h : (Json.obj fields).Distinct) : ∀ e ∈ fields, e.2.Distinct := by
  cases h with
  | obj hkeys hvalues => exact hvalues

theorem items {items : List Json} (h : (Json.arr items).Distinct) : ∀ w ∈ items, w.Distinct := by
  cases h with
  | arr hitems => exact hitems

theorem get? (h : v.Distinct) (hget : v.get? key = some w) : w.Distinct := by
  cases v with
  | obj fields => exact h.values (key, w) (Dict.mem_of_get? hget)
  | _ => exact absurd hget (by simp [Json.get?])

theorem items? {items : List Json} (h : v.Distinct) (hitems : v.items? key = some items) :
    ∀ w ∈ items, w.Distinct :=
  (h.get? (Json.items?_eq_some.mp hitems)).items

theorem set (h : v.Distinct) (hw : w.Distinct) (key : JsString) : (v.set key w).Distinct := by
  cases h with
  | obj hkeys hvalues =>
    refine .obj (Dict.nodup_keys_set hkeys key w) fun e he => ?_
    rcases Dict.mem_set he with rfl | hold
    · exact hw
    · exact hvalues e hold
  | arr hitems => exact .arr hitems
  | null => exact .null
  | bool b => exact .bool b
  | num n => exact .num n
  | str s => exact .str s

theorem remove (h : v.Distinct) (key : JsString) : (v.remove key).Distinct := by
  cases h with
  | obj hkeys hvalues =>
    exact .obj (List.Nodup.sublist (List.Sublist.map Prod.fst List.filter_sublist) hkeys)
      fun e he => hvalues e (List.mem_of_mem_filter he)
  | arr hitems => exact .arr hitems
  | null => exact .null
  | bool b => exact .bool b
  | num n => exact .num n
  | str s => exact .str s

theorem mapItems {f : List Json → List Json} (h : v.Distinct)
    (hf : ∀ items, (∀ w ∈ items, w.Distinct) → ∀ w ∈ f items, w.Distinct) (key : JsString) :
    (v.mapItems key f).Distinct := by
  cases hitems : v.items? key with
  | none => rwa [Json.mapItems_of_none hitems]
  | some items =>
    rw [Json.mapItems_of_items? hitems]
    exact h.set (.arr (hf items (h.items? hitems))) key

theorem assign (h : v.Distinct) (hw : w.Distinct) (key : JsString) : (v.assign key w).Distinct := by
  unfold Json.assign
  split
  · exact h
  · exact h.set hw key

theorem assignAll (entries : Fields) : ∀ v : Json, v.Distinct → (∀ e ∈ entries, e.2.Distinct) →
    (v.assignAll entries).Distinct := by
  induction entries with
  | nil =>
    intro v h _
    exact h
  | cons e entries ih =>
    intro v h hentries
    rw [List.forall_mem_cons] at hentries
    exact ih _ (h.assign hentries.1 e.1) hentries.2

/-- The names of the indices are distinct. -/
theorem mapIdx {α : Type} {xs : List α} (f : α → Json) (hf : ∀ a ∈ xs, (f a).Distinct) :
    (Json.obj (xs.mapIdx fun i a => (indexKey i, f a))).Distinct := by
  refine .obj ?_ fun e he => ?_
  · have hkeys : Dict.keys (xs.mapIdx fun i a => (indexKey i, f a)) =
        (List.range xs.length).map indexKey :=
      List.ext_getElem (by simp [Dict.keys]) fun i _ _ => by simp [Dict.keys]
    rw [hkeys]
    exact List.Nodup.map indexKey_injective List.nodup_range
  · obtain ⟨i, hi, rfl⟩ := List.mem_mapIdx.mp he
    exact hf _ (List.getElem_mem hi)

theorem spread (h : v.Distinct) : (Json.obj v.spread).Distinct := by
  cases h with
  | obj hkeys hvalues => exact .obj hkeys hvalues
  | arr hitems => exact mapIdx _ hitems
  | str s => exact mapIdx _ fun u _ => .str [u]
  | _ => exact .obj List.nodup_nil fun e he => absurd he List.not_mem_nil

end Json.Distinct

/-! ## Values that were read -/

theorem distinct_readNumber {v : Json} {r : JsString} (h : readNumber t = some (v, r)) :
    v.Distinct := by
  unfold readNumber at h
  simp only [] at h
  generalize (if t.head? = some 45 then t.tail else t) = digits at h
  split at h
  · exact absurd h (by simp)
  · split at h
    · exact absurd h (by simp)
    · split at h
      · exact absurd h (by simp)
      · cases h
        exact .num _

mutual

theorem distinct_readValue : ∀ (fuel : ℕ) (t : JsString) (v : Json) (r : JsString),
    readValue fuel t = some (v, r) → v.Distinct
  | 0, t, v, r, h => absurd h (by simp [readValue])
  | fuel + 1, t, v, r, h => by
    rw [readValue] at h
    split at h
    · exact absurd h (by simp)
    · split_ifs at h
      · split at h
        · exact absurd h (by simp)
        · split_ifs at h
          · cases h
            exact .obj List.nodup_nil (by simp)
          · obtain ⟨⟨fields, r'⟩, hread, heq⟩ := Option.map_eq_some_iff.mp h
            cases heq
            exact distinct_readMembers fuel [] _ fields _ (.obj List.nodup_nil (by simp)) hread
      · split at h
        · exact absurd h (by simp)
        · split_ifs at h
          · cases h
            exact .arr (by simp)
          · obtain ⟨⟨items, r'⟩, hread, heq⟩ := Option.map_eq_some_iff.mp h
            cases heq
            exact .arr (distinct_readElements fuel _ items _ hread)
      · obtain ⟨s, -, heq⟩ := Option.map_eq_some_iff.mp h
        cases heq
        exact .str _
      · obtain ⟨s, -, heq⟩ := Option.map_eq_some_iff.mp h
        cases heq
        exact .null
      · obtain ⟨s, -, heq⟩ := Option.map_eq_some_iff.mp h
        cases heq
        exact .bool true
      · obtain ⟨s, -, heq⟩ := Option.map_eq_some_iff.mp h
        cases heq
        exact .bool false
      · exact distinct_readNumber h

theorem distinct_readElements : ∀ (fuel : ℕ) (t : JsString) (items : List Json) (r : JsString),
    readElements fuel t = some (items, r) → ∀ v ∈ items, v.Distinct
  | 0, t, items, r, h => absurd h (by simp [readElements])
  | fuel + 1, t, items, r, h => by
    rw [readElements] at h
    split at h
    · exact absurd h (by simp)
    · rename_i v t' hvalue
      have hv := distinct_readValue fuel _ v t' hvalue
      split at h
      · exact absurd h (by simp)
      · split_ifs at h
        · obtain ⟨⟨rest, r'⟩, hread, heq⟩ := Option.map_eq_some_iff.mp h
          cases heq
          have hrest := distinct_readElements fuel _ rest _ hread
          exact List.forall_mem_cons.mpr ⟨hv, hrest⟩
        · cases h
          exact List.forall_mem_singleton.mpr hv

theorem distinct_readMembers : ∀ (fuel : ℕ) (fields : Fields) (t : JsString) (fields' : Fields)
    (r : JsString), (Json.obj fields).Distinct → readMembers fuel fields t = some (fields', r) →
      (Json.obj fields').Distinct
  | 0, fields, t, fields', r, _, h => absurd h (by simp [readMembers])
  | fuel + 1, fields, t, fields', r, hfields, h => by
    rw [readMembers] at h
    split at h
    · exact absurd h (by simp)
    · split_ifs at h
      split at h
      · exact absurd h (by simp)
      · split at h
        · exact absurd h (by simp)
        · split_ifs at h
          split at h
          · exact absurd h (by simp)
          · rename_i v t' hvalue
            have hv := distinct_readValue fuel _ v t' hvalue
            split at h
            · exact absurd h (by simp)
            · split_ifs at h
              · exact distinct_readMembers fuel _ _ fields' r (hfields.set hv _) h
              · cases h
                exact hfields.set hv _

end

/-- `JSON.parse` returns no object with two properties of one name. -/
theorem distinct_of_parse {v : Json} (h : Json.parse t = some v) : v.Distinct := by
  unfold Json.parse at h
  split at h
  · rename_i w rest hread
    split_ifs at h
    cases h
    exact distinct_readValue _ _ _ _ hread
  · exact absurd h (by simp)

end

end UmansGate.Lib
