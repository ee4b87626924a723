/-
UmansGate.Lib.JsonScan — searching a JSON text for a quoted word.

A search for `"key"` and a continuation `follow` runs over the text of a
value, not over the value. It finds the properties named `key`, and those
whose name ends in a quote and `key`, since the quote of the name stands in
the text behind a backslash (`search_stringify`). The strings that are no
names are never found: what follows them ends or goes on with a comma.
-/
import Mathlib.Data.Bool.AllAny
import UmansGate.Lib.JsonText

namespace UmansGate.Lib

/-- Letters and the underscore, which stand for themselves in a string. -/
def wordUnits : JsString := js "abcdefghijklmnopqrstuvwxyz_"

def IsWord (w : JsString) : Prop := w ≠ [] ∧ ∀ u ∈ w, u ∈ wordUnits

instance (w : JsString) : Decidable (IsWord w) :=
  haveI := List.decidableBAll (· ∈ wordUnits) w
  inferInstanceAs (Decidable (_ ∧ _))

/-- The text begins with the word in quotes. -/
def startsWithQuoted (w text : JsString) : Bool := (quote :: w ++ [quote]).isPrefixOf text

/-- Somewhere in the text the word stands in quotes and is followed by what
`follow` accepts. -/
def search (w : JsString) (follow : JsString → Bool) (text : JsString) : Bool :=
  text.tails.any fun t => startsWithQuoted w t && follow (t.drop (w.length + 2))

/-- A string whose text ends with the word in quotes. -/
def looksLike (w s : JsString) : Bool := s = w || (quote :: w).isSuffixOf s

mutual

/-- Somewhere in the value a property looks like the word, and `test`
accepts its value and the properties behind it. -/
def hasField (w : JsString) (test : Json → List (JsString × Json) → Bool) : Json → Bool
  | .arr items => itemsHaveField w test items
  | .obj fields => fieldsHaveField w test fields
  | .null | .bool _ | .num _ | .str _ => false

def itemsHaveField (w : JsString) (test : Json → List (JsString × Json) → Bool) :
    List Json → Bool
  | [] => false
  | v :: rest => hasField w test v || itemsHaveField w test rest

def fieldsHaveField (w : JsString) (test : Json → List (JsString × Json) → Bool) :
    List (JsString × Json) → Bool
  | [] => false
  | (key, v) :: rest =>
    looksLike w key && test v rest || hasField w test v || fieldsHaveField w test rest

end

/-- What can stand behind a value. -/
def Ends (text : JsString) : Prop := ∀ u ∈ text.head?, u = 44 ∨ u = 93 ∨ u = 125

section

variable {w s t R : JsString} {u : UInt16} {follow : JsString → Bool}

/-! ## Strings -/

theorem escapeUnit_word : ∀ u ∈ wordUnits, escapeUnit u = [u] ∧ isHighSurrogate u = false ∧
    u ≠ quote ∧ u ≠ backslash :=
  List.all_iff_forall_prop.mp (by decide)

theorem hexDigit_ne_quote : ∀ n < 16, hexDigit n ≠ quote := by
  decide

theorem escapeUnit_control : ∀ u ∈ ([8, 9, 10, 12, 13, backslash] : List UInt16),
    u ∉ wordUnits ∧ ∃ rest, escapeUnit u = backslash :: rest ∧ ∀ v ∈ rest, v ≠ quote := by
  intro u hu
  have hhead : ∀ u ∈ ([8, 9, 10, 12, 13, backslash] : List UInt16), u ∉ wordUnits ∧
      (escapeUnit u).head? = some backslash ∧
      ((escapeUnit u).tail.all fun v => v ≠ quote) = true :=
    List.all_iff_forall_prop.mp (by decide)
  obtain ⟨hword, hback, hrest⟩ := hhead u hu
  obtain ⟨rest, heq⟩ := List.head?_eq_some_iff.mp hback
  rw [heq] at hrest
  exact ⟨hword, rest, heq, List.all_iff_forall_prop.mp hrest⟩

theorem unicodeEscape_eq (u : UInt16) :
    ∃ rest, unicodeEscape u = backslash :: rest ∧ ∀ v ∈ rest, v ≠ quote := by
  refine ⟨117 :: [12, 8, 4, 0].map fun shift => hexDigit (u.toNat / 2 ^ shift % 16), rfl, ?_⟩
  intro v hv
  rcases List.mem_cons.mp hv with rfl | hv
  · decide
  · obtain ⟨shift, _, rfl⟩ := List.mem_map.mp hv
    exact hexDigit_ne_quote _ (Nat.mod_lt _ (by decide))

/-- A unit that is no quote stands for itself, or is escaped with a
backslash in front. -/
theorem escapeUnit_cases (hquote : u ≠ quote) :
    escapeUnit u = [u] ∨
      u ∉ wordUnits ∧ ∃ rest, escapeUnit u = backslash :: rest ∧ ∀ v ∈ rest, v ≠ quote := by
  by_cases hcontrol : u ∈ ([8, 9, 10, 12, 13, backslash] : List UInt16)
  · exact .inr (escapeUnit_control u hcontrol)
  · by_cases hword : u ∈ wordUnits
    · exact .inl (escapeUnit_word u hword).1
    · simp only [List.mem_cons, List.not_mem_nil, or_false, not_or] at hcontrol
      obtain ⟨h8, h9, h10, h12, h13, hback⟩ := hcontrol
      unfold escapeUnit
      rw [if_neg h8, if_neg h9, if_neg h10, if_neg h12, if_neg h13, if_neg hquote, if_neg hback]
      split
      · exact .inr ⟨hword, unicodeEscape_eq u⟩
      · exact .inl rfl

theorem surrogate_ne (h : isHighSurrogate u = true ∨ isLowSurrogate u = true) :
    u ≠ quote ∧ u ∉ wordUnits := by
  have hlit : ∀ v ∈ quote :: wordUnits, isHighSurrogate v = false ∧ isLowSurrogate v = false :=
    List.all_iff_forall_prop.mp (by decide)
  have hnot : u ∉ quote :: wordUnits := by
    intro hmem
    rcases h with h | h
    · exact absurd ((hlit u hmem).1.symm.trans h) (by simp)
    · exact absurd ((hlit u hmem).2.symm.trans h) (by simp)
  exact ⟨fun heq => hnot (heq ▸ List.mem_cons_self), fun hmem => hnot (List.mem_cons_of_mem _ hmem)⟩

/-- The first unit of a string stands for itself, or the text starts with a
unit that is in no word. -/
theorem escape_head (u : UInt16) (s : JsString) : ∃ h t, escape (u :: s) = h :: t ∧
    (h = u ∧ t = escape s ∧ u ≠ quote ∨ h ≠ quote ∧ h ∉ wordUnits ∧ u ∉ wordUnits) := by
  have hunit : escape (u :: s) = escapeUnit u ++ escape s → ∃ h t, escape (u :: s) = h :: t ∧
      (h = u ∧ t = escape s ∧ u ≠ quote ∨ h ≠ quote ∧ h ∉ wordUnits ∧ u ∉ wordUnits) := by
    intro heq
    rw [heq]
    by_cases hquote : u = quote
    · subst hquote
      exact ⟨backslash, quote :: escape s, rfl, .inr (by decide)⟩
    · rcases escapeUnit_cases hquote with hself | ⟨hword, rest, hback, _⟩
      · exact ⟨u, escape s, by rw [hself]; rfl, .inl ⟨rfl, rfl, hquote⟩⟩
      · have hnot : backslash ≠ quote ∧ backslash ∉ wordUnits := by decide
        exact ⟨backslash, rest ++ escape s, by rw [hback]; rfl, .inr ⟨hnot.1, hnot.2, hword⟩⟩
  cases s with
  | nil => exact hunit (by simp [escape])
  | cons v rest =>
    cases hpair : isHighSurrogate u && isLowSurrogate v with
    | true =>
      obtain ⟨hu, _⟩ := Bool.and_eq_true_iff.mp hpair
      obtain ⟨hquote, hword⟩ := surrogate_ne (.inl hu)
      exact ⟨u, v :: escape rest, by rw [escape, hpair]; rfl, .inr ⟨hquote, hword, hword⟩⟩
    | false => exact hunit (by rw [escape, hpair]; rfl)

/-! ## Words -/

/-- The text of a string begins with the word and a quote when the string is
the word. -/
theorem isPrefixOf_escape (hw : ∀ u ∈ w, u ∈ wordUnits) (s R : JsString) :
    (w ++ [quote]).isPrefixOf (escape s ++ quote :: R) = decide (s = w) := by
  induction w generalizing s with
  | nil =>
    cases s with
    | nil => simp [escape]
    | cons u rest =>
      obtain ⟨h, t, heq, ⟨rfl, _, hne⟩ | ⟨hne, _⟩⟩ := escape_head u rest
      · simp [heq, List.isPrefixOf, Ne.symm hne]
      · simp [heq, List.isPrefixOf, Ne.symm hne]
  | cons c w ih =>
    have hc : c ∈ wordUnits := hw c List.mem_cons_self
    have hcq : c ≠ quote := (escapeUnit_word c hc).2.2.1
    cases s with
    | nil => simp [escape, List.isPrefixOf, hcq]
    | cons u rest =>
      obtain ⟨h, t, heq, ⟨rfl, rfl, _⟩ | ⟨_, hword, huword⟩⟩ := escape_head u rest
      · have htail := ih (fun u hu => hw u (List.mem_cons_of_mem c hu)) rest
        rw [heq, List.cons_append, List.cons_append, List.isPrefixOf, htail]
        by_cases hch : c = h
        · simp [hch]
        · simp [hch, Ne.symm hch]
      · have hch : c ≠ h := fun hch => hword (hch ▸ hc)
        have hcu : u ≠ c := fun hcu => huword (hcu ▸ hc)
        simp [heq, List.isPrefixOf, hch, hcu]

theorem escape_word (hw : ∀ u ∈ w, u ∈ wordUnits) : escape w = w := by
  induction w with
  | nil => rfl
  | cons c w ih =>
    obtain ⟨h, t, heq, ⟨rfl, rfl, _⟩ | ⟨_, _, hword⟩⟩ := escape_head c w
    · rw [heq, ih fun u hu => hw u (List.mem_cons_of_mem h hu)]
    · exact absurd (hw c List.mem_cons_self) hword

/-- The quoted word at the front of a string's text, with what follows. -/
theorem startsWithQuoted_escape (follow : JsString → Bool) (hw : ∀ u ∈ w, u ∈ wordUnits)
    (s R : JsString) :
    (startsWithQuoted w (quote :: escape s ++ quote :: R) &&
        follow ((quote :: escape s ++ quote :: R).drop (w.length + 2))) =
      (decide (s = w) && follow R) := by
  have hstarts : startsWithQuoted w (quote :: escape s ++ quote :: R) = decide (s = w) := by
    rw [← isPrefixOf_escape hw s R]
    simp [startsWithQuoted]
  rw [hstarts]
  by_cases hs : s = w
  · subst hs
    rw [escape_word hw, List.cons_append, List.drop_succ_cons, List.drop_append,
      List.drop_eq_nil_of_le (Nat.le_succ _), List.nil_append]
    simp
  · simp [hs]

/-! ## The search over a text -/

@[simp] theorem search_nil (w : JsString) (follow : JsString → Bool) : search w follow [] = false := by
  simp [search, startsWithQuoted]

theorem search_cons (w : JsString) (follow : JsString → Bool) (u : UInt16) (t : JsString) :
    search w follow (u :: t) =
      (startsWithQuoted w (u :: t) && follow ((u :: t).drop (w.length + 2)) ||
        search w follow t) := by
  simp [search]

theorem search_of_ne (hu : u ≠ quote) (t : JsString) :
    search w follow (u :: t) = search w follow t := by
  rw [search_cons]
  simp [startsWithQuoted, Ne.symm hu]

theorem search_append (h : ∀ u ∈ s, u ≠ quote) (t : JsString) :
    search w follow (s ++ t) = search w follow t := by
  induction s with
  | nil => rfl
  | cons u rest ih =>
    rw [List.cons_append, search_of_ne (h u List.mem_cons_self)]
    exact ih fun v hv => h v (List.mem_cons_of_mem u hv)

/-- The end of a string is not the start of a quoted word. -/
theorem search_closing (hw : IsWord w) (hR : ∀ u ∈ R.head?, u ∉ wordUnits) :
    search w follow (quote :: R) = search w follow R := by
  rw [search_cons]
  cases w with
  | nil => exact absurd rfl hw.1
  | cons c w =>
    have hc : c ∈ wordUnits := hw.2 c List.mem_cons_self
    cases R with
    | nil => simp [startsWithQuoted]
    | cons u R =>
      have hne : c ≠ u := fun heq => hR u rfl (heq ▸ hc)
      simp [startsWithQuoted, hne]

theorem isSuffixOf_cons (w s : JsString) (u : UInt16) :
    (quote :: w).isSuffixOf (u :: s) =
      (decide (u = quote) && decide (s = w) || (quote :: w).isSuffixOf s) := by
  rw [Bool.eq_iff_iff, List.isSuffixOf_iff_suffix, List.suffix_cons_iff, Bool.or_eq_true,
    Bool.and_eq_true, decide_eq_true_eq, decide_eq_true_eq, List.isSuffixOf_iff_suffix,
    List.cons.injEq]
  constructor
  · rintro (⟨hu, hs⟩ | h)
    · exact .inl ⟨hu.symm, hs.symm⟩
    · exact .inr h
  · rintro (⟨hu, hs⟩ | h)
    · exact .inl ⟨hu.symm, hs.symm⟩
    · exact .inr h

/-- A unit of a string is passed by, or it is a quote with its backslash. -/
theorem search_escapeUnit (w : JsString) (follow : JsString → Bool) (u : UInt16) (t : JsString) :
    search w follow (escapeUnit u ++ t) =
      (decide (u = quote) && (startsWithQuoted w (quote :: t) &&
        follow ((quote :: t).drop (w.length + 2))) || search w follow t) := by
  by_cases hquote : u = quote
  · subst hquote
    have hback : backslash ≠ quote := by decide
    rw [show escapeUnit quote = [backslash, quote] from rfl, List.cons_append, search_of_ne hback,
      List.cons_append, List.nil_append, search_cons]
    simp
  · rcases escapeUnit_cases hquote with hself | ⟨_, rest, hback, hrest⟩
    · rw [hself, List.cons_append, search_of_ne hquote]
      simp [hquote]
    · have hne : ∀ v ∈ backslash :: rest, v ≠ quote := by
        intro v hv
        rcases List.mem_cons.mp hv with rfl | hv
        · decide
        · exact hrest v hv
      rw [hback, search_append hne]
      simp [hquote]

/-- Inside a string the word is found at its end, behind an escaped quote. -/
theorem search_escape (hw : IsWord w) (hR : ∀ u ∈ R.head?, u ∉ wordUnits) (s : JsString) :
    search w follow (escape s ++ quote :: R) =
      ((quote :: w).isSuffixOf s && follow R || search w follow R) := by
  have hunit : ∀ u rest, escape (u :: rest) = escapeUnit u ++ escape rest →
      search w follow (escape rest ++ quote :: R) =
        ((quote :: w).isSuffixOf rest && follow R || search w follow R) →
      search w follow (escape (u :: rest) ++ quote :: R) =
        ((quote :: w).isSuffixOf (u :: rest) && follow R || search w follow R) := by
    intro u rest heq ih
    have hstart := startsWithQuoted_escape follow hw.2 rest R
    rw [List.cons_append] at hstart
    rw [heq, List.append_assoc, search_escapeUnit, hstart, ih, isSuffixOf_cons]
    cases decide (u = quote) <;> cases decide (rest = w) <;> cases follow R <;> simp
  induction s using escape.induct with
  | case1 =>
    rw [show escape [] ++ quote :: R = quote :: R from rfl, search_closing hw hR]
    simp [List.isSuffixOf]
  | case2 u =>
    refine hunit u [] (by simp [escape]) ?_
    rw [show escape [] ++ quote :: R = quote :: R from rfl, search_closing hw hR]
    simp [List.isSuffixOf]
  | case3 u v rest hpair ih =>
    obtain ⟨hu, hv⟩ := Bool.and_eq_true_iff.mp hpair
    have hne : ∀ x ∈ [u, v], x ≠ quote := by
      intro x hx
      rcases List.mem_pair.mp hx with rfl | rfl
      · exact (surrogate_ne (.inl hu)).1
      · exact (surrogate_ne (.inr hv)).1
    have heq : escape (u :: v :: rest) ++ quote :: R = [u, v] ++ (escape rest ++ quote :: R) := by
      rw [escape, if_pos hpair]
      rfl
    rw [heq, search_append hne, ih, isSuffixOf_cons, isSuffixOf_cons]
    simp [hne]
  | case4 u v rest hpair ih =>
    exact hunit u (v :: rest) (by rw [escape, if_neg hpair]) ih

/-- A string is found when it looks like the word and the continuation
accepts what follows it. -/
theorem search_quoteString (hw : IsWord w) (hR : ∀ u ∈ R.head?, u ∉ wordUnits) (s : JsString) :
    search w follow (quoteString s ++ R) =
      (looksLike w s && follow R || search w follow R) := by
  have heq : quoteString s ++ R = quote :: (escape s ++ quote :: R) := by
    simp [quoteString]
  have hstart := startsWithQuoted_escape follow hw.2 s R
  rw [List.cons_append] at hstart
  rw [heq, search_cons, hstart, search_escape hw hR, looksLike]
  cases decide (s = w) <;> cases follow R <;> simp

/-! ## The text of a number -/

/-- The units of the text of a number. -/
def numberUnits : JsString := js "0123456789+-.enul"

theorem mem_decimal {n : ℕ} (h : u ∈ decimal n) : u ∈ numberUnits := by
  have hdigit : ∀ d < 10, (48 + d).toUInt16 ∈ numberUnits := by
    decide
  obtain ⟨d, hd, rfl⟩ := List.mem_map.mp h
  exact hdigit d (Nat.digits_lt_base (by decide) (List.mem_reverse.mp hd))

theorem mem_zeros {n : ℕ} (h : u ∈ zeros n) : u ∈ numberUnits := by
  have hzero : (48 : UInt16) ∈ numberUnits := by
    decide
  rw [List.eq_of_mem_replicate h]
  exact hzero

theorem positiveText_units (x : Float) : ∀ u ∈ positiveText x, u ∈ numberUnits := by
  have hall : ∀ c ∈ (["0.", ".", "e+", "e-"] : List String), ((js c).all fun u => u ∈ numberUnits) = true := by
    decide
  have hlit : ∀ c ∈ (["0.", ".", "e+", "e-"] : List String), ∀ u ∈ js c, u ∈ numberUnits :=
    fun c hc => List.all_iff_forall_prop.mp (hall c hc)
  unfold positiveText
  generalize shortest x = r
  obtain ⟨s, k, n⟩ := r
  have hexponent : ∀ u ∈ (if 0 < n - 1 then js "e+" else js "e-") ++ decimal (n - 1).natAbs,
      u ∈ numberUnits := by
    intro u hu
    rcases List.mem_append.mp hu with hu | hu
    · split at hu
      · exact hlit "e+" (by simp) u hu
      · exact hlit "e-" (by simp) u hu
    · exact mem_decimal hu
  intro u hu
  simp only [] at hu
  split at hu
  · rcases List.mem_append.mp hu with hu | hu
    · exact mem_decimal hu
    · exact mem_zeros hu
  · split at hu
    · rcases List.mem_append.mp hu with hu | hu
      · rcases List.mem_append.mp hu with hu | hu
        · exact mem_decimal (List.mem_of_mem_take hu)
        · exact hlit "." (by simp) u hu
      · exact mem_decimal (List.mem_of_mem_drop hu)
    · split at hu
      · rcases List.mem_append.mp hu with hu | hu
        · rcases List.mem_append.mp hu with hu | hu
          · exact hlit "0." (by simp) u hu
          · exact mem_zeros hu
        · exact mem_decimal hu
      · split at hu
        · rcases List.mem_append.mp hu with hu | hu
          · exact mem_decimal hu
          · exact hexponent u hu
        · rcases List.mem_append.mp hu with hu | hu
          · rcases List.mem_append.mp hu with hu | hu
            · rcases List.mem_append.mp hu with hu | hu
              · exact mem_decimal (List.mem_of_mem_take hu)
              · exact hlit "." (by simp) u hu
            · exact mem_decimal (List.mem_of_mem_drop hu)
          · exact hexponent u hu

theorem numberText_units (x : Float) : ∀ u ∈ numberText x, u ∈ numberUnits := by
  have hall : ∀ c ∈ (["0", "-", "null"] : List String), ((js c).all fun u => u ∈ numberUnits) = true := by
    decide
  have hlit : ∀ c ∈ (["0", "-", "null"] : List String), ∀ u ∈ js c, u ∈ numberUnits :=
    fun c hc => List.all_iff_forall_prop.mp (hall c hc)
  unfold numberText
  intro u hu
  split at hu
  · split at hu
    · exact hlit "0" (by simp) u hu
    · split at hu
      · rcases List.mem_append.mp hu with hu | hu
        · exact hlit "-" (by simp) u hu
        · exact positiveText_units (-x) u hu
      · exact positiveText_units x u hu
  · exact hlit "null" (by simp) u hu

/-! ## The text of a value -/

theorem Ends.head (h : Ends R) : ∀ u ∈ R.head?, u ∉ wordUnits := by
  have hnot : ∀ u ∈ ([44, 93, 125] : List UInt16), u ∉ wordUnits :=
    List.all_iff_forall_prop.mp (by decide)
  intro u hu
  refine hnot u ?_
  rcases h u hu with rfl | rfl | rfl
  · simp
  · simp
  · simp

theorem ends_comma (t : JsString) : Ends (js "," ++ t) := by
  intro u hu
  cases hu
  exact .inl rfl

theorem ends_bracket (t : JsString) : Ends (js "]" ++ t) := by
  intro u hu
  cases hu
  exact .inr (.inl rfl)

theorem ends_brace (t : JsString) : Ends (js "\x7d" ++ t) := by
  intro u hu
  cases hu
  exact .inr (.inr rfl)

/-- The text behind the value of a property. -/
def fieldTail : List (JsString × Json) → JsString → JsString
  | [], R => js "\x7d" ++ R
  | field :: rest, R => js "," ++ (fieldsText (field :: rest) ++ (js "\x7d" ++ R))

theorem ends_fieldTail (rest : List (JsString × Json)) (R : JsString) :
    Ends (fieldTail rest R) := by
  cases rest with
  | nil => exact ends_brace R
  | cons field rest => exact ends_comma _

theorem fieldsText_cons (key : JsString) (v : Json) (rest : List (JsString × Json))
    (R : JsString) : fieldsText ((key, v) :: rest) ++ (js "\x7d" ++ R) =
      quoteString key ++ (js ":" ++ (stringify v ++ fieldTail rest R)) := by
  cases rest with
  | nil => simp [fieldsText, fieldTail]
  | cons field rest => simp [fieldsText, fieldTail]

theorem itemsText_cons (v : Json) (rest : List Json) (R : JsString) :
    itemsText (v :: rest) ++ (js "]" ++ R) =
      stringify v ++ (match rest with
        | [] => js "]" ++ R
        | item :: rest => js "," ++ (itemsText (item :: rest) ++ (js "]" ++ R))) := by
  cases rest with
  | nil => simp [itemsText]
  | cons item rest => simp [itemsText]

/-- A literal without quotes is passed by. -/
theorem search_literal (c : String) (h : ((js c).all fun u => u ≠ quote) = true) (t : JsString) :
    search w follow (js c ++ t) = search w follow t :=
  search_append (List.all_iff_forall_prop.mp h) t

end

/-! ## The start of a text -/

section

variable {w R : JsString}

/-- The units a value's text can start with, or what ends it. -/
def firstUnits : JsString := js "ntf[\x7b,]\x7d" ++ [quote] ++ numberUnits

/-- The text of a value starts with a quote when the value is a string. -/
theorem stringify_first (v : Json) (hR : Ends R) : ∀ u ∈ (stringify v ++ R).head?,
    u ∈ firstUnits ∧ (u = quote → ∃ s, v = .str s) := by
  have hlit : ∀ u ∈ js "ntf[\x7b,]\x7d" ++ numberUnits, u ∈ firstUnits ∧ u ≠ quote :=
    List.all_iff_forall_prop.mp (by decide)
  have hother : ∀ u ∈ js "ntf[\x7b,]\x7d" ++ numberUnits,
      u ∈ firstUnits ∧ (u = quote → ∃ s, v = .str s) := fun u hu =>
    ⟨(hlit u hu).1, fun hq => absurd hq (hlit u hu).2⟩
  intro u hu
  cases v with
  | null =>
    cases hu
    exact hother 110 (by decide)
  | bool b =>
    cases b with
    | false =>
      cases hu
      exact hother 102 (by decide)
    | true =>
      cases hu
      exact hother 116 (by decide)
  | num n =>
    have hmem : ∀ u ∈ numberText n, u ∈ numberUnits := numberText_units n
    rw [stringify] at hu
    cases htext : numberText n with
    | nil =>
      rw [htext] at hu
      have hends : ∀ u ∈ ([44, 93, 125] : List UInt16), u ∈ js "ntf[\x7b,]\x7d" ++ numberUnits :=
        List.all_iff_forall_prop.mp (by decide)
      refine hother u (hends u ?_)
      rcases hR u hu with rfl | rfl | rfl
      · simp
      · simp
      · simp
    | cons c t =>
      rw [htext] at hu hmem
      cases hu
      exact hother u (List.mem_append_right _ (hmem u List.mem_cons_self))
  | str s =>
    cases hu
    exact ⟨by decide, fun _ => ⟨s, rfl⟩⟩
  | arr items =>
    cases hu
    exact hother 91 (by decide)
  | obj fields =>
    cases hu
    exact hother 123 (by decide)

theorem startsWithQuoted_quoteString (hw : IsWord w) (s R : JsString) :
    startsWithQuoted w (quoteString s ++ R) = decide (s = w) := by
  rw [← isPrefixOf_escape hw.2 s R]
  simp [startsWithQuoted, quoteString]

theorem startsWithQuoted_stringify (hw : IsWord w) (v : Json) (hR : Ends R) :
    startsWithQuoted w (stringify v ++ R) = v.isStr w := by
  have hother : (∀ s, v ≠ .str s) → startsWithQuoted w (stringify v ++ R) = false := by
    intro hv
    have hfirst := stringify_first v hR
    cases htext : stringify v ++ R with
    | nil => rfl
    | cons u t =>
      rw [htext] at hfirst
      have hne : quote ≠ u := by
        intro heq
        obtain ⟨s, hs⟩ := (hfirst u rfl).2 heq.symm
        exact hv s hs
      simp [startsWithQuoted, List.isPrefixOf, hne]
  cases v with
  | str s =>
    rw [stringify, startsWithQuoted_quoteString hw]
    rfl
  | _ => exact hother (by simp)

end

/-! ## The search over a value -/

section

variable {w : JsString} {follow : JsString → Bool}
  {test : Json → List (JsString × Json) → Bool}

mutual

/-- The search finds the properties that look like the word, when the
continuation tests the text of a value as `test` does the value. -/
theorem search_stringify (hw : IsWord w) (hends : ∀ R, Ends R → follow R = false)
    (htest : ∀ v rest R, follow (js ":" ++ (stringify v ++ fieldTail rest R)) = test v rest)
    (v : Json) (R : JsString) (hR : Ends R) :
    search w follow (stringify v ++ R) = (hasField w test v || search w follow R) := by
  cases v with
  | null =>
    rw [stringify, search_literal "null" (by decide), hasField, Bool.false_or]
  | bool b =>
    cases b with
    | false =>
      rw [stringify, if_neg (by simp), search_literal "false" (by decide), hasField,
        Bool.false_or]
    | true =>
      rw [stringify, if_pos rfl, search_literal "true" (by decide), hasField,
        Bool.false_or]
  | num n =>
    have hunits : ∀ u ∈ numberUnits, u ≠ quote := List.all_iff_forall_prop.mp (by decide)
    rw [stringify, search_append fun u hu => hunits u (numberText_units n u hu), hasField,
      Bool.false_or]
  | str s =>
    rw [stringify, search_quoteString hw hR.head, hends R hR, hasField, Bool.and_false]
  | arr items =>
    have hitems := search_items hw hends htest items R
    rw [stringify, List.append_assoc, List.append_assoc,
      search_literal "[" (by decide), hitems, hasField]
  | obj fields =>
    have hfields := search_fields hw hends htest fields R
    rw [stringify, List.append_assoc, List.append_assoc,
      search_literal "\x7b" (by decide), hfields, hasField]

theorem search_items (hw : IsWord w) (hends : ∀ R, Ends R → follow R = false)
    (htest : ∀ v rest R, follow (js ":" ++ (stringify v ++ fieldTail rest R)) = test v rest)
    (items : List Json) (R : JsString) :
    search w follow (itemsText items ++ (js "]" ++ R)) =
      (itemsHaveField w test items || search w follow R) := by
  cases items with
  | nil =>
    rw [itemsText, List.nil_append, search_literal "]" (by decide), itemsHaveField,
      Bool.false_or]
  | cons v rest =>
    have hrest := search_items hw hends htest rest R
    rw [itemsText_cons, itemsHaveField, Bool.or_assoc, ← hrest]
    cases rest with
    | nil => exact search_stringify hw hends htest v _ (ends_bracket R)
    | cons item rest =>
      have hv := search_stringify hw hends htest v _
        (ends_comma (itemsText (item :: rest) ++ (js "]" ++ R)))
      rw [search_literal "," (by decide)] at hv
      exact hv

theorem search_fields (hw : IsWord w) (hends : ∀ R, Ends R → follow R = false)
    (htest : ∀ v rest R, follow (js ":" ++ (stringify v ++ fieldTail rest R)) = test v rest)
    (fields : List (JsString × Json)) (R : JsString) :
    search w follow (fieldsText fields ++ (js "\x7d" ++ R)) =
      (fieldsHaveField w test fields || search w follow R) := by
  cases fields with
  | nil =>
    rw [fieldsText, List.nil_append, search_literal "\x7d" (by decide), fieldsHaveField,
      Bool.false_or]
  | cons field rest =>
    obtain ⟨key, v⟩ := field
    have hrest := search_fields hw hends htest rest R
    have hv := search_stringify hw hends htest v _ (ends_fieldTail rest R)
    have htail : search w follow (fieldTail rest R) =
        search w follow (fieldsText rest ++ (js "\x7d" ++ R)) := by
      cases rest with
      | nil => rfl
      | cons field rest => exact search_literal "," (by decide) _
    have hcolon : ∀ u ∈ (js ":" ++ (stringify v ++ fieldTail rest R)).head?, u ∉ wordUnits := by
      have hnot : (58 : UInt16) ∉ wordUnits := by
        decide
      intro u hu
      cases hu
      exact hnot
    rw [fieldsText_cons, search_quoteString hw hcolon, htest,
      search_literal ":" (by decide), hv, htail, hrest, fieldsHaveField]
    simp only [Bool.or_assoc]

end

/-! ## Properties -/

theorem fieldsHaveField_of_mem {key : JsString} {v : Json} {fields : List (JsString × Json)}
    (hv : (key, v) ∈ fields)
    (h : hasField w test v = true ∨ looksLike w key = true ∧ ∀ rest, test v rest = true) :
    fieldsHaveField w test fields = true := by
  induction fields with
  | nil => exact absurd hv (by simp)
  | cons field rest ih =>
    rw [fieldsHaveField, Bool.or_eq_true, Bool.or_eq_true, Bool.and_eq_true]
    rcases List.mem_cons.mp hv with rfl | hv
    · rcases h with h | ⟨hkey, htest⟩
      · exact .inl (.inr h)
      · exact .inl (.inl ⟨hkey, htest rest⟩)
    · exact .inr (ih hv)

/-- A property found under a property. -/
theorem hasField_of_get? {key : JsString} {v x : Json} (hx : v.get? key = some x)
    (h : hasField w test x = true ∨ looksLike w key = true ∧ ∀ rest, test x rest = true) :
    hasField w test v = true := by
  cases v with
  | obj fields => exact fieldsHaveField_of_mem (Dict.mem_of_get? hx) h
  | _ => exact absurd hx (by simp [Json.get?])

end

end UmansGate.Lib
