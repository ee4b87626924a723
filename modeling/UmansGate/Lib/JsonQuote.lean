/-
UmansGate.Lib.JsonQuote — the strings of a JSON text are read back.

`unescape` reads the units of a string up to its closing quote
(`unescape_escape`), so a quoted string is determined by any text that
begins with it (`quoteString_append_inj`).
-/
import UmansGate.Lib.JsonScan

namespace UmansGate.Lib

/-- The value of a hexadecimal digit in lower case. -/
def hexValue (u : UInt16) : ℕ := if u < 58 then u.toNat - 48 else u.toNat - 87

/-- The unit behind a backslash and one letter. -/
def unescapeLetter (c : UInt16) : UInt16 :=
  if c = 98 then 8
  else if c = 116 then 9
  else if c = 110 then 10
  else if c = 102 then 12
  else if c = 114 then 13
  else c

/-- The units of a string and the text behind its closing quote. -/
def unescape : JsString → Option (JsString × JsString)
  | [] => none
  | u :: rest =>
    if u = quote then some ([], rest)
    else if u = backslash then
      match rest with
      | 117 :: a :: b :: c :: d :: rest =>
        (unescape rest).map fun r =>
          ((hexValue a * 4096 + hexValue b * 256 + hexValue c * 16 + hexValue d).toUInt16 :: r.1,
            r.2)
      | c :: rest => (unescape rest).map fun r => (unescapeLetter c :: r.1, r.2)
      | [] => none
    else (unescape rest).map fun r => (u :: r.1, r.2)

variable {u : UInt16} {s t R R' : JsString}

theorem hexValue_hexDigit : ∀ n < 16, hexValue (hexDigit n) = n := by
  decide

/-- A unit is the sum of its four hexadecimal digits. -/
theorem toUInt16_hexDigits (u : UInt16) : (u.toNat / 2 ^ 12 % 16 * 4096 + u.toNat / 2 ^ 8 % 16 * 256 +
    u.toNat / 2 ^ 4 % 16 * 16 + u.toNat / 2 ^ 0 % 16).toUInt16 = u := by
  have hlt : u.toNat < 65536 := u.toNat_lt
  have hsum : u.toNat / 2 ^ 12 % 16 * 4096 + u.toNat / 2 ^ 8 % 16 * 256 +
      u.toNat / 2 ^ 4 % 16 * 16 + u.toNat / 2 ^ 0 % 16 = u.toNat := by omega
  rw [hsum]
  exact UInt16.ofNat_toNat

@[simp] theorem unescape_quote (X : JsString) : unescape (quote :: X) = some ([], X) := by
  rw [unescape.eq_def]
  simp only [if_pos]

theorem unescape_plain (hquote : u ≠ quote) (hback : u ≠ backslash) (X : JsString) :
    unescape (u :: X) = (unescape X).map fun r => (u :: r.1, r.2) := by
  rw [unescape.eq_def]
  simp only [if_neg hquote, if_neg hback]

theorem unescape_letter {c : UInt16} (hc : c ≠ 117) (X : JsString) :
    unescape (backslash :: c :: X) = (unescape X).map fun r => (unescapeLetter c :: r.1, r.2) := by
  rw [unescape.eq_def]
  simp only [if_neg (show backslash ≠ quote by decide), if_pos]
  split
  · rename_i heq
    exact absurd (List.cons.inj heq).1 hc
  · rename_i heq
    cases heq
    rfl
  · rename_i heq
    cases heq

theorem unescape_unicodeEscape (u : UInt16) (X : JsString) :
    unescape (unicodeEscape u ++ X) = (unescape X).map fun r => (u :: r.1, r.2) := by
  have htext : unicodeEscape u ++ X =
      backslash :: 117 :: hexDigit (u.toNat / 2 ^ 12 % 16) :: hexDigit (u.toNat / 2 ^ 8 % 16) ::
        hexDigit (u.toNat / 2 ^ 4 % 16) :: hexDigit (u.toNat / 2 ^ 0 % 16) :: X := rfl
  have hvalue : ∀ n, hexValue (hexDigit (n % 16)) = n % 16 := fun n =>
    hexValue_hexDigit _ (Nat.mod_lt n (by decide))
  rw [htext, unescape, if_neg (by decide), if_pos rfl]
  simp only [hvalue, toUInt16_hexDigits]

/-- An escaped unit is read back. -/
theorem unescape_escapeUnit (u : UInt16) (X : JsString) :
    unescape (escapeUnit u ++ X) = (unescape X).map fun r => (u :: r.1, r.2) := by
  unfold escapeUnit
  split_ifs with h8 h9 h10 h12 h13 hquote hback hcontrol
  · rw [h8]
    exact unescape_letter (by decide) X
  · rw [h9]
    exact unescape_letter (by decide) X
  · rw [h10]
    exact unescape_letter (by decide) X
  · rw [h12]
    exact unescape_letter (by decide) X
  · rw [h13]
    exact unescape_letter (by decide) X
  · rw [hquote]
    exact unescape_letter (by decide) X
  · rw [hback]
    exact unescape_letter (by decide) X
  · exact unescape_unicodeEscape u X
  · exact unescape_plain hquote hback X

theorem surrogate_ne_backslash (h : isHighSurrogate u = true ∨ isLowSurrogate u = true) :
    u ≠ backslash := by
  rintro rfl
  exact absurd h (by decide)

/-- The units of a string are read back up to the quote. -/
theorem unescape_escape (s R : JsString) : unescape (escape s ++ quote :: R) = some (s, R) := by
  fun_induction escape s with
  | case1 => simp
  | case2 u => simp [unescape_escapeUnit]
  | case3 u v rest hpair ih =>
    obtain ⟨hu, hv⟩ := Bool.and_eq_true_iff.mp hpair
    rw [List.cons_append, List.cons_append,
      unescape_plain (surrogate_ne (.inl hu)).1 (surrogate_ne_backslash (.inl hu)),
      unescape_plain (surrogate_ne (.inr hv)).1 (surrogate_ne_backslash (.inr hv)), ih]
    rfl
  | case4 u v rest hpair ih =>
    rw [List.append_assoc, unescape_escapeUnit, ih]
    rfl

/-- A text that begins with a quoted string begins with no other. -/
theorem quoteString_append_inj (h : quoteString s ++ R = quoteString t ++ R') :
    s = t ∧ R = R' := by
  simp only [quoteString, List.cons_append, List.append_assoc, List.nil_append,
    List.cons.injEq, true_and] at h
  have hread := unescape_escape s R
  rw [h, unescape_escape, Option.some.injEq, Prod.mk.injEq] at hread
  exact ⟨hread.1.symm, hread.2.symm⟩

end UmansGate.Lib
