/-
UmansGate.Lib.Utf8 — the UTF-8 bytes of a JavaScript string.

A unit that is no half of a pair is encoded as U+FFFD, so strings that
differ in such units have the same bytes. An ASCII unit is a byte of its
own and separates the text before it from the text behind it
(`utf8_append_cons`).
-/
import UmansGate.Lib.JsonText

namespace UmansGate.Lib

/-! ## Separators -/

section

variable {α : Type} {a : α} {x y r t : List α}

/-- What stands before the first separator. -/
theorem append_cons_inj_first (hx : a ∉ x) (hy : a ∉ y) (h : x ++ a :: r = y ++ a :: t) :
    x = y ∧ r = t := by
  induction x generalizing y with
  | nil =>
    cases y with
    | nil => exact ⟨rfl, (List.cons.inj h).2⟩
    | cons c y => exact absurd ((List.cons.inj h).1 ▸ List.mem_cons_self) hy
  | cons b x ih =>
    cases y with
    | nil => exact absurd ((List.cons.inj h).1 ▸ List.mem_cons_self) hx
    | cons c y =>
      obtain ⟨hbc, htail⟩ := List.cons.inj h
      obtain ⟨hxy, hrt⟩ := ih (fun hmem => hx (List.mem_cons_of_mem b hmem))
        (fun hmem => hy (List.mem_cons_of_mem c hmem)) htail
      exact ⟨by rw [hbc, hxy], hrt⟩

/-- What stands behind the last separator. -/
theorem append_cons_inj_last (hr : a ∉ r) (ht : a ∉ t) (h : x ++ a :: r = y ++ a :: t) :
    x = y ∧ r = t := by
  have hreverse := congrArg List.reverse h
  simp only [List.reverse_append, List.reverse_cons, List.append_assoc, List.singleton_append]
    at hreverse
  obtain ⟨hrt, hxy⟩ := append_cons_inj_first (by simpa using hr) (by simpa using ht) hreverse
  exact ⟨List.reverse_injective hxy, List.reverse_injective hrt⟩

end

/-! ## Encoding -/

/-- The bytes of a unit that is no half of a pair. -/
def utf8Unit (u : UInt16) : List UInt8 :=
  let n := u.toNat
  if n < 0x80 then [u.toUInt8]
  else if n < 0x800 then [(0xC0 + n / 0x40).toUInt8, (0x80 + n % 0x40).toUInt8]
  else if isHighSurrogate u ∨ isLowSurrogate u then [0xEF, 0xBF, 0xBD]
  else [(0xE0 + n / 0x1000).toUInt8, (0x80 + n / 0x40 % 0x40).toUInt8, (0x80 + n % 0x40).toUInt8]

/-- The bytes of a pair. -/
def utf8Pair (u v : UInt16) : List UInt8 :=
  let n := 0x10000 + (u.toNat - 0xD800) * 0x400 + (v.toNat - 0xDC00)
  [(0xF0 + n / 0x40000).toUInt8, (0x80 + n / 0x1000 % 0x40).toUInt8,
    (0x80 + n / 0x40 % 0x40).toUInt8, (0x80 + n % 0x40).toUInt8]

def utf8 : JsString → List UInt8
  | [] => []
  | [u] => utf8Unit u
  | u :: v :: rest =>
    if isHighSurrogate u && isLowSurrogate v then utf8Pair u v ++ utf8 rest
    else utf8Unit u ++ utf8 (v :: rest)

def isAscii (u : UInt16) : Bool := u < 0x80

variable {u c : UInt16}

theorem isHighSurrogate_of_isAscii (h : isAscii c = true) : isHighSurrogate c = false := by
  simp only [isAscii, decide_eq_true_eq, UInt16.lt_iff_toNat_lt] at h
  simp only [isHighSurrogate, Bool.and_eq_false_iff, decide_eq_false_iff_not,
    UInt16.le_iff_toNat_le]
  left
  exact fun hle => absurd (Nat.lt_of_le_of_lt hle h) (by decide)

theorem isLowSurrogate_of_isAscii (h : isAscii c = true) : isLowSurrogate c = false := by
  simp only [isAscii, decide_eq_true_eq, UInt16.lt_iff_toNat_lt] at h
  simp only [isLowSurrogate, Bool.and_eq_false_iff, decide_eq_false_iff_not,
    UInt16.le_iff_toNat_le]
  left
  exact fun hle => absurd (Nat.lt_of_le_of_lt hle h) (by decide)

theorem utf8Unit_of_isAscii (h : isAscii c = true) : utf8Unit c = [c.toUInt8] := by
  simp only [isAscii, decide_eq_true_eq, UInt16.lt_iff_toNat_lt] at h
  exact if_pos h

theorem utf8_cons (h : isAscii c = true) (y : JsString) : utf8 (c :: y) = c.toUInt8 :: utf8 y := by
  cases y with
  | nil => exact utf8Unit_of_isAscii h
  | cons v rest =>
    rw [utf8, isHighSurrogate_of_isAscii h, Bool.false_and, if_neg Bool.false_ne_true,
      utf8Unit_of_isAscii h]
    rfl

/-- An ASCII unit separates what is encoded. -/
theorem utf8_append_cons (h : isAscii c = true) (x y : JsString) :
    utf8 (x ++ c :: y) = utf8 x ++ c.toUInt8 :: utf8 y := by
  fun_induction utf8 x with
  | case1 => exact utf8_cons h y
  | case2 u =>
    rw [List.cons_append, List.nil_append, utf8, isLowSurrogate_of_isAscii h, Bool.and_false,
      if_neg Bool.false_ne_true, utf8_cons h]
  | case3 u v rest hpair ih =>
    rw [List.cons_append, List.cons_append, utf8, if_pos hpair, ih, List.append_assoc]
  | case4 u v rest hpair ih =>
    rw [List.cons_append, List.cons_append, utf8, if_neg hpair, ← List.cons_append, ih,
      List.append_assoc]

theorem utf8_ascii_append {x : JsString} (h : ∀ u ∈ x, isAscii u = true) (y : JsString) :
    utf8 (x ++ y) = x.map UInt16.toUInt8 ++ utf8 y := by
  induction x with
  | nil => rfl
  | cons u x ih =>
    rw [List.cons_append, utf8_cons (h u List.mem_cons_self),
      ih fun v hv => h v (List.mem_cons_of_mem u hv)]
    rfl

theorem utf8_ascii {x : JsString} (h : ∀ u ∈ x, isAscii u = true) :
    utf8 x = x.map UInt16.toUInt8 := by
  have happend := utf8_ascii_append h []
  rwa [List.append_nil, utf8, List.append_nil] at happend

/-- An ASCII text is read back from its bytes. -/
theorem toUInt8_injOn_ascii {x y : JsString} (hx : ∀ u ∈ x, isAscii u = true)
    (hy : ∀ u ∈ y, isAscii u = true) (h : x.map UInt16.toUInt8 = y.map UInt16.toUInt8) : x = y := by
  induction x generalizing y with
  | nil =>
    symm
    simpa using h.symm
  | cons u x ih =>
    cases y with
    | nil => simp at h
    | cons v y =>
      simp only [List.map_cons, List.cons.injEq] at h
      have hu := hx u List.mem_cons_self
      have hv := hy v List.mem_cons_self
      simp only [isAscii, decide_eq_true_eq, UInt16.lt_iff_toNat_lt] at hu hv
      have hunit : u = v := by
        have hnat := congrArg UInt8.toNat h.1
        simp only [UInt16.toNat_toUInt8] at hnat
        have hsmall : (0x80 : UInt16).toNat = 128 := rfl
        apply UInt16.toNat_inj.mp
        omega
      rw [hunit, ih (fun w hw => hx w (List.mem_cons_of_mem u hw))
        (fun w hw => hy w (List.mem_cons_of_mem v hw)) h.2]

end UmansGate.Lib
