/-
UmansGate.Lib.Utf8Decode — the strict decoding of UTF-8, a byte at a time.

A lead byte says how many bytes follow and bounds the first of them, so that no
character has two spellings and no half of a pair has one. `feed` runs the
decoder over a piece of the input and stops at an error; what it leaves behind
is the state for the next piece, so how the input is cut does not matter
(`feed_append`).

Encoding and decoding are inverse: a text is read back from its bytes, with
U+FFFD for what is no character (`feed_utf8`), and bytes that are accepted are
those of the text they are read as (`utf8_of_feed`).
-/
import UmansGate.Lib.Utf8

namespace UmansGate.Lib

/-! ## The decoder -/

structure Utf8State where
  codePoint : ℕ := 0
  /-- The bytes that are still to come. -/
  needed : ℕ := 0
  lower : ℕ := 0x80
  upper : ℕ := 0xBF
  deriving DecidableEq, Repr

/-- The units of a code point. -/
def unitsOf (n : ℕ) : JsString :=
  if n < 0x10000 then [n.toUInt16]
  else [(0xD800 + (n - 0x10000) / 0x400).toUInt16, (0xDC00 + (n - 0x10000) % 0x400).toUInt16]

namespace Utf8State

def fresh : Utf8State := {}

/-- The state after a lead byte, or none when there is no character that begins
with it. -/
def lead (n : ℕ) : Option Utf8State :=
  if n < 0xC2 then none
  else if n < 0xE0 then some { codePoint := n % 0x20, needed := 1 }
  else if n < 0xF0 then
    some { codePoint := n % 0x10, needed := 2,
           lower := if n = 0xE0 then 0xA0 else 0x80, upper := if n = 0xED then 0x9F else 0xBF }
  else if n < 0xF5 then
    some { codePoint := n % 0x08, needed := 3,
           lower := if n = 0xF0 then 0x90 else 0x80, upper := if n = 0xF4 then 0x8F else 0xBF }
  else none

/-- One byte: the units of a character that it completes, and the next state. -/
def push (s : Utf8State) (b : UInt8) : Option (JsString × Utf8State) :=
  if s.needed = 0 then
    if b.toNat < 0x80 then some (unitsOf b.toNat, fresh) else (lead b.toNat).map ([], ·)
  else if b.toNat < s.lower ∨ s.upper < b.toNat then none
  else
    let codePoint := s.codePoint * 0x40 + b.toNat % 0x40
    if s.needed = 1 then some (unitsOf codePoint, fresh)
    else some ([], { codePoint := codePoint, needed := s.needed - 1 })

/-- A piece of the input; none where a byte is an error. -/
def feed : Utf8State → List UInt8 → Option (JsString × Utf8State)
  | s, [] => some ([], s)
  | s, b :: bs => (s.push b).bind fun r => (r.2.feed bs).map fun q => (r.1 ++ q.1, q.2)

/-- The decoding that replaces what it cannot read by U+FFFD. A byte that ends
a character too early is read again. -/
def lossy : Utf8State → List UInt8 → JsString
  | s, [] => if s.needed = 0 then [] else [0xFFFD]
  | s, b :: bs =>
    match s.push b with
    | some r => r.1 ++ r.2.lossy bs
    | none =>
      if s.needed = 0 then 0xFFFD :: fresh.lossy bs
      else
        match fresh.push b with
        | some r => 0xFFFD :: r.1 ++ r.2.lossy bs
        | none => 0xFFFD :: 0xFFFD :: fresh.lossy bs

end Utf8State

open Utf8State

variable {s s' : Utf8State} {t t' : JsString} {bs bs' : List UInt8}

theorem feed_append :
    s.feed (bs ++ bs') = (s.feed bs).bind fun r => (r.2.feed bs').map fun q => (r.1 ++ q.1, q.2) := by
  induction bs generalizing s with
  | nil =>
    rw [List.nil_append, feed, Option.bind_some]
    cases s.feed bs' with
    | none => rfl
    | some q => rfl
  | cons b bs ih =>
    rw [List.cons_append, feed, feed]
    cases s.push b with
    | none => rfl
    | some r =>
      simp only [Option.bind_some, ih]
      cases r.2.feed bs with
      | none => rfl
      | some q =>
        simp only [Option.bind_some, Option.map_some]
        cases q.2.feed bs' with
        | none => rfl
        | some p => simp

/-- The beginning of an input that is read. -/
theorem exists_feed_of_append {s'' : Utf8State} (h : s.feed (bs ++ bs') = some (t, s'')) :
    ∃ t₁ t₂ s', s.feed bs = some (t₁, s') ∧ s'.feed bs' = some (t₂, s'') ∧ t = t₁ ++ t₂ := by
  rw [feed_append, Option.bind_eq_some_iff] at h
  obtain ⟨r, hr, h⟩ := h
  obtain ⟨q, hq, h⟩ := Option.map_eq_some_iff.mp h
  cases h
  exact ⟨r.1, q.1, r.2, hr, hq, rfl⟩

/-- What is read strictly is read the same way with replacements. -/
theorem lossy_of_feed (h : s.feed bs = some (t, s')) :
    s.lossy bs = t ++ if s'.needed = 0 then [] else [0xFFFD] := by
  induction bs generalizing s t with
  | nil =>
    cases h
    rfl
  | cons b bs ih =>
    rw [feed, Option.bind_eq_some_iff] at h
    obtain ⟨r, hr, h⟩ := h
    obtain ⟨q, hq, h⟩ := Option.map_eq_some_iff.mp h
    cases h
    rw [lossy, hr]
    simp only [ih hq, List.append_assoc]

/-! ## One byte -/

theorem push_ascii {b : UInt8} (h : b.toNat < 0x80) :
    fresh.push b = some (unitsOf b.toNat, fresh) := by
  rw [push, if_pos (show fresh.needed = 0 from rfl), if_pos h]

theorem push_lead {b : UInt8} (h : 0x80 ≤ b.toNat) :
    fresh.push b = (lead b.toNat).map ([], ·) := by
  rw [push, if_pos (show fresh.needed = 0 from rfl), if_neg (by omega)]

/-- A byte that may stand next in a character. -/
def Utf8State.Accepts (s : Utf8State) (b : UInt8) : Prop := s.lower ≤ b.toNat ∧ b.toNat ≤ s.upper

/-- The code point with the bits of the next byte. -/
def Utf8State.value (s : Utf8State) (b : UInt8) : ℕ := s.codePoint * 0x40 + b.toNat % 0x40

theorem push_last {b : UInt8} (hneeded : s.needed = 1) (h : s.Accepts b) :
    s.push b = some (unitsOf (s.value b), fresh) := by
  rw [Accepts] at h
  rw [push, if_neg (by omega), if_neg (by omega), if_pos hneeded, value]

theorem push_middle {b : UInt8} (hneeded : 1 < s.needed) (h : s.Accepts b) :
    s.push b = some ([], { codePoint := s.value b, needed := s.needed - 1 }) := by
  rw [Accepts] at h
  rw [push, if_neg (by omega), if_neg (by omega), if_neg (by omega), value]

theorem accepts_of_push {b : UInt8} {r : JsString × Utf8State} (hneeded : 0 < s.needed)
    (h : s.push b = some r) : s.Accepts b := by
  rw [push, if_neg (by omega)] at h
  split at h
  · cases h
  · rw [Accepts]
    omega

theorem feed_cons {b : UInt8} (h : s.push b = some (t, s')) :
    s.feed (b :: bs) = (s'.feed bs).map fun q => (t ++ q.1, q.2) := by
  rw [feed, h, Option.bind_some]

theorem feed_cons_empty {b : UInt8} (h : s.push b = some ([], s')) :
    s.feed (b :: bs) = s'.feed bs := by
  rw [feed_cons h]
  cases s'.feed bs with
  | none => rfl
  | some q => rfl

/-! ## One character -/

/-- A code point that is no half of a pair. -/
def IsScalar (n : ℕ) : Prop := n < 0xD800 ∨ 0xE000 ≤ n ∧ n < 0x110000

/-- The bytes of a code point. -/
def utf8Scalar (n : ℕ) : List UInt8 :=
  if n < 0x80 then [n.toUInt8]
  else if n < 0x800 then [(0xC0 + n / 0x40).toUInt8, (0x80 + n % 0x40).toUInt8]
  else if n < 0x10000 then
    [(0xE0 + n / 0x1000).toUInt8, (0x80 + n / 0x40 % 0x40).toUInt8, (0x80 + n % 0x40).toUInt8]
  else [(0xF0 + n / 0x40000).toUInt8, (0x80 + n / 0x1000 % 0x40).toUInt8,
    (0x80 + n / 0x40 % 0x40).toUInt8, (0x80 + n % 0x40).toUInt8]

theorem toNat_toUInt8 {n : ℕ} (h : n < 256) : n.toUInt8.toNat = n :=
  UInt8.toNat_ofNat_of_lt' h

theorem lead_two {n : ℕ} (hle : 0x80 ≤ n) (hlt : n < 0x800) :
    lead (0xC0 + n / 0x40) = some { codePoint := n / 0x40, needed := 1 } := by
  rw [lead, if_neg (by omega), if_pos (by omega), show (0xC0 + n / 0x40) % 0x20 = n / 0x40 by omega]

theorem lead_three {n : ℕ} (hlt : n < 0x10000) :
    lead (0xE0 + n / 0x1000) =
      some { codePoint := n / 0x1000, needed := 2,
             lower := if n < 0x1000 then 0xA0 else 0x80,
             upper := if 0xD000 ≤ n ∧ n < 0xE000 then 0x9F else 0xBF } := by
  have hE0 : (0xE0 + n / 0x1000 = 0xE0) = (n < 0x1000) := propext (by omega)
  have hED : (0xE0 + n / 0x1000 = 0xED) = (0xD000 ≤ n ∧ n < 0xE000) := propext (by omega)
  rw [lead, if_neg (by omega), if_neg (by omega), if_pos (by omega),
    show (0xE0 + n / 0x1000) % 0x10 = n / 0x1000 by omega]
  simp only [hE0, hED]

theorem lead_four {n : ℕ} (hle : 0x10000 ≤ n) (hlt : n < 0x110000) :
    lead (0xF0 + n / 0x40000) =
      some { codePoint := n / 0x40000, needed := 3,
             lower := if n < 0x40000 then 0x90 else 0x80,
             upper := if 0x100000 ≤ n then 0x8F else 0xBF } := by
  have hF0 : (0xF0 + n / 0x40000 = 0xF0) = (n < 0x40000) := propext (by omega)
  have hF4 : (0xF0 + n / 0x40000 = 0xF4) = (0x100000 ≤ n) := propext (by omega)
  rw [lead, if_neg (by omega), if_neg (by omega), if_neg (by omega), if_pos (by omega),
    show (0xF0 + n / 0x40000) % 0x08 = n / 0x40000 by omega]
  simp only [hF0, hF4]

theorem feed_last {n : ℕ} {b : UInt8} (hneeded : s.needed = 1) (h : s.Accepts b)
    (hvalue : s.value b = n) : s.feed (b :: bs) = (fresh.feed bs).map fun q => (unitsOf n ++ q.1, q.2) := by
  rw [feed_cons (push_last hneeded h), hvalue]

theorem feed_middle {b : UInt8} (hneeded : 1 < s.needed) (h : s.Accepts b) :
    s.feed (b :: bs) = feed { codePoint := s.value b, needed := s.needed - 1 } bs :=
  feed_cons_empty (push_middle hneeded h)

/-- A character is read from its bytes. -/
theorem feed_utf8Scalar {n : ℕ} (h : IsScalar n) :
    fresh.feed (utf8Scalar n ++ bs) = (fresh.feed bs).map fun q => (unitsOf n ++ q.1, q.2) := by
  rw [IsScalar] at h
  rw [utf8Scalar]
  split
  · rename_i hlt
    have hn := toNat_toUInt8 (show n < 256 by omega)
    rw [List.singleton_append, feed_cons (push_ascii (by omega)), hn]
  split
  · rename_i hle hlt
    have h₀ := toNat_toUInt8 (show 0xC0 + n / 0x40 < 256 by omega)
    have h₁ := toNat_toUInt8 (show 0x80 + n % 0x40 < 256 by omega)
    have hlead : fresh.push (0xC0 + n / 0x40).toUInt8 = _ := push_lead (by omega)
    rw [h₀, lead_two (by omega) hlt, Option.map_some] at hlead
    rw [List.cons_append, feed_cons_empty hlead]
    refine feed_last rfl ?_ ?_
    · simp only [Accepts, h₁]
      omega
    · simp only [value, h₁]
      omega
  split
  · rename_i hle hlt
    have h₀ := toNat_toUInt8 (show 0xE0 + n / 0x1000 < 256 by omega)
    have h₁ := toNat_toUInt8 (show 0x80 + n / 0x40 % 0x40 < 256 by omega)
    have h₂ := toNat_toUInt8 (show 0x80 + n % 0x40 < 256 by omega)
    have hlead : fresh.push (0xE0 + n / 0x1000).toUInt8 = _ := push_lead (by omega)
    rw [h₀, lead_three hlt, Option.map_some] at hlead
    rw [List.cons_append, feed_cons_empty hlead, List.cons_append, feed_middle]
    · refine feed_last rfl ?_ ?_
      · simp only [Accepts, h₂]
        omega
      · simp only [value, h₁, h₂]
        omega
    · exact Nat.one_lt_two
    · simp only [Accepts, h₁]
      split <;> split <;> omega
  · rename_i hle
    have h₀ := toNat_toUInt8 (show 0xF0 + n / 0x40000 < 256 by omega)
    have h₁ := toNat_toUInt8 (show 0x80 + n / 0x1000 % 0x40 < 256 by omega)
    have h₂ := toNat_toUInt8 (show 0x80 + n / 0x40 % 0x40 < 256 by omega)
    have h₃ := toNat_toUInt8 (show 0x80 + n % 0x40 < 256 by omega)
    have hlead : fresh.push (0xF0 + n / 0x40000).toUInt8 = _ := push_lead (by omega)
    rw [h₀, lead_four (by omega) (by omega), Option.map_some] at hlead
    rw [List.cons_append, feed_cons_empty hlead, List.cons_append, feed_middle, List.cons_append,
      feed_middle]
    · refine feed_last rfl ?_ ?_
      · simp only [Accepts, h₃]
        omega
      · simp only [value, h₁, h₂, h₃]
        omega
    · simp
    · simp only [Accepts, h₂]
      omega
    · simp
    · simp only [Accepts, h₁]
      split <;> split <;> omega

/-! ## Reading what was encoded -/

/-- The unit that is read for one that is no half of a pair. -/
def scalarUnit (u : UInt16) : UInt16 :=
  if isHighSurrogate u ∨ isLowSurrogate u then 0xFFFD else u

/-- `text.toWellFormed()`. -/
def toWellFormed : JsString → JsString
  | [] => []
  | [u] => [scalarUnit u]
  | u :: v :: rest =>
    if isHighSurrogate u && isLowSurrogate v then u :: v :: toWellFormed rest
    else scalarUnit u :: toWellFormed (v :: rest)

theorem isHighSurrogate_iff {u : UInt16} :
    isHighSurrogate u = true ↔ 0xD800 ≤ u.toNat ∧ u.toNat < 0xDC00 := by
  simp [isHighSurrogate, UInt16.le_iff_toNat_le, UInt16.lt_iff_toNat_lt]

theorem isLowSurrogate_iff {u : UInt16} :
    isLowSurrogate u = true ↔ 0xDC00 ≤ u.toNat ∧ u.toNat < 0xE000 := by
  simp [isLowSurrogate, UInt16.le_iff_toNat_le, UInt16.lt_iff_toNat_lt]

theorem unitsOf_toNat (u : UInt16) : unitsOf u.toNat = [u] := by
  rw [unitsOf, if_pos u.toNat_lt, show u.toNat.toUInt16 = u from UInt16.ofNat_toNat]

theorem isScalar_scalarUnit (u : UInt16) : IsScalar (scalarUnit u).toNat := by
  rw [IsScalar, scalarUnit]
  have hlt := u.toNat_lt
  split
  · decide
  · rename_i hnot
    rw [isHighSurrogate_iff, isLowSurrogate_iff] at hnot
    omega

theorem utf8Unit_eq (u : UInt16) : utf8Unit u = utf8Scalar (scalarUnit u).toNat := by
  have hlt := u.toNat_lt
  have hself : u.toNat.toUInt8 = u.toUInt8 := by simp
  by_cases hsurrogate : isHighSurrogate u = true ∨ isLowSurrogate u = true
  · have hle : 0xD800 ≤ u.toNat := by
      rw [isHighSurrogate_iff, isLowSurrogate_iff] at hsurrogate
      omega
    rw [utf8Unit, scalarUnit, if_pos hsurrogate, if_neg (by omega), if_neg (by omega),
      if_pos hsurrogate]
    decide
  · rw [utf8Unit, utf8Scalar, scalarUnit, if_neg hsurrogate]
    simp only [hself, if_neg hsurrogate, if_pos hlt]

variable {u v : UInt16}

/-- The code point of a pair. -/
def pairValue (u v : UInt16) : ℕ := 0x10000 + (u.toNat - 0xD800) * 0x400 + (v.toNat - 0xDC00)

theorem pair_bounds (h : (isHighSurrogate u && isLowSurrogate v) = true) :
    (0xD800 ≤ u.toNat ∧ u.toNat < 0xDC00) ∧ 0xDC00 ≤ v.toNat ∧ v.toNat < 0xE000 := by
  rw [Bool.and_eq_true, isHighSurrogate_iff, isLowSurrogate_iff] at h
  exact h

theorem isScalar_pairValue (h : (isHighSurrogate u && isLowSurrogate v) = true) :
    IsScalar (pairValue u v) := by
  have hbounds := pair_bounds h
  unfold IsScalar pairValue
  omega

theorem utf8Pair_eq (u v : UInt16) : utf8Pair u v = utf8Scalar (pairValue u v) := by
  have hle : 0x10000 ≤ pairValue u v := by
    unfold pairValue
    omega
  rw [utf8Scalar, if_neg (by omega), if_neg (by omega), if_neg (by omega)]
  rfl

theorem unitsOf_pairValue (h : (isHighSurrogate u && isLowSurrogate v) = true) :
    unitsOf (pairValue u v) = [u, v] := by
  have hbounds := pair_bounds h
  have hhigh : 0xD800 + (pairValue u v - 0x10000) / 0x400 = u.toNat := by
    unfold pairValue
    omega
  have hlow : 0xDC00 + (pairValue u v - 0x10000) % 0x400 = v.toNat := by
    unfold pairValue
    omega
  rw [unitsOf, if_neg (by unfold pairValue; omega), hhigh, hlow,
    show u.toNat.toUInt16 = u from UInt16.ofNat_toNat,
    show v.toNat.toUInt16 = v from UInt16.ofNat_toNat]

/-- **A text is read back from its bytes**, whatever follows them. -/
theorem feed_utf8_append (t : JsString) (bs : List UInt8) : fresh.feed (utf8 t ++ bs) =
    (fresh.feed bs).map fun q => (toWellFormed t ++ q.1, q.2) := by
  fun_induction utf8 t with
  | case1 =>
    rw [List.nil_append, toWellFormed]
    cases fresh.feed bs with
    | none => rfl
    | some q => rfl
  | case2 u =>
    rw [utf8Unit_eq, feed_utf8Scalar (isScalar_scalarUnit u), unitsOf_toNat, toWellFormed]
  | case3 u v rest hpair ih =>
    rw [utf8Pair_eq, List.append_assoc, feed_utf8Scalar (isScalar_pairValue hpair),
      unitsOf_pairValue hpair, ih, Option.map_map, toWellFormed, if_pos hpair]
    rfl
  | case4 u v rest hpair ih =>
    rw [utf8Unit_eq, List.append_assoc, feed_utf8Scalar (isScalar_scalarUnit u), unitsOf_toNat, ih,
      Option.map_map, toWellFormed, if_neg hpair]
    rfl

theorem feed_utf8 (t : JsString) : fresh.feed (utf8 t) = some (toWellFormed t, fresh) := by
  have happend := feed_utf8_append t []
  rwa [List.append_nil, feed, Option.map_some, List.append_nil] at happend

theorem lossy_utf8 (t : JsString) : fresh.lossy (utf8 t) = toWellFormed t := by
  rw [lossy_of_feed (feed_utf8 t)]
  exact List.append_nil _

theorem length_le_utf8 (t : JsString) : t.length ≤ (utf8 t).length := by
  have hunit : ∀ u, 1 ≤ (utf8Unit u).length := by
    intro u
    rw [utf8Unit]
    split
    · simp
    split
    · simp
    split
    · simp
    · simp
  fun_induction utf8 t with
  | case1 => simp
  | case2 u => exact hunit u
  | case3 u v rest hpair ih =>
    simp only [List.length_append, List.length_cons, utf8Pair]
    omega
  | case4 u v rest hpair ih =>
    have hu := hunit u
    simp only [List.length_append, List.length_cons] at ih ⊢
    omega

/-! ## Encoding what was read -/

theorem utf8_cons_of_not_high (h : isHighSurrogate u = false) (t : JsString) :
    utf8 (u :: t) = utf8Unit u ++ utf8 t := by
  cases t with
  | nil => rw [utf8, utf8, List.append_nil]
  | cons v rest => rw [utf8, h, Bool.false_and, if_neg Bool.false_ne_true]

theorem toNat_toUInt16 {n : ℕ} (h : n < 0x10000) : n.toUInt16.toNat = n :=
  UInt16.toNat_ofNat_of_lt' h

/-- The bytes of a text that begins with a character. -/
theorem utf8_unitsOf_append {n : ℕ} (h : IsScalar n) (t : JsString) :
    utf8 (unitsOf n ++ t) = utf8Scalar n ++ utf8 t := by
  rw [IsScalar] at h
  rw [unitsOf]
  split
  · rename_i hlt
    have hn := toNat_toUInt16 hlt
    have hhigh : isHighSurrogate n.toUInt16 = false := by
      rw [← Bool.not_eq_true, isHighSurrogate_iff, hn]
      omega
    have hlow : isLowSurrogate n.toUInt16 = false := by
      rw [← Bool.not_eq_true, isLowSurrogate_iff, hn]
      omega
    rw [List.singleton_append, utf8_cons_of_not_high hhigh, utf8Unit_eq, scalarUnit, hhigh, hlow,
      if_neg (by simp), hn]
  · rename_i hge
    have hhigh := toNat_toUInt16 (show 0xD800 + (n - 0x10000) / 0x400 < 0x10000 by omega)
    have hlow := toNat_toUInt16 (show 0xDC00 + (n - 0x10000) % 0x400 < 0x10000 by omega)
    have hpair : (isHighSurrogate (0xD800 + (n - 0x10000) / 0x400).toUInt16 &&
        isLowSurrogate (0xDC00 + (n - 0x10000) % 0x400).toUInt16) = true := by
      rw [Bool.and_eq_true, isHighSurrogate_iff, isLowSurrogate_iff, hhigh, hlow]
      omega
    have hvalue : pairValue (0xD800 + (n - 0x10000) / 0x400).toUInt16
        (0xDC00 + (n - 0x10000) % 0x400).toUInt16 = n := by
      unfold pairValue
      rw [hhigh, hlow]
      omega
    rw [List.cons_append, List.singleton_append, utf8, if_pos hpair, utf8Pair_eq, hvalue]

/-- The last byte of a character, or the end of the input. -/
theorem feed_of_needed_one (hneeded : s.needed = 1) (h : s.feed bs = some (t, s')) :
    (∃ b rest t', bs = b :: rest ∧ s.Accepts b ∧ fresh.feed rest = some (t', s') ∧
      t = unitsOf (s.value b) ++ t') ∨ t = [] ∧ 0 < s'.needed := by
  cases bs with
  | nil =>
    cases h
    exact .inr ⟨rfl, by omega⟩
  | cons b rest =>
    left
    rw [feed, Option.bind_eq_some_iff] at h
    obtain ⟨r, hr, h⟩ := h
    have haccepts := accepts_of_push (by omega) hr
    rw [push_last hneeded haccepts] at hr
    cases hr
    obtain ⟨q, hq, h⟩ := Option.map_eq_some_iff.mp h
    cases h
    exact ⟨b, rest, q.1, rfl, haccepts, hq, rfl⟩

/-- A byte in a character that is not the last, or the end of the input. -/
theorem feed_of_needed_more (hneeded : 1 < s.needed) (h : s.feed bs = some (t, s')) :
    (∃ b rest, bs = b :: rest ∧ s.Accepts b ∧
      feed { codePoint := s.value b, needed := s.needed - 1 } rest = some (t, s')) ∨
      t = [] ∧ 0 < s'.needed := by
  cases bs with
  | nil =>
    cases h
    exact .inr ⟨rfl, by omega⟩
  | cons b rest =>
    left
    have haccepts : s.Accepts b := by
      rw [feed, Option.bind_eq_some_iff] at h
      obtain ⟨r, hr, -⟩ := h
      exact accepts_of_push (by omega) hr
    rw [feed_middle hneeded haccepts] at h
    exact ⟨b, rest, rfl, haccepts, h⟩

/-- A character at the beginning of an input, or a part of one that is all of
it. -/
def Begins (bs : List UInt8) (t : JsString) (s : Utf8State) : Prop :=
  (∃ n rest t', IsScalar n ∧ bs = utf8Scalar n ++ rest ∧ rest.length < bs.length ∧
    fresh.feed rest = some (t', s) ∧ t = unitsOf n ++ t') ∨ t = [] ∧ 0 < s.needed

theorem toUInt8_eq {n : ℕ} {b : UInt8} (h : n = b.toNat) : n.toUInt8 = b := by
  rw [h]
  exact UInt8.ofNat_toNat

theorem begins_two {b : UInt8} (hle : 0xC2 ≤ b.toNat) (hlt : b.toNat < 0xE0)
    (h : feed { codePoint := b.toNat % 0x20, needed := 1 } bs = some (t, s')) :
    Begins (b :: bs) t s' := by
  obtain ⟨c, rest, t', rfl, hc, hrest, ht⟩ | hend := feed_of_needed_one rfl h
  · simp only [Accepts] at hc
    simp only [value] at ht
    refine .inl ⟨_, rest, t', .inl ?_, ?_, ?_, hrest, ht⟩
    · omega
    · rw [utf8Scalar, if_neg (by omega), if_pos (by omega), toUInt8_eq (b := b) (by omega),
        toUInt8_eq (b := c) (by omega)]
      rfl
    · simp only [List.length_cons]
      omega
  · exact .inr hend

theorem begins_three {b : UInt8} (hle : 0xE0 ≤ b.toNat) (hlt : b.toNat < 0xF0)
    (h : feed { codePoint := b.toNat % 0x10, needed := 2,
                lower := if b.toNat = 0xE0 then 0xA0 else 0x80,
                upper := if b.toNat = 0xED then 0x9F else 0xBF } bs = some (t, s')) :
    Begins (b :: bs) t s' := by
  obtain ⟨c, rest, rfl, hc, h⟩ | hend := feed_of_needed_more Nat.one_lt_two h
  · obtain ⟨d, rest, t', rfl, hd, hrest, ht⟩ | hend := feed_of_needed_one rfl h
    · simp only [Accepts] at hc hd
      simp only [value] at ht
      refine .inl ⟨_, rest, t', ?_, ?_, ?_, hrest, ht⟩
      · unfold IsScalar
        split at hc <;> split at hc <;> omega
      · have hfirst : 0x800 ≤ (b.toNat % 0x10 * 0x40 + c.toNat % 0x40) * 0x40 + d.toNat % 0x40 := by
          split at hc <;> split at hc <;> omega
        have hle80 : 0x80 ≤ c.toNat ∧ c.toNat ≤ 0xBF := by
          split at hc <;> split at hc <;> omega
        rw [utf8Scalar, if_neg (by omega), if_neg (by omega), if_pos (by omega),
          toUInt8_eq (b := b) (by omega), toUInt8_eq (b := c) (by omega),
          toUInt8_eq (b := d) (by omega)]
        rfl
      · simp
        omega
    · exact .inr hend
  · exact .inr hend

theorem begins_four {b : UInt8} (hle : 0xF0 ≤ b.toNat) (hlt : b.toNat < 0xF5)
    (h : feed { codePoint := b.toNat % 0x08, needed := 3,
                lower := if b.toNat = 0xF0 then 0x90 else 0x80,
                upper := if b.toNat = 0xF4 then 0x8F else 0xBF } bs = some (t, s')) :
    Begins (b :: bs) t s' := by
  obtain ⟨c, rest, rfl, hc, h⟩ | hend := feed_of_needed_more (by simp) h
  · obtain ⟨d, rest, rfl, hd, h⟩ | hend := feed_of_needed_more (by simp) h
    · obtain ⟨e, rest, t', rfl, he, hrest, ht⟩ | hend := feed_of_needed_one rfl h
      · simp only [Accepts] at hc hd he
        simp only [value] at ht
        have hle80 : 0x80 ≤ c.toNat ∧ c.toNat ≤ 0xBF := by
          split at hc <;> split at hc <;> omega
        have hbounds : 0x10 ≤ b.toNat % 0x08 * 0x40 + c.toNat % 0x40 ∧
            b.toNat % 0x08 * 0x40 + c.toNat % 0x40 < 0x110 := by
          split at hc <;> split at hc <;> omega
        refine .inl ⟨_, rest, t', .inr ?_, ?_, ?_, hrest, ht⟩
        · omega
        · rw [utf8Scalar, if_neg (by omega), if_neg (by omega), if_neg (by omega),
            toUInt8_eq (b := b) (by omega), toUInt8_eq (b := c) (by omega),
            toUInt8_eq (b := d) (by omega), toUInt8_eq (b := e) (by omega)]
          rfl
        · simp
          omega
      · exact .inr hend
    · exact .inr hend
  · exact .inr hend

theorem feed_begins {b : UInt8} (h : fresh.feed (b :: bs) = some (t, s')) : Begins (b :: bs) t s' := by
  by_cases hascii : b.toNat < 0x80
  · rw [feed_cons (push_ascii hascii)] at h
    obtain ⟨q, hq, h⟩ := Option.map_eq_some_iff.mp h
    cases h
    refine .inl ⟨b.toNat, bs, q.1, .inl (by omega), ?_, by simp, hq, rfl⟩
    rw [utf8Scalar, if_pos hascii, toUInt8_eq rfl]
    rfl
  · have hpush := push_lead (b := b) (by omega)
    cases hlead : lead b.toNat with
    | none =>
      rw [feed, hpush, hlead] at h
      cases h
    | some s =>
      rw [hlead, Option.map_some] at hpush
      rw [feed_cons_empty hpush] at h
      rw [lead] at hlead
      split at hlead
      · cases hlead
      split at hlead
      · cases hlead
        exact begins_two (by omega) (by omega) h
      split at hlead
      · cases hlead
        exact begins_three (by omega) (by omega) h
      split at hlead
      · cases hlead
        exact begins_four (by omega) (by omega) h
      · cases hlead

/-- **Bytes that are accepted are those of the text they are read as**, and then
those of a character that is not complete. -/
theorem utf8_of_feed (h : fresh.feed bs = some (t, s')) :
    ∃ pending, bs = utf8 t ++ pending ∧ fresh.feed pending = some ([], s') ∧
      (s'.needed = 0 → pending = []) := by
  induction hlength : bs.length using Nat.strong_induction_on generalizing bs t with
  | _ length ih =>
    subst hlength
    cases bs with
    | nil =>
      cases h
      exact ⟨[], rfl, rfl, fun _ => rfl⟩
    | cons b bs =>
      obtain ⟨n, rest, t', hn, hbytes, hshorter, hrest, rfl⟩ | hend := feed_begins h
      · obtain ⟨pending, hpending, hfeed, hnone⟩ := ih rest.length hshorter hrest rfl
        refine ⟨pending, ?_, hfeed, hnone⟩
        rw [hbytes, utf8_unitsOf_append hn, List.append_assoc, ← hpending]
      · obtain ⟨rfl, hneeded⟩ := hend
        exact ⟨b :: bs, rfl, h, fun hzero => by omega⟩

end UmansGate.Lib
