/-
UmansGate.Lib.JsText — what the language does with the text of a string:
`trim` and `split`.
-/
import Mathlib.Data.List.SplitOn
import UmansGate.Lib.Json

namespace UmansGate.Lib

/-- White space and line terminators. -/
def isSpaceUnit (u : UInt16) : Bool :=
  (9 ≤ u && u ≤ 13) || u = 32 || u = 0xA0 || u = 0x1680 || (0x2000 ≤ u && u ≤ 0x200A) ||
    u = 0x2028 || u = 0x2029 || u = 0x202F || u = 0x205F || u = 0x3000 || u = 0xFEFF

/-- `s.trim()`. -/
def trim (s : JsString) : JsString :=
  ((s.dropWhile isSpaceUnit).reverse.dropWhile isSpaceUnit).reverse

/-- `s.split("\n")`. -/
def linesOf (s : JsString) : List JsString := s.splitOn 10

theorem intercalate_lf (c : JsString) (p : List JsString) :
    ([10] : JsString).intercalate (c :: p) = c ++ p.flatMap (10 :: ·) := by
  induction p generalizing c with
  | nil => simp
  | cons l p ih => rw [List.intercalate_cons_cons, ih]; simp

/-- A text that begins without a space. -/
theorem dropWhile_of_head {s : JsString} (h : s.head?.any isSpaceUnit = false) :
    s.dropWhile isSpaceUnit = s := by
  cases s with
  | nil => rfl
  | cons u s => simp_all

/-- A text that begins and ends without a space, with spaces behind it. -/
theorem trim_append {s t : JsString} (hhead : s.head?.any isSpaceUnit = false)
    (hlast : s.getLast?.any isSpaceUnit = false) (hne : s ≠ [])
    (ht : ∀ u ∈ t, isSpaceUnit u = true) : trim (s ++ t) = s := by
  have hfront : (s ++ t).dropWhile isSpaceUnit = s ++ t := by
    refine dropWhile_of_head ?_
    rwa [List.head?_append_of_ne_nil _ hne]
  have hback : s.reverse.dropWhile isSpaceUnit = s.reverse :=
    dropWhile_of_head (by rwa [List.head?_reverse])
  rw [trim, hfront, List.reverse_append, List.dropWhile_append_of_pos (by simpa using ht), hback,
    List.reverse_reverse]

end UmansGate.Lib
