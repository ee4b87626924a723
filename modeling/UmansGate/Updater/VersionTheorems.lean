/-
UmansGate.Updater.VersionTheorems — `compareVersions` beside the order of
semantic versions.

A version is split at every dot, so the PATCH of a pre-release is read
with its hyphen, as NaN, which is apart from nothing; the identifiers
behind the pre-release's first dot are read as numbers and compared with
what stands there in the other version, zero where nothing does. The two
orders agree where the numbers decide and are read apart (`ReadApart`),
and elsewhere only where what is read apart behind MAJOR, of pre-releases
their identifiers, happens to stand in the order of the versions
(`ReadLess`).
-/
import UmansGate.Updater.Versions

namespace UmansGate.Updater

open UmansGate.Lib Json

variable {a b c : Version}

/-! ## The order of semantic versions -/

instance : Std.OrientedCmp Identifier.order where
  eq_swap {x y} := by
    cases x <;> cases y <;> simp only [Identifier.order]
    · exact Std.OrientedCmp.eq_swap
    · rfl
    · rfl
    · exact Std.OrientedCmp.eq_swap

instance : Std.TransCmp Identifier.order where
  isLE_trans {x y z} hxy hyz := by
    cases x <;> cases y <;> cases z <;> simp only [Identifier.order] at hxy hyz ⊢
    all_goals first | exact Std.TransCmp.isLE_trans hxy hyz | contradiction | rfl

instance : Std.LawfulEqCmp Identifier.order where
  compare_self {x} := Std.ReflCmp.compare_self
  eq_of_compare {x y} h := by
    cases x <;> cases y <;> simp only [Identifier.order] at h
    · rw [Nat.compare_eq_eq.mp h]
    · cases h
    · cases h
    · rename_i s t
      have htext : s.text = t.text := Std.LawfulEqCmp.eq_of_compare h
      cases s
      cases t
      cases htext
      rfl

instance : Std.OrientedCmp preOrder where
  eq_swap {xs ys} := by
    cases xs <;> cases ys <;> simp only [preOrder]
    · rfl
    · rfl
    · rfl
    · exact Std.OrientedCmp.eq_swap

instance : Std.TransCmp preOrder where
  isLE_trans {xs ys zs} hxy hyz := by
    cases xs <;> cases ys <;> cases zs <;> simp only [preOrder] at hxy hyz ⊢
    all_goals first | exact Std.TransCmp.isLE_trans hxy hyz | contradiction | rfl

instance : Std.LawfulEqCmp preOrder where
  compare_self {xs} := Std.ReflCmp.compare_self
  eq_of_compare {xs ys} h := by
    cases xs <;> cases ys <;> simp only [preOrder] at h
    · rfl
    · cases h
    · cases h
    · exact Std.LawfulEqCmp.eq_of_compare h

theorem precedence_eq_compareLex : precedence =
    compareLex (compareOn Version.major) (compareLex (compareOn Version.minor)
      (compareLex (compareOn Version.patch) fun a b => preOrder a.pre b.pre)) := rfl

instance : Std.OrientedCmp fun a b : Version => preOrder a.pre b.pre where
  eq_swap := Std.OrientedCmp.eq_swap

instance : Std.TransCmp fun a b : Version => preOrder a.pre b.pre where
  isLE_trans := Std.TransCmp.isLE_trans

instance : Std.TransCmp precedence := by
  rw [precedence_eq_compareLex]
  infer_instance

theorem precedence_self (a : Version) : precedence a a = .eq := Std.ReflCmp.compare_self

/-- The order is a linear one: only a version itself is equal to it. -/
theorem eq_of_precedence_eq (h : precedence a b = .eq) : a = b := by
  simp only [precedence, Ordering.then_eq_eq, Nat.compare_eq_eq] at h
  obtain ⟨hmajor, hminor, hpatch, hpre⟩ := h
  have hids : a.pre = b.pre := Std.LawfulEqCmp.eq_of_compare hpre
  cases a
  cases b
  simp_all only

/-! ## What is read of a version -/

def Identifier.read (i : Identifier) : Num ℚ := numberOf i.text

/-- The numbers of the pieces: the PATCH of a pre-release is read with the
hyphen, and the first identifier with it. -/
def Version.reads (v : Version) : List (Num ℚ) :=
  toDouble v.major :: toDouble v.minor ::
    match v.pre with
    | [] => [toDouble v.patch]
    | _ :: ids => .nan :: ids.map Identifier.read

theorem isDigit_ne_dot {u : UInt16} (h : isDigit u = true) : u ≠ 46 := by
  rintro rfl
  exact absurd h (by decide)

theorem Identifier.units (i : Identifier) : ∀ u ∈ i.text, u ≠ 46 ∧ isSpaceUnit u = false := by
  intro u hu
  cases i with
  | numeric n =>
    have hdigit := isDigit_of_mem_indexKey hu
    exact ⟨isDigit_ne_dot hdigit, isSpaceUnit_of_isDigit hdigit⟩
  | alphanumeric t =>
    have hunit := List.all_eq_true.mp t.units u hu
    have h90 : (90 : UInt16).toNat = 90 := rfl
    simp only [isIdentifierUnit, isDigit, Bool.or_eq_true, Bool.and_eq_true, decide_eq_true_eq,
      UInt16.le_iff_toNat_le, ← UInt16.toNat_inj, UInt16.reduceToNat] at hunit
    simp only [ne_eq, isSpaceUnit, UInt16.le_iff_toNat_le, ← UInt16.toNat_inj, UInt16.reduceToNat,
      Bool.or_eq_false_iff, Bool.and_eq_false_iff, decide_eq_false_iff_not]
    omega

theorem dot_not_mem_indexKey (n : ℕ) : (46 : UInt16) ∉ indexKey n :=
  fun h => isDigit_ne_dot (isDigit_of_mem_indexKey h) rfl

theorem dot_not_mem_text (i : Identifier) : (46 : UInt16) ∉ i.text :=
  fun h => (i.units 46 h).1 rfl

theorem text_eq_intercalate (v : Version) :
    v.text = [46].intercalate (indexKey v.major :: indexKey v.minor ::
      match v.pre with
      | [] => [indexKey v.patch]
      | i :: ids => (indexKey v.patch ++ 45 :: i.text) :: ids.map Identifier.text) := by
  rw [Version.text]
  cases v.pre with
  | nil => simp
  | cons i ids => cases ids <;> simp [List.intercalate]

theorem pieces_text (v : Version) : pieces v.text = v.reads := by
  rw [pieces, text_eq_intercalate, Version.reads]
  cases v.pre with
  | nil =>
    rw [List.splitOn_intercalate 46 (by simp [dot_not_mem_indexKey]) (by simp)]
    simp [numberOf_indexKey]
  | cons i ids =>
    rw [List.splitOn_intercalate 46 ?_ (by simp)]
    · simp [numberOf_indexKey, numberOf_indexKey_hyphen _ fun u hu => (i.units u hu).2,
        Identifier.read, Function.comp_def]
    · simp [dot_not_mem_indexKey, dot_not_mem_text]

/-! ## What is compared -/

/-- One round of the loop. -/
theorem verdict_eq (va vb : Num ℚ) :
    (if va.lt vb then some (-1) else if vb.lt va then some 1 else none) =
      if va.order vb = .eq then none else some (orderSign (va.order vb)) := by
  unfold Num.order
  split
  · rfl
  · split <;> rfl

theorem compareVersions_eq (s t : JsString) :
    compareVersions s t = orderSign (comparePieces Num.order (.fin 0) (pieces s) (pieces t)) :=
  findSome?_comparePieces verdict_eq (pieces s) (pieces t)

theorem compareVersions_text (a b : Version) :
    compareVersions a.text b.text =
      orderSign (comparePieces Num.order (.fin 0) a.reads b.reads) := by
  rw [compareVersions_eq, pieces_text, pieces_text]

theorem orderSign_swap (o : Ordering) : orderSign o.swap = -orderSign o := by
  cases o <;> rfl

/-- For any two strings. -/
theorem compareVersions_swap (s t : JsString) : compareVersions s t = -compareVersions t s := by
  rw [compareVersions_eq, compareVersions_eq, comparePieces_swap Num.order_swap (pieces t),
    orderSign_swap]

/-! ## Where the two orders agree -/

/-- The number that decides is read apart: MAJOR, or MINOR under one MAJOR,
or PATCH of two releases under one MAJOR and MINOR, which may also be one. -/
def ReadApart (a b : Version) : Prop :=
  toDouble a.major ≠ toDouble b.major ∨
    a.major = b.major ∧ (toDouble a.minor ≠ toDouble b.minor ∨
      a.minor = b.minor ∧ a.pre = [] ∧ b.pre = [] ∧
        (toDouble a.patch ≠ toDouble b.patch ∨ a.patch = b.patch))

/-- The first two identifiers that are read apart, zero where one is missing,
are less in the first list. -/
def IdentifiersLess (ids ids' : List Identifier) : Prop :=
  FirstLess Num.order (.fin 0) (ids.map Identifier.read) (ids'.map Identifier.read)

/-- The first version is read as less: in MINOR, in the PATCH of two releases, or
in the identifiers behind the first dot of the pre-releases. -/
inductive ReadLess (a b : Version) : Prop where
  | minor (less : (toDouble a.minor).lt (toDouble b.minor) = true)
  | patch (minor : toDouble a.minor = toDouble b.minor) (releases : a.pre = [] ∧ b.pre = [])
      (less : (toDouble a.patch).lt (toDouble b.patch) = true)
  | identifiers (minor : toDouble a.minor = toDouble b.minor) (pre : ¬ (a.pre = [] ∧ b.pre = []))
      (less : IdentifiersLess a.pre.tail b.pre.tail)

/-- The versions are one, their numbers decide, or what is read apart happens to
stand in their order. -/
def ReadInOrder (a b : Version) : Prop :=
  ReadApart a b ∨ a = b ∨ precedence a b = .lt ∧ ReadLess a b ∨
    precedence a b = .gt ∧ ReadLess b a

/-- The order of what is read. -/
def readOrder (a b : Version) : Ordering := comparePieces Num.order (.fin 0) a.reads b.reads

theorem readOrder_eq (a b : Version) :
    readOrder a b = ((toDouble (a.major : ℚ)).order (toDouble b.major)).then
      (comparePieces Num.order (.fin 0) a.reads.tail b.reads.tail) := rfl

theorem readOrder_tail (a b : Version) :
    comparePieces Num.order (.fin 0) a.reads.tail b.reads.tail =
      ((toDouble (a.minor : ℚ)).order (toDouble b.minor)).then
        (comparePieces Num.order (.fin 0) a.reads.tail.tail b.reads.tail.tail) := rfl

theorem readOrder_release (ha : a.pre = []) (hb : b.pre = []) :
    comparePieces Num.order (.fin 0) a.reads.tail.tail b.reads.tail.tail =
      (toDouble (a.patch : ℚ)).order (toDouble b.patch) := by
  simp [Version.reads, ha, hb]

theorem readOrder_self (a : Version) : readOrder a a = .eq := comparePieces_self Num.order_self _

/-- Numbers that are read apart decide in both orders alike. -/
theorem then_eq_of_apart {m n : ℕ} (h : toDouble (m : ℚ) ≠ toDouble n) (o o' : Ordering) :
    ((toDouble (m : ℚ)).order (toDouble n)).then o = (compare m n).then o' := by
  rw [(order_toDouble m n).resolve_left h]
  have hne : m ≠ n := fun heq => h (by rw [heq])
  rcases Nat.lt_or_gt_of_ne hne with hlt | hgt
  · rw [Nat.compare_eq_lt.mpr hlt]
    rfl
  · rw [Nat.compare_eq_gt.mpr hgt]
    rfl

theorem readOrder_of_readApart (h : ReadApart a b) : readOrder a b = precedence a b := by
  rw [readOrder_eq, precedence]
  rcases h with hmajor | ⟨hmajor, h⟩
  · exact then_eq_of_apart hmajor _ _
  rw [hmajor, Num.order_self, Nat.compare_eq_eq.mpr rfl, readOrder_tail]
  rcases h with hminor | ⟨hminor, ha, hb, hpatch⟩
  · exact then_eq_of_apart hminor _ _
  rw [hminor, Num.order_self, Nat.compare_eq_eq.mpr rfl, readOrder_release ha hb, ha, hb]
  show (toDouble (a.patch : ℚ)).order (toDouble b.patch) = (compare a.patch b.patch).then .eq
  rw [Ordering.then_eq]
  rcases hpatch with hpatch | hpatch
  · exact (order_toDouble _ _).resolve_left hpatch
  · rw [hpatch, Num.order_self, Nat.compare_eq_eq.mpr rfl]

theorem readOrder_of_not_readApart (h : ¬ ReadApart a b) :
    readOrder a b = comparePieces Num.order (.fin 0) a.reads.tail b.reads.tail := by
  have hmajor : toDouble (a.major : ℚ) = toDouble b.major := by
    by_contra hne
    exact h (.inl hne)
  rw [readOrder_eq, hmajor, Num.order_self]
  rfl

theorem not_firstLess_nil : ¬ FirstLess Num.order (.fin (0 : ℚ)) [] [] := by
  rintro ⟨i, -, hi⟩
  exact absurd hi (by simp [Num.order_self])

/-- What is less behind MAJOR: a hyphenated PATCH is apart from nothing, so of
pre-releases it is the identifiers. -/
theorem firstLess_reads_iff (a b : Version) :
    FirstLess Num.order (.fin 0) a.reads.tail b.reads.tail ↔ ReadLess a b := by
  have hbehind : FirstLess Num.order (.fin 0) a.reads.tail b.reads.tail ↔
      (toDouble (a.minor : ℚ)).lt (toDouble b.minor) = true ∨
        toDouble (a.minor : ℚ) = toDouble b.minor ∧
          FirstLess Num.order (.fin 0) a.reads.tail.tail b.reads.tail.tail := by
    rw [firstLess_iff, ← Num.order_eq_lt_iff, ← order_toDouble_eq_iff]
    rfl
  have hreleases : a.pre = [] ∧ b.pre = [] →
      (FirstLess Num.order (.fin 0) a.reads.tail.tail b.reads.tail.tail ↔
        (toDouble (a.patch : ℚ)).lt (toDouble b.patch) = true) := by
    rintro ⟨ha, hb⟩
    rw [firstLess_iff]
    simp [Version.reads, ha, hb, Num.order_eq_lt_iff, not_firstLess_nil]
  have hpre : ¬ (a.pre = [] ∧ b.pre = []) →
      (FirstLess Num.order (.fin 0) a.reads.tail.tail b.reads.tail.tail ↔
        IdentifiersLess a.pre.tail b.pre.tail) := by
    intro hpre
    rw [firstLess_iff, IdentifiersLess]
    cases ha : a.pre with
    | nil =>
      cases hb : b.pre with
      | nil => exact absurd ⟨ha, hb⟩ hpre
      | cons i ids => simp [Version.reads, ha, hb]
    | cons i ids => cases hb : b.pre <;> simp [Version.reads, ha, hb]
  rw [hbehind]
  constructor
  · rintro (hminor | ⟨hminor, hrest⟩)
    · exact .minor hminor
    · by_cases hnone : a.pre = [] ∧ b.pre = []
      · exact .patch hminor hnone ((hreleases hnone).mp hrest)
      · exact .identifiers hminor hnone ((hpre hnone).mp hrest)
  · intro h
    cases h with
    | minor less => exact .inl less
    | patch minor releases less => exact .inr ⟨minor, (hreleases releases).mpr less⟩
    | identifiers minor pre less => exact .inr ⟨minor, (hpre pre).mpr less⟩

theorem ne_of_precedence (h : precedence a b ≠ .eq) : a ≠ b := by
  rintro rfl
  exact h (precedence_self a)

theorem readOrder_eq_precedence_iff (a b : Version) :
    readOrder a b = precedence a b ↔ ReadInOrder a b := by
  by_cases happart : ReadApart a b
  · exact iff_of_true (readOrder_of_readApart happart) (.inl happart)
  rw [ReadInOrder, or_iff_right happart]
  have hzero : (Num.fin (0 : ℚ)).order (.fin 0) = .eq := Num.order_self _
  cases hprecedence : precedence a b with
  | lt =>
    have hne : a ≠ b := ne_of_precedence (by simp [hprecedence])
    rw [readOrder_of_not_readApart happart, comparePieces_eq_lt_iff hzero, firstLess_reads_iff]
    simp [hne]
  | eq =>
    obtain rfl := eq_of_precedence_eq hprecedence
    simp [readOrder_self]
  | gt =>
    have hne : a ≠ b := ne_of_precedence (by simp [hprecedence])
    rw [readOrder_of_not_readApart happart, comparePieces_eq_gt_iff Num.order_swap hzero,
      firstLess_reads_iff]
    simp [hne]

/-! ## The laws -/

theorem orderSign_injective : Function.Injective orderSign := by
  intro o o' h
  cases o <;> cases o' <;> first | rfl | exact absurd h (by decide)

theorem orderSign_neg {o : Ordering} : orderSign o < 0 ↔ o = .lt := by
  cases o <;> decide

theorem orderSign_nonpos {o : Ordering} : orderSign o ≤ 0 ↔ o.isLE = true := by
  cases o <;> decide

/-- What is asked of the comparison of `a` and `b`, and of the update checks
of an installed `a` where `b` is the latest. -/
structure PairLaws (a b : Version) : Prop where
  antisymmetric : compareVersions a.text b.text = -compareVersions b.text a.text
  agrees : compareVersions a.text b.text = orderSign (precedence a b)
  release : b.IsPreReleaseOf a → 0 < compareVersions a.text b.text
  available : updateAvailable a.text (some b.text) = true ↔ precedence a b = .lt
  notice : checkForUpdate a.text (some b.text) = .available ↔ precedence a b = .lt
  install : performUpdate a.text (some b.text) = true ↔ precedence a b = .lt

structure OrderLaws (a b c : Version) : Prop where
  first : PairLaws a b
  second : PairLaws b c
  outer : PairLaws a c
  transitive : compareVersions a.text b.text ≤ 0 → compareVersions b.text c.text ≤ 0 →
    compareVersions a.text c.text ≤ 0

theorem precedence_of_isPreReleaseOf (h : b.IsPreReleaseOf a) : precedence a b = .gt := by
  obtain ⟨hrelease, hpre, hmajor, hminor, hpatch⟩ := h
  rw [precedence, hmajor, hminor, hpatch, hrelease]
  cases hids : b.pre with
  | nil => exact absurd hids hpre
  | cons i ids => simp [preOrder]

theorem pairLaws_of_agrees (h : compareVersions a.text b.text = orderSign (precedence a b)) :
    PairLaws a b where
  antisymmetric := compareVersions_swap _ _
  agrees := h
  release hpre := by
    rw [h, precedence_of_isPreReleaseOf hpre]
    decide
  available := by
    rw [updateAvailable, h, decide_eq_true_eq, orderSign_neg]
  notice := by
    rw [checkForUpdate, h]
    cases precedence a b <;> decide
  install := by
    rw [performUpdate, h, decide_eq_true_eq, not_le, orderSign_neg]

theorem pairLaws_iff (a b : Version) : PairLaws a b ↔ ReadInOrder a b := by
  have hagrees : compareVersions a.text b.text = orderSign (precedence a b) ↔ ReadInOrder a b := by
    rw [compareVersions_text, ← readOrder_eq_precedence_iff]
    exact orderSign_injective.eq_iff
  exact ⟨fun h => hagrees.mp h.agrees, fun h => pairLaws_of_agrees (hagrees.mpr h)⟩

/-- **The comparison is an order of versions and agrees with theirs exactly
where the versions are read in order.** -/
theorem compareVersions_lawful_iff (a b c : Version) :
    OrderLaws a b c ↔ ReadInOrder a b ∧ ReadInOrder b c ∧ ReadInOrder a c := by
  constructor
  · intro h
    exact ⟨(pairLaws_iff a b).mp h.first, (pairLaws_iff b c).mp h.second,
      (pairLaws_iff a c).mp h.outer⟩
  · rintro ⟨hab, hbc, hac⟩
    have first := (pairLaws_iff a b).mpr hab
    have second := (pairLaws_iff b c).mpr hbc
    have outer := (pairLaws_iff a c).mpr hac
    refine ⟨first, second, outer, fun hle₁ hle₂ => ?_⟩
    rw [first.agrees, orderSign_nonpos] at hle₁
    rw [second.agrees, orderSign_nonpos] at hle₂
    rw [outer.agrees, orderSign_nonpos]
    exact Std.TransCmp.isLE_trans hle₁ hle₂

/-! ## A release and its pre-releases -/

/-- The hyphenated PATCH hides the pre-release, and no identifier behind it
that is read as zero or more puts it below the release. -/
theorem compareVersions_isPreReleaseOf (h : b.IsPreReleaseOf a)
    (hread : ∀ i ∈ b.pre.tail, i.read.lt (.fin 0) = false) :
    compareVersions a.text b.text ≤ 0 := by
  obtain ⟨hrelease, hpre, hmajor, hminor, -⟩ := h
  have hrest : readOrder a b =
      comparePieces Num.order (.fin 0) [] (b.pre.tail.map Identifier.read) := by
    rw [readOrder_eq, readOrder_tail, hmajor, hminor, Num.order_self, Num.order_self]
    cases hids : b.pre with
    | nil => exact absurd hids hpre
    | cons i ids => simp [Version.reads, hrelease, hids, Ordering.then]
  have hne : readOrder a b ≠ .gt := by
    rw [hrest]
    refine comparePieces_nil_ne_gt fun x hx => ?_
    obtain ⟨i, hi, rfl⟩ := List.mem_map.mp hx
    rw [Num.order, hread i hi]
    split <;> simp
  rw [compareVersions_text, orderSign_nonpos]
  exact Ordering.isLE_iff_ne_gt.mpr hne

/-- 1.0.0-rc with what follows behind a dot. -/
def rc (ids : List Identifier) : Version :=
  ⟨1, 0, 0, .alphanumeric ⟨js "rc", by decide, by decide⟩ :: ids⟩

/-- 1.0.0-rc.1 is offered to an installed 1.0.0, and 1.0.0-rc stands on one
level with two releases of which one is above the other. -/
theorem compareVersions_preRelease :
    compareVersions (js "1.0.0") (js "1.0.0-rc.1") = -1 ∧
      updateAvailable (js "1.0.0") (some (js "1.0.0-rc.1")) = true ∧
      compareVersions (js "1.0.2") (js "1.0.0-rc") = 0 ∧
      compareVersions (js "1.0.0-rc") (js "1.0.1") = 0 ∧
      compareVersions (js "1.0.2") (js "1.0.1") = 1 ∧
      ¬ ∀ a b c, OrderLaws a b c := by
  have htexts : js "1.0.0" = (⟨1, 0, 0, []⟩ : Version).text ∧
      js "1.0.1" = (⟨1, 0, 1, []⟩ : Version).text ∧ js "1.0.2" = (⟨1, 0, 2, []⟩ : Version).text ∧
      js "1.0.0-rc" = (rc []).text ∧ js "1.0.0-rc.1" = (rc [.numeric 1]).text := by
    decide
  obtain ⟨h100, h101, h102, hrc, hrc1⟩ := htexts
  have hreads : ∀ n : ℕ, n < 3 → toDouble (n : ℚ) = .fin n := fun n hn =>
    toDouble_natCast (by omega)
  have h0 := hreads 0 (by omega)
  have h1 := hreads 1 (by omega)
  have h2 := hreads 2 (by omega)
  have hlower : compareVersions (js "1.0.0") (js "1.0.0-rc.1") = -1 := by
    rw [h100, hrc1, compareVersions_text]
    simp only [Version.reads, rc, h0, h1, List.map_cons, List.map_nil, Identifier.read,
      Identifier.text, numberOf_indexKey]
    decide +kernel
  refine ⟨hlower, ?_, ?_, ?_, ?_, fun hlaws => ?_⟩
  · rw [updateAvailable, hlower]
    rfl
  · rw [h102, hrc, compareVersions_text]
    simp only [Version.reads, rc, h0, h1, h2, List.map_nil]
    decide +kernel
  · rw [h101, hrc, compareVersions_text]
    simp only [Version.reads, rc, h0, h1, List.map_nil]
    decide +kernel
  · rw [h101, h102, compareVersions_text]
    simp only [Version.reads, h0, h1, h2]
    decide +kernel
  · have hrelease := (hlaws ⟨1, 0, 0, []⟩ (rc [.numeric 1]) (rc [])).first.release
      ⟨rfl, List.cons_ne_nil _ _, rfl, rfl, rfl⟩
    rw [← h100, ← hrc1, hlower] at hrelease
    exact absurd hrelease (by decide)

/-- Numbers of up to 53 bits decide between versions of two MAJOR.MINOR and
between releases. -/
theorem readInOrder_of_small (ha : a.major < 2 ^ 53 ∧ a.minor < 2 ^ 53 ∧ a.patch < 2 ^ 53)
    (hb : b.major < 2 ^ 53 ∧ b.minor < 2 ^ 53 ∧ b.patch < 2 ^ 53)
    (h : a.major ≠ b.major ∨ a.minor ≠ b.minor ∨ a.pre = [] ∧ b.pre = []) : ReadInOrder a b := by
  have hapart : ∀ {m n : ℕ}, m < 2 ^ 53 → n < 2 ^ 53 → m ≠ n →
      toDouble (m : ℚ) ≠ toDouble n := by
    intro m n hm hn hne heq
    rw [toDouble_natCast hm, toDouble_natCast hn, Num.fin.injEq, Nat.cast_inj] at heq
    exact hne heq
  refine .inl ?_
  by_cases hmajor : a.major = b.major
  · refine .inr ⟨hmajor, ?_⟩
    by_cases hminor : a.minor = b.minor
    · obtain ⟨hpreA, hpreB⟩ := (h.resolve_left (not_not_intro hmajor)).resolve_left
        (not_not_intro hminor)
      refine .inr ⟨hminor, hpreA, hpreB, ?_⟩
      by_cases hpatch : a.patch = b.patch
      · exact .inr hpatch
      · exact .inl (hapart ha.2.2 hb.2.2 hpatch)
    · exact .inl (hapart ha.2.1 hb.2.1 hminor)
  · exact .inl (hapart ha.1 hb.1 hmajor)

/-! ## What the registry and GitHub return -/

theorem text_eq_cons (v : Version) : ∃ u rest, v.text = u :: rest ∧ isDigit u = true := by
  rw [text_eq_intercalate, List.intercalate_cons_cons]
  cases hmajor : indexKey v.major with
  | nil => exact absurd hmajor (indexKey_ne_nil v.major)
  | cons u digits =>
    exact ⟨u, _, rfl, isDigit_of_mem_indexKey (by rw [hmajor]; exact List.mem_cons_self)⟩

theorem text_ne_nil (v : Version) : v.text ≠ [] := by
  obtain ⟨u, rest, htext, -⟩ := text_eq_cons v
  rw [htext]
  exact List.cons_ne_nil u rest

/-- A tag is the version, with or without a `v`. -/
theorem stripV_text (v : Version) : stripV v.text = v.text ∧ stripV (118 :: v.text) = v.text := by
  obtain ⟨u, rest, htext, hdigit⟩ := text_eq_cons v
  refine ⟨if_neg ?_, rfl⟩
  rw [htext, List.head?_cons, Option.some.injEq]
  rintro rfl
  exact absurd hdigit (by decide)

theorem fetchLatestVersion_npm {data : Json} (h : data.str? (js "version") = some b.text)
    (github : Option Json) : fetchLatestVersion (some data) github = some b.text := by
  simp [fetchLatestVersion, fetchVersionFromNpm, h, text_ne_nil]

theorem fetchLatestVersion_github {npm : Option Json} {data : Json}
    (hnpm : fetchVersionFromNpm npm = none)
    (h : data.str? (js "tag_name") = some (118 :: b.text)) :
    fetchLatestVersion npm (some data) = some b.text := by
  simp [fetchLatestVersion, hnpm, fetchVersionFromGithub, h, (stripV_text b).2, text_ne_nil]

end UmansGate.Updater
