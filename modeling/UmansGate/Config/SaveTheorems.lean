/-
UmansGate.Config.SaveTheorems — what a run of saves does to the file.

A normalized configuration is `Normal`, and normalizing leaves it as it is
(`normalize_of_normal`), also once it was written and read back. The rules
but two look at no vision key (`mem_FIELD_RULES`), so a change of the vision
strategy alone is accepted exactly where the reservation fits
(`accepts_strategy_iff`). A save under "never" writes the reservation 0,
which fits only where there are no reservations (`saves_keep_strategies_iff`).
-/
import UmansGate.Config.File
import UmansGate.Lib.Transition

namespace UmansGate.Config

open UmansGate.Lib

variable {n n' : RawConfig} {raw file patch : RawInput} {key : Key} {v : Value}

/-! ## Normal configurations -/

/-- Every key is set, numeric strings are numbers, and nothing is reserved for
vision that is off. -/
structure Normal (n : RawConfig) : Prop where
  set : ∀ key, n key ≠ none
  coerced : ∀ key ∈ INT_FIELDS, ∀ v, n key = some v → coerceValue v = v
  reservation : isNever n = true → n .concurrency_vision_reservation = some (.int 0)

theorem coerceValue_of_not_string (h : v.isString = false) : coerceValue v = v := by
  cases v with
  | str s => simp [Value.isString] at h
  | null => rfl
  | bool b => rfl
  | num n => rfl
  | arr items => rfl
  | obj fields => rfl

@[simp] theorem coerceValue_coerceValue (v : Value) : coerceValue (coerceValue v) = coerceValue v := by
  cases v with
  | str s =>
    by_cases hkept : s = [] ∨ numberOf s = .nan
    · simp [coerceValue, hkept]
    · simp [coerceValue, hkept]
  | null => rfl
  | bool b => rfl
  | num n => rfl
  | arr items => rfl
  | obj fields => rfl

theorem coerceValue_default : ∀ key ∈ INT_FIELDS,
    coerceValue (defaultValue key) = defaultValue key := by
  have hnumbers : ∀ key ∈ INT_FIELDS, (defaultValue key).isString = false := by decide
  exact fun key hkey => coerceValue_of_not_string (hnumbers key hkey)

/-- The configuration before the reservation is looked at. -/
def base (raw : RawInput) : RawConfig := spread DEFAULT_CONFIG (coerceRawForValidation raw)

theorem base_ne_none (raw : RawInput) (key : Key) : base raw key ≠ none := by
  simp only [base, spread, DEFAULT_CONFIG]
  cases coerceRawForValidation raw key <;> simp

theorem base_coerced (raw : RawInput) : ∀ key ∈ INT_FIELDS, ∀ v, base raw key = some v →
    coerceValue v = v := by
  intro key hkey v hv
  simp only [base, spread, coerceRawForValidation, if_pos hkey, DEFAULT_CONFIG] at hv
  cases hraw : raw (.known key) with
  | none =>
    rw [hraw] at hv
    obtain rfl := Option.some.inj hv
    exact coerceValue_default key hkey
  | some w =>
    rw [hraw] at hv
    obtain rfl := Option.some.inj hv
    exact coerceValue_coerceValue w

theorem normalize_eq (raw : RawInput) (key : Key) :
    normalize raw key =
      if key = .concurrency_vision_reservation ∧ isNever (base raw) = true then some (.int 0)
      else base raw key := rfl

theorem normalize_of_ne (hne : key ≠ .concurrency_vision_reservation) :
    normalize raw key = base raw key := by
  simp [normalize_eq, hne]

theorem isNever_normalize : isNever (normalize raw) = isNever (base raw) := by
  unfold isNever
  rw [normalize_of_ne (by decide)]

theorem normal_normalize (raw : RawInput) : Normal (normalize raw) where
  set key := by
    rw [normalize_eq]
    split
    · simp
    · exact base_ne_none raw key
  coerced key hkey v hv := by
    rw [normalize_eq] at hv
    split at hv
    · obtain rfl := Option.some.inj hv
      rfl
    · exact base_coerced raw key hkey v hv
  reservation hnever := by
    rw [isNever_normalize] at hnever
    simp [normalize_eq, hnever]

theorem base_of_normal (h : Normal n) : base n.input = n := by
  funext key
  obtain ⟨v, hv⟩ := Option.ne_none_iff_exists'.mp (h.set key)
  simp only [base, spread, coerceRawForValidation, RawConfig.input]
  split
  · rename_i hkey
    simp [hv, h.coerced key hkey v hv]
  · simp [hv]

/-- Normalizing a normal configuration changes nothing. -/
theorem normalize_of_normal (h : Normal n) : normalize n.input = n := by
  funext key
  rw [normalize_eq, base_of_normal h]
  split
  · rename_i hnever
    rw [hnever.1, h.reservation hnever.2]
  · rfl

/-! ## Written and read back -/

theorem isNever_stored (n : RawConfig) : isNever n.stored = isNever n := by
  simp only [isNever, RawConfig.stored]
  cases n .vision_strategy with
  | none => rfl
  | some v => exact v.isText_stored "never"

theorem hardCap?_stored (n : RawConfig) : hardCap? n.stored = hardCap? n := by
  simp only [hardCap?, RawConfig.stored]
  cases n .concurrency_hard_cap with
  | none => rfl
  | some v => exact v.integer?_stored

theorem coerceValue_stored (h : coerceValue v = v) : coerceValue v.stored = v.stored := by
  cases v with
  | num x => cases x <;> rfl
  | null => rfl
  | bool b => rfl
  | str s => exact h
  | arr items => rfl
  | obj fields => rfl

theorem Normal.stored (h : Normal n) : Normal n.stored where
  set key := by simpa [RawConfig.stored] using h.set key
  coerced key hkey v hv := by
    obtain ⟨w, hw, rfl⟩ := Option.map_eq_some_iff.mp hv
    exact coerceValue_stored (h.coerced key hkey w hw)
  reservation hnever := by
    rw [isNever_stored] at hnever
    simp [RawConfig.stored, h.reservation hnever, Value.int, Value.stored, Num.isFinite]

/-- What a check accepts it accepts once it was read back. -/
theorem fails_stored {check : Check} (h : check.fails v = false) : check.fails v.stored = false := by
  have hinteger : ∀ min max, Check.integerFails min max v.stored = Check.integerFails min max v := by
    simp [Check.integerFails, Value.integer?_stored]
  cases check with
  | integer min max => simpa [Check.fails, hinteger] using h
  | integerOrNull min =>
    simp only [Check.fails, Bool.and_eq_false_iff, Bool.not_eq_false'] at h ⊢
    rw [hinteger]
    exact h.imp_left Value.isNull_stored
  | boolean => simpa [Check.fails] using h
  | text => simpa [Check.fails] using h
  | nonEmptyText => simpa [Check.fails] using h
  | oneOf values => simpa [Check.fails] using h
  | oneOfOrNull values =>
    simp only [Check.fails, Bool.and_eq_false_iff, Bool.not_eq_false', Value.isText_stored] at h ⊢
    exact h.imp_left Value.isNull_stored
  | protocol names =>
    simp only [Check.fails, Bool.not_eq_false'] at h ⊢
    exact Value.namesOneOf_stored h

/-- What a rule accepts it accepts once it was read back. -/
theorem errors_stored {rule : FieldRule} (h : rule.errors n = []) : rule.errors n.stored = [] := by
  cases rule with
  | field key check message =>
    simp only [FieldRule.errors, RawConfig.stored] at h ⊢
    cases hv : n key with
    | none => rfl
    | some v =>
      simp only [hv, Option.map_some] at h ⊢
      cases hfails : check.fails v with
      | true => simp [hfails] at h
      | false => simp [fails_stored hfails]
  | dbPath =>
    simp only [FieldRule.errors, RawConfig.stored] at h ⊢
    cases hv : n .db_path with
    | none => rfl
    | some v =>
      cases v with
      | str s => simpa [hv] using h
      | null => simp [hv] at h
      | bool b => simp [hv] at h
      | num x => simp [hv] at h
      | arr items => simp [hv] at h
      | obj fields => simp [hv] at h
  | mainReservation =>
    simp only [FieldRule.errors, hardCap?_stored, RawConfig.stored] at h ⊢
    cases hv : n .concurrency_main_reservation with
    | none => simp
    | some v =>
      cases hcap : hardCap? n with
      | none => simp
      | some cap =>
        simp only [hv, hcap, Option.map_some, Value.integer?_stored] at h ⊢
        exact h
  | visionReservation =>
    simp only [FieldRule.errors, hardCap?_stored, isNever_stored, RawConfig.stored] at h ⊢
    cases hv : n .concurrency_vision_reservation with
    | none => simp
    | some v =>
      cases hcap : hardCap? n with
      | none => simp
      | some cap =>
        simp only [hv, hcap, Option.map_some, Value.integer?_stored] at h ⊢
        exact h

/-! ## What is accepted -/

/-- The keys that a rule looks at. -/
def FieldRule.reads : FieldRule → List Key
  | .field key _ _ => [key]
  | .dbPath => [.db_path]
  | .mainReservation => [.concurrency_hard_cap, .concurrency_main_reservation]
  | .visionReservation =>
    [.concurrency_hard_cap, .concurrency_vision_reservation, .vision_strategy]

theorem errors_congr {rule : FieldRule} (h : ∀ key ∈ rule.reads, n key = n' key) :
    rule.errors n = rule.errors n' := by
  cases rule with
  | field key check message => simp [FieldRule.errors, h key (by simp [FieldRule.reads])]
  | dbPath => simp [FieldRule.errors, h .db_path (by simp [FieldRule.reads])]
  | mainReservation =>
    simp [FieldRule.errors, hardCap?, h .concurrency_hard_cap (by simp [FieldRule.reads]),
      h .concurrency_main_reservation (by simp [FieldRule.reads])]
  | visionReservation =>
    simp [FieldRule.errors, hardCap?, isNever, h .concurrency_hard_cap (by simp [FieldRule.reads]),
      h .concurrency_vision_reservation (by simp [FieldRule.reads]),
      h .vision_strategy (by simp [FieldRule.reads])]

/-- The rule of the strategy itself. -/
def strategyRule : FieldRule :=
  .field .vision_strategy (.oneOf ["never", "catalog", "always"])
    "vision_strategy must be 'never', 'catalog', or 'always'"

/-- Two rules look at the strategy, and one of them at the reservation. -/
theorem mem_FIELD_RULES : ∀ rule ∈ FIELD_RULES,
    (∀ key ∈ rule.reads, key ≠ .vision_strategy ∧ key ≠ .concurrency_vision_reservation) ∨
      rule = .visionReservation ∨ rule = strategyRule := by
  decide

/-- No rule throws or finds an error. -/
def Fine (n : RawConfig) : Prop :=
  (n .upstream_protocol).any Value.stringThrows = false ∧ ∀ rule ∈ FIELD_RULES, rule.errors n = []

theorem fieldErrors_eq_nil : fieldErrors n = [] ↔ ∀ rule ∈ FIELD_RULES, rule.errors n = [] := by
  simp [fieldErrors]

theorem validateConfig_ok_iff (ctx : UpstreamRequestsLimit) :
    (∃ r, validateConfig raw ctx = some r ∧ r.ok = true) ↔ Fine (normalize raw) := by
  simp only [validateConfig, Fine, ← fieldErrors_eq_nil]
  cases (normalize raw .upstream_protocol).any Value.stringThrows with
  | true => simp
  | false => simp

theorem validateConfig_normalized {ctx : UpstreamRequestsLimit} {r : ValidationResult}
    (h : validateConfig raw ctx = some r) : r.normalized = normalize raw := by
  unfold validateConfig at h
  simp only at h
  split at h
  · simp at h
  · obtain rfl := Option.some.inj h
    rfl

theorem Fine.stored (h : Fine n) : Fine n.stored := by
  refine ⟨?_, fun rule hrule => errors_stored (h.2 rule hrule)⟩
  have hthrows := h.1
  simp only [RawConfig.stored]
  cases hv : n .upstream_protocol with
  | none => rfl
  | some v => simpa [hv, Value.stringThrows_stored] using hthrows

/-- A fine normal configuration is accepted as it is. -/
theorem validateConfig_of_fine (hnormal : Normal n) (hfine : Fine n)
    (ctx : UpstreamRequestsLimit) :
    ∃ r, validateConfig n.input ctx = some r ∧ r.ok = true ∧ r.normalized = n := by
  have hsame := normalize_of_normal hnormal
  obtain ⟨r, hr, hok⟩ := (validateConfig_ok_iff ctx).mpr (hsame.symm ▸ hfine)
  exact ⟨r, hr, hok, (validateConfig_normalized hr).trans hsame⟩

/-! ## One save -/

theorem saveConfig_saved_iff {ctx : UpstreamRequestsLimit} :
    (∃ warnings, (saveConfig (some file) patch ctx).1 = .saved n warnings) ↔
      Fine (normalize (merged file patch)) ∧ n = normalize (merged file patch) := by
  simp only [saveConfig, ensureConfigFile, Option.getD_some]
  cases hr : validateConfig (merged file patch) ctx with
  | none =>
    have hnot : ¬ Fine (normalize (merged file patch)) := fun hfine => by
      obtain ⟨r, hsome, -⟩ := (validateConfig_ok_iff ctx).mpr hfine
      simp [hr] at hsome
    simp [hnot]
  | some r =>
    have hn := validateConfig_normalized hr
    cases hok : r.ok with
    | false =>
      have hnot : ¬ Fine (normalize (merged file patch)) := fun hfine => by
        obtain ⟨r', hsome, hok'⟩ := (validateConfig_ok_iff ctx).mpr hfine
        rw [hr] at hsome
        obtain rfl := Option.some.inj hsome
        simp [hok] at hok'
      simp [hok, hnot]
    | true =>
      have hfine : Fine (normalize (merged file patch)) :=
        (validateConfig_ok_iff ctx).mp ⟨r, hr, hok⟩
      simp [hok, hfine, hn, eq_comm]

/-- The file after a save: the normalized configuration, or the file before. -/
theorem saveConfig_file (file patch : RawInput) (ctx : UpstreamRequestsLimit) :
    (Fine (normalize (merged file patch)) ∧
        (saveConfig (some file) patch ctx).2 = (normalize (merged file patch)).stored.input) ∨
      (¬ Fine (normalize (merged file patch)) ∧ (saveConfig (some file) patch ctx).2 = file) := by
  simp only [saveConfig, ensureConfigFile, Option.getD_some]
  cases hr : validateConfig (merged file patch) ctx with
  | none =>
    refine .inr ⟨fun hfine => ?_, rfl⟩
    obtain ⟨r, hsome, -⟩ := (validateConfig_ok_iff ctx).mpr hfine
    simp [hr] at hsome
  | some r =>
    cases hok : r.ok with
    | true =>
      refine .inl ⟨(validateConfig_ok_iff ctx).mp ⟨r, hr, hok⟩, ?_⟩
      simp [hok, validateConfig_normalized hr]
    | false =>
      refine .inr ⟨fun hfine => ?_, by simp [hok]⟩
      obtain ⟨r', hsome, hok'⟩ := (validateConfig_ok_iff ctx).mpr hfine
      rw [hr] at hsome
      obtain rfl := Option.some.inj hsome
      simp [hok] at hok'

/-- The patch gives its keys and the file the others. -/
theorem base_merged (file patch : RawInput) (key : Key) :
    base (merged file patch) key = (coerceRawForValidation patch key).or (base file key) := by
  simp only [base, spread, merged, readConfigFile, RawConfig.input, DEFAULT_CONFIG,
    coerceRawForValidation]
  split
  · rename_i hkey
    cases patch (.known key) with
    | some v => simp
    | none =>
      cases file (.known key) with
      | some v => simp
      | none => simp [coerceValue_default key hkey]
  · cases patch (.known key) with
    | some v => simp
    | none =>
      cases file (.known key) with
      | some v => simp
      | none => simp

/-! ## Another strategy -/

/-- The patch that sets the vision strategy alone. -/
def strategyPatch (s : String) : RawInput
  | .known .vision_strategy => some (.text s)
  | _ => none

/-- A save of the patch would succeed. -/
def Acceptable (file patch : RawInput) : Prop :=
  ∀ ctx, ∃ n warnings, (saveConfig (some file) patch ctx).1 = .saved n warnings

/-- The reservation is a positive integer that leaves two slots of the hard cap,
or the cap is too small for reservations. -/
def ReservationFits (n : RawConfig) : Prop :=
  ∃ cap, hardCap? n = some cap ∧
    (cap < 3 ∨ ∃ i, (n .concurrency_vision_reservation).bind Value.integer? = some i ∧
      1 ≤ i ∧ i ≤ cap - 2)

theorem acceptable_iff : Acceptable file patch ↔ Fine (normalize (merged file patch)) := by
  constructor
  · intro h
    obtain ⟨n, hsaved⟩ := h .unknown
    exact (saveConfig_saved_iff.mp hsaved).1
  · exact fun hfine ctx => ⟨_, saveConfig_saved_iff.mpr ⟨hfine, rfl⟩⟩

theorem base_strategyPatch (file : RawInput) (s : String) (key : Key) :
    base (merged file (strategyPatch s)) key =
      if key = .vision_strategy then some (.text s) else base file key := by
  have hkey : .vision_strategy ∉ INT_FIELDS := by decide
  rw [base_merged]
  by_cases heq : key = .vision_strategy
  · subst heq
    simp [coerceRawForValidation, hkey, strategyPatch]
  · have hnone : strategyPatch s (.known key) = none := by
      unfold strategyPatch
      split
      · rename_i hname
        exact absurd (Name.known.inj hname) heq
      · rfl
    simp [coerceRawForValidation, hnone, heq]

theorem Fine.hardCap (h : Fine n) (hset : n .concurrency_hard_cap ≠ none) :
    ∃ cap, hardCap? n = some cap := by
  have hmem : FieldRule.field .concurrency_hard_cap (.integer 1 none)
      "concurrency_hard_cap must be an integer >= 1" ∈ FIELD_RULES := by decide
  have herrors := h.2 _ hmem
  obtain ⟨v, hv⟩ := Option.ne_none_iff_exists'.mp hset
  simp only [FieldRule.errors, hv, Check.fails, Check.integerFails] at herrors
  cases hint : v.integer? with
  | none => simp [hint] at herrors
  | some cap => exact ⟨cap, by simp [hardCap?, hv, hint]⟩

/-- The rule of the reservation, where vision is on. -/
theorem visionReservation_errors (hnever : isNever n = false) {cap : ℤ}
    (hcap : hardCap? n = some cap) (hset : n .concurrency_vision_reservation ≠ none) :
    FieldRule.errors n .visionReservation = [] ↔ ReservationFits n := by
  obtain ⟨v, hv⟩ := Option.ne_none_iff_exists'.mp hset
  simp only [FieldRule.errors, ReservationFits, hcap, hv, hnever, Option.some.injEq,
    exists_eq_left', Option.bind_some]
  by_cases hsmall : cap - 2 < 1
  · simp only [if_pos hsmall, true_iff]
    exact .inl (by omega)
  · have hlarge : ¬ cap < 3 := by omega
    simp only [if_neg hsmall, hlarge, false_or]
    cases hint : v.integer? with
    | none => simp
    | some i =>
      by_cases hlow : i < 1
      · simp [hlow]
      · by_cases hhigh : cap - 2 < i
        · simp [hlow, hhigh]
        · simp only [hlow, hhigh, if_false, true_iff, Option.some.injEq, exists_eq_left',
            Bool.false_eq_true]
          omega

/-- The two strategies under which vision is on. -/
def visionOn : List String := ["catalog", "always"]

/-- From a valid file vision can be turned on exactly where its reservation fits. -/
theorem acceptable_strategy_iff (hfile : Fine (normalize file)) {s : String} (hs : s ∈ visionOn) :
    Acceptable file (strategyPatch s) ↔ ReservationFits (base file) := by
  rw [acceptable_iff]
  have hbase := base_strategyPatch file s
  have hnever : isNever (base (merged file (strategyPatch s))) = false := by
    simp only [isNever, hbase, if_true, Option.any_some]
    rcases List.mem_cons.mp hs with rfl | hs
    · decide
    · obtain rfl := List.mem_singleton.mp hs
      decide
  have hnorm : ∀ key, normalize (merged file (strategyPatch s)) key =
      if key = .vision_strategy then some (.text s) else base file key := by
    intro key
    rw [normalize_eq, hnever, ← hbase key]
    simp
  have hsame : ∀ key, key ≠ .vision_strategy ∧ key ≠ .concurrency_vision_reservation →
      normalize (merged file (strategyPatch s)) key = normalize file key := by
    intro key hkey
    rw [hnorm, if_neg hkey.1, normalize_of_ne hkey.2]
  have hcap? : hardCap? (normalize (merged file (strategyPatch s))) = hardCap? (base file) := by
    simp [hardCap?, hnorm]
  obtain ⟨cap, hcap⟩ := hfile.hardCap ((normal_normalize file).set _)
  have hcapBase : hardCap? (base file) = some cap := by
    rw [← hcap]
    simp [hardCap?, normalize_of_ne]
  have hfits : ReservationFits (normalize (merged file (strategyPatch s))) ↔
      ReservationFits (base file) := by
    simp [ReservationFits, hcap?, hnorm]
  have hrule := visionReservation_errors (n := normalize (merged file (strategyPatch s)))
    (by rw [isNever_normalize, hnever]) (hcap?.trans hcapBase) ((normal_normalize _).set _)
  rw [← hfits, ← hrule]
  constructor
  · intro hfine
    exact hfine.2 _ (by decide)
  · intro herrors
    refine ⟨by rw [hsame _ (by decide)]; exact hfile.1, fun rule hmem => ?_⟩
    rcases mem_FIELD_RULES rule hmem with hreads | rfl | rfl
    · rw [errors_congr fun key hkey => hsame key (hreads key hkey)]
      exact hfile.2 rule hmem
    · exact herrors
    · simp only [strategyRule, FieldRule.errors, hnorm, if_true]
      rcases List.mem_cons.mp hs with rfl | hs
      · decide
      · obtain rfl := List.mem_singleton.mp hs
        decide

/-! ## A run of saves -/

/-- A patch and what is known of the upstream when it is saved. -/
abbrev Save := RawInput × UpstreamRequestsLimit

/-- The file after a save. -/
def step (file : RawInput) (save : Save) : RawInput := (saveConfig (some file) save.1 save.2).2

/-- The file is accepted as it stands. -/
def ValidFile (file : RawInput) : Prop := Fine (normalize file)

/-- What a save should do: what it writes is accepted and normalized already, in
memory and read back; it leaves the file alone when it does not succeed; and
after a save under "never" vision can be turned on if it could be before. -/
structure SaveLaw (file : RawInput) (save : Save) (file' : RawInput) : Prop where
  fixpoint : ∀ n warnings, (saveConfig (some file) save.1 save.2).1 = .saved n warnings →
    ∀ ctx, (∃ r, validateConfig n.input ctx = some r ∧ r.ok = true ∧ r.normalized = n) ∧
      ∃ r, validateConfig file' ctx = some r ∧ r.ok = true ∧ r.normalized.input = file'
  unchanged : (¬ ∃ n warnings, (saveConfig (some file) save.1 save.2).1 = .saved n warnings) →
    file' = file
  strategies : ∀ n warnings, (saveConfig (some file) save.1 save.2).1 = .saved n warnings →
    isNever n = true → ∀ s ∈ visionOn,
      Acceptable file (strategyPatch s) → Acceptable file' (strategyPatch s)

/-- The save succeeds under "never" with a hard cap that has room for
reservations, and the file has a reservation that fits. -/
def LosesReservation (file : RawInput) (save : Save) : Prop :=
  Fine (normalize (merged file save.1)) ∧ isNever (base (merged file save.1)) = true ∧
    (∃ cap, hardCap? (base (merged file save.1)) = some cap ∧ 3 ≤ cap) ∧
      ReservationFits (base file)

theorem ValidFile.step (hfile : ValidFile file) (save : Save) : ValidFile (step file save) := by
  unfold Config.step
  rcases saveConfig_file file save.1 save.2 with
    ⟨hfine, hwritten⟩ | ⟨-, hkept⟩
  · rw [hwritten]
    have hnormal := (normal_normalize (merged file save.1)).stored
    simpa [ValidFile, normalize_of_normal hnormal] using hfine.stored
  · rw [hkept]
    exact hfile

/-- What a save under "never" writes has no reservation, so it fits only where
there is no room for one. -/
theorem reservationFits_written (hnormal : Normal n) (hnever : isNever n = true) {cap : ℤ}
    (hcap : hardCap? n = some cap) : ReservationFits (base n.stored.input) ↔ cap < 3 := by
  have hzero : (n.stored .concurrency_vision_reservation).bind Value.integer? = some 0 := by
    rw [hnormal.stored.reservation (by rw [isNever_stored, hnever])]
    rfl
  simp [ReservationFits, base_of_normal hnormal.stored, hardCap?_stored, hcap, hzero]

/-- One save obeys the law exactly where it loses no reservation. -/
theorem saveLaw_iff (hfile : ValidFile file) (save : Save) :
    SaveLaw file save (step file save) ↔ ¬ LosesReservation file save := by
  have hvalid := hfile.step save
  have hsaved : ∀ n, (∃ warnings, (saveConfig (some file) save.1 save.2).1 = .saved n warnings) ↔
      Fine (normalize (merged file save.1)) ∧ n = normalize (merged file save.1) :=
    fun n => saveConfig_saved_iff
  rcases saveConfig_file file save.1 save.2 with
    ⟨hfine, hwritten⟩ | ⟨hnot, hkept⟩
  · have hstep : step file save = (normalize (merged file save.1)).stored.input := hwritten
    have hnormal := normal_normalize (merged file save.1)
    rw [hstep] at hvalid ⊢
    obtain ⟨cap, hcap⟩ := hfine.hardCap (hnormal.set _)
    have hcapBase : hardCap? (base (merged file save.1)) = some cap := by
      rw [← hcap]
      simp [hardCap?, normalize_of_ne]
    have hafter := fun hnever => reservationFits_written hnormal hnever hcap
    constructor
    · rintro hlaw ⟨-, hnever, ⟨cap', hcap', hroom⟩, hfits⟩
      obtain rfl : cap = cap' := Option.some.inj (hcapBase.symm.trans hcap')
      have hnever' := isNever_normalize.trans hnever
      obtain ⟨warnings, hresult⟩ := (hsaved _).mpr ⟨hfine, rfl⟩
      have hcatalog : "catalog" ∈ visionOn := by simp [visionOn]
      have hthen := hlaw.strategies _ warnings hresult hnever' "catalog" hcatalog
        ((acceptable_strategy_iff hfile hcatalog).mpr hfits)
      have := (hafter hnever').mp ((acceptable_strategy_iff hvalid hcatalog).mp hthen)
      omega
    · intro hkeeps
      refine ⟨fun n warnings hresult ctx => ?_, fun hnone => ?_,
        fun n warnings hresult hnever s hs hbefore => ?_⟩
      · obtain ⟨-, rfl⟩ := (hsaved n).mp ⟨warnings, hresult⟩
        refine ⟨validateConfig_of_fine hnormal hfine ctx, ?_⟩
        obtain ⟨r, hr, hok, hsame⟩ := validateConfig_of_fine hnormal.stored hfine.stored ctx
        exact ⟨r, hr, hok, by rw [hsame]⟩
      · exact absurd ⟨_, (hsaved _).mpr ⟨hfine, rfl⟩⟩ hnone
      · obtain ⟨-, rfl⟩ := (hsaved n).mp ⟨warnings, hresult⟩
        have hfits := (acceptable_strategy_iff hfile hs).mp hbefore
        refine (acceptable_strategy_iff hvalid hs).mpr ((hafter hnever).mpr ?_)
        by_contra hroom
        exact hkeeps ⟨hfine, isNever_normalize.symm.trans hnever,
          ⟨cap, hcapBase, by omega⟩, hfits⟩
  · have hstep : step file save = file := hkept
    rw [hstep]
    have hnone : ∀ n warnings, (saveConfig (some file) save.1 save.2).1 ≠ .saved n warnings :=
      fun n warnings hresult => hnot ((hsaved n).mp ⟨warnings, hresult⟩).1
    constructor
    · exact fun _ hloses => hnot hloses.1
    · exact fun _ => ⟨fun n w h => absurd h (hnone n w), fun _ => rfl,
        fun n w h => absurd h (hnone n w)⟩

namespace SaveRun

/-- From a valid file, every save of a run obeys the law exactly where none of
them loses a reservation; the file stays valid throughout. -/
theorem law_iff {file : RawInput} (hfile : ValidFile file) (saves : List Save) :
    (∀ pre, pre <+: saves → ValidFile (run step file pre)) ∧
    ((∀ pre save, pre ++ [save] <+: saves →
        SaveLaw (run step file pre) save (run step file (pre ++ [save]))) ↔
      StepsMeet step (fun file save => ¬ LosesReservation file save) file saves) := by
  have hkeep : ∀ file save, ValidFile file → ValidFile (step file save) :=
    fun _ save h => h.step save
  have hlaw : ∀ file save, ValidFile file →
      (SaveLaw file save (step file save) ↔ ¬ LosesReservation file save) :=
    fun _ save h => saveLaw_iff h save
  exact ⟨fun pre _ => run_invariant hkeep hfile pre,
    forall_steps_iff_stepsMeet (fun file save h _ => hkeep file save h) hlaw hfile saves⟩

end SaveRun

/-! ## The defaults -/

instance (n : RawConfig) : Decidable (Fine n) := inferInstanceAs (Decidable (_ ∧ _))

theorem valid_defaults : ValidFile DEFAULT_CONFIG.input := by
  unfold ValidFile
  decide +kernel

theorem fits_defaults : ReservationFits (base DEFAULT_CONFIG.input) :=
  ⟨16, by decide, .inr ⟨1, by decide, by decide, by decide⟩⟩

/-- The patch that keeps more captures. -/
def moreCaptures : RawInput
  | .known .max_captures => some (.int 300)
  | _ => none

/-- The default file is saved with more captures, and vision cannot be turned on
any more. -/
theorem save_blocks_vision :
    ValidFile DEFAULT_CONFIG.input ∧
    (∃ n warnings, (saveConfig (some DEFAULT_CONFIG.input) moreCaptures .unknown).1 =
      .saved n warnings) ∧
    Acceptable DEFAULT_CONFIG.input (strategyPatch "catalog") ∧
    ¬ Acceptable (step DEFAULT_CONFIG.input (moreCaptures, .unknown)) (strategyPatch "catalog") := by
  have hcatalog : "catalog" ∈ visionOn := by simp [visionOn]
  have hfine : Fine (normalize (merged DEFAULT_CONFIG.input moreCaptures)) := by decide +kernel
  have hstep : step DEFAULT_CONFIG.input (moreCaptures, .unknown) =
      (normalize (merged DEFAULT_CONFIG.input moreCaptures)).stored.input := by
    rcases saveConfig_file DEFAULT_CONFIG.input moreCaptures .unknown with ⟨-, hwritten⟩ | ⟨hnot, -⟩
    · exact hwritten
    · exact absurd hfine hnot
  have hcap : hardCap? (normalize (merged DEFAULT_CONFIG.input moreCaptures)) = some 16 := by
    decide
  have hnever : isNever (normalize (merged DEFAULT_CONFIG.input moreCaptures)) = true := by
    decide
  refine ⟨valid_defaults, ⟨_, saveConfig_saved_iff.mpr ⟨hfine, rfl⟩⟩,
    (acceptable_strategy_iff valid_defaults hcatalog).mpr fits_defaults, ?_⟩
  rw [acceptable_strategy_iff (valid_defaults.step _) hcatalog, hstep,
    reservationFits_written (normal_normalize _) hnever hcap]
  decide

/-- Turning vision on loses no reservation. -/
theorem SaveRun.law_iff_visionOn :
    SaveLaw DEFAULT_CONFIG.input (strategyPatch "catalog", .unknown)
      (step DEFAULT_CONFIG.input (strategyPatch "catalog", .unknown)) := by
  have hkeeps : ¬ LosesReservation DEFAULT_CONFIG.input (strategyPatch "catalog", .unknown) := by
    rintro ⟨-, hnever, -⟩
    revert hnever
    decide
  exact (SaveRun.law_iff valid_defaults [(strategyPatch "catalog", .unknown)]).2.mpr
    ⟨hkeeps, trivial⟩ [] _ List.prefix_rfl

end UmansGate.Config
