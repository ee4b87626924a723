/-
UmansGate.Store.MonthTheorems — the month summaries account for every
capture that was counted.

A date of a year of four digits begins with the text of its month, which is
read back (`decodeMonth_monthText`) and is the prefix that the summary of
the month asks for (`inMonth_iff`). So the summaries over the available
months part the rows of the daily totals (`months_sum`), and over a run
from an empty database they add up to the captures that were counted
(`months_count_captures`). Within a month the entries of the models add up
to its totals (`perModel_totals`).
-/
import UmansGate.Lib.Numerals
import UmansGate.Store.AttributionTheorems
import UmansGate.Store.MonthSummary
import UmansGate.Store.WriteWorker

namespace UmansGate.Store

open UmansGate.Lib

/-! ## Dates -/

/-- `YYYY-MM-DD`. -/
def dateText (year month day : ℕ) : List Char :=
  monthText year month ++ '-' :: padStart 2 (Nat.toDigits 10 day)

/-- The date is of a year of four digits. -/
def FourDigitYear (date : String) : Prop :=
  ∃ year month day, 1000 ≤ year ∧ year ≤ 9999 ∧ month ≤ 99 ∧ date.toList = dateText year month day

theorem length_toDigits {n k : ℕ} (hk : 0 < k) (hlo : 10 ^ k ≤ n) (hhi : n < 10 ^ (k + 1)) :
    (Nat.toDigits 10 n).length = k + 1 := by
  have hle : (Nat.toDigits 10 n).length ≤ k + 1 :=
    (Nat.length_toDigits_le_iff (by decide) (Nat.succ_pos k)).mpr hhi
  have hgt : ¬ (Nat.toDigits 10 n).length ≤ k := by
    rw [Nat.length_toDigits_le_iff (by decide) hk]
    omega
  omega

theorem length_padStart {n : ℕ} (h : n ≤ 99) : (padStart 2 (Nat.toDigits 10 n)).length = 2 := by
  have hle : (Nat.toDigits 10 n).length ≤ 2 :=
    (Nat.length_toDigits_le_iff (by decide) (by decide)).mpr (by omega)
  simp only [padStart, List.length_append, List.length_replicate]
  omega

theorem length_monthText {year month : ℕ} (hlo : 1000 ≤ year) (hhi : year ≤ 9999)
    (hmonth : month ≤ 99) : (monthText year month).length = 7 := by
  have hyear : (Nat.toDigits 10 year).length = 4 := length_toDigits (k := 3) (by decide) hlo (by omega)
  simp [monthText, hyear, length_padStart hmonth]

theorem isDigit_of_mem_padStart {n k : ℕ} {c : Char} (hc : c ∈ padStart k (Nat.toDigits 10 n)) :
    c.isDigit = true := by
  rcases List.mem_append.mp hc with hc | hc
  · rw [List.eq_of_mem_replicate hc]
    decide
  · exact Nat.isDigit_of_mem_toDigits (by decide) (by decide) hc

theorem toNat_of_isDigit {c : Char} (h : c.isDigit = true) : 48 ≤ c.toNat ∧ c.toNat ≤ 57 := by
  simpa [Char.isDigit, UInt32.le_iff_toNat_le] using h

theorem plain_of_isDigit {c : Char} (h : c.isDigit = true) : plain c = true := by
  have hrange := toNat_of_isDigit h
  have halpha : c.isAlpha = false := isAlpha_eq_false_iff.mpr (by omega)
  have hpercent : c ≠ '%' := by
    rintro rfl
    simp at h
  have hunderscore : c ≠ '_' := by
    rintro rfl
    simp at h
  simp [plain, halpha, hpercent, hunderscore]

theorem plain_of_mem_monthText {year month : ℕ} {c : Char} (hc : c ∈ monthText year month) :
    plain c = true := by
  rcases List.mem_append.mp hc with hc | hc
  · exact plain_of_isDigit (Nat.isDigit_of_mem_toDigits (by decide) (by decide) hc)
  · rcases List.mem_cons.mp hc with rfl | hc
    · decide
    · exact plain_of_isDigit (isDigit_of_mem_padStart hc)

/-- The day of a date and its month are numbers of at most two digits. -/
theorem civilDate_le (day : Int) : (civilDate day).2.1 ≤ 99 ∧ (civilDate day).2.2 ≤ 99 := by
  simp only [civilDate]
  generalize day + 719468 = z
  generalize hdoe : z - z / 146097 * 146097 = doe
  have h0 : 0 ≤ doe ∧ doe < 146097 := by omega
  generalize hyoe : (doe - doe / 1460 + doe / 36524 - doe / 146096) / 365 = yoe
  have hdoy : doe - (365 * yoe + yoe / 4 - yoe / 100) ≤ 1000 := by omega
  generalize doe - (365 * yoe + yoe / 4 - yoe / 100) = doy at hdoy
  have hmp : (5 * doy + 2) / 153 ≤ 33 := by omega
  split <;> omega

theorem fourDigitYear_isoDate {ms : EpochMs} (hlo : 1000 ≤ (civilDate (ms.val / 86400000)).1)
    (hhi : (civilDate (ms.val / 86400000)).1 ≤ 9999) : FourDigitYear (isoDate ms) := by
  obtain ⟨hmonth, hday⟩ := civilDate_le (ms.val / 86400000)
  unfold isoDate
  generalize civilDate (ms.val / 86400000) = date at hlo hhi hmonth hday
  obtain ⟨year, month, day⟩ := date
  dsimp only at hlo hhi hmonth hday ⊢
  refine ⟨year.toNat, month.toNat, day.toNat, by omega, by omega, by omega, ?_⟩
  have hyear : padStart 4 (Nat.toDigits 10 year.toNat) = Nat.toDigits 10 year.toNat := by
    have hlength : (Nat.toDigits 10 year.toNat).length = 4 :=
      length_toDigits (k := 3) (by decide) (by omega) (by omega)
    simp [padStart, hlength]
  have hmonthText : (monthText year.toNat month.toNat).length = 7 :=
    length_monthText (by omega) (by omega) (by omega)
  have hdayText : (padStart 2 (Nat.toDigits 10 day.toNat)).length = 2 := length_padStart (by omega)
  have hlength : (dateText year.toNat month.toNat day.toNat).length = 10 := by
    simp [dateText, hmonthText, hdayText]
  rw [if_pos ⟨by omega, hhi⟩, String.toList_ofList, hyear]
  have htext : (Nat.toDigits 10 year.toNat ++ '-' :: padStart 2 (Nat.toDigits 10 month.toNat) ++
      '-' :: padStart 2 (Nat.toDigits 10 day.toNat)) = dateText year.toNat month.toNat day.toNat := by
    simp [dateText, monthText]
  rw [htext, List.take_of_length_le (by omega)]

/-! ## Months -/

/-- The year and the month that a text is of. -/
def decodeMonth (text : String) : ℕ × ℕ :=
  (Nat.ofDigitChars 10 (text.toList.take 4) 0,
    Nat.ofDigitChars 10 ((text.toList.drop 5).take 2) 0)

/-- The text is that of a month of a year of four digits. -/
def MonthText (text : String) : Prop :=
  ∃ year month, 1000 ≤ year ∧ year ≤ 9999 ∧ month ≤ 99 ∧ text = String.ofList (monthText year month)

theorem take_monthText {year month : ℕ} (hlo : 1000 ≤ year) (hhi : year ≤ 9999) :
    (monthText year month).take 4 = Nat.toDigits 10 year := by
  have hyear : (Nat.toDigits 10 year).length = 4 := length_toDigits (k := 3) (by decide) hlo (by omega)
  rw [monthText, ← hyear, List.take_left]

theorem drop_monthText {year month : ℕ} (hlo : 1000 ≤ year) (hhi : year ≤ 9999)
    (hmonth : month ≤ 99) :
    ((monthText year month).drop 5).take 2 = padStart 2 (Nat.toDigits 10 month) := by
  have hyear : (Nat.toDigits 10 year).length = 4 := length_toDigits (k := 3) (by decide) hlo (by omega)
  have hsplit : monthText year month =
      (Nat.toDigits 10 year ++ ['-']) ++ padStart 2 (Nat.toDigits 10 month) := by
    simp [monthText]
  rw [hsplit, List.drop_left' (by simp [hyear]), List.take_of_length_le (by
    rw [length_padStart hmonth])]

theorem ofDigitChars_padStart (k n : ℕ) :
    Nat.ofDigitChars 10 (padStart k (Nat.toDigits 10 n)) 0 = n := by
  rw [padStart, Nat.ofDigitChars_append, Nat.ofDigitChars_replicate_zero, Nat.mul_zero,
    Nat.ofDigitChars_ten_toDigits]

theorem decodeMonth_monthText {year month : ℕ} (hlo : 1000 ≤ year) (hhi : year ≤ 9999)
    (hmonth : month ≤ 99) : decodeMonth (String.ofList (monthText year month)) = (year, month) := by
  rw [decodeMonth, String.toList_ofList, take_monthText hlo hhi, drop_monthText hlo hhi hmonth,
    Nat.ofDigitChars_ten_toDigits, ofDigitChars_padStart]

theorem yearMonth_of_fourDigitYear {row : DailyRow} (h : FourDigitYear row.1.1) :
    MonthText (yearMonth row) := by
  obtain ⟨year, month, day, hlo, hhi, hmonth, hdate⟩ := h
  refine ⟨year, month, hlo, hhi, hmonth, ?_⟩
  rw [yearMonth, hdate, dateText, ← length_monthText hlo hhi hmonth, List.take_left]

/-- The summary of a month asks for the rows of its text. -/
theorem inMonth_iff {year month : ℕ} (hlo : 1000 ≤ year) (hhi : year ≤ 9999) (hmonth : month ≤ 99)
    (row : DailyRow) :
    inMonth year month row = decide (yearMonth row = String.ofList (monthText year month)) := by
  rw [inMonth, sqlLike_append_percent fun c hc => plain_of_mem_monthText hc, Bool.eq_iff_iff,
    List.isPrefixOf_iff_prefix, List.prefix_iff_eq_take, length_monthText hlo hhi hmonth,
    decide_eq_true_eq, yearMonth]
  constructor
  · intro h
    rw [← h]
  · intro h
    rw [← String.toList_ofList (l := monthText year month), ← h, String.toList_ofList]

/-! ## Numbers -/

theorem js_ofList {cs : List Char} (h : ∀ c ∈ cs, c.toNat < 0x10000) :
    js (String.ofList cs) = cs.map fun c => c.toNat.toUInt16 := by
  rw [js, String.toList_ofList]
  induction cs with
  | nil => rfl
  | cons c cs ih =>
    obtain ⟨hc, hcs⟩ := List.forall_mem_cons.mp h
    rw [List.flatMap_cons, List.map_cons, ih hcs, utf16, if_pos hc]
    rfl

/-- Digits are read as their number. -/
theorem numberOf_digits {cs : List Char} (hcs : ∀ c ∈ cs, c.isDigit = true) (hne : cs ≠ [])
    (hlt : Nat.ofDigitChars 10 cs 0 < 2 ^ 53) :
    numberOf (cs.map fun c => c.toNat.toUInt16) = .fin (Nat.ofDigitChars 10 cs 0 : ℕ) := by
  have hrange : ∀ c ∈ cs, 48 ≤ c.toNat ∧ c.toNat ≤ 57 := fun c hc => toNat_of_isDigit (hcs c hc)
  have hdigit : ∀ u ∈ cs.map fun c => c.toNat.toUInt16, isDigit u = true := by
    intro u hu
    obtain ⟨c, hc, rfl⟩ := List.mem_map.mp hu
    have hunit : c.toNat.toUInt16.toNat = c.toNat := by
      have hle := (hrange c hc).2
      simp only [Nat.toUInt16, UInt16.toNat_ofNat']
      omega
    simp only [isDigit, Bool.and_eq_true, decide_eq_true_eq, UInt16.le_iff_toNat_le, hunit]
    exact hrange c hc
  have h := @numberOf_append (cs.map fun c => c.toNat.toUInt16) [] hdigit (by simpa using hne)
    (.inl rfl) (by simp)
  rw [List.append_nil, if_pos rfl, digitsValue, foldl_digits fun c hc => (hrange c hc).2] at h
  rw [h, toDouble_natCast hlt]

/-- `Number` of both parts of the text of a month. -/
theorem numberOf_month {text : String} (h : MonthText text) :
    (numberOf ((js text).take 4), numberOf (((js text).drop 5).take 2)) =
      (.fin ((decodeMonth text).1 : ℚ), .fin ((decodeMonth text).2 : ℚ)) := by
  obtain ⟨year, month, hlo, hhi, hmonth, rfl⟩ := h
  have hunit : ∀ c ∈ monthText year month, c.toNat < 0x10000 := by
    intro c hc
    rcases List.mem_append.mp hc with hc | hc
    · exact (toNat_of_isDigit (Nat.isDigit_of_mem_toDigits (by decide) (by decide) hc)).2.trans_lt
        (by decide)
    · rcases List.mem_cons.mp hc with rfl | hc
      · decide
      · exact (toNat_of_isDigit (isDigit_of_mem_padStart hc)).2.trans_lt (by decide)
  have hyear : ∀ c ∈ Nat.toDigits 10 year, c.isDigit = true :=
    fun c hc => Nat.isDigit_of_mem_toDigits (by decide) (by decide) hc
  have hmonthDigits : ∀ c ∈ padStart 2 (Nat.toDigits 10 month), c.isDigit = true :=
    fun c hc => isDigit_of_mem_padStart hc
  have hne : padStart 2 (Nat.toDigits 10 month) ≠ [] := by
    intro hnil
    have hlength := length_padStart hmonth
    rw [hnil] at hlength
    exact absurd hlength (by decide)
  rw [js_ofList hunit, decodeMonth_monthText hlo hhi hmonth, ← List.map_take, ← List.map_drop,
    ← List.map_take, take_monthText hlo hhi, drop_monthText hlo hhi hmonth,
    numberOf_digits hyear (Nat.toDigits_ne_nil) (by rw [Nat.ofDigitChars_ten_toDigits]; omega),
    numberOf_digits hmonthDigits hne (by rw [ofDigitChars_padStart]; omega),
    Nat.ofDigitChars_ten_toDigits, ofDigitChars_padStart]

/-! ## Sums -/

/-- The available months are the months of the rows, each once, and what is
summed over the rows of each month adds up to the sum over all rows. -/
theorem months_sum (s : SqlSort) (e : Economics)
    (hdates : ∀ row ∈ e.dailyUsage, FourDigitYear row.1.1) :
    ∃ months : List (ℕ × ℕ),
      e.getAvailableMonths s = months.map (fun m => (.fin (m.1 : ℚ), .fin (m.2 : ℚ))) ∧
      months.Nodup ∧
      ∀ {M : Type} [AddCommMonoid M] (f : DailyRow → M),
        (months.map fun m => ((e.dailyUsage.filter (inMonth m.1 m.2)).map f).sum).sum =
          (e.dailyUsage.map f).sum := by
  have hperm := s.perm (desc (some : String → Option String)) (e.dailyUsage.map yearMonth).dedup
  have hnodup := hperm.nodup_iff.mpr (List.nodup_dedup (e.dailyUsage.map yearMonth))
  have hmem : ∀ text, text ∈ s.sort (desc some) (e.dailyUsage.map yearMonth).dedup ↔
      text ∈ e.dailyUsage.map yearMonth := fun text => by rw [hperm.mem_iff, List.mem_dedup]
  unfold Economics.getAvailableMonths
  dsimp only
  generalize s.sort (desc some) (e.dailyUsage.map yearMonth).dedup = texts at hnodup hmem
  have htexts : ∀ text ∈ texts, MonthText text := by
    intro text htext
    obtain ⟨row, hrow, rfl⟩ := List.mem_map.mp ((hmem text).mp htext)
    exact yearMonth_of_fourDigitYear (hdates row hrow)
  -- a text is that of the month that is read from it
  have hdecode : ∀ text ∈ texts, text =
      String.ofList (monthText (decodeMonth text).1 (decodeMonth text).2) := by
    intro text htext
    obtain ⟨year, month, hlo, hhi, hmonth, rfl⟩ := htexts text htext
    rw [decodeMonth_monthText hlo hhi hmonth]
  refine ⟨texts.map decodeMonth, ?_, ?_, fun f => ?_⟩
  · rw [List.map_map]
    exact List.map_congr_left fun text htext => numberOf_month (htexts text htext)
  · refine List.Nodup.map_on (fun text htext text' htext' heq => ?_) hnodup
    rw [hdecode text htext, hdecode text' htext', heq]
  · rw [List.map_map, ← sum_partitions hnodup f fun row hrow =>
      (hmem _).mpr (List.mem_map_of_mem hrow)]
    congr 1
    refine List.map_congr_left fun text htext => ?_
    have hfilter : e.dailyUsage.filter (inMonth (decodeMonth text).1 (decodeMonth text).2) =
        e.dailyUsage.filter fun row => yearMonth row = text := by
      refine List.filter_congr fun row _ => ?_
      obtain ⟨year, month, hlo, hhi, hmonth, rfl⟩ := htexts text htext
      rw [decodeMonth_monthText hlo hhi hmonth, inMonth_iff hlo hhi hmonth]
    rw [Function.comp_apply, hfilter]

/-! ## Runs -/

/-- The rows of the daily totals are those that the captures counted go
to, and each of these is one request. -/
structure Itemised (e : Economics) : Prop where
  nodup : e.dailyUsage.keys.Nodup
  keys : ∀ key, key ∈ e.dailyUsage.keys ↔ key ∈ e.attributed.map Attribution.key
  requests : ∀ a ∈ e.attributed, a.counts.requests = 1

theorem mem_keys_foldl_charge (xs : List Charge) (d : Dict (String × String) DailyUsage)
    (key : String × String) :
    key ∈ (xs.foldl charge d).keys ↔ key ∈ d.keys ∨ key ∈ xs.map fun x => x.1.key := by
  induction xs generalizing d with
  | nil => simp
  | cons x xs ih =>
    rw [List.foldl_cons, ih, charge, Dict.keys_set, List.map_cons, List.mem_cons]
    split
    · rename_i hmem
      constructor
      · rintro (h | h)
        · exact .inl h
        · exact .inr (.inr h)
      · rintro (h | rfl | h)
        · exact .inl h
        · exact .inl hmem
        · exact .inr h
    · simp only [List.mem_append, List.mem_singleton, or_assoc]

variable {e e' : Economics} {clock : Clock} {ids : List ℕ} {new : List Attribution}

theorem Itemised.charges (h : Itemised e) (hc : Charges e e' new)
    (hnew : ∀ a ∈ new, a.counts.requests = 1) : Itemised e' := by
  constructor
  · rw [hc.daily]
    exact nodup_foldl_charge h.nodup
  · intro key
    rw [hc.daily, mem_keys_foldl_charge, h.keys, hc.attributed, List.map_append, List.mem_append]
    simp [Economics.charges]
  · intro a ha
    rw [hc.attributed] at ha
    exact (List.mem_append.mp ha).elim (h.requests a) (hnew a)

/-- A statement that counts nothing. -/
theorem Itemised.keep (h : Itemised e) (hdaily : e'.dailyUsage = e.dailyUsage)
    (hattributed : e'.attributed = e.attributed) : Itemised e' := by
  constructor
  · rw [hdaily]
    exact h.nodup
  · rw [hdaily, hattributed]
    exact h.keys
  · rw [hattributed]
    exact h.requests

theorem Accounts.requests_eq_one (h : Accounts clock ids new e e') :
    ∀ a ∈ new, a.counts.requests = 1 := by
  intro a ha
  obtain ⟨-, c, -, -, -, heq⟩ := (h.mem a).mp ha
  rw [heq]
  rfl

theorem Itemised.accounts (h : Itemised e) (ha : Accounts clock ids new e e') {new' : List Attribution}
    (hc : Charges e e' new') : Itemised e' := by
  have hnew : new' = new := List.append_cancel_left (hc.attributed.symm.trans ha.attributed)
  exact h.charges hc (hnew ▸ ha.requests_eq_one)

theorem Itemised.accountCapturesUsage (h : Itemised e) (clock : Clock) (ids : List ℕ) :
    Itemised (e.accountCapturesUsage clock ids) := by
  obtain ⟨new, ha⟩ := accounts_accountCapturesUsage clock e ids
  obtain ⟨new', hc⟩ := charges_accountCapturesUsage clock e ids
  exact h.accounts ha hc

theorem Itemised.accountCaptureUsage (h : Itemised e) (clock : Clock) (id : ℕ) :
    Itemised (e.accountCaptureUsage clock id) := by
  obtain ⟨new, ha⟩ := accounts_accountCaptureUsage clock e id
  obtain ⟨new', hc⟩ := charges_accountCaptureUsage clock e id
  exact h.accounts ha hc

theorem Itemised.backfillFromCaptures (h : Itemised e) (clock : Clock) :
    Itemised (e.backfillFromCaptures clock) := by
  obtain ⟨new, ha⟩ := accounts_backfillFromCaptures clock e
  obtain ⟨new', hc⟩ := charges_backfillFromCaptures clock e
  exact h.accounts ha hc

theorem Itemised.startCapture {db : CaptureDb} (h : Itemised db.toEconomics) (p : InsertParams) :
    Itemised (db.startCapture p).1.toEconomics := by
  simp only [CaptureDb.startCapture]
  split
  · exact h.keep rfl rfl
  · exact h.keep rfl rfl

theorem Itemised.insertVisionCapture {db : CaptureDb} (h : Itemised db.toEconomics)
    (p : VisionInsertParams) (now : EpochMs) :
    Itemised (db.insertVisionCapture p now).toEconomics := by
  simp only [CaptureDb.insertVisionCapture]
  split
  · exact h.keep rfl rfl
  · exact h.keep rfl rfl

theorem totals_updateRows (items : List (ℕ × UpdateParams)) (now : EpochMs) (db : CaptureDb) :
    (db.updateRows items now).dailyUsage = db.dailyUsage ∧
      (db.updateRows items now).attributed = db.attributed := by
  induction items generalizing db with
  | nil => exact ⟨rfl, rfl⟩
  | cons it items ih => exact ih _

theorem itemised_step {db : CaptureDb} (h : Itemised db.toEconomics) (op : Op) :
    Itemised (db.step op).toEconomics := by
  cases op with
  | reopen clock now => exact (h.backfillFromCaptures clock).keep rfl rfl
  | startCapture p => exact h.startCapture p
  | updateCapture id p clock =>
    have hrow : Itemised (db.updateRow id p {}).toEconomics := h.keep rfl rfl
    exact hrow.accountCapturesUsage clock [id]
  | batchUpdate items clock now =>
    obtain ⟨hdaily, hattributed⟩ := totals_updateRows items now db
    exact (h.keep hdaily hattributed).accountCapturesUsage clock (items.map Prod.fst)
  | insertVisionCapture p now => exact h.insertVisionCapture p now
  | updateVisionCapture id p clock =>
    have hrow : Itemised { db.toEconomics with
        captures := db.captures.update (fun id' _ => id' = id) (·.stmtUpdateVision p) } :=
      h.keep rfl rfl
    exact hrow.accountCapturesUsage clock [id]
  | accountCaptureUsage id clock => exact h.accountCaptureUsage clock id
  | accountCapturesUsage ids clock => exact h.accountCapturesUsage clock ids
  | backfillFromCaptures clock => exact h.backfillFromCaptures clock
  | clear => exact h.keep rfl rfl
  | clearVisionCaptures => exact h.keep rfl rfl
  | sweepVisionCaptures ttlMs now => exact h.keep rfl rfl

theorem totalOf_eq_sum (key : String × String) (as : List Attribution) :
    totalOf key as = ((as.filter fun a => a.key = key).map Attribution.counts).sum := by
  induction as with
  | nil => rfl
  | cons a as ih =>
    rw [totalOf, ih]
    by_cases h : a.key = key
    · rw [if_pos h, List.filter_cons_of_pos (by simpa using h), List.map_cons, List.sum_cons]
    · rw [if_neg h, List.filter_cons_of_neg (by simpa using h), zero_add]

/-- The rows hold what was counted. -/
theorem Itemised.sum_rows (h : Itemised e) (hcounts : ∀ key, e.counts key = totalOf key e.attributed) :
    (e.dailyUsage.map fun row => row.2.toUsageCounts).sum =
      (e.attributed.map Attribution.counts).sum := by
  have hrows : (e.dailyUsage.map fun row => row.2.toUsageCounts) =
      e.dailyUsage.keys.map fun key =>
        ((e.attributed.filter fun a => a.key = key).map Attribution.counts).sum := by
    rw [Dict.keys, List.map_map]
    refine List.map_congr_left fun row hrow => ?_
    have hget : e.dailyUsage.get? row.1 = some row.2 := (Dict.mem_iff_get? h.nodup).mp hrow
    have hcount := hcounts row.1
    rw [Economics.counts, hget, totalOf_eq_sum] at hcount
    exact hcount
  rw [hrows]
  exact sum_partitions h.nodup Attribution.counts fun a ha =>
    (h.keys a.key).mpr (List.mem_map_of_mem ha)

/-- A column of the counts, or of the costs, that adds up. -/
theorem sum_column {C N : Type} [AddCommMonoid C] [AddCommMonoid N] (column : C → N)
    (hzero : column 0 = 0) (hadd : ∀ a b, column (a + b) = column a + column b) (l : List C) :
    column l.sum = (l.map column).sum := by
  induction l with
  | nil => exact hzero
  | cons c l ih => rw [List.sum_cons, hadd, ih, List.map_cons, List.sum_cons]

theorem sum_requests {as : List Attribution} (h : ∀ a ∈ as, a.counts.requests = 1) :
    (as.map Attribution.counts).sum.requests = as.length := by
  induction as with
  | nil => rfl
  | cons a as ih =>
    have hadd : ((a :: as).map Attribution.counts).sum.requests =
        a.counts.requests + (as.map Attribution.counts).sum.requests := rfl
    rw [hadd, h a List.mem_cons_self, ih fun b hb => h b (List.mem_cons_of_mem a hb),
      List.length_cons]
    push_cast
    exact Int.add_comm _ _

/-- In every run from a database without daily totals whose captures were
counted in years of four digits: no month is available twice, and the
summaries of the available months add up to the captures that were counted,
each of them once, and to the costs of all rows. -/
theorem months_count_captures (s : SqlSort) (captures : Table CaptureColumns)
    (modelPricing : Dict String PricingRow) (maxCaptures : ℕ) (visionCacheTtlMs : Int)
    (ops : List Op)
    (hdates : ∀ a ∈ (run CaptureDb.step (CaptureDb.load captures modelPricing [] maxCaptures
      visionCacheTtlMs) ops).attributed, FourDigitYear a.date) :
    let db := run CaptureDb.step
      (CaptureDb.load captures modelPricing [] maxCaptures visionCacheTtlMs) ops
    ∃ months : List (ℕ × ℕ),
      db.getAvailableMonths s = months.map (fun m => (.fin (m.1 : ℚ), .fin (m.2 : ℚ))) ∧
      months.Nodup ∧ (db.attributed.map Attribution.id).Nodup ∧
      (months.map fun m => (db.getMonthSummary s m.1 m.2).toUsageCounts).sum =
        (db.attributed.map Attribution.counts).sum ∧
      (months.map fun m => (db.getMonthSummary s m.1 m.2).requests).sum = db.attributed.length ∧
      (months.map fun m => (db.getMonthSummary s m.1 m.2).toUsageCosts).sum =
        (db.dailyUsage.map fun row => row.2.toUsageCosts).sum := by
  intro db
  have hload : Itemised (CaptureDb.load captures modelPricing [] maxCaptures
      visionCacheTtlMs).toEconomics :=
    ⟨List.nodup_nil, by simp [CaptureDb.load, Dict.keys], by simp [CaptureDb.load]⟩
  have hitems : Itemised db.toEconomics := run_invariant
    (I := fun db : CaptureDb => Itemised db.toEconomics) (fun _ op h => itemised_step h op) hload ops
  have honce := CaptureDb.countedOnce_run captures modelPricing [] maxCaptures visionCacheTtlMs ops
  have hcounts : ∀ key, db.counts key = totalOf key db.attributed := fun key =>
    (honce.counts key).trans (UsageCounts.zero_add _)
  have hrows : ∀ row ∈ db.dailyUsage, FourDigitYear row.1.1 := by
    intro row hrow
    obtain ⟨a, ha, hkey⟩ := List.mem_map.mp ((hitems.keys row.1).mp (List.mem_map_of_mem hrow))
    rw [← hkey]
    exact hdates a ha
  obtain ⟨months, havailable, hnodup, hsum⟩ := months_sum s db.toEconomics hrows
  have htotal := (hsum fun row => row.2.toUsageCounts).trans (hitems.sum_rows hcounts)
  refine ⟨months, havailable, hnodup, honce.nodup, htotal, ?_, hsum fun row => row.2.toUsageCosts⟩
  rw [← sum_requests hitems.requests, ← htotal]
  refine Eq.trans ?_ (sum_column UsageCounts.requests rfl (fun _ _ => rfl) _).symm
  rw [List.map_map]
  rfl

/-- A capture of a leap day, counted when its batch is written. -/
def leapDay : List Op :=
  [.startCapture ⟨"[]", "body", 4, ⟨951782400000, by decide⟩, "streaming"⟩,
    .batchUpdate [(1, CaptureDb.retriedUpdate)] (fun _ => ⟨0, epoch_inRange⟩) ⟨0, epoch_inRange⟩]

theorem leapDay_counted :
    let db := run CaptureDb.step (CaptureDb.load Table.empty [] [] 200 0) leapDay
    db.attributed.map Attribution.date = ["2000-02-29"] ∧ ∃ months : List (ℕ × ℕ),
      db.getAvailableMonths SqlSort.stable =
        months.map (fun m => (.fin (m.1 : ℚ), .fin (m.2 : ℚ))) ∧
      (months.map fun m => (db.getMonthSummary SqlSort.stable m.1 m.2).requests).sum = 1 := by
  have hdate : (run CaptureDb.step (CaptureDb.load Table.empty [] [] 200 0)
      leapDay).attributed.map Attribution.date = ["2000-02-29"] := by decide
  obtain ⟨months, havailable, -, -, -, hrequests, -⟩ := months_count_captures SqlSort.stable
    Table.empty [] 200 0 leapDay fun a ha => by
      have hmem := List.mem_map_of_mem (f := Attribution.date) ha
      rw [hdate, List.mem_singleton] at hmem
      rw [hmem]
      exact ⟨2000, 2, 29, by decide, by decide, by decide, by decide⟩
  have hlength := congrArg List.length hdate
  rw [List.length_map] at hlength
  rw [hlength] at hrequests
  exact ⟨hdate, months, havailable, hrequests⟩

/-! ## The models of a month -/

theorem perModel_perm (s : SqlSort) (e : Economics) (year month : ℕ) :
    (e.getMonthSummary s year month).perModel.Perm ((groupBy (fun r : DailyRow => r.1.2)
      (e.dailyUsage.filter (inMonth year month))).map modelSummary) :=
  s.perm _ _

/-- What the entries of the models hold in a column adds up to the sum over
the rows of the month. -/
theorem sum_perModel {N : Type} [AddCommMonoid N] (s : SqlSort) (e : Economics) (year month : ℕ)
    {column : ModelSummary → N} {f : DailyRow → N}
    (h : ∀ g, column (modelSummary g) = (g.2.map f).sum) :
    ((e.getMonthSummary s year month).perModel.map column).sum =
      ((e.dailyUsage.filter (inMonth year month)).map f).sum := by
  rw [((perModel_perm s e year month).map column).sum_eq, List.map_map,
    ← sum_groupBy (fun r : DailyRow => r.1.2)]
  congr 1
  exact List.map_congr_left fun g _ => h g

/-- Every summary lists each model of the month once, the costliest first,
and the entries add up to its totals. -/
theorem perModel_totals (s : SqlSort) (e : Economics) (year month : ℕ) :
    let m := e.getMonthSummary s year month
    (m.perModel.map ModelSummary.model).Nodup ∧
      (∀ model, model ∈ m.perModel.map ModelSummary.model ↔
        ∃ row ∈ e.dailyUsage, inMonth year month row = true ∧ row.1.2 = model) ∧
      m.perModel.Pairwise (fun a b => b.costTotal ≤ a.costTotal) ∧
      (m.perModel.map ModelSummary.requests).sum = m.requests ∧
      (m.perModel.map ModelSummary.inputTokens).sum = m.inputTokens ∧
      (m.perModel.map ModelSummary.outputTokens).sum = m.outputTokens ∧
      (m.perModel.map ModelSummary.cacheReadTokens).sum = m.cacheReadTokens ∧
      (m.perModel.map ModelSummary.cacheCreationTokens).sum = m.cacheCreationTokens ∧
      (m.perModel.map ModelSummary.costTotal).sum = m.costTotal := by
  intro m
  have hmodels : (m.perModel.map ModelSummary.model).Perm
      ((e.dailyUsage.filter (inMonth year month)).map fun r => r.1.2).dedup := by
    refine ((perModel_perm s e year month).map _).trans (List.Perm.of_eq ?_)
    rw [groupBy, List.map_map, List.map_map]
    exact List.map_id _
  have hcount : ∀ {column : ModelSummary → Int} (f : UsageCounts → Int), f 0 = 0 →
      (∀ a b, f (a + b) = f a + f b) →
      (∀ g, column (modelSummary g) = (g.2.map fun r => f r.2.toUsageCounts).sum) →
      (m.perModel.map column).sum = f m.toUsageCounts := by
    intro column f hzero hadd hcolumn
    rw [sum_perModel s e year month hcolumn]
    refine Eq.trans ?_ (sum_column f hzero hadd _).symm
    rw [List.map_map]
    rfl
  refine ⟨hmodels.nodup_iff.mpr (List.nodup_dedup _), fun model => ?_, ?_, ?_, ?_, ?_, ?_, ?_, ?_⟩
  · rw [hmodels.mem_iff, List.mem_dedup]
    simp [List.mem_filter, and_assoc]
  · refine (s.sorted (desc_trans _) (desc_total _) _).imp fun {a b} h => ?_
    simpa [desc] using h
  · exact hcount UsageCounts.requests rfl (fun _ _ => rfl) fun _ => rfl
  · exact hcount UsageCounts.inputTokens rfl (fun _ _ => rfl) fun _ => rfl
  · exact hcount UsageCounts.outputTokens rfl (fun _ _ => rfl) fun _ => rfl
  · exact hcount UsageCounts.cacheReadTokens rfl (fun _ _ => rfl) fun _ => rfl
  · exact hcount UsageCounts.cacheCreationTokens rfl (fun _ _ => rfl) fun _ => rfl
  · rw [sum_perModel s e year month (f := fun r => r.2.costTotal) fun _ => rfl]
    refine Eq.trans ?_ (sum_column UsageCosts.costTotal rfl (fun _ _ => rfl) _).symm
    rw [List.map_map]
    rfl

end UmansGate.Store
