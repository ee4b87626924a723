/-
UmansGate.Updater.InstallTheorems — an update installs what was published, or
nothing.

`sumsText` writes the lines that `sha256sum` writes, and `parseSha256Sums`
reads the digest of a name back from them (`parseSha256Sums_sumsText`).
`Published` says what a download has to be: the bytes of the asset of this
platform, as long as the release says, with the digest of its line.
`downloadAndReplace_cases` is all that one download can do, and
`binary_run` carries it through a run of updates.
-/
import UmansGate.Lib.Transition
import UmansGate.Updater.Install

namespace UmansGate.Updater

open UmansGate.Lib

/-! ## SHA256SUMS -/

/-- A line of SHA256SUMS. The name stands as it is: it has no line break and no
backslash, which `sha256sum` would escape. It can be told from the separator:
it has no space at its ends, and a text line's name begins with no star. -/
structure Sum where
  digest : JsString
  binary : Bool
  name : JsString
  /-- The line ends in a carriage return as well. -/
  cr : Bool
  digest_length : digest.length = 64
  digest_hex : digest.all isHexUnit = true
  name_ne_nil : name ≠ []
  name_line : name.any isLineTerminator = false
  name_backslash : backslash ∉ name
  name_head : name.head?.any isSpaceUnit = false
  name_last : name.getLast?.any isSpaceUnit = false
  name_star : binary = true ∨ name.head? ≠ some 42

namespace Sum

/-- Two spaces, or a space and a star. -/
def separator (e : Sum) : JsString := if e.binary then [32, 42] else [32, 32]

def line (e : Sum) : JsString :=
  e.digest ++ e.separator ++ e.name ++ if e.cr then [13] else []

end Sum

/-- What `sha256sum` writes. -/
def sumsText (entries : List Sum) : JsString := [10].intercalate (entries.map Sum.line ++ [[]])

theorem isSpaceUnit_of_hex {u : UInt16} (h : isHexUnit u = true) : isSpaceUnit u = false := by
  simp only [isHexUnit, isDigit, Bool.or_eq_true, Bool.and_eq_true, decide_eq_true_eq,
    UInt16.le_iff_toNat_le] at h
  simp only [isSpaceUnit, Bool.or_eq_false_iff, Bool.and_eq_false_iff, decide_eq_false_iff_not,
    UInt16.le_iff_toNat_le, ← UInt16.toNat_inj]
  simp at h ⊢
  omega

theorem ne_newline_of_hex {u : UInt16} (h : isHexUnit u = true) : u ≠ 10 := by
  rintro rfl
  simp [isHexUnit, isDigit] at h

theorem newline_notMem_of_line {s : JsString} (h : s.any isLineTerminator = false) : 10 ∉ s := by
  intro hmem
  have hbreak := List.any_eq_false.mp h 10 hmem
  simp [isLineTerminator] at hbreak

namespace Sum

variable (e : Sum)

theorem newline_notMem : 10 ∉ e.line := by
  have hdigest : 10 ∉ e.digest := fun hmem =>
    ne_newline_of_hex (List.all_eq_true.mp e.digest_hex 10 hmem) rfl
  have hname := newline_notMem_of_line e.name_line
  simp only [line, List.mem_append, not_or]
  refine ⟨⟨⟨hdigest, ?_⟩, hname⟩, ?_⟩
  · unfold separator
    split <;> simp
  · split <;> simp

/-- The line without what ends it. -/
theorem trim_line : trim e.line = e.digest ++ e.separator ++ e.name := by
  obtain ⟨u, digest, hdigest⟩ := List.exists_cons_of_ne_nil
    (List.ne_nil_of_length_pos (by rw [e.digest_length]; decide))
  have hu : isSpaceUnit u = false := by
    refine isSpaceUnit_of_hex (List.all_eq_true.mp e.digest_hex u ?_)
    simp [hdigest]
  refine trim_append ?_ ?_ (by simp [hdigest]) ?_
  · simp [hdigest, hu]
  · rw [List.getLast?_append_of_ne_nil _ e.name_ne_nil]
    exact e.name_last
  · intro v hv
    split at hv
    · obtain rfl := List.mem_singleton.mp hv
      decide
    · simp at hv

/-- The separator ends where the name begins. -/
theorem skipStar_separator :
    skipStar ((e.separator ++ e.name).dropWhile isSpaceUnit) = e.name := by
  obtain ⟨u, name, hname⟩ := List.exists_cons_of_ne_nil e.name_ne_nil
  have hspace : isSpaceUnit 32 = true := by decide
  have hstar : isSpaceUnit 42 = false := by decide
  cases hbinary : e.binary with
  | true => simp [separator, hbinary, hname, hspace, hstar, skipStar]
  | false =>
    have hu : isSpaceUnit u = false := by simpa [hname] using e.name_head
    have hne : u ≠ 42 := by simpa [hname, hbinary] using e.name_star
    have hskip : skipStar (u :: name) = u :: name := by
      cases name <;> simp [skipStar, hne]
    simp [separator, hbinary, hname, hspace, hu, hskip]

theorem matchSum_line : matchSum (trim e.line) = some (e.digest, e.name) := by
  have htake : (e.digest ++ e.separator ++ e.name).take 64 = e.digest := by
    rw [List.append_assoc, List.take_left' e.digest_length]
  have hdrop : (e.digest ++ e.separator ++ e.name).drop 64 = e.separator ++ e.name := by
    rw [List.append_assoc, List.drop_left' e.digest_length]
  have hhead : (e.separator ++ e.name).head?.any isSpaceUnit = true := by
    unfold separator
    split <;> rfl
  rw [trim_line]
  simp only [matchSum, htake, hdrop, skipStar_separator]
  rw [if_pos]
  exact ⟨e.digest_length, e.digest_hex, hhead, e.name_ne_nil, by simp [e.name_line]⟩

end Sum

theorem linesOf_sumsText (entries : List Sum) :
    linesOf (sumsText entries) = entries.map Sum.line ++ [[]] := by
  refine List.splitOn_intercalate 10 (fun l hl => ?_) (by simp)
  rcases List.mem_append.mp hl with hline | hend
  · obtain ⟨e, -, rfl⟩ := List.mem_map.mp hline
    exact e.newline_notMem
  · simp [List.mem_singleton.mp hend]

/-- What `sha256sum` writes is read back: the digest of the first line with the
name, in lower case, and none where no line has it. -/
theorem parseSha256Sums_sumsText (entries : List Sum) (assetName : JsString) :
    parseSha256Sums (sumsText entries) assetName =
      (entries.find? fun e => e.name = assetName).map fun e => lowerHex e.digest := by
  rw [parseSha256Sums, linesOf_sumsText, List.findSome?_append]
  have hend : matchSum (trim []) = none := by decide
  simp only [List.findSome?_cons, hend, List.findSome?_nil, Option.or_none]
  induction entries with
  | nil => rfl
  | cons e entries ih =>
    simp only [List.map_cons, List.findSome?_cons, List.find?_cons, Sum.matchSum_line]
    by_cases hname : e.name = assetName
    · simp [hname]
    · simpa [hname] using ih

def linuxSum : Sum where
  digest := js "ba7816bf8f01cfea414140de5dae2223b00361a396177a9cb410ff61f20015ad"
  binary := false
  name := js "umans-gate-linux-x64"
  cr := false
  digest_length := by decide
  digest_hex := by decide
  name_ne_nil := by decide
  name_line := by decide
  name_backslash := by decide
  name_head := by decide
  name_last := by decide
  name_star := by decide

def windowsSum : Sum where
  digest := js "A52D159F262B2C6DDB724A61840BEFC36EB30C88877A4030B65CBE86298449C9"
  binary := true
  name := js "umans-gate-windows-x64.exe"
  cr := true
  digest_length := by decide
  digest_hex := by decide
  name_ne_nil := by decide
  name_line := by decide
  name_backslash := by decide
  name_head := by decide
  name_last := by decide
  name_star := by decide

/-- A line of each mode. -/
theorem parseSha256Sums_sumsText_twoModes :
    let sums :=
      js "ba7816bf8f01cfea414140de5dae2223b00361a396177a9cb410ff61f20015ad" ++
        js "  umans-gate-linux-x64\n" ++
        js "A52D159F262B2C6DDB724A61840BEFC36EB30C88877A4030B65CBE86298449C9" ++
        js " *umans-gate-windows-x64.exe\r\n"
    parseSha256Sums sums (js "umans-gate-linux-x64") =
        some (js "ba7816bf8f01cfea414140de5dae2223b00361a396177a9cb410ff61f20015ad") ∧
      parseSha256Sums sums (js "umans-gate-windows-x64.exe") =
        some (js "a52d159f262b2c6ddb724a61840befc36eb30c88877a4030b65cbe86298449c9") ∧
      parseSha256Sums sums (js "umans-gate-darwin-arm64") = none := by
  intro sums
  have htext : sums = sumsText [linuxSum, windowsSum] := by decide +kernel
  simp only [htext, parseSha256Sums_sumsText]
  decide +kernel

/-! ## One download -/

section

variable (computeSha256 : Bytes → JsString)

/-- The bytes are those of the asset of the platform: as many as the release
says, with the digest that SHA256SUMS gives the asset. -/
def Published (w : World) (buffer : Bytes) : Prop :=
  ∃ assets assetName asset sumsAsset sums,
    w.release = some assets ∧ platformAssetName w.platform w.arch = some assetName ∧
    (assets.find? fun a => a.name = assetName) = some asset ∧
    w.fetchBytes asset.browserDownloadUrl = .ok buffer ∧ (buffer.length : ℚ) = asset.size ∧
    (assets.find? fun a => a.name = SHA256SUMS_ASSET) = some sumsAsset ∧
    w.fetchText sumsAsset.browserDownloadUrl = .ok sums ∧
    parseSha256Sums sums assetName = some (computeSha256 buffer)

variable {computeSha256} {w : World} {calls : FileCalls} {buffer : Bytes} {disk : Disk}

/-- All that a download can do: it replaces the binary by published bytes, or it
fails and leaves the disk alone. -/
theorem downloadAndReplace_cases (w : World) (calls : FileCalls) (disk : Disk) :
    (∃ buffer, Published computeSha256 w buffer ∧
      downloadAndReplaceStandaloneBinary computeSha256 w calls disk =
        replaceBinary w.platform calls buffer disk) ∨
    ((downloadAndReplaceStandaloneBinary computeSha256 w calls disk).1 ≠ .returned ∧
      (downloadAndReplaceStandaloneBinary computeSha256 w calls disk).2 = disk) := by
  unfold downloadAndReplaceStandaloneBinary
  cases hrelease : w.release with
  | none => simp
  | some assets =>
  cases hname : platformAssetName w.platform w.arch with
  | none => simp
  | some assetName =>
  cases hasset : assets.find? fun a => a.name = assetName with
  | none => simp [hasset]
  | some asset =>
  cases hbytes : w.fetchBytes asset.browserDownloadUrl with
  | rejects => simp [hasset, hbytes]
  | notOk => simp [hasset, hbytes]
  | ok buffer =>
  by_cases hsize : (buffer.length : ℚ) = asset.size
  · cases hsums : assets.find? fun a => a.name = SHA256SUMS_ASSET with
    | none => simp [hasset, hbytes, hsize, hsums]
    | some sumsAsset =>
    cases htext : w.fetchText sumsAsset.browserDownloadUrl with
    | rejects => simp [hasset, hbytes, hsize, hsums, htext]
    | notOk => simp [hasset, hbytes, hsize, hsums, htext]
    | ok sums =>
    cases hdigest : parseSha256Sums sums assetName with
    | none => simp [hasset, hbytes, hsize, hsums, htext, hdigest]
    | some digest =>
    by_cases hsame : computeSha256 buffer = digest
    · refine .inl ⟨buffer, ⟨assets, assetName, asset, sumsAsset, sums, hrelease, hname, hasset,
        hbytes, hsize, hsums, htext, by rw [hdigest, hsame]⟩, ?_⟩
      simp [hasset, hbytes, hsize, hsums, htext, hdigest, hsame]
    · simp [hasset, hbytes, hsize, hsums, htext, hdigest, hsame]
  · simp [hasset, hbytes, hsize]

/-- The file system does what the code relies on: a write that succeeds writes
all of the buffer, and a copy that fails leaves the binary. -/
structure Reliable (calls : FileCalls) (buffer : Bytes) (disk : Disk) : Prop where
  write : ∀ n, calls.writeSync = .wrote n → buffer.length ≤ n
  copy : ∀ left, calls.copyFileSync = .fails left → left = disk.binary

/-- The binary is replaced whole or not at all, and a return means that it was
replaced. -/
theorem replaceBinary_cases (platform : JsString) (hreliable : Reliable calls buffer disk) :
    (replaceBinary platform calls buffer disk).2.binary = some buffer ∧
        ((replaceBinary platform calls buffer disk).1 = .returned →
          (replaceBinary platform calls buffer disk).2.tmp = none) ∨
      (replaceBinary platform calls buffer disk).2.binary = disk.binary ∧
        (replaceBinary platform calls buffer disk).1 ≠ .returned := by
  unfold replaceBinary
  by_cases hopen : calls.openSync
  · cases hwrite : calls.writeSync with
    | fails left => simp [hopen]
    | wrote n =>
      have htake : buffer.take n = buffer := List.take_of_length_le (hreliable.write n hwrite)
      by_cases hclose : calls.closeSync
      · by_cases hchmod : platform ≠ js "win32" ∧ ¬ calls.chmodSync
        · simp [hopen, hclose, hchmod]
        · simp only [hopen, hclose, hchmod, htake, not_true_eq_false, if_false, moveIntoPlace]
          cases hrename : calls.renameSync with
          | true => simp
          | false =>
            cases hcopy : calls.copyFileSync with
            | fails left => simp [hreliable.copy left hcopy]
            | done => cases hunlink : calls.unlinkSync <;> simp
      · simp [hopen, hclose]
  · simp [hopen]

/-! ## A run of updates -/

variable (computeSha256)

/-- The disk after an update. -/
def afterUpdate (disk : Disk) (u : Update) : Disk := (u.perform computeSha256 disk).2

/-- The update gets to the download: a version that compares as above the
installed one, and a standalone binary. -/
def Update.Installs (u : Update) : Prop :=
  performUpdate u.currentVersion u.latest = true ∧ u.method = .standalone

/-- What is put in the place of the binary is published. -/
def Update.Supplies (u : Update) (buffer : Bytes) : Prop :=
  u.Installs ∧ Published computeSha256 u.world buffer

/-- The files are reliable for what the update would install. -/
def ReliableFor (disk : Disk) (u : Update) : Prop :=
  ∀ buffer, Published computeSha256 u.world buffer → Reliable u.calls buffer disk

variable {computeSha256}

theorem perform_of_installs {u : Update} (h : u.Installs) (disk : Disk) :
    u.perform computeSha256 disk =
      downloadAndReplaceStandaloneBinary computeSha256 u.world u.calls disk := by
  obtain ⟨hnewer, hmethod⟩ := h
  unfold Update.perform
  cases hlatest : u.latest with
  | none => simp [performUpdate, hlatest] at hnewer
  | some latest =>
    rw [hlatest] at hnewer
    simp [hnewer, hmethod]

theorem perform_of_not_installs {u : Update} (h : ¬ u.Installs) (disk : Disk) :
    (u.perform computeSha256 disk).2 = disk := by
  unfold Update.perform
  cases hlatest : u.latest with
  | none => rfl
  | some latest =>
    by_cases hnewer : performUpdate u.currentVersion (some latest)
    · cases hmethod : u.method with
      | standalone => exact absurd ⟨hlatest ▸ hnewer, hmethod⟩ h
      | npmGlobal => simp [hnewer]
      | development => simp [hnewer]
    · simp [hnewer]

/-- One update: it supplies the binary, or keeps it and does not return from an
install. -/
theorem perform_cases {u : Update} (hreliable : ReliableFor computeSha256 disk u) :
    (∃ buffer, u.Supplies computeSha256 buffer ∧
        (u.perform computeSha256 disk).2.binary = some buffer ∧
        ((u.perform computeSha256 disk).1 = .returned →
          (u.perform computeSha256 disk).2.tmp = none)) ∨
      (u.perform computeSha256 disk).2.binary = disk.binary ∧
        (u.Installs → (u.perform computeSha256 disk).1 ≠ .returned) := by
  by_cases hinstalls : u.Installs
  · rw [perform_of_installs hinstalls]
    rcases downloadAndReplace_cases u.world u.calls disk with
      ⟨buffer, hpublished, hresult⟩ | ⟨hexit, hkept⟩
    · rw [hresult]
      rcases replaceBinary_cases u.world.platform (hreliable buffer hpublished) with hnew | hold
      · exact .inl ⟨buffer, ⟨hinstalls, hpublished⟩, hnew⟩
      · exact .inr ⟨hold.1, fun _ => hold.2⟩
    · exact .inr ⟨by rw [hkept], fun _ => hexit⟩
  · exact .inr ⟨by rw [perform_of_not_installs hinstalls], fun h => absurd h hinstalls⟩

/-- An update installs what was published, or nothing. After any run of updates
the binary is the first one or what an update of the run has supplied, and an
install that returns has supplied it and left no temporary file. -/
theorem updates_install_published {us : List Update}
    (hreliable : StepsMeet (afterUpdate computeSha256) (ReliableFor computeSha256) disk us) :
    ((run (afterUpdate computeSha256) disk us).binary = disk.binary ∨
      ∃ u ∈ us, ∃ buffer, u.Supplies computeSha256 buffer ∧
        (run (afterUpdate computeSha256) disk us).binary = some buffer) ∧
    ∀ pre u, pre ++ [u] <+: us → u.Installs →
      (u.perform computeSha256 (run (afterUpdate computeSha256) disk pre)).1 = .returned →
      ∃ buffer, u.Supplies computeSha256 buffer ∧
        run (afterUpdate computeSha256) disk (pre ++ [u]) = ⟨some buffer, none⟩ := by
  induction us generalizing disk with
  | nil =>
    refine ⟨.inl rfl, fun pre u hpre => ?_⟩
    simp at hpre
  | cons u us ih =>
    obtain ⟨hbinary, hreturns⟩ := ih hreliable.2
    have hstep := perform_cases hreliable.1
    constructor
    · simp only [run_cons]
      rcases hbinary with hsame | ⟨v, hv, hsupplied⟩
      · rw [hsame]
        rcases hstep with ⟨buffer, hsupplies, hnew, -⟩ | ⟨hold, -⟩
        · exact .inr ⟨u, List.mem_cons_self, buffer, hsupplies, hnew⟩
        · exact .inl hold
      · exact .inr ⟨v, List.mem_cons_of_mem u hv, hsupplied⟩
    · intro pre v hpre hinstalls hexit
      cases pre with
      | nil =>
        obtain ⟨rfl, -⟩ := List.cons_prefix_cons.mp hpre
        rcases hstep with ⟨buffer, hsupplies, hnew, htmp⟩ | ⟨-, hnot⟩
        · refine ⟨buffer, hsupplies, ?_⟩
          show (v.perform computeSha256 disk).2 = ⟨some buffer, none⟩
          rw [← hnew, ← htmp hexit]
        · exact absurd hexit (hnot hinstalls)
      | cons first pre =>
        obtain ⟨rfl, hrest⟩ := List.cons_prefix_cons.mp hpre
        exact hreturns pre v hrest hinstalls hexit

end

/-! ## A tampered download -/

/-- SHA-256 of the two downloads below. -/
def sampleSha256 (bytes : Bytes) : JsString :=
  if bytes = [97, 98, 99] then
    js "ba7816bf8f01cfea414140de5dae2223b00361a396177a9cb410ff61f20015ad"
  else js "a52d159f262b2c6ddb724a61840befc36eb30c88877a4030b65cbe86298449c9"

/-- An update to a release whose binary should be "abc", and what is downloaded
for it. -/
def sampleUpdate (download : Bytes) : Update where
  currentVersion := js "1.9.0"
  latest := some (js "1.10.0")
  method := .standalone
  npmUpdate := false
  world :=
    { platform := js "linux"
      arch := js "x64"
      release := some [⟨js "umans-gate-linux-x64", js "/binary", 3⟩,
        ⟨SHA256SUMS_ASSET, js "/sums", 87⟩]
      fetchBytes := fun _ => .ok download
      fetchText := fun _ =>
        .ok (sampleSha256 [97, 98, 99] ++ js "  umans-gate-linux-x64" ++ [10]) }
  calls :=
    { openSync := true, writeSync := .wrote 3, closeSync := true, chmodSync := true,
      renameSync := true, copyFileSync := .done, unlinkSync := true }

theorem sampleUpdate_reliable {download : Bytes} (hlength : download.length = 3) (disk : Disk) :
    ReliableFor sampleSha256 disk (sampleUpdate download) := by
  intro buffer hpublished
  obtain ⟨assets, assetName, asset, sumsAsset, sums, -, -, -, hbytes, -⟩ := hpublished
  have hbuffer : download = buffer := by
    simpa [sampleUpdate] using hbytes
  exact {
    write := fun n hn => by
      have hthree : 3 = n := by simpa [sampleUpdate] using hn
      rw [← hbuffer, ← hthree, hlength]
    copy := fun left hleft => by simp [sampleUpdate] at hleft }

/-- The tampered download is not installed, and the published one is. -/
theorem updates_install_published_tampered :
    ∃ buffer, (sampleUpdate [97, 98, 99]).Supplies sampleSha256 buffer ∧
      run (afterUpdate sampleSha256) ⟨some [0], none⟩
        [sampleUpdate [97, 98, 100], sampleUpdate [97, 98, 99]] = ⟨some buffer, none⟩ := by
  have hreliable : StepsMeet (afterUpdate sampleSha256) (ReliableFor sampleSha256)
      ⟨some [0], none⟩ [sampleUpdate [97, 98, 100], sampleUpdate [97, 98, 99]] :=
    ⟨sampleUpdate_reliable rfl _, sampleUpdate_reliable rfl _, trivial⟩
  exact (updates_install_published hreliable).2 [sampleUpdate [97, 98, 100]]
    (sampleUpdate [97, 98, 99]) List.prefix_rfl ⟨by decide +kernel, rfl⟩ (by decide +kernel)

end UmansGate.Updater
