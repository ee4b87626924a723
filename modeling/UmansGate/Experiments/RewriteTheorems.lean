/-
UmansGate.Experiments.RewriteTheorems — what the rewriting of tool-use ids
does to a body and keeps over the requests of a session.

The ids are a code whose words overlap at most in `call` or `toolu`
(`idCode`), and a generated id begins like the one it replaces. So the loop
over the ids, which replaces one after another in the whole text, replaces the
matches of the pattern and nothing else, as long as no generated id contains or
overlaps an original one in the texts it goes through.

The mappings that are stored under the present salt of a session are the ids
that would be generated (`Consistent`), in every run.
-/
import UmansGate.Experiments.RewriteIds

namespace UmansGate.Experiments

open UmansGate.Lib

/-! ## The code of the ids -/

/-- An id: one of the starts and 24 letters or digits. -/
structure IsId (start rest w : JsString) : Prop where
  isStart : start ∈ idStarts
  length : rest.length = 24
  units : ∀ u ∈ rest, isIdUnit u = true
  eq : w = start ++ rest

variable {start rest start' rest' w w' t v : JsString}

theorem find?_idStarts (hs : start ∈ idStarts) (h : start <+: t) :
    idStarts.find? (·.isPrefixOf t) = some start := by
  obtain ⟨u, rfl⟩ := h
  simp only [idStarts, List.mem_cons, List.not_mem_nil, or_false] at hs
  obtain rfl | rfl := hs
  · rfl
  · rfl

theorem toolUseIdAt_eq_some :
    toolUseIdAt t = some w ↔ (∃ start rest, IsId start rest w) ∧ w <+: t := by
  constructor
  · intro h
    rw [toolUseIdAt] at h
    split at h
    · cases h
    · rename_i start hfind
      dsimp only at h
      split at h
      · rename_i hrest
        cases h
        have hfound : start.isPrefixOf t = true := by simpa using List.find?_some hfind
        have hbegins : start <+: t := List.isPrefixOf_iff_prefix.mp hfound
        refine ⟨⟨start, _, List.mem_of_find?_eq_some hfind, hrest.1, List.all_eq_true.mp hrest.2,
          rfl⟩, ?_⟩
        obtain ⟨u, rfl⟩ := hbegins
        rw [List.drop_left, List.prefix_append_right_inj]
        exact List.take_prefix 24 u
      · cases h
  · rintro ⟨⟨start, rest, hstart, hlen, hunits, rfl⟩, u, rfl⟩
    have hfind : idStarts.find? (·.isPrefixOf (start ++ rest ++ u)) = some start :=
      find?_idStarts hstart (by simp)
    have htake : ((start ++ rest ++ u).drop start.length).take 24 = rest := by
      rw [List.append_assoc, List.drop_left, ← hlen, List.take_left]
    rw [toolUseIdAt, hfind]
    simp only [htake]
    rw [if_pos ⟨hlen, List.all_eq_true.mpr hunits⟩]

theorem toolUseIdAt_self : toolUseIdAt w = some w ↔ ∃ start rest, IsId start rest w := by
  rw [toolUseIdAt_eq_some, and_iff_left List.prefix_rfl]

/-- What an id begins with. -/
def idStart (w : JsString) : JsString := extractPrefix w ++ js "_"

theorem IsId.idStart_eq (h : IsId start rest w) : idStart w = start := by
  obtain ⟨hstart, -, -, rfl⟩ := h
  simp only [idStarts, List.mem_cons, List.not_mem_nil, or_false] at hstart
  obtain rfl | rfl := hstart
  · rfl
  · rfl

theorem underscore_mem (h : start ∈ idStarts) : (95 : UInt16) ∈ start := by
  simp only [idStarts, List.mem_cons, List.not_mem_nil, or_false] at h
  obtain rfl | rfl := h <;> decide

theorem underscore_not_mem (h : ∀ u ∈ rest, isIdUnit u = true) : (95 : UInt16) ∉ rest :=
  fun hmem => absurd (h 95 hmem) (by decide)

/-- What is left of a start begins like none. -/
theorem head?_ne_of_suffix (h : start ∈ idStarts) (h' : start' ∈ idStarts) (hv : v <:+ start)
    (hne : v ≠ []) (hlt : v.length < start.length) : v.head? ≠ start'.head? := by
  have htails : ∀ s ∈ idStarts, ∀ s' ∈ idStarts, ∀ v ∈ s.tails, v ≠ [] → v.length < s.length →
      v.head? ≠ s'.head? := by decide
  exact htails start h start' h' v (by simpa using hv) hne hlt

theorem head?_eq_of_comparable (hne : v ≠ []) (hne' : w ≠ []) (h : v <+: w ∨ w <+: v) :
    v.head? = w.head? := by
  obtain ⟨a, v, rfl⟩ := List.exists_cons_of_ne_nil hne
  obtain ⟨b, w, rfl⟩ := List.exists_cons_of_ne_nil hne'
  obtain h | h := h
  · rw [(List.cons_prefix_cons.mp h).1, List.head?_cons, List.head?_cons]
  · rw [(List.cons_prefix_cons.mp h).1, List.head?_cons, List.head?_cons]

/-- Letters and digits that begin an id do not reach its `_`. -/
theorem begins_start_of_units (h' : IsId start' rest' w') (hv : ∀ u ∈ v, isIdUnit u = true)
    (hcomparable : v <+: w' ∨ w' <+: v) : v <+: start' := by
  have hnot : ¬ start' <+: v := fun hbegins =>
    underscore_not_mem hv (hbegins.subset (underscore_mem h'.isStart))
  have hstart : start' <+: w' := h'.eq ▸ List.prefix_append start' rest'
  obtain hbegins | hbegins := hcomparable
  · obtain hle | hle := List.prefix_or_prefix_of_prefix hbegins hstart
    · exact hle
    · exact absurd hle hnot
  · exact absurd (hstart.trans hbegins) hnot

/-- Ids overlap in their starts alone. -/
theorem overlap_idStart (h : IsId start rest w) (h' : IsId start' rest' w') (hv : v <:+ w)
    (hne : v ≠ []) (hlt : v.length < w.length) (hcomparable : v <+: w' ∨ w' <+: v) :
    v <+: start' := by
  have hrest : rest <:+ w := h.eq ▸ List.suffix_append start rest
  obtain hshort | ⟨x, rfl⟩ := List.suffix_or_suffix_of_suffix hv hrest
  · exact begins_start_of_units h' (fun u hu => h.units u (hshort.subset hu)) hcomparable
  · by_cases hx : x = []
    · subst hx
      exact begins_start_of_units h' (by simpa using h.units) hcomparable
    · have hsuffix : x <:+ start := by
        rw [h.eq] at hv
        exact List.suffix_append_self_iff.mp hv
      have hxlt : x.length < start.length := by
        rw [h.eq, List.length_append, List.length_append] at hlt
        omega
      have hne' : w' ≠ [] := by
        rw [h'.eq]
        exact List.append_ne_nil_of_left_ne_nil (List.ne_nil_of_mem (underscore_mem h'.isStart)) _
      have hstart' : start' ≠ [] := List.ne_nil_of_mem (underscore_mem h'.isStart)
      have hheads := head?_eq_of_comparable hne hne' hcomparable
      rw [List.head?_append_of_ne_nil x hx, h'.eq, List.head?_append_of_ne_nil start' hstart']
        at hheads
      exact absurd hheads (head?_ne_of_suffix h.isStart h'.isStart hsuffix hx hxlt)

/-- The ids as a code. -/
def idCode : Code UInt16 where
  wordAt := toolUseIdAt
  head := idStart
  wordAt_begins h := (toolUseIdAt_eq_some.mp h).2
  wordAt_word h := toolUseIdAt_self.mpr (toolUseIdAt_eq_some.mp h).1
  wordAt_of_begins h hbegins := toolUseIdAt_eq_some.mpr ⟨toolUseIdAt_self.mp h, hbegins⟩
  wordAt_nil := rfl
  head_begins h := by
    obtain ⟨start, rest, hid⟩ := toolUseIdAt_self.mp h
    rw [hid.idStart_eq, hid.eq]
    exact List.prefix_append start rest
  overlap h h' hv hne hlt hcomparable := by
    obtain ⟨start, rest, hid⟩ := toolUseIdAt_self.mp h
    obtain ⟨start', rest', hid'⟩ := toolUseIdAt_self.mp h'
    rw [hid'.idStart_eq]
    exact overlap_idStart hid hid' hv hne hlt hcomparable

/-! ## The ids of a body -/

theorem mem_foldl_addId {ids seen : List JsString} :
    w ∈ ids.foldl addId seen ↔ w ∈ seen ∨ w ∈ ids := by
  induction ids generalizing seen with
  | nil => simp
  | cons id ids ih =>
    rw [List.foldl_cons, ih, List.mem_cons, addId]
    split
    · rename_i hmem
      constructor
      · rintro (h | h)
        · exact .inl h
        · exact .inr (.inr h)
      · rintro (h | rfl | h)
        · exact .inl h
        · exact .inl hmem
        · exact .inr h
    · rw [List.mem_append, List.mem_singleton, or_assoc]

theorem nodup_foldl_addId {ids seen : List JsString} (h : seen.Nodup) :
    (ids.foldl addId seen).Nodup := by
  induction ids generalizing seen with
  | nil => exact h
  | cons id ids ih =>
    rw [List.foldl_cons]
    refine ih ?_
    rw [addId]
    split
    · exact h
    · rename_i hnew
      exact List.nodup_append.mpr ⟨h, by simp, by
        intro a ha b hb heq
        rw [List.mem_singleton] at hb
        exact hnew (hb ▸ heq ▸ ha)⟩

theorem toolUseIds_nodup (t : JsString) : (toolUseIds t).Nodup := nodup_foldl_addId List.nodup_nil

theorem toolUseIdMatches_eq (t : JsString) :
    toolUseIdMatches t = Code.offsets 0 (idCode.pieces 0 t) :=
  Code.matchesFrom_eq (c := idCode) 0 t

theorem mem_toolUseIds : w ∈ toolUseIds t ↔ w ∈ Piece.words (idCode.pieces 0 t) := by
  rw [toolUseIds, mem_foldl_addId, toolUseIdMatches_eq, Code.map_snd_offsets]
  simp

theorem isWord_of_mem_toolUseIds (h : w ∈ toolUseIds t) : idCode.IsWord w :=
  (Code.scanned_pieces t).isWord w (mem_toolUseIds.mp h)

/-! ## Generated ids -/

/-- The digest is a text of 64 hexadecimal digits. -/
structure HexDigest (sha256 : List UInt8 → JsString) : Prop where
  length : ∀ bytes, (sha256 bytes).length = 64
  hex : ∀ bytes, ∀ u ∈ sha256 bytes, 48 ≤ u ∧ u ≤ 57 ∨ 97 ≤ u ∧ u ≤ 102

section

variable {sha256 : List UInt8 → JsString} {salt : JsString} {saltVersion : ℕ}

/-- The id that is generated for an original one. -/
def generatedId (sha256 : List UInt8 → JsString) (salt : JsString) (saltVersion : ℕ)
    (originalId : JsString) : JsString :=
  deterministicRewrite sha256 originalId salt saltVersion (extractPrefix originalId)

theorem isIdUnit_of_hex {u : UInt16} (h : 48 ≤ u ∧ u ≤ 57 ∨ 97 ≤ u ∧ u ≤ 102) :
    isIdUnit u = true := by
  simp only [isIdUnit, Bool.or_eq_true, Bool.and_eq_true, decide_eq_true_eq]
  obtain h | h := h
  · exact .inl (.inl h)
  · exact .inr ⟨h.1, UInt16.le_trans h.2 (by decide)⟩

theorem isId_generatedId (hsha : HexDigest sha256) (salt : JsString) (saltVersion : ℕ)
    (h : IsId start rest w) :
    IsId start (truncatedHash sha256 salt saltVersion w)
      (generatedId sha256 salt saltVersion w) where
  isStart := h.isStart
  length := by rw [truncatedHash, List.length_take, hsha.length]; rfl
  units u hu := isIdUnit_of_hex (hsha.hex _ u (List.mem_of_mem_take hu))
  eq := by
    rw [← h.idStart_eq]
    rfl

theorem keeps_generatedId (hsha : HexDigest sha256) {ws : List JsString}
    (h : ∀ w ∈ ws, idCode.IsWord w) : Code.Keeps idCode (generatedId sha256 salt saltVersion) ws := by
  have hids : ∀ w ∈ ws, ∃ start rest, IsId start rest w := fun w hw => toolUseIdAt_self.mp (h w hw)
  refine ⟨h, fun w hw => ?_, fun w hw => ?_, fun w hw => ?_⟩
  · obtain ⟨start, rest, hid⟩ := hids w hw
    exact toolUseIdAt_self.mpr ⟨start, _, isId_generatedId hsha salt saltVersion hid⟩
  · obtain ⟨start, rest, hid⟩ := hids w hw
    exact (isId_generatedId hsha salt saltVersion hid).idStart_eq.trans hid.idStart_eq.symm
  · obtain ⟨start, rest, hid⟩ := hids w hw
    have hgen := isId_generatedId hsha salt saltVersion hid
    rw [hgen.eq, List.length_append, hgen.length, hid.eq, List.length_append, hid.length]

/-- Distinct originals have distinct images when their truncated hashes are. -/
theorem truncatedHash_eq_of_generatedId_eq (hsha : HexDigest sha256) (hw : idCode.IsWord w)
    (hw' : idCode.IsWord w')
    (h : generatedId sha256 salt saltVersion w = generatedId sha256 salt saltVersion w') :
    truncatedHash sha256 salt saltVersion w = truncatedHash sha256 salt saltVersion w' := by
  obtain ⟨start, rest, hid⟩ := toolUseIdAt_self.mp hw
  obtain ⟨start', rest', hid'⟩ := toolUseIdAt_self.mp hw'
  have hgen := isId_generatedId hsha salt saltVersion hid
  have hgen' := isId_generatedId hsha salt saltVersion hid'
  rw [hgen.eq, hgen'.eq] at h
  exact (List.append_inj' h (hgen.length.trans hgen'.length.symm)).2

end

/-! ## Sessions -/

/-- What a row of a session may become while the session lasts: its version
does not fall, and its salt changes with it. -/
def Follows (row row' : IdRewriteSession) : Prop :=
  row.saltVersion ≤ row'.saltVersion ∧ (row'.saltVersion = row.saltVersion → row'.salt = row.salt)

theorem Follows.refl (row : IdRewriteSession) : Follows row row := ⟨le_rfl, fun _ => rfl⟩

theorem Follows.trans {a b c : IdRewriteSession} (h : Follows a b) (h' : Follows b c) :
    Follows a c := by
  refine ⟨h.1.trans h'.1, fun heq => ?_⟩
  have hab : b.saltVersion = a.saltVersion := by
    have := h.1
    have := h'.1
    omega
  rw [h'.2 (heq.trans hab.symm), h.2 hab]

/-- The row of a session that lasts. -/
def Lasts (sessionId : JsString) (row : IdRewriteSession) (db : RewriteDb) : Prop :=
  ∃ row', db.sessions.get? sessionId = some row' ∧ Follows row row'

theorem Lasts.trans {sessionId : JsString} {row row' : IdRewriteSession} {db : RewriteDb}
    (h : Follows row row') (h' : Lasts sessionId row' db) : Lasts sessionId row db := by
  obtain ⟨row'', hrow, hfollows⟩ := h'
  exact ⟨row'', hrow, h.trans hfollows⟩

section

variable {sha256 : List UInt8 → JsString} {db db' : RewriteDb} {sessionId sid salt : JsString}
  {row : IdRewriteSession} {ttlMs now : ℚ}

theorem get?_set_lasts {existing : IdRewriteSession} (h : db.sessions.get? sid = some row)
    (hset : sessionId = sid → Follows row existing) :
    Lasts sid row { db with sessions := db.sessions.set sessionId existing } := by
  by_cases heq : sessionId = sid
  · exact ⟨existing, by rw [Dict.get?_set, if_pos heq], hset heq⟩
  · exact ⟨row, by rw [Dict.get?_set, if_neg heq, h], Follows.refl row⟩

theorem recordIdRewriteSession_lasts (h : db.sessions.get? sid = some row) :
    Lasts sid row (db.recordIdRewriteSession sessionId salt ttlMs now) := by
  rw [RewriteDb.recordIdRewriteSession]
  split
  · rename_i hnone
    refine get?_set_lasts h ?_
    rintro rfl
    rw [h] at hnone
    cases hnone
  · rename_i existing hexisting
    refine get?_set_lasts h ?_
    rintro rfl
    obtain rfl := Option.some.inj (h.symm.trans hexisting)
    exact ⟨le_rfl, fun _ => rfl⟩

theorem escalateRewriteSalt_lasts (h : db.sessions.get? sid = some row) :
    Lasts sid row (db.escalateRewriteSalt sessionId salt) := by
  rw [RewriteDb.escalateRewriteSalt]
  split
  · exact ⟨row, h, Follows.refl row⟩
  · rename_i existing hexisting
    refine get?_set_lasts h ?_
    rintro rfl
    obtain rfl := Option.some.inj (h.symm.trans hexisting)
    exact ⟨Nat.le_succ _, fun hversion => absurd hversion (Nat.succ_ne_self _)⟩

theorem clearIdRewriteSession_lasts (h : db.sessions.get? sid = some row) (hne : sessionId ≠ sid) :
    Lasts sid row (db.clearIdRewriteSession sessionId) :=
  ⟨row, by rw [RewriteDb.clearIdRewriteSession, Dict.get?_erase, if_neg hne, h], Follows.refl row⟩

theorem pruneExpiredRewriteSessions_lasts (h : db.sessions.get? sid = some row)
    (hlive : db.expired now sid = false) : Lasts sid row (db.pruneExpiredRewriteSessions now) := by
  refine ⟨row, ?_, Follows.refl row⟩
  rw [RewriteDb.pruneExpiredRewriteSessions, Dict.get?_filter_keys _ fun key => ¬ db.expired now key]
  simp [hlive, h]

theorem setRewriteMapping_sessions {key : MappingKey} {img : JsString}
    (h : db.setRewriteMapping key img = some db') : db'.sessions = db.sessions := by
  rw [RewriteDb.setRewriteMapping] at h
  split at h
  · cases h
  · cases h
    rfl
  · cases h
    rfl

/-! ## Mappings -/

/-- Every mapping belongs to a session, and one under its present salt is the
id that is generated. -/
def Consistent (sha256 : List UInt8 → JsString) (db : RewriteDb) : Prop :=
  ∀ key img, db.mappings.get? key = some img → ∃ row, db.sessions.get? key.sessionId = some row ∧
    key.saltVersion ≤ row.saltVersion ∧ (key.idType = .toolUseId →
      key.saltVersion = row.saltVersion →
        img = generatedId sha256 row.salt row.saltVersion key.originalId)

/-- Mappings that stay have sessions that last. -/
theorem Consistent.of_lasts (h : Consistent sha256 db)
    (hstay : ∀ key img, db'.mappings.get? key = some img → db.mappings.get? key = some img ∧
      ∀ row, db.sessions.get? key.sessionId = some row → Lasts key.sessionId row db') :
    Consistent sha256 db' := by
  intro key img hmapping
  obtain ⟨hold, hlasts⟩ := hstay key img hmapping
  obtain ⟨row, hrow, hle, himg⟩ := h key img hold
  obtain ⟨row', hrow', hfollows⟩ := hlasts row hrow
  refine ⟨row', hrow', hle.trans hfollows.1, fun htype heq => ?_⟩
  have hversion : row'.saltVersion = row.saltVersion := by
    have := hfollows.1
    omega
  rw [hfollows.2 hversion, hversion]
  exact himg htype (heq.trans hversion)

theorem Consistent.recordIdRewriteSession (h : Consistent sha256 db) :
    Consistent sha256 (db.recordIdRewriteSession sessionId salt ttlMs now) := by
  refine h.of_lasts fun key img hmapping => ⟨?_, fun row hrow => recordIdRewriteSession_lasts hrow⟩
  rw [RewriteDb.recordIdRewriteSession] at hmapping
  split at hmapping
  · exact hmapping
  · exact hmapping

theorem Consistent.escalateRewriteSalt (h : Consistent sha256 db) :
    Consistent sha256 (db.escalateRewriteSalt sessionId salt) := by
  refine h.of_lasts fun key img hmapping => ⟨?_, fun row hrow => escalateRewriteSalt_lasts hrow⟩
  rw [RewriteDb.escalateRewriteSalt] at hmapping
  split at hmapping
  · exact hmapping
  · exact hmapping

theorem Consistent.clearIdRewriteSession (h : Consistent sha256 db) :
    Consistent sha256 (db.clearIdRewriteSession sessionId) := by
  refine h.of_lasts fun key img hmapping => ?_
  rw [RewriteDb.clearIdRewriteSession,
    Dict.get?_filter_keys _ fun key : MappingKey => key.sessionId ≠ sessionId] at hmapping
  split at hmapping
  · rename_i hne
    exact ⟨hmapping, fun row hrow => clearIdRewriteSession_lasts hrow
      (Ne.symm (of_decide_eq_true hne))⟩
  · cases hmapping

theorem Consistent.pruneExpiredRewriteSessions (h : Consistent sha256 db) :
    Consistent sha256 (db.pruneExpiredRewriteSessions now) := by
  refine h.of_lasts fun key img hmapping => ?_
  rw [RewriteDb.pruneExpiredRewriteSessions,
    Dict.get?_filter_keys _ fun key : MappingKey => ¬ db.expired now key.sessionId] at hmapping
  split at hmapping
  · rename_i hlive
    exact ⟨hmapping, fun row hrow => pruneExpiredRewriteSessions_lasts hrow (by simpa using hlive)⟩
  · cases hmapping

/-- A mapping for the present version of a session. -/
theorem Consistent.setRewriteMapping (h : Consistent sha256 db) {key : MappingKey} {img : JsString}
    (hrow : db.sessions.get? key.sessionId = some row) (hversion : key.saltVersion = row.saltVersion)
    (himg : key.idType = .toolUseId →
      img = generatedId sha256 row.salt row.saltVersion key.originalId) :
    ∃ db', db.setRewriteMapping key img = some db' ∧ Consistent sha256 db' := by
  rw [RewriteDb.setRewriteMapping, hrow]
  cases hold : db.mappings.get? key with
  | some existing => exact ⟨db, rfl, h⟩
  | none =>
    refine ⟨_, rfl, fun key' img' hmapping => ?_⟩
    rw [Dict.get?_set] at hmapping
    split at hmapping
    · rename_i heq
      subst heq
      cases hmapping
      exact ⟨row, hrow, hversion.le, fun htype _ => himg htype⟩
    · exact h key' img' hmapping

/-! ## Session states -/

/-- The salt and the version are those of the session. -/
def Holds (db : RewriteDb) (sessionId : JsString) (state : RewriteSessionState) : Prop :=
  ∃ row, db.sessions.get? sessionId = some row ∧ row.salt = state.salt ∧
    row.saltVersion = state.saltVersion

variable {state : RewriteSessionState} {r : RetryRequest}

theorem record_new (h : db.sessions.get? sessionId = none) :
    (db.recordIdRewriteSession sessionId salt ttlMs now).sessions.get? sessionId =
      some ⟨salt, 1, 1, now + ttlMs⟩ := by
  rw [RewriteDb.recordIdRewriteSession, h]
  exact Dict.get?_set_self _ _ _

theorem record_existing (h : db.sessions.get? sessionId = some row) :
    (db.recordIdRewriteSession sessionId salt ttlMs now).sessions.get? sessionId =
      some { row with consecutive502s := row.consecutive502s + 1 } := by
  rw [RewriteDb.recordIdRewriteSession, h]
  exact Dict.get?_set_self _ _ _

theorem get?_clear : (db.clearIdRewriteSession sessionId).sessions.get? sessionId = none := by
  rw [RewriteDb.clearIdRewriteSession, Dict.get?_erase, if_pos rfl]

theorem getOrCreateSession_holds (checkedAt recordedAt : ℚ) :
    Holds (getOrCreateSession ttlMs db sessionId checkedAt recordedAt salt).2 sessionId
      (getOrCreateSession ttlMs db sessionId checkedAt recordedAt salt).1 := by
  rw [getOrCreateSession, RewriteDb.getIdRewriteSession]
  split
  · rename_i existing hexisting
    split
    · exact ⟨_, record_existing hexisting, rfl, rfl⟩
    · exact ⟨_, record_new get?_clear, rfl, rfl⟩
  · rename_i hnone
    exact ⟨_, record_new hnone, rfl, rfl⟩

theorem escalate_holds :
    Holds (escalate ttlMs db sessionId now salt).2 sessionId
      (escalate ttlMs db sessionId now salt).1 := by
  rw [escalate, RewriteDb.getIdRewriteSession]
  split
  · rename_i hnone
    exact ⟨_, record_new hnone, rfl, rfl⟩
  · rename_i existing hexisting
    have hrow : (db.escalateRewriteSalt sessionId salt).sessions.get? sessionId =
        some { existing with salt := salt, saltVersion := existing.saltVersion + 1 } := by
      rw [RewriteDb.escalateRewriteSalt, hexisting]
      exact Dict.get?_set_self _ _ _
    refine ⟨_, hrow, rfl, ?_⟩
    simp [RewriteDb.getIdRewriteSession, hrow]

theorem openSession_holds (ttlMs : ℚ) (db : RewriteDb) (r : RetryRequest) :
    Holds (openSession ttlMs db r).2 r.sessionId (openSession ttlMs db r).1 := by
  rw [openSession]
  split
  · exact escalate_holds
  · exact getOrCreateSession_holds r.checkedAt r.recordedAt

theorem Consistent.openSession (h : Consistent sha256 db) (ttlMs : ℚ) (r : RetryRequest) :
    Consistent sha256 (openSession ttlMs db r).2 := by
  have hopened : Consistent sha256 (getOrCreateSession ttlMs db r.sessionId r.checkedAt r.recordedAt
      r.freshSalt).2 := by
    rw [getOrCreateSession]
    split
    · split
      · exact h.recordIdRewriteSession
      · exact h.clearIdRewriteSession.recordIdRewriteSession
    · exact h.recordIdRewriteSession
  rw [Experiments.openSession]
  split
  · rw [escalate]
    split
    · exact hopened.recordIdRewriteSession
    · exact hopened.escalateRewriteSalt
  · exact hopened

/-- A session that a request finds expired ends. -/
def Expires (db : RewriteDb) (r : RetryRequest) : Prop :=
  ∃ row, db.sessions.get? r.sessionId = some row ∧ ¬ row.expiresAt > r.checkedAt

theorem openSession_lasts (ttlMs : ℚ) (h : db.sessions.get? sid = some row)
    (hlive : r.sessionId = sid → ¬ Expires db r) : Lasts sid row (openSession ttlMs db r).2 := by
  have hopened : Lasts sid row (getOrCreateSession ttlMs db r.sessionId r.checkedAt r.recordedAt
      r.freshSalt).2 := by
    rw [getOrCreateSession, RewriteDb.getIdRewriteSession]
    split
    · rename_i existing hexisting
      split
      · exact recordIdRewriteSession_lasts h
      · rename_i hexpired
        have hne : r.sessionId ≠ sid := fun heq => hlive heq ⟨existing, hexisting, hexpired⟩
        obtain ⟨row', hrow', hfollows⟩ := clearIdRewriteSession_lasts h hne
        exact (recordIdRewriteSession_lasts hrow').trans hfollows
    · exact recordIdRewriteSession_lasts h
  obtain ⟨row', hrow', hfollows⟩ := hopened
  rw [openSession]
  split
  · rw [escalate]
    split
    · exact (recordIdRewriteSession_lasts hrow').trans hfollows
    · exact (escalateRewriteSalt_lasts hrow').trans hfollows
  · exact ⟨row', hrow', hfollows⟩

/-! ## Rewriting -/

theorem rewrittenIdOf_eq (h : Consistent sha256 db) (hstate : Holds db sessionId state)
    (originalId : JsString) : rewrittenIdOf sha256 db sessionId state originalId =
      generatedId sha256 state.salt state.saltVersion originalId := by
  obtain ⟨row, hrow, hsalt, hversion⟩ := hstate
  rw [rewrittenIdOf, RewriteDb.getRewriteMapping]
  cases hmapping : db.mappings.get? (toolUseKey sessionId state originalId) with
  | none => rfl
  | some img =>
    obtain ⟨row', hrow', -, himg⟩ := h _ img hmapping
    obtain rfl := Option.some.inj (hrow'.symm.trans hrow)
    rw [Option.getD_some, himg rfl hversion.symm, hsalt, hversion]
    rfl

theorem Holds.of_sessions (h : Holds db sessionId state) (heq : db'.sessions = db.sessions) :
    Holds db' sessionId state := by
  rwa [Holds, heq]

/-- A round replaces the id by the generated one, and the database stays in
order. -/
theorem rewriteId_eq (h : Consistent sha256 db) (hstate : Holds db sessionId state)
    (text originalId : JsString) :
    ∃ db', rewriteId sha256 sessionId state (db, text) originalId =
      some (db', replaceAll originalId
        (generatedId sha256 state.salt state.saltVersion originalId) text) ∧
      Consistent sha256 db' ∧ db'.sessions = db.sessions := by
  have himg := rewrittenIdOf_eq h hstate originalId
  have hset : ∃ db', db.setRewriteMapping (toolUseKey sessionId state originalId)
      (generatedId sha256 state.salt state.saltVersion originalId) = some db' ∧
        Consistent sha256 db' := by
    obtain ⟨row, hrow, hsalt, hversion⟩ := hstate
    exact h.setRewriteMapping hrow hversion.symm fun _ => by rw [hsalt, hversion]; rfl
  rw [rewriteId]
  dsimp only
  rw [himg]
  split
  · exact ⟨db, rfl, h, rfl⟩
  · obtain ⟨db', hdb', hconsistent⟩ := hset
    exact ⟨db', by rw [hdb']; rfl, hconsistent, setRewriteMapping_sessions hdb'⟩

theorem foldlM_rewriteId (h : Consistent sha256 db) (hstate : Holds db sessionId state)
    (ids : List JsString) (text : JsString) :
    ∃ db', ids.foldlM (rewriteId sha256 sessionId state) (db, text) =
      some (db', Code.replaceEach (generatedId sha256 state.salt state.saltVersion) ids text) ∧
      Consistent sha256 db' ∧ db'.sessions = db.sessions := by
  induction ids generalizing db text with
  | nil => exact ⟨db, rfl, h, rfl⟩
  | cons id ids ih =>
    obtain ⟨db₁, hround, hconsistent, hsessions⟩ := rewriteId_eq h hstate text id
    obtain ⟨db', hrest, hconsistent', hsessions'⟩ := ih hconsistent (hstate.of_sessions hsessions) _
    refine ⟨db', ?_, hconsistent', hsessions'.trans hsessions⟩
    rw [List.foldlM_cons, hround]
    exact hrest

theorem rewriteBody_eq (h : Consistent sha256 db) (hstate : Holds db sessionId state)
    (bodyText : JsString) (headers : Dict JsString JsString) :
    ∃ result db', rewriteBody sha256 db bodyText headers sessionId state = some (result, db') ∧
      result.body = Code.replaceEach (generatedId sha256 state.salt state.saltVersion)
        (toolUseIds bodyText) bodyText ∧
      Consistent sha256 db' ∧ db'.sessions = db.sessions := by
  obtain ⟨db', hfold, hconsistent, hsessions⟩ :=
    foldlM_rewriteId h hstate (toolUseIds bodyText) bodyText
  exact ⟨_, db', by rw [rewriteBody, hfold]; rfl, rfl, hconsistent, hsessions⟩

theorem rewriteHeader_eq (h : Consistent sha256 db) (hstate : Holds db sessionId state)
    (out : Dict JsString JsString) (newSessionId : Option JsString) (key : JsString) :
    ∃ acc, rewriteHeader sha256 sessionId state (db, out, newSessionId) key = some acc ∧
      Consistent sha256 acc.1 ∧ acc.1.sessions = db.sessions := by
  obtain ⟨row, hrow, -, hversion⟩ := hstate
  rw [rewriteHeader]
  split
  · split
    · exact ⟨_, rfl, h, rfl⟩
    · dsimp only
      split
      · exact ⟨_, rfl, h, rfl⟩
      · obtain ⟨db', hdb', hconsistent⟩ : ∃ db', db.setRewriteMapping
            ⟨sessionId, sessionId, .sessionId, state.saltVersion⟩
            (deterministicRewrite sha256 sessionId state.salt state.saltVersion (js "ses")) =
              some db' ∧ Consistent sha256 db' :=
          h.setRewriteMapping hrow hversion.symm fun htype => by cases htype
        exact ⟨_, by rw [hdb']; rfl, hconsistent, setRewriteMapping_sessions hdb'⟩
  · exact ⟨_, rfl, h, rfl⟩

theorem rewriteHeaders_eq (h : Consistent sha256 db) (hstate : Holds db sessionId state)
    (headers : Dict JsString JsString) :
    ∃ acc, rewriteHeaders sha256 db headers sessionId state = some acc ∧
      Consistent sha256 acc.1 ∧ acc.1.sessions = db.sessions := by
  obtain ⟨acc, hfirst, hconsistent, hsessions⟩ :=
    rewriteHeader_eq h hstate headers none (js "x-session-id")
  obtain ⟨acc', hsecond, hconsistent', hsessions'⟩ := rewriteHeader_eq hconsistent
    (hstate.of_sessions hsessions) acc.2.1 acc.2.2 (js "x-session-affinity")
  refine ⟨acc', ?_, hconsistent', hsessions'.trans hsessions⟩
  rw [rewriteHeaders, List.foldlM_cons, hfirst]
  change (do let s' ← rewriteHeader sha256 sessionId state acc (js "x-session-affinity")
             [].foldlM (rewriteHeader sha256 sessionId state) s') = some acc'
  rw [hsecond]
  rfl

/-! ## Runs -/

/-- A request opens its session and then only adds mappings. -/
theorem step_retry (h : Consistent sha256 db) (r : RetryRequest) :
    Consistent sha256 (step sha256 ttlMs db (.retry r)) ∧
      (step sha256 ttlMs db (.retry r)).sessions = (openSession ttlMs db r).2.sessions := by
  have hholds : Holds (openSession ttlMs db r).2 r.sessionId (openSession ttlMs db r).1 :=
    openSession_holds ttlMs db r
  obtain ⟨result, db₁, hbody, -, hconsistent, hsessions⟩ :=
    rewriteBody_eq (h.openSession ttlMs r) hholds r.bodyText r.headers
  obtain ⟨acc, hheaders, hconsistent', hsessions'⟩ :=
    rewriteHeaders_eq hconsistent (hholds.of_sessions hsessions) r.headers
  rw [step, rewriteRequest, hbody, Option.bind_some, hheaders]
  exact ⟨hconsistent', hsessions'.trans hsessions⟩

theorem step_consistent (h : Consistent sha256 db) (s : Step) :
    Consistent sha256 (step sha256 ttlMs db s) := by
  cases s with
  | retry r => exact (step_retry h r).1
  | clearSession sessionId => exact h.clearIdRewriteSession
  | pruneExpired now => exact h.pruneExpiredRewriteSessions

/-- In every run the stored ids are the generated ones. -/
theorem run_consistent (steps : List Step) :
    Consistent sha256 (run (step sha256 ttlMs) {} steps) :=
  run_invariant (I := Consistent sha256) (fun _ s h => step_consistent h s)
    (fun key img h => by cases h) steps

/-- The step ends the session. -/
def Ends (sessionId : JsString) (db : RewriteDb) : Step → Prop
  | .retry r => r.sessionId = sessionId ∧ Expires db r
  | .clearSession ended => ended = sessionId
  | .pruneExpired now => db.expired now sessionId = true

theorem step_lasts (hconsistent : Consistent sha256 db) (h : db.sessions.get? sid = some row)
    {s : Step} (hlive : ¬ Ends sid db s) : Lasts sid row (step sha256 ttlMs db s) := by
  cases s with
  | retry r =>
    obtain ⟨row', hrow', hfollows⟩ := openSession_lasts ttlMs h
      fun heq hexpires => hlive ⟨heq, hexpires⟩
    exact ⟨row', by rw [(step_retry hconsistent r).2, hrow'], hfollows⟩
  | clearSession ended => exact clearIdRewriteSession_lasts h hlive
  | pruneExpired now => exact pruneExpiredRewriteSessions_lasts h (by simpa [Ends] using hlive)

theorem run_lasts {later : List Step} (hconsistent : Consistent sha256 db)
    (h : db.sessions.get? sid = some row)
    (hlive : StepsMeet (step sha256 ttlMs) (fun db s => ¬ Ends sid db s) db later) :
    Consistent sha256 (run (step sha256 ttlMs) db later) ∧
      Lasts sid row (run (step sha256 ttlMs) db later) := by
  refine run_invariant_of_stepsMeet (I := fun db => Consistent sha256 db ∧ Lasts sid row db)
    (fun db s hs hlive => ?_) ⟨hconsistent, row, h, Follows.refl row⟩ hlive
  obtain ⟨hconsistent, row', hrow', hfollows⟩ := hs
  exact ⟨step_consistent hconsistent s, (step_lasts hconsistent hrow' hlive).trans hfollows⟩

/-- Two requests of a session that lasts between them, under one version, have
the same images. -/
theorem rewrittenIdOf_kept {later : List Step} {r' : RetryRequest} {state' : RewriteSessionState}
    (h : Consistent sha256 db) (hopened : openSession ttlMs db r = (state, db'))
    (hsession : r'.sessionId = r.sessionId)
    (hlive : StepsMeet (step sha256 ttlMs) (fun db s => ¬ Ends r.sessionId db s)
      (step sha256 ttlMs db (.retry r)) (later ++ [.retry r']))
    {db₁ : RewriteDb}
    (hopened' : openSession ttlMs (run (step sha256 ttlMs) (step sha256 ttlMs db (.retry r)) later)
      r' = (state', db₁))
    (hversion : state'.saltVersion = state.saltVersion) (originalId : JsString) :
    rewrittenIdOf sha256 db₁ r.sessionId state' originalId =
      rewrittenIdOf sha256 db' r.sessionId state originalId := by
  have hconsistent : Consistent sha256 db' := by
    have hopen := h.openSession ttlMs r
    rwa [hopened] at hopen
  have hholds : Holds db' r.sessionId state := by
    have hopen := openSession_holds ttlMs db r
    rwa [hopened] at hopen
  obtain ⟨row, hrow, hsalt, hrowVersion⟩ := hholds
  have hstart : (step sha256 ttlMs db (.retry r)).sessions.get? r.sessionId = some row := by
    rw [(step_retry h r).2, hopened, hrow]
  rw [stepsMeet_append] at hlive
  -- the session lasts to the second request and through its opening
  obtain ⟨hlater, row₁, hrow₁, hfollows₁⟩ := run_lasts (step_retry h r).1 hstart hlive.1
  have hlasts := openSession_lasts ttlMs (r := r') hrow₁
    fun _ hexpires => hlive.2.1 ⟨hsession, hexpires⟩
  have hconsistent₁ : Consistent sha256 db₁ := by
    have hopen := hlater.openSession ttlMs r'
    rwa [hopened'] at hopen
  rw [hopened'] at hlasts
  obtain ⟨row₂, hrow₂, hfollows₂⟩ := hlasts
  have hholds₁ : Holds db₁ r.sessionId state' := by
    have hopen := openSession_holds ttlMs
      (run (step sha256 ttlMs) (step sha256 ttlMs db (.retry r)) later) r'
    rwa [hopened', hsession] at hopen
  obtain ⟨row₃, hrow₃, hsalt₃, hversion₃⟩ := hholds₁
  obtain rfl := Option.some.inj (hrow₃.symm.trans hrow₂)
  have hfollows := hfollows₁.trans hfollows₂
  have hsame : state'.salt = state.salt := by
    rw [← hsalt, ← hsalt₃]
    exact hfollows.2 (by rw [hversion₃, hversion, hrowVersion])
  rw [rewrittenIdOf_eq hconsistent₁ ⟨row₃, hrow₃, hsalt₃, hversion₃⟩,
    rewrittenIdOf_eq hconsistent ⟨row, hrow, hsalt, hrowVersion⟩, hsame, hversion]

/-! ## Bodies -/

/-- The quotes and backslashes of JSON. -/
def jsonQuoting : Quoting UInt16 where
  isQuote u := u = 34
  isBackslash u := u = 92

theorem plain_of_isWord (h : idCode.IsWord w) : ∀ u ∈ w, jsonQuoting.Plain u := by
  obtain ⟨start, rest, hstart, -, hunits, rfl⟩ := toolUseIdAt_self.mp h
  have hstarts : ∀ s ∈ idStarts, (s.all fun u => !jsonQuoting.isQuote u &&
      !jsonQuoting.isBackslash u) = true := by decide
  intro u hu
  obtain hu | hu := List.mem_append.mp hu
  · simpa [Quoting.Plain] using List.all_eq_true.mp (hstarts start hstart) u hu
  · have hunit := hunits u hu
    constructor
    · exact decide_eq_false fun heq => absurd (heq ▸ hunit) (by decide)
    · exact decide_eq_false fun heq => absurd (heq ▸ hunit) (by decide)

/-- A position outside of every match of the id pattern. -/
def OutsideMatches (text : JsString) (i : ℕ) : Prop :=
  ∀ m ∈ toolUseIdMatches text, ¬ (m.1 ≤ i ∧ i < m.1 + m.2.length)

/-- The texts have as many string tokens, and these are equal in the same
places. -/
def SameTokens (text text' : JsString) : Prop :=
  (jsonQuoting.stringTokens text').length = (jsonQuoting.stringTokens text).length ∧
    ∀ i j : ℕ, (jsonQuoting.stringTokens text')[i]? = (jsonQuoting.stringTokens text')[j]? ↔
      (jsonQuoting.stringTokens text)[i]? = (jsonQuoting.stringTokens text)[j]?

theorem getElem?_map_eq_iff {α β γ : Type} {F : α → β} {G : α → γ} {l : List α}
    (h : ∀ a ∈ l, ∀ b ∈ l, F a = F b ↔ G a = G b) (i j : ℕ) :
    (l.map F)[i]? = (l.map F)[j]? ↔ (l.map G)[i]? = (l.map G)[j]? := by
  rw [List.getElem?_map, List.getElem?_map, List.getElem?_map, List.getElem?_map]
  cases hi : l[i]? with
  | none =>
    cases hj : l[j]? with
    | none => simp
    | some b => simp
  | some a =>
    cases hj : l[j]? with
    | none => simp
    | some b =>
      simpa using h a (List.mem_of_getElem? hi) b (List.mem_of_getElem? hj)

theorem sameTokens_render {f : JsString → JsString} (hf : Code.Keeps idCode f (toolUseIds t))
    (hinj : ∀ o ∈ toolUseIds t, ∀ o' ∈ toolUseIds t, f o = f o' → o = o') :
    SameTokens t (Piece.render f (idCode.pieces 0 t)) := by
  have hwords : ∀ w ∈ Piece.words (idCode.pieces 0 t), w ∈ toolUseIds t :=
    fun w hw => mem_toolUseIds.mpr hw
  have himage := Quoting.stringTokens_render (q := jsonQuoting)
    (fun w hw => (hf.image w (hwords w hw)).ne_nil)
    (fun w hw => plain_of_isWord (hf.image w (hwords w hw)))
  have htext := Quoting.stringTokens_render (q := jsonQuoting) (f := id)
    (fun w hw => (hf.isWord w (hwords w hw)).ne_nil)
    (fun w hw => plain_of_isWord (hf.isWord w (hwords w hw)))
  rw [Code.render_pieces] at htext
  rw [SameTokens, himage, htext]
  refine ⟨by rw [List.length_map, List.length_map], getElem?_map_eq_iff fun a ha b hb => ?_⟩
  have hpart : ∀ token ∈ jsonQuoting.ofPieces.stringTokens (idCode.pieces 0 t),
      idCode.Scanned token ∧ ∀ w ∈ Piece.words token, w ∈ toolUseIds t := by
    intro token htoken
    have hin := Quoting.isInfix_of_mem htoken
    refine ⟨(Code.scanned_pieces t).part hin, fun w hw => hwords w ?_⟩
    obtain ⟨before, after, heq⟩ := hin
    rw [← heq, Piece.words_append, Piece.words_append]
    exact List.mem_append_left _ (List.mem_append_right _ hw)
  obtain ⟨hscanned, hmem⟩ := hpart a ha
  obtain ⟨hscanned', hmem'⟩ := hpart b hb
  refine Code.render_eq_iff hscanned hscanned' (hf.mono fun w hw => ?_)
    fun w hw w' hw' => hinj w (hmem w hw) w' (hmem' w' hw')
  obtain hw | hw := List.mem_append.mp hw
  · exact hmem w hw
  · exact hmem' w hw

/-- **Rewriting is a consistent injective substitution.** A request of any run
is rewritten to a body of the same length that differs in the matches alone,
where every id has its image, and two string tokens are equal exactly when they
were. While the session lasts under one version, the images stay. -/
theorem rewriteBody_substitutes (hsha : HexDigest sha256) (steps : List Step) (r : RetryRequest)
    (hopened : openSession ttlMs (run (step sha256 ttlMs) {} steps) r = (state, db))
    (hinj : ∀ o ∈ toolUseIds r.bodyText, ∀ o' ∈ toolUseIds r.bodyText,
      truncatedHash sha256 state.salt state.saltVersion o =
        truncatedHash sha256 state.salt state.saltVersion o' → o = o')
    (hapart : ∀ text ∈ Code.textsThrough (rewrittenIdOf sha256 db r.sessionId state)
        (toolUseIds r.bodyText) r.bodyText,
      Code.Apart (toolUseIds r.bodyText)
        ((toolUseIds r.bodyText).map (rewrittenIdOf sha256 db r.sessionId state)) text) :
    ∃ (result : RewriteResult) (db' : RewriteDb),
      rewriteBody sha256 db r.bodyText r.headers r.sessionId state = some (result, db') ∧
      result.body.length = r.bodyText.length ∧
      (∀ i, OutsideMatches r.bodyText i → result.body[i]? = r.bodyText[i]?) ∧
      (∀ m ∈ toolUseIdMatches r.bodyText, (result.body.drop m.1).take m.2.length =
        rewrittenIdOf sha256 db r.sessionId state m.2) ∧
      SameTokens r.bodyText result.body ∧
      ∀ (later : List Step) (r' : RetryRequest), r'.sessionId = r.sessionId →
        StepsMeet (step sha256 ttlMs) (fun db s => ¬ Ends r.sessionId db s)
          (run (step sha256 ttlMs) {} (steps ++ [.retry r])) (later ++ [.retry r']) →
        ∀ state' db₁, openSession ttlMs
            (run (step sha256 ttlMs) {} (steps ++ [.retry r] ++ later)) r' = (state', db₁) →
          state'.saltVersion = state.saltVersion → ∀ o,
            rewrittenIdOf sha256 db₁ r.sessionId state' o =
              rewrittenIdOf sha256 db r.sessionId state o := by
  have hconsistent : Consistent sha256 db := by
    have hopen : Consistent sha256 (openSession ttlMs (run (step sha256 ttlMs) {} steps) r).2 :=
      (run_consistent steps).openSession ttlMs r
    rwa [hopened] at hopen
  have hholds : Holds db r.sessionId state := by
    have hopen := openSession_holds ttlMs (run (step sha256 ttlMs) {} steps) r
    rwa [hopened] at hopen
  have himage : rewrittenIdOf sha256 db r.sessionId state =
      generatedId sha256 state.salt state.saltVersion := funext (rewrittenIdOf_eq hconsistent hholds)
  have hkeeps : Code.Keeps idCode (generatedId sha256 state.salt state.saltVersion)
      (toolUseIds r.bodyText) := keeps_generatedId hsha fun w hw => isWord_of_mem_toolUseIds hw
  have hwords : ∀ w ∈ Piece.words (idCode.pieces 0 r.bodyText), w ∈ toolUseIds r.bodyText :=
    fun w hw => mem_toolUseIds.mpr hw
  have hlength : ∀ w ∈ Piece.words (idCode.pieces 0 r.bodyText),
      (generatedId sha256 state.salt state.saltVersion w).length = w.length :=
    fun w hw => hkeeps.length w (hwords w hw)
  rw [himage] at hapart ⊢
  obtain ⟨result, db', hresult, hbody, -, -⟩ :=
    rewriteBody_eq hconsistent hholds r.bodyText r.headers
  rw [Code.replaceEach_eq_render hkeeps (toolUseIds_nodup r.bodyText) hwords hapart] at hbody
  refine ⟨result, db', hresult, ?_, ?_, ?_, ?_, ?_⟩
  · rw [hbody, Code.length_render hlength, Code.render_pieces]
  · intro i hi
    rw [hbody, Code.render_getElem? hlength 0, Code.render_pieces]
    intro m hm
    rw [Nat.zero_add]
    exact hi m (toolUseIdMatches_eq r.bodyText ▸ hm)
  · intro m hm
    rw [toolUseIdMatches_eq] at hm
    have htake := Code.take_drop_render hlength 0 hm
    rwa [Nat.sub_zero, ← hbody] at htake
  · rw [hbody]
    refine sameTokens_render hkeeps fun o ho o' ho' heq => hinj o ho o' ho' ?_
    exact truncatedHash_eq_of_generatedId_eq hsha (isWord_of_mem_toolUseIds ho)
      (isWord_of_mem_toolUseIds ho') heq
  · intro later r' hsession hlive state' db₁ hopened' hversion o
    rw [run_append] at hlive hopened'
    rw [run_append] at hopened'
    rw [← himage]
    exact rewrittenIdOf_kept (run_consistent steps) hopened hsession hlive hopened' hversion o

/-- A body with two ids that share what the pattern matches, one of them longer,
and two that touch. -/
def touchingBody : JsString :=
  js "[\"call_0123456789abcdefghijklmn\",\"call_0123456789abcdefghijklmnXYZ\"," ++
    js "\"call_0123456789abcdefghijklmotoolu_0123456789abcdefghijklmn\"]"

def touchingRetry : RetryRequest where
  sessionId := js "ses_094245ee8ffeE1vAORqPmsfxAI"
  bodyText := touchingBody
  headers := []
  forceEscalate := false
  checkedAt := 1000
  recordedAt := 1000
  freshSalt := js "5f0c3a9d2b7e4816a4d0c9f1e2b38756"
  newSalt := []

/-- SHA-256 of the texts that are hashed for it. -/
def touchingDigest (bytes : List UInt8) : JsString :=
  let hashed := fun id => utf8 (js "5f0c3a9d2b7e4816a4d0c9f1e2b387561" ++ js id)
  if bytes = hashed "call_0123456789abcdefghijklmn" then
    js "fcabb25577014c99ec6d1a996213a06c0e5de9fa952ad05e1b47ac368f251925"
  else if bytes = hashed "call_0123456789abcdefghijklmo" then
    js "5133276e29ac305f5088be5e026efbb9cb6c72decc58b8a2b3c5836a44133695"
  else js "7f111b327b1a7b69ee48ccc6ebdd3a801886cc687507ff02d964d2934e1a701c"

theorem touchingDigest_hex : HexDigest touchingDigest := by
  have hall : ∀ bytes, (touchingDigest bytes).length = 64 ∧ ((touchingDigest bytes).all fun u =>
      48 ≤ u && u ≤ 57 || 97 ≤ u && u ≤ 102) = true := by
    intro bytes
    rw [touchingDigest]
    split
    · decide +kernel
    · split
      · decide +kernel
      · decide +kernel
  refine ⟨fun bytes => (hall bytes).1, fun bytes u hu => ?_⟩
  simpa using List.all_eq_true.mp (hall bytes).2 u hu

/-- The two ids that touch are replaced by their images, at their places. -/
theorem rewriteBody_substitutes_touching : ∃ (result : RewriteResult) (db' : RewriteDb),
    rewriteBody touchingDigest (openSession 3600000 {} touchingRetry).2 touchingBody []
      touchingRetry.sessionId (openSession 3600000 {} touchingRetry).1 = some (result, db') ∧
    result.body.length = touchingBody.length ∧
    (result.body.drop 69).take 29 = js "call_5133276e29ac305f5088be5e" ∧
    (result.body.drop 98).take 30 = js "toolu_7f111b327b1a7b69ee48ccc6" ∧
    SameTokens touchingBody result.body := by
  have hopened : openSession 3600000 (run (step touchingDigest 3600000) {} []) touchingRetry =
      ((openSession 3600000 {} touchingRetry).1, (openSession 3600000 {} touchingRetry).2) := rfl
  have hapart : ∀ w ∈ toolUseIds touchingBody, ∀ g ∈ (toolUseIds touchingBody).map
      (rewrittenIdOf touchingDigest (openSession 3600000 {} touchingRetry).2
        touchingRetry.sessionId (openSession 3600000 {} touchingRetry).1),
      ¬ Code.Overlap w g := by decide +kernel
  obtain ⟨result, db', hresult, hlength, -, himages, htokens, -⟩ :=
    rewriteBody_substitutes touchingDigest_hex [] touchingRetry hopened (by decide +kernel)
      fun text _ => Code.apart_of_not_overlap hapart text
  have hmatches : (69, js "call_0123456789abcdefghijklmo") ∈ toolUseIdMatches touchingBody ∧
      (98, js "toolu_0123456789abcdefghijklmn") ∈ toolUseIdMatches touchingBody := by
    decide +kernel
  have hcall := himages _ hmatches.1
  have htoolu := himages _ hmatches.2
  refine ⟨result, db', hresult, hlength, hcall.trans ?_, htoolu.trans ?_, htokens⟩
  · decide +kernel
  · decide +kernel

end

end UmansGate.Experiments
