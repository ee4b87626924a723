/-
UmansGate.Vision.FastPathTheorems — when the cache-only path and the full
path agree.

The fast path looks every image up under its image-only key and drops the
placeholders of the overflow; the full path looks it up under the key of its
context first. So they rewrite a body alike, for every outcome of the vision
calls, exactly when no image is beyond the limit and each kept image, in its
turn, is found with the description that the fast path found
(`bodies_agree_iff`); and they also ask the same tiers exactly when no image
is beyond the limit and no kept image has a context hash (`paths_agree_iff`).
-/
import UmansGate.Vision.CachedHandoff
import UmansGate.Vision.HandoffTheorems
import UmansGate.Vision.RequestTheorems

namespace UmansGate.Vision

open UmansGate.Lib

/-! ## Rewritten bodies -/

section

variable {kind : ApiKind} {content messages : List Json} {level : Level} {i n : ℕ}
  {descriptions descriptions' overflow : List JsString} {positions : Option (List Position)}
  {body : Json}

/-- The walk over a message replaces blocks in place. -/
theorem length_replaceInContentArray (kind : ApiKind) (descriptions : List JsString)
    (positions : Option (List Position)) (content : List Json) (level : Level) (i : ℕ) :
    level = .blocks → ∀ n ≤ descriptions.length,
      (replaceInContentArray kind descriptions positions n content).1.length = content.length := by
  induction content, level, i using slotInduction kind with
  | nil level i =>
    intro _ n _
    rw [replaceInContentArray]
  | slot level i part rest hslot ih =>
    rintro rfl n hle
    rw [replaceInContentArray_slot hslot hle, List.length_cons,
      ih rfl _ (Nat.min_le_left _ _), List.length_cons]
  | nested level i part items rest hslot hn ihitems ih =>
    rintro rfl n hle
    have hcursor := (slotsIn_replaceInContentArray kind descriptions positions items .blocks 0 rfl n
      hle).2
    rw [replaceInContentArray_nested hslot hn, List.length_cons, List.length_cons,
      ih rfl _ (by rw [hcursor]; exact Nat.min_le_left _ _)]
  | other level i part rest hslot hn ih =>
    rintro rfl n hle
    rw [replaceInContentArray_other hslot hn, List.length_cons, ih rfl n hle, List.length_cons]

/-- The content blocks of the messages. -/
def blockCount (messages : List Json) : ℕ :=
  (messages.map fun msg => ((msg.items? (js "content")).getD []).length).sum

theorem blockCount_cons (msg : Json) (rest : List Json) :
    blockCount (msg :: rest) =
      ((msg.items? (js "content")).getD []).length + blockCount rest := rfl

theorem blockCount_set {msg : Json} (h : msg.items? (js "content") = some content)
    (blocks rest : List Json) :
    blockCount (msg.set (js "content") (.arr blocks) :: rest) =
      blocks.length + blockCount rest := by
  rw [blockCount_cons, items?_set h, Option.getD_some]

/-- Without overflow left the messages keep their number of blocks. -/
theorem blockCount_replaceInMessages (messages : List Json) : ∀ n overflowIdx : ℕ,
    n ≤ descriptions.length → overflow.length ≤ overflowIdx →
      blockCount (replaceInMessages kind descriptions overflow positions n overflowIdx messages) =
        blockCount messages := by
  induction messages with
  | nil =>
    intro n overflowIdx _ _
    rw [replaceInMessages]
  | cons msg rest ih =>
    intro n overflowIdx hle hover
    rw [replaceInMessages]
    cases hcontent : msg.items? (js "content") with
    | none => simp only [blockCount_cons, hcontent, ih n overflowIdx hle hover]
    | some content =>
      have hlength := length_replaceInContentArray kind descriptions positions content .blocks 0 rfl
        n hle
      have hcursor := (slotsIn_replaceInContentArray kind descriptions positions content .blocks 0
        rfl n hle).2
      simp only []
      rw [if_neg (by omega), blockCount_set hcontent, hlength,
        ih _ overflowIdx (by rw [hcursor]; exact Nat.min_le_left _ _) hover, blockCount_cons,
        hcontent, Option.getD_some]

/-- The overflow text is one more block, behind the message that takes the
last description. -/
theorem blockCount_overflow (hoverflow : joinLines overflow ≠ []) (messages : List Json) :
    ∀ i n : ℕ, n ≤ descriptions.length → slotsIn kind .messages i messages ≠ [] →
      descriptions.length ≤ n + (slotsIn kind .messages i messages).length →
      blockCount (replaceInMessages kind descriptions overflow positions n 0 messages) =
        blockCount messages + 1 := by
  have hpositive : 0 < overflow.length := by
    refine List.length_pos_iff.mpr fun hnil => hoverflow ?_
    rw [hnil]
    rfl
  induction messages with
  | nil =>
    intro i n _ hslots
    exact absurd (slotsIn_nil kind .messages i) hslots
  | cons msg rest ih =>
    intro i n hle hslots henough
    rw [slotsIn_message] at hslots henough
    rw [replaceInMessages]
    cases hcontent : msg.items? (js "content") with
    | none =>
      simp only [hcontent, Option.getD_none, slotsIn_nil, List.map_nil, List.nil_append]
        at hslots henough
      simp only [blockCount_cons, hcontent, ih (i + 1) n hle hslots henough]
      omega
    | some content =>
      rw [hcontent, Option.getD_some, List.length_append, List.length_map] at henough
      have hlength := length_replaceInContentArray kind descriptions positions content .blocks 0 rfl
        n hle
      have hcursor := (slotsIn_replaceInContentArray kind descriptions positions content .blocks 0
        rfl n hle).2
      simp only []
      by_cases hlast : (replaceInContentArray kind descriptions positions n content).2 ≥
          descriptions.length
      · rw [if_pos ⟨hoverflow, hlast, hpositive⟩, blockCount_set hcontent, List.length_append,
          hlength, List.length_singleton,
          blockCount_replaceInMessages rest _ _ (by rw [hcursor]; exact Nat.min_le_left _ _)
            (Nat.le_refl _), blockCount_cons, hcontent, Option.getD_some]
        omega
      · have hrest : slotsIn kind .messages (i + 1) rest ≠ [] := by
          intro hnil
          rw [hnil, List.length_nil] at henough
          omega
        rw [if_neg (fun h => hlast h.2.1), blockCount_set hcontent, hlength,
          ih (i + 1) _ (by rw [hcursor]; exact Nat.min_le_left _ _) hrest (by omega),
          blockCount_cons, hcontent, Option.getD_some]
        omega

/-- The label of an image leaves its description readable. -/
theorem wrapWithPosition_inj {k : ℕ} (hk : k < descriptions.length)
    (hlength : descriptions.length = descriptions'.length)
    (h : wrapWithPosition descriptions k positions = wrapWithPosition descriptions' k positions) :
    descriptions[k]? = descriptions'[k]? := by
  have hk' : k < descriptions'.length := hlength ▸ hk
  have hdesc : descriptions.getD k [] = descriptions'.getD k [] := by
    unfold wrapWithPosition at h
    split at h
    · split at h
      · simpa using h
      · exact h
    · exact h
  rw [List.getElem?_eq_getElem hk, List.getElem?_eq_getElem hk']
  simpa [List.getD_eq_getElem?_getD, hk, hk'] using hdesc

theorem textBlock_inj {text text' : JsString} (h : textBlock kind text = textBlock kind text') :
    text = text' := by
  cases kind with
  | openai =>
    simp only [textBlock, Json.obj.injEq, List.cons.injEq, Prod.mk.injEq, Json.str.injEq] at h
    exact h.2.1.2
  | anthropic =>
    simp only [textBlock, Json.obj.injEq, List.cons.injEq, Prod.mk.injEq, Json.str.injEq] at h
    exact h.2.1.2

/-- A rewritten body determines the descriptions, and whether there was an
overflow. -/
theorem replaceImageBlocks_inj (hslots : slots kind body ≠ [])
    (hcount : descriptions.length ≤ (slots kind body).length)
    (hlength : descriptions.length = descriptions'.length)
    (hoverflow : overflow ≠ [] → joinLines overflow ≠ [])
    (h : replaceImageBlocks body kind descriptions overflow positions =
      replaceImageBlocks body kind descriptions' [] positions) :
    overflow = [] ∧ descriptions = descriptions' := by
  have hnone : overflow = [] := by
    by_contra hne
    unfold replaceImageBlocks at h
    unfold slots at hslots hcount
    cases hmessages : body.items? (js "messages") with
    | none =>
      rw [hmessages] at hslots
      exact hslots (slotsIn_nil kind .messages 0)
    | some messages =>
      rw [hmessages] at h hslots hcount
      have hblocks := Json.arr_of_set_eq hmessages h
      have hmore : blockCount (replaceInMessages kind descriptions overflow positions 0 0
          messages) = blockCount messages + 1 :=
        blockCount_overflow (hoverflow hne) messages 0 0 (Nat.zero_le descriptions.length) hslots
          (by rwa [Nat.zero_add])
      rw [hblocks, blockCount_replaceInMessages messages 0 0 (Nat.zero_le _) (Nat.le_refl _)]
        at hmore
      omega
  subst hnone
  refine ⟨rfl, List.ext_getElem? fun k => ?_⟩
  rw [replaceImageBlocks_eq, replaceImageBlocks_eq] at h
  rcases Nat.lt_or_ge k descriptions.length with hk | hk
  · obtain ⟨s, hs⟩ : ∃ s, (slots kind body)[k]? = some s :=
      ⟨_, List.getElem?_eq_getElem (Nat.lt_of_lt_of_le hk hcount)⟩
    have hblock := substitute_inj h s (List.mem_of_getElem? hs)
    rw [slotCaption_of_getElem? hs, slotCaption_of_getElem? hs, caption_of_lt hk,
      caption_of_lt (hlength ▸ hk), Option.getD_some, Option.getD_some] at hblock
    exact wrapWithPosition_inj hk hlength (textBlock_inj hblock)
  · rw [List.getElem?_eq_none hk, List.getElem?_eq_none (hlength ▸ hk)]

end

/-! ## The two paths -/

section

variable (sha256 : List UInt8 → JsString) (decodeBase64 : JsString → Option (List UInt8))
  (handoff : HandoffConfig)

/-- What the cache has for an image in a context. -/
def heldFor (now : Int) (decoded : List UInt8) (contextHash : Option JsString)
    (c : Descriptions) : Option JsString :=
  c.held now (descriptionCacheKey sha256 handoff.call decoded none)
    ((truthy? contextHash).map fun hash =>
      descriptionCacheKey sha256 handoff.call decoded (some hash))

/-- Each image, in its turn, has in its context the description that it has
without one. -/
def AgreeInTurn (now : Int) (context : ImagePart → VisionContext) :
    Descriptions → Descriptions → List ImagePart → Prop
  | _, _, [] => True
  | c, c', part :: rest =>
    ∀ decoded, decodeBase64 part.data = some decoded →
      let hash := contextHash sha256 handoff.call (context part)
      heldFor sha256 handoff now decoded hash c' = heldFor sha256 handoff now decoded none c ∧
        AgreeInTurn now context (lookupDescription sha256 handoff now decoded none c).1
          (lookupDescription sha256 handoff now decoded hash c').1 rest

variable {sha256 decodeBase64 handoff} {now : Int} {decoded : List UInt8}
  {hash : Option JsString} {c c' : Descriptions} {kept : List ImagePart} {part : ImagePart}
  {context : ImagePart → VisionContext} {missed : List Missed} {descriptions : List JsString}

theorem lookupDescription_snd : (lookupDescription sha256 handoff now decoded hash c).2 =
    truthy? (heldFor sha256 handoff now decoded hash c) := by
  unfold lookupDescription heldFor
  rw [← DescriptionCache.getOrCompute_snd]

/-- Without a context hash an image is looked up under its image-only key. -/
theorem lookupDescription_of_no_hash (h : truthy? hash = none) :
    lookupDescription sha256 handoff now decoded hash c =
      lookupDescription sha256 handoff now decoded none c := by
  unfold lookupDescription
  rw [h]
  rfl

theorem heldFor_of_no_hash (h : truthy? hash = none) :
    heldFor sha256 handoff now decoded hash c = heldFor sha256 handoff now decoded none c := by
  unfold heldFor
  rw [h]
  rfl

/-- Images without a context are looked up alike. -/
theorem agreeInTurn_of_no_context (kept : List ImagePart) : ∀ c : Descriptions,
    (∀ part ∈ kept, truthy? (contextHash sha256 handoff.call (context part)) = none) →
      AgreeInTurn sha256 decodeBase64 handoff now context c c kept := by
  induction kept with
  | nil =>
    intro c _
    trivial
  | cons part rest ih =>
    intro c h decoded _
    have hpart := h part List.mem_cons_self
    refine ⟨heldFor_of_no_hash hpart, ?_⟩
    rw [lookupDescription_of_no_hash hpart]
    exact ih _ fun part' h' => h part' (List.mem_cons_of_mem part h')

/-- The text that replaces an image. -/
def replacement (result : Option ImageProcessResult) : JsString :=
  (result.getD failedImage).description

theorem length_processInTurn (context : ImagePart → VisionContext) (kept : List ImagePart) :
    ∀ missed s, (processInTurn sha256 decodeBase64 handoff context missed s kept).length =
      kept.length := by
  induction kept with
  | nil =>
    intro missed s
    rfl
  | cons part rest ih =>
    intro missed s
    rw [processInTurn, List.length_cons, ih, List.length_cons]

theorem processImages_eq {results : List (Option ImageProcessResult)}
    (h : results.length = kept.length) :
    (processImages (fun i _ => results[i]?.join) kept).map ImageProcessResult.description =
      results.map replacement := by
  refine List.ext_getElem? fun k => ?_
  rw [processImages, List.getElem?_map, List.getElem?_mapIdx, List.getElem?_map]
  rcases Nat.lt_or_ge k kept.length with hk | hk
  · have hk' : k < results.length := h ▸ hk
    rw [List.getElem?_eq_getElem hk, List.getElem?_eq_getElem hk']
    rfl
  · rw [List.getElem?_eq_none hk, List.getElem?_eq_none (h ▸ hk)]
    rfl

theorem wrapDescription_inj {a b : JsString} (h : wrapDescription a = wrapDescription b) :
    a = b :=
  List.append_cancel_left h

theorem failedImage_ne_wrapDescription (desc : JsString) :
    failedImage.description ≠ wrapDescription desc := by
  intro h
  have hstart := congrArg (List.take 8) h
  rw [wrapDescription, List.take_append_of_le_length (by decide)] at hstart
  exact absurd hstart (by decide)

theorem cachedInTurn_cons {part : ImagePart}
    (h : (cachedInTurn sha256 decodeBase64 handoff now c (part :: kept)).2 = some descriptions) :
    part.encoding ≠ .url ∧ ∃ decoded cached rest, decodeBase64 part.data = some decoded ∧
      (lookupDescription sha256 handoff now decoded none c).2 = some cached ∧
      (cachedInTurn sha256 decodeBase64 handoff now
        (lookupDescription sha256 handoff now decoded none c).1 kept).2 = some rest ∧
      descriptions = wrapDescription cached :: rest := by
  rw [cachedInTurn] at h
  split at h
  · cases h
  · rename_i hurl
    refine ⟨hurl, ?_⟩
    split at h
    · cases h
    · rename_i decoded hdecoded
      split at h
      · cases h
      · rename_i c₁ cached hlookup
        obtain ⟨rest, hrest, rfl⟩ := Option.map_eq_some_iff.mp h
        exact ⟨decoded, cached, rest, hdecoded, by rw [hlookup], by rw [hlookup]; exact hrest, rfl⟩

/-- An image that the cache has is replaced by the wrapped description. -/
theorem processInTurn_hit {c₁ : Descriptions} {cached : JsString} (hurl : part.encoding ≠ .url)
    (hdecoded : decodeBase64 part.data = some decoded)
    (h : lookupDescription sha256 handoff now decoded
      (contextHash sha256 handoff.call (context part)) c = (c₁, some cached)) :
    (processInTurn sha256 decodeBase64 handoff context missed (now, c) (part :: kept)).map
        replacement =
      wrapDescription cached ::
        (processInTurn sha256 decodeBase64 handoff context missed.tail (now, c₁) kept).map
          replacement := by
  simp only [processInTurn, processImage, if_neg hurl, hdecoded, h]
  rfl

/-- An image that the cache does not have fails where its call throws. -/
theorem processInTurn_threw {c₁ : Descriptions} (hurl : part.encoding ≠ .url)
    (hdecoded : decodeBase64 part.data = some decoded)
    (h : lookupDescription sha256 handoff now decoded
      (contextHash sha256 handoff.call (context part)) c = (c₁, none)) :
    ((processInTurn sha256 decodeBase64 handoff context [] (now, c) (part :: kept)).map
        replacement).head? = some failedImage.description := by
  simp only [processInTurn, processImage, if_neg hurl, hdecoded, h]
  rfl

theorem replacements_of_agreeInTurn (kept : List ImagePart) : ∀ c c' missed descriptions,
    (cachedInTurn sha256 decodeBase64 handoff now c kept).2 = some descriptions →
      AgreeInTurn sha256 decodeBase64 handoff now context c c' kept →
      (processInTurn sha256 decodeBase64 handoff context missed (now, c') kept).map replacement =
        descriptions := by
  induction kept with
  | nil =>
    intro c c' missed descriptions h _
    cases h
    rfl
  | cons part rest ih =>
    intro c c' missed descriptions h hagree
    obtain ⟨hurl, decoded, cached, texts, hdecoded, hcached, hrest, rfl⟩ := cachedInTurn_cons h
    obtain ⟨hheld, hagree⟩ := hagree decoded hdecoded
    have hsnd : (lookupDescription sha256 handoff now decoded
        (contextHash sha256 handoff.call (context part)) c').2 = some cached := by
      rw [lookupDescription_snd, hheld, ← lookupDescription_snd, hcached]
    rcases hlookup : lookupDescription sha256 handoff now decoded
      (contextHash sha256 handoff.call (context part)) c' with ⟨c₁, cached'⟩
    rw [hlookup] at hsnd hagree
    cases hsnd
    rw [processInTurn_hit hurl hdecoded hlookup, ih _ _ _ _ hrest hagree]

/-- Where every miss ends in an exception, the full path finds what the fast
path found only by finding it in the cache. -/
theorem agreeInTurn_of_replacements (kept : List ImagePart) : ∀ c c' descriptions,
    (cachedInTurn sha256 decodeBase64 handoff now c kept).2 = some descriptions →
      (processInTurn sha256 decodeBase64 handoff context [] (now, c') kept).map replacement =
        descriptions →
      AgreeInTurn sha256 decodeBase64 handoff now context c c' kept := by
  induction kept with
  | nil =>
    intro c c' descriptions _ _
    trivial
  | cons part rest ih =>
    intro c c' descriptions h hreplaced
    obtain ⟨hurl, decoded, cached, texts, hdecoded, hcached, hrest, rfl⟩ := cachedInTurn_cons h
    intro decoded' hdecoded'
    cases hdecoded.symm.trans hdecoded'
    rcases hlookup : lookupDescription sha256 handoff now decoded
      (contextHash sha256 handoff.call (context part)) c' with ⟨c₁, _ | cached'⟩
    · have hhead : ((processInTurn sha256 decodeBase64 handoff context [] (now, c')
          (part :: rest)).map replacement).head? = some failedImage.description :=
        processInTurn_threw hurl hdecoded hlookup
      rw [hreplaced] at hhead
      exact absurd (Option.some.inj hhead).symm (failedImage_ne_wrapDescription cached)
    · rw [processInTurn_hit hurl hdecoded hlookup] at hreplaced
      obtain ⟨hhead, htail⟩ := List.cons.inj hreplaced
      cases wrapDescription_inj hhead
      have hheld := congrArg Prod.snd hlookup
      rw [lookupDescription_snd] at hheld hcached
      refine ⟨?_, ?_⟩
      · exact (eq_some_of_truthy? hheld).trans (eq_some_of_truthy? hcached).symm
      · rw [hlookup]
        exact ih _ _ _ hrest htail

/-! ## The tiers -/

theorem tiersAsked_eq_iff : tiersAsked sha256 handoff now decoded hash c = [.imageOnly] ↔
    truthy? hash = none := by
  unfold tiersAsked
  cases truthy? hash with
  | none => simp
  | some context =>
    simp only [reduceCtorEq, iff_false]
    split
    · simp
    · simp

/-- Where the fast path has every image, it asks for each the image-only tier. -/
theorem cachedTiersInTurn_of_hits (kept : List ImagePart) : ∀ c descriptions,
    (cachedInTurn sha256 decodeBase64 handoff now c kept).2 = some descriptions →
      cachedTiersInTurn sha256 decodeBase64 handoff now c kept =
        kept.map fun _ => [CacheTier.imageOnly] := by
  induction kept with
  | nil =>
    intro c descriptions _
    rfl
  | cons part rest ih =>
    intro c descriptions h
    obtain ⟨hurl, decoded, cached, texts, hdecoded, hcached, hrest, -⟩ := cachedInTurn_cons h
    rcases hlookup : lookupDescription sha256 handoff now decoded none c with ⟨c₁, cached'⟩
    rw [hlookup] at hcached hrest
    cases hcached
    rw [cachedTiersInTurn, if_neg hurl, List.map_cons, ← ih c₁ texts hrest]
    simp only [hdecoded, hlookup]
    rw [tiersAsked_eq_iff.mpr rfl]

/-- The full path asks the image-only tier alone exactly for the images
without a context hash. -/
theorem tiersInTurn_eq_iff (kept : List ImagePart) : ∀ c descriptions missed s,
    (cachedInTurn sha256 decodeBase64 handoff now c kept).2 = some descriptions →
      (tiersInTurn sha256 decodeBase64 handoff context missed s kept =
          kept.map (fun _ => [CacheTier.imageOnly]) ↔
        ∀ part ∈ kept, truthy? (contextHash sha256 handoff.call (context part)) = none) := by
  induction kept with
  | nil =>
    intro c descriptions missed s _
    simp [tiersInTurn]
  | cons part rest ih =>
    intro c descriptions missed s h
    obtain ⟨hurl, decoded, cached, texts, hdecoded, -, hrest, -⟩ := cachedInTurn_cons h
    have hpart : tiersOfImage sha256 decodeBase64 handoff (context part) s part = [.imageOnly] ↔
        truthy? (contextHash sha256 handoff.call (context part)) = none := by
      simp only [tiersOfImage, if_neg hurl, hdecoded]
      exact tiersAsked_eq_iff
    rw [tiersInTurn, List.map_cons, List.cons.injEq, List.forall_mem_cons, hpart,
      ih _ texts missed.tail _ hrest]

/-! ## Agreement -/

variable {decomposition : Option (List JsString)} {clock : Int × Descriptions} {body : Json}
  {kind : ApiKind} {modelName : Option JsString}

/-- The placeholders of the images beyond the limit. -/
def overflowOf (handoff : HandoffConfig) (body : Json) (kind : ApiKind)
    (modelName : Option JsString) : List JsString :=
  (applyMaxImagesPolicy (handoffParts handoff.config handoff.catalog body kind modelName)
    handoff.config.maxImages).2

/-- The cache-only path rewrites the body itself. -/
def FastPath (sha256 : List UInt8 → JsString) (decodeBase64 : JsString → Option (List UInt8))
    (handoff : HandoffConfig) (clock : Int × Descriptions) (body : Json) (kind : ApiKind)
    (modelName : Option JsString) : Prop :=
  handoffParts handoff.config handoff.catalog body kind modelName ≠ [] ∧
    (cachedInTurn sha256 decodeBase64 handoff clock.1 clock.2
      (keptParts handoff body kind modelName)).2 ≠ none

theorem processBodyCached_body
    (hparts : handoffParts handoff.config handoff.catalog body kind modelName ≠ []) :
    (processBodyCached sha256 decodeBase64 handoff decomposition missed clock body kind
        modelName).body =
      replaceImageBlocks (cloneBody body) kind
        ((processInTurn sha256 decodeBase64 handoff
          (visionContext handoff body (keptParts handoff body kind modelName) decomposition) missed
          clock (keptParts handoff body kind modelName)).map replacement)
        (overflowOf handoff body kind modelName)
        (some ((keptParts handoff body kind modelName).map position)) := by
  unfold processBodyCached processBody
  simp only [if_neg hparts]
  rw [← processImages_eq (length_processInTurn _ (keptParts handoff body kind modelName) missed
    clock)]
  rfl

theorem processBodyCacheOnlyCached_body
    (hparts : handoffParts handoff.config handoff.catalog body kind modelName ≠ [])
    (hfast : (cachedInTurn sha256 decodeBase64 handoff clock.1 clock.2
      (keptParts handoff body kind modelName)).2 = some descriptions) :
    (processBodyCacheOnlyCached sha256 decodeBase64 handoff decomposition missed clock body kind
        modelName).body =
      replaceImageBlocks (cloneBody body) kind descriptions []
        (some ((keptParts handoff body kind modelName).map position)) := by
  unfold processBodyCacheOnlyCached
  simp only [if_neg hparts]
  split
  · rename_i hnone
    rw [hnone] at hfast
    cases hfast
  · rename_i hsome
    rw [hsome] at hfast
    cases hfast
    rfl

theorem length_cachedInTurn (kept : List ImagePart) : ∀ c descriptions,
    (cachedInTurn sha256 decodeBase64 handoff now c kept).2 = some descriptions →
      descriptions.length = kept.length := by
  induction kept with
  | nil =>
    intro c descriptions h
    cases h
    rfl
  | cons part rest ih =>
    intro c descriptions h
    obtain ⟨-, decoded, cached, texts, -, -, hrest, rfl⟩ := cachedInTurn_cons h
    rw [List.length_cons, List.length_cons, ih _ _ hrest]

theorem joinLines_overflowOf (h : overflowOf handoff body kind modelName ≠ []) :
    joinLines (overflowOf handoff body kind modelName) ≠ [] := by
  unfold overflowOf applyMaxImagesPolicy at h ⊢
  simp only [] at h ⊢
  generalize (handoffParts handoff.config handoff.catalog body kind modelName).drop _ = beyond at h ⊢
  cases beyond with
  | nil => exact absurd rfl h
  | cons part rest =>
    rw [List.mapIdx_cons]
    have hhead : ∀ ts : List JsString, joinLines (overflowPlaceholder 0 :: ts) ≠ [] := by
      intro ts hnil
      cases ts with
      | nil => exact absurd hnil (by decide)
      | cons t ts =>
        simp only [joinLines, List.intercalate, List.intersperse_cons_cons, List.flatten_cons,
          List.append_eq_nil_iff] at hnil
        exact absurd hnil.1 (by decide)
    exact hhead _

/-- Two rewritings of a body by its kept images agree in the descriptions
and have no overflow. -/
theorem sameBody_iff
    (hparts : handoffParts handoff.config handoff.catalog body kind modelName ≠ [])
    {texts : List JsString} (htexts : texts.length = (keptParts handoff body kind modelName).length)
    (hdescriptions : descriptions.length = (keptParts handoff body kind modelName).length)
    {positions : Option (List Position)} :
    replaceImageBlocks (cloneBody body) kind texts (overflowOf handoff body kind modelName)
        positions =
      replaceImageBlocks (cloneBody body) kind descriptions [] positions ↔
    overflowOf handoff body kind modelName = [] ∧ texts = descriptions := by
  constructor
  · have hfound := handoffParts_eq hparts
    have hcount : (keptParts handoff body kind modelName).length ≤
        (slots kind (cloneBody body)).length := by
      rw [slots_cloneBody, List.length_map, keptParts, hfound, length_kept]
      exact Nat.le_trans (sliceIndex_le _ _) (List.length_filter_le _ _)
    have hslots : slots kind (cloneBody body) ≠ [] := by
      rw [slots_cloneBody]
      intro hnil
      rw [hfound] at hparts
      refine hparts ((findImageParts_eq_nil kind body).mpr ?_)
      rw [partSlots, List.map_eq_nil_iff.mp hnil]
      rfl
    exact replaceImageBlocks_inj hslots (htexts ▸ hcount) (htexts.trans hdescriptions.symm)
      joinLines_overflowOf
  · rintro ⟨hover, rfl⟩
    rw [hover]

/-- The two paths rewrite the body alike, whatever the vision calls would come
to, exactly when no image is beyond the limit and every kept image has in its
context the description that it has without one. -/
theorem bodies_agree_iff (hfast : FastPath sha256 decodeBase64 handoff clock body kind modelName) :
    (∀ missed, (processBodyCached sha256 decodeBase64 handoff decomposition missed clock body kind
        modelName).body =
      (processBodyCacheOnlyCached sha256 decodeBase64 handoff decomposition missed clock body kind
        modelName).body) ↔
    overflowOf handoff body kind modelName = [] ∧
      AgreeInTurn sha256 decodeBase64 handoff clock.1
        (visionContext handoff body (keptParts handoff body kind modelName) decomposition)
        clock.2 clock.2 (keptParts handoff body kind modelName) := by
  obtain ⟨hparts, hcached⟩ := hfast
  obtain ⟨descriptions, hcached⟩ := Option.ne_none_iff_exists'.mp hcached
  have hdescriptions := length_cachedInTurn _ _ _ hcached
  have hbodies : ∀ missed, (processBodyCached sha256 decodeBase64 handoff decomposition missed clock
      body kind modelName).body = (processBodyCacheOnlyCached sha256 decodeBase64 handoff
        decomposition missed clock body kind modelName).body ↔
      overflowOf handoff body kind modelName = [] ∧
        (processInTurn sha256 decodeBase64 handoff
          (visionContext handoff body (keptParts handoff body kind modelName) decomposition) missed
          clock (keptParts handoff body kind modelName)).map replacement = descriptions := by
    intro missed
    rw [processBodyCached_body hparts, processBodyCacheOnlyCached_body hparts hcached]
    exact sameBody_iff hparts (by rw [List.length_map, length_processInTurn]) hdescriptions
  constructor
  · intro h
    obtain ⟨hover, htexts⟩ := (hbodies []).mp (h [])
    exact ⟨hover, agreeInTurn_of_replacements _ _ _ _ hcached htexts⟩
  · rintro ⟨hover, hagree⟩ missed
    exact (hbodies missed).mpr ⟨hover, replacements_of_agreeInTurn _ _ _ _ _ hcached hagree⟩

/-- **The fast path agrees with the full path**: whatever the vision calls
would come to, both give the same body and ask the same tiers of the cache for
each image, exactly when no image is beyond the limit and no kept image has a
context hash. -/
theorem paths_agree_iff (sha256 : List UInt8 → JsString)
    (decodeBase64 : JsString → Option (List UInt8)) (handoff : HandoffConfig)
    (decomposition : Option (List JsString)) (clock : Int × Descriptions) (body : Json)
    (kind : ApiKind) (modelName : Option JsString)
    (hfast : FastPath sha256 decodeBase64 handoff clock body kind modelName) :
    let kept := keptParts handoff body kind modelName
    let context := visionContext handoff body kept decomposition
    (∀ missed,
      (processBodyCached sha256 decodeBase64 handoff decomposition missed clock body kind
          modelName).body =
        (processBodyCacheOnlyCached sha256 decodeBase64 handoff decomposition missed clock body
          kind modelName).body ∧
      tiersInTurn sha256 decodeBase64 handoff context missed clock kept =
        cachedTiersInTurn sha256 decodeBase64 handoff clock.1 clock.2 kept) ↔
    overflowOf handoff body kind modelName = [] ∧
      ∀ part ∈ kept, truthy? (contextHash sha256 handoff.call (context part)) = none := by
  intro kept context
  obtain ⟨descriptions, hcached⟩ := Option.ne_none_iff_exists'.mp hfast.2
  have htiers : ∀ missed, tiersInTurn sha256 decodeBase64 handoff context missed clock kept =
      cachedTiersInTurn sha256 decodeBase64 handoff clock.1 clock.2 kept ↔
        ∀ part ∈ kept, truthy? (contextHash sha256 handoff.call (context part)) = none := by
    intro missed
    rw [cachedTiersInTurn_of_hits kept _ _ hcached]
    exact tiersInTurn_eq_iff kept _ _ missed clock hcached
  constructor
  · intro h
    exact ⟨((bodies_agree_iff hfast).mp fun missed => (h missed).1).1, (htiers []).mp (h []).2⟩
  · rintro ⟨hover, hnone⟩ missed
    exact ⟨(bodies_agree_iff hfast).mpr ⟨hover, agreeInTurn_of_no_context kept clock.2 hnone⟩ missed,
      (htiers missed).mpr hnone⟩

end

/-! ## One image, and one too many -/

/-- `AQ==` and `Ag==`. -/
def decodeTwo (data : JsString) : Option (List UInt8) :=
  some (if data = js "AQ==" then [1] else [2])

def pngBlock (data : String) : Json :=
  .obj [(js "type", .str (js "image_url")),
    (js "image_url", .obj [(js "url", .str (js ("data:image/png;base64," ++ data)))])]

/-- A handoff that keeps one image. -/
def oneImageHandoff : HandoffConfig := ⟨oneKept, autoConfig, none, 1000, 6⟩

/-- The cache that has the first image. -/
def catCache : Descriptions :=
  (DescriptionCache.new 100 1000 none).cacheSet 0
    (descriptionCacheKey hexDigest autoConfig [1] none) (js "a cat")

theorem heldFor_catCache :
    heldFor hexDigest oneImageHandoff 0 [1] none catCache = some (js "a cat") := by
  simp [heldFor, DescriptionCache.held, catCache, DescriptionCache.cacheSet, DescriptionCache.new,
    oneImageHandoff, Lru.set, Lru.erase, Lru.get, Lru.find?, Lru.stale]

/-- The fast path takes the one kept image from the cache. -/
theorem fastPath_catCache {body : Json} {part : ImagePart}
    (hkept : keptParts oneImageHandoff body .openai none = [part])
    (hurl : part.encoding ≠ .url) (hdecoded : decodeTwo part.data = some [1])
    (hparts : handoffParts oneKept none body .openai none ≠ []) :
    FastPath hexDigest decodeTwo oneImageHandoff (0, catCache) body .openai none := by
  refine ⟨hparts, ?_⟩
  have hcached : (lookupDescription hexDigest oneImageHandoff 0 [1] none catCache).2 =
      some (js "a cat") := by
    rw [lookupDescription_snd, heldFor_catCache]
    exact truthy?_some (by decide)
  rcases hlookup : lookupDescription hexDigest oneImageHandoff 0 [1] none catCache with ⟨c, cached⟩
  rw [hlookup] at hcached
  cases hcached
  rw [hkept]
  simp [cachedInTurn, hurl, hdecoded, hlookup]

/-- The one image is found by both paths under the same key. -/
theorem single_image_paths_agree :
    FastPath hexDigest decodeTwo oneImageHandoff (0, catCache) (oneMessage [pngBlock "AQ=="])
      .openai none ∧
    ∀ missed,
      (processBodyCached hexDigest decodeTwo oneImageHandoff none missed (0, catCache)
          (oneMessage [pngBlock "AQ=="]) .openai none).body =
        (processBodyCacheOnlyCached hexDigest decodeTwo oneImageHandoff none missed (0, catCache)
          (oneMessage [pngBlock "AQ=="]) .openai none).body ∧
      tiersInTurn hexDigest decodeTwo oneImageHandoff
          (visionContext oneImageHandoff (oneMessage [pngBlock "AQ=="])
            (keptParts oneImageHandoff (oneMessage [pngBlock "AQ=="]) .openai none) none)
          missed (0, catCache)
          (keptParts oneImageHandoff (oneMessage [pngBlock "AQ=="]) .openai none) =
        cachedTiersInTurn hexDigest decodeTwo oneImageHandoff 0 catCache
          (keptParts oneImageHandoff (oneMessage [pngBlock "AQ=="]) .openai none) := by
  obtain ⟨part, hkept, hurl, hdecoded, hcontext⟩ : ∃ part,
      keptParts oneImageHandoff (oneMessage [pngBlock "AQ=="]) .openai none = [part] ∧
        part.encoding ≠ .url ∧ decodeTwo part.data = some [1] ∧
        contextText autoConfig (visionContext oneImageHandoff (oneMessage [pngBlock "AQ=="]) [part]
          none part) = none :=
    ⟨⟨some (js "image/png"), .base64, js "AQ==", none, false, 1, 1, none⟩, by decide +kernel⟩
  have hfast : FastPath hexDigest decodeTwo oneImageHandoff (0, catCache)
      (oneMessage [pngBlock "AQ=="]) .openai none :=
    fastPath_catCache hkept hurl hdecoded (by decide +kernel)
  refine ⟨hfast, (paths_agree_iff hexDigest decodeTwo oneImageHandoff none (0, catCache)
    (oneMessage [pngBlock "AQ=="]) .openai none hfast).mpr ⟨by decide +kernel, ?_⟩⟩
  rw [hkept]
  refine List.forall_mem_singleton.mpr ?_
  rw [contextHash, show oneImageHandoff.call = autoConfig from rfl, hcontext]
  rfl

/-- The fast path drops the placeholder of the second image. -/
theorem overflow_placeholder_dropped :
    FastPath hexDigest decodeTwo oneImageHandoff (0, catCache)
        (oneMessage [pngBlock "AQ==", pngBlock "Ag=="]) .openai none ∧
      ∀ missed, (processBodyCached hexDigest decodeTwo oneImageHandoff none missed (0, catCache)
          (oneMessage [pngBlock "AQ==", pngBlock "Ag=="]) .openai none).body ≠
        (processBodyCacheOnlyCached hexDigest decodeTwo oneImageHandoff none missed (0, catCache)
          (oneMessage [pngBlock "AQ==", pngBlock "Ag=="]) .openai none).body := by
  have hparts : handoffParts oneImageHandoff.config oneImageHandoff.catalog
      (oneMessage [pngBlock "AQ==", pngBlock "Ag=="]) .openai none ≠ [] := by
    decide +kernel
  have hkept : keptParts oneImageHandoff (oneMessage [pngBlock "AQ==", pngBlock "Ag=="]) .openai
      none = [⟨some (js "image/png"), .base64, js "AQ==", none, false, 1, 2, none⟩] := by
    decide +kernel
  have hfast := fastPath_catCache hkept (by decide) (by decide) hparts
  refine ⟨hfast, fun missed h => ?_⟩
  obtain ⟨descriptions, hcached⟩ := Option.ne_none_iff_exists'.mp hfast.2
  rw [processBodyCached_body hparts, processBodyCacheOnlyCached_body hparts hcached,
    sameBody_iff hparts (by rw [List.length_map, length_processInTurn])
      (length_cachedInTurn _ _ _ hcached)] at h
  exact absurd h.1 (by decide +kernel)

end UmansGate.Vision
