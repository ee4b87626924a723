/-
UmansGate.Models.CatalogTheorems — what the model catalog keeps when a
fetch fails.

The info of the models is taken from the refresh that lists them and from
no other: a listing without an info answer empties the catalog, and an
info answer without a listing is dropped. `held_step_iff` says for each
pair of answers whether the catalog still has what the last info answer
said, and `catalog_held_iff` carries it over runs of refreshes.
-/
import UmansGate.Lib.Transition
import UmansGate.Models.Client

namespace UmansGate.Models

open UmansGate.Lib UmansGate.Stamp UmansGate.Vision

/-! ## The new entries -/

def hasNull (data : List Json) : Bool := data.any isNull

/-- The ids that a list has. -/
def listedIds (data : List Json) : List JsString := data.filterMap idOf

/-- One round of the loop. -/
def addEntry (infoMap : Option (Dict JsString ParsedModelInfo)) (next : Dict JsString ModelEntry)
    (raw : Json) : Option (Dict JsString ModelEntry) :=
  if isNull raw then none
  else
    match idOf raw with
    | some id => some (next.set id (entryOf infoMap id raw))
    | none => some next

theorem nextEntries_eq (infoMap : Option (Dict JsString ParsedModelInfo)) (data : List Json) :
    nextEntries infoMap data = data.foldlM (addEntry infoMap) [] := rfl

variable {infoMap : Option (Dict JsString ParsedModelInfo)} {data : List Json}

theorem foldlM_addEntry_of_hasNull (h : hasNull data = true) (next : Dict JsString ModelEntry) :
    data.foldlM (addEntry infoMap) next = none := by
  induction data generalizing next with
  | nil => exact absurd h (by simp [hasNull])
  | cons raw data ih =>
    rw [List.foldlM_cons, addEntry]
    by_cases hraw : isNull raw = true
    · rw [if_pos hraw]
      rfl
    · have hdata : hasNull data = true := by simpa [hasNull, hraw] using h
      rw [if_neg hraw]
      cases idOf raw with
      | none => exact ih hdata next
      | some id => exact ih hdata _

/-- A list without `null` gives every id it has the info of the catalog. -/
theorem foldlM_addEntry (h : hasNull data = false) (next : Dict JsString ModelEntry) :
    ∃ next', data.foldlM (addEntry infoMap) next = some next' ∧
      ∀ id, (next'.get? id).map ModelEntry.info =
        if id ∈ listedIds data then some (infoMap.bind fun m => m.get? id)
        else (next.get? id).map ModelEntry.info := by
  induction data generalizing next with
  | nil => exact ⟨next, rfl, fun id => by simp [listedIds]⟩
  | cons raw data ih =>
    have hraw : isNull raw = false := by
      rw [hasNull, List.any_cons, Bool.or_eq_false_iff] at h
      exact h.1
    have hdata : hasNull data = false := by
      rw [hasNull, List.any_cons, Bool.or_eq_false_iff] at h
      exact h.2
    rw [List.foldlM_cons, addEntry, hraw, if_neg Bool.false_ne_true]
    cases hid : idOf raw with
    | none =>
      have hlisted : listedIds (raw :: data) = listedIds data := by simp [listedIds, hid]
      rw [hlisted]
      exact ih hdata next
    | some id₀ =>
      obtain ⟨next', heq, hinfo⟩ := ih hdata (next.set id₀ (entryOf infoMap id₀ raw))
      refine ⟨next', heq, fun id => ?_⟩
      have hlisted : listedIds (raw :: data) = id₀ :: listedIds data := by simp [listedIds, hid]
      rw [hinfo, hlisted, Dict.get?_set]
      by_cases hmem : id ∈ listedIds data
      · rw [if_pos hmem, if_pos (List.mem_cons_of_mem id₀ hmem)]
      · rw [if_neg hmem]
        by_cases hsame : id₀ = id
        · subst hsame
          rw [if_pos rfl, if_pos List.mem_cons_self]
          rfl
        · rw [if_neg hsame, if_neg]
          rw [List.mem_cons, not_or]
          exact ⟨Ne.symm hsame, hmem⟩

/-! ## What is served -/

/-- A model that the client lists. -/
def ModelsClient.Lists (client : ModelsClient) (id : JsString) : Prop :=
  client.entries.get? id ≠ none

/-- What the vision lookup says where the catalog has this info. -/
def visionOf (info : Option ParsedModelInfo) : Option VisionTristate :=
  info.map fun info => info.capabilities.supports_vision

/-- The client and what the last info answer said. -/
structure Watched where
  client : ModelsClient
  lastInfo : Dict JsString ParsedModelInfo

structure Refresh where
  models : Answer
  info : Answer
  now : Int

def Watched.new : Watched := ⟨.new, []⟩

def Watched.step (w : Watched) (r : Refresh) : Watched where
  client := (w.client.doFetch r.models r.info r.now).1
  lastInfo := (fetchModelsInfo r.info).getD w.lastInfo

/-- Of every listed model the lookups give what the last info answer said,
and so do the stamp policy and the vision handoff's decision. -/
structure Held (w : Watched) : Prop where
  parsed : ∀ id, w.client.Lists id → w.client.getParsedCatalog.get? id = w.lastInfo.get? id
  vision : ∀ id, w.client.Lists id → w.client.getVisionSupport id = visionOf (w.lastInfo.get? id)
  policy : ∀ id, w.client.Lists id →
    resolveStampPolicy (some id) (stampCatalog w.client.getParsedCatalog) =
      resolveStampPolicy (some id) (stampCatalog w.lastInfo)
  intercepts : ∀ id, w.client.Lists id → ∀ strategy apiKind forceInterceptCapable,
    shouldRewrite strategy (w.client.getVisionSupport id) apiKind forceInterceptCapable =
      shouldRewrite strategy (visionOf (w.lastInfo.get? id)) apiKind forceInterceptCapable

/-- The policy and the decision follow from the lookups. -/
theorem held_iff (w : Watched) :
    Held w ↔ ∀ id, w.client.Lists id →
      w.client.getParsedCatalog.get? id = w.lastInfo.get? id ∧
        w.client.getVisionSupport id = visionOf (w.lastInfo.get? id) := by
  constructor
  · exact fun h id hid => ⟨h.parsed id hid, h.vision id hid⟩
  · intro h
    refine ⟨fun id hid => (h id hid).1, fun id hid => (h id hid).2, fun id hid => ?_,
      fun id hid strategy apiKind force => by rw [(h id hid).2]⟩
    simp only [resolveStampPolicy, stampCatalog, Dict.get?_mapVals, (h id hid).1]

/-! ## One refresh -/

/-- The answers of a refresh after which the catalog has what the last info
answer said. A `null` in the list throws once the catalog is replaced. -/
def KeepsCatalog (w : Watched) (r : Refresh) : Prop :=
  match dataOf r.models, fetchModelsInfo r.info with
  | none, none => True
  | none, some info => ∀ id, w.client.Lists id → info.get? id = w.lastInfo.get? id
  | some data, some info =>
    hasNull data = true →
      ∀ id, w.client.Lists id → visionOf (w.lastInfo.get? id) = visionOf (info.get? id)
  | some data, none =>
    ∀ id, (if hasNull data then w.client.Lists id else id ∈ listedIds data) →
      w.lastInfo.get? id = none

variable {w : Watched} {r : Refresh}

theorem doFetch_of_dataOf_none (h : dataOf r.models = none) :
    (w.client.doFetch r.models r.info r.now).1 = { w.client with ok := false } := by
  rw [ModelsClient.doFetch, h]

theorem doFetch_of_hasNull (h : dataOf r.models = some data) (hnull : hasNull data = true) :
    (w.client.doFetch r.models r.info r.now).1 =
      { w.client with parsedCatalog := (fetchModelsInfo r.info).getD [], ok := false } := by
  simp only [ModelsClient.doFetch, h, nextEntries_eq, foldlM_addEntry_of_hasNull hnull]

/-- A list without `null`: the catalog and the entries are those of the
refresh. -/
theorem doFetch_of_data (h : dataOf r.models = some data) (hnull : hasNull data = false) :
    (w.client.doFetch r.models r.info r.now).1.parsedCatalog = (fetchModelsInfo r.info).getD [] ∧
      ∀ id, ((w.client.doFetch r.models r.info r.now).1.entries.get? id).map ModelEntry.info =
        if id ∈ listedIds data then some ((fetchModelsInfo r.info).bind fun m => m.get? id)
        else none := by
  obtain ⟨next, heq, hentries⟩ := @foldlM_addEntry (fetchModelsInfo r.info) data hnull []
  have hfetch : (w.client.doFetch r.models r.info r.now).1 =
      ⟨next, (fetchModelsInfo r.info).getD [], r.now, true⟩ := by
    simp only [ModelsClient.doFetch, h, nextEntries_eq, heq]
  rw [hfetch]
  exact ⟨rfl, hentries⟩

theorem getVisionSupport_eq (client : ModelsClient) (id : JsString) :
    client.getVisionSupport id =
      ((client.entries.get? id).map ModelEntry.info).elim none visionOf := by
  unfold ModelsClient.getVisionSupport
  cases client.entries.get? id <;> rfl

theorem lists_iff (client : ModelsClient) (id : JsString) :
    client.Lists id ↔ (client.entries.get? id).map ModelEntry.info ≠ none := by
  simp [ModelsClient.Lists]

/-- No list: the entries and the catalog stay, whatever the info answer. -/
theorem held_step_of_no_data (h : Held w) (hdata : dataOf r.models = none) :
    Held (w.step r) ↔
      ∀ id, w.client.Lists id → (w.step r).lastInfo.get? id = w.lastInfo.get? id := by
  rw [held_iff] at h ⊢
  have hclient : (w.step r).client = { w.client with ok := false } := doFetch_of_dataOf_none hdata
  rw [hclient]
  constructor
  · intro hstep id hid
    rw [← (h id hid).1]
    exact (hstep id hid).1.symm
  · intro hsame id hid
    rw [hsame id hid]
    exact h id hid

/-- A list that throws: the catalog is the refresh's and the entries stay. -/
theorem held_step_of_hasNull (h : Held w) (hdata : dataOf r.models = some data)
    (hnull : hasNull data = true) :
    Held (w.step r) ↔ ∀ id, w.client.Lists id →
      ((fetchModelsInfo r.info).getD []).get? id = (w.step r).lastInfo.get? id ∧
        visionOf (w.lastInfo.get? id) = visionOf ((w.step r).lastInfo.get? id) := by
  rw [held_iff] at h ⊢
  have hclient : (w.step r).client =
      { w.client with parsedCatalog := (fetchModelsInfo r.info).getD [], ok := false } :=
    doFetch_of_hasNull hdata hnull
  rw [hclient]
  constructor
  · intro hstep id hid
    rw [← (h id hid).2]
    exact hstep id hid
  · intro hsame id hid
    obtain ⟨hparsed, hvision⟩ := hsame id hid
    rw [← (h id hid).2] at hvision
    exact ⟨hparsed, hvision⟩

/-- A list that is read: the catalog and the entries are the refresh's. -/
theorem held_step_of_data (hdata : dataOf r.models = some data) (hnull : hasNull data = false) :
    Held (w.step r) ↔ ∀ id ∈ listedIds data,
      ((fetchModelsInfo r.info).bind fun m => m.get? id) = (w.step r).lastInfo.get? id := by
  rw [held_iff]
  obtain ⟨hcatalog, hentries⟩ := @doFetch_of_data data w r hdata hnull
  have hlists : ∀ id, (w.step r).client.Lists id ↔ id ∈ listedIds data := by
    intro id
    rw [lists_iff, Watched.step, hentries]
    split <;> simp_all
  have hparsed : ∀ id, (w.step r).client.getParsedCatalog.get? id =
      (fetchModelsInfo r.info).bind fun m => m.get? id := by
    intro id
    rw [ModelsClient.getParsedCatalog, Watched.step, hcatalog]
    cases fetchModelsInfo r.info <;> rfl
  have hvision : ∀ id ∈ listedIds data, (w.step r).client.getVisionSupport id =
      visionOf ((fetchModelsInfo r.info).bind fun m => m.get? id) := by
    intro id hid
    rw [getVisionSupport_eq, Watched.step, hentries, if_pos hid]
    rfl
  constructor
  · intro hstep id hid
    rw [← hparsed]
    exact (hstep id ((hlists id).mpr hid)).1
  · intro hsame id hid
    have hmem := (hlists id).mp hid
    rw [hparsed, hvision id hmem, hsame id hmem]
    exact ⟨rfl, rfl⟩

theorem held_step_iff (h : Held w) (r : Refresh) : Held (w.step r) ↔ KeepsCatalog w r := by
  unfold KeepsCatalog
  cases hdata : dataOf r.models with
  | none =>
    rw [held_step_of_no_data h hdata, Watched.step]
    cases fetchModelsInfo r.info with
    | none => simp
    | some info => rfl
  | some data =>
    by_cases hnull : hasNull data = true
    · rw [held_step_of_hasNull h hdata hnull, Watched.step]
      cases fetchModelsInfo r.info with
      | none => simp [hnull, eq_comm]
      | some info => simp [hnull]
    · have hread : hasNull data = false := by simpa using hnull
      rw [held_step_of_data hdata hread, Watched.step]
      cases fetchModelsInfo r.info with
      | none => simp [hnull, eq_comm]
      | some info => simp [hnull]

/-! ## Runs of refreshes -/

theorem held_new : Held .new := by
  rw [held_iff]
  intro id hid
  exact absurd rfl hid

/-- **The catalog has what the last info answer said all along exactly when
every refresh keeps it.** -/
theorem catalog_held_iff (refreshes : List Refresh) :
    (∀ pre, pre <+: refreshes → Held (run Watched.step .new pre)) ↔
      StepsMeet Watched.step KeepsCatalog .new refreshes :=
  throughout_iff_stepsMeet (fun _ r _ h => held_step_iff h r) held_new

/-! ## A failed info fetch -/

def glm : JsString := js "umans-glm-5.2"

/-- One listed model. -/
def glmListing : Answer :=
  .answered true (some (.obj [(js "data", .arr [.obj [(js "id", .str glm)]])]))

/-- It has no vision and always thinks. -/
def glmInfo : Answer :=
  .answered true (some (.obj [(glm, .obj [(js "capabilities", .obj
    [(js "supports_vision", .bool false),
      (js "reasoning", .obj [(js "can_disable", .bool false)])])])]))

/-- The policy a client's catalog gives the model allows to disable its
thinking. -/
def glmCanDisable (client : ModelsClient) : Bool :=
  (resolveStampPolicy (some glm) (stampCatalog client.getParsedCatalog)).canDisableThinking

/-- The second refresh lists the model again, its info fetch times out: the
model's images are no longer intercepted, its thinking may be disabled, and
the client reports that it is well. -/
theorem catalog_lost :
    (let first := run Watched.step .new [⟨glmListing, glmInfo, 1⟩]
     first.client.getVisionSupport glm = some .unsupported ∧
      glmCanDisable first.client = false ∧
      shouldRewrite .catalog (first.client.getVisionSupport glm) .openai false = true) ∧
    (let second := run Watched.step .new [⟨glmListing, glmInfo, 1⟩, ⟨glmListing, .failed, 2⟩]
     second.client.getVisionSupport glm = none ∧
      glmCanDisable second.client = true ∧
      shouldRewrite .catalog (second.client.getVisionSupport glm) .openai false = false ∧
      second.client.ok = true) ∧
    ¬ ∀ refreshes, Held (run Watched.step .new refreshes) := by
  refine ⟨by decide +kernel, by decide +kernel, fun hheld => ?_⟩
  have hsecond := hheld [⟨glmListing, glmInfo, 1⟩, ⟨glmListing, .failed, 2⟩]
  have hlisted : ((run Watched.step .new [⟨glmListing, glmInfo, 1⟩,
      ⟨glmListing, .failed, 2⟩]).client.entries.get? glm).isSome = true := by
    decide +kernel
  have hvision := hsecond.vision glm (Option.isSome_iff_ne_none.mp hlisted)
  revert hvision
  decide +kernel

end UmansGate.Models
