/-
UmansGate.Store.WorkerTheorems — batches through the worker, over every
interleaving of the main thread, the worker and the clock.

`Moved` says once what a step can do. Each batch has one outcome, whatever
the worker does (`batches_settle_once`): the acknowledgement, an error
event, `close` and the timer race for it. A batch that resolved was
written, or met a connection without its statement, which takes an
`ensureConnection` that threw behind `new Database` (`resolved_written`). A
rejected batch may be written nevertheless, and the queue posts its updates
again: no later step counts a capture of a written batch a second time
(`written_counted_once`).
-/
import UmansGate.Store.AttributionTheorems
import UmansGate.Store.WorkerStore

namespace UmansGate.Store.WorkerStore

open UmansGate.Lib

/-! ## What a step can do -/

/-- The milliseconds that pass in a list of steps. -/
def elapsed : List WorkerOp → ℕ
  | [] => 0
  | .tick ms :: ops => ms + elapsed ops
  | _ :: ops => elapsed ops

/-- The batches that a list of steps posts, numbered from `n` on. -/
def postedFrom : ℕ → List WorkerOp → Dict ℕ BatchItems
  | _, [] => []
  | n, .batchUpdate items :: ops => (n, items) :: postedFrom (n + 1) ops
  | n, _ :: ops => postedFrom n ops

/-- The step neither posts a batch nor lets time pass. -/
def quiet : WorkerOp → Bool
  | .batchUpdate _ | .tick _ => false
  | _ => true

/-- The effect of a step of the main thread, of the worker or of the clock. -/
inductive Moved (s : WorkerStore) : WorkerOp → WorkerStore → Prop
  | idle {op : WorkerOp} (h : quiet op) : Moved s op s
  | posted (items : BatchItems) : Moved s (.batchUpdate items) (s.batchUpdate items)
  | closing (due : Int) : Moved s .close
      { s with inbox := s.inbox ++ [WorkerMessage.close], closing := s.closing ++ [due] }
  | closed {op : WorkerOp} (h : quiet op) (inbox : List WorkerMessage)
      (hinbox : inbox = s.inbox ∨ inbox = s.inbox ++ [WorkerMessage.close]) (closing : List Int)
      (error : String) : Moved s op
      { s with
        inbox := inbox, closing := closing, terminated := true
        batches := s.batches.settleAll (.rejected error) }
  | timedOut (id : ℕ) (error : String) : Moved s (.ackTimeout id)
      { s with batches := s.batches.settle id (.rejected error) }
  | acked (id : ℕ) (rest : List WorkerEvent) (h : s.outbox = .ack id :: rest) :
      Moved s .onmessage { s with outbox := rest, batches := s.batches.settle id .resolved }
  | failed (id : ℕ) (rest : List WorkerEvent) (event : WorkerEvent) (error : String)
      (h : s.outbox = event :: rest) :
      Moved s .onmessage
        { s with outbox := rest, batches := s.batches.settle id (.rejected error) }
  | crashed (rest : List WorkerEvent) (event : WorkerEvent) (error : String)
      (h : s.outbox = event :: rest) :
      Moved s .onmessage
        { s with outbox := rest, batches := s.batches.settleAll (.rejected error) }
  | opened (clock : Clock) : Moved s (.ensureConnection (.ready clock))
      { s with db := s.db.backfillFromCaptures clock, connection := .ready }
  | notOpened (opening : Opening) (message : String) (db : CaptureDb)
      (hdb : db = s.db ∨ ∃ clock, db = s.db.backfillFromCaptures clock) (connection : Connection)
      (hconnection : connection = .unprepared → ∃ b m l, opening = .notPrepared b m l)
      (alive : Bool) : Moved s (.ensureConnection opening)
      { s with
        inbox := s.inbox.tail, outbox := s.outbox ++ [.crashed message]
        db := db, connection := connection, alive := alive }
  | skips (id : ℕ) (items : BatchItems) (rest : List WorkerMessage)
      (h : s.inbox = .batch id items :: rest) (hconnection : s.connection = .unprepared)
      (throws : Option (Option String)) (clock : Clock) (now : EpochMs) :
      Moved s (.handleBatch throws clock now)
        { s with
          inbox := rest, outbox := s.outbox ++ [.ack id], skipped := s.skipped ++ [id] }
  | throws (id : ℕ) (error : Option String) (clock : Clock) (now : EpochMs) :
      Moved s (.handleBatch (some error) clock now)
        { s with inbox := s.inbox.tail, outbox := s.outbox ++ [.error id error] }
  | writes (id : ℕ) (items : BatchItems) (rest : List WorkerMessage)
      (h : s.inbox = .batch id items :: rest) (clock : Clock) (now : EpochMs) :
      Moved s (.handleBatch none clock now)
        { s with
          inbox := rest, outbox := s.outbox ++ [.ack id]
          db := s.db.executeBatch items clock now, written := s.written ++ [(id, items)] }
  | disconnects : Moved s .handleClose { s with inbox := s.inbox.tail, connection := .closed }
  | mainThread (op : Op) : Moved s (.mainThread op) { s with db := s.db.step op }
  | ticks (ms : ℕ) : Moved s (.tick ms) { s with now := s.now + ms }

variable {s s' : WorkerStore} {op : WorkerOp}

theorem nextMessage_eq_some {m : WorkerMessage} (h : s.nextMessage = some m) :
    ∃ rest, s.inbox = m :: rest := by
  unfold nextMessage at h
  split at h
  · exact List.head?_eq_some_iff.mp h
  · simp at h

theorem step_moved (s : WorkerStore) (op : WorkerOp) : Moved s op (s.step op) := by
  cases op with
  | batchUpdate items => exact .posted items
  | close =>
    simp only [step, close]
    split
    · exact .closed rfl _ (.inr rfl) _ _
    · exact .closing _
  | closePoll n =>
    simp only [step, closePoll]
    split
    · exact .idle rfl
    · split
      · exact .idle rfl
      · exact .closed rfl _ (.inl rfl) _ _
  | ackTimeout batchId =>
    simp only [step, ackTimeout]
    split
    · exact .idle rfl
    · split
      · exact .timedOut _ _
      · exact .idle rfl
  | onmessage =>
    simp only [step, onmessage]
    split
    · exact .idle rfl
    · rename_i event rest hout
      cases event with
      | ack batchId => exact .acked _ _ hout
      | error batchId error => exact .failed _ _ _ _ hout
      | crashed message => exact .crashed _ _ _ hout
  | ensureConnection opening =>
    simp only [step, ensureConnection]
    split
    · split
      · cases opening with
        | ready clock => exact .opened clock
        | noDatabase message survives =>
          rename_i hclosed
          exact .notOpened _ _ _ (.inl rfl) _ (by simp [hclosed, reply]) _
        | notPrepared backfilled message survives =>
          refine .notOpened _ _ _ ?_ _ (fun _ => ⟨_, _, _, rfl⟩) _
          cases backfilled with
          | none => exact .inl rfl
          | some clock => exact .inr ⟨clock, rfl⟩
      · exact .idle rfl
    · exact .idle rfl
  | handleBatch throws clock now =>
    simp only [step, handleBatch]
    split
    · rename_i id items hnext
      obtain ⟨rest, hinbox⟩ := nextMessage_eq_some hnext
      have htail : s.inbox.tail = rest := by rw [hinbox, List.tail_cons]
      split
      · exact .idle rfl
      · rename_i hconnection
        rw [reply, htail]
        exact .skips id items rest hinbox hconnection _ _ _
      · cases throws with
        | some error => exact .throws id error clock now
        | none =>
          rw [reply, htail]
          exact .writes id items rest hinbox clock now
    · exact .idle rfl
  | handleClose =>
    simp only [step, handleClose]
    split
    · exact .disconnects
    · exact .idle rfl
  | mainThread op => exact .mainThread op
  | tick ms => exact .ticks ms

/-! ## Promises -/

theorem Moved.batches (h : Moved s op s') : Promises.Step s.batches s'.batches := by
  cases h with
  | posted items => exact .post _
  | closed h inbox hinbox closing error => exact .settleAll _
  | timedOut id error => exact .settle _ _
  | acked id rest h => exact .settle _ _
  | failed id rest event error h => exact .settle _ _
  | crashed rest event error h => exact .settleAll _
  | _ => exact .keep

theorem valid_run (h : s.batches.Valid 1) (ops : List WorkerOp) :
    (run step s ops).batches.Valid 1 :=
  run_invariant (I := fun s : WorkerStore => s.batches.Valid 1)
    (fun s op h => h.step (s.step_moved op).batches) h ops

theorem settled_run (s : WorkerStore) (ops : List WorkerOp) :
    s.batches.settled <+: (run step s ops).batches.settled := by
  induction ops generalizing s with
  | nil => exact List.prefix_refl _
  | cons op ops ih => exact (s.step_moved op).batches.settled.trans (ih (s.step op))

/-- A batch that waits waits on with its timer, or is settled. -/
theorem pending_run (h : s.batches.Valid 1) {id : ℕ} {p : PendingBatch}
    (hp : s.batches.pending.get? id = some p) (ops : List WorkerOp) :
    (run step s ops).batches.pending.get? id = some p ∨
      id ∈ (run step s ops).batches.settled.keys := by
  induction ops generalizing s with
  | nil => exact .inl hp
  | cons op ops ih =>
    have hmoved := (s.step_moved op).batches
    rcases hmoved.pending h hp with hp | hset
    · exact ih (h.step hmoved) hp
    · exact .inr (((settled_run (s.step op) ops).map Prod.fst).subset hset)

/-! ## Timers -/

theorem elapsed_cons (op : WorkerOp) (ops : List WorkerOp) :
    elapsed (op :: ops) = elapsed [op] + elapsed ops := by
  cases op <;> simp [elapsed]

theorem elapsed_quiet (h : quiet op) : elapsed [op] = 0 := by
  cases op <;> simp_all [quiet, elapsed]

theorem Moved.now (h : Moved s op s') : s'.now = s.now + elapsed [op] := by
  cases h with
  | idle hq => simp [elapsed_quiet hq]
  | closed hq inbox hinbox closing error => simp [elapsed_quiet hq]
  | ticks ms => simp [elapsed]
  | _ => simp [elapsed, batchUpdate]

theorem now_run (s : WorkerStore) (ops : List WorkerOp) :
    (run step s ops).now = s.now + elapsed ops := by
  induction ops generalizing s with
  | nil => simp [elapsed]
  | cons op ops ih =>
    rw [run_cons, ih, (s.step_moved op).now, elapsed_cons op ops]
    push_cast
    omega

/-- No timer is armed for longer than the timeout. -/
def TimersDue (s : WorkerStore) : Prop :=
  ∀ e ∈ s.batches.pending, e.2.due ≤ s.now + ACK_TIMEOUT_MS

theorem Moved.timersDue (hm : Moved s op s') (h : TimersDue s) : TimersDue s' := by
  intro e he
  have hnow := hm.now
  have hold : e ∈ s.batches.pending → e.2.due ≤ s'.now + ACK_TIMEOUT_MS := by
    intro hmem
    have hdue := h e hmem
    omega
  have hsettle : ∀ {id : ℕ} {r : BatchOutcome}, e ∈ (s.batches.settle id r).pending →
      e ∈ s.batches.pending := by
    intro id r hmem
    unfold Promises.settle at hmem
    split at hmem
    · exact hmem
    · exact (List.mem_filter.mp hmem).1
  cases hm with
  | posted items =>
    rcases Dict.mem_set he with heq | hmem
    · rw [heq]
      exact le_rfl
    · exact hold hmem
  | closed h inbox hinbox closing error => simp [Promises.settleAll] at he
  | crashed rest event error h => simp [Promises.settleAll] at he
  | timedOut id error => exact hold (hsettle he)
  | acked id rest h => exact hold (hsettle he)
  | failed id rest event error h => exact hold (hsettle he)
  | _ => exact hold he

theorem timersDue_run (h : TimersDue s) (ops : List WorkerOp) : TimersDue (run step s ops) :=
  run_invariant (fun s op h => (s.step_moved op).timersDue h) h ops

/-- Every batch posted to the worker waits or has one outcome, and keeps
it. Whatever happens in the ten seconds after any moment, a batch that
waited then is settled once its timer has fired. -/
theorem batches_settle_once (db : CaptureDb) (ops : List WorkerOp) :
    let s := after db ops
    (s.batches.settled.keys ++ s.batches.pending.keys).Perm
        (List.range' 1 (s.batches.next - 1)) ∧
      ∀ ops', s.batches.settled <+: (run step s ops').batches.settled ∧
        (ACK_TIMEOUT_MS ≤ elapsed ops' → ∀ id ∈ s.batches.pending.keys,
          id ∈ (run step s (ops' ++ [.ackTimeout id])).batches.settled.keys) := by
  intro s
  have hvalid : s.batches.Valid 1 := valid_run (Promises.valid_new 1) ops
  have hdue : TimersDue s := timersDue_run (fun e he => absurd he (by simp [new, Promises.new])) ops
  refine ⟨hvalid.perm, fun ops' => ⟨settled_run s ops', fun htime id hid => ?_⟩⟩
  obtain ⟨p, hp⟩ := Option.ne_none_iff_exists'.mp (Dict.get?_ne_none_of_mem hid)
  rw [run_append, run_cons, run_nil]
  rcases pending_run hvalid hp ops' with hwait | hset
  · have hdue : p.due ≤ s.now + ACK_TIMEOUT_MS := hdue _ (Dict.mem_of_get? hp)
    have hfires : p.due ≤ (run step s ops').now := by
      rw [now_run]
      omega
    simp only [step, ackTimeout, hwait, if_pos hfires]
    exact Promises.mem_settled_of_settle hwait _
  · exact ((settled_run _ [.ackTimeout id]).map Prod.fst).subset hset

/-! ## Delivery -/

/-- The batches that the worker has not handled, in order. -/
def waiting (s : WorkerStore) : Dict ℕ BatchItems :=
  s.inbox.filterMap fun
    | .batch id items => some (id, items)
    | .close => none

/-- Batches are written in the order in which they were posted, each at most
once, and an acknowledgement is for a batch that was written or skipped. -/
structure Delivered (s : WorkerStore) : Prop where
  ascending : (s.written.keys ++ s.waiting.keys).Pairwise (· < ·)
  lt_next : ∀ id ∈ s.written.keys ++ s.waiting.keys, id < s.batches.next
  skipped_lt : ∀ id ∈ s.skipped, ∀ id' ∈ s.waiting.keys, id < id'
  skipped_lt_next : ∀ id ∈ s.skipped, id < s.batches.next
  skipped : ∀ id ∈ s.skipped, id ∉ s.written.keys
  acked : ∀ id, .ack id ∈ s.outbox → id ∈ s.written.keys ∨ id ∈ s.skipped
  resolved : ∀ id, (id, .resolved) ∈ s.batches.settled → id ∈ s.written.keys ∨ id ∈ s.skipped

theorem waiting_cons {id : ℕ} {items : BatchItems} {rest : List WorkerMessage}
    (h : s.inbox = .batch id items :: rest) :
    s.waiting = (id, items) :: ({ s with inbox := rest } : WorkerStore).waiting := by
  simp [waiting, h]

theorem waiting_rest {id : ℕ} {items : BatchItems} {rest : List WorkerMessage}
    (h : s.inbox = .batch id items :: rest) :
    ({ s with inbox := rest } : WorkerStore).waiting.Sublist s.waiting := by
  rw [waiting_cons h]
  exact List.sublist_cons_self _ _

theorem waiting_tail (s : WorkerStore) :
    ({ s with inbox := s.inbox.tail } : WorkerStore).waiting.Sublist s.waiting :=
  (List.tail_sublist s.inbox).filterMap _

theorem waiting_close (s : WorkerStore) :
    ({ s with inbox := s.inbox ++ [WorkerMessage.close] } : WorkerStore).waiting = s.waiting := by
  simp [waiting]

/-- What the main thread does with its own fields, and messages without a
batch, change nothing here. -/
theorem Delivered.congr (h : Delivered s) {s' : WorkerStore} (hwritten : s'.written = s.written)
    (hskipped : s'.skipped = s.skipped) (hwaiting : s'.waiting.Sublist s.waiting)
    (hnext : s.batches.next ≤ s'.batches.next) (hout : ∀ id, .ack id ∈ s'.outbox → .ack id ∈ s.outbox)
    (hsettled : ∀ id, (id, .resolved) ∈ s'.batches.settled →
      (id, .resolved) ∈ s.batches.settled ∨ .ack id ∈ s.outbox) : Delivered s' := by
  have hkeys : s'.waiting.keys.Sublist s.waiting.keys := hwaiting.map Prod.fst
  constructor
  · rw [hwritten]
    exact h.ascending.sublist (hkeys.append_left _)
  · intro id hid
    rw [hwritten] at hid
    exact (h.lt_next id ((hkeys.append_left _).subset hid)).trans_le hnext
  · intro id hid id' hid'
    rw [hskipped] at hid
    exact h.skipped_lt id hid id' (hkeys.subset hid')
  · intro id hid
    rw [hskipped] at hid
    exact (h.skipped_lt_next id hid).trans_le hnext
  · rw [hskipped, hwritten]
    exact h.skipped
  · intro id hid
    rw [hwritten, hskipped]
    exact h.acked id (hout id hid)
  · intro id hid
    rw [hwritten, hskipped]
    exact (hsettled id hid).elim (h.resolved id) (h.acked id)

theorem of_settle_rejected {t : Promises PendingBatch BatchOutcome} {id id' : ℕ}
    {error : String} (h : (id', .resolved) ∈ (t.settle id (.rejected error)).settled) :
    (id', .resolved) ∈ t.settled := by
  rcases Promises.mem_settle h with hmem | heq
  · exact hmem
  · simp at heq

theorem of_settleAll_rejected {t : Promises PendingBatch BatchOutcome} {id' : ℕ}
    {error : String} (h : (id', .resolved) ∈ (t.settleAll (.rejected error)).settled) :
    (id', .resolved) ∈ t.settled := by
  rcases Promises.mem_settleAll h with hmem | heq
  · exact hmem
  · simp at heq

/-- The next message of the worker leaves the inbox and is answered. -/
theorem Delivered.handled (h : Delivered s) {id : ℕ} {items : BatchItems}
    {rest : List WorkerMessage} (hinbox : s.inbox = .batch id items :: rest) :
    (∀ id' ∈ s.written.keys, id' < id) ∧ (∀ id' ∈ s.skipped, id' < id) ∧
      ∀ id' ∈ ({ s with inbox := rest } : WorkerStore).waiting.keys, id < id' := by
  have hasc := h.ascending
  have hskip := h.skipped_lt
  rw [waiting_cons hinbox] at hasc hskip
  obtain ⟨-, hcons, hlt⟩ := List.pairwise_append.mp hasc
  refine ⟨fun id' hid' => hlt id' hid' id List.mem_cons_self, fun id' hid' => ?_, ?_⟩
  · exact hskip id' hid' id List.mem_cons_self
  · exact (List.pairwise_cons.mp hcons).1

theorem Delivered.next_of_inbox (h : Delivered s) {id : ℕ} {items : BatchItems}
    {rest : List WorkerMessage} (hinbox : s.inbox = .batch id items :: rest) :
    id < s.batches.next := by
  refine h.lt_next id (List.mem_append_right _ ?_)
  rw [waiting_cons hinbox]
  exact List.mem_cons_self

theorem Moved.delivered (hm : Moved s op s') (h : Delivered s) : Delivered s' := by
  have hnext := hm.batches.next_le
  cases hm with
  | posted items =>
    have hwaiting : (s.batchUpdate items).waiting.keys = s.waiting.keys ++ [s.batches.next] := by
      simp [waiting, batchUpdate, Dict.keys]
    constructor
    · rw [hwaiting, ← List.append_assoc]
      refine List.pairwise_append.mpr ⟨h.ascending, List.pairwise_singleton _ _, ?_⟩
      intro id hid id' hid'
      rw [List.mem_singleton.mp hid']
      exact h.lt_next id hid
    · intro id hid
      rw [hwaiting, ← List.append_assoc, List.mem_append, List.mem_singleton] at hid
      rcases hid with hid | rfl
      · exact (h.lt_next id hid).trans_le hnext
      · exact Nat.lt_succ_self _
    · intro id hid id' hid'
      rw [hwaiting, List.mem_append, List.mem_singleton] at hid'
      rcases hid' with hid' | rfl
      · exact h.skipped_lt id hid id' hid'
      · exact h.skipped_lt_next id hid
    · exact fun id hid => (h.skipped_lt_next id hid).trans_le hnext
    · exact h.skipped
    · exact h.acked
    · exact h.resolved
  | skips id items rest hinbox hconnection throws clock now =>
    obtain ⟨hwritten, -, hwaiting⟩ := h.handled hinbox
    have hrest := (waiting_rest hinbox).map Prod.fst
    constructor
    · exact h.ascending.sublist (hrest.append_left _)
    · exact fun id' hid' => h.lt_next id' ((hrest.append_left _).subset hid')
    · intro id' hid' id'' hid''
      rcases List.mem_append.mp hid' with hid' | hid'
      · exact h.skipped_lt id' hid' id'' (hrest.subset hid'')
      · rw [List.mem_singleton.mp hid']
        exact hwaiting id'' hid''
    · intro id' hid'
      rcases List.mem_append.mp hid' with hid' | hid'
      · exact h.skipped_lt_next id' hid'
      · rw [List.mem_singleton.mp hid']
        exact h.next_of_inbox hinbox
    · intro id' hid' hmem
      rcases List.mem_append.mp hid' with hid' | hid'
      · exact h.skipped id' hid' hmem
      · rw [List.mem_singleton.mp hid'] at hmem
        exact Nat.lt_irrefl id (hwritten id hmem)
    · intro id' hid'
      rcases List.mem_append.mp hid' with hid' | hid'
      · exact (h.acked id' hid').imp_right (List.mem_append_left _)
      · obtain rfl : id' = id := by simpa using hid'
        exact .inr (by simp)
    · exact fun id' hid' => (h.resolved id' hid').imp_right (List.mem_append_left _)
  | writes id items rest hinbox clock now =>
    obtain ⟨hwritten, hskipped, hwaiting⟩ := h.handled hinbox
    have hkeys : Dict.keys (s.written ++ [(id, items)]) = s.written.keys ++ [id] := by
      simp [Dict.keys]
    have hall : (s.written.keys ++ [id]) ++ ({ s with inbox := rest } : WorkerStore).waiting.keys =
        s.written.keys ++ s.waiting.keys := by
      rw [waiting_cons hinbox, Dict.keys_cons, List.append_assoc]
      rfl
    constructor
    · dsimp only
      rw [hkeys]
      exact hall ▸ h.ascending
    · intro id' hid'
      dsimp only at hid'
      rw [hkeys] at hid'
      exact h.lt_next id' (hall ▸ hid')
    · exact fun id' hid' id'' hid'' =>
        h.skipped_lt id' hid' id'' (((waiting_rest hinbox).map Prod.fst).subset hid'')
    · exact h.skipped_lt_next
    · intro id' hid' hmem
      dsimp only at hmem
      rw [hkeys] at hmem
      rcases List.mem_append.mp hmem with hmem | hmem
      · exact h.skipped id' hid' hmem
      · rw [List.mem_singleton.mp hmem] at hid'
        exact Nat.lt_irrefl id (hskipped id hid')
    · intro id' hid'
      dsimp only
      rw [hkeys]
      rcases List.mem_append.mp hid' with hid' | hid'
      · exact (h.acked id' hid').imp_left (List.mem_append_left _)
      · obtain rfl : id' = id := by simpa using hid'
        exact .inl (by simp)
    · intro id' hid'
      dsimp only
      rw [hkeys]
      exact (h.resolved id' hid').imp_left (List.mem_append_left _)
  | idle hz => exact h
  | closing due =>
    exact h.congr rfl rfl (waiting_close s ▸ List.Sublist.refl _) hnext (fun _ h => h) fun _ => .inl
  | closed hz inbox hinbox closing error =>
    refine h.congr rfl rfl ?_ hnext (fun _ h => h) fun id hid => .inl (of_settleAll_rejected hid)
    rcases hinbox with rfl | rfl
    · exact List.Sublist.refl _
    · exact waiting_close s ▸ List.Sublist.refl _
  | timedOut id error =>
    exact h.congr rfl rfl (List.Sublist.refl _) hnext (fun _ h => h) fun _ hid =>
      .inl (of_settle_rejected hid)
  | acked id rest hout =>
    refine h.congr rfl rfl (List.Sublist.refl _) hnext (fun _ h => ?_) fun id' hid' => ?_
    · rw [hout]
      exact List.mem_cons_of_mem _ h
    · rcases Promises.mem_settle hid' with hmem | heq
      · exact .inl hmem
      · refine .inr ?_
        rw [hout, (Prod.mk.inj heq).1]
        exact List.mem_cons_self
  | failed id rest event error hout =>
    refine h.congr rfl rfl (List.Sublist.refl _) hnext (fun _ h => ?_) fun _ hid =>
      .inl (of_settle_rejected hid)
    rw [hout]
    exact List.mem_cons_of_mem _ h
  | crashed rest event error hout =>
    refine h.congr rfl rfl (List.Sublist.refl _) hnext (fun _ h => ?_) fun _ hid =>
      .inl (of_settleAll_rejected hid)
    rw [hout]
    exact List.mem_cons_of_mem _ h
  | opened clock => exact h.congr rfl rfl (List.Sublist.refl _) hnext (fun _ h => h) fun _ => .inl
  | notOpened opening message db hdb connection hconnection alive =>
    exact h.congr rfl rfl (waiting_tail s) hnext (fun id hid => by simpa using hid) fun _ => .inl
  | throws id error clock now =>
    exact h.congr rfl rfl (waiting_tail s) hnext (fun id hid => by simpa using hid) fun _ => .inl
  | disconnects => exact h.congr rfl rfl (waiting_tail s) hnext (fun _ h => h) fun _ => .inl
  | mainThread op => exact h.congr rfl rfl (List.Sublist.refl _) hnext (fun _ h => h) fun _ => .inl
  | ticks ms => exact h.congr rfl rfl (List.Sublist.refl _) hnext (fun _ h => h) fun _ => .inl

theorem delivered_run (h : Delivered s) (ops : List WorkerOp) : Delivered (run step s ops) :=
  run_invariant (fun s op h => (s.step_moved op).delivered h) h ops

theorem delivered_new (db : CaptureDb) : Delivered (new db) := by
  constructor <;> simp [new, waiting, Promises.new, Dict.keys]

/-- What the worker writes, and what it has still to handle, are batches
that were posted, in that order. -/
theorem Moved.posted_sublist (hm : Moved s op s') :
    (s'.written ++ s'.waiting).Sublist
      (s.written ++ s.waiting ++ postedFrom s.batches.next [op]) := by
  have hkeep : ∀ {l : Dict ℕ BatchItems}, l.Sublist s.waiting →
      (s.written ++ l).Sublist (s.written ++ s.waiting ++ postedFrom s.batches.next [op]) :=
    fun hl => (hl.append_left _).trans (List.sublist_append_left _ _)
  cases hm with
  | posted items =>
    have hwaiting : (s.batchUpdate items).waiting = s.waiting ++ [(s.batches.next, items)] := by
      simp [waiting, batchUpdate]
    rw [hwaiting, ← List.append_assoc]
    exact List.Sublist.refl _
  | closing due => exact hkeep (waiting_close s ▸ List.Sublist.refl _)
  | closed hz inbox hinbox closing error =>
    rcases hinbox with rfl | rfl
    · exact hkeep (List.Sublist.refl _)
    · exact hkeep (waiting_close s ▸ List.Sublist.refl _)
  | notOpened opening message db hdb connection hconnection alive => exact hkeep (waiting_tail s)
  | skips id items rest hinbox hconnection throws clock now => exact hkeep (waiting_rest hinbox)
  | throws id error clock now => exact hkeep (waiting_tail s)
  | writes id items rest hinbox clock now =>
    refine List.Sublist.trans ?_ (List.sublist_append_left _ _)
    rw [waiting_cons hinbox, List.append_assoc]
    exact List.Sublist.refl _
  | disconnects => exact hkeep (waiting_tail s)
  | _ => exact hkeep (List.Sublist.refl _)

theorem Moved.postedFrom_cons (hm : Moved s op s') (ops : List WorkerOp) :
    postedFrom s.batches.next (op :: ops) =
      postedFrom s.batches.next [op] ++ postedFrom s'.batches.next ops := by
  cases hm with
  | posted items => rfl
  | idle hq => cases op <;> simp_all [quiet, postedFrom]
  | closed hq inbox hinbox closing error =>
    cases op <;> simp_all [quiet, postedFrom, Promises.settleAll]
  | _ => simp [postedFrom, Promises.settleAll]

theorem posted_run (s : WorkerStore) (ops : List WorkerOp) :
    ((run step s ops).written ++ (run step s ops).waiting).Sublist
      (s.written ++ s.waiting ++ postedFrom s.batches.next ops) := by
  induction ops generalizing s with
  | nil => simp [postedFrom]
  | cons op ops ih =>
    have hm := s.step_moved op
    rw [hm.postedFrom_cons, ← List.append_assoc]
    exact (ih (s.step op)).trans (hm.posted_sublist.append_right _)

/-! ## Connections -/

/-- `ensureConnection` does not throw behind `new Database`. -/
def prepares : WorkerOp → Bool
  | .ensureConnection (.notPrepared ..) => false
  | _ => true

theorem Moved.prepared (hm : Moved s op s') (hop : prepares op)
    (h : s.connection ≠ .unprepared ∧ s.skipped = []) :
    s'.connection ≠ .unprepared ∧ s'.skipped = [] := by
  cases hm with
  | opened clock => exact ⟨by simp, h.2⟩
  | notOpened opening message db hdb connection hconnection alive =>
    refine ⟨fun hunprepared => ?_, h.2⟩
    obtain ⟨b, m, l, rfl⟩ := hconnection hunprepared
    simp [prepares] at hop
  | skips id items rest hinbox hconnection throws clock now => exact absurd hconnection h.1
  | disconnects => exact ⟨by simp, h.2⟩
  | _ => exact h

/-- The batches written are batches that were posted, with their items and
in that order. A batch whose promise resolved was written, or it was
acknowledged without being written; none is so unless `ensureConnection`
throws behind `new Database`. -/
theorem resolved_written (db : CaptureDb) (ops : List WorkerOp) :
    let s := after db ops
    s.written.Sublist (postedFrom 1 ops) ∧
      (∀ id, s.batches.settled.get? id = some .resolved →
        id ∈ s.written.keys ∨ id ∈ s.skipped ∧ id ∉ s.written.keys) ∧
      ((∀ op ∈ ops, prepares op) → s.skipped = []) := by
  intro s
  have h : Delivered s := delivered_run (delivered_new db) ops
  refine ⟨?_, fun id hid => ?_, fun hops => ?_⟩
  · have hposted := posted_run (new db) ops
    simp only [new, waiting, Promises.new, List.filterMap_nil, List.append_nil,
      List.nil_append] at hposted
    exact (List.sublist_append_left _ _).trans hposted
  · refine (h.resolved id (Dict.mem_of_get? hid)).imp_right fun hskip => ?_
    exact ⟨hskip, h.skipped id hskip⟩
  · refine (run_invariant_of_stepsMeet (P := fun _ op => prepares op = true)
      (I := fun s : WorkerStore => s.connection ≠ .unprepared ∧ s.skipped = [])
      (fun s op h hop => (s.step_moved op).prepared hop h) ?_ (StepsMeet.of_forall hops)).2
    simp [new]

/-! ## The database -/

/-- What a step does to the captures and to the totals. -/
def Effect (e e' : Economics) : Prop :=
  ∃ mid mid' clock ids new, Edits e mid ∧ Accounts clock ids new mid mid' ∧ Drops mid' e'

theorem Effect.refl (e : Economics) : Effect e e :=
  ⟨e, e, fun _ => ⟨0, epoch_inRange⟩, [], [], Edits.refl e, Accounts.refl _ e, Drops.refl e⟩

theorem effect_backfill (db : CaptureDb) (clock : Clock) :
    Effect db.toEconomics (db.backfillFromCaptures clock).toEconomics := by
  obtain ⟨new, h⟩ := accounts_backfillFromCaptures clock db.toEconomics
  exact ⟨_, _, clock, _, new, Edits.refl _, h, Drops.refl _⟩

/-- The statements of a batch edit rows. -/
theorem edits_updateRowWorker (items : BatchItems) (now : EpochMs) (db : CaptureDb) :
    Edits db.toEconomics (items.foldl (fun (db : CaptureDb) it =>
      db.updateRowWorker it.1 it.2 (flattenUsage now it.2.usage)) db).toEconomics := by
  induction items generalizing db with
  | nil => exact Edits.refl _
  | cons it items ih =>
    have hrow : Edits db.toEconomics
        (db.updateRowWorker it.1 it.2 (flattenUsage now it.2.usage)).toEconomics :=
      Edits.update _ _ fun _ => rfl
    exact hrow.trans (ih _)

/-- A batch edits its rows, then accounts their captures. -/
theorem effect_executeBatch (db : CaptureDb) (items : BatchItems) (clock : Clock) (now : EpochMs) :
    ∃ mid new, Edits db.toEconomics mid ∧
      Accounts clock (items.map Prod.fst) new mid (db.executeBatch items clock now).toEconomics := by
  obtain ⟨new, h⟩ := accounts_accountCapturesUsage clock (items.foldl (fun (db : CaptureDb) it =>
    db.updateRowWorker it.1 it.2 (flattenUsage now it.2.usage)) db).toEconomics (items.map Prod.fst)
  exact ⟨_, new, edits_updateRowWorker items now db, h⟩

theorem Moved.effect (hm : Moved s op s') : Effect s.db.toEconomics s'.db.toEconomics := by
  cases hm with
  | opened clock => exact effect_backfill s.db clock
  | notOpened opening message db hdb connection hconnection alive =>
    rcases hdb with rfl | ⟨clock, rfl⟩
    · exact Effect.refl _
    · exact effect_backfill s.db clock
  | writes id items rest hinbox clock now =>
    obtain ⟨mid, new, he, ha⟩ := effect_executeBatch s.db items clock now
    exact ⟨mid, _, clock, _, new, he, ha, Drops.refl _⟩
  | mainThread op =>
    obtain ⟨mid, mid', clock, ids, new, he, ha, hd, -⟩ := s.db.step_effect op
    exact ⟨mid, mid', clock, ids, new, he, ha, hd⟩
  | _ => exact Effect.refl _

variable {e e' : Economics} {base : String × String → UsageCounts}

theorem Effect.countedOnce (h : Effect e e') (hc : CountedOnce base e) : CountedOnce base e' := by
  obtain ⟨mid, mid', clock, ids, new, he, ha, hd⟩ := h
  exact ((hc.edits he).accounts ha).drops hd

theorem Effect.closed (h : Effect e e') {id : ℕ} (hc : Closed e id) : Closed e' id := by
  obtain ⟨mid, mid', clock, ids, new, he, ha, hd⟩ := h
  exact ((hc.edits he).accounts ha).drops hd

theorem Effect.nextId (h : Effect e e') : e.captures.nextId ≤ e'.captures.nextId := by
  obtain ⟨mid, mid', clock, ids, new, he, ha, hd⟩ := h
  rw [hd.nextId, ha.captures]
  exact he.nextId

/-- What is counted is of captures that were open. -/
theorem Effect.attributed (h : Effect e e') : ∃ new, e'.attributed = e.attributed ++ new ∧
    ∀ a ∈ new, ¬ Closed e a.id := by
  obtain ⟨mid, mid', clock, ids, new, he, ha, hd⟩ := h
  refine ⟨new, ?_, fun a hmem hc => ha.not_mem_of_closed (hc.edits he) a hmem rfl⟩
  rw [hd.attributed, ha.attributed, he.attributed]

/-- A batch closes its captures. -/
theorem closed_executeBatch {db : CaptureDb} {items : BatchItems} {it : ℕ × UpdateParams}
    (hit : it ∈ items) (hid : it.1 < db.captures.nextId) (clock : Clock) (now : EpochMs) :
    Closed (db.executeBatch items clock now).toEconomics it.1 := by
  obtain ⟨mid, new, he, ha⟩ := effect_executeBatch db items clock now
  rw [Closed, ha.captures]
  refine ⟨hid.trans_le he.nextId, fun c hc => ?_⟩
  rw [get?_mark] at hc
  obtain ⟨c₀, -, rfl⟩ := Option.map_eq_some_iff.mp hc
  rw [if_pos (List.mem_map_of_mem hit)]
  rfl

/-- A batch is posted for captures that have their ids. -/
def Allocated (s : WorkerStore) : WorkerOp → Prop
  | .batchUpdate items => ∀ it ∈ items, it.1 < s.db.captures.nextId
  | _ => True

instance (s : WorkerStore) (op : WorkerOp) : Decidable (Allocated s op) :=
  match op with
  | .batchUpdate items =>
    inferInstanceAs (Decidable (∀ it ∈ items, it.1 < s.db.captures.nextId))
  | .close | .closePoll _ | .ackTimeout _ | .onmessage | .ensureConnection _ | .handleBatch ..
  | .handleClose | .mainThread _ | .tick _ => isTrue trivial

/-- The captures of a batch that waits have ids, and those of a batch that
was written can no longer contribute. -/
structure WrittenClosed (s : WorkerStore) : Prop where
  allocated : ∀ b ∈ s.waiting, ∀ it ∈ b.2, it.1 < s.db.captures.nextId
  closed : ∀ b ∈ s.written, ∀ it ∈ b.2, Closed s.db.toEconomics it.1

theorem Moved.writtenClosed (hm : Moved s op s') (hop : Allocated s op) (h : WrittenClosed s) :
    WrittenClosed s' := by
  have heffect := hm.effect
  have hclosed : ∀ b ∈ s.written, ∀ it ∈ b.2, Closed s'.db.toEconomics it.1 :=
    fun b hb it hit => heffect.closed (h.closed b hb it hit)
  have hold : ∀ {b}, b ∈ s.waiting → ∀ it ∈ b.2, it.1 < s'.db.captures.nextId :=
    fun hb it hit => (h.allocated _ hb it hit).trans_le heffect.nextId
  cases hm with
  | posted items =>
    refine ⟨fun b hb it hit => ?_, hclosed⟩
    have hwaiting : (s.batchUpdate items).waiting = s.waiting ++ [(s.batches.next, items)] := by
      simp [waiting, batchUpdate]
    rw [hwaiting, List.mem_append, List.mem_singleton] at hb
    rcases hb with hb | rfl
    · exact hold hb it hit
    · exact hop it hit
  | closing due => exact ⟨fun b hb => hold (waiting_close s ▸ hb), hclosed⟩
  | closed hq inbox hinbox closing error =>
    rcases hinbox with rfl | rfl
    · exact ⟨fun b hb => hold hb, hclosed⟩
    · exact ⟨fun b hb => hold (waiting_close s ▸ hb), hclosed⟩
  | notOpened opening message db hdb connection hconnection alive =>
    exact ⟨fun b hb => hold ((waiting_tail s).subset hb), hclosed⟩
  | skips id items rest hinbox hconnection throws clock now =>
    exact ⟨fun b hb => hold ((waiting_rest hinbox).subset hb), hclosed⟩
  | throws id error clock now => exact ⟨fun b hb => hold ((waiting_tail s).subset hb), hclosed⟩
  | writes id items rest hinbox clock now =>
    refine ⟨fun b hb => hold ((waiting_rest hinbox).subset hb), fun b hb it hit => ?_⟩
    rcases List.mem_append.mp hb with hb | hb
    · exact hclosed b hb it hit
    · rw [List.mem_singleton.mp hb] at hit
      have hmem : (id, items) ∈ s.waiting := by
        rw [waiting_cons hinbox]
        exact List.mem_cons_self
      exact closed_executeBatch hit (h.allocated _ hmem it hit) clock now
  | disconnects => exact ⟨fun b hb => hold ((waiting_tail s).subset hb), hclosed⟩
  | _ => exact ⟨fun b hb => hold hb, hclosed⟩

theorem countedOnce_run {base : String × String → UsageCounts}
    (h : CountedOnce base s.db.toEconomics) (ops : List WorkerOp) :
    CountedOnce base (run step s ops).db.toEconomics :=
  run_invariant (I := fun s : WorkerStore => CountedOnce base s.db.toEconomics)
    (fun s op h => (s.step_moved op).effect.countedOnce h) h ops

/-- What a run counts is of captures that were open when it began. -/
theorem attributed_run (s : WorkerStore) (ops : List WorkerOp) :
    ∃ new, (run step s ops).db.attributed = s.db.attributed ++ new ∧
      ∀ a ∈ new, ¬ Closed s.db.toEconomics a.id := by
  induction ops generalizing s with
  | nil => exact ⟨[], (List.append_nil _).symm, by simp⟩
  | cons op ops ih =>
    have heffect := (s.step_moved op).effect
    obtain ⟨new, hnew, hopen⟩ := heffect.attributed
    obtain ⟨new', hnew', hopen'⟩ := ih (s.step op)
    refine ⟨new ++ new', ?_, fun a ha => ?_⟩
    · rw [run_cons, hnew', hnew, List.append_assoc]
    · rcases List.mem_append.mp ha with ha | ha
      · exact hopen a ha
      · exact fun hc => hopen' a ha (heffect.closed hc)

variable (captures : Table CaptureColumns) (modelPricing : Dict String PricingRow)
  (dailyUsage : Dict (String × String) DailyUsage) (maxCaptures : ℕ) (visionCacheTtlMs : Int)

/-- However the worker's transactions fall between those of the main thread,
each capture is counted at most once, and each row of the daily totals is
what the file had plus the captures counted for it. Where batches are posted
for captures that exist, no later step counts a capture of a written batch,
also when its promise was rejected and its updates are posted again. -/
theorem written_counted_once (pre : List Op) (ops : List WorkerOp)
    (hops : StepsMeet step Allocated (new (run CaptureDb.step
      (CaptureDb.load captures modelPricing dailyUsage maxCaptures visionCacheTtlMs) pre)) ops) :
    let s := after (run CaptureDb.step
      (CaptureDb.load captures modelPricing dailyUsage maxCaptures visionCacheTtlMs) pre) ops
    (s.db.attributed.map Attribution.id).Nodup ∧
      (∀ key, s.db.counts key =
        CaptureDb.baseCounts dailyUsage key + totalOf key s.db.attributed) ∧
      ∀ ops', ∃ later, (run step s ops').db.attributed = s.db.attributed ++ later ∧
        ∀ b ∈ s.written, ∀ it ∈ b.2, ∀ a ∈ later, a.id ≠ it.1 := by
  intro s
  have hcounted : CountedOnce (CaptureDb.baseCounts dailyUsage) s.db.toEconomics :=
    countedOnce_run (s := new _) (CaptureDb.countedOnce_run captures modelPricing dailyUsage
      maxCaptures visionCacheTtlMs pre) ops
  have hclosed : WrittenClosed s := run_invariant_of_stepsMeet
    (fun s op h hop => (s.step_moved op).writtenClosed hop h)
    ⟨by simp [new, waiting], by simp [new]⟩ hops
  refine ⟨hcounted.nodup, hcounted.counts, fun ops' => ?_⟩
  obtain ⟨later, hlater, hopen⟩ := attributed_run s ops'
  refine ⟨later, hlater, fun b hb it hit a ha heq => ?_⟩
  exact hopen a ha (heq ▸ hclosed.closed b hb it hit)

/-- A capture is written, its acknowledgement comes too late, and its update
is posted again. -/
def lateAck : List WorkerOp :=
  let clock : Clock := fun _ => ⟨0, epoch_inRange⟩
  [.batchUpdate [(1, CaptureDb.retriedUpdate)], .ensureConnection (.ready clock),
    .handleBatch none clock ⟨0, epoch_inRange⟩, .tick 10000, .ackTimeout 1, .onmessage,
    .batchUpdate [(1, CaptureDb.retriedUpdate)]]

theorem lateAck_counted_once :
    let db := run CaptureDb.step (CaptureDb.load Table.empty [] [] 200 0)
      [.startCapture ⟨"[]", "body", 4, ⟨0, epoch_inRange⟩, "streaming"⟩]
    let s := after db lateAck
    (s.written.keys = [1] ∧
      s.batches.settled = [(1, .rejected "worker ack timeout for batch 1")]) ∧
      ∀ ops', ∃ later, (run step s ops').db.attributed = s.db.attributed ++ later ∧
        ∀ b ∈ s.written, ∀ it ∈ b.2, ∀ a ∈ later, a.id ≠ it.1 :=
  ⟨by decide, (written_counted_once Table.empty [] [] 200 0
    [.startCapture ⟨"[]", "body", 4, ⟨0, epoch_inRange⟩, "streaming"⟩] lateAck (by decide)).2.2⟩

end UmansGate.Store.WorkerStore
