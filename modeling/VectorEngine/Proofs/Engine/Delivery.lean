import VectorEngine.Proofs.Engine.Queues
import VectorEngine.Transition.Run

/-!
# `VectorEngine.Proofs.Engine.Delivery`: every reply arrives, once and in order

The bytes of a connection are spread over its way through the engine: what was written, the
replies in its reactor, and the batches in its worker. `flow` puts them together in this
order. `Inv` says that for each open connection the flow is the replies of what was
dispatched, and `step_inv` that each atomic step keeps it. A batch is only ever in the worker
of its connection, and so the front of a queue moves to the back of the next one and nothing
overtakes it.
-/

set_option autoImplicit false

namespace VectorEngine

variable {ρ : Type} [DecidableEq ρ] {n : Nat}

/-! ### The part of a queue that belongs to a connection -/

/-- The bytes of the replies to a connection. -/
def repliesFor (id : ConnectionId) (replies : List Reply) : ByteString :=
  (replies.filter fun reply => reply.connectionId = id).flatMap fun reply => reply.reply

/-- The bytes that the batches of a connection will give. -/
def batchesFor (r : ρ) (id : ConnectionId) (batches : List (BatchTask ρ)) : ByteString :=
  (batches.filter fun b => b.reactor = some r ∧ b.connectionId = id).flatMap fun b =>
    (runBatchTask b).reply

/-- An empty queue has nothing for a connection. -/
@[simp] theorem repliesFor_nil (id : ConnectionId) : repliesFor id [] = [] := rfl

/-- An empty queue has no batch of a connection. -/
@[simp] theorem batchesFor_nil (r : ρ) (id : ConnectionId) : batchesFor r id [] = [] := rfl

/-- What is behind in a queue is written later, so that the parts of two queues are appended in
this order. -/
@[simp] theorem repliesFor_append (id : ConnectionId) (rs rs' : List Reply) :
    repliesFor id (rs ++ rs') = repliesFor id rs ++ repliesFor id rs' := by
  simp [repliesFor]

/-- The same of batches: those that are behind are answered later. -/
@[simp] theorem batchesFor_append (r : ρ) (id : ConnectionId) (bs bs' : List (BatchTask ρ)) :
    batchesFor r id (bs ++ bs') = batchesFor r id bs ++ batchesFor r id bs' := by
  simp [batchesFor]

/-- The reply at the front comes first, if it is for the connection. -/
theorem repliesFor_cons (id : ConnectionId) (reply : Reply) (rs : List Reply) :
    repliesFor id (reply :: rs)
      = (if reply.connectionId = id then reply.reply else []) ++ repliesFor id rs := by
  by_cases h : reply.connectionId = id <;> simp [repliesFor, h]

/-- The batch at the front is answered first, if it is of the connection. -/
theorem batchesFor_cons (r : ρ) (id : ConnectionId) (b : BatchTask ρ)
    (bs : List (BatchTask ρ)) :
    batchesFor r id (b :: bs)
      = (if b.reactor = some r ∧ b.connectionId = id then (runBatchTask b).reply else [])
        ++ batchesFor r id bs := by
  by_cases h : b.reactor = some r ∧ b.connectionId = id <;> simp [batchesFor, h]

/-- One reply is for one connection. -/
theorem repliesFor_singleton (id : ConnectionId) (reply : Reply) :
    repliesFor id [reply] = if reply.connectionId = id then reply.reply else [] := by
  rw [repliesFor_cons, repliesFor_nil, List.append_nil]

/-- One batch is of one connection. -/
theorem batchesFor_singleton (r : ρ) (id : ConnectionId) (b : BatchTask ρ) :
    batchesFor r id [b]
      = if b.reactor = some r ∧ b.connectionId = id then (runBatchTask b).reply else [] := by
  rw [batchesFor_cons, batchesFor_nil, List.append_nil]

/-- Replies to other connections are no part of this one's. -/
theorem repliesFor_eq_nil {id : ConnectionId} {rs : List Reply}
    (h : ∀ reply ∈ rs, reply.connectionId ≠ id) : repliesFor id rs = [] := by
  unfold repliesFor
  rw [List.filter_eq_nil_iff.mpr fun reply hreply => by simpa using h reply hreply]
  rfl

/-- Batches of other connections are no part of this one's. -/
theorem batchesFor_eq_nil {r : ρ} {id : ConnectionId} {bs : List (BatchTask ρ)}
    (h : ∀ b ∈ bs, b.reactor = some r → b.connectionId ≠ id) : batchesFor r id bs = [] := by
  unfold batchesFor
  rw [List.filter_eq_nil_iff.mpr fun b hb => by simpa using h b hb]
  rfl

namespace Engine

variable {s s' : Engine ρ n}

/-! ### Updates -/

omit [DecidableEq ρ] in
/-- Another state of one worker changes that worker and none of the others. -/
theorem workers_setWorker (s : Engine ρ n) (w w' : Fin (n + 1)) (x : Worker ρ) :
    (s.setWorker w x).workers w' = if w' = w then x else s.workers w' :=
  Function.update_apply s.workers w x w'

/-- Another state of one reactor changes that reactor and none of the others. -/
theorem reactors_setReactor (s : Engine ρ n) (r r' : ρ) (x : Reactor) :
    (s.setReactor r x).reactors r' = if r' = r then x else s.reactors r' :=
  Function.update_apply s.reactors r x r'

/-- A reactor that keeps its table and its count: the queue of replies is all that changes. -/
theorem setReactor_frame {r : ρ} {x : Reactor}
    (hconns : x.connections = (s.reactors r).connections)
    (hcnt : x.connectionCnt = (s.reactors r).connectionCnt) (q : ρ) :
    ((s.setReactor r x).reactors q).connections = (s.reactors q).connections ∧
      ((s.setReactor r x).reactors q).connectionCnt = (s.reactors q).connectionCnt := by
  rw [reactors_setReactor]
  by_cases hq : q = r
  · subst hq
    rw [if_pos rfl]
    exact ⟨hconns, hcnt⟩
  · rw [if_neg hq]
    exact ⟨rfl, rfl⟩

omit [DecidableEq ρ] in
/-- All workers are still calm when one of them goes to a calm state. -/
theorem calm_setWorker (h : ∀ w, (s.workers w).Calm) {w : Fin (n + 1)} {x : Worker ρ}
    (hx : x.Calm) (w' : Fin (n + 1)) : ((s.setWorker w x).workers w').Calm := by
  rw [workers_setWorker]
  by_cases hw : w' = w
  · rw [if_pos hw]
    exact hx
  · rw [if_neg hw]
    exact h w'

/-- A reactor that keeps its replies. -/
theorem pending_setReactor {r : ρ} {x : Reactor} (hx : x.pending = (s.reactors r).pending)
    (q : ρ) : ((s.setReactor r x).reactors q).pending = (s.reactors q).pending := by
  rw [reactors_setReactor]
  by_cases hq : q = r
  · rw [if_pos hq, hx, hq]
  · rw [if_neg hq]

omit [DecidableEq ρ] in
/-- A batch is submitted at the back of one worker. -/
theorem pending_setWorker_submit (s : Engine ρ n) (w w' : Fin (n + 1)) (b : BatchTask ρ) :
    ((s.setWorker w ((s.workers w).submit b)).workers w').pending
      = (s.workers w').pending ++ if w' = w then [b] else [] := by
  rw [workers_setWorker]
  by_cases hw : w' = w
  · rw [if_pos hw, if_pos hw, Worker.pending_submit, hw]
  · rw [if_neg hw, if_neg hw, List.append_nil]

omit [DecidableEq ρ] in
/-- A batch is taken from the front of one worker. -/
theorem pending_of_setWorker {w : Fin (n + 1)} {x : Worker ρ} {b : BatchTask ρ}
    (hx : (s.workers w).pending = b :: x.pending) (w' : Fin (n + 1)) :
    (s.workers w').pending
      = (if w' = w then [b] else []) ++ ((s.setWorker w x).workers w').pending := by
  rw [workers_setWorker]
  by_cases hw : w' = w
  · rw [if_pos hw, if_pos hw, hw, hx]
    rfl
  · rw [if_neg hw, if_neg hw]
    rfl

/-- Replies are sent to the back of one reactor. -/
theorem pending_setReactor_send (s : Engine ρ n) (r q : ρ) (replies : List Reply) :
    ((s.setReactor r ((s.reactors r).send replies)).reactors q).pending
      = (s.reactors q).pending ++ if q = r then replies else [] := by
  rw [reactors_setReactor]
  by_cases hq : q = r
  · rw [if_pos hq, if_pos hq, Reactor.pending_send, hq]
  · rw [if_neg hq, if_neg hq, List.append_nil]

/-- A reply is taken from the front of one reactor. -/
theorem pending_of_setReactor {r : ρ} {x : Reactor} {reply : Reply}
    (hx : (s.reactors r).pending = reply :: x.pending) (q : ρ) :
    (s.reactors q).pending
      = (if q = r then [reply] else []) ++ ((s.setReactor r x).reactors q).pending := by
  rw [reactors_setReactor]
  by_cases hq : q = r
  · rw [if_pos hq, if_pos hq, hq, hx]
    rfl
  · rw [if_neg hq, if_neg hq]
    rfl

/-- A `dispatch` is recorded for its own connection, behind the commands that were dispatched for
it before. -/
theorem dispatched_recordDispatch (s : Engine ρ n) (r r' : ρ) (id id' : ConnectionId)
    (cmds : List Resp.RespCommand) :
    (s.recordDispatch r id cmds).dispatched r' id'
      = s.dispatched r' id' ++ if r' = r ∧ id' = id then cmds else [] := by
  show Function.update s.dispatched r _ r' id' = _
  by_cases hr : r' = r
  · subst hr
    by_cases hid : id' = id
    · subst hid
      simp
    · simp [hid]
  · simp [hr]

/-- A write is recorded for the connection of its reply, behind the bytes that were written for it
before. -/
theorem written_recordWrite (s : Engine ρ n) (r r' : ρ) (id : ConnectionId) (reply : Reply) :
    (s.recordWrite r (some reply)).written r' id
      = s.written r' id ++ if r' = r ∧ reply.connectionId = id then reply.reply else [] := by
  show Function.update s.written r _ r' id = _
  by_cases hr : r' = r
  · subst hr
    by_cases hid : reply.connectionId = id
    · subst hid
      simp
    · simp [hid, Ne.symm hid]
  · simp [hr]

/-! ### The invariant -/

/-- The bytes of a connection, from what was written to what was submitted last. -/
def flow (s : Engine ρ n) (r : ρ) (id : ConnectionId) : ByteString :=
  s.written r id ++ repliesFor id (s.reactors r).pending
    ++ batchesFor r id (s.workers (WorkerPool.fetch n id)).pending

/-- The replies of the commands dispatched for a connection. -/
def expected (s : Engine ρ n) (r : ρ) (id : ConnectionId) : ByteString :=
  (s.dispatched r id).flatMap replyOf

/-- A reactor that keeps its replies changes no flow. -/
theorem flow_setReactor {r : ρ} {x : Reactor} (hx : x.pending = (s.reactors r).pending) (q : ρ)
    (c : ConnectionId) : (s.setReactor r x).flow q c = s.flow q c := by
  unfold flow
  rw [pending_setReactor hx]
  rfl

/-- What every reachable state keeps. The replies of the dispatched commands are cut into four
parts, those that are written, those in the two queues of the reactor, and those that the worker
will give, and each step moves something from the head of one part to the end of the one before.
-/
structure Inv (s : Engine ρ n) : Prop where
  calm : ∀ w, (s.workers w).Calm
  /-- A batch is in the worker of its connection, and its id was given out. -/
  batches : ∀ w, ∀ b ∈ (s.workers w).pending, ∃ r, b.reactor = some r ∧
    WorkerPool.fetch n b.connectionId = w ∧ b.connectionId < (s.reactors r).connectionCnt
  /-- A reply is for an id that was given out. -/
  replies : ∀ r, ∀ reply ∈ (s.reactors r).pending,
    reply.connectionId < (s.reactors r).connectionCnt
  known : ∀ r, ∀ id ∈ (s.reactors r).connections, id < (s.reactors r).connectionCnt
  /-- An id that was not given out has no history. -/
  fresh : ∀ r id, (s.reactors r).connectionCnt ≤ id →
    s.dispatched r id = [] ∧ s.written r id = []
  opened : ∀ r, ∀ id ∈ (s.reactors r).connections, s.flow r id = s.expected r id
  closed : ∀ r id, id ∉ (s.reactors r).connections → s.written r id <+: s.expected r id

/-- The invariant holds at the start: nothing was dispatched, and nothing is in a queue. -/
theorem Initial.inv (h : s.Initial) : s.Inv where
  calm w := by
    rw [h.workers]
    exact Worker.calm_init
  batches w b hb := by
    rw [h.workers] at hb
    cases hb
  replies r reply hreply := by
    obtain ⟨hreplies, hswapped⟩ := h.replies r
    unfold Reactor.pending at hreply
    rw [hreplies, hswapped] at hreply
    cases hreply
  known := h.known
  fresh r id _ := ⟨h.dispatched r id, h.written r id⟩
  opened r id _ := by
    obtain ⟨hreplies, hswapped⟩ := h.replies r
    unfold flow expected Reactor.pending
    rw [h.written, h.dispatched, h.workers, hreplies, hswapped]
    rfl
  closed r id _ := by
    rw [h.written]
    exact List.nil_prefix

/-- An id that was not given out is in no table. -/
theorem Inv.unknown (h : s.Inv) {r : ρ} {id : ConnectionId}
    (hid : (s.reactors r).connectionCnt ≤ id) : id ∉ (s.reactors r).connections :=
  fun hin => absurd (h.known r id hin) (Nat.not_lt.mpr hid)

/-- Nothing is on its way to an id that was not given out. -/
theorem Inv.flow_fresh (h : s.Inv) {r : ρ} {id : ConnectionId}
    (hid : (s.reactors r).connectionCnt ≤ id) : s.flow r id = s.expected r id := by
  obtain ⟨hdispatched, hwritten⟩ := h.fresh r id hid
  have hreplies : repliesFor id (s.reactors r).pending = [] :=
    repliesFor_eq_nil fun reply hreply =>
      Nat.ne_of_lt (Nat.lt_of_lt_of_le (h.replies r reply hreply) hid)
  have hbatches : ∀ w, batchesFor r id (s.workers w).pending = [] := by
    refine fun w => batchesFor_eq_nil fun b hb hbr => ?_
    obtain ⟨r', hr', -, hlt⟩ := h.batches w b hb
    rw [hbr] at hr'
    cases hr'
    exact Nat.ne_of_lt (Nat.lt_of_lt_of_le hlt hid)
  unfold flow expected
  rw [hdispatched, hwritten, hreplies, hbatches]
  rfl

/-- What was written is the front of what is expected, also for a closed connection. -/
theorem Inv.front_written (h : s.Inv) (r : ρ) (id : ConnectionId) :
    s.written r id <+: s.expected r id := by
  by_cases hid : id ∈ (s.reactors r).connections
  · rw [← h.opened r id hid]
    unfold flow
    rw [List.append_assoc]
    exact List.prefix_append _ _
  · exact h.closed r id hid

/-- A step that leaves the tables as they are. Batches and replies can move, and histories
can grow for the open connections. -/
theorem Inv.of_frame (h : s.Inv) (hcalm : ∀ w, (s'.workers w).Calm)
    (hreactors : ∀ q, (s'.reactors q).connections = (s.reactors q).connections ∧
      (s'.reactors q).connectionCnt = (s.reactors q).connectionCnt)
    (hbatches : ∀ w, ∀ b ∈ (s'.workers w).pending, b ∈ (s.workers w).pending ∨
      ∃ r, b.reactor = some r ∧ WorkerPool.fetch n b.connectionId = w ∧
        b.connectionId < (s.reactors r).connectionCnt)
    (hreplies : ∀ q, ∀ reply ∈ (s'.reactors q).pending, reply ∈ (s.reactors q).pending ∨
      reply.connectionId < (s.reactors q).connectionCnt)
    (hhistory : ∀ q c, c ∉ (s.reactors q).connections →
      s'.dispatched q c = s.dispatched q c ∧ s'.written q c = s.written q c)
    (hopened : ∀ q, ∀ c ∈ (s.reactors q).connections, s.flow q c = s.expected q c →
      s'.flow q c = s'.expected q c) : s'.Inv where
  calm := hcalm
  batches w b hb := by
    have hbatch : ∃ r, b.reactor = some r ∧ WorkerPool.fetch n b.connectionId = w ∧
        b.connectionId < (s.reactors r).connectionCnt :=
      (hbatches w b hb).elim (h.batches w b) id
    obtain ⟨r, hr, hw, hlt⟩ := hbatch
    exact ⟨r, hr, hw, by rw [(hreactors r).2]; exact hlt⟩
  replies q reply hreply := by
    rw [(hreactors q).2]
    exact (hreplies q reply hreply).elim (h.replies q reply) id
  known q c hc := by
    rw [(hreactors q).1] at hc
    rw [(hreactors q).2]
    exact h.known q c hc
  fresh q c hc := by
    rw [(hreactors q).2] at hc
    obtain ⟨hdispatched, hwritten⟩ := hhistory q c (h.unknown hc)
    rw [hdispatched, hwritten]
    exact h.fresh q c hc
  opened q c hc := by
    rw [(hreactors q).1] at hc
    exact hopened q c hc (h.opened q c hc)
  closed q c hc := by
    rw [(hreactors q).1] at hc
    obtain ⟨hdispatched, hwritten⟩ := hhistory q c hc
    unfold expected
    rw [hdispatched, hwritten]
    exact h.closed q c hc

/-- A step that moves no batch and no reply. -/
theorem Inv.of_pending_eq (h : s.Inv) (hcalm : ∀ w, (s'.workers w).Calm)
    (hworkers : ∀ w, (s'.workers w).pending = (s.workers w).pending)
    (hpending : ∀ q, (s'.reactors q).pending = (s.reactors q).pending)
    (hreactors : ∀ q, (s'.reactors q).connections = (s.reactors q).connections ∧
      (s'.reactors q).connectionCnt = (s.reactors q).connectionCnt)
    (hdispatched : s'.dispatched = s.dispatched) (hwritten : s'.written = s.written) :
    s'.Inv := by
  refine h.of_frame hcalm hreactors (fun w b hb => Or.inl (by rw [← hworkers]; exact hb))
    (fun q reply hreply => Or.inl (by rw [← hpending]; exact hreply))
    (fun q c _ => by rw [hdispatched, hwritten]; exact ⟨rfl, rfl⟩) fun q c _ hflow => ?_
  unfold flow expected at hflow ⊢
  rw [hwritten, hdispatched, hpending, hworkers]
  exact hflow

/-- A worker that moves no batch. -/
theorem Inv.setWorker (h : s.Inv) {w : Fin (n + 1)} {x : Worker ρ} (hcalm : x.Calm)
    (hx : x.pending = (s.workers w).pending) : (s.setWorker w x).Inv := by
  refine h.of_pending_eq (calm_setWorker h.calm hcalm) (fun w' => ?_) (fun _ => rfl)
    (fun _ => ⟨rfl, rfl⟩) rfl rfl
  rw [workers_setWorker]
  by_cases hw : w' = w
  · rw [if_pos hw, hw, hx]
  · rw [if_neg hw]

/-! ### The steps -/

/-- A new connection has an id without history. -/
theorem connect_inv (h : s.Inv) {r : ρ} (hcnt : (s.reactors r).connectionCnt + 1 < 2 ^ 64) :
    (s.setReactor r (s.reactors r).createClient).Inv := by
  -- The counter does not wrap, so that the new id is larger than all others.
  have hnext : (s.reactors r).createClient.connectionCnt = (s.reactors r).connectionCnt + 1 :=
    Nat.mod_eq_of_lt hcnt
  have hreactor : ∀ q, (s.reactors q).connectionCnt
      ≤ ((s.setReactor r (s.reactors r).createClient).reactors q).connectionCnt := by
    intro q
    rw [reactors_setReactor]
    by_cases hq : q = r
    · subst hq
      rw [if_pos rfl, hnext]
      exact Nat.le_succ _
    · rw [if_neg hq]
  refine ⟨h.calm, fun w b hb => ?_, fun q reply hreply => ?_, fun q id hid => ?_,
    fun q id hid => h.fresh q id (Nat.le_trans (hreactor q) hid), fun q id hid => ?_,
    fun q id hid => ?_⟩
  · obtain ⟨q, hq, hw, hlt⟩ := h.batches w b hb
    exact ⟨q, hq, hw, Nat.lt_of_lt_of_le hlt (hreactor q)⟩
  · rw [pending_setReactor (Reactor.pending_createClient _)] at hreply
    exact Nat.lt_of_lt_of_le (h.replies q reply hreply) (hreactor q)
  · rw [reactors_setReactor] at hid ⊢
    by_cases hq : q = r
    · subst hq
      rw [if_pos rfl] at hid ⊢
      rw [hnext]
      -- The new id, or one of the old ones.
      rcases Finset.mem_insert.mp hid with rfl | hid
      · exact Nat.lt_succ_self _
      · exact Nat.lt_succ_of_lt (h.known q id hid)
    · rw [if_neg hq] at hid ⊢
      exact h.known q id hid
  · rw [flow_setReactor (Reactor.pending_createClient _)]
    show s.flow q id = s.expected q id
    rw [reactors_setReactor] at hid
    by_cases hq : q = r
    · subst hq
      rw [if_pos rfl] at hid
      -- Nothing was dispatched for the new id, and nothing is on its way to it.
      rcases Finset.mem_insert.mp hid with rfl | hid
      · exact h.flow_fresh (Nat.le_refl _)
      · exact h.opened q id hid
    · rw [if_neg hq] at hid
      exact h.opened q id hid
  · refine h.closed q id fun hin => hid ?_
    rw [reactors_setReactor]
    by_cases hq : q = r
    · subst hq
      rw [if_pos rfl]
      exact Finset.mem_insert_of_mem hin
    · rw [if_neg hq]
      exact hin

/-- A dispatch adds the replies of its commands to one flow, at the end. -/
theorem flow_dispatch (s : Engine ρ n) (r q : ρ) (id c : ConnectionId)
    (cmds : List Resp.RespCommand) :
    ((s.setWorker (WorkerPool.fetch n id) ((s.workers (WorkerPool.fetch n id)).submit
      (BatchTask.ofCommands cmds id (some r)))).recordDispatch r id cmds).flow q c
      = s.flow q c ++ if q = r ∧ c = id then cmds.flatMap replyOf else [] := by
  show s.written q c ++ repliesFor c (s.reactors q).pending
    ++ batchesFor q c ((s.setWorker _ _).workers _).pending = _
  rw [pending_setWorker_submit, batchesFor_append, ← List.append_assoc]
  congr 1
  by_cases hqc : q = r ∧ c = id
  · obtain ⟨rfl, rfl⟩ := hqc
    rw [if_pos rfl, if_pos ⟨rfl, rfl⟩, batchesFor_singleton, if_pos ⟨rfl, rfl⟩,
      reply_ofCommands]
    rfl
  · rw [if_neg hqc]
    -- It is the worker that is compared, and not the connection.
    by_cases hw : WorkerPool.fetch n c = WorkerPool.fetch n id
    · -- Another connection can share the worker.
      have hne : ¬ (some r = some q ∧ id = c) :=
        fun hb => hqc ⟨(Option.some.inj hb.1).symm, hb.2.symm⟩
      rw [if_pos hw, batchesFor_singleton]
      exact if_neg hne
    · rw [if_neg hw]
      rfl

/-- A dispatched batch goes to the back of its worker's queue. -/
theorem dispatch_inv (h : s.Inv) {r : ρ} {id : ConnectionId} {cmds : List Resp.RespCommand}
    (hid : id ∈ (s.reactors r).connections) :
    ((s.setWorker (WorkerPool.fetch n id) ((s.workers (WorkerPool.fetch n id)).submit
      (BatchTask.ofCommands cmds id (some r)))).recordDispatch r id cmds).Inv := by
  refine h.of_frame (calm_setWorker h.calm ((h.calm _).submit _)) (fun _ => ⟨rfl, rfl⟩)
    (fun w b hb => ?_) (fun _ _ => Or.inl) (fun q c hc => ⟨?_, rfl⟩) fun q c _ hflow => ?_
  · have hb : b ∈ ((s.setWorker (WorkerPool.fetch n id) _).workers w).pending := hb
    rw [pending_setWorker_submit, List.mem_append] at hb
    refine hb.imp_right fun hnew => ?_
    -- The batch is new in one worker, which is the one that its id picks.
    by_cases hw : w = WorkerPool.fetch n id
    · rw [if_pos hw, List.mem_singleton] at hnew
      subst hnew
      exact ⟨r, rfl, hw.symm, h.known r id hid⟩
    · rw [if_neg hw] at hnew
      cases hnew
  · -- A dispatch is for a connection that is in the table.
    have hne : ¬ (q = r ∧ c = id) := by
      rintro ⟨rfl, rfl⟩
      exact hc hid
    rw [dispatched_recordDispatch, if_neg hne, List.append_nil]
    rfl
  · rw [flow_dispatch, hflow]
    unfold expected
    rw [dispatched_recordDispatch, List.flatMap_append]
    congr 1
    -- Both sides grow by the replies to the new commands, or neither does.
    by_cases hqc : q = r ∧ c = id
    · rw [if_pos hqc, if_pos hqc]
    · rw [if_neg hqc, if_neg hqc]
      rfl

/-- A batch that is run stays in its flow: it moves from the front of its worker to the back
of its reactor. -/
theorem flow_run {w : Fin (n + 1)} {x : Worker ρ} {b : BatchTask ρ} {r : ρ}
    (hx : (s.workers w).pending = b :: x.pending) (hr : b.reactor = some r)
    (hw : WorkerPool.fetch n b.connectionId = w) (q : ρ) (c : ConnectionId) :
    ((s.setWorker w x).setReactor r ((s.reactors r).send [runBatchTask b])).flow q c
      = s.flow q c := by
  -- What the batch gives to this connection, as a batch and as a reply.
  have hbatch : batchesFor q c (if WorkerPool.fetch n c = w then [b] else [])
      = if q = r ∧ b.connectionId = c then (runBatchTask b).reply else [] := by
    by_cases hqc : q = r ∧ b.connectionId = c
    · obtain ⟨rfl, rfl⟩ := hqc
      rw [if_pos hw, if_pos ⟨rfl, rfl⟩, batchesFor_singleton, if_pos ⟨hr, rfl⟩]
    · rw [if_neg hqc]
      by_cases hw' : WorkerPool.fetch n c = w
      · have hne : ¬ (some r = some q ∧ b.connectionId = c) :=
          fun hb => hqc ⟨(Option.some.inj hb.1).symm, hb.2⟩
        rw [if_pos hw', batchesFor_singleton, hr]
        exact if_neg hne
      · rw [if_neg hw']
        rfl
  -- The reply goes to the reactor and the id that the batch names, so that what leaves the one
  -- queue enters the other.
  have hreply : repliesFor c (if q = r then [runBatchTask b] else [])
      = if q = r ∧ b.connectionId = c then (runBatchTask b).reply else [] := by
    by_cases hq : q = r
    · rw [if_pos hq, repliesFor_singleton]
      exact if_congr (and_iff_right hq).symm rfl rfl
    · rw [if_neg hq, if_neg fun hqc => hq hqc.1]
      rfl
  show s.written q c
      ++ repliesFor c (((s.setWorker w x).setReactor r (((s.setWorker w x).reactors r).send
        [runBatchTask b])).reactors q).pending
      ++ batchesFor q c ((s.setWorker w x).workers _).pending
    = s.written q c ++ repliesFor c (s.reactors q).pending ++ batchesFor q c (s.workers _).pending
  rw [pending_setReactor_send, pending_of_setWorker hx, repliesFor_append, batchesFor_append,
    hbatch, hreply, ← List.append_assoc, ← List.append_assoc]
  rfl

/-- A batch that is run moves from the front of its worker to the back of its reactor. -/
theorem run_inv (h : s.Inv) {w : Fin (n + 1)} {x : Worker ρ} {out : Option (ρ × List Reply)}
    (hrun : (s.workers w).runNext = some (x, out)) : ((s.setWorker w x).deliver out).Inv := by
  obtain ⟨hcalm, b, hpending, hout⟩ := Worker.runNext_spec (h.calm w) hrun
  obtain ⟨r, hr, hw, hlt⟩ := h.batches w b (by rw [hpending]; exact List.mem_cons_self)
  rw [hr] at hout
  subst hout
  refine h.of_frame (calm_setWorker h.calm hcalm)
    (setReactor_frame (s := s.setWorker w x) rfl rfl) (fun w' b' hb' => Or.inl ?_)
    (fun q reply hreply => ?_) (fun _ _ _ => ⟨rfl, rfl⟩) fun q c _ hflow => ?_
  · rw [pending_of_setWorker hpending]
    exact List.mem_append_right _ hb'
  · have hreply : reply ∈ (((s.setWorker w x).setReactor r
        (((s.setWorker w x).reactors r).send [runBatchTask b])).reactors q).pending := hreply
    rw [pending_setReactor_send, List.mem_append] at hreply
    refine hreply.imp_right fun hnew => ?_
    -- Only one reactor has a new reply, and its id is that of the batch.
    by_cases hq : q = r
    · rw [if_pos hq, List.mem_singleton] at hnew
      subst hnew
      rw [hq]
      exact hlt
    · rw [if_neg hq] at hnew
      cases hnew
  · exact (flow_run hpending hr hw q c).trans hflow

/-- What a write adds to the history: the reply, if its connection is in the table. -/
theorem written_write {r : ρ} {x : Reactor} {reply : Reply} {out : Option Reply}
    (hout : out = if reply.connectionId ∈ (s.reactors r).connections then some reply else none)
    (q : ρ) (c : ConnectionId) :
    ((s.setReactor r x).recordWrite r out).written q c
      = s.written q c ++
        if q = r ∧ reply.connectionId = c ∧ c ∈ (s.reactors r).connections then reply.reply
        else [] := by
  by_cases hin : reply.connectionId ∈ (s.reactors r).connections
  · rw [hout, if_pos hin, written_recordWrite]
    congr 1
    by_cases hqc : q = r ∧ reply.connectionId = c
    · rw [if_pos hqc, if_pos ⟨hqc.1, hqc.2, hqc.2 ▸ hin⟩]
    · rw [if_neg hqc, if_neg fun hall => hqc ⟨hall.1, hall.2.1⟩]
  · have hne : ¬ (q = r ∧ reply.connectionId = c ∧ c ∈ (s.reactors r).connections) :=
      fun hall => hin (hall.2.1 ▸ hall.2.2)
    rw [hout, if_neg hin, if_neg hne, List.append_nil]
    rfl

/-- What a write leaves as it is. -/
theorem recordWrite_frame (s : Engine ρ n) (r : ρ) (out : Option Reply) :
    (s.recordWrite r out).workers = s.workers ∧ (s.recordWrite r out).reactors = s.reactors ∧
      (s.recordWrite r out).dispatched = s.dispatched := by
  cases out <;> exact ⟨rfl, rfl, rfl⟩

/-- A reply that is written stays in its flow, if its connection is in the table. -/
theorem flow_write {r : ρ} {x : Reactor} {reply : Reply} {out : Option Reply}
    (hx : (s.reactors r).pending = reply :: x.pending)
    (hout : out = if reply.connectionId ∈ (s.reactors r).connections then some reply else none)
    (q : ρ) {c : ConnectionId} (hc : c ∈ (s.reactors q).connections) :
    ((s.setReactor r x).recordWrite r out).flow q c = s.flow q c := by
  obtain ⟨hworkers, hreactors, -⟩ := recordWrite_frame (s.setReactor r x) r out
  unfold flow
  rw [written_write hout, hworkers, hreactors, pending_of_setReactor hx, repliesFor_append,
    ← List.append_assoc]
  congr 3
  by_cases hq : q = r
  · rw [if_pos hq, repliesFor_singleton]
    rw [hq] at hc
    exact if_congr ⟨fun hall => hall.2.1, fun hid => ⟨hq, hid, hc⟩⟩ rfl rfl
  · rw [if_neg hq, if_neg fun hall => hq hall.1]
    rfl

/-- A reply that is written leaves the front of its reactor. -/
theorem write_inv (h : s.Inv) {r : ρ} {x : Reactor} {out : Option Reply}
    (hwrite : (s.reactors r).writeReply = some (x, out)) :
    ((s.setReactor r x).recordWrite r out).Inv := by
  obtain ⟨reply, hpending, hout, hconns, hcnt⟩ := Reactor.writeReply_spec hwrite
  obtain ⟨hworkers, hreactors, hdispatched⟩ := recordWrite_frame (s.setReactor r x) r out
  refine h.of_frame (fun w => ?_) (fun q => ?_) (fun w b hb => Or.inl ?_)
    (fun q reply' hreply => Or.inl ?_) (fun q c hc => ⟨?_, ?_⟩) fun q c hc hflow => ?_
  · rw [hworkers]
    exact h.calm w
  · rw [hreactors]
    exact setReactor_frame hconns hcnt q
  · rw [hworkers] at hb
    exact hb
  · rw [hreactors] at hreply
    rw [pending_of_setReactor hpending]
    exact List.mem_append_right _ hreply
  · rw [hdispatched]
    rfl
  · -- What is written goes to a connection that is in the table.
    have hne : ¬ (q = r ∧ reply.connectionId = c ∧ c ∈ (s.reactors r).connections) := by
      rintro ⟨rfl, -, hin⟩
      exact hc hin
    rw [written_write hout, if_neg hne, List.append_nil]
  · rw [flow_write hpending hout q hc, hflow]
    unfold expected
    rw [hdispatched]
    rfl

/-- A connection that is closed has been written a prefix. -/
theorem close_inv (h : s.Inv) (r : ρ) (id : ConnectionId) :
    (s.setReactor r ((s.reactors r).removeConnection id)).Inv := by
  -- The ids are not counted back, and no table grows.
  have hreactors : ∀ q,
      ((s.setReactor r ((s.reactors r).removeConnection id)).reactors q).connectionCnt
        = (s.reactors q).connectionCnt ∧
      ((s.setReactor r ((s.reactors r).removeConnection id)).reactors q).connections
        ⊆ (s.reactors q).connections := by
    intro q
    rw [reactors_setReactor]
    by_cases hq : q = r
    · subst hq
      rw [if_pos rfl]
      exact ⟨rfl, Finset.erase_subset _ _⟩
    · rw [if_neg hq]
      exact ⟨rfl, Finset.Subset.refl _⟩
  refine ⟨h.calm, fun w b hb => ?_, fun q reply hreply => ?_, fun q c hc => ?_,
    fun q c hc => ?_, fun q c hc => ?_, fun q c hc => ?_⟩
  · obtain ⟨q, hq, hw, hlt⟩ := h.batches w b hb
    exact ⟨q, hq, hw, by rw [(hreactors q).1]; exact hlt⟩
  · rw [pending_setReactor (Reactor.pending_removeConnection _ id)] at hreply
    rw [(hreactors q).1]
    exact h.replies q reply hreply
  · rw [(hreactors q).1]
    exact h.known q c ((hreactors q).2 hc)
  · rw [(hreactors q).1] at hc
    exact h.fresh q c hc
  · rw [flow_setReactor (Reactor.pending_removeConnection _ id)]
    exact h.opened q c ((hreactors q).2 hc)
  · exact h.front_written q c

/-- Every atomic step keeps the invariant. -/
theorem step_inv (h : s.Inv) {a : Action ρ n} (hstep : s.step a = some s') : s'.Inv := by
  cases a with
  | connect r =>
    obtain ⟨hcnt, hs'⟩ := Option.ite_none_right_eq_some.mp hstep
    cases hs'
    exact connect_inv h hcnt
  | dispatch r id cmds =>
    obtain ⟨hid, hs'⟩ := Option.ite_none_right_eq_some.mp hstep
    cases hs'
    exact dispatch_inv h hid
  | fetch w =>
    obtain ⟨x, hx, rfl⟩ := Option.map_eq_some_iff.mp hstep
    obtain ⟨hcalm, hpending⟩ := Worker.fetchTasks_spec (h.calm w) hx
    -- What is pending is the same list, in another place.
    exact h.setWorker hcalm hpending
  | run w =>
    obtain ⟨⟨x, out⟩, hx, rfl⟩ := Option.map_eq_some_iff.mp hstep
    exact run_inv h hx
  | finish w =>
    obtain ⟨x, hx, rfl⟩ := Option.map_eq_some_iff.mp hstep
    obtain ⟨hcalm, hpending⟩ := Worker.finishRound_spec (h.calm w) hx
    exact h.setWorker hcalm hpending
  | swap r =>
    obtain ⟨x, hx, rfl⟩ := Option.map_eq_some_iff.mp hstep
    obtain ⟨hpending, hconns, hcnt⟩ := Reactor.swapReplies_spec hx
    -- The swap moves the replies and keeps their order.
    exact h.of_pending_eq h.calm (fun _ => rfl) (pending_setReactor hpending)
      (setReactor_frame hconns hcnt) rfl rfl
  | write r =>
    obtain ⟨⟨x, out⟩, hx, rfl⟩ := Option.map_eq_some_iff.mp hstep
    exact write_inv h hx
  | close r id =>
    cases hstep
    exact close_inv h r id

/-! ### Whole runs -/

/-- Every reachable state keeps the invariant. -/
theorem Inv.of_run {s₀ : Engine ρ n} (hstart : s₀.Initial)
    {path : List (Engine ρ n × Action ρ n)} (hrun : Transition.Run step s₀ path s) : s.Inv :=
  (hrun.invariant (fun _ _ _ hinv _ hstep => step_inv hinv hstep) hstart.inv
    (C := fun _ _ => True) fun _ _ => trivial).1

/-- Replies arrive in order, once, and at their connection. In every reachable state, what is
written to an open connection, what is queued for it in its reactor, and what its worker will
still compute for it, are together the replies of the commands dispatched for it. What was
written to any connection, closed or not, is a front part of its own replies. A batch is in
no worker but that of its connection. -/
theorem replies_in_order {s₀ : Engine ρ n} (hstart : s₀.Initial)
    {path : List (Engine ρ n × Action ρ n)} (hrun : Transition.Run step s₀ path s) :
    (∀ r, ∀ id ∈ (s.reactors r).connections,
      s.written r id
        ++ repliesFor id (s.reactors r).swapped
        ++ repliesFor id (s.reactors r).replies
        ++ batchesFor r id (s.workers (WorkerPool.fetch n id)).tasks
        ++ batchesFor r id (s.workers (WorkerPool.fetch n id)).queue
      = (s.dispatched r id).flatMap replyOf) ∧
    (∀ r id, s.written r id <+: (s.dispatched r id).flatMap replyOf) ∧
    ∀ w, ∀ b ∈ (s.workers w).tasks ++ (s.workers w).queue,
      WorkerPool.fetch n b.connectionId = w := by
  have hinv : s.Inv := .of_run hstart hrun
  refine ⟨fun r id hid => ?_, fun r id => ?_, fun w b hb => ?_⟩
  · have hflow := hinv.opened r id hid
    unfold flow Reactor.pending Worker.pending at hflow
    rw [repliesFor_append, batchesFor_append, ← List.append_assoc, ← List.append_assoc] at hflow
    exact hflow
  · exact hinv.front_written r id
  · obtain ⟨_, -, hw, -⟩ := hinv.batches w b hb
    exact hw

/-- Two reactors with a connection `0` each, and a pool of three workers. -/
def pairStart : Engine Bool 2 where
  workers _ := Worker.init
  reactors _ := { connectionCnt := 1, connections := {0}, replies := [], swapped := [] }
  dispatched _ _ := []
  written _ _ := []

/-- The pair has no batch and no reply, and its ids are known. -/
theorem initial_pairStart : pairStart.Initial where
  workers _ := rfl
  known _ id hid := by
    have hid : id = 0 := Finset.mem_singleton.mp hid
    subst hid
    exact Nat.one_pos
  replies _ := ⟨rfl, rfl⟩
  dispatched _ _ := rfl
  written _ _ := rfl

/-- Both connections are dispatched to the first worker. One reply is written, one is queued
in its reactor, and one batch is still in the worker. -/
def pairActions : List (Action Bool 2) :=
  [.dispatch true 0 [{ name := bytesOf "PING", args := [] }],
    .dispatch false 0 [{ name := bytesOf "x", args := [] }], .fetch 0,
    .dispatch true 0 [{ name := bytesOf "ping", args := [] }], .run 0, .run 0, .swap true,
    .write true]

/-- The run of `pairActions` goes through to its end. -/
theorem isSome_pairActions :
    (Transition.exec step pairStart pairActions).isSome = true := by
  decide +kernel

/-- In the run of `pairActions` one connection has its reply and the other has none yet, and every
reply that is missing is found in a queue. -/
theorem replies_in_order_pair : ∃ s, Transition.exec step pairStart pairActions = some s ∧
    s.written true 0 = bytesOf "+PONG\r\n" ∧ s.written false 0 = [] ∧
    0 ∈ (s.reactors true).connections ∧
    (∀ r, ∀ id ∈ (s.reactors r).connections,
      s.written r id
        ++ repliesFor id (s.reactors r).swapped
        ++ repliesFor id (s.reactors r).replies
        ++ batchesFor r id (s.workers (WorkerPool.fetch 2 id)).tasks
        ++ batchesFor r id (s.workers (WorkerPool.fetch 2 id)).queue
      = (s.dispatched r id).flatMap replyOf) ∧
    (∀ r id, s.written r id <+: (s.dispatched r id).flatMap replyOf) ∧
    ∀ w, ∀ b ∈ (s.workers w).tasks ++ (s.workers w).queue,
      WorkerPool.fetch 2 b.connectionId = w := by
  have hexec := (Option.some_get isSome_pairActions).symm
  obtain ⟨path, hrun, -⟩ := Transition.Run.exec pairActions .nil hexec
  exact ⟨_, hexec, by decide +kernel, by decide +kernel, by decide +kernel,
    replies_in_order initial_pairStart hrun⟩

end Engine

end VectorEngine
