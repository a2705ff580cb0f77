import VectorEngine.Proofs.Engine.Delivery
import VectorEngine.Proofs.Server.Next
import VectorEngine.Proofs.Session.Callback
import VectorEngine.Proofs.Wakeup.Next

/-!
# `VectorEngine.Proofs.Server.Simulation`: the engine inside the server

The server has two sides. Each connection has dispatched what the parser takes off the bytes
received, and has kept the rest. The workers and the reactors are an `Engine` that was given
those commands. `Represents` is the relation between the server and this engine.

Each step of the server is one step of the engine or none: a notification, a wait and a read
that completes no command are nothing to the engine. So a run of the server is followed by a
run of the engine (`represents_of_run`).
-/

set_option autoImplicit false

namespace VectorEngine

open VectorEngine.Resp
open VectorEngine.Session (start)
open VectorEngine.Stream

/-- The options of a reactor that speaks RESP, with limits that the constructor of the read
buffer accepts and that do not overflow when they are doubled. -/
structure ReactorOptions.Serves (opts : ReactorOptions) : Prop where
  min_pos : 0 < opts.connectionOpts.readBufMinSize
  min_le : opts.connectionOpts.readBufMinSize ≤ opts.connectionOpts.readBufMaxSize
  max_le : opts.connectionOpts.readBufMaxSize ≤ 2 ^ 63
  resp : opts.protocolOpts = .resp

namespace Server

variable {ρ : Type} [DecidableEq ρ] {n : Nat}
variable {opts : ReactorOptions} {A : Allocator} {s s' : Server ρ n} {e e' : Engine ρ n}

/-- An entry that was put is the one that is read, and the others are as they were. -/
theorem put_apply {α : Type} (table : ρ → ConnectionId → α) (r q : ρ) (id c : ConnectionId)
    (x : α) : put table r id x q c = if q = r ∧ c = id then x else table q c := by
  unfold put
  by_cases hq : q = r
  · subst hq
    by_cases hc : c = id <;> simp [hc]
  · simp [hq]

/-- The entry that was put is the one that is read. -/
@[simp] theorem put_self {α : Type} (table : ρ → ConnectionId → α) (r : ρ) (id : ConnectionId)
    (x : α) : put table r id x r id = x := by
  rw [put_apply, if_pos ⟨rfl, rfl⟩]

/-- The other entries are as they were. -/
theorem put_of_ne {α : Type} {table : ρ → ConnectionId → α} {r q : ρ} {id c : ConnectionId}
    (h : ¬ (q = r ∧ c = id)) (x : α) : put table r id x q c = table q c := by
  rw [put_apply, if_neg h]

/-! ### The relation -/

/-- The connection has dispatched `cmds`, which the parser takes off its bytes, and holds what is
left of them. Its read buffer is ready for the next callback. -/
structure Holds (A : Allocator) (R : ByteString) (cmds : List RespCommand) (session : Session) :
    Prop where
  ready : session.Ready
  drain : (scanCommand A).drain R = .ok (cmds, session.data)

/-- What the parser makes of more bytes, it makes of the data and the new ones. -/
theorem Holds.drain_append {R : ByteString} {cmds : List RespCommand} {session : Session}
    (h : Holds A R cmds session) (bytes : ByteString) :
    (scanCommand A).drain (R ++ bytes)
      = Scanner.prepend cmds ((scanCommand A).drain (session.data ++ bytes)) :=
  Scanner.drain_append_of_ok (stable_scanCommand A) (consumes_scanCommand A) h.drain bytes

/-- The data has no complete command. -/
theorem Holds.more {R : ByteString} {cmds : List RespCommand} {session : Session}
    (h : Holds A R cmds session) : scanCommand A session.data = .more :=
  Scanner.drain_rest (consumes_scanCommand A) h.drain

/-- The commands are those that the parser takes off some front part of the bytes. -/
def Parsed (A : Allocator) (R : ByteString) (cmds : List RespCommand) : Prop :=
  ∃ front rest, front <+: R ∧ (scanCommand A).drain front = .ok (cmds, rest)

/-- The server is in the state of the engine: the threads have what the engine's have, and what
was dispatched for an open connection is what the parser takes off the bytes that were received on
it. A connection that is closed has the commands of some front part of its bytes. -/
structure Represents (A : Allocator) (s : Server ρ n) (e : Engine ρ n) : Prop where
  inv : e.Inv
  workers : e.workers = s.threads.workers
  reactors : e.reactors = s.threads.reactors
  written : e.written = s.written
  /-- The table of a reactor has the connections that were not deleted. -/
  present : ∀ r id, s.sessions r id ≠ none ↔ id ∈ (e.reactors r).connections
  id : ∀ r id session, s.sessions r id = some session → session.conn.id = id
  opened : ∀ r id session, s.sessions r id = some session → session.status = .opened →
    Holds A (s.received r id) (e.dispatched r id) session
  parsed : ∀ r id, Parsed A (s.received r id) (e.dispatched r id)
  fresh : ∀ r id, (e.reactors r).connectionCnt ≤ id → s.received r id = []

/-- A step of the threads that leaves the tables and the connections as they are. -/
theorem Represents.of_frame (h : Represents A s e)
    {threads : Wakeup Empty (Fin (n + 1)) ρ} {written : ρ → ConnectionId → ByteString}
    (hinv : e'.Inv) (hworkers : e'.workers = threads.workers)
    (hreactors : e'.reactors = threads.reactors) (hwritten : e'.written = written)
    (hdispatched : e'.dispatched = e.dispatched)
    (htable : ∀ r, (e'.reactors r).connections = (e.reactors r).connections ∧
      (e'.reactors r).connectionCnt = (e.reactors r).connectionCnt) :
    Represents A { s with threads := threads, written := written } e' where
  inv := hinv
  workers := hworkers
  reactors := hreactors
  written := hwritten
  present r id := by
    rw [(htable r).1]
    exact h.present r id
  id := h.id
  opened r id session hs hopened := by
    rw [hdispatched]
    exact h.opened r id session hs hopened
  parsed r id := by
    rw [hdispatched]
    exact h.parsed r id
  fresh r id hid := by
    rw [(htable r).2] at hid
    exact h.fresh r id hid

/-- A step that the engine does not see. -/
theorem Represents.stutter (h : Represents A s e) {threads : Wakeup Empty (Fin (n + 1)) ρ}
    (hworkers : threads.workers = s.threads.workers)
    (hreactors : threads.reactors = s.threads.reactors) :
    Represents A { s with threads := threads } e :=
  h.of_frame h.inv (h.workers.trans hworkers.symm) (h.reactors.trans hreactors.symm) h.written rfl
    fun _ => ⟨rfl, rfl⟩

/-- What the engine does in a step of the server: nothing, or one step. -/
def Follows (A : Allocator) (e : Engine ρ n) (s' : Server ρ n) : Prop :=
  ∃ bs e', Transition.exec Engine.step e bs = some e' ∧ Represents A s' e'

/-- Where nothing is done, the engine does nothing. -/
theorem Represents.follows (h : Represents A s' e) : Follows A e s' :=
  ⟨[], e, rfl, h⟩

/-- One step of the engine. -/
theorem Follows.step {a : Engine.Action ρ n} (hstep : e.step a = some e')
    (h : Represents A s' e') : Follows A e s' :=
  ⟨[a], e', Transition.exec_singleton hstep, h⟩

/-! ### The threads -/

/-- The steps of the threads are those of the engine, except for the notifications, of which it
knows nothing. -/
theorem follows_thread (h : Represents A s e) {a : Wakeup.Action Empty (Fin (n + 1)) ρ}
    (hpushes : a.pushes = false) {threads : Wakeup Empty (Fin (n + 1)) ρ}
    (hs : s.threads.step a = some threads) :
    Follows A e { s.recordWrite a with threads := threads } := by
  cases Wakeup.next_of_step hs with
  | submit caller w batchTask => cases hpushes
  | send t r replies => cases hpushes
  | notify caller owed =>
    -- A waiting worker wakes up, and the engine has neither waits nor notifications.
    cases owed with
    | worker w =>
      refine (h.stutter ?_ ?_).follows
      · show (if s.threads.waiting w = .blocked then
          (s.threads.setOwed caller none).setWaiting w .notified
          else s.threads.setOwed caller none).workers = _
        split <;> rfl
      · show (if s.threads.waiting w = .blocked then
          (s.threads.setOwed caller none).setWaiting w .notified
          else s.threads.setOwed caller none).reactors = _
        split <;> rfl
    | reactor r => exact (h.stutter (by rfl) (by rfl)).follows
  -- Nor has the engine conditions that a worker waits on, or flags of the loops.
  | block w => exact (h.stutter (by rfl) (by rfl)).follows
  | spurious w => exact (h.stutter (by rfl) (by rfl)).follows
  | start r => exact (h.stutter (by rfl) (by rfl)).follows
  | returned r => exact (h.stutter (by rfl) (by rfl)).follows
  | fetch w worker hfree hwaiting hfetch =>
    rw [← h.workers] at hfetch
    -- The engine's step is the same one on the same worker.
    have hstep : e.step (.fetch w) = some (e.setWorker w worker) :=
      Option.map_eq_some_iff.mpr ⟨worker, hfetch, rfl⟩
    refine .step hstep (h.of_frame (Engine.step_inv h.inv hstep) ?_ h.reactors h.written rfl
      fun _ => ⟨rfl, rfl⟩)
    show Function.update e.workers w worker = Function.update s.threads.workers w worker
    rw [h.workers]
  | finish w worker hfree hfinish =>
    rw [← h.workers] at hfinish
    have hstep : e.step (.finish w) = some (e.setWorker w worker) :=
      Option.map_eq_some_iff.mpr ⟨worker, hfinish, rfl⟩
    refine .step hstep (h.of_frame (Engine.step_inv h.inv hstep) ?_ h.reactors h.written rfl
      fun _ => ⟨rfl, rfl⟩)
    show Function.update e.workers w worker = Function.update s.threads.workers w worker
    rw [h.workers]
  | run w worker out hfree hrun =>
    rw [← h.workers] at hrun
    have hstep : e.step (.run w) = some ((e.setWorker w worker).deliver out) :=
      Option.map_eq_some_iff.mpr ⟨(worker, out), hrun, rfl⟩
    have hworkers : Function.update e.workers w worker
        = Function.update s.threads.workers w worker := by rw [h.workers]
    have hinv := Engine.step_inv h.inv hstep
    cases out with
    | none =>
      exact .step hstep (h.of_frame hinv hworkers h.reactors h.written rfl fun _ => ⟨rfl, rfl⟩)
    | some call =>
      -- The worker calls `send` here, and owes the notification behind it.
      obtain ⟨r, replies⟩ := call
      refine .step hstep (h.of_frame hinv hworkers ?_ h.written rfl
        (Engine.setReactor_frame (s := e.setWorker w worker) rfl rfl))
      show Function.update e.reactors r ((e.reactors r).send replies)
        = Function.update s.threads.reactors r ((s.threads.reactors r).send replies)
      rw [h.reactors]
  | swap r reactor hstarted hswap =>
    rw [← h.reactors] at hswap
    have hstep : e.step (.swap r) = some (e.setReactor r reactor) :=
      Option.map_eq_some_iff.mpr ⟨reactor, hswap, rfl⟩
    -- The replies change their place and the table stays.
    obtain ⟨-, hconns, hcnt⟩ := Reactor.swapReplies_spec hswap
    refine .step hstep (h.of_frame (Engine.step_inv h.inv hstep) h.workers ?_ h.written rfl
      (Engine.setReactor_frame hconns hcnt))
    show Function.update e.reactors r reactor = Function.update s.threads.reactors r reactor
    rw [h.reactors]
  | write r reactor out hwriting hwrite =>
    -- The bytes of a reply whose connection is alive go behind what the connection got.
    have hrecord : s.recordWrite (.write r) = { s with
        written := match out with
          | some reply => put s.written r reply.connectionId
              (s.written r reply.connectionId ++ reply.reply)
          | none => s.written } := by
      simp only [recordWrite, hwrite]
      cases out <;> rfl
    rw [hrecord]
    rw [← h.reactors] at hwrite
    have hstep : e.step (.write r) = some ((e.setReactor r reactor).recordWrite r out) :=
      Option.map_eq_some_iff.mpr ⟨(reactor, out), hwrite, rfl⟩
    obtain ⟨-, -, -, hconns, hcnt⟩ := Reactor.writeReply_spec hwrite
    have hreactors : Function.update e.reactors r reactor
        = Function.update s.threads.reactors r reactor := by rw [h.reactors]
    have hinv := Engine.step_inv h.inv hstep
    cases out with
    | none =>
      exact .step hstep (h.of_frame hinv h.workers hreactors h.written rfl
        (Engine.setReactor_frame hconns hcnt))
    | some reply =>
      refine .step hstep (h.of_frame hinv h.workers hreactors ?_ rfl
        (Engine.setReactor_frame hconns hcnt))
      show put e.written r reply.connectionId (e.written r reply.connectionId ++ reply.reply) = _
      rw [h.written]

/-! ### The connections -/

/-- More bytes change nothing of what was taken off the front. -/
theorem Parsed.append {R : ByteString} {cmds : List RespCommand} (h : Parsed A R cmds)
    (bytes : ByteString) : Parsed A (R ++ bytes) cmds := by
  obtain ⟨front, rest, hfront, hdrain⟩ := h
  exact ⟨front, rest, hfront.trans (List.prefix_append _ _), hdrain⟩

/-- All of the bytes are a front part of them. -/
theorem Parsed.of_drain {R : ByteString} {cmds : List RespCommand} {rest : List Byte}
    (h : (scanCommand A).drain R = .ok (cmds, rest)) : Parsed A R cmds :=
  ⟨R, rest, List.prefix_refl R, h⟩

/-- A connection that is created has an id without history. -/
theorem Represents.connect (hopts : opts.Serves) (h : Represents A s e) {r : ρ}
    {accepted : Bool} {conn : Connection}
    (hcnt : (s.threads.reactors r).connectionCnt + 1 < 2 ^ 64)
    (hconn : Connection.init (s.threads.reactors r).connectionCnt
      opts.connectionOpts.readBufMinSize opts.connectionOpts.readBufMaxSize
      opts.protocolOpts = .ok conn) : Follows A e (s.afterConnect r conn accepted) := by
  rw [← h.reactors] at hcnt
  rw [← h.reactors, hopts.resp] at hconn
  have hstep : e.step (.connect r) = some (e.setReactor r (e.reactors r).createClient) :=
    if_pos hcnt
  have hinv := Engine.step_inv h.inv hstep
  have hcreated : (e.reactors r).createClient.connectionCnt
      = (e.reactors r).connectionCnt + 1 := Nat.mod_eq_of_lt hcnt
  -- The options are such that the constructor of the buffer accepts them.
  obtain ⟨hready, hdata, -⟩ :=
    Session.start_ready hopts.min_pos hopts.min_le hopts.max_le hconn
  have hid := Connection.id_init hconn
  have hnone := h.fresh r _ (Nat.le_refl (e.reactors r).connectionCnt)
  have hsessions : (s.afterConnect r conn accepted).sessions
      = put s.sessions r (e.reactors r).connectionCnt
        (some (if accepted then start conn else { start conn with status := .closing })) := by
    rw [h.reactors]
    rfl
  refine .step hstep ⟨hinv, h.workers, ?_, h.written, fun q c => ?_,
    fun q c session hsession => ?_, fun q c session hsession hopened => ?_, h.parsed,
    fun q c hc => ?_⟩
  · show Function.update e.reactors r _ = Function.update s.threads.reactors r _
    rw [h.reactors]
  · rw [hsessions, put_apply, Engine.reactors_setReactor]
    by_cases hq : q = r
    · subst hq
      rw [if_pos rfl]
      show _ ↔ c ∈ insert (e.reactors q).connectionCnt (e.reactors q).connections
      rw [Finset.mem_insert]
      -- The keys are those from before and the new id.
      by_cases hc : c = (e.reactors q).connectionCnt
      · simp [hc]
      · simp [hc, h.present]
    · simp [hq, h.present]
  · rw [hsessions] at hsession
    by_cases hqc : q = r ∧ c = (e.reactors r).connectionCnt
    · obtain ⟨rfl, rfl⟩ := hqc
      rw [put_self] at hsession
      cases hsession
      cases accepted <;> exact hid
    · rw [put_of_ne hqc] at hsession
      exact h.id q c session hsession
  · rw [hsessions] at hsession
    by_cases hqc : q = r ∧ c = (e.reactors r).connectionCnt
    · obtain ⟨rfl, rfl⟩ := hqc
      rw [put_self] at hsession
      cases hsession
      cases accepted with
      | false => cases hopened
      | true =>
        -- Nothing was received on the new id, and nothing dispatched.
        refine ⟨hready, ?_⟩
        show (scanCommand A).drain (s.received q _) = .ok (e.dispatched q _, (start conn).data)
        rw [hnone, (h.inv.fresh q _ (Nat.le_refl _)).1, hdata]
        exact Scanner.drain_more rfl
    · rw [put_of_ne hqc] at hsession
      exact h.opened q c session hsession hopened
  · rw [Engine.reactors_setReactor] at hc
    by_cases hq : q = r
    · subst hq
      rw [if_pos rfl, hcreated] at hc
      exact h.fresh q c (Nat.le_of_succ_le hc)
    · rw [if_neg hq] at hc
      exact h.fresh q c hc

/-- A callback of one connection. -/
theorem Represents.of_read (h : Represents A s e) {r : ρ} {id : ConnectionId} {session : Session}
    {c : Callback} (hsession : s.sessions r id = some session)
    {threads : Wakeup Empty (Fin (n + 1)) ρ} (hinv : e'.Inv)
    (hworkers : e'.workers = threads.workers) (hreactors : e'.reactors = threads.reactors)
    (hwritten : e'.written = s.written) (hsame : e'.reactors = e.reactors)
    (hdispatched : ∀ q d, ¬ (q = r ∧ d = id) → e'.dispatched q d = e.dispatched q d)
    (hholds : (session.handle A c).status = .opened →
      Holds A (s.received r id ++ c.bytes) (e'.dispatched r id) (session.handle A c))
    (hparsed : Parsed A (s.received r id ++ c.bytes) (e'.dispatched r id)) :
    Represents A (s.afterCallback A r id session c threads) e' where
  inv := hinv
  workers := hworkers
  reactors := hreactors
  written := hwritten
  present q d := by
    show put s.sessions r id _ q d ≠ none ↔ _
    rw [put_apply, hsame, ← h.present]
    -- A callback takes no connection out of the table and puts none in.
    by_cases hqd : q = r ∧ d = id
    · obtain ⟨rfl, rfl⟩ := hqd
      simp [hsession]
    · rw [if_neg hqd]
  id q d session' hsession' := by
    replace hsession' : put s.sessions r id _ q d = some session' := hsession'
    by_cases hqd : q = r ∧ d = id
    · obtain ⟨rfl, rfl⟩ := hqd
      rw [put_self] at hsession'
      cases hsession'
      rw [Session.id_handle]
      exact h.id q d session hsession
    · rw [put_of_ne hqd] at hsession'
      exact h.id q d session' hsession'
  opened q d session' hsession' hopened := by
    replace hsession' : put s.sessions r id _ q d = some session' := hsession'
    show Holds A (put s.received r id _ q d) _ _
    by_cases hqd : q = r ∧ d = id
    · obtain ⟨rfl, rfl⟩ := hqd
      rw [put_self] at hsession' ⊢
      cases hsession'
      exact hholds hopened
    · rw [put_of_ne hqd] at hsession' ⊢
      -- The other connections have neither received nor dispatched anything.
      rw [hdispatched q d hqd]
      exact h.opened q d session' hsession' hopened
  parsed q d := by
    show Parsed A (put s.received r id _ q d) _
    by_cases hqd : q = r ∧ d = id
    · obtain ⟨rfl, rfl⟩ := hqd
      rw [put_self]
      exact hparsed
    · rw [put_of_ne hqd, hdispatched q d hqd]
      exact h.parsed q d
  fresh q d hd := by
    rw [hsame] at hd
    show put s.received r id _ q d = []
    by_cases hqd : q = r ∧ d = id
    · -- The id of a connection that is there was given out.
      obtain ⟨rfl, rfl⟩ := hqd
      exact absurd ((h.present q d).mp (by simp [hsession])) (h.inv.unknown hd)
    · rw [put_of_ne hqd]
      exact h.fresh q d hd

/-- A callback that dispatches nothing. -/
theorem Represents.of_silent (h : Represents A s e) {r : ρ} {id : ConnectionId}
    {session : Session} {c : Callback} (hsession : s.sessions r id = some session)
    (hholds : (session.handle A c).status = .opened →
      Holds A (s.received r id ++ c.bytes) (e.dispatched r id) (session.handle A c)) :
    Represents A (s.afterCallback A r id session c s.threads) e :=
  h.of_read hsession h.inv h.workers h.reactors h.written rfl (fun _ _ _ => rfl) hholds
    ((h.parsed r id).append c.bytes)

/-- A callback of an open connection. It dispatches what it completes, which is one step of the
engine, or it dispatches nothing. -/
theorem Represents.callback (h : Represents A s e) {r : ρ} {id : ConnectionId}
    {session : Session} {c : Callback} {threads : Wakeup Empty (Fin (n + 1)) ρ}
    (hsession : s.sessions r id = some session) (hfree : s.Free r)
    (hpermits : session.Permits c)
    (hperform : (session.effects A c).foldlM (perform r) s.threads = some threads) :
    Follows A e (s.afterCallback A r id session c threads) := by
  have hholds := h.opened r id session hsession hpermits.opened
  -- Without a dispatch the threads are as they were.
  have hsilent : session.effects A c = [] ∨ session.effects A c = [.handleClose] →
      threads = s.threads := by
    rintro (heffects | heffects) <;> rw [heffects] at hperform <;> cases hperform <;> rfl
  cases Session.outcome_of_ready (A := A) hholds.ready hpermits with
  | quiet hready hdata hbytes heffects =>
    rw [hsilent (Or.inl heffects)]
    refine (h.of_silent hsession fun _ => ⟨hready, ?_⟩).follows
    rw [hbytes, List.append_nil, hdata]
    exact hholds.drain
  | closed hstatus heffects =>
    rw [hsilent heffects]
    exact (h.of_silent hsession fun hopened => absurd hopened hstatus).follows
  | parsed cmds hready hdrain heffects =>
    -- The bytes received so far and the new ones parse as the data and the new ones do.
    have hall : (scanCommand A).drain (s.received r id ++ c.bytes)
        = .ok (e.dispatched r id ++ cmds, (session.handle A c).data) := by
      rw [hholds.drain_append, hdrain, Scanner.prepend_ok]
    -- No complete command, and no dispatch.
    by_cases hcmds : cmds = []
    · rw [Session.dispatchOf, if_pos hcmds] at heffects
      rw [hcmds, List.append_nil] at hall
      rw [hsilent (Or.inl heffects)]
      exact (h.of_silent hsession fun _ => ⟨hready, hall⟩).follows
    · rw [Session.dispatchOf, if_neg hcmds, h.id r id session hsession] at heffects
      -- The batch is in the queue of the worker, and the loop owes the notification.
      have hthreads : threads = (s.threads.setWorker (WorkerPool.fetch n id)
          ((s.threads.workers (WorkerPool.fetch n id)).submit
            (BatchTask.ofCommands cmds id (some r)))).setOwed (.loop r)
          (some (.worker (WorkerPool.fetch n id))) := by
        rw [heffects, List.foldlM_cons] at hperform
        have hsubmit : perform r s.threads (.dispatch id (cmds.map RespTaskCreator.create))
            = some ((s.threads.setWorker (WorkerPool.fetch n id)
              ((s.threads.workers (WorkerPool.fetch n id)).submit
                (BatchTask.ofCommands cmds id (some r)))).setOwed (.loop r)
              (some (.worker (WorkerPool.fetch n id)))) :=
          if_pos ⟨hfree.2, hfree.1⟩
        rw [hsubmit] at hperform
        exact (Option.some.inj hperform).symm
      -- The engine dispatches only for a connection in its table, and this one is.
      have hmem : id ∈ (e.reactors r).connections :=
        (h.present r id).mp (by simp [hsession])
      obtain ⟨submitted, hsubmitted⟩ : ∃ submitted, submitted =
          e.setWorker (WorkerPool.fetch n id) ((e.workers (WorkerPool.fetch n id)).submit
            (BatchTask.ofCommands cmds id (some r))) := ⟨_, rfl⟩
      have hstep : e.step (.dispatch r id cmds) = some (submitted.recordDispatch r id cmds) := by
        rw [hsubmitted]
        exact if_pos hmem
      have hkept : submitted.dispatched = e.dispatched ∧ submitted.reactors = e.reactors := by
        rw [hsubmitted]
        exact ⟨rfl, rfl⟩
      have hdispatched : (scanCommand A).drain (s.received r id ++ c.bytes)
          = .ok ((submitted.recordDispatch r id cmds).dispatched r id,
            (session.handle A c).data) := by
        rw [Engine.dispatched_recordDispatch, if_pos ⟨rfl, rfl⟩, hkept.1]
        exact hall
      refine .step hstep (h.of_read hsession (Engine.step_inv h.inv hstep) ?_ ?_ ?_ hkept.2
        (fun q d hqd => ?_) (fun _ => ⟨hready, hdispatched⟩) (.of_drain hdispatched))
      · rw [hthreads, hsubmitted]
        show Function.update e.workers _ _ = Function.update s.threads.workers _ _
        rw [h.workers]
      · rw [hthreads]
        exact hkept.2.trans h.reactors
      · rw [hsubmitted]
        exact h.written
      · rw [Engine.dispatched_recordDispatch, if_neg hqd, List.append_nil, hkept.1]

/-- `on_close` takes the connection out of the table, which is a step of the engine. -/
theorem Represents.close (h : Represents A s e) {r : ρ} {id : ConnectionId} :
    Follows A e (s.onClose r id) := by
  have hstep : e.step (.close r id)
      = some (e.setReactor r ((e.reactors r).removeConnection id)) := rfl
  refine .step hstep ⟨Engine.step_inv h.inv hstep, h.workers, ?_, h.written, fun q c => ?_,
    fun q c session hsession => ?_, fun q c session hsession hopened => ?_, h.parsed,
    fun q c hc => h.fresh q c ?_⟩
  · show Function.update e.reactors r _ = Function.update s.threads.reactors r _
    rw [h.reactors]
  · show put s.sessions r id none q c ≠ none ↔ _
    rw [put_apply, Engine.reactors_setReactor]
    by_cases hq : q = r
    · subst hq
      rw [if_pos rfl]
      show _ ↔ c ∈ (e.reactors q).connections.erase id
      rw [Finset.mem_erase]
      -- The keys are those from before without the one.
      by_cases hc : c = id
      · simp [hc]
      · simp [hc, h.present]
    · simp [hq, h.present]
  · replace hsession : put s.sessions r id none q c = some session := hsession
    by_cases hqc : q = r ∧ c = id
    · obtain ⟨rfl, rfl⟩ := hqc
      rw [put_self] at hsession
      cases hsession
    · rw [put_of_ne hqc] at hsession
      exact h.id q c session hsession
  · replace hsession : put s.sessions r id none q c = some session := hsession
    by_cases hqc : q = r ∧ c = id
    · obtain ⟨rfl, rfl⟩ := hqc
      rw [put_self] at hsession
      cases hsession
    · rw [put_of_ne hqc] at hsession
      exact h.opened q c session hsession hopened
  · rw [Engine.reactors_setReactor] at hc
    by_cases hq : q = r
    · subst hq
      rw [if_pos rfl] at hc
      exact hc
    · rw [if_neg hq] at hc
      exact hc

/-! ### Steps and runs -/

/-- The engine can follow each step of the server. -/
theorem Represents.step (hopts : opts.Serves) (h : Represents A s e) {a : Action ρ n}
    (hs : s.step opts A a = some s') : Follows A e s' := by
  cases next_of_step hs with
  | connect hfree hcnt hconn => exact h.connect hopts hcnt hconn
  | callback hsession hfree hpermits hreturns hperform =>
    exact h.callback hsession hfree hpermits hperform
  | close hsession hfree hclosing => exact h.close
  | thread hpushes hthreads => exact follows_thread h hpushes hthreads

/-- The engine before the first connection. -/
def engineInit : Engine ρ n where
  workers _ := .init
  reactors _ := { connectionCnt := 0, connections := ∅, replies := [], swapped := [] }
  dispatched _ _ := []
  written _ _ := []

omit [DecidableEq ρ] in
/-- The engine at the start has no connection and nothing in a queue. -/
theorem initial_engineInit : (engineInit : Engine ρ n).Initial where
  workers _ := rfl
  known _ id hid := absurd hid (Finset.notMem_empty id)
  replies _ := ⟨rfl, rfl⟩
  dispatched _ _ := rfl
  written _ _ := rfl

/-- The server at the start is in the state of that engine. -/
theorem represents_init : Represents A (init : Server ρ n) engineInit where
  inv := initial_engineInit.inv
  workers := rfl
  reactors := rfl
  written := rfl
  present r id := by
    show (none : Option Session) ≠ none ↔ id ∈ (∅ : Finset ConnectionId)
    simp
  id r id session hsession := nomatch hsession
  opened r id session hsession := nomatch hsession
  parsed r id := .of_drain (Scanner.drain_more rfl)
  fresh r id _ := rfl

/-- A run of the server is followed by a run of the engine. -/
theorem represents_of_run (hopts : opts.Serves) {path : List (Server ρ n × Action ρ n)}
    (hrun : Transition.Run (step opts A) init path s) :
    ∃ path' e, Transition.Run Engine.step engineInit path' e ∧ Represents A s e :=
  hrun.simulation (fun _ _ _ _ h hs => h.step hopts hs) represents_init

end Server

end VectorEngine
