import VectorEngine.Proofs.Server.Threads

/-!
# `VectorEngine.Proofs.Server.Answers`: what a client gets back

`answers` is what the server is for: it parses the bytes of a client and puts the replies to
the commands one behind the other. It knows nothing of reads, buffers, threads and queues.

* `written_of_run`: whatever the clients send and however the threads interleave, a connection
  is only ever written a front part of the answers to its own bytes, and what is missing for an
  open connection is on its way.
* `answered_of_run`: when the clients pause, the threads come to rest, and each open connection
  has been written exactly the answers to its bytes.
* `written_comparable`: what a connection is written depends on its own bytes and on nothing
  else. Two servers that got the same bytes on a connection differ in how far they are.
-/

set_option autoImplicit false

namespace VectorEngine

open VectorEngine.Resp
open VectorEngine.Stream
open VectorEngine.Transition

/-- A server that has one client and does one thing after another. -/
def answers (A : Allocator) (R : ByteString) : Except Abrupt ByteString := do
  let (cmds, _) ← parse A R
  return cmds.flatMap replyOf

/-- What a server with one client answers can be read off the commands in the bytes. -/
theorem answers_of_drain {A : Allocator} {R : ByteString} (hR : R.length < 2 ^ 64)
    {cmds : List RespCommand} {rest : List Byte}
    (h : (scanCommand A).drain R = .ok (cmds, rest)) :
    answers A R = .ok (cmds.flatMap replyOf) := by
  obtain ⟨k, hparse, -⟩ := parse_of_drain hR h
  rw [answers, hparse]
  rfl

/-- More bytes do not change the commands in front of them. -/
theorem drain_front {A : Allocator} {R R' : ByteString} (hle : R <+: R')
    {cmds cmds' : List RespCommand} {rest rest' : List Byte}
    (h : (scanCommand A).drain R = .ok (cmds, rest))
    (h' : (scanCommand A).drain R' = .ok (cmds', rest')) : cmds <+: cmds' := by
  obtain ⟨x, rfl⟩ := hle
  obtain ⟨front, new, l', hfront, -, rfl⟩ :=
    Scanner.drain_ok_of_append (stable_scanCommand A) (consumes_scanCommand A) h'
  rw [h] at hfront
  cases hfront
  exact List.prefix_append _ _

namespace Server

variable {ρ : Type} [DecidableEq ρ] {n : Nat}
variable {opts : ReactorOptions} {A : Allocator} {s s' : Server ρ n} {e : Engine ρ n}

omit [DecidableEq ρ] in
/-- The replies to a connection that are in its reactor, and those that its worker will still
compute. -/
def onTheWay (s : Server ρ n) (r : ρ) (id : ConnectionId) : ByteString :=
  repliesFor id (s.threads.reactors r).pending
    ++ batchesFor r id (s.threads.workers (WorkerPool.fetch n id)).pending

/-- The bytes that the engine accounts for are those that the server has written and those that
are on their way. -/
theorem Represents.flow (h : Represents A s e) (r : ρ) (id : ConnectionId) :
    e.flow r id = s.written r id ++ s.onTheWay r id := by
  unfold Engine.flow onTheWay
  rw [h.written, h.reactors, h.workers, List.append_assoc]

/-- An open connection: all replies to its bytes are written or on their way. -/
theorem Represents.answers_opened (h : Represents A s e) {r : ρ} {id : ConnectionId}
    {session : Session} (hsession : s.sessions r id = some session)
    (hopened : session.status = .opened) (hsize : (s.received r id).length < 2 ^ 64) :
    answers A (s.received r id) = .ok (s.written r id ++ s.onTheWay r id) := by
  have hmem : id ∈ (e.reactors r).connections := (h.present r id).mp (by simp [hsession])
  have hflow := h.inv.opened r id hmem
  rw [h.flow] at hflow
  rw [answers_of_drain hsize (h.opened r id session hsession hopened).drain, hflow]
  rfl

/-- Any connection, closed or not. -/
theorem Represents.written_front (h : Represents A s e) (r : ρ) (id : ConnectionId) :
    ∃ front cmds rest, front <+: s.received r id ∧
      (scanCommand A).drain front = .ok (cmds, rest) ∧
      s.written r id <+: cmds.flatMap replyOf := by
  obtain ⟨front, rest, hfront, hdrain⟩ := h.parsed r id
  have hwritten := h.inv.front_written r id
  rw [h.written] at hwritten
  exact ⟨front, _, rest, hfront, hdrain, hwritten⟩

/-- **A client gets the replies to its own requests, in order and once.** In every state that
any interleaving of reads, callbacks and threads leads to: what was written to a connection is a
front part of the answers to what was received on it, up to some byte. For a connection that is
open this is the last byte received, and what was not written yet is on its way. -/
theorem written_of_run (hopts : opts.Serves) {path : List (Server ρ n × Action ρ n)}
    (hrun : Run (step opts A) init path s) (r : ρ) (id : ConnectionId)
    (hsize : (s.received r id).length < 2 ^ 64) :
    (∃ front out, front <+: s.received r id ∧ answers A front = .ok out ∧
      s.written r id <+: out) ∧
    ∀ session, s.sessions r id = some session → session.status = .opened →
      answers A (s.received r id) = .ok (s.written r id ++ s.onTheWay r id) := by
  obtain ⟨-, e, -, h⟩ := represents_of_run hopts hrun
  constructor
  · obtain ⟨front, cmds, rest, hfront, hdrain, hwritten⟩ := h.written_front r id
    have hlength : front.length < 2 ^ 64 := Nat.lt_of_le_of_lt hfront.length_le hsize
    exact ⟨front, _, hfront, answers_of_drain hlength hdrain, hwritten⟩
  · intro session hsession hopened
    exact h.answers_opened hsession hopened hsize

/-- Two reactors, of which one gets a `PING` in two reads. -/
def pingReads : List (Action Bool 0) :=
  [.connect true true, .connect false true, .callback true 0 (.event (.alloc 64)),
    .callback true 0 (.event (.data (pingFrame.take 7))), .callback true 0 (.event (.alloc 64)),
    .callback true 0 (.event (.data (pingFrame.drop 7)))]

/-- What the threads do with it. -/
def pingSteps : List (Action Bool 0) :=
  [.thread (.notify (.loop true)), .thread (.fetch (.last 0)), .thread (.run (.last 0)),
    .thread (.notify (.worker (.last 0))), .thread (.start true), .thread (.swap true),
    .thread (.write true)]

/-- The options of the example are options that a server can have. -/
theorem serves_bufferOptions : Service.bufferOptions.Serves where
  min_pos := by decide
  min_le := by decide
  max_le := by decide
  resp := rfl

/-- The server behind `pingReads`. -/
def pingServer : Server Bool 0 :=
  (exec (step Service.bufferOptions .ample) init pingReads).get (by decide +kernel)

/-- The run of `pingReads` ends in `pingServer`. -/
theorem exec_pingReads :
    exec (step Service.bufferOptions .ample) init pingReads = some pingServer := by
  unfold pingServer
  exact (Option.some_get _).symm

/-- Its first connection is open. -/
theorem opened_pingServer :
    ∃ session, pingServer.sessions true 0 = some session ∧ session.status = .opened :=
  Option.map_eq_some_iff.mp (by decide +kernel)

/-- The server that has written the reply. -/
def pongServer : Server Bool 0 :=
  (exec (step Service.bufferOptions .ample) init (pingReads ++ pingSteps)).get (by decide +kernel)

/-- The run of `pingSteps` behind it ends in `pongServer`. -/
theorem exec_pingSteps :
    exec (step Service.bufferOptions .ample) init (pingReads ++ pingSteps) = some pongServer := by
  unfold pongServer
  exact (Option.some_get _).symm

/-- In this run the reply is written, and it is what the bytes of the connection alone determine.
-/
theorem written_of_run_ping :
    ∃ path s, Run (step Service.bufferOptions .ample) (init : Server Bool 0) path s ∧
      s.written true 0 = bytesOf "+PONG\r\n" ∧
      ∃ front out, front <+: s.received true 0 ∧ answers .ample front = .ok out ∧
        s.written true 0 <+: out := by
  obtain ⟨path, hrun, -⟩ := Run.exec (pingReads ++ pingSteps) .nil exec_pingSteps
  exact ⟨path, pongServer, hrun, by decide +kernel,
    (written_of_run serves_bufferOptions hrun true 0 (by decide +kernel)).1⟩

/-- **Connections do not interfere.** Take two servers with any reactors, pools, limits and
other clients, and a connection of each, such that the bytes received on the one are a front
part of those received on the other. Then the replies are the same as far as both were
written. -/
theorem written_comparable {ρ' : Type} [DecidableEq ρ'] {n' : Nat} {opts' : ReactorOptions}
    (hopts : opts.Serves) (hopts' : opts'.Serves) {path : List (Server ρ n × Action ρ n)}
    (hrun : Run (step opts A) init path s) {s' : Server ρ' n'}
    {path' : List (Server ρ' n' × Action ρ' n')} (hrun' : Run (step opts' A) init path' s')
    {r : ρ} {r' : ρ'} {id id' : ConnectionId}
    (hreceived : s.received r id <+: s'.received r' id') :
    s.written r id <+: s'.written r' id' ∨ s'.written r' id' <+: s.written r id := by
  obtain ⟨-, e, -, h⟩ := represents_of_run hopts hrun
  obtain ⟨-, e', -, h'⟩ := represents_of_run hopts' hrun'
  obtain ⟨front, cmds, rest, hfront, hdrain, hwritten⟩ := h.written_front r id
  obtain ⟨front', cmds', rest', hfront', hdrain', hwritten'⟩ := h'.written_front r' id'
  -- Both are front parts of the answers to the longer of the two fronts.
  have hflat : ∀ {cs ds : List RespCommand}, cs <+: ds →
      cs.flatMap replyOf <+: ds.flatMap replyOf := by
    rintro cs _ ⟨x, rfl⟩
    rw [List.flatMap_append]
    exact List.prefix_append _ _
  rcases List.prefix_or_prefix_of_prefix (hfront.trans hreceived) hfront' with hle | hle
  · exact List.prefix_or_prefix_of_prefix (hwritten.trans (hflat (drain_front hle hdrain hdrain')))
      hwritten'
  · exact List.prefix_or_prefix_of_prefix hwritten
      (hwritten'.trans (hflat (drain_front hle hdrain' hdrain)))

/-- The server of `pingReads` before and after its threads have taken their steps. The same bytes
were received in both, and what the one has written, which is nothing yet, is a front part of what
the other has. -/
theorem written_comparable_ping :
    ∃ path s path' s', Run (step Service.bufferOptions .ample) (init : Server Bool 0) path s ∧
      Run (step Service.bufferOptions .ample) (init : Server Bool 0) path' s' ∧
      s.written true 0 = [] ∧ s'.written true 0 = bytesOf "+PONG\r\n" ∧
      (s.written true 0 <+: s'.written true 0 ∨ s'.written true 0 <+: s.written true 0) := by
  obtain ⟨path, hrun, -⟩ := Run.exec pingReads .nil exec_pingReads
  obtain ⟨path', hrun', -⟩ := Run.exec (pingReads ++ pingSteps) .nil exec_pingSteps
  exact ⟨path, pingServer, path', pongServer, hrun, hrun', by decide +kernel, by decide +kernel,
    written_comparable serves_bufferOptions serves_bufferOptions hrun hrun'
      ⟨[], by decide +kernel⟩⟩

/-! ### At rest -/

omit [DecidableEq ρ] in
/-- What the threads do between two callbacks, without a reason from outside: the steps of the
workers and those of `_on_reply`. An `on_close` is left out, although the loop makes it without
its client once `uv_close` was called. It deletes a connection that is not open any more, so that
nothing that is stated of open connections depends on whether it has come. -/
def Action.Own : Action ρ n → Prop
  | .thread a => a.Own
  | .connect _ _ | .callback _ _ _ | .close _ _ => False

omit [DecidableEq ρ] in
/-- What the threads do by themselves pushes nothing from outside. -/
theorem pushes_of_own {a : Wakeup.Action Empty (Fin (n + 1)) ρ} (hown : a.Own) :
    a.pushes = false := by
  cases a with
  | submit caller w batchTask => exact hown.elim
  | send t r replies => exact hown.elim
  | _ => rfl

/-- When the server is at rest, so are its threads. -/
theorem threads_atRest (h : AtRest (step opts A) Action.Own s) :
    AtRest Wakeup.step Wakeup.Action.Own s.threads := by
  intro a hown
  have hstep : s.step opts A (.thread a) = none := h (.thread a) hown
  have hpushes := pushes_of_own hown
  rw [Server.step, if_pos hpushes] at hstep
  exact Option.map_eq_none_iff.mp hstep

/-- When the threads rest, nothing is on its way. -/
theorem Represents.onTheWay_eq_nil (h : Represents A s e) (hunstopped : e.Unstopped)
    (hsettled : s.threads.Settled) (r : ρ) (id : ConnectionId) : s.onTheWay r id = [] := by
  have hreactor : (s.threads.reactors r).pending = [] := by
    rw [Reactor.pending, (hsettled.reactor r).1, (hsettled.reactor r).2, List.nil_append]
  have hworker : (s.threads.workers (WorkerPool.fetch n id)).pending = [] := by
    have hphase := (hunstopped (WorkerPool.fetch n id)).1
    rw [h.workers] at hphase
    obtain ⟨-, -, hqueue⟩ := (hsettled.worker (WorkerPool.fetch n id)).resolve_left hphase
    rw [Worker.pending, hsettled.tasks, hqueue, List.nil_append]
  rw [onTheWay, hreactor, hworker]
  rfl

/-- A write is recorded, and nothing else. -/
theorem recordWrite_frame (s : Server ρ n) (a : Wakeup.Action Empty (Fin (n + 1)) ρ) :
    (s.recordWrite a).sessions = s.sessions ∧ (s.recordWrite a).received = s.received := by
  unfold recordWrite
  split
  · split <;> exact ⟨rfl, rfl⟩
  · exact ⟨rfl, rfl⟩

variable [Fintype ρ]

/-- A step of the threads leaves the connections alone. -/
theorem own_step {a : Action ρ n} (hown : a.Own) (hs : s.step opts A a = some s') :
    s'.sessions = s.sessions ∧ s'.received = s.received ∧
      s'.threads.remaining < s.threads.remaining := by
  cases next_of_step hs with
  | connect hfree hcnt hconn => exact hown.elim
  | callback hsession hfree hpermits hreturns hperform => exact hown.elim
  | close hsession hfree hclosing => exact hown.elim
  | @thread a threads hpushes hthreads =>
    obtain ⟨hsessions, hreceived⟩ := recordWrite_frame s a
    exact ⟨hsessions, hreceived, Wakeup.remaining_own hown hthreads⟩

/-- What the threads do by themselves, step by step. -/
theorem own_step_keeps (opts : ReactorOptions) (A : Allocator) (s : Server ρ n) :
    ∀ (t : Server ρ n) (a : Action ρ n) (t' : Server ρ n),
      t.sessions = s.sessions ∧ t.received = s.received → a.Own → t.step opts A a = some t' →
        (t'.sessions = s.sessions ∧ t'.received = s.received) ∧
          t'.threads.remaining < t.threads.remaining := by
  intro t a t' h hown hs
  obtain ⟨hsessions, hreceived, hlt⟩ := own_step hown hs
  exact ⟨⟨hsessions.trans h.1, hreceived.trans h.2⟩, hlt⟩

/-- The threads come to rest on their own. Their steps are bounded, and where none of them is
possible they are at rest, so that some such run reaches it. -/
theorem exists_rest (opts : ReactorOptions) (A : Allocator) (s : Server ρ n) :
    ∃ path' s', Run (step opts A) s path' s' ∧ (∀ p ∈ path', p.2.Own) ∧
      (s'.sessions = s.sessions ∧ s'.received = s.received) ∧
      AtRest (step opts A) Action.Own s' := by
  obtain ⟨path', s', hrun, hown, hkept, hrest, -⟩ :=
    Run.exists_rest (own_step_keeps opts A s) s ⟨rfl, rfl⟩
  exact ⟨path', s', hrun, hown, hkept, hrest⟩

/-- **Every request is answered.** From any state that can be reached, when the clients pause,
the threads come to rest after `remaining` steps at most, whatever their order, and such a state
can be reached. Then each open connection has been written the answers to all that was received
on it, and nothing else. -/
theorem answered_of_run (hopts : opts.Serves) {path : List (Server ρ n × Action ρ n)}
    (hrun : Run (step opts A) init path s) :
    (∀ path' s', Run (step opts A) s path' s' → (∀ p ∈ path', p.2.Own) →
      path'.length ≤ s.threads.remaining ∧
      (AtRest (step opts A) Action.Own s' → ∀ r id session,
        s.sessions r id = some session → session.status = .opened →
        (s.received r id).length < 2 ^ 64 →
        answers A (s.received r id) = .ok (s'.written r id))) ∧
    ∃ path' s', Run (step opts A) s path' s' ∧ (∀ p ∈ path', p.2.Own) ∧
      AtRest (step opts A) Action.Own s' := by
  constructor
  · intro path' s' hrun' hown
    obtain ⟨⟨hsessions, hreceived⟩, hlength⟩ :=
      hrun'.length_le (own_step_keeps opts A s) ⟨rfl, rfl⟩ hown
    refine ⟨by omega, fun hrest r id session hsession hopened hsize => ?_⟩
    -- The two runs are one run, which the engine follows.
    obtain ⟨steps, e, hengine, h⟩ := represents_of_run hopts (hrun.append hrun')
    have hsound := sound_of_run sound_init (hrun.append hrun')
    -- At rest nothing is on its way, so that what is written is all.
    have hsettled := Wakeup.settled_of_atRest hsound.attended hsound.placed (threads_atRest hrest)
    rw [← hsessions] at hsession
    rw [← hreceived] at hsize ⊢
    rw [h.answers_opened hsession hopened hsize,
      h.onTheWay_eq_nil (Engine.unstopped_of_run initial_engineInit hengine) hsettled,
      List.append_nil]
  · obtain ⟨path', s', hrun', hown, -, hrest⟩ := exists_rest opts A s
    exact ⟨path', s', hrun', hown, hrest⟩

/-- After `pingReads` the threads can be left to themselves until the `PING` is answered. Nothing
is written at first, and at rest the client has the answer to all that it has sent. -/
theorem answered_of_run_ping :
    ∃ path s path' s', Run (step Service.bufferOptions .ample) (init : Server Bool 0) path s ∧
      s.written true 0 = [] ∧ s.received true 0 = pingFrame ∧
      Run (step Service.bufferOptions .ample) s path' s' ∧
      answers .ample (s.received true 0) = .ok (s'.written true 0) := by
  obtain ⟨path, hrun, -⟩ := Run.exec pingReads .nil exec_pingReads
  obtain ⟨hall, path', s', hrun', hown, hrest⟩ := answered_of_run serves_bufferOptions hrun
  obtain ⟨session, hsession, hstatus⟩ := opened_pingServer
  exact ⟨path, pingServer, path', s', hrun, by decide +kernel, by decide +kernel, hrun',
    (hall path' s' hrun' hown).2 hrest true 0 session hsession hstatus (by decide +kernel)⟩

end Server

end VectorEngine
