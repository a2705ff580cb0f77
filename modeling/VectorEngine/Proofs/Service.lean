import Mathlib.Logic.Relation
import VectorEngine.Proofs.Pool
import VectorEngine.Proofs.ReactorLoop.Next
import VectorEngine.Service

/-!
# `VectorEngine.Proofs.Service`: what becomes of the requests that are taken out of a buffer

A batch in the queue of a worker is run if the worker swaps its queue out once more. The
worker does so unless its thread has exited, or it has a sentinel in the list that it is
running (`WorkerLog.Accepts`). `WorkerLog.runs_iff` says that a batch which is neither in the
list nor in the queue of such a worker can be left behind.

`dispatch` does not look at that. It submits to any worker that is there, and when `fetch`
throws because the worker is gone, it drops the request without a word. So no request vanishes
in a run if and only if each `dispatch` of the run finds its worker in its slot, and submits
before the worker has swapped out its last list.
-/

set_option autoImplicit false

namespace VectorEngine

open VectorEngine.Memory
open VectorEngine.Transition

variable {ρ : Type} {n : Nat}

/-! ### What a worker will run -/

namespace WorkerLog

variable {l l' : WorkerLog ρ} {k : Nat}

/-- The thread will swap out its queue again. It has not exited, has passed no sentinel in this
round, and has none in its list. -/
structure Accepts (l : WorkerLog ρ) : Prop where
  phase : l.worker.phase ≠ .exited
  stopThread : l.worker.stopThread = false
  tasks : ∀ b ∈ l.worker.tasks, b.isBatch = true

/-- Whether a worker accepts can be looked at in its phase, its flag and its list. -/
instance (l : WorkerLog ρ) : Decidable l.Accepts :=
  decidable_of_iff (l.worker.phase ≠ .exited ∧ l.worker.stopThread = false ∧
      ∀ b ∈ l.worker.tasks, b.isBatch = true)
    ⟨fun h => ⟨h.1, h.2.1, h.2.2⟩, fun h => ⟨h.phase, h.stopThread, h.tasks⟩⟩

/-- What was pushed at place `k` was run, or is in the list, or is in the queue of a worker that
accepts. -/
def Covers (l : WorkerLog ρ) (k : Nat) : Prop :=
  k < l.passed.length + l.worker.tasks.length ∨ l.Accepts ∧ k < l.pushed.length

/-- The steps of the threads lead from one state of the worker to the other. -/
abbrev Reaches : WorkerLog ρ → WorkerLog ρ → Prop := Relation.ReflTransGen Next

/-- What was pushed at place `k` was run, or will be run before the thread exits. -/
def Runs (l : WorkerLog ρ) (k : Nat) : Prop :=
  k < l.pushed.length ∧
    ∀ l', l.Reaches l' → l'.worker.phase = .exited → k < l'.passed.length

/-- What was pushed was passed, or is in the list, or is in the queue. -/
theorem length_pushed (h : l.Inv) :
    l.pushed.length = l.passed.length + l.worker.tasks.length + l.worker.queue.length := by
  rw [h.order, List.length_append, Nat.add_assoc]
  congr 1
  exact List.length_append

/-- A place that is covered stays so in every step: the worker can leave its loop only by a
sentinel, and one that accepts has none in its list. -/
theorem Covers.next (hcovers : l.Covers k) (h : l.Inv) (hnext : l.Next l') : l'.Covers k := by
  have hgrown : l.pushed.length ≤ l'.pushed.length := hnext.pushed.length_le
  cases hnext with
  -- What is pushed goes behind the place `k`.
  | submit reactor id tasks =>
    exact hcovers.imp_right fun hq => ⟨⟨hq.1.phase, hq.1.stopThread, hq.1.tasks⟩,
      Nat.lt_of_lt_of_le hq.2 hgrown⟩
  | stop =>
    exact hcovers.imp_right fun hq => ⟨⟨hq.1.phase, hq.1.stopThread, hq.1.tasks⟩,
      Nat.lt_of_lt_of_le hq.2 hgrown⟩
  | fetch hs =>
    -- the whole queue is in the list now
    obtain ⟨worker, hfetch, rfl⟩ := Option.map_eq_some_iff.mp hs
    obtain ⟨hphase, rfl⟩ := Worker.fetchTasks_cases hfetch
    have hlength := length_pushed h
    rw [h.calm.tasks hphase, List.length_nil] at hlength
    left
    show k < l.passed.length + l.worker.queue.length
    rcases hcovers with hk | ⟨-, hk⟩
    · rw [h.calm.tasks hphase, List.length_nil] at hk
      omega
    · omega
  | run hs =>
    -- The head of the list is passed. The sum of what is passed and listed stays, and a worker
    -- that accepts has no sentinel at the head.
    obtain ⟨b, rest, htasks, -, -, hpushed, hpassed, -, hphase, hrest, hstop⟩ :=
      run_cases h.calm hs
    rcases hcovers with hk | ⟨haccepts, hk⟩
    · left
      rw [htasks, List.length_cons] at hk
      rw [hpassed, hrest, List.length_append, List.length_singleton]
      omega
    · refine Or.inr ⟨⟨?_, ?_, ?_⟩, hpushed ▸ hk⟩
      · rw [hphase]
        exact fun heq => nomatch heq
      · rw [hstop, haccepts.stopThread, haccepts.tasks b (by simp [htasks])]
        rfl
      · rw [hrest]
        exact fun c hc => haccepts.tasks c (by simp [htasks, hc])
  | finish hs =>
    obtain ⟨worker, hfinish, rfl⟩ := Option.map_eq_some_iff.mp hs
    obtain ⟨-, -, rfl⟩ := Worker.finishRound_cases hfinish
    -- A worker that accepts has passed no sentinel, so that it does not exit here.
    refine hcovers.imp_right fun hq => ⟨⟨?_, hq.1.stopThread, hq.1.tasks⟩, hq.2⟩
    rw [hq.1.stopThread]
    exact fun heq => nomatch heq

/-- A thread that has exited has run what is covered. -/
theorem Covers.of_exited (hcovers : l.Covers k) (h : l.Inv) (hexited : l.worker.phase = .exited) :
    k < l.passed.length := by
  rcases hcovers with hk | ⟨haccepts, -⟩
  · rw [(h.exited hexited).2] at hk
    exact hk
  · exact absurd hexited haccepts.phase

/-- It is covered in every state from there on. -/
theorem Covers.reaches (hcovers : l.Covers k) (h : l.Inv) (hreach : l.Reaches l') :
    l'.Covers k ∧ l'.Inv := by
  induction hreach with
  | refl => exact ⟨hcovers, h⟩
  | tail _ hnext ih => exact ⟨ih.1.next ih.2 hnext, ih.2.next hnext⟩

/-- A worker that runs a list with a sentinel in it can run the rest of the list and exit. -/
theorem exits_of_stop (tasks : List (BatchTask ρ)) : ∀ {l : WorkerLog ρ}, l.Inv →
    l.worker.phase = .running → l.worker.tasks = tasks →
    (l.worker.stopThread = true ∨ ∃ b ∈ tasks, b.isBatch = false) →
    ∃ l', l.Reaches l' ∧ l'.worker.phase = .exited ∧
      l'.passed.length = l.passed.length + tasks.length := by
  -- Along the list the sentinel is remembered in `stopThread`, or it is still in front.
  induction tasks with
  | nil =>
    intro l h hphase htasks hstop
    have hstopped : l.worker.stopThread = true :=
      hstop.resolve_right fun ⟨b, hb, _⟩ => nomatch hb
    have hfinish : l.worker.finishRound = some { l.worker with phase := .exited } := by
      rw [Worker.finishRound, if_pos ⟨hphase, htasks⟩, if_pos hstopped]
    have hs : l.finish = some { l with worker := { l.worker with phase := .exited } } := by
      rw [WorkerLog.finish, hfinish]
      rfl
    exact ⟨_, .single (.finish hs), rfl, rfl⟩
  | cons b tasks ih =>
    intro l h hphase htasks hstop
    -- A thread with something in its list can go on.
    obtain ⟨l₁, hs⟩ : ∃ l₁, l.run = some l₁ := by
      have hsome : l.run.isSome = true := by
        rw [WorkerLog.run, Option.isSome_map]
        unfold Worker.runNext
        rw [hphase, htasks]
        cases hreactor : b.reactor with
        | none => simp only [hreactor, Option.isSome_some]
        | some r => simp only [hreactor, Option.isSome_some]
      exact Option.isSome_iff_exists.mp hsome
    obtain ⟨c, rest, hfront, -, -, -, hpassed, -, hphase₁, htasks₁, hstop₁⟩ := run_cases h.calm hs
    rw [htasks] at hfront
    obtain ⟨rfl, rfl⟩ := List.cons.inj hfront
    -- A sentinel at the head is remembered now, and one behind it is still in front.
    have hagain : l₁.worker.stopThread = true ∨ ∃ c ∈ tasks, c.isBatch = false := by
      rw [hstop₁]
      rcases hstop with hstop | ⟨c, hc, hnot⟩
      · left
        rw [hstop, Bool.true_or]
      · rcases List.mem_cons.mp hc with rfl | hc
        · left
          rw [hnot, Bool.not_false, Bool.or_true]
        · exact Or.inr ⟨c, hc, hnot⟩
    obtain ⟨l', hreach, hexited, hlength⟩ := ih (h.run hs) hphase₁ htasks₁ hagain
    refine ⟨l', .head (.run hs) hreach, hexited, ?_⟩
    rw [hlength, hpassed, List.length_append]
    show l.passed.length + 1 + tasks.length = l.passed.length + (tasks.length + 1)
    omega

/-- What is covered is what will be run. -/
theorem runs_iff (h : l.Inv) (hk : k < l.pushed.length) : l.Runs k ↔ l.Covers k := by
  constructor
  · -- A worker that does not accept can exit at the end of its list, before the place `k`.
    intro hruns
    by_contra hnot
    have hbehind : l.passed.length + l.worker.tasks.length ≤ k := by
      by_contra hlt
      exact hnot (Or.inl (Nat.lt_of_not_le hlt))
    have hrefuses : ¬ l.Accepts := fun haccepts => hnot (Or.inr ⟨haccepts, hk⟩)
    cases hphase : l.worker.phase with
    -- It has run all that it ever will.
    | exited =>
      have hpassed : k < l.passed.length := hruns.2 l .refl hphase
      omega
    | fetching =>
      -- A thread that waits has nothing in its list, and accepts.
      refine hrefuses ⟨?_, h.fetching hphase, ?_⟩
      · rw [hphase]
        exact fun heq => nomatch heq
      · rw [h.calm.tasks hphase]
        exact fun b hb => nomatch hb
    | running =>
      -- A thread that is in its list and does not accept has met a sentinel or will meet one.
      have hstop : l.worker.stopThread = true ∨ ∃ b ∈ l.worker.tasks, b.isBatch = false := by
        by_contra hneither
        rw [not_or] at hneither
        refine hrefuses ⟨?_, Bool.eq_false_of_not_eq_true hneither.1, fun b hb => ?_⟩
        · rw [hphase]
          exact fun heq => nomatch heq
        · by_contra hb'
          exact hneither.2 ⟨b, hb, Bool.eq_false_of_not_eq_true hb'⟩
      obtain ⟨l', hreach, hexited, hlength⟩ := exits_of_stop l.worker.tasks h hphase rfl hstop
      have hpassed : k < l'.passed.length := hruns.2 l' hreach hexited
      omega
  · intro hcovers
    refine ⟨hk, fun l' hreach hexited => ?_⟩
    obtain ⟨hcovers', h'⟩ := hcovers.reaches h hreach
    exact hcovers'.of_exited h' hexited

end WorkerLog

/-- A step of a pool leaves a worker as it is, or it is a step of it. -/
theorem Pool.Next.lanes {s s' : Pool ρ n} (hnext : s.Next s') (v : Fin (n + 1)) :
    s'.lanes v = s.lanes v ∨ (s.lanes v).Next (s'.lanes v) := by
  cases hnext with
  | @lane w l phase hl hstart halive =>
    by_cases hvw : v = w
    · right
      show (s.lanes v).Next ((s.setLane w l).lanes v)
      rw [hvw, setLane_self]
      exact hl
    · exact Or.inl (setLane_of_ne hvw l)
  | start hphase => exact Or.inl rfl
  | join hphase hexited halive => exact Or.inl rfl

/-! ### What a callback asks for -/

section Callback

variable {A : Allocator} {conn conn' : Connection} {nread : Int} {effects : List Effect}

/-- What a session is after its `on_read`. -/
theorem handle_read {s : Session} {c : Callback} (h : s.readOf c = some (conn, nread)) :
    ∃ grant, s.handle A c = { s with grant := grant }.afterRead (conn.onRead A nread) ∧
      conn.id = s.conn.id := by
  cases c with
  | event e =>
    cases e with
    | alloc suggestedSize => cases h
    | data bytes =>
      cases h
      exact ⟨0, rfl, rfl⟩
    | idle =>
      cases h
      exact ⟨s.grant, rfl, rfl⟩
  | failed m =>
    cases h
    exact ⟨s.grant, rfl, rfl⟩

/-- What a callback asks for is what its `on_read` asks for. -/
theorem effects_read {s : Session} {c : Callback} (h : s.readOf c = some (conn, nread))
    (hout : conn.onRead A nread = .ok (conn', effects)) : s.effects A c = effects := by
  rw [Session.effects, h]
  simp only [hout]

/-- A callback that returns dispatches no tasks, or dispatches some and leaves the connection
open. -/
theorem handle_cases (A : Allocator) (s : Session) (c : Callback) (client : Ptr) :
    (∃ e, (s.handle A c).status = .crashed e) ∨
      ((DispatchPhase.after client (s.effects A c) : DispatchPhase n) = .idle ∧
        (s.handle A c).dispatched = s.dispatched) ∨
      ∃ tasks, (DispatchPhase.after client (s.effects A c) : DispatchPhase n)
          = .fetching client s.conn.id tasks ∧
        (s.handle A c).dispatched = s.dispatched ++ [tasks] ∧
        (s.handle A c).status = s.status := by
  cases hread : s.readOf c with
  | none =>
    -- Only an `on_alloc` does not read.
    obtain ⟨suggestedSize, rfl⟩ : ∃ suggestedSize, c = .event (.alloc suggestedSize) := by
      cases c with
      | event e =>
        cases e with
        | alloc suggestedSize => exact ⟨suggestedSize, rfl⟩
        | data bytes => cases hread
        | idle => cases hread
      | failed nread => cases hread
    -- The assertions in `on_alloc` are the only way in which it can fail.
    cases halloc : s.conn.onAlloc suggestedSize with
    | error e =>
      left
      refine ⟨e, ?_⟩
      show (s.step A (.alloc suggestedSize)).status = _
      rw [Session.step, halloc]
    | ok out =>
      right
      left
      refine ⟨rfl, ?_⟩
      show (s.step A (.alloc suggestedSize)).dispatched = _
      rw [Session.step, halloc]
  | some read =>
    obtain ⟨conn, nread⟩ := read
    obtain ⟨grant, hhandle, hid⟩ := handle_read (A := A) hread
    rw [hhandle]
    cases hout : conn.onRead A nread with
    | error e => exact Or.inl ⟨e, rfl⟩
    | ok out =>
      right
      obtain ⟨conn', effects⟩ := out
      rw [effects_read hread hout]
      -- It has asked for nothing, or for `handle_close`, or for one `dispatch`.
      rcases (Connection.onRead_cases hout).2 with rfl | rfl | ⟨tasks, rfl⟩
      · exact Or.inl ⟨rfl, rfl⟩
      · exact Or.inl ⟨rfl, rfl⟩
      · refine Or.inr ⟨tasks, ?_, rfl, rfl⟩
        rw [← hid]
        rfl

end Callback

/-! ### What is accounted for -/

namespace Service

variable {opts : ReactorOptions} {A : Allocator} {self : ρ} {s s' : Service ρ n}
  {a : Action ρ n}

/-- The connection is there, and is not being closed. -/
def Open (s : Service ρ n) (client : Ptr) : Prop :=
  ∃ session, s.sessions.objects client = some session ∧ session.status = .opened

/-- The tasks are a batch that the worker of the connection has run, or will run before its
thread exits. -/
def Served (self : ρ) (s : Service ρ n) (request : Consumed) : Prop :=
  ∃ k, request.place = some k ∧
    (s.pool.lanes (WorkerPool.fetch n request.id)).pushed[k]? = some
      { tasks := request.tasks, connectionId := request.id, reactor := some self } ∧
    (s.pool.lanes (WorkerPool.fetch n request.id)).Runs k

/-- Between two callbacks, what was taken out of the read buffers is served, unless its
connection is closed or being closed. -/
def Accounted (self : ρ) (s : Service ρ n) : Prop :=
  s.loop = .idle → ∀ request ∈ s.consumed, s.Served self request ∨ ¬ s.Open request.client

/-- A step of a `dispatch` finds the worker there, and not yet past its last list. -/
def InTime (s : Service ρ n) : Action ρ n → Prop
  | .fetch => ∀ client id tasks, s.loop = .fetching client id tasks →
      s.pool.phase.present (WorkerPool.fetch n id) = true
  | .submit => ∀ w client id tasks, s.loop = .submitting w client id tasks →
      (s.pool.lanes w).Accepts
  | _ => True

/-- Whether a step is in time can be looked at in the place of the loop thread and in the worker
that it is about to use. -/
instance (s : Service ρ n) : DecidablePred s.InTime
  | .fetch =>
    match hloop : s.loop with
    | .fetching _ id _ =>
      decidable_of_iff (s.pool.phase.present (WorkerPool.fetch n id) = true)
        ⟨fun h _ _ _ heq => by cases hloop.symm.trans heq; exact h, fun h => h _ _ _ hloop⟩
    | .idle | .submitting _ _ _ _ => isTrue fun _ _ _ heq => by cases hloop.symm.trans heq
  | .submit =>
    match hloop : s.loop with
    | .submitting w _ _ _ =>
      decidable_of_iff (s.pool.lanes w).Accepts
        ⟨fun h _ _ _ _ heq => by cases hloop.symm.trans heq; exact h, fun h => h _ _ _ _ hloop⟩
    | .idle | .fetching _ _ _ => isTrue fun _ _ _ _ heq => by cases hloop.symm.trans heq
  | .other _ | .connect _ | .callback _ _ | .close _ => isTrue trivial

/-- The request that the loop thread is dispatching. -/
def inFlight (s : Service ρ n) (client : Ptr) : List (List Task) :=
  match s.loop with
  | .idle => []
  | .fetching p _ tasks | .submitting _ p _ tasks => if p = client then [tasks] else []

/-- The requests of a connection whose `dispatch` has returned. -/
def consumedBy (s : Service ρ n) (client : Ptr) : List (List Task) :=
  (s.consumed.filter fun request => request.client = client).map Consumed.tasks

/-- What holds in every state of a run. The pool keeps its own invariant, the connection that the
loop is dispatching for is open, and what a connection has dispatched is what is recorded as
consumed and what is in flight. -/
structure Inv (s : Service ρ n) : Prop where
  pool : s.pool.Inv
  heap : s.sessions.Wf
  known : ∀ request ∈ s.consumed, request.client < s.sessions.next
  fetching : ∀ client id tasks, s.loop = .fetching client id tasks → s.Open client
  submitting : ∀ w client id tasks, s.loop = .submitting w client id tasks →
    s.Open client ∧ w = WorkerPool.fetch n id
  /-- What a connection has dispatched is in `consumed`, or is being dispatched. -/
  history : ∀ client session, s.sessions.objects client = some session →
    s.consumedBy client ++ s.inFlight client = session.dispatched

/-! ### The steps -/

/-- What each step does. Guards are kept as hypotheses, since the proofs need to know in which
phase the loop was. -/
inductive Next (self : ρ) (s : Service ρ n) : Action ρ n → Service ρ n → Prop where
  | other {a : Pool.Action ρ n} {pool : Pool ρ n} (h : s.pool.Next pool) :
      Next self s (.other a) { s with pool := pool }
  | connect {accepted : Bool} {session : Session} (hidle : s.loop = .idle)
      (hnew : session.dispatched = []) :
      Next self s (.connect accepted) { s with sessions := s.sessions.new session }
  /-- The callback does not call `dispatch`. -/
  | callback {client : Ptr} {c : Callback} {session session' : Session} (hidle : s.loop = .idle)
      (hfound : s.sessions.objects client = some session)
      (hsame : session'.dispatched = session.dispatched) :
      Next self s (.callback client c)
        { s with sessions := s.sessions.store client session', loop := .idle }
  | request {client : Ptr} {c : Callback} {session session' : Session} {id : ConnectionId}
      {tasks : List Task} (hidle : s.loop = .idle)
      (hfound : s.sessions.objects client = some session)
      (hmore : session'.dispatched = session.dispatched ++ [tasks])
      (hopened : session'.status = .opened) :
      Next self s (.callback client c)
        { s with sessions := s.sessions.store client session', loop := .fetching client id tasks }
  | found {client : Ptr} {id : ConnectionId} {tasks : List Task}
      (hloop : s.loop = .fetching client id tasks)
      (hpresent : s.pool.phase.present (WorkerPool.fetch n id) = true) :
      Next self s .fetch { s with loop := .submitting (WorkerPool.fetch n id) client id tasks }
  /-- `fetch` throws. -/
  | dropped {client : Ptr} {id : ConnectionId} {tasks : List Task}
      (hloop : s.loop = .fetching client id tasks)
      (habsent : ¬ s.pool.phase.present (WorkerPool.fetch n id) = true) :
      Next self s .fetch
        (s.returned { client := client, id := id, tasks := tasks, place := none })
  | submitted {w : Fin (n + 1)} {client : Ptr} {id : ConnectionId} {tasks : List Task}
      (hloop : s.loop = .submitting w client id tasks) :
      Next self s .submit
        ({ s with pool := s.pool.setLane w ((s.pool.lanes w).submit
            { tasks := tasks, connectionId := id, reactor := some self }) }.returned
          { client := client, id := id, tasks := tasks
            place := some (s.pool.lanes w).pushed.length })
  /-- The worker was deleted after it was fetched. -/
  | lost {w : Fin (n + 1)} {client : Ptr} {id : ConnectionId} {tasks : List Task}
      (hloop : s.loop = .submitting w client id tasks)
      (hgone : s.pool.phase.alive w = false) :
      Next self s .submit
        (s.returned { client := client, id := id, tasks := tasks, place := none })
  | close {client : Ptr} {session : Session} (hidle : s.loop = .idle)
      (hfound : s.sessions.objects client = some session) :
      Next self s (.close client) { s with sessions := s.sessions.delete client }

/-- A client connects. -/
theorem next_of_onConnect {accepted : Bool} (hidle : s.loop = .idle)
    (hs : s.onConnect opts accepted = some s') : Next self s (.connect accepted) s' := by
  unfold onConnect at hs
  split at hs
  · cases hs
  · cases hs
    refine .connect hidle ?_
    split
    · rfl
    · rfl

/-- A callback of a connection takes some bytes and may call `dispatch`. -/
theorem next_of_callback {client : Ptr} {c : Callback} {session : Session}
    (hidle : s.loop = .idle) (hfound : s.sessions.objects client = some session)
    (hpermits : session.Permits c) (hs : s.callback A client session c = some s') :
    Next self s (.callback client c) s' := by
  unfold callback at hs
  split at hs
  · cases hs
  · rename_i hreturns
    cases hs
    rcases handle_cases (n := n) A session c client with
      ⟨e, hcrashed⟩ | ⟨hafter, hsame⟩ | ⟨tasks, hafter, hmore, hstatus⟩
    · exact absurd hcrashed (hreturns e)
    · rw [hafter]
      exact .callback hidle hfound hsame
    · rw [hafter]
      exact .request hidle hfound hmore (hstatus.trans hpermits.opened)

/-- `WorkerPool::fetch` picks the worker, or throws when there is none. In that case the loop is
idle again. -/
theorem next_of_fetch (hs : s.fetch = some s') : Next self s .fetch s' := by
  unfold fetch at hs
  split at hs
  · rename_i client id tasks hloop
    simp only at hs
    split at hs
    · rename_i hpresent
      cases hs
      exact .found hloop hpresent
    · rename_i habsent
      cases hs
      exact .dropped hloop habsent
  · cases hs

/-- `Worker::submit` pushes the batch, whatever the thread of the worker is doing. -/
theorem next_of_submit (hs : s.submit self = some s') : Next self s .submit s' := by
  unfold submit at hs
  split at hs
  · rename_i w client id tasks hloop
    split at hs
    · cases hs
      exact .submitted hloop
    · rename_i hgone
      cases hs
      exact .lost hloop (Bool.eq_false_of_not_eq_true hgone)
  · cases hs

/-- Every step is one of these, or a step of the pool. -/
theorem next_of_step (hs : s.step opts A self a = some s') : Next self s a s' := by
  cases a with
  | other a =>
    obtain ⟨pool, hpool, rfl⟩ := Option.map_eq_some_iff.mp hs
    exact .other (Pool.next_of_step hpool)
  | connect accepted =>
    obtain ⟨hidle, hs⟩ := Option.ite_none_right_eq_some.mp hs
    exact next_of_onConnect hidle hs
  | callback client c =>
    simp only [step] at hs
    split at hs
    · cases hs
    · rename_i session hfound
      obtain ⟨hand, hs⟩ := Option.ite_none_right_eq_some.mp hs
      exact next_of_callback hand.1 hfound hand.2 hs
  | fetch => exact next_of_fetch hs
  | submit => exact next_of_submit hs
  | close client =>
    simp only [step] at hs
    split at hs
    · cases hs
    · rename_i session hfound
      obtain ⟨hand, hs⟩ := Option.ite_none_right_eq_some.mp hs
      cases hs
      exact .close hand.1 hfound

/-! ### The invariant -/

/-- At the start the pool is new, and there is no request. -/
theorem inv_init : (init : Service ρ n).Inv where
  pool := Pool.inv_init
  heap := .empty
  known _ h := nomatch h
  fetching _ _ _ h := nomatch h
  submitting _ _ _ _ h := nomatch h
  history _ _ h := nomatch h

/-- Steps of other threads do not touch what the loop thread has. -/
theorem Inv.withPool (h : s.Inv) {pool : Pool ρ n} (hpool : pool.Inv) :
    Inv { s with pool := pool } :=
  ⟨hpool, h.heap, h.known, h.fetching, h.submitting, h.history⟩

/-- The requests that the loop thread was dispatching are recorded when `dispatch` returns. -/
theorem Inv.returned (h : s.Inv) {request : Consumed} (hopen : s.Open request.client)
    (hflight : ∀ client, s.inFlight client
      = if request.client = client then [request.tasks] else []) :
    (s.returned request).Inv where
  pool := h.pool
  heap := h.heap
  known r hr := by
    rcases List.mem_append.mp hr with hr | hr
    · exact h.known r hr
    · cases List.mem_singleton.mp hr
      obtain ⟨session, hfound, -⟩ := hopen
      exact h.heap.lt_next (Heap.live_iff.mpr ⟨session, hfound⟩)
  fetching _ _ _ hloop := nomatch hloop
  submitting _ _ _ _ hloop := nomatch hloop
  history client session hfound := by
    -- The request leaves `inFlight` and enters `consumed`, so that the two together are as
    -- before.
    rw [← h.history client session hfound, hflight client]
    show ((s.consumed ++ [request]).filter _).map _ ++ [] = _
    rw [List.append_nil, List.filter_append, List.map_append]
    congr 1
    by_cases hclient : request.client = client
    · rw [if_pos hclient, List.filter_cons_of_pos (by simpa using hclient)]
      rfl
    · rw [if_neg hclient, List.filter_cons_of_neg (by simpa using hclient)]
      rfl

/-- An idle loop has no request in its hands. -/
theorem inFlight_idle (hidle : s.loop = .idle) (client : Ptr) : s.inFlight client = [] := by
  rw [inFlight, hidle]

/-- A loop that fetches a worker has the request of one client in its hands. -/
theorem inFlight_fetching {p : Ptr} {id : ConnectionId} {tasks : List Task}
    (hloop : s.loop = .fetching p id tasks) (client : Ptr) :
    s.inFlight client = if p = client then [tasks] else [] := by
  rw [inFlight, hloop]

/-- So has a loop that is about to submit it. -/
theorem inFlight_submitting {w : Fin (n + 1)} {p : Ptr} {id : ConnectionId} {tasks : List Task}
    (hloop : s.loop = .submitting w p id tasks) (client : Ptr) :
    s.inFlight client = if p = client then [tasks] else [] := by
  rw [inFlight, hloop]

/-- A connection that is created now has had no requests. -/
theorem Inv.consumedBy_next (h : s.Inv) : s.consumedBy s.sessions.next = [] := by
  rw [consumedBy, List.filter_eq_nil_iff.mpr, List.map_nil]
  intro request hrequest heq
  exact absurd (h.known request hrequest) (by simp_all)

/-- A callback adds to the history of its connection what it dispatches. -/
theorem Inv.history_store (h : s.Inv) (hidle : s.loop = .idle) {client : Ptr}
    {session session' : Session} (hfound : s.sessions.objects client = some session)
    {new : List (List Task)} (hmore : session'.dispatched = session.dispatched ++ new)
    {flight : Ptr → List (List Task)}
    (hflight : ∀ p, flight p = if client = p then new else []) :
    ∀ p t, (s.sessions.store client session').objects p = some t →
      s.consumedBy p ++ flight p = t.dispatched := by
  intro p t ht
  have hbefore : ∀ q u, s.sessions.objects q = some u → s.consumedBy q = u.dispatched := by
    intro q u hu
    rw [← h.history q u hu, inFlight_idle hidle, List.append_nil]
  rw [hflight]
  by_cases hp : p = client
  · subst hp
    rw [Heap.objects_store_self] at ht
    cases ht
    rw [if_pos rfl, hmore, hbefore p session hfound]
  · rw [Heap.objects_store_of_ne hp] at ht
    rw [if_neg fun heq => hp heq.symm, List.append_nil]
    exact hbefore p t ht

/-- Each step keeps the invariant. -/
theorem Inv.next (h : s.Inv) (hnext : Next self s a s') : s'.Inv := by
  cases hnext with
  | other hpool => exact h.withPool (h.pool.next hpool)
  | @connect accepted session hidle hnew =>
    refine ⟨h.pool, h.heap.new session, fun r hr => Nat.lt_succ_of_lt (h.known r hr),
      fun _ _ _ hloop => (nomatch hidle.symm.trans hloop),
      fun _ _ _ _ hloop => (nomatch hidle.symm.trans hloop), fun client session' hfound => ?_⟩
    show s.consumedBy client ++ s.inFlight client = session'.dispatched
    -- The new connection has dispatched nothing, and nothing was recorded for its name.
    by_cases hclient : client = s.sessions.next
    · subst hclient
      rw [Heap.objects_new_self] at hfound
      cases hfound
      rw [h.consumedBy_next, inFlight_idle hidle, hnew]
      rfl
    · rw [Heap.objects_new_of_ne hclient] at hfound
      exact h.history client session' hfound
  | @callback p c session session' hidle hfound hsame =>
    have hlive : s.sessions.Live p := Heap.live_iff.mpr ⟨session, hfound⟩
    have hmore : session'.dispatched = session.dispatched ++ [] := by rw [hsame, List.append_nil]
    exact ⟨h.pool, h.heap.store hlive session', h.known, fun _ _ _ hloop => (nomatch hloop),
      fun _ _ _ _ hloop => (nomatch hloop),
      h.history_store hidle hfound hmore fun client => (ite_self _).symm⟩
  | @request p c session session' id tasks hidle hfound hmore hopened =>
    have hlive : s.sessions.Live p := Heap.live_iff.mpr ⟨session, hfound⟩
    refine ⟨h.pool, h.heap.store hlive session', h.known, fun client id' tasks' hloop => ?_,
      fun _ _ _ _ hloop => (nomatch hloop),
      h.history_store hidle hfound hmore fun client => rfl⟩
    cases hloop
    exact ⟨session', Heap.objects_store_self, hopened⟩
  | @found p id tasks hloop hpresent =>
    refine ⟨h.pool, h.heap, h.known, fun _ _ _ hloop' => (nomatch hloop'),
      fun w client id' tasks' hloop' => ?_, fun client session hfound => ?_⟩
    · cases hloop'
      exact ⟨h.fetching p id tasks hloop, rfl⟩
    · rw [← h.history client session hfound, inFlight_fetching hloop]
      rfl
  | @dropped p id tasks hloop habsent =>
    exact h.returned (h.fetching p id tasks hloop) (inFlight_fetching hloop)
  | @submitted w p id tasks hloop =>
    have hpool : Pool.Inv (s.pool.setLane w ((s.pool.lanes w).submit
        { tasks := tasks, connectionId := id, reactor := some self })) :=
      h.pool.next (Pool.next_of_lane (.submit self id tasks))
    exact (h.withPool hpool).returned (h.submitting w p id tasks hloop).1
      (inFlight_submitting hloop)
  | @lost w p id tasks hloop hgone =>
    exact h.returned (h.submitting w p id tasks hloop).1 (inFlight_submitting hloop)
  | @close p session hidle hfound =>
    have hlive : s.sessions.Live p := Heap.live_iff.mpr ⟨session, hfound⟩
    refine ⟨h.pool, h.heap.delete hlive, h.known,
      fun _ _ _ hloop => (nomatch hidle.symm.trans hloop),
      fun _ _ _ _ hloop => (nomatch hidle.symm.trans hloop), fun client session₁ hfound₁ => ?_⟩
    -- What is deleted has no history to keep.
    by_cases hclient : client = p
    · subst hclient
      rw [Heap.objects_delete_self] at hfound₁
      cases hfound₁
    · rw [Heap.objects_delete_of_ne hclient] at hfound₁
      exact h.history client session₁ hfound₁

/-- The invariant holds in every state of every run. -/
theorem inv_of_run {path : List (Service ρ n × Action ρ n)}
    (hrun : Run (step opts A self) init path s) : s.Inv ∧ ∀ p ∈ path, p.1.Inv :=
  hrun.invariant (P := Inv) (C := fun _ _ => True)
    (fun _ _ _ h _ hs => h.next (next_of_step hs)) inv_init fun _ _ => trivial

/-- Nothing that a connection has dispatched is missing in `consumed` between two callbacks. -/
theorem consumedBy_of_run {path : List (Service ρ n × Action ρ n)}
    (hrun : Run (step opts A self) init path s) (hidle : s.loop = .idle) {client : Ptr}
    {session : Session} (hfound : s.sessions.objects client = some session) :
    s.consumedBy client = session.dispatched := by
  rw [← (inv_of_run hrun).1.history client session hfound, inFlight_idle hidle, List.append_nil]

/-! ### Runs whose dispatches are in time -/

/-- The batch of a request is in a place from which it will be run. -/
def Placed (self : ρ) (pool : Pool ρ n) (request : Consumed) : Prop :=
  ∃ k, request.place = some k ∧
    (pool.lanes (WorkerPool.fetch n request.id)).pushed[k]? = some
      { tasks := request.tasks, connectionId := request.id, reactor := some self } ∧
    (pool.lanes (WorkerPool.fetch n request.id)).Covers k

variable {request : Consumed}

/-- A request that is placed stays so, since a step of the pool keeps its worker's places covered.
-/
theorem Placed.next {pool pool' : Pool ρ n} (h : Placed self pool request) (hpool : pool.Inv)
    (hnext : pool.Next pool') : Placed self pool' request := by
  obtain ⟨k, hplace, hpushed, hcovers⟩ := h
  refine ⟨k, hplace, ?_⟩
  rcases hnext.lanes (WorkerPool.fetch n request.id) with hsame | hlane
  · rw [hsame]
    exact ⟨hpushed, hcovers⟩
  · obtain ⟨rest, hrest⟩ := hlane.pushed
    refine ⟨?_, hcovers.next (hpool.lanes _) hlane⟩
    rw [← hrest, List.getElem?_append_left (List.getElem?_eq_some_iff.mp hpushed).1]
    exact hpushed

/-- What is placed will be run, and the other way round. -/
theorem placed_iff (h : s.Inv) : Placed self s.pool request ↔ s.Served self request := by
  have hruns : ∀ {k : Nat} {batch : BatchTask ρ},
      (s.pool.lanes (WorkerPool.fetch n request.id)).pushed[k]? = some batch →
      ((s.pool.lanes (WorkerPool.fetch n request.id)).Runs k ↔
        (s.pool.lanes (WorkerPool.fetch n request.id)).Covers k) := fun hpushed =>
    WorkerLog.runs_iff (h.pool.lanes _) (List.getElem?_eq_some_iff.mp hpushed).1
  constructor
  · rintro ⟨k, hplace, hpushed, hcovers⟩
    exact ⟨k, hplace, hpushed, (hruns hpushed).mpr hcovers⟩
  · rintro ⟨k, hplace, hpushed, hrun⟩
    exact ⟨k, hplace, hpushed, (hruns hpushed).mp hrun⟩

/-- The batch that `submit` pushes is placed if and only if the worker accepts it. -/
theorem placed_submitted {pool : Pool ρ n} {w : Fin (n + 1)} {client : Ptr} {id : ConnectionId}
    {tasks : List Task} (hpool : pool.Inv) (hw : w = WorkerPool.fetch n id) :
    Placed self (pool.setLane w ((pool.lanes w).submit
        { tasks := tasks, connectionId := id, reactor := some self }))
      { client := client, id := id, tasks := tasks, place := some (pool.lanes w).pushed.length }
      ↔ (pool.lanes w).Accepts := by
  subst hw
  unfold Placed
  rw [Pool.setLane_self]
  constructor
  · rintro ⟨k, hplace, -, hcovers⟩
    cases hplace
    -- The place is the last one, so that it is not covered by what is passed and listed.
    rcases hcovers with hk | ⟨haccepts, -⟩
    · have hlength := WorkerLog.length_pushed (hpool.lanes (WorkerPool.fetch n id))
      have hk' : (pool.lanes (WorkerPool.fetch n id)).pushed.length
          < (pool.lanes (WorkerPool.fetch n id)).passed.length
            + (pool.lanes (WorkerPool.fetch n id)).worker.tasks.length := hk
      omega
    · exact ⟨haccepts.phase, haccepts.stopThread, haccepts.tasks⟩
  · intro haccepts
    refine ⟨_, rfl, List.getElem?_concat_length, Or.inr
      ⟨⟨haccepts.phase, haccepts.stopThread, haccepts.tasks⟩, ?_⟩⟩
    show _ < ((pool.lanes (WorkerPool.fetch n id)).pushed ++ [_]).length
    rw [List.length_append]
    exact Nat.lt_succ_self _

/-- A worker that accepts is not deleted. -/
theorem not_accepts_of_gone {pool : Pool ρ n} {w : Fin (n + 1)} (hpool : pool.Inv)
    (hgone : pool.phase.alive w = false) : ¬ (pool.lanes w).Accepts :=
  fun haccepts => haccepts.phase (hpool.gone w hgone)

/-- A step that is in time leaves every request placed. -/
theorem placed_next (h : s.Inv) (hplaced : ∀ request ∈ s.consumed, Placed self s.pool request)
    (hnext : Next self s a s') (htime : s.InTime a) :
    ∀ request ∈ s'.consumed, Placed self s'.pool request := by
  cases hnext with
  | other hpool => exact fun request hr => (hplaced request hr).next h.pool hpool
  | connect hidle hnew => exact hplaced
  | callback hidle hfound hsame => exact hplaced
  | request hidle hfound hmore hopened => exact hplaced
  | found hloop hpresent => exact hplaced
  | dropped hloop habsent => exact absurd (htime _ _ _ hloop) habsent
  | @submitted w client id tasks hloop =>
    -- The new batch is at the end of what was pushed, and the worker accepts.
    intro request hr
    rcases List.mem_append.mp hr with hr | hr
    · exact (hplaced request hr).next h.pool (Pool.next_of_lane (.submit self id tasks))
    · cases List.mem_singleton.mp hr
      exact (placed_submitted h.pool (h.submitting w client id tasks hloop).2).mpr
        (htime w client id tasks hloop)
  | lost hloop hgone =>
    exact absurd (htime _ _ _ _ hloop) (not_accepts_of_gone h.pool hgone)
  | close hidle hfound => exact hplaced

/-- A step that is not in time leaves a request on an open connection, consumed and never to be
run. -/
theorem not_accounted (h : s.Inv) (hnext : Next self s a s') (htime : ¬ s.InTime a) :
    ¬ s'.Accounted self := by
  have h' : s'.Inv := h.next hnext
  cases hnext with
  | other hpool => exact absurd trivial htime
  | connect hidle hnew => exact absurd trivial htime
  | callback hidle hfound hsame => exact absurd trivial htime
  | request hidle hfound hmore hopened => exact absurd trivial htime
  | @found client id tasks hloop hpresent =>
    refine absurd (fun client' id' tasks' hloop' => ?_) htime
    rw [hloop] at hloop'
    cases hloop'
    exact hpresent
  | @dropped client id tasks hloop habsent =>
    intro haccounted
    rcases haccounted rfl _ (List.mem_append_right _ (List.mem_singleton_self _)) with
      ⟨k, hplace, -⟩ | hclosed
    · cases hplace
    · exact hclosed (h.fetching client id tasks hloop)
  | @submitted w client id tasks hloop =>
    intro haccounted
    obtain ⟨hopen, hw⟩ := h.submitting w client id tasks hloop
    rcases haccounted rfl _ (List.mem_append_right _ (List.mem_singleton_self _)) with
      hserved | hclosed
    · have haccepts := (placed_submitted h.pool hw).mp ((placed_iff h').mpr hserved)
      refine htime fun w' client' id' tasks' hloop' => ?_
      rw [hloop] at hloop'
      cases hloop'
      exact haccepts
    · exact hclosed hopen
  | @lost w client id tasks hloop hgone =>
    intro haccounted
    rcases haccounted rfl _ (List.mem_append_right _ (List.mem_singleton_self _)) with
      ⟨k, hplace, -⟩ | hclosed
    · cases hplace
    · exact hclosed (h.submitting w client id tasks hloop).1
  | close hidle hfound => exact absurd trivial htime

/-- **When no request vanishes.** In a run, everything that was taken out of a read buffer is
run, or will be run before its worker exits, or its connection is closed, in every state
between two callbacks, if and only if each step of each `dispatch` was in time: `fetch` found
the worker in its slot, and `submit` came before the worker swapped out its last list. -/
theorem requests_accounted_iff {path : List (Service ρ n × Action ρ n)}
    (hrun : Run (step opts A self) init path s) :
    ((∀ p ∈ path, p.1.Accounted self) ∧ s.Accounted self) ↔ ∀ p ∈ path, p.1.InTime p.2 := by
  constructor
  · -- The state behind a late step is a state of the run, and the loop is idle there.
    rintro ⟨hpath, hlast⟩ p hp
    by_contra htime
    obtain ⟨s', hs, hwhere⟩ := hrun.exists_next p hp
    have hlost : ¬ s'.Accounted self :=
      not_accounted ((inv_of_run hrun).2 p hp) (next_of_step hs) htime
    rcases hwhere with rfl | ⟨q, hq, rfl⟩
    · exact hlost hlast
    · exact hlost (hpath q hq)
  · intro htime
    have hkept := hrun.invariant
      (P := fun s => s.Inv ∧ ∀ request ∈ s.consumed, Placed self s.pool request)
      (C := InTime)
      (fun s a s' h hC hs =>
        ⟨h.1.next (next_of_step hs), placed_next h.1 h.2 (next_of_step hs) hC⟩)
      ⟨inv_init, fun _ hr => nomatch hr⟩ htime
    have haccounted : ∀ t : Service ρ n,
        (t.Inv ∧ ∀ request ∈ t.consumed, Placed self t.pool request) → t.Accounted self :=
      fun t ht _ request hr => Or.inl ((placed_iff ht.1).mp (ht.2 request hr))
    exact ⟨fun p hp => haccounted p.1 (hkept.2 p hp), haccounted s hkept.1⟩

/-- RESP connections with read buffers of 16 to 64 bytes. -/
def bufferOptions : ReactorOptions where
  connectionOpts := { readBufMinSize := 16, readBufMaxSize := 64 }
  protocolOpts := .resp

/-- A client connects, and sends a `PING`. -/
def pingActions : List (Action Unit 0) :=
  [.connect true, .callback 0 (.event (.alloc 65536)),
    .callback 0 (.event (.data (bytesOf "*1\r\n$4\r\nPING\r\n")))]

/-- `WorkerPool::stop` begins while the loop thread is in `dispatch`, and pushes the sentinel
behind the batch. -/
def inTimeActions : List (Action Unit 0) :=
  pingActions ++ [.fetch, .other .stopPool, .submit, .other .stopPool, .other (.fetch 0)]

/-- The run of `inTimeActions` goes through to its end, and each of its steps is in time. -/
theorem isSome_inTimeActions :
    (exec (restrict InTime (step bufferOptions .standard ())) (init : Service Unit 0)
      inTimeActions).isSome = true := by
  decide +kernel

/-- In the run of `inTimeActions` the `PING` is pushed in front of the sentinel, so that it is
accounted for in every state, although the pool is being stopped. -/
theorem requests_accounted_iff_ping :
    ∃ path, ∃ s : Service Unit 0, Run (step bufferOptions .standard ()) init path s ∧
      path.map Prod.snd = inTimeActions ∧
      s.consumed = [{ client := 0, id := 0, tasks := [.ping], place := some 0 }] ∧
      (∀ p ∈ path, p.1.Accounted ()) ∧ s.Accounted () := by
  obtain ⟨path, hrun, hacts⟩ := Run.exec inTimeActions .nil
    (Option.some_get isSome_inTimeActions).symm
  obtain ⟨hrun, htime⟩ := hrun.of_restrict
  exact ⟨path, _, hrun, hacts, by decide +kernel, (requests_accounted_iff hrun).mpr htime⟩

/-- `WorkerPool::stop` returns, and then the client sends its `PING`. -/
def lateActions : List (Action Unit 0) :=
  [.other .stopPool, .other .stopPool, .other .stopPool, .other (.fetch 0), .other (.run 0),
    .other (.run 0), .other (.finish 0), .other .stopPool] ++ pingActions ++ [.fetch]

/-- The run of `lateActions` goes through to its end. -/
theorem isSome_lateActions :
    (exec (step bufferOptions .standard ()) (init : Service Unit 0) lateActions).isSome
      = true := by
  decide +kernel

/-- The request is taken out of the buffer, `dispatch` finds no worker and drops it, and the
connection stays open. Its client waits for a reply that does not come. -/
theorem request_dropped :
    ∃ path, ∃ s : Service Unit 0, Run (step bufferOptions .standard ()) init path s ∧
      path.map Prod.snd = lateActions ∧ s.loop = .idle ∧ s.Open 0 ∧
      s.consumed = [{ client := 0, id := 0, tasks := [.ping], place := none }] ∧
      ¬ s.Accounted () := by
  obtain ⟨path, hrun, hacts⟩ := Run.exec lateActions .nil
    (Option.some_get isSome_lateActions).symm
  have hidle : ((exec (step bufferOptions .standard ()) (init : Service Unit 0) lateActions).get
      isSome_lateActions).loop = .idle := by decide +kernel
  have hconsumed : ((exec (step bufferOptions .standard ()) (init : Service Unit 0)
      lateActions).get isSome_lateActions).consumed
        = [{ client := 0, id := 0, tasks := [.ping], place := none }] := by decide +kernel
  have hopened : (((exec (step bufferOptions .standard ()) (init : Service Unit 0)
      lateActions).get isSome_lateActions).sessions.objects 0).map Session.status
        = some .opened := by decide +kernel
  have hopen : ((exec (step bufferOptions .standard ()) (init : Service Unit 0) lateActions).get
      isSome_lateActions).Open 0 := Option.map_eq_some_iff.mp hopened
  refine ⟨path, _, hrun, hacts, hidle, hopen, hconsumed, fun haccounted => ?_⟩
  rcases haccounted hidle { client := 0, id := 0, tasks := [.ping], place := none }
    (by rw [hconsumed]; exact List.mem_singleton_self _) with ⟨k, hplace, -⟩ | hclosed
  · cases hplace
  · exact hclosed hopen

end Service

end VectorEngine
