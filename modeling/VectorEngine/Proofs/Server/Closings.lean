import VectorEngine.Proofs.Server.Answers
import VectorEngine.Proofs.Server.Next

/-!
# `VectorEngine.Proofs.Server.Closings`: who is disconnected

The server closes a connection in three places: in `_on_connect` when `uv_accept` fails, in
`on_read` when libuv reports an end or an error, and in `on_read` when the parser throws. All
three look at one connection, but they run in callbacks that share the loop, the threads and the
pool with all the others.

`opened_iff_of_run` says that a connection is closed for what happened on itself, and is not kept
open after it: whether it is open is a function of its own history.
-/

set_option autoImplicit false

namespace VectorEngine

open VectorEngine.Resp
open VectorEngine.Stream
open VectorEngine.Transition

/-- A callback on an open connection keeps it open, unless libuv reports a failure or the parser
throws. -/
theorem Session.opened_handle_iff {A : Allocator} {s : Session} {c : Callback} (h : s.Ready)
    (hpermits : s.Permits c) (hmore : scanCommand A s.data = .more) :
    (s.handle A c).status = .opened ↔
      (∀ nread, c ≠ .failed nread) ∧ ∃ q, (scanCommand A).drain (s.data ++ c.bytes) = .ok q := by
  cases c with
  | event ev =>
    show (s.step A ev).status = .opened ↔ _
    rw [status_event h hmore hpermits, statusAfter_opened_iff]
    simp
  | failed nread =>
    refine iff_of_false ?_ fun hnever => hnever.1 nread rfl
    simp [status_failed A s hpermits.2]

namespace Server

variable {ρ : Type} [DecidableEq ρ] {n : Nat}
variable {opts : ReactorOptions} {A : Allocator} {s s' : Server ρ n} {e : Engine ρ n}
variable {path : List (Server ρ n × Action ρ n)} {a : Action ρ n} {r : ρ} {id : ConnectionId}

omit [DecidableEq ρ] in
/-- The connection is there, and no one has asked to close it. -/
def Opened (s : Server ρ n) (r : ρ) (id : ConnectionId) : Prop :=
  ∃ session, s.sessions r id = some session ∧ session.status = .opened

omit [DecidableEq ρ] in
/-- `uv_accept` has failed for the connection. -/
def Refused (path : List (Server ρ n × Action ρ n)) (r : ρ) (id : ConnectionId) : Prop :=
  ∃ p ∈ path, p.2 = .connect r false ∧ (p.1.threads.reactors r).connectionCnt = id

omit [DecidableEq ρ] in
/-- libuv has reported the end of the stream on the connection, or an error. -/
def Failed (path : List (Server ρ n × Action ρ n)) (r : ρ) (id : ConnectionId) : Prop :=
  ∃ p ∈ path, ∃ nread, p.2 = .callback r id (.failed nread)

omit [DecidableEq ρ] in
/-- In a longer run a connection is refused earlier, or by the last step. -/
theorem refused_snoc : Refused (path ++ [(s, a)]) r id ↔
    Refused path r id ∨ a = .connect r false ∧ (s.threads.reactors r).connectionCnt = id := by
  simp [Refused, or_and_right, exists_or]

omit [DecidableEq ρ] in
/-- In a longer run a connection has failed earlier, or fails in the last step. -/
theorem failed_snoc : Failed (path ++ [(s, a)]) r id ↔
    Failed path r id ∨ ∃ nread, a = .callback r id (.failed nread) := by
  simp [Failed, or_and_right, exists_or]

/-- The parser takes the bytes when they can be answered. -/
theorem exists_answers_iff {R : ByteString} (hR : R.length < 2 ^ 64) :
    (∃ out, answers A R = .ok out) ↔ ∃ q, (scanCommand A).drain R = .ok q := by
  constructor
  · rintro ⟨out, hout⟩
    cases hdrain : (scanCommand A).drain R with
    | ok q => exact ⟨q, rfl⟩
    | error err =>
      have hparse : parse A R = .error err := (parse_error_iff hR).mpr hdrain
      rw [answers, hparse] at hout
      cases hout
  · rintro ⟨⟨cmds, rest⟩, hdrain⟩
    exact ⟨_, answers_of_drain hR hdrain⟩

/-! ### The history of one connection -/

/-- Whether the connection is open is what its history says. -/
def Accounted (A : Allocator) (path : List (Server ρ n × Action ρ n)) (s : Server ρ n) (r : ρ)
    (id : ConnectionId) : Prop :=
  s.Opened r id ↔ ¬ Refused path r id ∧ ¬ Failed path r id ∧
    ∃ q, (scanCommand A).drain (s.received r id) = .ok q

omit [DecidableEq ρ] in
/-- A step that is about something else. -/
theorem Accounted.frame (h : Accounted A path s r id)
    (hsessions : s'.sessions r id = s.sessions r id)
    (hreceived : s'.received r id = s.received r id)
    (hrefused : ¬ (a = .connect r false ∧ (s.threads.reactors r).connectionCnt = id))
    (hfailed : ∀ nread, a ≠ .callback r id (.failed nread)) :
    Accounted A (path ++ [(s, a)]) s' r id := by
  have hnone : ¬ ∃ nread, a = .callback r id (.failed nread) := fun ⟨nread, heq⟩ =>
    hfailed nread heq
  unfold Accounted Opened
  rw [hsessions, hreceived, refused_snoc, failed_snoc, or_iff_left hrefused, or_iff_left hnone]
  exact h

/-- Each connection that was created is accounted for, and the history is about no others. The
induction needs the second part for a connection that is created now: its id has no history yet.
-/
structure Accounts (A : Allocator) (path : List (Server ρ n × Action ρ n)) (s : Server ρ n) :
    Prop where
  accounted : ∀ r id, id < (s.threads.reactors r).connectionCnt → Accounted A path s r id
  refused : ∀ r id, Refused path r id → id < (s.threads.reactors r).connectionCnt
  failed : ∀ r id, Failed path r id → id < (s.threads.reactors r).connectionCnt

omit [DecidableEq ρ] in
/-- A step that creates no connection. -/
theorem Accounts.next (h : Accounts A path s)
    (hcnt : ∀ r, (s'.threads.reactors r).connectionCnt = (s.threads.reactors r).connectionCnt)
    (hconnect : ∀ r accepted, a ≠ .connect r accepted)
    (hfailed : ∀ r id nread, a = .callback r id (.failed nread) →
      id < (s.threads.reactors r).connectionCnt)
    (haccounted : ∀ r id, id < (s.threads.reactors r).connectionCnt →
      Accounted A path s r id → Accounted A (path ++ [(s, a)]) s' r id) :
    Accounts A (path ++ [(s, a)]) s' where
  accounted r id hid := by
    rw [hcnt] at hid
    exact haccounted r id hid (h.accounted r id hid)
  refused r id hrefused := by
    rw [hcnt]
    rcases refused_snoc.mp hrefused with hrefused | ⟨heq, -⟩
    · exact h.refused r id hrefused
    · exact absurd heq (hconnect r false)
  failed r id hfail := by
    rw [hcnt]
    rcases failed_snoc.mp hfail with hfail | ⟨nread, heq⟩
    · exact h.failed r id hfail
    · exact hfailed r id nread heq

/-- A new connection has no history, but for the answer of `uv_accept`. -/
theorem Accounts.connect (h : Accounts A path s) (hrep : Represents A s e) {r : ρ}
    {accepted : Bool} (hstep : s.step opts A (.connect r accepted) = some s') :
    Accounts A (path ++ [(s, .connect r accepted)]) s' := by
  have hcnt := connectionCnt_step hstep
  cases next_of_step hstep with
  | @connect _ _ conn hfree hfew hconn =>
    -- The counter only grows, so that what happened to an earlier id is in range.
    have hmono : ∀ q, (s.threads.reactors q).connectionCnt
        ≤ ((s.afterConnect r conn accepted).threads.reactors q).connectionCnt := fun q => by
      rw [hcnt q]
      exact Nat.le_add_right _ _
    have hself : ((s.afterConnect r conn accepted).threads.reactors r).connectionCnt
        = (s.threads.reactors r).connectionCnt + 1 := by
      rw [hcnt r]
      simp [Action.creates]
    have hother : ∀ q, q ≠ r →
        ((s.afterConnect r conn accepted).threads.reactors q).connectionCnt
          = (s.threads.reactors q).connectionCnt := fun q hq => by
      rw [hcnt q]
      simp [Action.creates, Ne.symm hq]
    have hsessions : (s.afterConnect r conn accepted).sessions
        = put s.sessions r (s.threads.reactors r).connectionCnt
          (some (if accepted then Session.start conn
            else { Session.start conn with status := .closing })) := rfl
    have hreceived : (s.afterConnect r conn accepted).received = s.received := rfl
    refine ⟨fun q id hid => ?_, fun q id hrefused => ?_, fun q id hfailed => ?_⟩
    · by_cases hq : q = r ∧ id = (s.threads.reactors r).connectionCnt
      · -- The new connection: only the answer of `uv_accept` counts.
        obtain ⟨rfl, rfl⟩ := hq
        have hnorefused : ¬ Refused path q (s.threads.reactors q).connectionCnt :=
          fun hrefused => Nat.lt_irrefl _ (h.refused q _ hrefused)
        have hnofailed : ¬ Failed path q (s.threads.reactors q).connectionCnt :=
          fun hfailed => Nat.lt_irrefl _ (h.failed q _ hfailed)
        have hempty : s.received q (s.threads.reactors q).connectionCnt = [] :=
          hrep.fresh q _ (Nat.le_of_eq (by rw [hrep.reactors]))
        have hdrain : ∃ p, (scanCommand A).drain
            (s.received q (s.threads.reactors q).connectionCnt) = .ok p := by
          rw [hempty]
          exact ⟨_, Scanner.drain_more rfl⟩
        unfold Accounted Opened
        rw [hsessions, hreceived, put_self, refused_snoc, failed_snoc]
        cases accepted <;> simp [hnorefused, hnofailed, hdrain, Session.start]
      · -- The others were created before, and their history is as it was.
        have hold : id < (s.threads.reactors q).connectionCnt := by
          by_cases hqr : q = r
          · subst hqr
            rw [hself] at hid
            have hne : id ≠ (s.threads.reactors q).connectionCnt := fun heq => hq ⟨rfl, heq⟩
            exact Nat.lt_of_le_of_ne (Nat.le_of_lt_succ hid) hne
          · rwa [hother q hqr] at hid
        refine (h.accounted q id hold).frame ?_ (by rw [hreceived]) ?_ (by simp)
        · rw [hsessions, put_of_ne hq]
        · rintro ⟨heq, hlast⟩
          cases heq
          exact hq ⟨rfl, hlast.symm⟩
    · rcases refused_snoc.mp hrefused with hrefused | ⟨heq, rfl⟩
      · -- An earlier refusal was of an id that was given out.
        exact Nat.lt_of_lt_of_le (h.refused q id hrefused) (hmono q)
      · cases heq
        rw [hself]
        exact Nat.lt_succ_self _
    · rcases failed_snoc.mp hfailed with hfailed | ⟨nread, heq⟩
      · exact Nat.lt_of_lt_of_le (h.failed q id hfailed) (hmono q)
      · cases heq

/-- A callback adds to the history of its own connection, and of no other. -/
theorem Accounts.callback (h : Accounts A path s) (hrep : Represents A s e) {r : ρ}
    {id : ConnectionId} {c : Callback}
    (hstep : s.step opts A (.callback r id c) = some s') :
    Accounts A (path ++ [(s, .callback r id c)]) s' := by
  have hcnt := connectionCnt_step hstep
  cases next_of_step hstep with
  | @callback _ _ session _ threads hsession hfree hpermits hreturns hperform =>
    have hholds := hrep.opened r id session hsession hpermits.opened
    have hopened : s.Opened r id := ⟨session, hsession, hpermits.opened⟩
    have hgiven : id < (s.threads.reactors r).connectionCnt := by
      rw [← hrep.reactors]
      exact hrep.inv.known r id ((hrep.present r id).mp (by simp [hsession]))
    have hsessions : (s.afterCallback A r id session c threads).sessions
        = put s.sessions r id (some (session.handle A c)) := rfl
    have hreceived : (s.afterCallback A r id session c threads).received
        = put s.received r id (s.received r id ++ c.bytes) := rfl
    refine h.next (fun q => (hcnt q).trans (by simp [Action.creates])) (by simp)
      (fun q d nread heq => ?_) fun q d _ haccounted => ?_
    · cases heq
      exact hgiven
    · by_cases hqd : q = r ∧ d = id
      · -- A callback comes on an open connection only, so its history is clean so far.
        obtain ⟨rfl, rfl⟩ := hqd
        obtain ⟨hnorefused, hnofailed, -⟩ := haccounted.mp hopened
        -- The bytes received so far and the new ones parse when the data and the new ones do.
        have hdrain : (∃ p, (scanCommand A).drain (s.received q d ++ c.bytes) = .ok p) ↔
            ∃ p, (scanCommand A).drain (session.data ++ c.bytes) = .ok p := by
          rw [hholds.drain_append]
          cases (scanCommand A).drain (session.data ++ c.bytes) with
          | ok p =>
            obtain ⟨cmds, rest⟩ := p
            simp
          | error err => simp
        have hstatus : (s.afterCallback A q d session c threads).Opened q d ↔
            (session.handle A c).status = .opened := by
          unfold Opened
          rw [hsessions, put_self]
          simp
        have hfailed : (¬ ∃ nread, Action.callback q d c = Action.callback (n := n) q d
            (.failed nread)) ↔ ∀ nread, c ≠ .failed nread := by simp
        unfold Accounted
        rw [hstatus, Session.opened_handle_iff hholds.ready hpermits hholds.more, hreceived, put_self,
          refused_snoc, failed_snoc, hdrain]
        simp [hnorefused, hnofailed]
      · refine haccounted.frame (by rw [hsessions, put_of_ne hqd])
          (by rw [hreceived, put_of_ne hqd]) (by simp) fun nread heq => ?_
        cases heq
        exact hqd ⟨rfl, rfl⟩

/-- `on_close` comes when the connection is not open any more. -/
theorem Accounts.close (h : Accounts A path s) {r : ρ} {id : ConnectionId}
    (hstep : s.step opts A (.close r id) = some s') :
    Accounts A (path ++ [(s, .close r id)]) s' := by
  have hcnt := connectionCnt_step hstep
  cases next_of_step hstep with
  | @close _ _ session hsession hfree hclosing =>
    refine h.next (fun q => (hcnt q).trans (by simp [Action.creates])) (by simp)
      (by simp) fun q d _ haccounted => ?_
    by_cases hqd : q = r ∧ d = id
    · obtain ⟨rfl, rfl⟩ := hqd
      -- It was not open before, since libuv calls `on_close` only behind `uv_close`.
      have hbefore : ¬ s.Opened q d := by
        rintro ⟨session', hsession', hopened⟩
        rw [hsession] at hsession'
        cases hsession'
        rw [hclosing] at hopened
        cases hopened
      -- It is not there afterwards.
      have hafter : ¬ (s.onClose q d).Opened q d := by
        rintro ⟨session', hsession', -⟩
        replace hsession' : put s.sessions q d none q d = some session' := hsession'
        rw [put_self] at hsession'
        cases hsession'
      unfold Accounted at haccounted ⊢
      rw [show (s.onClose q d).received = s.received from rfl, refused_snoc, failed_snoc]
      simpa [hbefore, hafter] using haccounted
    · exact haccounted.frame (put_of_ne hqd none) rfl (by simp) (by simp)

/-- The threads leave the connections alone. -/
theorem Accounts.thread (h : Accounts A path s) {a : Wakeup.Action Empty (Fin (n + 1)) ρ}
    (hstep : s.step opts A (.thread a) = some s') :
    Accounts A (path ++ [(s, .thread a)]) s' := by
  have hcnt := connectionCnt_step hstep
  cases next_of_step hstep with
  | thread hpushes hthreads =>
    obtain ⟨hsessions, hreceived⟩ := recordWrite_frame s a
    exact h.next (fun q => (hcnt q).trans (by simp [Action.creates])) (by simp) (by simp)
      fun q d _ haccounted =>
        haccounted.frame (congrFun (congrFun hsessions q) d)
          (congrFun (congrFun hreceived q) d) (by simp) (by simp)

omit [DecidableEq ρ] in
/-- There is no connection at the start. -/
theorem accounts_init : Accounts A [] (init : Server ρ n) where
  accounted r id hid := absurd hid (Nat.not_lt_zero id)
  refused r id h := by
    obtain ⟨p, hp, -⟩ := h
    cases hp
  failed r id h := by
    obtain ⟨p, hp, -⟩ := h
    cases hp

/-- In every run every connection is accounted for. The induction is on the run, with one lemma
for each kind of step, and each needs the engine that the state before represents. -/
theorem accounts_of_run (hopts : opts.Serves) (hrun : Run (step opts A) init path s) :
    Accounts A path s := by
  induction hrun with
  | nil => exact accounts_init
  | @snoc path s s' a hbefore hs ih =>
    obtain ⟨-, e, -, hrep⟩ := represents_of_run hopts hbefore
    cases a with
    | connect r accepted => exact ih.connect hrep hs
    | callback r id c => exact ih.callback hrep hs
    | close r id => exact ih.close hs
    | thread a => exact ih.thread hs

/-- **A connection is closed for what happened on itself, and only then.** In every state that
can be reached, a connection that was created is open exactly when it was accepted, libuv has
reported no end and no error on it, and the parser takes all that was received on it. -/
theorem opened_iff_of_run (hopts : opts.Serves) (hrun : Run (step opts A) init path s) (r : ρ)
    {id : ConnectionId} (hid : id < (s.threads.reactors r).connectionCnt)
    (hsize : (s.received r id).length < 2 ^ 64) :
    s.Opened r id ↔ ¬ Refused path r id ∧ ¬ Failed path r id ∧
      ∃ out, answers A (s.received r id) = .ok out := by
  have haccounted := (accounts_of_run hopts hrun).accounted r id hid
  unfold Accounted at haccounted
  rw [haccounted, exists_answers_iff hsize]

/-- Two clients of one reactor. The first sends a `PING`, and the second no command. -/
def strayReads : List (Action Unit 0) :=
  [.connect () true, .connect () true, .callback () 0 (.event (.alloc 64)),
    .callback () 1 (.event (.alloc 64)), .callback () 0 (.event (.data pingFrame)),
    .thread (.notify (.loop ())), .callback () 1 (.event (.data (bytesOf "?\r\n")))]

/-- The server behind them. -/
def strayServer : Server Unit 0 :=
  (exec (step Service.bufferOptions .ample) init strayReads).get (by decide +kernel)

/-- The run of `strayReads` ends in `strayServer`. -/
theorem exec_strayReads :
    exec (step Service.bufferOptions .ample) init strayReads = some strayServer := by
  unfold strayServer
  exact (Option.some_get _).symm

/-- The parser takes what the first client has sent, and both were accepted and have reported no
end. So the first client is connected, and the second one, whose bytes it does not take, is not. -/
theorem opened_iff_of_run_stray :
    ∃ path s, Run (step Service.bufferOptions .ample) (init : Server Unit 0) path s ∧
      path.map Prod.snd = strayReads ∧ s.Opened () 0 ∧ ¬ s.Opened () 1 := by
  obtain ⟨path, hrun, hacts⟩ := Run.exec strayReads .nil exec_strayReads
  have hmem : ∀ p ∈ path, p.2 ∈ strayReads := by
    intro p hp
    rw [show strayReads = path.map Prod.snd from hacts.symm]
    exact List.mem_map_of_mem hp
  refine ⟨path, strayServer, hrun, hacts,
    (opened_iff_of_run serves_bufferOptions hrun () (by decide +kernel)
      (by decide +kernel)).mpr ⟨?_, ?_, ?_⟩, fun hopened => ?_⟩
  · rintro ⟨p, hp, hconnect, -⟩
    have haction := hmem p hp
    rw [hconnect] at haction
    simp [strayReads] at haction
  · rintro ⟨p, hp, nread, hfailed⟩
    have haction := hmem p hp
    rw [hfailed] at haction
    simp [strayReads] at haction
  · have htakes : (answers .ample (strayServer.received () 0)).isOk = true := by decide +kernel
    cases hout : answers .ample (strayServer.received () 0) with
    | ok out => exact ⟨out, rfl⟩
    | error e =>
      rw [hout] at htakes
      cases htakes
  · obtain ⟨-, -, out, hout⟩ := (opened_iff_of_run serves_bufferOptions hrun ()
      (by decide +kernel) (by decide +kernel)).mp hopened
    have hthrows : (answers .ample (strayServer.received () 1)).isOk = false := by decide +kernel
    rw [hout] at hthrows
    cases hthrows

end Server

end VectorEngine
