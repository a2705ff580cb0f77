import VectorEngine.Proofs.Wakeup.Next
import VectorEngine.Server

/-!
# `VectorEngine.Proofs.Server.Next`: what one step of a server can do

`Next` lists the states that a step can lead to, with the conditions under which it is made.
`next_of_step` is the inversion of `step`. The invariants of a server are case distinctions over
`Next`. `connectionCnt_step` says which steps create a connection.
-/

set_option autoImplicit false

namespace VectorEngine.Server

variable {ρ : Type} [DecidableEq ρ] {n : Nat}
variable {opts : ReactorOptions} {A : Allocator} {s s' : Server ρ n} {a : Action ρ n}

/-- A new connection of the reactor. -/
def afterConnect (s : Server ρ n) (r : ρ) (conn : Connection) (accepted : Bool) : Server ρ n :=
  let session := Session.start conn
  { s with
    threads := s.threads.setReactor r (s.threads.reactors r).createClient
    sessions := put s.sessions r (s.threads.reactors r).connectionCnt
      (some (if accepted then session else { session with status := .closing })) }

/-- A callback of a connection, behind what it asked for. -/
def afterCallback (A : Allocator) (s : Server ρ n) (r : ρ) (id : ConnectionId)
    (session : Session) (c : Callback) (threads : Wakeup Empty (Fin (n + 1)) ρ) : Server ρ n :=
  { s with
    threads := threads
    sessions := put s.sessions r id (some (session.handle A c))
    received := put s.received r id (s.received r id ++ c.bytes) }

/-- The states that a step leads to. -/
inductive Next (opts : ReactorOptions) (A : Allocator) (s : Server ρ n) :
    Action ρ n → Server ρ n → Prop where
  | connect {r : ρ} {accepted : Bool} {conn : Connection} (hfree : s.Free r)
      (hcnt : (s.threads.reactors r).connectionCnt + 1 < 2 ^ 64)
      (hconn : Connection.init (s.threads.reactors r).connectionCnt
        opts.connectionOpts.readBufMinSize opts.connectionOpts.readBufMaxSize
        opts.protocolOpts = .ok conn) :
      Next opts A s (.connect r accepted) (s.afterConnect r conn accepted)
  /-- The callback returns, and the loop thread does what it asks for. -/
  | callback {r : ρ} {id : ConnectionId} {session : Session} {c : Callback}
      {threads : Wakeup Empty (Fin (n + 1)) ρ} (hsession : s.sessions r id = some session)
      (hfree : s.Free r) (hpermits : session.Permits c)
      (hreturns : ∀ e, (session.handle A c).status ≠ .crashed e)
      (hperform : (session.effects A c).foldlM (perform r) s.threads = some threads) :
      Next opts A s (.callback r id c) (s.afterCallback A r id session c threads)
  | close {r : ρ} {id : ConnectionId} {session : Session}
      (hsession : s.sessions r id = some session) (hfree : s.Free r)
      (hclosing : session.status = .closing) : Next opts A s (.close r id) (s.onClose r id)
  | thread {a : Wakeup.Action Empty (Fin (n + 1)) ρ}
      {threads : Wakeup Empty (Fin (n + 1)) ρ} (hpushes : a.pushes = false)
      (hthreads : s.threads.step a = some threads) :
      Next opts A s (.thread a) { s.recordWrite a with threads := threads }

/-- There are no others. -/
theorem next_of_step (hs : s.step opts A a = some s') : Next opts A s a s' := by
  cases a with
  | connect r accepted =>
    obtain ⟨hfree, hs⟩ := Option.ite_none_right_eq_some.mp hs
    obtain ⟨hcnt, hs⟩ := Option.ite_none_right_eq_some.mp hs
    cases hconn : Connection.init (s.threads.reactors r).connectionCnt
        opts.connectionOpts.readBufMinSize opts.connectionOpts.readBufMaxSize
        opts.protocolOpts with
    | error e =>
      rw [hconn] at hs
      cases hs
    | ok conn =>
      rw [hconn] at hs
      cases hs
      exact .connect hfree hcnt hconn
  | callback r id c =>
    cases hsession : s.sessions r id with
    | none =>
      simp only [Server.step, hsession] at hs
      cases hs
    | some session =>
      simp only [Server.step, hsession] at hs
      obtain ⟨⟨hfree, hpermits⟩, hs⟩ := Option.ite_none_right_eq_some.mp hs
      unfold Server.callback at hs
      split at hs
      · cases hs
      · rename_i hreturns
        obtain ⟨threads, hperform, rfl⟩ := Option.map_eq_some_iff.mp hs
        exact .callback hsession hfree hpermits hreturns hperform
  | close r id =>
    cases hsession : s.sessions r id with
    | none =>
      simp only [Server.step, hsession] at hs
      cases hs
    | some session =>
      simp only [Server.step, hsession] at hs
      obtain ⟨⟨hfree, hclosing⟩, hs⟩ := Option.ite_none_right_eq_some.mp hs
      cases hs
      exact .close hsession hfree hclosing
  | thread a =>
    obtain ⟨hpushes, hs⟩ := Option.ite_none_right_eq_some.mp hs
    obtain ⟨threads, hthreads, rfl⟩ := Option.map_eq_some_iff.mp hs
    exact .thread hpushes hthreads

/-- The connections that a step creates on the reactor. -/
def Action.creates (r : ρ) : Action ρ n → Nat
  | .connect q _ => if q = r then 1 else 0
  | _ => 0

/-- What a callback asks for creates no connection. -/
theorem connectionCnt_perform {r : ρ} (effects : List Effect) :
    ∀ {threads threads' : Wakeup Empty (Fin (n + 1)) ρ},
      effects.foldlM (perform r) threads = some threads' → ∀ q,
      (threads'.reactors q).connectionCnt = (threads.reactors q).connectionCnt := by
  induction effects with
  | nil =>
    intro threads threads' hs q
    cases hs
    rfl
  | cons effect effects ih =>
    intro threads threads' hs q
    rw [List.foldlM_cons] at hs
    obtain ⟨between, hfirst, hrest⟩ := Option.bind_eq_some_iff.mp hs
    rw [ih hrest q]
    cases effect with
    | dispatch id tasks =>
      rw [perform] at hfirst
      exact Wakeup.connectionCnt_step hfirst q
    | handleClose =>
      cases hfirst
      rfl

/-- Only `_on_connect` counts the connections of its reactor. -/
theorem connectionCnt_step (hs : s.step opts A a = some s') (r : ρ) :
    (s'.threads.reactors r).connectionCnt
      = (s.threads.reactors r).connectionCnt + a.creates r := by
  cases next_of_step hs with
  | @connect q accepted conn hfree hcnt hconn =>
    show (Function.update s.threads.reactors q _ r).connectionCnt
      = _ + if q = r then 1 else 0
    by_cases hr : r = q
    · subst hr
      rw [Function.update_self, if_pos rfl]
      exact Nat.mod_eq_of_lt hcnt
    · rw [Function.update_of_ne hr, if_neg (Ne.symm hr)]
      rfl
  | callback hsession hfree hpermits hreturns hperform => exact connectionCnt_perform _ hperform r
  | @close q id session hsession hfree hclosing =>
    exact Reactor.connectionCnt_update s.threads.reactors q
      ((s.threads.reactors q).removeConnection id) rfl r
  | thread hpushes hthreads => exact Wakeup.connectionCnt_step hthreads r

end VectorEngine.Server
