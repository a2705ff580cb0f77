import VectorEngine.Proofs.ReactorLoop.Next
import VectorEngine.Reactor
import VectorEngine.Transition.Run

/-!
# `VectorEngine.Proofs.ReactorLoop.Refinement`: the callbacks are reactor operations

`Reactor` keeps the keys of the connection table and the replies, and leaves out the handles,
the writes and the connections themselves. The engine is stated with it. Each callback of the
event loop does what some operations of `Reactor` do, and hands the same replies to `uv_write`
in the same order (`represents_step`). So a run of the loop is a run of those operations
(`moves_of_run`).

No other result is derived from this one. It is what entitles the engine and the server, whose
results are about `Reactor`, to say anything about the callbacks: the connection table, the
counter and the replies of the loop are always those of a `Reactor` that was taken through some
of its operations.

The second `emplace` of a client and a close callback that finds no connection are no operations.
`_on_reply` is one swap, and one write for each reply.
-/

set_option autoImplicit false

namespace VectorEngine

open VectorEngine.Memory
open VectorEngine.Transition

/-- Operations of a reactor, one after another, and the replies that they hand to `uv_write`. -/
inductive Reactor.Moves : Reactor → List Reply → Reactor → Prop where
  | done (r : Reactor) : Moves r [] r
  | createClient {r r' : Reactor} {out : List Reply} (h : Moves r.createClient out r') :
      Moves r out r'
  | removeConnection {r r' : Reactor} {out : List Reply} (id : ConnectionId)
      (h : Moves (r.removeConnection id) out r') : Moves r out r'
  | send {r r' : Reactor} {out : List Reply} (replies : List Reply)
      (h : Moves (r.send replies) out r') : Moves r out r'
  | swap {r r₁ r' : Reactor} {out : List Reply} (hswap : r.swapReplies = some r₁)
      (h : Moves r₁ out r') : Moves r out r'
  | write {r r₁ r' : Reactor} {reply : Option Reply} {out : List Reply}
      (hwrite : r.writeReply = some (r₁, reply)) (h : Moves r₁ out r') :
      Moves r (reply.toList ++ out) r'

/-- Some operations and then some more are operations, and the replies are handed over in that
order. -/
theorem Reactor.Moves.trans {r r₁ r' : Reactor} {out out' : List Reply}
    (h : Moves r out r₁) (h' : Moves r₁ out' r') : Moves r (out ++ out') r' := by
  induction h with
  | done r => exact h'
  | createClient _ ih => exact .createClient (ih h')
  | removeConnection id _ ih => exact .removeConnection id (ih h')
  | send replies _ ih => exact .send replies (ih h')
  | swap hswap _ ih => exact .swap hswap (ih h')
  | write hwrite _ ih =>
    rw [List.append_assoc]
    exact .write hwrite (ih h')

namespace ReactorLoop

variable {opts : ReactorOptions} {A : Allocator} {s s' : ReactorLoop} {r : Reactor}

/-- The reactor has the counter, the keys and the replies of the loop. -/
structure Represents (s : ReactorLoop) (r : Reactor) : Prop where
  connectionCnt : r.connectionCnt = s.connectionCnt
  connections : ∀ id, id ∈ r.connections ↔ s.connections id ≠ none
  replies : r.replies = s.replies

/-- The replies that were handed to `uv_write`. -/
def handed (s : ReactorLoop) : List Reply := s.written.map Prod.fst

/-- What touches neither the table nor the replies is not seen. -/
theorem Represents.same (h : s.Represents r) (hcnt : s'.connectionCnt = s.connectionCnt)
    (htable : s'.connections = s.connections) (hreplies : s'.replies = s.replies) :
    s'.Represents r where
  connectionCnt := h.connectionCnt.trans hcnt.symm
  connections id := by
    rw [htable]
    exact h.connections id
  replies := h.replies.trans hreplies.symm

/-- Behind `emplace` the table has the id and the ids that it had before. An entry that was there
is not replaced. -/
theorem emplace_ne_none (table : ConnectionId → Option Ptr) (id : ConnectionId) (handle : Ptr)
    (id' : ConnectionId) : emplace table id handle id' ≠ none ↔ id' = id ∨ table id' ≠ none := by
  unfold emplace
  by_cases hfree : table id = none
  · rw [if_pos hfree]
    by_cases heq : id' = id
    · subst heq
      simp
    · rw [Function.update_of_ne heq]
      simp [heq]
  · rw [if_neg hfree]
    constructor
    · exact Or.inr
    · rintro (rfl | hthere)
      · exact hfree
      · exact hthere

/-- A new client is a new key. -/
theorem Represents.afterConnect (h : s.Represents r) (conn : Connection) (accepted : Bool) :
    (s.afterConnect conn accepted).Represents r.createClient where
  connectionCnt := by
    show (r.connectionCnt + 1) % 2 ^ 64 = (s.connectionCnt + 1) % 2 ^ 64
    rw [h.connectionCnt]
  connections id := by
    show id ∈ insert r.connectionCnt r.connections ↔
      emplace s.connections s.connectionCnt s.handles.next id ≠ none
    rw [Finset.mem_insert, emplace_ne_none, h.connections, h.connectionCnt]
  replies := h.replies

/-- A closed connection is a key less. -/
theorem Represents.close (h : s.Represents r) (id : ConnectionId)
    (hcnt : s'.connectionCnt = s.connectionCnt)
    (htable : s'.connections = Function.update s.connections id none)
    (hreplies : s'.replies = s.replies) : s'.Represents (r.removeConnection id) where
  connectionCnt := h.connectionCnt.trans hcnt.symm
  connections id' := by
    show id' ∈ r.connections.erase id ↔ s'.connections id' ≠ none
    rw [htable, Finset.mem_erase, h.connections]
    by_cases heq : id' = id
    · subst heq
      simp
    · rw [Function.update_of_ne heq]
      simp [heq]
  replies := h.replies.trans hreplies.symm

/-- One reply is one write of the reactor. -/
theorem Represents.sendReply (h : s.Represents r) (out : Reply × Bool) {rest : List Reply}
    (hswapped : r.swapped = out.1 :: rest) :
    ∃ reply, r.writeReply = some ({ r with swapped := rest }, reply) ∧
      (s.sendReply out).Represents { r with swapped := rest } ∧
      (s.sendReply out).handed = s.handed ++ reply.toList := by
  have hwrite : r.writeReply = some ({ r with swapped := rest },
      if out.1.connectionId ∈ r.connections then some out.1 else none) := by
    unfold Reactor.writeReply
    rw [hswapped]
  refine ⟨_, hwrite, ?_⟩
  cases hfound : s.connections out.1.connectionId with
  | none =>
    rw [sendReply_none hfound, if_neg fun hmem => (h.connections _).mp hmem hfound]
    exact ⟨⟨h.connectionCnt, h.connections, h.replies⟩, (List.append_nil _).symm⟩
  | some handle =>
    have hmem : out.1.connectionId ∈ r.connections := (h.connections _).mpr (by simp [hfound])
    rw [sendReply_some hfound, if_pos hmem]
    refine ⟨⟨h.connectionCnt, h.connections, h.replies⟩, ?_⟩
    show (s.written ++ [(out.1, handle)]).map Prod.fst = s.written.map Prod.fst ++ [out.1]
    rw [List.map_append]
    rfl

/-- The loop of `_send()`. -/
theorem Represents.foldl_sendReply (outs : List (Reply × Bool)) :
    ∀ {s : ReactorLoop} {r : Reactor}, s.Represents r → r.swapped = outs.map Prod.fst →
      ∃ r' out, Reactor.Moves r out r' ∧ (outs.foldl ReactorLoop.sendReply s).Represents r' ∧
        r'.swapped = [] ∧ (outs.foldl ReactorLoop.sendReply s).handed = s.handed ++ out := by
  induction outs with
  | nil => exact fun {s r} h hswapped => ⟨r, [], .done r, h, hswapped, (List.append_nil _).symm⟩
  | cons o outs ih =>
    intro s r h hswapped
    obtain ⟨reply, hwrite, h₁, hhanded⟩ := h.sendReply o hswapped
    obtain ⟨r', out, hmoves, h', hnone, hrest⟩ := ih h₁ rfl
    refine ⟨r', reply.toList ++ out, .write hwrite hmoves, h', hnone, ?_⟩
    rw [List.foldl_cons, hrest, hhanded, List.append_assoc]

/-- **Each callback is some operations of the reactor**, and writes what they write. -/
theorem represents_step {a : Action} (h : s.Represents r) (hidle : r.swapped = [])
    (hs : s.step opts A a = some s') :
    ∃ r' out, Reactor.Moves r out r' ∧ s'.Represents r' ∧ r'.swapped = [] ∧
      s'.handed = s.handed ++ out := by
  -- Most callbacks work on handles, buffers and writes alone.
  have hstay : ∀ t : ReactorLoop, t.connectionCnt = s.connectionCnt →
      t.connections = s.connections → t.replies = s.replies → t.written = s.written →
      ∃ r' out, Reactor.Moves r out r' ∧ t.Represents r' ∧ r'.swapped = [] ∧
        t.handed = s.handed ++ out := by
    intro t hcnt htable hreplies hwritten
    refine ⟨r, [], .done r, h.same hcnt htable hreplies, hidle, ?_⟩
    rw [handed, hwritten, List.append_nil]
    rfl
  cases next_of_step hs with
  | connectFailed status accepted => exact hstay _ rfl rfl rfl rfl
  | connect status accepted conn hid =>
    exact ⟨_, [], .createClient (.done _), h.afterConnect conn accepted, hidle,
      (List.append_nil _).symm⟩
  | allocFault handle suggestedSize hreads hlost => exact hstay _ rfl rfl rfl rfl
  | alloc handle suggestedSize connection conn conn' room hreads hconn hid =>
    exact hstay _ rfl rfl rfl rfl
  | readFault handle bytes hreads hlost => exact hstay _ rfl rfl rfl rfl
  | read handle bytes connection conn conn' n hreads hconn hid hn => exact hstay _ rfl rfl rfl rfl
  | readEnd handle nread n hreads hn => exact hstay _ rfl rfl rfl rfl
  | closeFault handle hmem hcloses hlost => exact hstay _ rfl rfl rfl rfl
  | close handle connection conn hmem hcloses hconn =>
    exact ⟨_, [], .removeConnection conn.id (.done _), h.close conn.id rfl rfl rfl, hidle,
      (List.append_nil _).symm⟩
  | send replies =>
    refine ⟨_, [], .send replies (.done _), ⟨h.connectionCnt, h.connections, ?_⟩, hidle,
      (List.append_nil _).symm⟩
    show r.replies ++ replies = s.replies ++ replies
    rw [h.replies]
  | reply accepted hlen =>
    -- One swap, and then the loop over what was swapped out.
    have hswap : r.swapReplies = some { r with swapped := r.replies, replies := [] } := by
      rw [Reactor.swapReplies, if_pos hidle]
    have hafter : Represents { s with replies := [] } { r with swapped := r.replies, replies := [] } :=
      ⟨h.connectionCnt, h.connections, rfl⟩
    have hlist : r.replies = (s.replies.zip accepted).map Prod.fst := by
      rw [h.replies, List.map_fst_zip (Nat.le_of_eq hlen.symm)]
    obtain ⟨r', out, hmoves, hrep, hnone, hhanded⟩ := hafter.foldl_sendReply _ hlist
    exact ⟨r', out, .swap hswap hmoves, hrep, hnone, hhanded⟩
  | writeFailed w status hmem hstatus => exact hstay _ rfl rfl rfl rfl
  | writeFault w status hmem hstatus hlost => exact hstay _ rfl rfl rfl rfl
  | write w ctx status hmem hstatus hreq => exact hstay _ rfl rfl rfl rfl

/-- **The callbacks are reactor operations.** In every run of the loop there is a reactor that its
operations have led to from the empty one, with the table, the counter and the replies of the
loop, and these operations have handed to `uv_write` exactly the replies that the callbacks have
handed to it, in the same order. -/
theorem moves_of_run {path : List (ReactorLoop × Action)}
    (hrun : Run (step opts A) init path s) :
    ∃ r, Reactor.Moves { connectionCnt := 0, connections := ∅, replies := [], swapped := [] }
      s.handed r ∧ s.Represents r ∧ r.swapped = [] := by
  induction hrun with
  | nil => exact ⟨_, .done _, ⟨rfl, fun id => by simp [init], rfl⟩, rfl⟩
  | snoc _ hs ih =>
    obtain ⟨r, hmoves, h, hidle⟩ := ih
    obtain ⟨r', out, hmoves', h', hidle', hhanded⟩ := represents_step h hidle hs
    refine ⟨r', ?_, h', hidle'⟩
    rw [hhanded]
    exact hmoves.trans hmoves'

end ReactorLoop

end VectorEngine
