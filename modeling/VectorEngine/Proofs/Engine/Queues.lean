import VectorEngine.Engine

/-!
# `VectorEngine.Proofs.Engine.Queues`: workers and reactors as queues

Between two steps a worker is a queue of batches, and a reactor a queue of replies. What was
swapped out comes first, and what was submitted since comes behind it. Swapping changes
neither queue. This module has one lemma for each operation: which end of which queue it
changes.
-/

set_option autoImplicit false

namespace VectorEngine

variable {ρ : Type}

/-! ### Workers -/

namespace Worker

variable {w w' : Worker ρ}

/-- The batches of the worker, in the order in which it will run them. -/
def pending (w : Worker ρ) : List (BatchTask ρ) := w.tasks ++ w.queue

/-- Between two steps the local vector `replies` is empty, and the local list `tasks` is empty
while the thread waits. A reply leaves the vector in the step that puts it there. -/
structure Calm (w : Worker ρ) : Prop where
  replies : w.replies = []
  tasks : w.phase = .fetching → w.tasks = []

/-- A new worker has no replies in its hands. -/
theorem calm_init : (init : Worker ρ).Calm := ⟨rfl, fun _ => rfl⟩

/-- A batch that is pushed does not touch the replies of the thread. -/
theorem Calm.submit (h : w.Calm) (b : BatchTask ρ) : (w.submit b).Calm :=
  ⟨h.replies, h.tasks⟩

/-- A batch is submitted at the back. -/
theorem pending_submit (w : Worker ρ) (b : BatchTask ρ) :
    (w.submit b).pending = w.pending ++ [b] := by
  show w.tasks ++ (w.queue ++ [b]) = w.tasks ++ w.queue ++ [b]
  rw [List.append_assoc]

/-- The whole queue becomes the local list. -/
theorem fetchTasks_cases (hstep : w.fetchTasks = some w') :
    w.phase = .fetching ∧
      w' = { queue := [], phase := .running, tasks := w.queue, replies := [],
             stopThread := false } := by
  obtain ⟨hphase, hstep⟩ := Option.ite_none_right_eq_some.mp hstep
  cases hstep
  exact ⟨hphase.1, rfl⟩

/-- The round has ended when the list is empty. The thread leaves its loop after a sentinel. -/
theorem finishRound_cases (hstep : w.finishRound = some w') :
    w.phase = .running ∧ w.tasks = [] ∧
      w' = { w with phase := if w.stopThread then .exited else .fetching } := by
  obtain ⟨hphase, hstep⟩ := Option.ite_none_right_eq_some.mp hstep
  cases hstep
  exact ⟨hphase.1, hphase.2, rfl⟩

/-- The front of the list is taken. A batch is answered, and a sentinel is remembered. -/
theorem runNext_cases {out : Option (ρ × List Reply)} (hstep : w.runNext = some (w', out)) :
    w.phase = .running ∧ ∃ b tasks, w.tasks = b :: tasks ∧
      out = (b.reactor.map fun r => (r, w.replies ++ [runBatchTask b])) ∧
      w' = { w with tasks := tasks
                    replies := if b.reactor.isSome then [] else w.replies
                    stopThread := w.stopThread || !b.reactor.isSome } := by
  unfold runNext at hstep
  split at hstep
  · rename_i b tasks hphase htasks
    refine ⟨hphase, b, tasks, htasks, ?_⟩
    cases hreactor : b.reactor with
    | none =>
      simp only [hreactor] at hstep
      cases hstep
      exact ⟨rfl, by simp⟩
    | some r =>
      simp only [hreactor] at hstep
      cases hstep
      exact ⟨rfl, by simp⟩
  · cases hstep

/-- Swapping out the queue changes nothing. -/
theorem fetchTasks_spec (h : w.Calm) (hstep : w.fetchTasks = some w') :
    w'.Calm ∧ w'.pending = w.pending := by
  obtain ⟨hphase, rfl⟩ := fetchTasks_cases hstep
  refine ⟨⟨rfl, fun hf => nomatch hf⟩, ?_⟩
  show w.queue ++ [] = w.tasks ++ w.queue
  rw [h.tasks hphase, List.append_nil, List.nil_append]

/-- The test behind the `for` loop changes nothing. -/
theorem finishRound_spec (h : w.Calm) (hstep : w.finishRound = some w') :
    w'.Calm ∧ w'.pending = w.pending := by
  obtain ⟨-, htasks, rfl⟩ := finishRound_cases hstep
  exact ⟨⟨h.replies, fun _ => htasks⟩, rfl⟩

/-- A round of the `for` loop takes the batch at the front. It sends the reply of this batch
and no other to the reactor of the batch. A sentinel is not answered. -/
theorem runNext_spec (h : w.Calm) {out : Option (ρ × List Reply)}
    (hstep : w.runNext = some (w', out)) :
    w'.Calm ∧ ∃ b, w.pending = b :: w'.pending ∧
      out = b.reactor.map fun r => (r, [runBatchTask b]) := by
  obtain ⟨hphase, b, tasks, htasks, rfl, rfl⟩ := runNext_cases hstep
  refine ⟨⟨?_, fun hf => nomatch hphase.symm.trans hf⟩, b, ?_, ?_⟩
  · show (if b.reactor.isSome then [] else w.replies) = []
    rw [h.replies, ite_self]
  · show w.tasks ++ w.queue = b :: (tasks ++ w.queue)
    rw [htasks]
    rfl
  · rw [h.replies]
    rfl

end Worker

/-! ### Reactors -/

namespace Reactor

variable {r r' : Reactor}

/-- The replies of the reactor, in the order in which it will write them. -/
def pending (r : Reactor) : List Reply := r.swapped ++ r.replies

/-- A new connection has no replies. -/
theorem pending_createClient (r : Reactor) : r.createClient.pending = r.pending := rfl

/-- The replies to a connection that is removed stay where they are. -/
theorem pending_removeConnection (r : Reactor) (id : ConnectionId) :
    (r.removeConnection id).pending = r.pending := rfl

/-- Replies are sent to the back. -/
theorem pending_send (r : Reactor) (replies : List Reply) :
    (r.send replies).pending = r.pending ++ replies := by
  show r.swapped ++ (r.replies ++ replies) = r.swapped ++ r.replies ++ replies
  rw [List.append_assoc]

/-- Swapping out the replies changes nothing. -/
theorem swapReplies_spec (hstep : r.swapReplies = some r') :
    r'.pending = r.pending ∧ r'.connections = r.connections ∧
      r'.connectionCnt = r.connectionCnt := by
  obtain ⟨hswapped, hstep⟩ := Option.ite_none_right_eq_some.mp hstep
  cases hstep
  refine ⟨?_, rfl, rfl⟩
  show r.replies ++ [] = r.swapped ++ r.replies
  rw [hswapped, List.append_nil, List.nil_append]

/-- A write takes the reply at the front, and hands it over if its connection is there. -/
theorem writeReply_spec {out : Option Reply} (hstep : r.writeReply = some (r', out)) :
    ∃ reply, r.pending = reply :: r'.pending ∧
      out = (if reply.connectionId ∈ r.connections then some reply else none) ∧
      r'.connections = r.connections ∧ r'.connectionCnt = r.connectionCnt := by
  unfold writeReply at hstep
  split at hstep
  · cases hstep
  · rename_i reply swapped hswapped
    cases hstep
    refine ⟨reply, ?_, rfl, rfl, rfl⟩
    show r.swapped ++ r.replies = reply :: (swapped ++ r.replies)
    rw [hswapped]
    rfl

end Reactor

end VectorEngine
