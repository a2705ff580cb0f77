import VectorEngine.Proofs.Engine.Queues
import VectorEngine.Wakeup

/-!
# `VectorEngine.Proofs.Wakeup.Next`: what one step of a thread can do

`Next` lists the states that a step leads to, with the conditions under which a thread takes it.
`next_of_step` is the inversion of `step`. `connectionCnt_step` is a first use of it: only the
event loop creates connections, and never in a step of the threads.
-/

set_option autoImplicit false

namespace VectorEngine

/-- A reactor is replaced by one with the same counter. -/
theorem Reactor.connectionCnt_update {ρ : Type} [DecidableEq ρ] (reactors : ρ → Reactor) (q : ρ)
    (x : Reactor) (hx : x.connectionCnt = (reactors q).connectionCnt) (r : ρ) :
    (Function.update reactors q x r).connectionCnt = (reactors r).connectionCnt := by
  by_cases hr : r = q
  · subst hr
    rw [Function.update_self, hx]
  · rw [Function.update_of_ne hr]

namespace Wakeup

variable {τ ω ρ : Type} [DecidableEq τ] [DecidableEq ω] [DecidableEq ρ]
variable {s s' : Wakeup τ ω ρ} {a : Action τ ω ρ}

/-- The states that a step leads to. -/
inductive Next (s : Wakeup τ ω ρ) : Action τ ω ρ → Wakeup τ ω ρ → Prop where
  | submit (caller : Caller τ ω ρ) (w : ω) (batchTask : BatchTask ρ)
      (hfree : s.owed caller = none) (hsubmits : s.Submits caller) :
      Next s (.submit caller w batchTask)
        ((s.setWorker w ((s.workers w).submit batchTask)).setOwed caller (some (.worker w)))
  | send (t : τ) (r : ρ) (replies : List Reply) (hfree : s.owed (.thread t) = none) :
      Next s (.send t r replies)
        ((s.setReactor r ((s.reactors r).send replies)).setOwed (.thread t) (some (.reactor r)))
  | notify (caller : Caller τ ω ρ) (owed : Owed ω ρ) (howed : s.owed caller = some owed) :
      Next s (.notify caller) ((s.setOwed caller none).deliver owed)
  | block (w : ω) (hphase : (s.workers w).phase = .fetching)
      (hfree : s.owed (.worker w) = none) (hwaiting : s.waiting w ≠ .blocked)
      (hqueue : (s.workers w).queue = []) : Next s (.block w) (s.setWaiting w .blocked)
  | fetch (w : ω) (worker : Worker ρ) (hfree : s.owed (.worker w) = none)
      (hwaiting : s.waiting w ≠ .blocked) (hfetch : (s.workers w).fetchTasks = some worker) :
      Next s (.fetch w) ((s.setWorker w worker).setWaiting w .awake)
  | spurious (w : ω) (hblocked : s.waiting w = .blocked) :
      Next s (.spurious w) (s.setWaiting w .notified)
  | run (w : ω) (worker : Worker ρ) (out : Option (ρ × List Reply))
      (hfree : s.owed (.worker w) = none) (hrun : (s.workers w).runNext = some (worker, out)) :
      Next s (.run w) ((s.setWorker w worker).callSend w out)
  | finish (w : ω) (worker : Worker ρ) (hfree : s.owed (.worker w) = none)
      (hfinish : (s.workers w).finishRound = some worker) :
      Next s (.finish w) (s.setWorker w worker)
  | start (r : ρ) (hpolling : s.loops r = .polling) (hfree : s.owed (.loop r) = none)
      (hflag : s.flag r = true) :
      Next s (.start r) ({ s with flag := Function.update s.flag r false }.setLoop r .started)
  | swap (r : ρ) (reactor : Reactor) (hstarted : s.loops r = .started)
      (hswap : (s.reactors r).swapReplies = some reactor) :
      Next s (.swap r) ((s.setReactor r reactor).setLoop r .writing)
  | write (r : ρ) (reactor : Reactor) (out : Option Reply) (hwriting : s.loops r = .writing)
      (hwrite : (s.reactors r).writeReply = some (reactor, out)) :
      Next s (.write r) (s.setReactor r reactor)
  | returned (r : ρ) (hwriting : s.loops r = .writing)
      (hswapped : (s.reactors r).swapped = []) : Next s (.returned r) (s.setLoop r .polling)

/-- There are no others. -/
theorem next_of_step (hs : s.step a = some s') : s.Next a s' := by
  cases a with
  | submit caller w batchTask =>
    obtain ⟨⟨hfree, hsubmits⟩, hs⟩ := Option.ite_none_right_eq_some.mp hs
    cases hs
    exact .submit caller w batchTask hfree hsubmits
  | send t r replies =>
    obtain ⟨hfree, hs⟩ := Option.ite_none_right_eq_some.mp hs
    cases hs
    exact .send t r replies hfree
  | notify caller =>
    cases howed : s.owed caller with
    | none =>
      simp only [step, howed] at hs
      cases hs
    | some owed =>
      simp only [step, howed] at hs
      cases hs
      exact .notify caller owed howed
  | block w =>
    obtain ⟨⟨hphase, hfree, hwaiting, hqueue⟩, hs⟩ := Option.ite_none_right_eq_some.mp hs
    cases hs
    exact .block w hphase hfree hwaiting hqueue
  | fetch w =>
    obtain ⟨⟨hfree, hwaiting⟩, hs⟩ := Option.ite_none_right_eq_some.mp hs
    obtain ⟨worker, hfetch, rfl⟩ := Option.map_eq_some_iff.mp hs
    exact .fetch w worker hfree hwaiting hfetch
  | spurious w =>
    obtain ⟨hblocked, hs⟩ := Option.ite_none_right_eq_some.mp hs
    cases hs
    exact .spurious w hblocked
  | run w =>
    obtain ⟨hfree, hs⟩ := Option.ite_none_right_eq_some.mp hs
    obtain ⟨⟨worker, out⟩, hrun, rfl⟩ := Option.map_eq_some_iff.mp hs
    exact .run w worker out hfree hrun
  | finish w =>
    obtain ⟨hfree, hs⟩ := Option.ite_none_right_eq_some.mp hs
    obtain ⟨worker, hfinish, rfl⟩ := Option.map_eq_some_iff.mp hs
    exact .finish w worker hfree hfinish
  | start r =>
    obtain ⟨⟨hpolling, hfree, hflag⟩, hs⟩ := Option.ite_none_right_eq_some.mp hs
    cases hs
    exact .start r hpolling hfree hflag
  | swap r =>
    obtain ⟨hstarted, hs⟩ := Option.ite_none_right_eq_some.mp hs
    obtain ⟨reactor, hswap, rfl⟩ := Option.map_eq_some_iff.mp hs
    exact .swap r reactor hstarted hswap
  | write r =>
    obtain ⟨hwriting, hs⟩ := Option.ite_none_right_eq_some.mp hs
    obtain ⟨⟨reactor, out⟩, hwrite, rfl⟩ := Option.map_eq_some_iff.mp hs
    exact .write r reactor out hwriting hwrite
  | returned r =>
    obtain ⟨⟨hwriting, hswapped⟩, hs⟩ := Option.ite_none_right_eq_some.mp hs
    cases hs
    exact .returned r hwriting hswapped

/-- The threads create no connection between two callbacks. -/
theorem connectionCnt_step (hs : s.step a = some s') (r : ρ) :
    (s'.reactors r).connectionCnt = (s.reactors r).connectionCnt := by
  have hsend (q : ρ) (replies : List Reply) :
      (Function.update s.reactors q ((s.reactors q).send replies) r).connectionCnt
        = (s.reactors r).connectionCnt :=
    Reactor.connectionCnt_update s.reactors q ((s.reactors q).send replies) rfl r
  cases next_of_step hs with
  | send t q replies hfree => exact hsend q replies
  | notify caller owed howed =>
    cases owed with
    | reactor q => rfl
    | worker w =>
      rw [deliver]
      split <;> rfl
  | run w worker out hfree hrun =>
    cases out with
    | none => rfl
    | some call => exact hsend call.1 call.2
  | swap q reactor hstarted hswap =>
    exact Reactor.connectionCnt_update s.reactors q reactor (Reactor.swapReplies_spec hswap).2.2 r
  | write q reactor out hwriting hwrite =>
    obtain ⟨-, -, -, -, hcnt⟩ := Reactor.writeReply_spec hwrite
    exact Reactor.connectionCnt_update s.reactors q reactor hcnt r
  | _ => rfl

end Wakeup

end VectorEngine
