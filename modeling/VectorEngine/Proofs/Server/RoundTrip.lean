import VectorEngine.Proofs.Resp.Encoding
import VectorEngine.Proofs.Resp.Replies
import VectorEngine.Proofs.Server.Answers

/-!
# `VectorEngine.Proofs.Server.RoundTrip`: the server as its client sees it

A client encodes commands with `RespReplyBuilder`, and reads what comes back with the grammar of
replies. `round_trip_of_run` says that it gets one reply for each command, in their order, when
the threads of the server have come to rest. `length_written_le` bounds what it gets by what it
has sent, for any bytes and at any time: no byte of a request makes for more than two bytes of
replies.
-/

set_option autoImplicit false

namespace VectorEngine

open VectorEngine.Resp
open VectorEngine.Stream
open VectorEngine.Transition

/-! ### The length of a reply -/

/-- The shortest frame has ten bytes, and no reply has more than its name and twenty. -/
theorem length_replyOf_le {cmd : RespCommand} {u : List Byte} (h : Frame cmd u) :
    (replyOf cmd).length ≤ 2 * u.length := by
  have hname := h.length_ge.2 cmd.name (by simp)
  obtain ⟨b, -, hreply⟩ := replyOf_eq cmd
  have htext : (replyText cmd).length ≤ cmd.name.length + 17 := by
    unfold replyText
    split <;> simp [bytesOf]
  rw [hreply, List.cons_append, List.length_cons, List.length_append]
  have hcrlf : CRLF.length = 2 := rfl
  omega

/-- The replies are no longer than twice the frames. -/
theorem length_replies_le {cmds : List RespCommand} {us : List (List Byte)}
    (h : List.Forall₂ Frame cmds us) :
    (cmds.flatMap replyOf).length ≤ 2 * us.flatten.length := by
  induction h with
  | nil => simp
  | @cons cmd u cmds us hu _ ih =>
    have hhead := length_replyOf_le hu
    rw [List.flatMap_cons, List.flatten_cons, List.length_append, List.length_append]
    omega

/-! ### The replies as a client reads them -/

/-- No line end in the middle of a reply. -/
def OneLine (cmd : RespCommand) : Prop :=
  Str.toLower cmd.name = bytesOf "ping" ∨ ¬ CRLF <:+: cmd.name

/-- Replies of one line each are told apart. -/
theorem drain_replies {cmds : List RespCommand} (h : ∀ cmd ∈ cmds, OneLine cmd) :
    splitReply.drain (cmds.flatMap replyOf) = .ok (cmds.map replyOf, []) := by
  induction cmds with
  | nil => exact Scanner.drain_more rfl
  | cons cmd cmds ih =>
    obtain ⟨b, hb, hreply⟩ := replyOf_eq cmd
    have hline : ¬ CRLF <:+: replyText cmd := by
      rw [crlf_infix_replyText_iff]
      rcases h cmd (by simp) with hping | hname
      · exact fun hbroken => hbroken.1 hping
      · exact fun hbroken => hname hbroken.2
    rw [List.flatMap_cons, List.map_cons, hreply,
      Scanner.drain_done consumes_splitReply (splitReply_line hb hline _),
      ih fun c hc => h c (by simp [hc])]
    rfl

/-- The server reads what the client has encoded. -/
theorem drain_encode {A : Allocator} (hA : A.Succeeds) {cmds : List RespCommand}
    (hlen : (encode cmds).length < 2 ^ 32) :
    (scanCommand A).drain (encode cmds) = .ok (cmds, []) := by
  obtain ⟨hframes, hcmds⟩ := encode_frames hlen
  have hcomplete := Scanner.drain_complete (consumes_scanCommand A) hframes
    (fun c hc => scanCommand_complete (hcmds c hc).1
      ⟨hA.reserve _, fun s hs => hA.string _ ((hcmds c hc).2 s hs)⟩) []
  have hnil : (scanCommand A).drain [] = .ok ([], []) := Scanner.drain_more rfl
  rw [hnil, ← encode_eq, Scanner.prepend_ok, List.append_nil, List.append_nil] at hcomplete
  exact hcomplete

namespace Server

variable {ρ : Type} [DecidableEq ρ] {n : Nat}
variable {opts : ReactorOptions} {A : Allocator} {s : Server ρ n}

/-- **A client gets no more than twice what it has sent.** In every state that can be reached,
for every connection, open or closed, and whatever was received on it. -/
theorem length_written_le (hopts : opts.Serves) {path : List (Server ρ n × Action ρ n)}
    (hrun : Run (step opts A) init path s) (r : ρ) (id : ConnectionId) :
    (s.written r id).length ≤ 2 * (s.received r id).length := by
  obtain ⟨-, e, -, h⟩ := represents_of_run hopts hrun
  obtain ⟨front, cmds, rest, hfront, hdrain, hwritten⟩ := h.written_front r id
  obtain ⟨us, hframes, hus⟩ :=
    Scanner.drain_sound (consumes_scanCommand A) (scanCommand_sound A) hdrain
  calc (s.written r id).length
      ≤ (cmds.flatMap replyOf).length := hwritten.length_le
    _ ≤ 2 * us.flatten.length := length_replies_le hframes
    _ ≤ 2 * front.length := by
        rw [hus, List.length_append]
        omega
    _ ≤ 2 * (s.received r id).length := Nat.mul_le_mul_left 2 hfront.length_le

/-- In the run of the example something is written, and it is at most twice as long as what was
received. -/
theorem length_written_le_ping :
    ∃ path s, Run (step Service.bufferOptions .ample) (init : Server Bool 0) path s ∧
      s.written true 0 ≠ [] ∧
      (s.written true 0).length ≤ 2 * (s.received true 0).length := by
  obtain ⟨path, hrun, -⟩ := Run.exec (pingReads ++ pingSteps) .nil exec_pingSteps
  exact ⟨path, pongServer, hrun, by decide +kernel,
    length_written_le serves_bufferOptions hrun true 0⟩

/-- **One reply for each command.** A client has sent the encodings of some commands, in any
reads, and the threads have come to rest. If no unknown name has a line end in it, the client
reads exactly the replies to its commands, in their order, and no byte is left over. -/
theorem round_trip_of_run (hopts : opts.Serves) (hA : A.Succeeds)
    {path : List (Server ρ n × Action ρ n)} (hrun : Run (step opts A) init path s)
    (hrest : AtRest (step opts A) Action.Own s) {r : ρ} {id : ConnectionId} {session : Session}
    (hsession : s.sessions r id = some session) (hopened : session.status = .opened)
    {cmds : List RespCommand} (hreceived : s.received r id = encode cmds)
    (hlen : (encode cmds).length < 2 ^ 32) (hlines : ∀ cmd ∈ cmds, OneLine cmd) :
    splitReply.drain (s.written r id) = .ok (cmds.map replyOf, []) := by
  obtain ⟨steps, e, hengine, h⟩ := represents_of_run hopts hrun
  have hsound := sound_of_run sound_init hrun
  have hsettled := Wakeup.settled_of_atRest hsound.attended hsound.placed (threads_atRest hrest)
  have hanswers := h.answers_opened hsession hopened (by rw [hreceived]; omega)
  rw [h.onTheWay_eq_nil (Engine.unstopped_of_run initial_engineInit hengine) hsettled,
    List.append_nil, hreceived, answers_of_drain (by omega) (drain_encode hA hlen)] at hanswers
  rw [← Except.ok.inj hanswers]
  exact drain_replies hlines

/-- The client of `pingReads` has encoded its `PING`. When the threads have come to rest, it reads
one reply off what was written to it, and nothing is left over. -/
theorem round_trip_of_run_ping :
    ∃ path s, Run (step Service.bufferOptions .ample) (init : Server Bool 0) path s ∧
      s.received true 0 = encode [ping] ∧
      splitReply.drain (s.written true 0) = .ok ([replyOf ping], []) := by
  obtain ⟨path, hrun, -⟩ := Run.exec pingReads .nil exec_pingReads
  obtain ⟨path', s', hrun', -, ⟨hsessions, hreceived⟩, hrest⟩ :=
    exists_rest Service.bufferOptions .ample pingServer
  obtain ⟨session, hsession, hstatus⟩ := opened_pingServer
  have hencoded : s'.received true 0 = encode [ping] := by
    rw [hreceived]
    decide +kernel
  rw [← hsessions] at hsession
  exact ⟨_, s', hrun.append hrun', hencoded,
    round_trip_of_run serves_bufferOptions Allocator.ample_succeeds (hrun.append hrun') hrest
      hsession hstatus hencoded (by decide +kernel)
      fun cmd hcmd => Or.inl (by rw [List.mem_singleton.mp hcmd]; decide +kernel)⟩

end Server

end VectorEngine
