import Mathlib.Data.List.Infix
import VectorEngine.Proofs.Resp.Loop
import VectorEngine.Resp.ReplyReader
import VectorEngine.Worker

/-!
# `VectorEngine.Proofs.Resp.Replies`: one reply for each command

Every reply of the engine is one line. The reply to an unknown command quotes the name, and
a name can hold a line end. `replies_split_iff` says that the client reads the replies as
they were meant exactly when no unknown name does.
-/

set_option autoImplicit false

namespace VectorEngine.Resp

open VectorEngine.Stream

/-- The text of the reply line. -/
def replyText (cmd : RespCommand) : ByteString :=
  if Str.toLower cmd.name = bytesOf "ping" then bytesOf "PONG"
  else bytesOf "unknown command: " ++ cmd.name

/-- Every reply is a simple string or an error: one line. -/
theorem replyOf_eq (cmd : RespCommand) :
    ∃ b : Byte, (b = '+'.toUInt8 ∨ b = '-'.toUInt8) ∧
      replyOf cmd = b :: replyText cmd ++ CRLF := by
  unfold replyOf replyText
  rw [RespTaskCreator.create_eq]
  by_cases hping : Str.toLower cmd.name = bytesOf "ping"
  · rw [if_pos hping, if_pos hping]
    exact ⟨'+'.toUInt8, Or.inl rfl, rfl⟩
  · rw [if_neg hping, if_neg hping]
    exact ⟨'-'.toUInt8, Or.inr rfl, rfl⟩

/-- Behind bytes without `'\r'`, a line end can only be inside what follows them. -/
theorem crlf_infix_append_iff {p s : List Byte} (hp : CR ∉ p) :
    CRLF <:+: p ++ s ↔ CRLF <:+: s := by
  constructor
  · intro h
    induction p with
    | nil => exact h
    | cons b p ih =>
      rw [List.mem_cons, not_or] at hp
      rw [List.cons_append, List.infix_cons_iff] at h
      rcases h with ⟨t, ht⟩ | h
      · rw [CRLF, List.cons_append, List.cons.injEq] at ht
        exact absurd ht.1 hp.1
      · exact ih hp.2 h
  · intro h
    exact h.trans (List.suffix_append p s).isInfix

/-- The line of a reply is broken exactly when an unknown name holds a line end. -/
theorem crlf_infix_replyText_iff (cmd : RespCommand) :
    CRLF <:+: replyText cmd ↔ Str.toLower cmd.name ≠ bytesOf "ping" ∧ CRLF <:+: cmd.name := by
  unfold replyText
  by_cases hping : Str.toLower cmd.name = bytesOf "ping"
  · rw [if_pos hping]
    constructor
    · intro h
      exact absurd h (ReplyReader.not_crlf_infix_of_CR (by decide))
    · intro h
      exact absurd hping h.1
  · rw [if_neg hping, crlf_infix_append_iff (by decide)]
    exact ⟨fun h => ⟨hping, h⟩, fun h => h.2⟩

/-- Read as replies, the bytes of a batch are the replies of its commands. -/
def RepliesSplit (cmds : List RespCommand) (bytes : ByteString) : Prop :=
  splitReply.drain bytes = .ok (cmds.map replyOf, [])

/-- **One reply for each command, exactly when no unknown name breaks its line.** A client takes
one reply after another off the stream. It finds the right ones if no unknown name has a line end
in it, as such a name is copied into the line of an error. It finds others, or an incomplete one,
if some name has. The induction is on the commands, since the replies are read one after another.
-/
theorem replies_split_iff {ρ : Type} (cmds : List RespCommand) (id : ConnectionId)
    (reactor : Option ρ) :
    RepliesSplit cmds (runBatchTask (BatchTask.ofCommands cmds id reactor)).reply ↔
      ∀ cmd ∈ cmds, ¬ (Str.toLower cmd.name ≠ bytesOf "ping" ∧ CRLF <:+: cmd.name) := by
  unfold RepliesSplit
  rw [reply_ofCommands]
  induction cmds with
  | nil =>
    have hnil : splitReply.drain [] = .ok ([], []) := Scanner.drain_more rfl
    simp [hnil]
  | cons cmd cmds ih =>
    obtain ⟨b, hb, hreply⟩ := replyOf_eq cmd
    rw [List.map_cons, List.flatten_cons, List.forall_mem_cons, ← ih,
      ← crlf_infix_replyText_iff, hreply]
    constructor
    · intro h
      cases hsplit : splitReply (b :: replyText cmd ++ CRLF ++ (cmds.map replyOf).flatten) with
      | done a r =>
        rw [Scanner.drain_done consumes_splitReply hsplit, Scanner.prepend_eq_ok] at h
        obtain ⟨as, htail, hcons⟩ := h
        rw [List.singleton_append, List.cons.injEq] at hcons
        obtain ⟨rfl, rfl⟩ := hcons
        -- The bytes behind the first reply are those of the other commands.
        have hrest := List.append_cancel_left (splitReply_done hsplit).1
        rw [← hrest] at htail hsplit
        exact ⟨not_crlf_infix_of_splitReply hb hsplit, htail⟩
      | more =>
        rw [Scanner.drain_more hsplit] at h
        cases h
      | fail e =>
        rw [Scanner.drain_fail hsplit] at h
        cases h
    · rintro ⟨hline, htail⟩
      rw [Scanner.drain_done consumes_splitReply (splitReply_line hb hline _), htail]
      rfl

/-- The name `x`, a line end, `+OK`. -/
def twoLines : RespCommand := { name := bytesOf "x\r\n+OK", args := [] }

/-- The parser returns the command `twoLines`, whose name has a line end in it. There is one
command and one error line for it, which its client reads as two replies. -/
theorem replies_not_split :
    parse .ample (bytesOf "*1\r\n$6\r\nx\r\n+OK\r\n") = .ok ([twoLines], 16) ∧
      splitReply.drain (runBatchTask (BatchTask.ofCommands (ρ := Unit) [twoLines] 0 none)).reply
        = .ok ([bytesOf "-unknown command: x\r\n", bytesOf "+OK\r\n"], []) ∧
      ¬ RepliesSplit [twoLines]
        (runBatchTask (BatchTask.ofCommands (ρ := Unit) [twoLines] 0 none)).reply := by
  have hdrain : splitReply.drain
      (runBatchTask (BatchTask.ofCommands (ρ := Unit) [twoLines] 0 none)).reply
      = .ok ([bytesOf "-unknown command: x\r\n", bytesOf "+OK\r\n"], []) := by
    decide +kernel
  refine ⟨by decide +kernel, hdrain, ?_⟩
  unfold RepliesSplit
  rw [hdrain]
  intro h
  injection h with h
  -- Two replies are not one.
  have hcount : 2 = 1 := congrArg (fun p => p.1.length) h
  omega

end VectorEngine.Resp
