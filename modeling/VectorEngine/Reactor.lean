import Mathlib.Data.Finset.Basic
import VectorEngine.Worker

/-!
# `VectorEngine.Reactor`: the connection table and the reply queue

What a reactor keeps for replies: the keys of `_connections`, the queue `_replies` that the
workers fill, and the list that `_send()` has swapped out and is writing. The handle that a
key maps to is left out, as each key has one.
-/

set_option autoImplicit false

namespace VectorEngine

/-- The members of `Reactor` that the replies go through: the replies that workers sent, those
that the loop has swapped out, and the table of the connections. Only the loop thread uses the
table. The replies are pushed by workers and swapped out by the loop thread, both under a lock. -/
structure Reactor where
  /-- `_connection_cnt` -/
  connectionCnt : ConnectionId
  /-- The keys of `_connections`. -/
  connections : Finset ConnectionId
  /-- `_replies` -/
  replies : List Reply
  /-- The local list `replies` of `_send()`, from the next reply on. -/
  swapped : List Reply
  deriving DecidableEq

namespace Reactor

/-- `Reactor::_create_client`: the next id, and its entry in the table. -/
def createClient (r : Reactor) : Reactor :=
  { r with connectionCnt := (r.connectionCnt + 1) % 2 ^ 64
           connections := insert r.connectionCnt r.connections }

/-- `Reactor::remove_connection` -/
def removeConnection (r : Reactor) (id : ConnectionId) : Reactor :=
  { r with connections := r.connections.erase id }

/-- `Reactor::send` -/
def send (r : Reactor) (replies : List Reply) : Reactor :=
  { r with replies := r.replies ++ replies }

/-- The swap in `Reactor::_send()`. The loop thread starts a new `_send()` after the last
one has returned. -/
def swapReplies (r : Reactor) : Option Reactor :=
  if r.swapped = [] then some { r with swapped := r.replies, replies := [] } else none

/-- One round of the loop in `Reactor::_send()`: `_send(reply)`. The reply is handed to
`uv_write` if its connection is in the table. -/
def writeReply (r : Reactor) : Option (Reactor × Option Reply) :=
  match r.swapped with
  | [] => none
  | reply :: swapped =>
    some ({ r with swapped := swapped },
      if reply.connectionId ∈ r.connections then some reply else none)

end Reactor

end VectorEngine
