import VectorEngine.Proofs.Resp.Scan
import VectorEngine.Proofs.Resp.Run
import VectorEngine.Proofs.Resp.Loop
import VectorEngine.Proofs.Resp.Grammar
import VectorEngine.Proofs.Resp.Encoding
import VectorEngine.Proofs.Resp.Replies
import VectorEngine.Connection
import VectorEngine.Proofs.Session.Step
import VectorEngine.Proofs.Session.Chunks
import VectorEngine.Proofs.Session.Limit
import VectorEngine.Proofs.Session.Errors
import VectorEngine.Proofs.Resp.Bounds
import VectorEngine.Proofs.Resp.View
import VectorEngine.Engine
import VectorEngine.Transition.Run
import VectorEngine.Proofs.Engine.Queues
import VectorEngine.Process
import VectorEngine.Proofs.Engine.Delivery
import VectorEngine.Proofs.Shutdown
import VectorEngine.Proofs.Resp.Decodable
import VectorEngine.Proofs.Buffer.Fifo
import VectorEngine.Proofs.Session.Assertions
import VectorEngine.Memory.Heap
import VectorEngine.ReactorLoop
import VectorEngine.Proofs.ReactorLoop.Next
import VectorEngine.Proofs.ReactorLoop.Table
import VectorEngine.Proofs.ReactorLoop.Writes
import VectorEngine.Lifetime
import VectorEngine.Proofs.Lifetime
import VectorEngine.Proofs.Wakeup
import VectorEngine.Pool
import VectorEngine.Proofs.Pool
import VectorEngine.Proofs.Service
import VectorEngine.Stream.Prompt
import VectorEngine.Proofs.Resp.Verdicts
import VectorEngine.Proofs.ReactorLoop.Refinement
import VectorEngine.Proofs.Buffer.Growth
import VectorEngine.Proofs.Resp.Counter
import VectorEngine.Proofs.Resp.Names
import VectorEngine.Transition.Potential
import VectorEngine.Proofs.Wakeup.Next
import VectorEngine.Proofs.Wakeup.Rest
import VectorEngine.Server
import VectorEngine.Proofs.Session.Callback
import VectorEngine.Proofs.Server.Next
import VectorEngine.Proofs.Server.Simulation
import VectorEngine.Proofs.Server.Threads
import VectorEngine.Proofs.Server.Answers
import VectorEngine.Proofs.Server.Closings
import VectorEngine.Proofs.Server.Crashes
import VectorEngine.Proofs.Server.RoundTrip
import VectorEngine.Proofs.Engine.Work
import VectorEngine.Proofs.Resp.Cost
import VectorEngine.Proofs.Stopping.Pool
import VectorEngine.Proofs.Stopping.Process
import VectorEngine.Proofs.Buffer.Reallocation
import VectorEngine.Proofs.Session.Moves
import VectorEngine.WorkerPool
import VectorEngine.Proofs.WorkerPool
import VectorEngine.Proofs.Lifetime.Leaks
import VectorEngine.Proofs.ReactorLoop.Sessions
import VectorEngine.Stream.Spelling
import VectorEngine.Proofs.Resp.NormalForm
