import Nukv.Base.WorkerPool
import Nukv.Model.Client

/-!
# The threads of the client server

`OnMessage` runs on the thread of a connection. The responses that it sends itself and the requests that it queues are
steps of their own, since other threads run in between. The two worker threads take requests from the queue and answer
them; the destructor stops them. What leaves the function of a thread as an exception ends the process.

`TcpConnection::send` takes a frame whatever the connection is doing.
-/

namespace Nukv

open Base

namespace ClientServer

/-- A closure of the work queue: the request of a connection, to be handled. -/
structure Task where
  connection : Nat
  request : Proto.ClientRequest
  deriving DecidableEq

structure Threads where
  pool : Pool Task
  /-- The input buffers of the connections. -/
  buffers : Nat → Bytes
  /-- What the running call of `OnMessage` has still to do. -/
  todo : Nat → List ClientEvent
  /-- `std::terminate` was called. -/
  terminated : Bool

/-- What the threads do, as seen from the connections and the queue. -/
inductive Act where
  | read (connection : Nat) (data : Bytes)
  /-- `OnMessage` sends a response. -/
  | reply (connection : Nat) (frame : Bytes)
  | shutdown (connection : Nat)
  | accept (task : Task)
  /-- `Enqueue` returns early. -/
  | refuse (task : Task)
  | take (task : Task)
  /-- `HandleRequest` sends a response. -/
  | respond (task : Task) (calls : NodeCalls) (frame : Bytes)

namespace Threads

/-- After the constructor. -/
def start : Threads := ⟨.start 2, fun _ => [], fun _ => [], false⟩

/-- A read of a socket, and what `OnMessage` makes of the buffer. -/
def onMessage (threads : Threads) (connection : Nat) (data : Bytes) : Threads :=
  let result := ClientServer.onMessage (threads.buffers connection ++ data)
  { threads with
    buffers := Function.update threads.buffers connection result.2.1
    todo := Function.update threads.todo connection result.2.2
    terminated := result.1.isOk = false }

def performed (threads : Threads) (connection : Nat) (rest : List ClientEvent) : Threads :=
  { threads with todo := Function.update threads.todo connection rest }

/-- `Enqueue`. -/
def enqueue (threads : Threads) (task : Task) : Threads := { threads with pool := threads.pool.enqueue task }

/-- A step of one of the threads. -/
inductive Step (threads : Threads) : Option Act → Threads → Prop
  | read (connection : Nat) (data : Bytes) :
      threads.todo connection = [] → Step threads (some (.read connection data)) (threads.onMessage connection data)
  | reply (connection : Nat) (frame : Bytes) (rest : List ClientEvent) :
      threads.todo connection = .send frame :: rest →
        Step threads (some (.reply connection frame)) (threads.performed connection rest)
  | shutdown (connection : Nat) (rest : List ClientEvent) :
      threads.todo connection = .shutdown :: rest →
        Step threads (some (.shutdown connection)) (threads.performed connection rest)
  | enqueue (connection : Nat) (request : Proto.ClientRequest) (rest : List ClientEvent) :
      threads.todo connection = .enqueue request :: rest →
        Step threads (some (if threads.pool.stopping then .refuse ⟨connection, request⟩ else .accept ⟨connection, request⟩))
          ((threads.performed connection rest).enqueue ⟨connection, request⟩)
  /-- The destructor, the condition variable, and a worker that goes to sleep or returns. -/
  | silent (pool : Pool Task) : threads.pool.Step none pool → Step threads none { threads with pool := pool }
  | take (task : Task) (pool : Pool Task) :
      threads.pool.Step (some (.take task)) pool → Step threads (some (.take task)) { threads with pool := pool }
  | respond (before after : List (Worker Task)) (task : Task) (calls : NodeCalls) (framed : Bytes) :
      threads.pool.workers = before ++ .running task :: after →
        handleRequest calls task.request [] = (.ok (), [], [.send framed]) →
        Step threads (some (.respond task calls framed)) { threads with pool := threads.pool.replace before .checking after }
  | throws (before after : List (Worker Task)) (task : Task) (calls : NodeCalls) (x : Exn) :
      threads.pool.workers = before ++ .running task :: after → handleRequest calls task.request [] = (.error x, [], []) →
        Step threads none { threads with terminated := true }

/-- A run since the constructor, with what was done, oldest first. A process that was terminated does nothing more. -/
inductive Run : List Act → Threads → Prop
  | start : Run [] start
  | step {history : List Act} {threads threads' : Threads} {act : Option Act} :
      Run history threads → threads.terminated = false → Step threads act threads' → Run (history ++ act.toList) threads'

end Threads

end ClientServer

end Nukv
