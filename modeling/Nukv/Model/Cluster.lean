import Nukv.Model.Handlers

/-!
# The cluster

Processes that all run the same program over one list of peers. A process is running or down, and what
is left of a process that is down is its store. A frame that was sent on a connection can be received by
the other end for as long as that end has the connection: any number of times, in any order, or never.
A process may die between any two of the effects of the function it is running, and it dies when an
exception leaves the event loop; it comes back through `StartInLoop`.
-/

namespace Nukv

open Base

/-- The peer list of a deployment, as `ParsePeers` lets it through. -/
structure Config where
  peers : List Int
  nodup : peers.Nodup
  positive : ∀ peer ∈ peers, 1 ≤ peer
  int32 : ∀ peer ∈ peers, peer < 2 ^ 31

inductive Status where
  | running (node : RaftNode)
  | down (store : RocksKVStore)

/-- A frame on its way: the connection, the end that sent it and the message. -/
structure Packet where
  connection : Conn
  sender : Int
  rpc : Proto.RaftRpc
  deriving DecidableEq, Repr

structure Cluster where
  nodes : Int → Status
  /-- Every event so far, oldest first, with the process it happened in. -/
  history : List (Int × Event)
  /-- Connections a client has established. -/
  opened : List Conn
  /-- Those of them the server has accepted. -/
  accepted : List Conn

/-- What the event loop of a process runs next. -/
inductive LoopAction where
  | start
  | stop
  | electionTimeout
  | heartbeatTimeout
  | rpcTimeout (timeout : RpcTimeout)
  | readTimeout (requestId : Nat)
  | commitPoll (poll : CommitPoll)
  | connect (peer : Int) (serial : Nat)
  | accept (connection : Conn)
  | disconnect (connection : Conn)
  | receive (connection : Conn) (rpc : Proto.RaftRpc)
  | submit (call : SubmitCall)
  | readIndex (result : Nat)
  deriving DecidableEq

inductive Action where
  /-- The loop runs a function to its end. -/
  | run (server : Int) (action : LoopAction)
  /-- The process dies after some number of the function's effects. -/
  | crash (server : Int) (action : LoopAction) (effects : Nat)
  /-- The process dies between two functions. -/
  | kill (server : Int)

def Packet.ofEvent : Int × Event → Option Packet
  | (server, .send connection rpc _) => some ⟨connection, server, rpc⟩
  | _ => none

/-- The frames sent so far. -/
def packets (history : List (Int × Event)) : List Packet := history.filterMap Packet.ofEvent

def Conn.otherEnd (connection : Conn) (server : Int) : Int :=
  if connection.client = server then connection.server else connection.client

namespace Cluster

def initial : Cluster := ⟨fun _ => .down .empty, [], [], []⟩

variable [Protobuf]

/-- The function the loop runs. -/
def program (server : Int) : LoopAction → NodeM Unit
  | .start => NodeM.startInLoop
  | .stop => do
    Prog.modify fun node => { node with stopping := true }
    NodeM.stopInLoop
  | .electionTimeout => NodeM.electionTimeout
  | .heartbeatTimeout => NodeM.heartbeatTimeout
  | .rpcTimeout timeout => NodeM.rpcTimeout timeout
  | .readTimeout requestId => NodeM.readTimeout requestId
  | .commitPoll poll => NodeM.commitPoll poll
  | .connect peer serial => NodeM.onPeerConnected peer ⟨server, peer, serial⟩
  | .accept _ => pure ()
  | .disconnect connection =>
    if connection.client = server then NodeM.onPeerDisconnected connection.server connection
    else NodeM.handleConnection connection
  | .receive connection rpc => NodeM.handleRpc connection rpc
  | .submit call => NodeM.submit call
  | .readIndex result => NodeM.readIndex result

/-- Whether the loop of a running process can run the function now. -/
def enabled (peers : List Int) (cluster : Cluster) (server : Int) (node : RaftNode) : LoopAction → Prop
  | .start => False
  | .stop => True
  | .electionTimeout => node.electionTimer = true
  | .heartbeatTimeout => node.heartbeatTimer = true
  | .rpcTimeout timeout => timeout ∈ node.rpcTimeouts
  | .readTimeout requestId => node.readIndexTimer = some requestId
  | .commitPoll poll => poll ∈ node.commitPolls
  | .connect peer serial => peer ∈ peers ∧ server < peer ∧ ⟨server, peer, serial⟩ ∉ cluster.opened
  | .accept connection =>
    connection ∈ cluster.opened ∧ connection.server = server ∧ connection ∉ cluster.accepted
  | .disconnect connection => connection ∈ node.connections
  | .receive connection rpc =>
    connection ∈ node.connections ∧
      ⟨connection, connection.otherEnd server, rpc⟩ ∈ packets cluster.history
  | .submit _ => node.ready = true
  | .readIndex _ => node.ready = true

instance (peers : List Int) (cluster : Cluster) (server : Int) (node : RaftNode) (action : LoopAction) :
    Decidable (enabled peers cluster server node action) :=
  match action with
  | .start => inferInstanceAs (Decidable False)
  | .stop => inferInstanceAs (Decidable True)
  | .electionTimeout | .heartbeatTimeout | .submit _ | .readIndex _ => inferInstanceAs (Decidable (_ = true))
  | .rpcTimeout _ | .commitPoll _ | .disconnect _ => inferInstanceAs (Decidable (_ ∈ _))
  | .readTimeout _ => inferInstanceAs (Decidable (_ = _))
  | .connect _ _ => inferInstanceAs (Decidable (_ ∈ _ ∧ _ < _ ∧ _ ∉ _))
  | .accept _ => inferInstanceAs (Decidable (_ ∈ _ ∧ _ = _ ∧ _ ∉ _))
  | .receive _ _ => inferInstanceAs (Decidable (_ ∈ _ ∧ _ ∈ _))

/-- The change of a connection that the callback is told about. -/
def prepare (server : Int) : LoopAction → RaftNode → RaftNode
  | .connect peer serial, node =>
    { node with
      connections := ⟨server, peer, serial⟩ :: node.connections
      connected := ⟨server, peer, serial⟩ :: node.connected }
  | .accept connection, node =>
    { node with
      connections := connection :: node.connections
      connected := connection :: node.connected }
  | .disconnect connection, node =>
    { node with
      connections := node.connections.filter fun c => c ≠ connection
      connected := node.connected.filter fun c => c ≠ connection }
  | _, node => node

/-- The node the function starts from, if it can start. -/
def entry (peers : List Int) (cluster : Cluster) (server : Int) (action : LoopAction) :
    Option RaftNode :=
  match cluster.nodes server with
  | .down store =>
    if action = .start ∧ server ∈ peers then some (RaftNode.create server peers store) else none
  | .running node =>
    if enabled peers cluster server node action then some (prepare server action node) else none

/-- The store after some events of a process. -/
def storeAfter (store : RocksKVStore) : List Event → RocksKVStore
  | [] => store
  | .write _ node :: events => storeAfter node.store events
  | _ :: events => storeAfter store events

/-- The connections an action adds to the two lists. -/
def newlyOpened (server : Int) : LoopAction → List Conn
  | .connect peer serial => [⟨server, peer, serial⟩]
  | _ => []

def newlyAccepted : LoopAction → List Conn
  | .accept connection => [connection]
  | _ => []

/-- The cluster after `server` ran `action` with these events and ended in `status`. -/
def after (cluster : Cluster) (server : Int) (action : LoopAction) (status : Status)
    (events : List Event) : Cluster where
  nodes := Function.update cluster.nodes server status
  history := cluster.history ++ events.map fun event => (server, event)
  opened := newlyOpened server action ++ cluster.opened
  accepted := newlyAccepted action ++ cluster.accepted

/-- What becomes of a process whose function has ended. -/
def outcome (action : LoopAction) (result : Except Exn Unit) (node : RaftNode) : Status :=
  match result with
  | .error _ => .down node.store
  | .ok () => if action = .stop then .down node.store else .running node

def exec (peers : List Int) (cluster : Cluster) : Action → Option Cluster
  | .kill server =>
    match cluster.nodes server with
    | .down _ => none
    | .running node => some { cluster with nodes := Function.update cluster.nodes server (.down node.store) }
  | .run server action =>
    match entry peers cluster server action with
    | none => none
    | some node =>
      match program server action node with
      | (result, node', events) => some (cluster.after server action (outcome action result node') events)
  | .crash server action effects =>
    match entry peers cluster server action with
    | none => none
    | some node =>
      let events := (program server action node).2.2.take effects
      some (cluster.after server action (.down (storeAfter node.store events)) events)

/-- The clusters reached by runs all of whose steps satisfy `ok`. -/
inductive Run (config : Config) (ok : Cluster → Action → Prop) : Cluster → Prop
  | initial : Run config ok initial
  | step {cluster cluster' : Cluster} {action : Action} :
      Run config ok cluster → ok cluster action → exec config.peers cluster action = some cluster' →
        Run config ok cluster'

/-- The clusters reached by any run. -/
def Reachable (config : Config) : Cluster → Prop := Run config fun _ _ => True

/-- A move of a run that is written down: an action, or the delivery of a frame by its number. -/
inductive Move where
  | act (action : Action)
  | deliver (number : Nat)

def Move.action (cluster : Cluster) : Move → Option Action
  | .act action => some action
  | .deliver number =>
    (packets cluster.history)[number]?.map fun packet =>
      .run (packet.connection.otherEnd packet.sender) (.receive packet.connection packet.rpc)

/-- Play a list of moves, as far as each of them is possible and satisfies `ok`. -/
def play (peers : List Int) (ok : Cluster → Action → Prop) [∀ cluster action, Decidable (ok cluster action)]
    (cluster : Cluster) : List Move → Option Cluster
  | [] => some cluster
  | move :: moves =>
    match move.action cluster with
    | none => none
    | some action =>
      if ok cluster action then
        match exec peers cluster action with
        | none => none
        | some cluster => play peers ok cluster moves
      else none

theorem play_run {config : Config} {ok : Cluster → Action → Prop} [∀ cluster action, Decidable (ok cluster action)]
    {cluster cluster' : Cluster} {moves : List Move} (hrun : Run config ok cluster)
    (h : play config.peers ok cluster moves = some cluster') : Run config ok cluster' := by
  induction moves generalizing cluster with
  | nil =>
    obtain rfl := Option.some.inj h
    exact hrun
  | cons move moves ih =>
    rw [play] at h
    split at h
    · exact absurd h (by simp)
    next action _ =>
      split at h
      next hok =>
        cases hexec : exec config.peers cluster action with
        | none => simp [hexec] at h
        | some next =>
          rw [hexec] at h
          exact ih (hrun.step hok hexec) h
      next => exact absurd h (by simp)

/-- Moves that can all be played reach a cluster that satisfies what a test finds in it. -/
theorem run_of_play {config : Config} {ok : Cluster → Action → Prop}
    [∀ cluster action, Decidable (ok cluster action)] {moves : List Move} {test : Cluster → Bool}
    (h : (play config.peers ok initial moves).any test = true) :
    ∃ cluster, Run config ok cluster ∧ test cluster = true := by
  cases hplay : play config.peers ok initial moves with
  | none => simp [hplay] at h
  | some cluster =>
    rw [hplay] at h
    exact ⟨cluster, play_run .initial hplay, h⟩

/-- Whether an event that passes a test has happened in a process. -/
def occurs (cluster : Cluster) (server : Int) (test : Event → Bool) : Bool :=
  cluster.history.any fun event => event.1 == server && test event.2

omit [Protobuf] in
theorem exists_of_occurs {cluster : Cluster} {server : Int} {test : Event → Bool}
    (h : cluster.occurs server test = true) : ∃ event, (server, event) ∈ cluster.history ∧ test event = true := by
  obtain ⟨⟨n, event⟩, hmem, htest⟩ := List.any_eq_true.mp h
  obtain ⟨rfl, hevent⟩ : n = server ∧ test event = true := by simpa using htest
  exact ⟨event, hmem, hevent⟩

omit [Protobuf] in
theorem not_mem_of_not_occurs {cluster : Cluster} {server : Int} {test : Event → Bool} {event : Event}
    (h : cluster.occurs server test = false) (htest : test event = true) : (server, event) ∉ cluster.history := by
  intro hmem
  refine absurd (List.any_eq_true.mpr ⟨(server, event), hmem, ?_⟩) (Bool.not_eq_true _ ▸ h)
  simpa using htest

end Cluster

/-- Whether a process is up and its node passes a test. -/
def Status.runs (status : Status) (test : RaftNode → Bool) : Bool :=
  match status with
  | .running node => test node
  | .down _ => false

theorem Status.exists_of_runs {status : Status} {test : RaftNode → Bool} (h : status.runs test = true) :
    ∃ node, status = .running node ∧ test node = true := by
  cases status with
  | running node => exact ⟨node, rfl, h⟩
  | down store => cases h

namespace Event

/-- Whether the event is that a command cannot be applied, at an index that passes a test. -/
def refusesApply (test : Nat → Bool) : Event → Bool
  | .refuseApply index => test index
  | _ => false

/-- Whether the event is that a follower has saved the entries of a request. -/
def merges (test : Proto.AppendEntriesRequest → RaftNode → Bool) : Event → Bool
  | .write (.persistLog (some request)) node => test request node
  | _ => false

def transmits (test : Conn → Proto.RaftRpc → RaftNode → Bool) : Event → Bool
  | .send connection rpc node => test connection rpc node
  | _ => false

theorem exists_of_transmits {test : Conn → Proto.RaftRpc → RaftNode → Bool} {event : Event}
    (h : event.transmits test = true) : ∃ connection rpc node, event = .send connection rpc node ∧
      test connection rpc node = true := by
  unfold transmits at h
  split at h
  next connection rpc node => exact ⟨connection, rpc, node, rfl, h⟩
  next => cases h

end Event

end Nukv
