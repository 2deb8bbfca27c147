import Nukv.Base.Effect
import Nukv.Model.Storage
import Mathlib.Data.List.AList
import Mathlib.Data.Finset.Card
import Mathlib.Logic.Function.Basic

/-!
# The state of a Raft node

The members of `RaftNode`, grouped by what they are about. The maps that are only read through
`operator[]` are total functions (a missing key reads as the default); `next_index_` and `match_index_`,
whose key sets matter, are association lists. A TCP connection is named by its two ends and a serial
number: the same name stands for the two `TcpConnection` objects, one in each process, and each process
has its own view of whether it is connected.

The code runs in `NodeM`: it reads and writes the node, may throw, and leaves the trace of what the
outside can observe, the store writes and the frames sent, together with the points of the run that the
specification talks about.
-/

namespace Nukv

inductive Role where
  | follower
  | candidate
  | leader
  deriving DecidableEq, Repr

/-- A TCP connection from `client` (the smaller id) to `server`. -/
structure Conn where
  client : Int
  server : Int
  serial : Nat
  deriving DecidableEq, Repr

/-- One call of `Submit`: the promise its caller waits on, and the command it carries. -/
structure SubmitCall where
  promise : Nat
  command : Proto.Command
  deriving DecidableEq, Repr

/-- A read waiting for its turn or for a quorum; `result` names the promise of the caller. -/
structure PendingReadIndex where
  requestId : Nat
  term : Nat
  readIndex : Nat
  acknowledgements : Finset Int
  result : Nat
  deriving DecidableEq

/-- An armed RPC timeout with what its callback captured. -/
structure RpcTimeout where
  peerId : Int
  generation : Nat
  requestId : Nat
  connection : Conn
  snapshot : Bool
  deriving DecidableEq, Repr

/-- A scheduled `wait_for_commit`. -/
structure CommitPoll where
  target : Nat
  result : SubmitCall
  deriving DecidableEq, Repr

structure Identity where
  serverId : Int
  peers : List Int

/-- What the node keeps in its store, and the store. -/
structure LogState where
  store : RocksKVStore
  log : List RaftLogEntry
  snapshotIndex : Nat
  snapshotTerm : Nat
  snapshotData : Bytes
  currentTerm : Nat
  votedFor : Int
  commitIndex : Nat
  lastApplied : Nat

structure IncomingSnapshot where
  incomingSnapshotIndex : Nat
  incomingSnapshotTerm : Nat
  incomingSnapshotData : Bytes
  incomingSnapshotActive : Bool

structure ElectionState where
  role : Role
  voteRequestId : Int → Nat
  grantedVotes : Finset Int
  votesReceived : Nat

structure ReplicationState where
  nextIndex : AList fun _ : Int => Nat
  matchIndex : AList fun _ : Int => Nat
  rpcInflight : Int → Bool
  rpcGeneration : Int → Nat
  rpcRequestId : Int → Nat
  rpcHasEntries : Int → Bool
  rpcSnapshot : Int → Bool
  rpcSnapshotOffset : Int → Nat
  nextRpcId : Nat

structure ConnectionState where
  outboundConnections : Int → Option Conn
  inboundConnections : Int → Option Conn
  /-- The connections whose callbacks may still run. -/
  connections : List Conn
  /-- Those of them for which `connected()` holds. -/
  connected : List Conn

structure ReadState where
  pendingReadIndexes : List PendingReadIndex
  activeReadIndex : Option PendingReadIndex

structure TimerState where
  electionTimer : Bool
  heartbeatTimer : Bool
  /-- The read the armed timeout was created for. -/
  readIndexTimer : Option Nat
  rpcTimeouts : List RpcTimeout
  snapshotInProgress : Bool
  ready : Bool
  leader : Bool
  stopping : Bool

structure RaftNode extends Identity, LogState, IncomingSnapshot, ElectionState, ReplicationState,
    ConnectionState, ReadState, TimerState where
  commitPolls : List CommitPoll

/-- Which storage function a write belongs to, with the label of a snapshot or the entry applied. -/
inductive StorageOp where
  | persistState
  /-- With the request when it is `HandleAppendEntries` that writes. -/
  | persistLog (request : Option Proto.AppendEntriesRequest)
  | persistSnapshot (index term : Nat) (data : Bytes)
  | applySnapshot (index term : Nat) (data : Bytes)
  | applyAtomically (logIndex : Nat) (command : Bytes)
  deriving DecidableEq, Repr

/-- What a run leaves behind. Most events carry the node as it was right after them. -/
inductive Event where
  /-- `LoadState` has read this from the store. -/
  | loadState (state : PersistedRaftState)
  /-- A completed store write. -/
  | write (op : StorageOp) (node : RaftNode)
  /-- A frame handed to a connection. -/
  | send (connection : Conn) (rpc : Proto.RaftRpc) (node : RaftNode)
  /-- `Frame` is about to throw because a message is too large. -/
  | refuseFrame (connection : Conn) (rpc : Proto.RaftRpc) (node : RaftNode)
  /-- `BecomeLeader` is executed. -/
  | becomeLeader (node : RaftNode)
  /-- `TryAdvanceCommit` has set `commit_index_`. -/
  | advanceCommit (node : RaftNode)
  /-- `HandleInstallSnapshotResponse` has set `match_index_` because of the answer to a request. -/
  | matchSnapshot (connection : Conn) (requestId : Nat) (node : RaftNode)
  /-- `ApplyAtomically` is called for an index with the bytes of a command. -/
  | callApply (logIndex : Nat) (command : Bytes)
  /-- `ApplyCommitted` is about to throw because of the command at an index. -/
  | refuseApply (logIndex : Nat)
  /-- `ApplyCommitted` is about to throw because of an index that is not in the log. -/
  | refuseIndex (x : Exn)
  /-- `ApplyCommitted` has come to its end. -/
  | finishApply (node : RaftNode)
  /-- `ReadIndex` queues a read under a fresh request id. -/
  | queueRead (result requestId : Nat)
  /-- `StartNextReadIndex` has made a read the active one. -/
  | activateRead (node : RaftNode)
  /-- The promise of a `Submit` is set. -/
  | submitResult (call : SubmitCall) (value : Bool) (node : RaftNode)
  /-- The promise of a read is set. -/
  | readResult (result : Nat) (value : Bool) (node : RaftNode)

abbrev NodeM (α : Type) : Type := Base.Prog RaftNode Event Exn α

def kMaxFrameSize : Nat := 16 * 1024 * 1024
def kMaxEntriesPerRpc : Nat := 64
def kSnapshotThreshold : Nat := 8
def kSnapshotChunkSize : Nat := 256 * 1024

namespace RaftNode

/-- The node right after its constructor. -/
def create (serverId : Int) (peers : List Int) (store : RocksKVStore) : RaftNode where
  serverId := serverId
  peers := peers
  store := store
  log := []
  snapshotIndex := 0
  snapshotTerm := 0
  snapshotData := []
  currentTerm := 0
  votedFor := -1
  commitIndex := 0
  lastApplied := 0
  incomingSnapshotIndex := 0
  incomingSnapshotTerm := 0
  incomingSnapshotData := []
  incomingSnapshotActive := false
  role := .follower
  voteRequestId := fun _ => 0
  grantedVotes := ∅
  votesReceived := 0
  nextIndex := ∅
  matchIndex := ∅
  rpcInflight := fun _ => false
  rpcGeneration := fun _ => 0
  rpcRequestId := fun _ => 0
  rpcHasEntries := fun _ => false
  rpcSnapshot := fun _ => false
  rpcSnapshotOffset := fun _ => 0
  nextRpcId := 1
  outboundConnections := fun _ => none
  inboundConnections := fun _ => none
  connections := []
  connected := []
  pendingReadIndexes := []
  activeReadIndex := none
  electionTimer := false
  heartbeatTimer := false
  readIndexTimer := none
  rpcTimeouts := []
  snapshotInProgress := false
  ready := false
  leader := false
  stopping := false
  commitPolls := []

def lastIndex (node : RaftNode) : Nat := node.snapshotIndex + node.log.length

def lastTerm (node : RaftNode) : Nat :=
  match node.log.getLast? with
  | none => node.snapshotTerm
  | some entry => entry.term

/-- `log_[LogOffset(index)]`. -/
def entryAt (node : RaftNode) (index : Nat) : Except Exn RaftLogEntry :=
  if index ≤ node.snapshotIndex then .error (.outOfRange "Raft log index is outside retained log")
  else
    match node.log[index - node.snapshotIndex - 1]? with
    | none => .error (.outOfRange "Raft log index is outside retained log")
    | some entry => .ok entry

def termAt (node : RaftNode) (index : Nat) : Nat :=
  if index = node.snapshotIndex then node.snapshotTerm
  else
    match node.entryAt index with
    | .error _ => 0
    | .ok entry => entry.term

def isCandidateLogUpToDate (node : RaftNode) (index term : Nat) : Bool :=
  decide (node.lastTerm < term) || (term == node.lastTerm && decide (node.lastIndex ≤ index))

def quorum (node : RaftNode) : Nat := node.peers.length / 2 + 1

def otherPeers (node : RaftNode) : List Int := node.peers.filter fun peer => peer ≠ node.serverId

/-- `next_index_[peer]` as a value. -/
def nextIndexOf (node : RaftNode) (peer : Int) : Nat := (node.nextIndex.lookup peer).getD 0

def connectionForPeer (node : RaftNode) (peer : Int) : Option Conn :=
  if node.serverId < peer then node.outboundConnections peer else node.inboundConnections peer

def isConnected (node : RaftNode) (connection : Option Conn) : Bool :=
  match connection with
  | none => false
  | some connection => node.connected.contains connection

end RaftNode

open Base

variable [Protobuf]

namespace NodeM

/-- Run a batch against the store; the event carries the node with the store it leaves. -/
def writeAtomically (op : StorageOp) (batch : WriteBatch) : NodeM Unit := fun node =>
  match node.store.writeAtomically batch with
  | (.error x, store) => (.error x, { node with store := store }, [])
  | (.ok (), store) =>
    (.ok (), { node with store := store }, [.write op { node with store := store }])

def persistState : NodeM Unit := do
  let node ← Prog.get
  writeAtomically .persistState (RaftStorage.persistState node.currentTerm node.votedFor
    node.commitIndex node.lastApplied node.snapshotIndex node.snapshotTerm)

/-- `PersistLog`; the argument only labels the event. -/
def persistLog (request : Option Proto.AppendEntriesRequest) : NodeM Unit := do
  let node ← Prog.get
  writeAtomically (.persistLog request) (RaftStorage.persistLog node.store node.snapshotIndex node.log)

/-! ### Connections -/

/-- `connection->shutdown()`: no longer connected for this end, its callbacks may still run. -/
def shutdown (connection : Conn) : NodeM Unit :=
  Prog.modify fun node => { node with connected := node.connected.filter fun c => c ≠ connection }

/-- `ResetPeerRpcState`, for every peer the predicate selects. -/
def resetPeers (affected : Int → Bool) (node : RaftNode) : RaftNode :=
  { node with
    rpcInflight := fun peer => if affected peer then false else node.rpcInflight peer
    rpcRequestId := fun peer => if affected peer then 0 else node.rpcRequestId peer
    rpcHasEntries := fun peer => if affected peer then false else node.rpcHasEntries peer
    rpcSnapshot := fun peer => if affected peer then false else node.rpcSnapshot peer
    rpcSnapshotOffset := fun peer => if affected peer then 0 else node.rpcSnapshotOffset peer
    rpcGeneration := fun peer => if affected peer then node.rpcGeneration peer + 1 else node.rpcGeneration peer }

def resetPeerRpcState (peer : Int) (connection : Conn) : NodeM Unit := do
  let node ← Prog.get
  Prog.when (node.connectionForPeer peer = some connection)
    (Prog.modify (resetPeers fun p => p == peer))

/-- `connection->send(Frame(...))`. -/
def transmit (connection : Conn) (rpc : Proto.RaftRpc) : NodeM Unit :=
  if kMaxFrameSize < Protobuf.rpcByteSize rpc then do
    Prog.emitState (.refuseFrame connection rpc)
    Prog.throw (.runtimeError "Raft RPC frame is too large")
  else Prog.emitState (.send connection rpc)

/-- `SendRpc`; an id of zero asks for a fresh one. The result is zero when nothing was sent. -/
def sendRpc (connection : Option Conn) (payload : Proto.Payload) (requestId : Nat) : NodeM Nat := do
  let node ← Prog.get
  match connection with
  | none => return 0
  | some connection =>
    if node.connected.contains connection then
      let id := if requestId = 0 then node.nextRpcId else requestId
      Prog.when (requestId = 0) (Prog.modify fun node => { node with nextRpcId := node.nextRpcId + 1 })
      transmit connection ⟨id, toUint64 node.serverId, payload⟩
      return id
    else return 0

def sendRpcToPeer (peer : Int) (payload : Proto.Payload) (requestId : Nat) : NodeM Nat := do
  let node ← Prog.get
  sendRpc (node.connectionForPeer peer) payload requestId

/-! ### Timers -/

def resetElectionTimer : NodeM Unit :=
  Prog.modify fun node => { node with electionTimer := true }

end NodeM

end Nukv
