import Nukv.Model.Node

/-!
# Applying, replicating, campaigning and reading

The member functions of `RaftNode` that do not handle a message: applying committed entries and
compacting the log, the RPCs a leader and a candidate send, the role changes, and the queue of
linearizable reads.
-/

namespace Nukv

open Base

variable [Protobuf]

namespace NodeM

/-! ### Applying and compacting -/

/-- The exception of a command that cannot be applied. -/
def refuseApply (logIndex : Nat) (x : Exn) : NodeM Unit := do
  Prog.emit (.refuseApply logIndex)
  Prog.throw x

/-- The exception of an index that the log does not have. -/
def refuseIndex (x : Exn) : NodeM Unit := do
  Prog.emit (.refuseIndex x)
  Prog.throw x

def applyAtomically (command : Proto.Command) (serialized : Bytes) (logIndex : Nat) : NodeM Unit := do
  let node ← Prog.get
  match CommandApplier.applyAtomically node.store command logIndex node.commitIndex with
  | .ok batch => writeAtomically (.applyAtomically logIndex serialized) batch
  | .error x => refuseApply logIndex x

/-- The loop of `ApplyCommitted`, `remaining` being `commit_index_ - last_applied_`. -/
def applyEntries : (remaining : Nat) → NodeM Unit
  | 0 => return ()
  | remaining + 1 => do
    let node ← Prog.get
    match node.entryAt (node.lastApplied + 1) with
    | .error x => refuseIndex x
    | .ok entry =>
      match Protobuf.command.parse entry.command with
      | none => refuseApply (node.lastApplied + 1) (.runtimeError "invalid committed Raft command")
      | some command =>
        Prog.emit (.callApply (node.lastApplied + 1) entry.command)
        applyAtomically command entry.command (node.lastApplied + 1)
        Prog.modify fun node => { node with lastApplied := node.lastApplied + 1 }
        applyEntries remaining

/-- The body of the `try` block of `CreateSnapshotIfNeeded`. -/
def createSnapshot : NodeM Unit := do
  let node ← Prog.get
  let newSnapshotIndex := node.commitIndex
  let newSnapshotTerm := node.termAt newSnapshotIndex
  Prog.when (newSnapshotTerm = 0) (refuseIndex (.runtimeError "cannot snapshot an empty Raft term"))
  let metadata := serializeSnapshotMetadata newSnapshotIndex newSnapshotTerm
  let data := serializeSnapshotState node.store.getAllUserEntries
    (RaftStorage.getAppliedRequests node.store)
  let eraseCount := newSnapshotIndex - node.snapshotIndex
  Prog.when (node.log.length < eraseCount)
    (refuseIndex (.runtimeError "snapshot exceeds retained Raft log"))
  let suffix := node.log.drop eraseCount
  writeAtomically (.persistSnapshot newSnapshotIndex newSnapshotTerm data)
    (RaftStorage.persistSnapshot node.store node.currentTerm node.votedFor node.commitIndex
      node.lastApplied newSnapshotIndex newSnapshotTerm metadata data suffix)
  Prog.modify fun node =>
    { node with
      snapshotIndex := newSnapshotIndex
      snapshotTerm := newSnapshotTerm
      snapshotData := data
      log := suffix }

def createSnapshotIfNeeded : NodeM Unit := do
  let node ← Prog.get
  if node.snapshotInProgress = true ∨ node.commitIndex ≤ node.snapshotIndex ∨
      node.commitIndex - node.snapshotIndex < kSnapshotThreshold then
    return ()
  else
    Prog.modify fun node => { node with snapshotInProgress := true }
    Prog.attempt createSnapshot fun x => do
      Prog.modify fun node => { node with snapshotInProgress := false }
      Prog.throw x
    Prog.modify fun node => { node with snapshotInProgress := false }

def applyCommitted : NodeM Unit := do
  Prog.modify fun node => { node with lastApplied := max node.lastApplied node.snapshotIndex }
  let node ← Prog.get
  applyEntries (node.commitIndex - node.lastApplied)
  persistState
  createSnapshotIfNeeded
  Prog.emitState .finishApply

/-! ### Reads that end without an answer, and stepping down -/

def setReadResult (result : Nat) (value : Bool) : NodeM Unit :=
  Prog.emitState fun node => .readResult result value node

def failActiveReadIndex : NodeM Unit := do
  let node ← Prog.get
  match node.activeReadIndex with
  | none => return ()
  | some active =>
    setReadResult active.result false
    Prog.modify fun node => { node with activeReadIndex := none }

def failPendingReadIndexes : NodeM Unit := do
  Prog.modify fun node => { node with readIndexTimer := none }
  failActiveReadIndex
  let node ← Prog.get
  Prog.forEach node.pendingReadIndexes fun read => do
    setReadResult read.result false
    Prog.modify fun node => { node with pendingReadIndexes := node.pendingReadIndexes.tail }

/-- `current_term_ = term; voted_for_ = -1; PersistState();` -/
def adoptTerm (term : Nat) : NodeM Unit := do
  Prog.modify fun node => { node with currentTerm := term, votedFor := -1 }
  persistState

def stepDown (term : Nat) : NodeM Unit := do
  let node ← Prog.get
  Prog.when (node.currentTerm < term) (adoptTerm term)
  Prog.modify fun node =>
    { node with
      heartbeatTimer := if node.role = .leader then false else node.heartbeatTimer
      role := .follower
      leader := false }
  failPendingReadIndexes
  resetElectionTimer

/-! ### Replication -/

/-- `next_index_[peer]` inserts a zero when there is no entry. -/
def touchNextIndex (peer : Int) : NodeM Unit :=
  Prog.modify fun node =>
    if node.nextIndex.lookup peer = none then { node with nextIndex := node.nextIndex.insert peer 0 }
    else node

/-- The chunk of the current snapshot that `SendSnapshot` sends next. -/
def snapshotRequest (node : RaftNode) (peer : Int) : Proto.InstallSnapshotRequest :=
  let offset := if node.snapshotData.length < node.rpcSnapshotOffset peer then 0
    else node.rpcSnapshotOffset peer
  let remaining := node.snapshotData.length - offset
  let chunkSize := min remaining kSnapshotChunkSize
  { term := node.currentTerm
    leaderId := toUint64 node.serverId
    lastIncludedIndex := node.snapshotIndex
    lastIncludedTerm := node.snapshotTerm
    offset := offset
    data := (node.snapshotData.drop offset).take chunkSize
    done := chunkSize == remaining }

/-- Send one replication RPC and arm its timeout. -/
def sendReplication (peer : Int) (connection : Conn) (payload : Proto.Payload) (snapshot : Bool) :
    NodeM Unit := do
  let requestId ← sendRpc (some connection) payload 0
  if requestId = 0 then resetPeerRpcState peer connection
  else
    Prog.modify fun node =>
      { node with
        rpcRequestId := Function.update node.rpcRequestId peer requestId
        rpcTimeouts := node.rpcTimeouts ++
          [⟨peer, node.rpcGeneration peer, requestId, connection, snapshot⟩] }

def sendSnapshot (peer : Int) : NodeM Unit := do
  let node ← Prog.get
  if node.role ≠ .leader ∨ node.rpcInflight peer = true ∨ node.snapshotIndex = 0 then return ()
  else
    match node.connectionForPeer peer with
    | none => return ()
    | some connection =>
      if node.connected.contains connection then
        Prog.modify fun node =>
          { node with
            rpcInflight := Function.update node.rpcInflight peer true
            rpcSnapshot := Function.update node.rpcSnapshot peer true
            rpcGeneration := Function.update node.rpcGeneration peer (node.rpcGeneration peer + 1) }
        sendReplication peer connection (.installSnapshot (snapshotRequest node peer)) true

/-- The request `SendAppend` builds when `next_index_[peer]` is above the snapshot. -/
def appendRequest (node : RaftNode) (peer : Int) : Proto.AppendEntriesRequest :=
  let next := max 1 (min (node.nextIndexOf peer) (node.lastIndex + 1))
  { term := node.currentTerm
    leaderId := toUint64 node.serverId
    prevLogIndex := next - 1
    prevLogTerm := node.termAt (next - 1)
    entries := ((node.log.drop (next - node.snapshotIndex - 1)).take kMaxEntriesPerRpc).mapIdx
      fun offset entry => ⟨next + offset, entry.term, entry.command⟩
    leaderCommit := node.commitIndex }

def sendAppend (peer : Int) : NodeM Unit := do
  let node ← Prog.get
  if node.role ≠ .leader ∨ node.rpcInflight peer = true then return ()
  else
    match node.connectionForPeer peer with
    | none => return ()
    | some connection =>
      if node.connected.contains connection then
        touchNextIndex peer
        if node.nextIndexOf peer ≤ node.snapshotIndex then sendSnapshot peer
        else
          let request := appendRequest node peer
          Prog.modify fun node =>
            { node with
              rpcInflight := Function.update node.rpcInflight peer true
              rpcGeneration := Function.update node.rpcGeneration peer (node.rpcGeneration peer + 1)
              rpcHasEntries := Function.update node.rpcHasEntries peer !request.entries.isEmpty }
          sendReplication peer connection (.appendEntries request) false

def sendHeartbeats : NodeM Unit := do
  let node ← Prog.get
  if node.role ≠ .leader ∨ node.stopping = true then return ()
  else
    Prog.forEach node.otherPeers sendAppend
    Prog.modify fun node => { node with heartbeatTimer := true }

/-! ### Elections -/

/-- The assignments of `BecomeLeader`. -/
def leaderState (node : RaftNode) : RaftNode :=
  { node with
    role := .leader
    leader := true
    electionTimer := false
    heartbeatTimer := false
    nextIndex := node.otherPeers.foldl (fun map peer => map.insert peer (node.lastIndex + 1)) node.nextIndex
    matchIndex := node.otherPeers.foldl (fun map peer => map.insert peer 0) node.matchIndex
    rpcInflight := fun peer => if peer ∈ node.otherPeers then false else node.rpcInflight peer }

def becomeLeader : NodeM Unit := do
  Prog.modify leaderState
  Prog.emitState .becomeLeader
  sendHeartbeats

def sendRequestVoteToPeer (peer : Int) : NodeM Unit := do
  let node ← Prog.get
  let requestId ← sendRpcToPeer peer
    (.requestVote ⟨node.currentTerm, toUint64 node.serverId, node.lastIndex, node.lastTerm⟩) 0
  Prog.modify fun node =>
    { node with voteRequestId := Function.update node.voteRequestId peer requestId }

def sendRequestVotes : NodeM Unit := do
  let node ← Prog.get
  Prog.forEach node.otherPeers sendRequestVoteToPeer

def becomeCandidate : NodeM Unit := do
  Prog.modify fun node =>
    { node with
      role := .candidate
      leader := false
      currentTerm := node.currentTerm + 1
      votedFor := node.serverId
      votesReceived := 1
      grantedVotes := {node.serverId} }
  persistState
  resetElectionTimer
  sendRequestVotes
  let node ← Prog.get
  Prog.when (node.quorum ≤ node.votesReceived) becomeLeader

/-! ### Commitment -/

/-- `replicated`: the leader itself and every entry of `match_index_` that has reached the index. -/
def replicated (node : RaftNode) (index : Nat) : Nat :=
  1 + node.matchIndex.entries.countP fun entry => index ≤ entry.2

/-- The index the downward search of `TryAdvanceCommit` stops at. -/
def commitCandidate (node : RaftNode) : Option Nat :=
  (List.range' (node.commitIndex + 1) (node.lastIndex - node.commitIndex)).reverse.find? fun index =>
    decide (node.termAt index = node.currentTerm ∧ node.peers.length / 2 < replicated node index)

def tryAdvanceCommit : NodeM Unit := do
  let node ← Prog.get
  if node.role = .leader then
    match commitCandidate node with
    | none => return ()
    | some index =>
      Prog.modify fun node => { node with commitIndex := index }
      Prog.emitState .advanceCommit
      applyCommitted

/-! ### Linearizable reads -/

def sendReadIndexProbes : NodeM Unit := do
  let node ← Prog.get
  match node.activeReadIndex with
  | none => return ()
  | some active =>
    if node.role ≠ .leader ∨ active.term ≠ node.currentTerm then return ()
    else
      Prog.forEach node.otherPeers fun peer => do
        let _ ← sendRpcToPeer peer (.readIndex ⟨node.currentTerm, toUint64 node.serverId⟩) active.requestId

/-- Set the promise of a read that was active, after applying what is committed. -/
def answerRead (active : PendingReadIndex) (success : Bool) : NodeM Unit := do
  let node ← Prog.get
  if success = true ∧ node.role = .leader ∧ node.currentTerm = active.term then
    applyCommitted
    let node ← Prog.get
    setReadResult active.result (decide (active.readIndex ≤ node.lastApplied))
  else setReadResult active.result success

/-- `FinishReadIndex`, with the call of `StartNextReadIndex` at its end as a parameter. -/
def finishReadIndexThen (startNext : NodeM Unit) (success : Bool) : NodeM Unit := do
  let node ← Prog.get
  match node.activeReadIndex with
  | none => return ()
  | some active =>
    Prog.modify fun node => { node with readIndexTimer := none, activeReadIndex := none }
    answerRead active success
    startNext

/-- The read at the head of the queue, made active on a leader. -/
def activateNext (node : RaftNode) : RaftNode :=
  match node.pendingReadIndexes with
  | [] => node
  | read :: rest =>
    { node with
      pendingReadIndexes := rest
      activeReadIndex := some
        { read with
          term := node.currentTerm
          readIndex := node.commitIndex
          acknowledgements := {node.serverId} } }

/-- Every activation takes a read from the queue, so its length bounds the mutual recursion with
`FinishReadIndex`. -/
def startNextReadIndexBounded : (fuel : Nat) → NodeM Unit
  | 0 => return ()
  | fuel + 1 => do
    let node ← Prog.get
    if node.activeReadIndex.isSome = true ∨ node.pendingReadIndexes = [] then return ()
    else if node.role ≠ .leader ∨ node.stopping = true then failPendingReadIndexes
    else
      Prog.modify activateNext
      Prog.emitState .activateRead
      if node.quorum ≤ 1 then finishReadIndexThen (startNextReadIndexBounded fuel) true
      else
        sendReadIndexProbes
        Prog.modify fun node =>
          { node with readIndexTimer := node.activeReadIndex.map PendingReadIndex.requestId }

def startNextReadIndex : NodeM Unit := do
  let node ← Prog.get
  startNextReadIndexBounded (node.pendingReadIndexes.length + 1)

def finishReadIndex (success : Bool) : NodeM Unit := finishReadIndexThen startNextReadIndex success

end NodeM

end Nukv
