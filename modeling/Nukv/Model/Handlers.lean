import Nukv.Model.Replication

/-!
# Message handlers, timers and client calls

What runs on the event loop of a node: one function per kind of RPC, the connection callbacks, the
timer callbacks, the functions that `Submit` and `ReadIndex` queue, and the start and stop of the loop.
-/

namespace Nukv

open Base

variable [Protobuf]

namespace NodeM

/-! ### Votes -/

/-- The vote decision of `HandleRequestVote`. -/
def grantsVote (node : RaftNode) (request : Proto.RequestVoteRequest) : Bool :=
  request.term == node.currentTerm &&
    (node.votedFor == -1 || node.votedFor == toInt64 request.candidateId) &&
    node.isCandidateLogUpToDate request.lastLogIndex request.lastLogTerm

def recordVote (candidateId : Nat) : NodeM Unit := do
  Prog.modify fun node => { node with votedFor := toInt64 candidateId }
  persistState
  resetElectionTimer

def handleRequestVote (connection : Conn) (request : Proto.RequestVoteRequest) (requestId : Nat) :
    NodeM Unit := do
  let node ← Prog.get
  Prog.when (node.currentTerm < request.term) (stepDown request.term)
  let node ← Prog.get
  let grant := grantsVote node request
  Prog.when (grant = true) (recordVote request.candidateId)
  let _ ← sendRpc (some connection)
    (.requestVoteResponse ⟨node.currentTerm, grant, toUint64 node.serverId⟩) requestId

def handleRequestVoteResponse (connection : Conn) (response : Proto.RequestVoteResponse)
    (requestId : Nat) : NodeM Unit := do
  let node ← Prog.get
  let peer := toInt32 response.responderId
  if node.currentTerm < response.term then stepDown response.term
  else if node.role ≠ .candidate ∨ response.term ≠ node.currentTerm ∨ requestId = 0 ∨
      requestId ≠ node.voteRequestId peer ∨ node.connectionForPeer peer ≠ some connection ∨
      response.voteGranted = false ∨ peer ∈ node.grantedVotes then
    return ()
  else
    Prog.modify fun node =>
      { node with
        grantedVotes := insert peer node.grantedVotes
        votesReceived := (insert peer node.grantedVotes).card }
    Prog.when (node.quorum ≤ (insert peer node.grantedVotes).card) becomeLeader

/-! ### AppendEntries -/

/-- A request of the current or a later term: follow its sender. -/
def followLeader (term : Nat) : NodeM Unit := do
  let node ← Prog.get
  Prog.when (node.currentTerm < term ∨ node.role ≠ .follower) (stepDown term)
  resetElectionTimer

/-- The consistency check of `HandleAppendEntries`. -/
def prevMatches (node : RaftNode) (request : Proto.AppendEntriesRequest) : Bool :=
  decide (node.snapshotIndex ≤ request.prevLogIndex) && decide (request.prevLogIndex ≤ node.lastIndex) &&
    node.termAt request.prevLogIndex == request.prevLogTerm

/-- What the loop over the incoming entries leaves: whether it went through, the last index it looked at
and the log. -/
structure Merge where
  success : Bool
  index : Nat
  log : List RaftLogEntry

/-- The loop over the incoming entries. A conflict at or below the commit index ends it; a conflict above
truncates the log (`log_.resize(LogOffset(index))`); an entry past the end is appended. -/
def mergeEntries (node : RaftNode) (index : Nat) : List Proto.RaftLogEntry → Merge
  | [] => ⟨true, index, node.log⟩
  | incoming :: rest =>
    if incoming.index ≠ index + 1 then ⟨false, index + 1, node.log⟩
    else if index + 1 ≤ node.lastIndex then
      if node.termAt (index + 1) = incoming.term then mergeEntries node (index + 1) rest
      else if index + 1 ≤ node.commitIndex then ⟨false, index + 1, node.log⟩
      else
        mergeEntries { node with log := node.log.take (index - node.snapshotIndex) ++
          [⟨incoming.term, incoming.command⟩] } (index + 1) rest
    else
      mergeEntries { node with log := node.log ++ [⟨incoming.term, incoming.command⟩] } (index + 1) rest

/-- The part of `HandleAppendEntries` after the term check; the reported index on success. -/
def acceptEntries (request : Proto.AppendEntriesRequest) : NodeM (Option Nat) := do
  let node ← Prog.get
  if prevMatches node request = true then
    let merge := mergeEntries node request.prevLogIndex request.entries
    Prog.modify fun node => { node with log := merge.log }
    if merge.success = true then
      persistLog (some request)
      Prog.modify fun node => { node with commitIndex := min request.leaderCommit node.lastIndex }
      applyCommitted
      return some merge.index
    else return none
  else return none

def handleAppendEntries (connection : Conn) (request : Proto.AppendEntriesRequest) (requestId : Nat) :
    NodeM Unit := do
  let node ← Prog.get
  if request.term < node.currentTerm then
    let _ ← sendRpc (some connection) (.appendEntriesResponse
      ⟨node.currentTerm, false, node.lastIndex, toUint64 node.serverId⟩) requestId
  else
    followLeader request.term
    let accepted ← acceptEntries request
    let node ← Prog.get
    let _ ← sendRpc (some connection) (.appendEntriesResponse
      ⟨node.currentTerm, accepted.isSome, accepted.getD node.lastIndex, toUint64 node.serverId⟩) requestId

def handleAppendEntriesResponse (connection : Conn) (response : Proto.AppendEntriesResponse)
    (requestId : Nat) : NodeM Unit := do
  let node ← Prog.get
  let peer := toInt32 response.responderId
  if node.currentTerm < response.term then stepDown response.term
  else if node.role ≠ .leader ∨ response.term ≠ node.currentTerm ∨ requestId = 0 ∨
      requestId ≠ node.rpcRequestId peer ∨ node.connectionForPeer peer ≠ some connection then
    return ()
  else
    resetPeerRpcState peer connection
    if response.success = true then
      Prog.modify fun node =>
        { node with
          matchIndex := node.matchIndex.insert peer (min response.matchIndex node.lastIndex)
          nextIndex := node.nextIndex.insert peer (min response.matchIndex node.lastIndex + 1) }
      tryAdvanceCommit
      let current ← Prog.get
      Prog.when (node.rpcHasEntries peer = true ∧ current.nextIndexOf peer ≤ current.lastIndex)
        (sendAppend peer)
    else
      touchNextIndex peer
      Prog.when (node.snapshotIndex + 1 < node.nextIndexOf peer) (Prog.modify fun node =>
        { node with nextIndex := node.nextIndex.insert peer (node.nextIndexOf peer - 1) })
      sendAppend peer

/-! ### InstallSnapshot -/

def validChunk (request : Proto.InstallSnapshotRequest) : Bool :=
  request.lastIncludedIndex != 0 && request.lastIncludedTerm != 0 &&
    decide (request.data.length ≤ kSnapshotChunkSize) &&
    decide (request.offset + request.data.length ≤ 2 ^ 64 - 1)

def clearIncoming (node : RaftNode) : RaftNode :=
  { node with incomingSnapshotData := [], incomingSnapshotActive := false }

/-- The entries that stay behind the installed snapshot. -/
def retainedSuffix (node : RaftNode) : List RaftLogEntry :=
  if node.incomingSnapshotIndex ≤ node.lastIndex ∧
      node.termAt node.incomingSnapshotIndex = node.incomingSnapshotTerm then
    node.log.drop (node.incomingSnapshotIndex - node.snapshotIndex)
  else []

/-- The write of `ApplySnapshot` and the assignments after it. -/
def replaceState (snapshot : SnapshotContents) : NodeM Unit := do
  let node ← Prog.get
  let newCommitIndex := max node.commitIndex node.incomingSnapshotIndex
  writeAtomically
    (.applySnapshot node.incomingSnapshotIndex node.incomingSnapshotTerm node.incomingSnapshotData)
    (RaftStorage.applySnapshot node.store snapshot node.currentTerm node.votedFor newCommitIndex
      node.incomingSnapshotIndex node.incomingSnapshotIndex node.incomingSnapshotTerm
      (retainedSuffix node))
  Prog.modify fun node =>
    { node with
      snapshotIndex := node.incomingSnapshotIndex
      snapshotTerm := node.incomingSnapshotTerm
      snapshotData := node.incomingSnapshotData
      log := retainedSuffix node
      commitIndex := max node.commitIndex node.incomingSnapshotIndex
      lastApplied := node.incomingSnapshotIndex }

/-- The `try` block that installs a complete snapshot; the offset to report. -/
def finishInstall : NodeM (Bool × Nat) := do
  let node ← Prog.get
  let snapshot ← Prog.ofExcept (parseSnapshotState node.incomingSnapshotData)
  replaceState snapshot
  applyCommitted
  let node ← Prog.get
  Prog.modify clearIncoming
  return (true, node.incomingSnapshotData.length)

/-- Whether a chunk starts a new transfer. -/
def startsTransfer (node : RaftNode) (request : Proto.InstallSnapshotRequest) : Prop :=
  node.incomingSnapshotActive = false ∨ node.incomingSnapshotIndex ≠ request.lastIncludedIndex ∨
    node.incomingSnapshotTerm ≠ request.lastIncludedTerm ∨ request.offset = 0

instance (node : RaftNode) (request : Proto.InstallSnapshotRequest) :
    Decidable (startsTransfer node request) :=
  inferInstanceAs (Decidable (_ ∨ _ ∨ _ ∨ _))

/-- The transfer a chunk belongs to, emptied when the chunk starts it. -/
def openTransfer (request : Proto.InstallSnapshotRequest) (node : RaftNode) : RaftNode :=
  if startsTransfer node request then
    { node with
      incomingSnapshotIndex := request.lastIncludedIndex
      incomingSnapshotTerm := request.lastIncludedTerm
      incomingSnapshotData := []
      incomingSnapshotActive := true }
  else node

def receiveChunk (request : Proto.InstallSnapshotRequest) : NodeM (Bool × Nat) := do
  let node ← Prog.get
  if startsTransfer node request ∧ request.offset ≠ 0 then return (false, 0)
  else
    Prog.modify (openTransfer request)
    let node ← Prog.get
    if request.offset ≠ node.incomingSnapshotData.length then return (false, 0)
    else
      Prog.modify fun node =>
        { node with incomingSnapshotData := node.incomingSnapshotData ++ request.data }
      if request.done = true then
        Prog.attempt finishInstall fun _ => do
          Prog.modify clearIncoming
          return (false, 0)
      else return (true, node.incomingSnapshotData.length + request.data.length)

/-- The part of `HandleInstallSnapshot` after the term check: `success` and `next_offset`. -/
def acceptSnapshot (request : Proto.InstallSnapshotRequest) : NodeM (Bool × Nat) := do
  let node ← Prog.get
  if validChunk request = false then return (false, 0)
  else if request.lastIncludedIndex = node.snapshotIndex ∧ request.lastIncludedTerm = node.snapshotTerm then
    return (true, node.snapshotData.length)
  else if node.snapshotIndex < request.lastIncludedIndex then receiveChunk request
  else return (false, 0)

def handleInstallSnapshot (connection : Conn) (request : Proto.InstallSnapshotRequest)
    (requestId : Nat) : NodeM Unit := do
  let node ← Prog.get
  if request.term < node.currentTerm then
    let nextOffset := if node.incomingSnapshotActive then node.incomingSnapshotData.length else 0
    let _ ← sendRpc (some connection) (.installSnapshotResponse
      ⟨node.currentTerm, false, toUint64 node.serverId, nextOffset⟩) requestId
  else
    followLeader request.term
    let answer ← acceptSnapshot request
    let node ← Prog.get
    let _ ← sendRpc (some connection) (.installSnapshotResponse
      ⟨node.currentTerm, answer.1, toUint64 node.serverId, answer.2⟩) requestId

/-- Send the snapshot again, from the given offset. -/
def resumeSnapshot (peer : Int) (offset : Nat) : NodeM Unit := do
  Prog.modify fun node =>
    { node with rpcSnapshotOffset := Function.update node.rpcSnapshotOffset peer offset }
  sendSnapshot peer

def handleInstallSnapshotResponse (connection : Conn) (response : Proto.InstallSnapshotResponse)
    (requestId : Nat) : NodeM Unit := do
  let node ← Prog.get
  let peer := toInt32 response.responderId
  if node.currentTerm < response.term then stepDown response.term
  else if node.role ≠ .leader ∨ response.term ≠ node.currentTerm ∨ requestId = 0 ∨
      node.nextIndex.lookup peer = none ∨ requestId ≠ node.rpcRequestId peer ∨
      node.rpcSnapshot peer = false ∨ node.connectionForPeer peer ≠ some connection then
    return ()
  else
    resetPeerRpcState peer connection
    if node.snapshotData.length < response.nextOffset then resumeSnapshot peer 0
    else if response.success = false then resumeSnapshot peer response.nextOffset
    else if response.nextOffset < node.snapshotData.length then resumeSnapshot peer response.nextOffset
    else
      Prog.modify fun node =>
        { node with
          rpcSnapshotOffset := Function.update node.rpcSnapshotOffset peer 0
          matchIndex := node.matchIndex.insert peer node.snapshotIndex
          nextIndex := node.nextIndex.insert peer (node.snapshotIndex + 1) }
      Prog.emitState (.matchSnapshot connection requestId)
      sendAppend peer

/-! ### ReadIndex -/

def handleReadIndexRequest (connection : Conn) (request : Proto.ReadIndexRequest) (requestId : Nat) :
    NodeM Unit := do
  let node ← Prog.get
  if request.term < node.currentTerm then
    let _ ← sendRpc (some connection)
      (.readIndexResponse ⟨node.currentTerm, false, toUint64 node.serverId⟩) requestId
  else
    followLeader request.term
    let node ← Prog.get
    let _ ← sendRpc (some connection) (.readIndexResponse
      ⟨node.currentTerm, request.term == node.currentTerm, toUint64 node.serverId⟩) requestId

def handleReadIndexResponse (connection : Conn) (response : Proto.ReadIndexResponse)
    (requestId : Nat) : NodeM Unit := do
  let node ← Prog.get
  let peer := toInt32 response.responderId
  if node.currentTerm < response.term then stepDown response.term
  else
    match node.activeReadIndex with
    | none => return ()
    | some active =>
      if node.role ≠ .leader ∨ response.term ≠ node.currentTerm ∨ requestId ≠ active.requestId ∨
          node.nextIndex.lookup peer = none ∨ node.connectionForPeer peer ≠ some connection ∨
          response.success = false then
        return ()
      else
        let acknowledgements := insert peer active.acknowledgements
        Prog.modify fun node =>
          { node with activeReadIndex := some { active with acknowledgements := acknowledgements } }
        Prog.when (node.quorum ≤ acknowledgements.card) (finishReadIndex true)

/-! ### Connections -/

/-- `HandleConnection` of a connection that went down. -/
def handleConnection (connection : Conn) : NodeM Unit := do
  Prog.modify fun node => resetPeers (fun peer =>
    node.inboundConnections peer == some connection &&
      node.connectionForPeer peer == some connection) node
  Prog.modify fun node =>
    { node with inboundConnections := fun peer =>
        if node.inboundConnections peer = some connection then none else node.inboundConnections peer }
  Prog.modify fun node => resetPeers (fun peer =>
    node.outboundConnections peer == some connection &&
      node.connectionForPeer peer == some connection) node
  Prog.modify fun node =>
    { node with outboundConnections := fun peer =>
        if node.outboundConnections peer = some connection then none else node.outboundConnections peer }

/-- A connection that another one takes the place of. -/
def replaceConnection (peer : Int) (current : Option Conn) (connection : Conn) : NodeM Unit :=
  match current with
  | none => return ()
  | some current => Prog.when (current ≠ connection) (do
      resetPeerRpcState peer current
      shutdown current)

/-- What a leader and a candidate send on a new connection. -/
def contactPeer (peer : Int) : NodeM Unit := do
  let node ← Prog.get
  if node.role = .leader then sendAppend peer
  else Prog.when (node.role = .candidate) (sendRequestVoteToPeer peer)

/-- `OnPeerConnection` of a connection that came up. -/
def onPeerConnected (peer : Int) (connection : Conn) : NodeM Unit := do
  let node ← Prog.get
  replaceConnection peer (node.outboundConnections peer) connection
  Prog.modify fun node =>
    { node with outboundConnections := Function.update node.outboundConnections peer (some connection) }
  resetPeerRpcState peer connection
  contactPeer peer
  sendReadIndexProbes
  let _ ← sendRpc (some connection) .identify 0

/-- `OnPeerConnection` of a connection that went down. -/
def onPeerDisconnected (peer : Int) (connection : Conn) : NodeM Unit := do
  let node ← Prog.get
  Prog.when (node.outboundConnections peer = some connection) (do
    resetPeerRpcState peer connection
    Prog.modify fun node =>
      { node with outboundConnections := Function.update node.outboundConnections peer none })

/-- The bookkeeping of `HandleRpc` about which connection belongs to the sender; `false` when the frame is
dropped. -/
def registerSender (connection : Conn) (senderId : Nat) : NodeM Bool := do
  let node ← Prog.get
  let peer := toInt32 senderId
  if senderId = 0 ∨ senderId = toUint64 node.serverId then return true
  else if peer < node.serverId then
    replaceConnection peer (node.inboundConnections peer) connection
    Prog.modify fun node =>
      { node with inboundConnections := Function.update node.inboundConnections peer (some connection) }
    return true
  else
    match node.outboundConnections peer with
    | none =>
      Prog.modify fun node =>
        { node with outboundConnections := Function.update node.outboundConnections peer (some connection) }
      return true
    | some current =>
      if current = connection then return true
      else
        shutdown connection
        return false

/-- The `switch` of `HandleRpc`. -/
def dispatch (connection : Conn) (rpc : Proto.RaftRpc) : NodeM Unit :=
  match rpc.payload with
  | .identify => do
    let node ← Prog.get
    Prog.when (node.role = .leader) (sendAppend (toInt32 rpc.senderId))
  | .requestVote request => handleRequestVote connection request rpc.requestId
  | .requestVoteResponse response => handleRequestVoteResponse connection response rpc.requestId
  | .appendEntries request => handleAppendEntries connection request rpc.requestId
  | .appendEntriesResponse response => handleAppendEntriesResponse connection response rpc.requestId
  | .installSnapshot request => handleInstallSnapshot connection request rpc.requestId
  | .installSnapshotResponse response => handleInstallSnapshotResponse connection response rpc.requestId
  | .readIndex request => handleReadIndexRequest connection request rpc.requestId
  | .readIndexResponse response => handleReadIndexResponse connection response rpc.requestId
  | .unspecified => shutdown connection

def handleRpc (connection : Conn) (rpc : Proto.RaftRpc) : NodeM Unit :=
  Prog.attempt
    (do
      let known ← registerSender connection rpc.senderId
      Prog.when (known = true) (dispatch connection rpc))
    fun _ => shutdown connection

/-! ### Timers -/

def electionTimeout : NodeM Unit := do
  Prog.modify fun node => { node with electionTimer := false }
  let node ← Prog.get
  Prog.when (node.role ≠ .leader ∧ node.stopping = false) becomeCandidate

def heartbeatTimeout : NodeM Unit := do
  Prog.modify fun node => { node with heartbeatTimer := false }
  sendHeartbeats

/-- The callback of a replication timeout that still belongs to the outstanding RPC: the connection is
given up. -/
def rpcTimeout (timeout : RpcTimeout) : NodeM Unit := do
  Prog.modify fun node => { node with rpcTimeouts := node.rpcTimeouts.erase timeout }
  let node ← Prog.get
  let peer := timeout.peerId
  if node.role ≠ .leader ∨ node.rpcInflight peer = false ∨
      (timeout.snapshot = true ∧ node.rpcSnapshot peer = false) ∨
      node.rpcGeneration peer ≠ timeout.generation ∨ node.rpcRequestId peer ≠ timeout.requestId ∨
      node.connectionForPeer peer ≠ some timeout.connection then
    return ()
  else
    resetPeerRpcState peer timeout.connection
    if node.serverId < peer then
      Prog.modify fun node =>
        { node with outboundConnections := Function.update node.outboundConnections peer none }
    else
      shutdown timeout.connection
      Prog.modify fun node =>
        { node with inboundConnections := Function.update node.inboundConnections peer none }

def readTimeout (requestId : Nat) : NodeM Unit := do
  Prog.modify fun node => { node with readIndexTimer := none }
  let node ← Prog.get
  Prog.when (node.activeReadIndex.map PendingReadIndex.requestId = some requestId) (finishReadIndex false)

/-! ### Client calls -/

def setSubmitResult (call : SubmitCall) (value : Bool) : NodeM Unit :=
  Prog.emitState fun node => .submitResult call value node

/-- `wait_for_commit`. -/
def waitForCommit (poll : CommitPoll) : NodeM Unit := do
  let node ← Prog.get
  if node.stopping = true ∨ node.role ≠ .leader then setSubmitResult poll.result false
  else if poll.target ≤ node.commitIndex then setSubmitResult poll.result true
  else Prog.modify fun node => { node with commitPolls := node.commitPolls ++ [poll] }

def commitPoll (poll : CommitPoll) : NodeM Unit := do
  Prog.modify fun node => { node with commitPolls := node.commitPolls.erase poll }
  waitForCommit poll

/-- Append a command to the leader's log and start replicating it. -/
def appendCommand (serialized : Bytes) : NodeM Nat := do
  Prog.modify fun node => { node with log := node.log ++ [⟨node.currentTerm, serialized⟩] }
  persistLog none
  let node ← Prog.get
  let target := node.lastIndex
  tryAdvanceCommit
  Prog.forEach node.otherPeers sendAppend
  return target

/-- The body of the `try` block that `Submit` queues. -/
def submitInLoop (call : SubmitCall) : NodeM Unit := do
  let node ← Prog.get
  let serialized := Protobuf.command.serialize call.command
  if node.role ≠ .leader ∨ node.stopping = true then setSubmitResult call false
  else
    let applied := if call.command.requestId ≠ 0 then
      RaftStorage.getAppliedCommand node.store call.command.clientId call.command.requestId else none
    match applied with
    | some applied => setSubmitResult call (applied == serialized)
    | none => do
      let target ← appendCommand serialized
      waitForCommit ⟨target, call⟩

def submit (call : SubmitCall) : NodeM Unit :=
  Prog.attempt (submitInLoop call) fun _ => setSubmitResult call false

/-- The function that `ReadIndex` queues; `result` is the promise of the caller. -/
def readIndex (result : Nat) : NodeM Unit := do
  let node ← Prog.get
  if node.role ≠ .leader ∨ node.stopping = true then setReadResult result false
  else
    Prog.modify fun node =>
      { node with
        nextRpcId := node.nextRpcId + 1
        pendingReadIndexes := node.pendingReadIndexes ++ [⟨node.nextRpcId, 0, 0, ∅, result⟩] }
    Prog.emit (.queueRead result node.nextRpcId)
    startNextReadIndex

/-! ### Start and stop -/

def loadState : NodeM Unit := do
  let node ← Prog.get
  let state ← Prog.ofExcept (RaftStorage.load node.store)
  Prog.emit (.loadState state)
  let lastIndex := state.snapshotIndex + state.log.length
  let commitIndex := min (max state.commitIndex state.snapshotIndex) lastIndex
  Prog.modify fun node =>
    { node with
      snapshotIndex := state.snapshotIndex
      snapshotTerm := state.snapshotTerm
      snapshotData := state.snapshotData
      currentTerm := state.currentTerm
      votedFor := state.votedFor
      log := state.log
      commitIndex := commitIndex
      lastApplied := min (max state.lastApplied state.snapshotIndex) commitIndex }
  applyCommitted

def startInLoop : NodeM Unit := do
  Prog.modify fun node => { node with role := .follower, votesReceived := 0, grantedVotes := ∅ }
  loadState
  Prog.modify fun node =>
    { node with
      nextIndex := node.otherPeers.foldl (fun map peer => map.insert peer (node.lastIndex + 1)) node.nextIndex
      matchIndex := node.otherPeers.foldl (fun map peer => map.insert peer 0) node.matchIndex
      ready := true }
  resetElectionTimer

def stopInLoop : NodeM Unit := do
  Prog.modify fun node => { node with electionTimer := false, heartbeatTimer := false }
  failPendingReadIndexes
  Prog.modify fun node =>
    { node with
      ready := false
      leader := false
      outboundConnections := fun _ => none
      inboundConnections := fun _ => none }

end NodeM

end Nukv
