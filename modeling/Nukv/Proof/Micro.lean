import Nukv.Model.Cluster
import Nukv.Proof.Log
import Nukv.Proof.Storage

/-!
# What a node does in one small step

Every function of the event loop is a sequence of the steps below. A step has at most one effect, and a
store write and the assignments that go with it are one step, so between any two steps the store and the
memory of the node agree. All invariants are proved against these steps.

The steps work on the node without its timers and counters nobody else depends on (`RaftNode.core`), and with
a few notes about where in a function the node is: inside `ApplyCommitted`, before a new leader's first
message to some peers, answering a read, or with a submission in hand.
-/

namespace Nukv

variable [Protobuf]

namespace RaftNode

omit [Protobuf] in
theorem mem_otherPeers {node : RaftNode} {peer : Int} :
    peer ∈ node.otherPeers ↔ peer ∈ node.peers ∧ peer ≠ node.serverId := by
  simp [otherPeers]

/-- The node without the fields that decide nothing outside the node. -/
def core (node : RaftNode) : RaftNode :=
  { node with
    toTimerState := ⟨false, false, none, [], false, false, false, false⟩
    voteRequestId := fun _ => 0
    votesReceived := 0
    rpcGeneration := fun _ => 0
    rpcHasEntries := fun _ => false
    rpcSnapshot := fun _ => false
    rpcSnapshotOffset := fun _ => 0 }

/-- The node after `PersistState`. -/
def stateSaved (node : RaftNode) : RaftNode :=
  { node with
    store := node.store.written (RaftStorage.persistState node.currentTerm node.votedFor
      node.commitIndex node.lastApplied node.snapshotIndex node.snapshotTerm) }

/-- The node after `PersistLog`. -/
def logSaved (node : RaftNode) : RaftNode :=
  { node with
    store := node.store.written (RaftStorage.persistLog node.store node.snapshotIndex node.log) }

def steppedDown (node : RaftNode) : RaftNode :=
  { node with role := .follower, activeReadIndex := none, pendingReadIndexes := [] }

def termAdopted (node : RaftNode) (term : Nat) : RaftNode :=
  ({ node.steppedDown with currentTerm := term, votedFor := -1 } : RaftNode).stateSaved

def campaigning (node : RaftNode) : RaftNode :=
  ({ node with
      role := .candidate
      currentTerm := node.currentTerm + 1
      votedFor := node.serverId
      grantedVotes := {node.serverId} } : RaftNode).stateSaved

def voteSaved (node : RaftNode) (candidate : Int) : RaftNode :=
  ({ node with votedFor := candidate } : RaftNode).stateSaved

def appended (node : RaftNode) (command : Bytes) : RaftNode :=
  ({ node with log := node.log ++ [⟨node.currentTerm, command⟩] } : RaftNode).logSaved

/-- The node that `HandleAppendEntries` leaves when it goes on to apply. -/
def merged (node : RaftNode) (log : List RaftLogEntry) (leaderCommit : Nat) : RaftNode :=
  { ({ node with log := log } : RaftNode).logSaved with
    commitIndex := min leaderCommit (node.snapshotIndex + log.length) }

def entryApplied (node : RaftNode) (batch : WriteBatch) : RaftNode :=
  { node with store := node.store.written batch, lastApplied := node.lastApplied + 1 }

/-- The data of a snapshot taken now. -/
def captured (node : RaftNode) : Bytes :=
  serializeSnapshotState node.store.getAllUserEntries (RaftStorage.getAppliedRequests node.store)

def compacted (node : RaftNode) : RaftNode :=
  { node with
    store := node.store.written (RaftStorage.persistSnapshot node.store node.currentTerm node.votedFor
      node.commitIndex node.lastApplied node.commitIndex (node.termAt node.commitIndex)
      (serializeSnapshotMetadata node.commitIndex (node.termAt node.commitIndex)) node.captured
      (node.log.drop (node.commitIndex - node.snapshotIndex)))
    snapshotIndex := node.commitIndex
    snapshotTerm := node.termAt node.commitIndex
    snapshotData := node.captured
    log := node.log.drop (node.commitIndex - node.snapshotIndex) }

def installed (node : RaftNode) (snapshot : SnapshotContents) : RaftNode :=
  { node with
    store := node.store.written (RaftStorage.applySnapshot node.store snapshot node.currentTerm
      node.votedFor (max node.commitIndex node.incomingSnapshotIndex) node.incomingSnapshotIndex
      node.incomingSnapshotIndex node.incomingSnapshotTerm (NodeM.retainedSuffix node))
    snapshotIndex := node.incomingSnapshotIndex
    snapshotTerm := node.incomingSnapshotTerm
    snapshotData := node.incomingSnapshotData
    log := NodeM.retainedSuffix node
    commitIndex := max node.commitIndex node.incomingSnapshotIndex
    lastApplied := node.incomingSnapshotIndex }

/-- The node after `Load`, with the clamping of `LoadState`. -/
def loaded (node : RaftNode) (state : PersistedRaftState) : RaftNode :=
  { node with
    snapshotIndex := state.snapshotIndex
    snapshotTerm := state.snapshotTerm
    snapshotData := state.snapshotData
    currentTerm := state.currentTerm
    votedFor := state.votedFor
    log := state.log
    commitIndex := min (max state.commitIndex state.snapshotIndex) (state.snapshotIndex + state.log.length)
    lastApplied := min (max state.lastApplied state.snapshotIndex)
      (min (max state.commitIndex state.snapshotIndex) (state.snapshotIndex + state.log.length)) }

/-- The node after an RPC to `peer` that expects an answer. -/
def awaiting (node : RaftNode) (peer : Int) : RaftNode :=
  { node with
    rpcInflight := Function.update node.rpcInflight peer true
    rpcRequestId := Function.update node.rpcRequestId peer node.nextRpcId
    nextRpcId := node.nextRpcId + 1 }

/-- The node that waits for no answer of the peers `affected` selects. -/
def forgetting (node : RaftNode) (affected : Int → Bool) : RaftNode :=
  { node with
    rpcInflight := fun peer => if affected peer then false else node.rpcInflight peer
    rpcRequestId := fun peer => if affected peer then 0 else node.rpcRequestId peer }

/-- The node after the read at the head of its queue became the active one. -/
def activated (node : RaftNode) (read : PendingReadIndex) (rest : List PendingReadIndex) : RaftNode :=
  { node with
    pendingReadIndexes := rest
    activeReadIndex := some
      { read with
        term := node.currentTerm
        readIndex := node.commitIndex
        acknowledgements := {node.serverId} } }

/-- An InstallSnapshot request that `SendSnapshot` may build: a chunk of the current snapshot. -/
def IsChunk (node : RaftNode) (request : Proto.InstallSnapshotRequest) : Prop :=
  ∃ offset ≤ node.snapshotData.length,
    request = { term := node.currentTerm
                leaderId := toUint64 node.serverId
                lastIncludedIndex := node.snapshotIndex
                lastIncludedTerm := node.snapshotTerm
                offset := offset
                data := (node.snapshotData.drop offset).take
                  (min (node.snapshotData.length - offset) kSnapshotChunkSize)
                done := min (node.snapshotData.length - offset) kSnapshotChunkSize ==
                  node.snapshotData.length - offset }

end RaftNode

omit [Protobuf] in
/-- A vote changes the vote and the store. -/
theorem RaftNode.voteSaved_kept (node : RaftNode) (candidate : Int) :
    (node.voteSaved candidate).currentTerm = node.currentTerm ∧ (node.voteSaved candidate).role = node.role ∧
      (node.voteSaved candidate).snapshotIndex = node.snapshotIndex ∧
      (node.voteSaved candidate).snapshotData = node.snapshotData ∧
      (node.voteSaved candidate).matchIndex = node.matchIndex :=
  ⟨rfl, rfl, rfl, rfl, rfl⟩

/-- A node inside a function of its loop. -/
structure Local where
  node : RaftNode
  /-- Inside `ApplyCommitted`. -/
  applying : Bool
  /-- Peers a new leader has not sent its first message to. -/
  waiting : List Int
  /-- The read whose quorum is complete and whose promise is about to be set. -/
  answering : Option PendingReadIndex
  /-- The submission in hand: the entry just appended, or the poll being run. -/
  pushed : Option CommitPoll

/-- A node between two functions. -/
def Local.rest (node : RaftNode) : Local := ⟨node.core, false, [], none, none⟩

/-- The id a frame gets, and the counter after it: a requested id of zero asks for a fresh one. -/
def IdFor (requested next id next' : Nat) : Prop :=
  requested ≠ 0 ∧ id = requested ∧ next' = next ∨ requested = 0 ∧ id = next ∧ next' = next + 1

/-- The term of the last entry an AppendEntries request vouches for. -/
def Proto.AppendEntriesRequest.lastTerm (request : Proto.AppendEntriesRequest) : Nat :=
  (request.entries.getLast?.map Proto.RaftLogEntry.term).getD request.prevLogTerm

/-- The node's log has all that a successful answer to the request reports. -/
def RaftNode.Accepts (node : RaftNode) (request : Proto.AppendEntriesRequest) (matchIndex : Nat) : Prop :=
  request.term = node.currentTerm ∧ matchIndex = request.prevLogIndex + request.entries.length ∧
    matchIndex ≤ node.lastIndex ∧
    (matchIndex < node.snapshotIndex ∨ node.termAt matchIndex = request.lastTerm)

/-- The reasons for an unsuccessful answer. -/
def RaftNode.Rejects (node : RaftNode) (request : Proto.AppendEntriesRequest) : Prop :=
  request.term < node.currentTerm ∨
    request.term = node.currentTerm ∧
      (request.prevLogIndex < node.snapshotIndex ∨ node.lastIndex < request.prevLogIndex ∨
        node.termAt request.prevLogIndex ≠ request.prevLogTerm ∨
        ¬ Consecutive request.prevLogIndex request.entries ∨
        ∃ entry ∈ request.entries, node.snapshotIndex < entry.index ∧ entry.index ≤ node.lastIndex ∧
          entry.index ≤ node.commitIndex ∧ node.termAt entry.index ≠ entry.term)

/-- What a successful answer to a snapshot chunk says: the node has the snapshot or what follows it, or the
transfer goes on. -/
def RaftNode.Receives (node : RaftNode) (request : Proto.InstallSnapshotRequest) (nextOffset : Nat) : Prop :=
  request.term = node.currentTerm ∧
    (request.lastIncludedIndex ≤ node.snapshotIndex ∨
      request.done = false ∧ nextOffset = request.offset + request.data.length)

/-- The store has the two indexes of the memory. -/
def RaftNode.Counted (node : RaftNode) : Prop :=
  node.store.get commitIndexKey = some (decimal node.commitIndex) ∧
    node.store.get lastAppliedKey = some (decimal node.lastApplied)

omit [Protobuf] in
theorem RaftNode.stateSaved_counted (node : RaftNode) : node.stateSaved.Counted := by
  obtain ⟨-, -, hc, ha⟩ := RaftStorage.lastPut_stateEntries node.currentTerm node.commitIndex node.lastApplied
    node.snapshotIndex node.snapshotTerm node.votedFor
  constructor
  · change (node.store.written _).get _ = _
    rw [RocksKVStore.get_written, RaftStorage.persistState, hc, Option.some_or]
    rfl
  · change (node.store.written _).get _ = _
    rw [RocksKVStore.get_written, RaftStorage.persistState, ha, Option.some_or]
    rfl

theorem RaftNode.logSaved_counted {node : RaftNode} (h : node.Counted) : node.logSaved.Counted :=
  ⟨(Holds.get_persistLog (by decide) _ _).trans h.1, (Holds.get_persistLog (by decide) _ _).trans h.2⟩

theorem RaftNode.entryApplied_counted {node : RaftNode} {command : Proto.Command} {batch : WriteBatch}
    (h : CommandApplier.applyAtomically node.store command (node.lastApplied + 1) node.commitIndex = .ok batch) :
    (node.entryApplied batch).Counted :=
  CommandApplier.get_progress h

theorem RaftNode.compacted_counted (node : RaftNode) : node.compacted.Counted :=
  (RaftStorage.get_counters fun _ hkey _ => RaftStorage.get_persistSnapshot hkey).2.2

theorem RaftNode.installed_counted {node : RaftNode} {snapshot : SnapshotContents} (hwell : snapshot.WellFormed) :
    (node.installed snapshot).Counted :=
  (RaftStorage.get_counters fun _ hkey _ => RaftStorage.get_applySnapshot hwell hkey).2.2

/-- What is stored after a snapshot was taken: the node accepts its own snapshot. -/
theorem RaftNode.compacted_holds {node : RaftNode} {t c a st : Nat} {v : Int} {data : Bytes}
    (h : Holds node.store ⟨t, v, c, a, node.snapshotIndex, st, data, node.log⟩)
    (hlow : node.snapshotIndex + kSnapshotThreshold ≤ node.commitIndex) (hterm : node.termAt node.commitIndex ≠ 0) :
    Holds node.compacted.store ⟨node.currentTerm, node.votedFor, node.commitIndex, node.lastApplied, node.commitIndex,
      node.termAt node.commitIndex, node.captured, node.log.drop (node.commitIndex - node.snapshotIndex)⟩ := by
  unfold kSnapshotThreshold at hlow
  exact h.persistSnapshot _ _ _ _ _ _ _ (show node.snapshotIndex ≤ _ by omega) (by omega) hterm
    (RocksKVStore.wellFormed_contents h.keys).parse

/-- What is stored after a snapshot was installed. -/
theorem RaftNode.installed_holds {node : RaftNode} {state : PersistedRaftState} {snapshot : SnapshotContents}
    (h : Holds node.store state) (hnew : node.snapshotIndex < node.incomingSnapshotIndex)
    (hterm : node.incomingSnapshotTerm ≠ 0) (hparse : parseSnapshotState node.incomingSnapshotData = .ok snapshot) :
    Holds (node.installed snapshot).store ⟨node.currentTerm, node.votedFor,
      max node.commitIndex node.incomingSnapshotIndex, node.incomingSnapshotIndex, node.incomingSnapshotIndex,
      node.incomingSnapshotTerm, serializeSnapshotState snapshot.entries snapshot.appliedRequests,
      NodeM.retainedSuffix node⟩ :=
  h.applySnapshot (.of_parse hparse) _ _ _ _ _ (Nat.ne_of_gt (Nat.zero_lt_of_lt hnew)) hterm

omit [Protobuf] in
theorem lookup_foldl_insert (peers : List Int) (value : Nat) (map : AList fun _ : Int => Nat) (peer : Int) :
    (peers.foldl (fun map peer => map.insert peer value) map).lookup peer =
      if peer ∈ peers then some value else map.lookup peer := by
  induction peers generalizing map with
  | nil => simp
  | cons first rest ih =>
    rw [List.foldl_cons, ih]
    by_cases hrest : peer ∈ rest
    · rw [if_pos hrest, if_pos (List.mem_cons_of_mem _ hrest)]
    · rw [if_neg hrest]
      by_cases hfirst : peer = first
      · rw [hfirst, AList.lookup_insert, if_pos List.mem_cons_self]
      · rw [AList.lookup_insert_ne hfirst, if_neg (by simp [hfirst, hrest])]

section Steps

variable (action : LoopAction)

/-- `SendAppend` may be called for the peer: it is configured, or has just introduced itself. -/
def Addresses (node : RaftNode) (peer : Int) : Prop :=
  peer ∈ node.otherPeers ∨
    ∃ connection rpc, action = .receive connection rpc ∧ rpc.payload = .identify ∧ toInt32 rpc.senderId = peer

/-- The connection may become the one of the peer: a frame has come on it, or it has just come up. -/
def Offers (node : RaftNode) (peer : Int) (connection : Conn) : Prop :=
  connection ∈ node.connections ∧ peer ≠ node.serverId ∧
    ((∃ rpc, action = .receive connection rpc ∧ toInt32 rpc.senderId = peer) ∨
      ∃ serial, action = .connect peer serial ∧ connection = ⟨node.serverId, peer, serial⟩)

/-! ### Roles -/

inductive RoleStep : Local → Option Event → Local → Prop
  | adoptTerm {l : Local} (connection : Conn) (rpc : Proto.RaftRpc) (term : Nat) (s : RaftNode) :
      action = .receive connection rpc → l.answering = none → l.node.currentTerm < term →
        s.store = (l.node.termAdopted term).store →
        RoleStep l (some (.write .persistState s)) { l with node := l.node.termAdopted term }
  | demote {l : Local} (connection : Conn) (rpc : Proto.RaftRpc) :
      action = .receive connection rpc → l.answering = none →
        RoleStep l none { l with node := l.node.steppedDown }
  | campaign {l : Local} (s : RaftNode) :
      action = .electionTimeout → l.answering = none → l.node.role ≠ .leader → s.store = l.node.campaigning.store →
        RoleStep l (some (.write .persistState s)) { l with node := l.node.campaigning }
  | grant {l : Local} (connection : Conn) (rpc : Proto.RaftRpc) (request : Proto.RequestVoteRequest)
      (s : RaftNode) :
      action = .receive connection rpc → rpc.payload = .requestVote request →
        NodeM.grantsVote l.node request = true →
        s.store = (l.node.voteSaved (toInt64 request.candidateId)).store →
        RoleStep l (some (.write .persistState s))
          { l with node := l.node.voteSaved (toInt64 request.candidateId) }
  | countVote {l : Local} (connection : Conn) (rpc : Proto.RaftRpc)
      (response : Proto.RequestVoteResponse) :
      action = .receive connection rpc → rpc.payload = .requestVoteResponse response →
        l.node.role = .candidate → response.term = l.node.currentTerm →
        l.node.connectionForPeer (toInt32 response.responderId) = some connection →
        toInt32 response.responderId ∈ l.node.otherPeers → response.voteGranted = true →
        RoleStep l none { l with node :=
          { l.node with grantedVotes := insert (toInt32 response.responderId) l.node.grantedVotes } }
  | elect {l : Local} (s : RaftNode) :
      l.node.role = .candidate → l.node.quorum ≤ l.node.grantedVotes.card →
        s.core = (NodeM.leaderState l.node).core → l.applying = false →
        RoleStep l (some (.becomeLeader s))
          { l with node := (NodeM.leaderState l.node).core, waiting := l.node.otherPeers }

/-! ### The log -/

inductive LogStep : Local → Option Event → Local → Prop
  | push {l : Local} (call : SubmitCall) (s : RaftNode) :
      action = .submit call → l.node.role = .leader → l.waiting = [] →
        (call.command.requestId ≠ 0 →
          RaftStorage.getAppliedCommand l.node.store call.command.clientId call.command.requestId = none) →
        s.core = l.node.appended (Protobuf.command.serialize call.command) →
        LogStep l (some (.write (.persistLog none) s))
          { l with
            node := l.node.appended (Protobuf.command.serialize call.command)
            pushed := some ⟨l.node.lastIndex + 1, call⟩ }
  | advance {l : Local} (index : Nat) (s : RaftNode) :
      l.node.role = .leader → NodeM.commitCandidate l.node = some index →
        s.core = { l.node with commitIndex := index } → l.applying = false →
        LogStep l (some (.advanceCommit s))
          { l with node := { l.node with commitIndex := index }, applying := true }
  | merge {l : Local} (connection : Conn) (rpc : Proto.RaftRpc) (request : Proto.AppendEntriesRequest)
      (s : RaftNode) :
      action = .receive connection rpc → rpc.payload = .appendEntries request →
        l.node.role = .follower → request.term = l.node.currentTerm →
        NodeM.prevMatches l.node request = true →
        (NodeM.mergeEntries l.node request.prevLogIndex request.entries).success = true →
        s.core = ({ l.node with
          log := (NodeM.mergeEntries l.node request.prevLogIndex request.entries).log } : RaftNode).logSaved →
        l.applying = false →
        LogStep l (some (.write (.persistLog (some request)) s))
          { l with
            node := l.node.merged (NodeM.mergeEntries l.node request.prevLogIndex request.entries).log
              request.leaderCommit
            applying := true }
  /-- Entries that are not consecutive: the loop stops in the middle and nothing is saved. -/
  | spoil {l : Local} (connection : Conn) (rpc : Proto.RaftRpc) (request : Proto.AppendEntriesRequest)
      (log : List RaftLogEntry) :
      action = .receive connection rpc → rpc.payload = .appendEntries request →
        ¬ Consecutive request.prevLogIndex request.entries →
        LogStep l none { l with node := { l.node with log := log } }
  | install {l : Local} (connection : Conn) (rpc : Proto.RaftRpc) (request : Proto.InstallSnapshotRequest)
      (snapshot : SnapshotContents) (s : RaftNode) :
      action = .receive connection rpc → rpc.payload = .installSnapshot request →
        l.node.role = .follower → request.term = l.node.currentTerm →
        request.lastIncludedIndex = l.node.incomingSnapshotIndex →
        request.lastIncludedTerm = l.node.incomingSnapshotTerm →
        l.node.snapshotIndex < l.node.incomingSnapshotIndex → l.node.incomingSnapshotActive = true →
        request.done = true →
        l.node.incomingSnapshotData.length = request.offset + request.data.length →
        parseSnapshotState l.node.incomingSnapshotData = .ok snapshot →
        s.core = { l.node with store := (l.node.installed snapshot).store } → l.node.incomingSnapshotTerm ≠ 0 →
        l.applying = false →
        LogStep l (some (.write (.applySnapshot l.node.incomingSnapshotIndex l.node.incomingSnapshotTerm
            l.node.incomingSnapshotData) s))
          { l with node := l.node.installed snapshot, applying := true }

/-! ### Applying and compacting -/

inductive ApplyStep : Local → Option Event → Local → Prop
  | enter {l : Local} : ApplyStep l none { l with applying := true }
  | catchUp {l : Local} :
      l.applying = true →
        ApplyStep l none { l with node :=
          { l.node with lastApplied := max l.node.lastApplied l.node.snapshotIndex } }
  | call {l : Local} (entry : RaftLogEntry) :
      l.applying = true → l.node.lastApplied < l.node.commitIndex →
        l.node.entryAt (l.node.lastApplied + 1) = .ok entry →
        ApplyStep l (some (.callApply (l.node.lastApplied + 1) entry.command)) l
  | apply {l : Local} (entry : RaftLogEntry) (command : Proto.Command) (batch : WriteBatch)
      (s : RaftNode) :
      l.applying = true → l.node.lastApplied < l.node.commitIndex →
        l.node.entryAt (l.node.lastApplied + 1) = .ok entry →
        Protobuf.command.parse entry.command = some command →
        CommandApplier.applyAtomically l.node.store command (l.node.lastApplied + 1)
          l.node.commitIndex = .ok batch →
        s.store = (l.node.entryApplied batch).store →
        ApplyStep l (some (.write (.applyAtomically (l.node.lastApplied + 1) entry.command) s))
          { l with node := l.node.entryApplied batch }
  | persist {l : Local} (s : RaftNode) :
      l.applying = true → l.node.commitIndex ≤ l.node.lastApplied → s.store = l.node.stateSaved.store →
        ApplyStep l (some (.write .persistState s)) { l with node := l.node.stateSaved }
  | compact {l : Local} (s : RaftNode) :
      l.applying = true → l.node.commitIndex ≤ l.node.lastApplied →
        l.node.snapshotIndex + kSnapshotThreshold ≤ l.node.commitIndex →
        l.node.termAt l.node.commitIndex ≠ 0 → l.node.commitIndex ≤ l.node.lastIndex →
        s.store = l.node.compacted.store → s.commitIndex = l.node.commitIndex → s.lastApplied = l.node.lastApplied →
        ApplyStep l (some (.write (.persistSnapshot l.node.commitIndex
            (l.node.termAt l.node.commitIndex) l.node.captured) s))
          { l with node := l.node.compacted }
  | leave {l : Local} (s : RaftNode) :
      l.node.commitIndex ≤ l.node.lastApplied →
        l.node.commitIndex < l.node.snapshotIndex + kSnapshotThreshold → l.node.Counted → l.applying = true →
        s.core = l.node →
        ApplyStep l (some (.finishApply s)) { l with applying := false }
  | refuse {l : Local} (entry : RaftLogEntry) :
      l.node.lastApplied < l.node.commitIndex → l.node.entryAt (l.node.lastApplied + 1) = .ok entry →
        (∀ command, Protobuf.command.parse entry.command = some command →
          ∃ x, CommandApplier.applyAtomically l.node.store command (l.node.lastApplied + 1)
            l.node.commitIndex = .error x) →
        ApplyStep l (some (.refuseApply (l.node.lastApplied + 1))) { l with applying := false }
  /-- The next entry is not in the log, or no snapshot can be taken after all is applied. -/
  | abort {l : Local} (x : Exn) :
      (l.node.lastApplied < l.node.commitIndex ∧ (∃ x, l.node.entryAt (l.node.lastApplied + 1) = .error x) ∨
        l.node.commitIndex ≤ l.node.lastApplied ∧ l.node.Counted ∧
          l.node.snapshotIndex + kSnapshotThreshold ≤ l.node.commitIndex ∧
          (l.node.termAt l.node.commitIndex = 0 ∨ l.node.lastIndex < l.node.commitIndex)) →
        ApplyStep l (some (.refuseIndex x)) { l with applying := false }

/-! ### Receiving a snapshot -/

inductive ChunkStep : Local → Option Event → Local → Prop
  | openTransfer {l : Local} (connection : Conn) (rpc : Proto.RaftRpc)
      (request : Proto.InstallSnapshotRequest) :
      action = .receive connection rpc → rpc.payload = .installSnapshot request → request.offset = 0 →
        ChunkStep l none { l with node :=
          { l.node with
            incomingSnapshotIndex := request.lastIncludedIndex
            incomingSnapshotTerm := request.lastIncludedTerm
            incomingSnapshotData := []
            incomingSnapshotActive := true } }
  | appendChunk {l : Local} (connection : Conn) (rpc : Proto.RaftRpc)
      (request : Proto.InstallSnapshotRequest) :
      action = .receive connection rpc → rpc.payload = .installSnapshot request →
        l.node.incomingSnapshotActive = true →
        request.lastIncludedIndex = l.node.incomingSnapshotIndex →
        request.lastIncludedTerm = l.node.incomingSnapshotTerm →
        request.offset = l.node.incomingSnapshotData.length →
        ChunkStep l none { l with node :=
          { l.node with incomingSnapshotData := l.node.incomingSnapshotData ++ request.data } }
  | clear {l : Local} : ChunkStep l none { l with node := NodeM.clearIncoming l.node }

/-! ### Sending and answering -/

inductive SendStep : Local → Option Event → Local → Prop
  | requestVote {l : Local} (peer : Int) (connection : Conn) (s : RaftNode) :
      l.node.role = .candidate → l.node.connectionForPeer peer = some connection →
        connection ∈ l.node.connected → s.toLogState = l.node.toLogState →
        SendStep l (some (.send connection ⟨l.node.nextRpcId, toUint64 l.node.serverId,
            .requestVote ⟨l.node.currentTerm, toUint64 l.node.serverId, l.node.lastIndex,
              l.node.lastTerm⟩⟩ s))
          { l with node := { l.node with nextRpcId := l.node.nextRpcId + 1 } }
  | identify {l : Local} (connection : Conn) (s : RaftNode) :
      connection ∈ l.node.connected → s.toLogState = l.node.toLogState →
        SendStep l (some (.send connection ⟨l.node.nextRpcId, toUint64 l.node.serverId, .identify⟩ s))
          { l with node := { l.node with nextRpcId := l.node.nextRpcId + 1 } }
  | readIndex {l : Local} (peer : Int) (connection : Conn) (active : PendingReadIndex) (id next : Nat)
      (s : RaftNode) :
      l.node.role = .leader → l.node.activeReadIndex = some active →
        active.term = l.node.currentTerm → l.node.connectionForPeer peer = some connection →
        connection ∈ l.node.connected → IdFor active.requestId l.node.nextRpcId id next →
        s.toLogState = l.node.toLogState →
        SendStep l (some (.send connection ⟨id, toUint64 l.node.serverId,
            .readIndex ⟨l.node.currentTerm, toUint64 l.node.serverId⟩⟩ s))
          { l with node := { l.node with nextRpcId := next } }
  | voteResponse {l : Local} (connection : Conn) (rpc : Proto.RaftRpc)
      (request : Proto.RequestVoteRequest) (granted : Bool) (id next : Nat) (s : RaftNode) :
      action = .receive connection rpc → rpc.payload = .requestVote request →
        (granted = true → request.term = l.node.currentTerm ∧
          l.node.votedFor = toInt64 request.candidateId) →
        connection ∈ l.node.connected → IdFor rpc.requestId l.node.nextRpcId id next →
        s.toLogState = l.node.toLogState →
        SendStep l (some (.send connection ⟨id, toUint64 l.node.serverId,
            .requestVoteResponse ⟨l.node.currentTerm, granted, toUint64 l.node.serverId⟩⟩ s))
          { l with node := { l.node with nextRpcId := next } }
  | appendResponse {l : Local} (connection : Conn) (rpc : Proto.RaftRpc)
      (request : Proto.AppendEntriesRequest) (success : Bool) (matchIndex id next : Nat) (s : RaftNode) :
      action = .receive connection rpc → rpc.payload = .appendEntries request →
        (success = true → l.node.role = .follower ∧ l.node.Accepts request matchIndex) →
        (success = false → l.node.Rejects request) →
        connection ∈ l.node.connected → IdFor rpc.requestId l.node.nextRpcId id next →
        s.toLogState = l.node.toLogState →
        SendStep l (some (.send connection ⟨id, toUint64 l.node.serverId,
            .appendEntriesResponse ⟨l.node.currentTerm, success, matchIndex, toUint64 l.node.serverId⟩⟩ s))
          { l with node := { l.node with nextRpcId := next } }
  | snapshotResponse {l : Local} (connection : Conn) (rpc : Proto.RaftRpc)
      (request : Proto.InstallSnapshotRequest) (success : Bool) (nextOffset id next : Nat) (s : RaftNode) :
      action = .receive connection rpc → rpc.payload = .installSnapshot request →
        (success = true → l.node.Receives request nextOffset) →
        connection ∈ l.node.connected → IdFor rpc.requestId l.node.nextRpcId id next →
        s.toLogState = l.node.toLogState →
        SendStep l (some (.send connection ⟨id, toUint64 l.node.serverId,
            .installSnapshotResponse ⟨l.node.currentTerm, success, toUint64 l.node.serverId, nextOffset⟩⟩ s))
          { l with node := { l.node with nextRpcId := next } }
  | readResponse {l : Local} (connection : Conn) (rpc : Proto.RaftRpc)
      (request : Proto.ReadIndexRequest) (success : Bool) (id next : Nat) (s : RaftNode) :
      action = .receive connection rpc → rpc.payload = .readIndex request →
        (success = true → request.term = l.node.currentTerm) →
        connection ∈ l.node.connected → IdFor rpc.requestId l.node.nextRpcId id next →
        s.toLogState = l.node.toLogState →
        SendStep l (some (.send connection ⟨id, toUint64 l.node.serverId,
            .readIndexResponse ⟨l.node.currentTerm, success, toUint64 l.node.serverId⟩⟩ s))
          { l with node := { l.node with nextRpcId := next } }

/-! ### Replicating -/

inductive PeerStep : Local → Option Event → Local → Prop
  | sendAppend {l : Local} (peer : Int) (connection : Conn) (s : RaftNode) :
      l.node.role = .leader → l.node.rpcInflight peer = false →
        l.node.connectionForPeer peer = some connection → connection ∈ l.node.connected →
        l.node.snapshotIndex < l.node.nextIndexOf peer → s.toLogState = l.node.toLogState →
        PeerStep l (some (.send connection ⟨l.node.nextRpcId, toUint64 l.node.serverId,
            .appendEntries (NodeM.appendRequest l.node peer)⟩ s))
          { l with node := l.node.awaiting peer, waiting := l.waiting.erase peer }
  /-- The frame does not fit: the peer counts as busy although nothing was sent. -/
  | oversize {l : Local} (peer : Int) (connection : Conn) (rpc : Proto.RaftRpc) (s : RaftNode) :
      l.node.role = .leader → l.node.rpcInflight peer = false →
        l.node.connectionForPeer peer = some connection → connection ∈ l.node.connected →
        rpc.payload = .appendEntries (NodeM.appendRequest l.node peer) →
        (NodeM.appendRequest l.node peer).entries ≠ [] → kMaxFrameSize < Protobuf.rpcByteSize rpc →
        PeerStep l (some (.refuseFrame connection rpc s)) { l with
          node := { l.node with
            rpcInflight := Function.update l.node.rpcInflight peer true
            nextRpcId := l.node.nextRpcId + 1 } }
  | sendSnapshot {l : Local} (peer : Int) (connection : Conn) (request : Proto.InstallSnapshotRequest)
      (s : RaftNode) :
      l.node.role = .leader → l.node.rpcInflight peer = false →
        l.node.connectionForPeer peer = some connection → connection ∈ l.node.connected →
        l.node.nextIndexOf peer ≤ l.node.snapshotIndex → l.node.nextIndex.lookup peer ≠ none →
        l.node.IsChunk request → s.toLogState = l.node.toLogState →
        PeerStep l (some (.send connection ⟨l.node.nextRpcId, toUint64 l.node.serverId,
            .installSnapshot request⟩ s))
          { l with node := l.node.awaiting peer, waiting := l.waiting.erase peer }
  | resumeSnapshot {l : Local} (connection : Conn) (rpc : Proto.RaftRpc)
      (response : Proto.InstallSnapshotResponse) (request : Proto.InstallSnapshotRequest) (s : RaftNode) :
      action = .receive connection rpc → rpc.payload = .installSnapshotResponse response →
        l.node.role = .leader → response.term = l.node.currentTerm → rpc.requestId ≠ 0 →
        rpc.requestId = l.node.rpcRequestId (toInt32 response.responderId) →
        l.node.connectionForPeer (toInt32 response.responderId) = some connection →
        connection ∈ l.node.connected → l.waiting = [] →
        l.node.nextIndex.lookup (toInt32 response.responderId) ≠ none → l.node.IsChunk request →
        s.toLogState = l.node.toLogState →
        PeerStep l (some (.send connection ⟨l.node.nextRpcId, toUint64 l.node.serverId,
            .installSnapshot request⟩ s))
          { l with node := l.node.awaiting (toInt32 response.responderId) }
  | forget {l : Local} (affected : Int → Bool) :
      PeerStep l none { l with node := l.node.forgetting affected }
  | touch {l : Local} (peer : Int) :
      l.node.nextIndex.lookup peer = none → Addresses action l.node peer → l.node.connectionForPeer peer ≠ none →
        l.node.role = .leader →
        PeerStep l none { l with node := { l.node with nextIndex := l.node.nextIndex.insert peer 0 } }
  /-- Nothing can be sent to a peer that is not connected. -/
  | skip {l : Local} (peer : Int) :
      (∀ connection, l.node.connectionForPeer peer = some connection → connection ∉ l.node.connected) →
        PeerStep l none { l with waiting := l.waiting.erase peer }
  | ackAppend {l : Local} (connection : Conn) (rpc : Proto.RaftRpc)
      (response : Proto.AppendEntriesResponse) :
      action = .receive connection rpc → rpc.payload = .appendEntriesResponse response →
        l.node.role = .leader → response.term = l.node.currentTerm → rpc.requestId ≠ 0 →
        rpc.requestId = l.node.rpcRequestId (toInt32 response.responderId) →
        l.node.connectionForPeer (toInt32 response.responderId) = some connection →
        l.node.nextIndex.lookup (toInt32 response.responderId) ≠ none → response.success = true →
        PeerStep l none { l with node :=
          { l.node.forgetting (fun peer => peer == toInt32 response.responderId) with
            matchIndex := l.node.matchIndex.insert (toInt32 response.responderId)
              (min response.matchIndex l.node.lastIndex)
            nextIndex := l.node.nextIndex.insert (toInt32 response.responderId)
              (min response.matchIndex l.node.lastIndex + 1) } }
  | backOff {l : Local} (connection : Conn) (rpc : Proto.RaftRpc)
      (response : Proto.AppendEntriesResponse) :
      action = .receive connection rpc → rpc.payload = .appendEntriesResponse response →
        l.node.role = .leader → response.term = l.node.currentTerm → rpc.requestId ≠ 0 →
        rpc.requestId = l.node.rpcRequestId (toInt32 response.responderId) →
        l.node.connectionForPeer (toInt32 response.responderId) = some connection →
        response.success = false →
        l.node.snapshotIndex + 1 < l.node.nextIndexOf (toInt32 response.responderId) →
        PeerStep l none { l with node :=
          { l.node.forgetting (fun peer => peer == toInt32 response.responderId) with
            nextIndex := l.node.nextIndex.insert (toInt32 response.responderId)
              (l.node.nextIndexOf (toInt32 response.responderId) - 1) } }
  | ackSnapshot {l : Local} (connection : Conn) (rpc : Proto.RaftRpc)
      (response : Proto.InstallSnapshotResponse) (s : RaftNode) :
      action = .receive connection rpc → rpc.payload = .installSnapshotResponse response →
        l.node.role = .leader → response.term = l.node.currentTerm → rpc.requestId ≠ 0 →
        rpc.requestId = l.node.rpcRequestId (toInt32 response.responderId) →
        l.node.connectionForPeer (toInt32 response.responderId) = some connection →
        l.node.nextIndex.lookup (toInt32 response.responderId) ≠ none → response.success = true →
        response.nextOffset = l.node.snapshotData.length →
        s.toLogState = l.node.toLogState →
        PeerStep l (some (.matchSnapshot connection rpc.requestId s)) { l with node :=
          { l.node.forgetting (fun peer => peer == toInt32 response.responderId) with
            matchIndex := l.node.matchIndex.insert (toInt32 response.responderId) l.node.snapshotIndex
            nextIndex := l.node.nextIndex.insert (toInt32 response.responderId)
              (l.node.snapshotIndex + 1) } }
  | setIndexes {l : Local} :
      l.node.role ≠ .leader →
        PeerStep l none { l with node :=
          { l.node with
            nextIndex := l.node.otherPeers.foldl (fun map peer => map.insert peer (l.node.lastIndex + 1))
              l.node.nextIndex
            matchIndex := l.node.otherPeers.foldl (fun map peer => map.insert peer 0) l.node.matchIndex } }

/-! ### Connections -/

inductive ConnStep : Local → Option Event → Local → Prop
  /-- The connection of a peer changes only while no answer of the peer is awaited on it. -/
  | reconnect {l : Local} (outbound inbound : Int → Option Conn) :
      (∀ peer,
        ({ l.node with outboundConnections := outbound, inboundConnections := inbound } :
          RaftNode).connectionForPeer peer = l.node.connectionForPeer peer ∨
        (l.node.rpcRequestId peer = 0 ∨ l.node.connectionForPeer peer = none) ∧ ∀ connection,
          ({ l.node with outboundConnections := outbound, inboundConnections := inbound } :
            RaftNode).connectionForPeer peer = some connection →
          Offers action l.node peer connection) →
        ConnStep l none { l with node :=
          { l.node with outboundConnections := outbound, inboundConnections := inbound } }
  | shutdown {l : Local} (connected : List Conn) :
      (∀ connection ∈ connected, connection ∈ l.node.connected) →
        ConnStep l none { l with node := { l.node with connected := connected } }
  | close {l : Local} (connection : Conn) :
      l.node.connectionForPeer (connection.otherEnd l.node.serverId) ≠ some connection →
        ConnStep l none { l with node :=
          { l.node with
            connections := l.node.connections.filter fun c => c ≠ connection
            connected := l.node.connected.filter fun c => c ≠ connection } }

/-! ### Reads -/

inductive ReadStep : Local → Option Event → Local → Prop
  | queue {l : Local} (result : Nat) :
      action = .readIndex result → l.node.role = .leader →
        ReadStep l (some (.queueRead result l.node.nextRpcId))
          { l with node :=
            { l.node with
              nextRpcId := l.node.nextRpcId + 1
              pendingReadIndexes := l.node.pendingReadIndexes ++ [⟨l.node.nextRpcId, 0, 0, ∅, result⟩] } }
  | activate {l : Local} (read : PendingReadIndex) (rest : List PendingReadIndex) (s : RaftNode) :
      l.answering = none → l.node.role = .leader → l.node.activeReadIndex = none →
        l.node.pendingReadIndexes = read :: rest → s.core = l.node.activated read rest →
        ReadStep l (some (.activateRead s)) { l with node := l.node.activated read rest }
  | ack {l : Local} (connection : Conn) (rpc : Proto.RaftRpc) (response : Proto.ReadIndexResponse)
      (active : PendingReadIndex) :
      action = .receive connection rpc → rpc.payload = .readIndexResponse response →
        l.node.activeReadIndex = some active → l.node.role = .leader →
        response.term = l.node.currentTerm → rpc.requestId = active.requestId →
        l.node.connectionForPeer (toInt32 response.responderId) = some connection →
        l.node.nextIndex.lookup (toInt32 response.responderId) ≠ none → response.success = true →
        ReadStep l none { l with node :=
          { l.node with activeReadIndex := some { active with
              acknowledgements := insert (toInt32 response.responderId) active.acknowledgements } } }
  | finish {l : Local} (active : PendingReadIndex) :
      l.node.activeReadIndex = some active → l.node.role = .leader →
        l.node.quorum ≤ active.acknowledgements.card →
        ReadStep l none { l with node := { l.node with activeReadIndex := none }, answering := some active }
  | giveUp {l : Local} (pending : List PendingReadIndex) :
      pending.Sublist l.node.pendingReadIndexes →
        ReadStep l none { l with node :=
          { l.node with activeReadIndex := none, pendingReadIndexes := pending } }
  | answerTrue {l : Local} (active : PendingReadIndex) (s : RaftNode) :
      l.answering = some active →
        (l.node.role = .leader → l.node.currentTerm = active.term →
          active.readIndex ≤ l.node.lastApplied) →
        s.core = l.node →
        ReadStep l (some (.readResult active.result true s)) { l with answering := none }
  | answerFalse {l : Local} (result : Nat) (s : RaftNode) :
      ReadStep l (some (.readResult result false s)) { l with answering := none }
  | clear {l : Local} : ReadStep l none { l with answering := none }

/-! ### Submissions -/

inductive SubmitStep : Local → Option Event → Local → Prop
  | take {l : Local} (poll : CommitPoll) :
      poll ∈ l.node.commitPolls →
        SubmitStep l none { l with
          node := { l.node with commitPolls := l.node.commitPolls.erase poll }
          pushed := some poll }
  | wait {l : Local} (poll : CommitPoll) :
      l.pushed = some poll →
        SubmitStep l none { l with
          node := { l.node with commitPolls := l.node.commitPolls ++ [poll] }
          pushed := none }
  | committed {l : Local} (poll : CommitPoll) (s : RaftNode) :
      l.pushed = some poll → l.node.role = .leader → poll.target ≤ l.node.commitIndex → s.core = l.node →
        SubmitStep l (some (.submitResult poll.result true s)) { l with pushed := none }
  | repeated {l : Local} (call : SubmitCall) (s : RaftNode) :
      action = .submit call → l.node.role = .leader → call.command.requestId ≠ 0 →
        RaftStorage.getAppliedCommand l.node.store call.command.clientId call.command.requestId =
          some (Protobuf.command.serialize call.command) →
        s.core = l.node →
        SubmitStep l (some (.submitResult call true s)) l
  | refused {l : Local} (call : SubmitCall) (s : RaftNode) :
      SubmitStep l (some (.submitResult call false s)) { l with pushed := none }
  | clear {l : Local} : SubmitStep l none { l with pushed := none }

/-- One small step of a node that is running a function of its loop. -/
inductive Micro (l : Local) (event : Option Event) (l' : Local) : Prop
  | role : RoleStep action l event l' → Micro l event l'
  | log : LogStep action l event l' → Micro l event l'
  | apply : ApplyStep l event l' → Micro l event l'
  | chunk : ChunkStep action l event l' → Micro l event l'
  | send : SendStep action l event l' → Micro l event l'
  | peer : PeerStep action l event l' → Micro l event l'
  | conn : ConnStep action l event l' → Micro l event l'
  | read : ReadStep action l event l' → Micro l event l'
  | submit : SubmitStep action l event l' → Micro l event l'

end Steps

/-- A peer keeps its next index, whatever it is. -/
theorem Micro.nextIndex_kept {action : LoopAction} {l l' : Local} {event : Option Event} (h : Micro action l event l')
    {peer : Int} (hpeer : l.node.nextIndex.lookup peer ≠ none) : l'.node.nextIndex.lookup peer ≠ none := by
  have hinsert : ∀ p (next : Nat), (l.node.nextIndex.insert p next).lookup peer ≠ none := by
    intro p next
    by_cases heq : peer = p
    · simp [heq]
    · rwa [AList.lookup_insert_ne heq]
  have hfold : ∀ (peers : List Int) (next : Nat),
      (peers.foldl (fun map p => map.insert p next) l.node.nextIndex).lookup peer ≠ none := by
    intro peers next
    rw [lookup_foldl_insert]
    split
    · simp
    · exact hpeer
  rcases h with h | h | h | h | h | h | h | h | h <;> cases h
  all_goals first
    | exact hpeer
    | exact hinsert _ _
    | exact hfold _ _

theorem Micro.identity {action : LoopAction} {l l' : Local} {event : Option Event} (h : Micro action l event l') :
    l'.node.toIdentity = l.node.toIdentity := by
  rcases h with h | h | h | h | h | h | h | h | h <;> cases h <;> rfl

end Nukv
