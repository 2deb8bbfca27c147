import Nukv.Proof.Ending
import Nukv.Proof.Loop

/-!
# Requests and their timeouts

Whoever sets `rpc_inflight_` arms a timeout, and the callback of the timeout gives up unless the flag, the generation,
the id of the request, its type and the connection are still the ones it captured. The members are written by many
functions. Each of them keeps what matters: a leader has no flag set without a timeout that will pass its guards, as
long as no frame is refused.
-/

namespace Nukv

open Base

namespace RaftNode

/-- An armed timeout whose callback finds everything as it captured it. -/
def Current (node : RaftNode) (timeout : RpcTimeout) : Prop :=
  node.rpcGeneration timeout.peerId = timeout.generation ∧ node.rpcRequestId timeout.peerId = timeout.requestId ∧
    node.connectionForPeer timeout.peerId = some timeout.connection ∧
    (timeout.snapshot = true → node.rpcSnapshot timeout.peerId = true)

/-- A leader waits for no answer without a timeout. -/
def Timed (node : RaftNode) : Prop :=
  node.role = .leader → ∀ peer ∈ node.otherPeers, node.rpcInflight peer = true →
    ∃ timeout ∈ node.rpcTimeouts, timeout.peerId = peer ∧ node.Current timeout

variable {s s' : RaftNode}

/-- The connections of peers from which no answer is awaited may change. -/
theorem Timed.reconnect (h : s.Timed) {outbound inbound : Int → Option Conn}
    (hsame : ∀ peer connection, s.rpcInflight peer = true → s.connectionForPeer peer = some connection →
      ({ s with outboundConnections := outbound, inboundConnections := inbound } : RaftNode).connectionForPeer peer =
        some connection) :
    ({ s with outboundConnections := outbound, inboundConnections := inbound } : RaftNode).Timed := by
  intro hrole peer hpeer hinflight
  obtain ⟨timeout, hmem, rfl, hgeneration, hid, hconnection, htype⟩ := h hrole peer hpeer hinflight
  exact ⟨timeout, hmem, rfl, hgeneration, hid, hsame _ _ hinflight hconnection, htype⟩

/-- The outbound connection of a peer changes: it is not the one that counts, or no answer is awaited on it. -/
theorem Timed.setOutbound (h : s.Timed) {peer : Int} {connection : Option Conn}
    (hidle : s.serverId < peer → ∀ c, s.connectionForPeer peer = some c →
      connection = some c ∨ s.rpcInflight peer = false) :
    ({ s with outboundConnections := Function.update s.outboundConnections peer connection } : RaftNode).Timed := by
  refine h.reconnect fun p c hinflight hp => (s.connectionForPeer_outbound peer connection p).trans ?_
  split
  · next hpp =>
    obtain ⟨rfl, hlt⟩ := hpp
    exact (hidle hlt c hp).resolve_right fun hfalse => nomatch hfalse.symm.trans hinflight
  · exact hp

theorem Timed.setInbound (h : s.Timed) {peer : Int} {connection : Option Conn}
    (hidle : ¬ s.serverId < peer → ∀ c, s.connectionForPeer peer = some c →
      connection = some c ∨ s.rpcInflight peer = false) :
    ({ s with inboundConnections := Function.update s.inboundConnections peer connection } : RaftNode).Timed := by
  refine h.reconnect fun p c hinflight hp => (s.connectionForPeer_inbound peer connection p).trans ?_
  split
  · next hpp =>
    obtain ⟨rfl, hge⟩ := hpp
    exact (hidle hge c hp).resolve_right fun hfalse => nomatch hfalse.symm.trans hinflight
  · exact hp

theorem Timed.resetPeers (h : s.Timed) (affected : Int → Bool) : (NodeM.resetPeers affected s).Timed := by
  intro hrole peer hpeer hinflight
  change (if affected peer then false else s.rpcInflight peer) = true at hinflight
  split at hinflight
  · cases hinflight
  · next hother =>
    obtain ⟨timeout, hmem, rfl, hgeneration, hid, hconnection, htype⟩ := h hrole peer hpeer hinflight
    exact ⟨timeout, hmem, rfl, (if_neg hother).trans hgeneration, (if_neg hother).trans hid, hconnection,
      fun hsnapshot => (if_neg hother).trans (htype hsnapshot)⟩

/-- A connection that went down is forgotten, with what was awaited on it. -/
theorem Timed.dropInbound (h : s.Timed) (connection : Conn) :
    ({ NodeM.resetPeers (fun peer => s.inboundConnections peer == some connection &&
        s.connectionForPeer peer == some connection) s with
      inboundConnections := fun peer =>
        if s.inboundConnections peer = some connection then none else s.inboundConnections peer } : RaftNode).Timed := by
  refine (h.resetPeers _).reconnect fun peer c hinflight hpeer => ?_
  change (if s.serverId < peer then s.outboundConnections peer else if s.inboundConnections peer = some connection then
    none else s.inboundConnections peer) = some c
  have hother : ¬ (s.inboundConnections peer = some connection ∧ s.connectionForPeer peer = some connection) := by
    rintro ⟨hin, hconn⟩
    exact absurd hinflight (by simp [NodeM.resetPeers, hin, hconn])
  have hpeer' : s.connectionForPeer peer = some c := hpeer
  unfold connectionForPeer at hpeer' hother
  split at hpeer'
  · next hlt => rwa [if_pos hlt]
  · next hge =>
    rw [if_neg hge] at hother
    rw [if_neg hge, if_neg fun hin => hother ⟨hin, hin⟩, hpeer']

theorem Timed.dropOutbound (h : s.Timed) (connection : Conn) :
    ({ NodeM.resetPeers (fun peer => s.outboundConnections peer == some connection &&
        s.connectionForPeer peer == some connection) s with
      outboundConnections := fun peer =>
        if s.outboundConnections peer = some connection then none else s.outboundConnections peer } :
          RaftNode).Timed := by
  refine (h.resetPeers _).reconnect fun peer c hinflight hpeer => ?_
  change (if s.serverId < peer then if s.outboundConnections peer = some connection then none else
    s.outboundConnections peer else s.inboundConnections peer) = some c
  have hother : ¬ (s.outboundConnections peer = some connection ∧ s.connectionForPeer peer = some connection) := by
    rintro ⟨hout, hconn⟩
    exact absurd hinflight (by simp [NodeM.resetPeers, hout, hconn])
  have hpeer' : s.connectionForPeer peer = some c := hpeer
  unfold connectionForPeer at hpeer' hother
  split at hpeer'
  · next hlt =>
    rw [if_pos hlt] at hother
    rw [if_pos hlt, if_neg fun hout => hother ⟨hout, hout⟩, hpeer']
  · next hge => rwa [if_neg hge]

/-- As `Timed`, apart from one peer. -/
def TimedBut (node : RaftNode) (peer : Int) : Prop :=
  node.role = .leader → ∀ p ∈ node.otherPeers, p ≠ peer → node.rpcInflight p = true →
    ∃ timeout ∈ node.rpcTimeouts, timeout.peerId = p ∧ node.Current timeout

/-- A request to a peer is about to be sent. -/
theorem Timed.open (h : s.Timed) {peer : Int} {hasEntries snapshot : Int → Bool}
    (hsnapshot : ∀ p, p ≠ peer → snapshot p = s.rpcSnapshot p) : ({ s with
      rpcInflight := Function.update s.rpcInflight peer true
      rpcGeneration := Function.update s.rpcGeneration peer (s.rpcGeneration peer + 1)
      rpcHasEntries := hasEntries
      rpcSnapshot := snapshot } : RaftNode).TimedBut peer := by
  intro hrole p hp hne hinflight
  have hinflight' : s.rpcInflight p = true := (Function.update_of_ne hne ..).symm.trans hinflight
  obtain ⟨timeout, hmem, rfl, hgeneration, hid, hconnection, htype⟩ := h hrole p hp hinflight'
  exact ⟨timeout, hmem, rfl, (Function.update_of_ne hne ..).trans hgeneration, hid, hconnection,
    fun htrue => (hsnapshot _ hne).trans (htype htrue)⟩

/-- The timeout of the request is armed. -/
theorem TimedBut.arm {peer : Int} {connection : Conn} {snapshot : Bool} (h : s.TimedBut peer)
    (hpeer : s.connectionForPeer peer = some connection) (htype : snapshot = true → s.rpcSnapshot peer = true)
    (requestId next : Nat) : ({ s with
      rpcRequestId := Function.update s.rpcRequestId peer requestId
      nextRpcId := next
      rpcTimeouts := s.rpcTimeouts ++ [⟨peer, s.rpcGeneration peer, requestId, connection, snapshot⟩] } :
        RaftNode).Timed := by
  intro hrole p hp hinflight
  by_cases hpp : p = peer
  · subst hpp
    exact ⟨_, List.mem_append_right _ (List.mem_singleton_self _), rfl, rfl, Function.update_self .., hpeer, htype⟩
  · obtain ⟨timeout, hmem, rfl, hgeneration, hid, hrest⟩ := h hrole p hp hpp hinflight
    exact ⟨timeout, List.mem_append_left _ hmem, rfl, hgeneration, (Function.update_of_ne hpp ..).trans hid, hrest⟩

/-- The flag of the peer is cleared. -/
theorem TimedBut.reset {peer : Int} (h : s.TimedBut peer) : (NodeM.resetPeers (fun p => p == peer) s).Timed := by
  intro hrole p hp hinflight
  change (if (p == peer) = true then false else s.rpcInflight p) = true at hinflight
  split at hinflight
  · cases hinflight
  · next hother =>
    obtain ⟨timeout, hmem, rfl, hgeneration, hid, hconnection, htype⟩ := h hrole p hp (by simpa using hother) hinflight
    exact ⟨timeout, hmem, rfl, (if_neg hother).trans hgeneration, (if_neg hother).trans hid, hconnection,
      fun hsnapshot => (if_neg hother).trans (htype hsnapshot)⟩

/-- A timeout that has run out is gone. -/
theorem Timed.erase (h : s.Timed) (timeout : RpcTimeout) :
    ({ s with rpcTimeouts := s.rpcTimeouts.erase timeout } : RaftNode).TimedBut timeout.peerId := by
  intro hrole p hp hne hinflight
  obtain ⟨other, hmem, rfl, hcurrent⟩ := h hrole p hp hinflight
  exact ⟨other, (List.mem_erase_of_ne fun heq => hne (congrArg RpcTimeout.peerId heq)).mpr hmem, rfl, hcurrent⟩

/-- If its callback would have given up, the request of its peer has another one. -/
theorem Timed.eraseStale (h : s.Timed) (timeout : RpcTimeout)
    (hstale : s.role = .leader → s.rpcInflight timeout.peerId = true → ¬ s.Current timeout) :
    ({ s with rpcTimeouts := s.rpcTimeouts.erase timeout } : RaftNode).Timed := by
  intro hrole p hp hinflight
  obtain ⟨other, hmem, rfl, hcurrent⟩ := h hrole p hp hinflight
  refine ⟨other, (List.mem_erase_of_ne ?_).mpr hmem, rfl, hcurrent⟩
  rintro rfl
  exact hstale hrole hinflight hcurrent

theorem timed_of_role (h : s.role ≠ .leader) : s.Timed := fun hrole => absurd hrole h

theorem timed_leaderState (s : RaftNode) : (NodeM.leaderState s).Timed := by
  intro _ peer hpeer hinflight
  change (if peer ∈ s.otherPeers then false else s.rpcInflight peer) = true at hinflight
  exact absurd hinflight (by rw [if_pos (show peer ∈ s.otherPeers from hpeer)]; exact Bool.false_ne_true)

end RaftNode

/-- No frame was refused. -/
def Fitting (es : List Event) : Prop := ∀ connection rpc s, .refuseFrame connection rpc s ∉ es

theorem Fitting.of_append {es es' : List Event} (h : Fitting (es ++ es')) : Fitting es := fun connection rpc s hmem =>
  h connection rpc s (List.mem_append_left _ hmem)

/-- As long as no frame is refused, the node waits for no answer without a timeout. -/
def Timing (es : List Event) (s : RaftNode) : Prop := Fitting es → s.Timed

theorem Timing.append {es es' : List Event} {s : RaftNode} (h : Timing es s) : Timing (es ++ es') s := fun hfit =>
  h hfit.of_append

theorem Timing.voted {es : List Event} {s : RaftNode} (h : Timing es s) (candidate : Int) :
    Timing es { s with votedFor := candidate } := h

section Functions

open NodeM Prog

/-! ### Functions that leave the requests alone -/

theorem keeps_writeAtomically (op : StorageOp) (batch : WriteBatch) : Keeps Timing (writeAtomically op batch) :=
  fun _ _ h => ends_writeAtomically (fun _ _ _ => h.append) fun _ _ => h

theorem keeps_shutdown (connection : Conn) : Keeps Timing (shutdown connection) := .modify fun _ _ h => h

theorem keeps_resetElectionTimer : Keeps Timing resetElectionTimer := .modify fun _ _ h => h

theorem keeps_refuseApply (logIndex : Nat) (x : Exn) : Keeps Timing (refuseApply logIndex x) :=
  .bind (.emit fun _ _ h => h.append) fun _ => .throw

theorem keeps_refuseIndex (x : Exn) : Keeps Timing (refuseIndex x) :=
  .bind (.emit fun _ _ h => h.append) fun _ => .throw

theorem keeps_setReadResult (result : Nat) (value : Bool) : Keeps Timing (setReadResult result value) :=
  .emitState fun _ _ h => h.append

theorem keeps_setSubmitResult (call : SubmitCall) (value : Bool) : Keeps Timing (setSubmitResult call value) :=
  .emitState fun _ _ h => h.append

theorem keeps_persistState : Keeps Timing persistState := .get fun _ => keeps_writeAtomically _ _

theorem keeps_failPendingReadIndexes : Keeps Timing failPendingReadIndexes := by
  refine .bind (.modify fun _ _ h => h) fun _ => .bind (.get fun node => ?_) fun _ => .get fun _ =>
    .forEach fun _ => .bind (keeps_setReadResult _ _) fun _ => .modify fun _ _ h => h
  split
  · exact .ret
  · exact .bind (keeps_setReadResult _ _) fun _ => .modify fun _ _ h => h

theorem keeps_resetPeerRpcState (peer : Int) (connection : Conn) :
    Keeps Timing (resetPeerRpcState peer connection) :=
  .get fun _ => .when (.modify fun _ _ h hfit => (h hfit).resetPeers _)

theorem keeps_stepDown (term : Nat) : Keeps Timing (stepDown term) :=
  .get fun _ => .bind (.when (.bind (.modify fun _ _ h => h) fun _ => keeps_persistState)) fun _ =>
    .bind (.modify fun _ s _ _ => RaftNode.timed_of_role (by simp)) fun _ =>
      .bind keeps_failPendingReadIndexes fun _ => keeps_resetElectionTimer

theorem keeps_waitForCommit (poll : CommitPoll) : Keeps Timing (waitForCommit poll) :=
  .get fun _ => .ite (keeps_setSubmitResult _ _) (.ite (keeps_setSubmitResult _ _) (.modify fun _ _ h => h))

theorem keeps_followLeader (term : Nat) : Keeps Timing (followLeader term) :=
  .get fun _ => .bind (.when (keeps_stepDown _)) fun _ => keeps_resetElectionTimer

theorem keeps_touchNextIndex (peer : Int) : Keeps Timing (touchNextIndex peer) := by
  refine .modify fun _ s h => ?_
  split <;> exact h

variable [Protobuf]

theorem keeps_persistLog (request : Option Proto.AppendEntriesRequest) : Keeps Timing (persistLog request) :=
  .get fun _ => keeps_writeAtomically _ _

theorem keeps_applyAtomically (command : Proto.Command) (serialized : Bytes) (logIndex : Nat) :
    Keeps Timing (applyAtomically command serialized logIndex) := by
  refine .get fun node => ?_
  split
  · exact keeps_writeAtomically _ _
  · exact keeps_refuseApply _ _

theorem keeps_applyEntries (remaining : Nat) : Keeps Timing (applyEntries remaining) := by
  induction remaining with
  | zero => exact .ret
  | succ remaining ih =>
    refine .get fun node => ?_
    split
    · exact keeps_refuseIndex _
    split
    · exact keeps_refuseApply _ _
    · exact .bind (.emit fun _ _ h => h.append) fun _ => .bind (keeps_applyAtomically _ _ _) fun _ =>
        .bind (.modify fun _ _ h => h) fun _ => ih

theorem keeps_createSnapshot : Keeps Timing createSnapshot :=
  .get fun _ => .bind (.when (keeps_refuseIndex _)) fun _ => .bind (.when (keeps_refuseIndex _)) fun _ =>
    .bind (keeps_writeAtomically _ _) fun _ => .modify fun _ _ h => h

theorem keeps_createSnapshotIfNeeded : Keeps Timing createSnapshotIfNeeded :=
  .get fun _ => .ite .ret (.bind (.modify fun _ _ h => h) fun _ =>
    .bind (.attempt keeps_createSnapshot fun _ => .bind (.modify fun _ _ h => h) fun _ => .throw) fun _ =>
      .modify fun _ _ h => h)

theorem keeps_applyCommitted : Keeps Timing applyCommitted :=
  .bind (.modify fun _ _ h => h) fun _ => .get fun _ => .bind (keeps_applyEntries _) fun _ =>
    .bind keeps_persistState fun _ => .bind keeps_createSnapshotIfNeeded fun _ => .emitState fun _ _ h => h.append

theorem keeps_tryAdvanceCommit : Keeps Timing tryAdvanceCommit := by
  refine .get fun node => .ite ?_ .ret
  split
  · exact .ret
  · exact .bind (.modify fun _ _ h => h) fun _ => .bind (.emitState fun _ _ h => h.append) fun _ => keeps_applyCommitted

/-! ### Requests and their timeouts -/

theorem keeps_sendRpc (connection : Option Conn) (payload : Proto.Payload) (requestId : Nat) :
    Keeps Timing (sendRpc connection payload requestId) := by
  refine .get fun node => ?_
  split
  · exact .ret
  · exact .ite (.bind (.when (.modify fun _ _ h => h)) fun _ => .bind (.ite (.bind (.emitState fun _ _ h => h.append)
      fun _ => .throw) (.emitState fun _ _ h => h.append)) fun _ => .ret) .ret

theorem keeps_sendRpcToPeer (peer : Int) (payload : Proto.Payload) (requestId : Nat) :
    Keeps Timing (sendRpcToPeer peer payload requestId) := .get fun _ => keeps_sendRpc _ _ _

/-- The request is sent and its timeout armed, or the flag is cleared again. -/
theorem ends_sendReplication {es : List Event} {s : RaftNode} {peer : Int} {connection : Conn}
    {payload : Proto.Payload} {snapshot : Bool} (h : Fitting es → s.TimedBut peer)
    (hpeer : s.connectionForPeer peer = some connection) (htype : snapshot = true → s.rpcSnapshot peer = true) :
    Ends (sendReplication peer connection payload snapshot) (fun _ => Timing) Timing es s := by
  have hreset : Ends (resetPeerRpcState peer connection) (fun _ => Timing) Timing es s :=
    .get (.when (fun _ => .modify fun hfit => (h hfit).reset) fun hno => absurd hpeer hno)
  refine .bind (.get (.ite (fun _ => ?_) fun _ => .ret (.ite (fun _ => hreset) fun hno => absurd rfl hno)))
  refine .bind (.when (fun _ => .modify ?_) fun hno => absurd rfl hno)
  refine .bind (.ite (fun _ => ?_) fun _ => .emitState rfl (.ret ?_))
  · exact .bind (.emitState rfl (.throw fun hfit => absurd (List.mem_append_right _ (List.mem_singleton_self _))
      (hfit _ _ _)))
  · refine .ite (fun _ => ?_) fun _ => .modify fun hfit => (h hfit.of_append).arm hpeer htype _ _
    exact .get (.when (fun _ => .modify fun hfit => (h hfit.of_append).reset) fun hno => absurd hpeer hno)

theorem keeps_sendSnapshot (peer : Int) : Keeps Timing (sendSnapshot peer) := by
  intro es s h
  refine .get (.ite (fun _ => .ret h) fun _ => ?_)
  cases hpeer : s.connectionForPeer peer with
  | none => exact .ret h
  | some connection =>
    refine .ite (fun _ => .bind (.modify ?_)) fun _ => .ret h
    exact ends_sendReplication (fun hfit => (h hfit).open fun p hne => Function.update_of_ne hne ..) hpeer
      fun _ => Function.update_self ..

theorem keeps_sendAppend (peer : Int) : Keeps Timing (sendAppend peer) := by
  intro es s h
  refine .get (.ite (fun _ => .ret h) fun _ => ?_)
  cases hpeer : s.connectionForPeer peer with
  | none => exact .ret h
  | some connection =>
    refine .ite (fun _ => .bind (.modify ?_)) fun _ => .ret h
    obtain ⟨htouched, hpeer'⟩ : Timing es (if s.nextIndex.lookup peer = none then
        { s with nextIndex := s.nextIndex.insert peer 0 } else s) ∧ (if s.nextIndex.lookup peer = none then
        { s with nextIndex := s.nextIndex.insert peer 0 } else s).connectionForPeer peer = some connection := by
      split <;> exact ⟨h, hpeer⟩
    refine .ite (fun _ => keeps_sendSnapshot peer es _ htouched) fun _ => .bind (.modify ?_)
    exact ends_sendReplication (fun hfit => (htouched hfit).open fun _ _ => rfl) hpeer' nofun

theorem keeps_sendHeartbeats : Keeps Timing sendHeartbeats :=
  .get fun _ => .ite .ret (.bind (.forEach keeps_sendAppend) fun _ => .modify fun _ _ h => h)

theorem keeps_becomeLeader : Keeps Timing becomeLeader :=
  .bind (.modify fun _ s _ _ => s.timed_leaderState) fun _ =>
    .bind (.emitState fun _ _ h => h.append) fun _ => keeps_sendHeartbeats

theorem keeps_sendRequestVoteToPeer (peer : Int) : Keeps Timing (sendRequestVoteToPeer peer) :=
  .get fun _ => .bind (keeps_sendRpcToPeer _ _ _) fun _ => .modify fun _ _ h => h

theorem keeps_becomeCandidate : Keeps Timing becomeCandidate :=
  .bind (.modify fun _ _ _ _ => RaftNode.timed_of_role (by simp)) fun _ => .bind keeps_persistState fun _ =>
    .bind keeps_resetElectionTimer fun _ => .bind (.get fun _ => .forEach keeps_sendRequestVoteToPeer) fun _ =>
      .get fun _ => .when keeps_becomeLeader

/-! ### Reads -/

theorem keeps_sendReadIndexProbes : Keeps Timing sendReadIndexProbes := by
  refine .get fun node => ?_
  split
  · exact .ret
  · exact .ite .ret (.forEach fun _ => .bind (keeps_sendRpcToPeer _ _ _) fun _ => .ret)

theorem keeps_finishReadIndexThen {startNext : NodeM Unit} (h : Keeps Timing startNext) (success : Bool) :
    Keeps Timing (finishReadIndexThen startNext success) := by
  refine .get fun node => ?_
  split
  · exact .ret
  · exact .bind (.modify fun _ _ h => h) fun _ => .bind (.get fun _ => .ite (.bind keeps_applyCommitted fun _ =>
      .get fun _ => keeps_setReadResult _ _) (keeps_setReadResult _ _)) fun _ => h

theorem keeps_startNextReadIndexBounded (fuel : Nat) : Keeps Timing (startNextReadIndexBounded fuel) := by
  induction fuel with
  | zero => exact .ret
  | succ fuel ih =>
    refine .get fun node => .ite .ret (.ite keeps_failPendingReadIndexes (.bind (.modify fun es s h => ?_) fun _ =>
      .bind (.emitState fun _ _ h => h.append) fun _ => .ite (keeps_finishReadIndexThen ih true)
        (.bind keeps_sendReadIndexProbes fun _ => .modify fun _ _ h => h)))
    unfold activateNext
    split <;> exact h

theorem keeps_startNextReadIndex : Keeps Timing startNextReadIndex := .get fun _ => keeps_startNextReadIndexBounded _

theorem keeps_finishReadIndex (success : Bool) : Keeps Timing (finishReadIndex success) :=
  keeps_finishReadIndexThen keeps_startNextReadIndex success

/-! ### Message handlers -/

theorem keeps_handleRequestVote (connection : Conn) (request : Proto.RequestVoteRequest) (requestId : Nat) :
    Keeps Timing (handleRequestVote connection request requestId) :=
  .get fun _ => .bind (.when (keeps_stepDown _)) fun _ => .get fun _ =>
    .bind (.when (.bind (.modify fun _ _ h => h.voted _) fun _ => .bind keeps_persistState fun _ =>
      keeps_resetElectionTimer)) fun _ => .bind (keeps_sendRpc _ _ _) fun _ => .ret

theorem keeps_handleRequestVoteResponse (connection : Conn) (response : Proto.RequestVoteResponse) (requestId : Nat) :
    Keeps Timing (handleRequestVoteResponse connection response requestId) :=
  .get fun _ => .ite (keeps_stepDown _) (.ite .ret (.bind (.modify fun _ _ h => h) fun _ => .when keeps_becomeLeader))

theorem keeps_acceptEntries (request : Proto.AppendEntriesRequest) : Keeps Timing (acceptEntries request) :=
  .get fun _ => .ite (.bind (.modify fun _ _ h => h) fun _ => .ite (.bind (keeps_persistLog _) fun _ =>
    .bind (.modify fun _ _ h => h) fun _ => .bind keeps_applyCommitted fun _ => .ret) .ret) .ret

theorem keeps_handleAppendEntries (connection : Conn) (request : Proto.AppendEntriesRequest) (requestId : Nat) :
    Keeps Timing (handleAppendEntries connection request requestId) :=
  .get fun _ => .ite (.bind (keeps_sendRpc _ _ _) fun _ => .ret) (.bind (keeps_followLeader _) fun _ =>
    .bind (keeps_acceptEntries request) fun _ => .get fun _ => .bind (keeps_sendRpc _ _ _) fun _ => .ret)

theorem keeps_handleAppendEntriesResponse (connection : Conn) (response : Proto.AppendEntriesResponse)
    (requestId : Nat) : Keeps Timing (handleAppendEntriesResponse connection response requestId) :=
  .get fun _ => .ite (keeps_stepDown _) (.ite .ret (.bind (keeps_resetPeerRpcState _ _) fun _ =>
    .ite (.bind (.modify fun _ _ h => h) fun _ => .bind keeps_tryAdvanceCommit fun _ => .get fun _ =>
      .when (keeps_sendAppend _)) (.bind (keeps_touchNextIndex _) fun _ => .bind (.when (.modify fun _ _ h => h))
        fun _ => keeps_sendAppend _)))

theorem keeps_receiveChunk (request : Proto.InstallSnapshotRequest) : Keeps Timing (receiveChunk request) := by
  refine .get fun _ => .ite .ret (.bind (.modify fun _ s h => ?_) fun _ => .get fun _ => .ite .ret (.bind
    (.modify fun _ _ h => h) fun _ => .ite (.attempt ?_ fun _ => .bind (.modify fun _ _ h => h) fun _ => .ret) .ret))
  · unfold openTransfer
    split <;> exact h
  · exact .get fun _ => .bind .ofExcept fun _ => .bind (.get fun _ => .bind (keeps_writeAtomically _ _) fun _ =>
      .modify fun _ _ h => h) fun _ => .bind keeps_applyCommitted fun _ => .get fun _ =>
        .bind (.modify fun _ _ h => h) fun _ => .ret

theorem keeps_handleInstallSnapshot (connection : Conn) (request : Proto.InstallSnapshotRequest) (requestId : Nat) :
    Keeps Timing (handleInstallSnapshot connection request requestId) :=
  .get fun _ => .ite (.bind (keeps_sendRpc _ _ _) fun _ => .ret) (.bind (keeps_followLeader _) fun _ =>
    .bind (.get fun _ => .ite .ret (.ite .ret (.ite (keeps_receiveChunk request) .ret))) fun _ =>
      .get fun _ => .bind (keeps_sendRpc _ _ _) fun _ => .ret)

theorem keeps_resumeSnapshot (peer : Int) (offset : Nat) : Keeps Timing (resumeSnapshot peer offset) :=
  .bind (.modify fun _ _ h => h) fun _ => keeps_sendSnapshot peer

theorem keeps_handleInstallSnapshotResponse (connection : Conn) (response : Proto.InstallSnapshotResponse)
    (requestId : Nat) : Keeps Timing (handleInstallSnapshotResponse connection response requestId) :=
  .get fun _ => .ite (keeps_stepDown _) (.ite .ret (.bind (keeps_resetPeerRpcState _ _) fun _ =>
    .ite (keeps_resumeSnapshot _ _) (.ite (keeps_resumeSnapshot _ _) (.ite (keeps_resumeSnapshot _ _)
      (.bind (.modify fun _ _ h => h) fun _ => .bind (.emitState fun _ _ h => h.append) fun _ => keeps_sendAppend _)))))

theorem keeps_handleReadIndexRequest (connection : Conn) (request : Proto.ReadIndexRequest) (requestId : Nat) :
    Keeps Timing (handleReadIndexRequest connection request requestId) :=
  .get fun _ => .ite (.bind (keeps_sendRpc _ _ _) fun _ => .ret) (.bind (keeps_followLeader _) fun _ =>
    .get fun _ => .bind (keeps_sendRpc _ _ _) fun _ => .ret)

theorem keeps_handleReadIndexResponse (connection : Conn) (response : Proto.ReadIndexResponse) (requestId : Nat) :
    Keeps Timing (handleReadIndexResponse connection response requestId) := by
  refine .get fun node => .ite (keeps_stepDown _) ?_
  split
  · exact .ret
  · exact .ite .ret (.bind (.modify fun _ _ h => h) fun _ => .when (keeps_finishReadIndex _))

theorem keeps_dispatch (connection : Conn) (rpc : Proto.RaftRpc) : Keeps Timing (dispatch connection rpc) := by
  unfold dispatch
  split
  · exact .get fun _ => .when (keeps_sendAppend _)
  · exact keeps_handleRequestVote _ _ _
  · exact keeps_handleRequestVoteResponse _ _ _
  · exact keeps_handleAppendEntries _ _ _
  · exact keeps_handleAppendEntriesResponse _ _ _
  · exact keeps_handleInstallSnapshot _ _ _
  · exact keeps_handleInstallSnapshotResponse _ _ _
  · exact keeps_handleReadIndexRequest _ _ _
  · exact keeps_handleReadIndexResponse _ _ _
  · exact keeps_shutdown _

/-! ### Connections -/

omit [Protobuf] in
/-- `ResetPeerRpcState` clears the flag when the connection is the one of the peer. -/
theorem ends_resetPeerRpcState {es : List Event} {s : RaftNode} {peer : Int} {connection : Conn}
    (h : Timing es s) : Ends (resetPeerRpcState peer connection) (fun _ es' s' => Timing es' s' ∧
      s'.serverId = s.serverId ∧ (∀ p, s'.connectionForPeer p = s.connectionForPeer p) ∧
      (s.connectionForPeer peer = some connection → s'.rpcInflight peer = false)) Timing es s := by
  refine .get (.when (fun _ => .modify ?_) fun hno => ⟨h, rfl, fun _ => rfl, fun hyes => absurd hyes hno⟩)
  exact ⟨fun hfit => (h hfit).resetPeers _, rfl, fun _ => rfl, fun _ => if_pos (beq_self_eq_true peer)⟩

omit [Protobuf] in
theorem ends_replaceConnection {es : List Event} {s : RaftNode} {peer : Int} {current : Option Conn}
    {connection : Conn} (h : Timing es s) : Ends (replaceConnection peer current connection)
      (fun _ es' s' => Timing es' s' ∧ s'.serverId = s.serverId ∧
        (current = s.connectionForPeer peer → ∀ c, s'.connectionForPeer peer = some c →
          some connection = some c ∨ s'.rpcInflight peer = false)) Timing es s := by
  unfold replaceConnection
  split
  · exact .ret ⟨h, rfl, fun hnone c hc => nomatch hnone.trans hc⟩
  · next current =>
    refine .when (fun _ => .bind ((ends_resetPeerRpcState h).post fun _ es' s' hs' => .modify ?_)) fun hsame =>
      ⟨h, rfl, fun hcurrent c hc => .inl ?_⟩
    · obtain ⟨htiming, hid, -, hidle⟩ := hs'
      exact ⟨htiming, hid, fun hcurrent _ _ => .inr (hidle hcurrent.symm)⟩
    · rw [← hc, ← hcurrent, Decidable.not_not.mp hsame]

theorem keeps_contactPeer (peer : Int) : Keeps Timing (contactPeer peer) :=
  .get fun _ => .ite (keeps_sendAppend peer) (.when (keeps_sendRequestVoteToPeer peer))

theorem keeps_onPeerConnected (peer : Int) (connection : Conn) : Keeps Timing (onPeerConnected peer connection) := by
  intro es s h
  refine .get (.bind ((ends_replaceConnection h).post ?_))
  rintro _ es' s' ⟨h', hid, hidle⟩
  have hset : Timing es' { s' with
      outboundConnections := Function.update s'.outboundConnections peer (some connection) } := fun hfit =>
    (h' hfit).setOutbound fun hlt => hidle (if_pos (hid ▸ hlt)).symm
  have hrest : Keeps Timing (do
      resetPeerRpcState peer connection
      contactPeer peer
      sendReadIndexProbes
      let _ ← sendRpc (some connection) .identify 0) :=
    .bind (keeps_resetPeerRpcState peer connection) fun _ => .bind (keeps_contactPeer peer) fun _ =>
      .bind keeps_sendReadIndexProbes fun _ => .bind (keeps_sendRpc _ _ _) fun _ => .ret
  exact .bind (.modify (hrest es' _ hset))

omit [Protobuf] in
theorem keeps_onPeerDisconnected (peer : Int) (connection : Conn) :
    Keeps Timing (onPeerDisconnected peer connection) := by
  intro es s h
  refine .get (.when (fun hcurrent => .bind ((ends_resetPeerRpcState h).post ?_)) fun _ => h)
  rintro _ es' s' ⟨h', hid, -, hidle⟩
  refine .modify fun hfit => (h' hfit).setOutbound fun hlt _ _ => .inr (hidle ?_)
  exact (if_pos (hid ▸ hlt)).trans hcurrent

omit [Protobuf] in
theorem keeps_handleConnection (connection : Conn) : Keeps Timing (handleConnection connection) :=
  fun _ _ h => .bind (.modify (.bind (.modify (.bind (.modify (.modify fun hfit =>
    ((h hfit).dropInbound connection).dropOutbound connection))))))

omit [Protobuf] in
theorem keeps_registerSender (connection : Conn) (senderId : Nat) :
    Keeps Timing (registerSender connection senderId) := by
  intro es s h
  refine .get (.ite (fun _ => .ret h) fun _ => .ite (fun hlt => .bind ((ends_replaceConnection h).post ?_))
    fun hge => ?_)
  · rintro _ es' s' ⟨h', -, hidle⟩
    refine .bind (.modify (.ret fun hfit => (h' hfit).setInbound fun _ => hidle ?_))
    exact (if_neg (not_lt.mpr hlt.le)).symm
  · split
    · next hnone =>
      refine .bind (.modify (.ret fun hfit => (h hfit).setOutbound fun hlt c hc => ?_))
      exact nomatch hnone.symm.trans ((if_pos hlt).symm.trans hc)
    · exact .ite (fun _ => .ret h) fun _ => .bind (.modify (.ret h))

omit [Protobuf] in
theorem keeps_rpcTimeout (timeout : RpcTimeout) : Keeps Timing (rpcTimeout timeout) := by
  intro es s h
  refine .bind (.modify (.get (.ite (fun hstale => .ret fun hfit => (h hfit).eraseStale timeout ?_) fun hpass => ?_)))
  · rintro hrole hinflight ⟨hgeneration, hid, hconnection, htype⟩
    rcases hstale with hno | hno | ⟨hsnapshot, hno⟩ | hno | hno | hno
    · exact hno hrole
    · exact nomatch hno.symm.trans hinflight
    · exact nomatch hno.symm.trans (htype hsnapshot)
    · exact hno hgeneration
    · exact hno hid
    · exact hno hconnection
  · have hconnection : s.connectionForPeer timeout.peerId = some timeout.connection := by
      by_contra hno
      exact hpass (.inr (.inr (.inr (.inr (.inr hno)))))
    refine .bind (.get (.when (fun _ => .modify ?_) fun hno => absurd hconnection hno))
    have hreset : Timing es (resetPeers (fun p => p == timeout.peerId)
        { s with rpcTimeouts := s.rpcTimeouts.erase timeout }) := fun hfit => ((h hfit).erase timeout).reset
    have hidle : (resetPeers (fun p => p == timeout.peerId)
        { s with rpcTimeouts := s.rpcTimeouts.erase timeout }).rpcInflight timeout.peerId = false :=
      if_pos (beq_self_eq_true _)
    exact .ite (fun _ => .modify fun hfit => (hreset hfit).setOutbound fun _ _ _ => .inr hidle) fun _ =>
      .bind (.modify (.modify fun hfit => RaftNode.Timed.setInbound (hreset hfit) fun _ _ _ => .inr hidle))

theorem keeps_handleRpc (connection : Conn) (rpc : Proto.RaftRpc) : Keeps Timing (handleRpc connection rpc) :=
  .attempt (.bind (keeps_registerSender connection rpc.senderId) fun _ => .when (keeps_dispatch connection rpc))
    fun _ => keeps_shutdown connection

/-! ### Client calls, start -/

theorem keeps_submit (call : SubmitCall) : Keeps Timing (submit call) := by
  refine .attempt (.get fun _ => .ite (keeps_setSubmitResult _ _) ?_) fun _ => keeps_setSubmitResult _ _
  extract_lets applied
  clear_value applied
  cases applied with
  | some applied => exact keeps_setSubmitResult _ _
  | none =>
    exact .bind (.bind (.modify fun _ _ h => h) fun _ => .bind (keeps_persistLog _) fun _ => .get fun _ =>
      .bind keeps_tryAdvanceCommit fun _ => .bind (.forEach keeps_sendAppend) fun _ => .ret) fun _ =>
        keeps_waitForCommit _

theorem keeps_readIndex (result : Nat) : Keeps Timing (readIndex result) :=
  .get fun _ => .ite (keeps_setReadResult _ _) (.bind (.modify fun _ _ h => h) fun _ =>
    .bind (.emit fun _ _ h => h.append) fun _ => keeps_startNextReadIndex)

theorem keeps_startInLoop : Keeps Timing startInLoop :=
  .bind (.modify fun _ _ _ _ => RaftNode.timed_of_role (by simp)) fun _ =>
    .bind (.get fun _ => .bind .ofExcept fun _ => .bind (.emit fun _ _ h => h.append) fun _ =>
      .bind (.modify fun _ _ h => h) fun _ => keeps_applyCommitted) fun _ =>
        .bind (.modify fun _ _ h => h) fun _ => keeps_resetElectionTimer

theorem keeps_program (server : Int) {action : LoopAction} (hstop : action ≠ .stop) :
    Keeps Timing (Cluster.program server action) := by
  cases action with
  | start => exact keeps_startInLoop
  | stop => exact absurd rfl hstop
  | electionTimeout => exact .bind (.modify fun _ _ h => h) fun _ => .get fun _ => .when keeps_becomeCandidate
  | heartbeatTimeout => exact .bind (.modify fun _ _ h => h) fun _ => keeps_sendHeartbeats
  | rpcTimeout timeout => exact keeps_rpcTimeout timeout
  | readTimeout requestId =>
    exact .bind (.modify fun _ _ h => h) fun _ => .get fun _ => .when (keeps_finishReadIndex false)
  | commitPoll poll => exact .bind (.modify fun _ _ h => h) fun _ => keeps_waitForCommit poll
  | connect peer serial => exact keeps_onPeerConnected peer _
  | accept connection => exact .ret
  | disconnect connection => exact .ite (keeps_onPeerDisconnected _ _) (keeps_handleConnection connection)
  | receive connection rpc => exact keeps_handleRpc connection rpc
  | submit call => exact keeps_submit call
  | readIndex result => exact keeps_readIndex result

end Functions

end Nukv
