import Nukv.Proof.Ending

/-!
# Functions that leave the reads alone

Only a few functions of `RaftNode` touch the read queue, the role or the term. The others store, apply, replicate and look
after connections; a caller that goes on with a read after one of them finds the queue, the role and the term as they were.
-/

namespace Nukv

open Base

/-- The events of the read queue. -/
def Event.ofReads : Event → Bool
  | .queueRead _ _ | .activateRead _ | .readResult _ _ _ => true
  | _ => false

/-- What a function that is not about reads has done since `es₀` and `s₀`. -/
def Aside (es₀ : List Event) (s₀ : RaftNode) (es : List Event) (s : RaftNode) : Prop :=
  s.toReadState = s₀.toReadState ∧ s.role = s₀.role ∧ s.currentTerm = s₀.currentTerm ∧ s₀.nextRpcId ≤ s.nextRpcId ∧
    (s₀.store.faults = [] → s.store.faults = []) ∧ ∃ more, es = es₀ ++ more ∧ ∀ e ∈ more, e.ofReads = false

section Functions

open NodeM Prog

variable {es₀ es : List Event} {s₀ s : RaftNode}

theorem Aside.refl (es : List Event) (s : RaftNode) : Aside es s es s :=
  ⟨rfl, rfl, rfl, Nat.le_refl _, id, [], (List.append_nil es).symm, by simp⟩

theorem Aside.emit (h : Aside es₀ s₀ es s) {e : Event} (he : e.ofReads = false) : Aside es₀ s₀ (es ++ [e]) s := by
  obtain ⟨hreads, hrole, hterm, hid, hfaults, more, rfl, hmore⟩ := h
  refine ⟨hreads, hrole, hterm, hid, hfaults, more ++ [e], List.append_assoc .., fun e' he' => ?_⟩
  rcases List.mem_append.mp he' with hold | hnew
  · exact hmore e' hold
  · exact List.mem_singleton.mp hnew ▸ he

theorem Aside.numbered (h : Aside es₀ s₀ es s) : Aside es₀ s₀ es { s with nextRpcId := s.nextRpcId + 1 } :=
  ⟨h.1, h.2.1, h.2.2.1, Nat.le_succ_of_le h.2.2.2.1, h.2.2.2.2⟩

/-! ### Storing and applying -/

theorem aside_writeAtomically (op : StorageOp) (batch : WriteBatch) :
    Keeps (Aside es₀ s₀) (writeAtomically op batch) := by
  intro es s h
  obtain ⟨hreads, hrole, hterm, hid, hfaults, hmore⟩ := h
  refine ends_writeAtomically (fun faults _ hnil => ?_) fun faults hfails => ?_
  · have hwritten : Aside es₀ s₀ es { s with store := (s.store.written batch).facing faults } :=
      ⟨hreads, hrole, hterm, hid, fun hnone => hnil (hfaults hnone), hmore⟩
    exact hwritten.emit rfl
  · exact ⟨hreads, hrole, hterm, hid, fun hnone => absurd (hfails.symm.trans (hfaults hnone)) (by simp), hmore⟩

theorem aside_persistState : Keeps (Aside es₀ s₀) persistState := .get fun _ => aside_writeAtomically _ _

theorem aside_refuseApply (logIndex : Nat) (x : Exn) : Keeps (Aside es₀ s₀) (refuseApply logIndex x) :=
  .bind (.emit fun _ _ h => h.emit rfl) fun _ => .throw

theorem aside_refuseIndex (x : Exn) : Keeps (Aside es₀ s₀) (refuseIndex x) :=
  .bind (.emit fun _ _ h => h.emit rfl) fun _ => .throw

theorem aside_setSubmitResult (call : SubmitCall) (value : Bool) : Keeps (Aside es₀ s₀) (setSubmitResult call value) :=
  .emitState fun _ _ h => h.emit rfl

theorem aside_waitForCommit (poll : CommitPoll) : Keeps (Aside es₀ s₀) (waitForCommit poll) :=
  .get fun _ => .ite (aside_setSubmitResult _ _) (.ite (aside_setSubmitResult _ _) (.modify fun _ _ h => h))

theorem aside_resetElectionTimer : Keeps (Aside es₀ s₀) resetElectionTimer := .modify fun _ _ h => h

variable [Protobuf]

theorem aside_persistLog (request : Option Proto.AppendEntriesRequest) : Keeps (Aside es₀ s₀) (persistLog request) :=
  .get fun _ => aside_writeAtomically _ _

theorem aside_applyAtomically (command : Proto.Command) (serialized : Bytes) (logIndex : Nat) :
    Keeps (Aside es₀ s₀) (applyAtomically command serialized logIndex) := by
  refine .get fun node => ?_
  split
  · exact aside_writeAtomically _ _
  · exact aside_refuseApply _ _

theorem aside_applyEntries (remaining : Nat) : Keeps (Aside es₀ s₀) (applyEntries remaining) := by
  induction remaining with
  | zero => exact .ret
  | succ remaining ih =>
    refine .get fun node => ?_
    split
    · exact aside_refuseIndex _
    split
    · exact aside_refuseApply _ _
    · exact .bind (.emit fun _ _ h => h.emit rfl) fun _ => .bind (aside_applyAtomically _ _ _) fun _ =>
        .bind (.modify fun _ _ h => h) fun _ => ih

theorem aside_createSnapshot : Keeps (Aside es₀ s₀) createSnapshot :=
  .get fun _ => .bind (.when (aside_refuseIndex _)) fun _ => .bind (.when (aside_refuseIndex _)) fun _ =>
    .bind (aside_writeAtomically _ _) fun _ => .modify fun _ _ h => h

theorem aside_createSnapshotIfNeeded : Keeps (Aside es₀ s₀) createSnapshotIfNeeded :=
  .get fun _ => .ite .ret (.bind (.modify fun _ _ h => h) fun _ =>
    .bind (.attempt aside_createSnapshot fun _ => .bind (.modify fun _ _ h => h) fun _ => .throw) fun _ =>
      .modify fun _ _ h => h)

theorem aside_applyCommitted : Keeps (Aside es₀ s₀) applyCommitted :=
  .bind (.modify fun _ _ h => h) fun _ => .get fun _ => .bind (aside_applyEntries _) fun _ =>
    .bind aside_persistState fun _ => .bind aside_createSnapshotIfNeeded fun _ => .emitState fun _ _ h => h.emit rfl

theorem aside_tryAdvanceCommit : Keeps (Aside es₀ s₀) tryAdvanceCommit := by
  refine .get fun node => .ite ?_ .ret
  split
  · exact .ret
  · exact .bind (.modify fun _ _ h => h) fun _ => .bind (.emitState fun _ _ h => h.emit rfl) fun _ =>
      aside_applyCommitted

/-! ### Sending -/

theorem aside_sendRpc (connection : Option Conn) (payload : Proto.Payload) (requestId : Nat) :
    Keeps (Aside es₀ s₀) (sendRpc connection payload requestId) := by
  refine .get fun node => ?_
  split
  · exact .ret
  · exact .ite (.bind (.when (.modify fun _ _ h => h.numbered)) fun _ => .bind (.ite (.bind
      (.emitState fun _ _ h => h.emit rfl) fun _ => .throw) (.emitState fun _ _ h => h.emit rfl)) fun _ => .ret) .ret

theorem aside_sendRpcToPeer (peer : Int) (payload : Proto.Payload) (requestId : Nat) :
    Keeps (Aside es₀ s₀) (sendRpcToPeer peer payload requestId) := .get fun _ => aside_sendRpc _ _ _

omit [Protobuf] in
theorem aside_resetPeerRpcState (peer : Int) (connection : Conn) :
    Keeps (Aside es₀ s₀) (resetPeerRpcState peer connection) := .get fun _ => .when (.modify fun _ _ h => h)

omit [Protobuf] in
theorem aside_shutdown (connection : Conn) : Keeps (Aside es₀ s₀) (shutdown connection) := .modify fun _ _ h => h

omit [Protobuf] in
theorem aside_touchNextIndex (peer : Int) : Keeps (Aside es₀ s₀) (touchNextIndex peer) := by
  refine .modify fun _ s h => ?_
  split <;> exact h

theorem aside_sendReplication (peer : Int) (connection : Conn) (payload : Proto.Payload) (snapshot : Bool) :
    Keeps (Aside es₀ s₀) (sendReplication peer connection payload snapshot) :=
  .bind (aside_sendRpc _ _ _) fun _ => .ite (aside_resetPeerRpcState _ _) (.modify fun _ _ h => h)

theorem aside_sendSnapshot (peer : Int) : Keeps (Aside es₀ s₀) (sendSnapshot peer) := by
  refine .get fun node => .ite .ret ?_
  split
  · exact .ret
  · exact .ite (.bind (.modify fun _ _ h => h) fun _ => aside_sendReplication _ _ _ _) .ret

theorem aside_sendAppend (peer : Int) : Keeps (Aside es₀ s₀) (sendAppend peer) := by
  refine .get fun node => .ite .ret ?_
  split
  · exact .ret
  · exact .ite (.bind (aside_touchNextIndex peer) fun _ => .ite (aside_sendSnapshot peer)
      (.bind (.modify fun _ _ h => h) fun _ => aside_sendReplication _ _ _ _)) .ret

theorem aside_sendHeartbeats : Keeps (Aside es₀ s₀) sendHeartbeats :=
  .get fun _ => .ite .ret (.bind (.forEach aside_sendAppend) fun _ => .modify fun _ _ h => h)

theorem aside_sendRequestVoteToPeer (peer : Int) : Keeps (Aside es₀ s₀) (sendRequestVoteToPeer peer) :=
  .get fun _ => .bind (aside_sendRpcToPeer _ _ _) fun _ => .modify fun _ _ h => h

theorem aside_sendReadIndexProbes : Keeps (Aside es₀ s₀) sendReadIndexProbes := by
  refine .get fun node => ?_
  split
  · exact .ret
  · exact .ite .ret (.forEach fun _ => .bind (aside_sendRpcToPeer _ _ _) fun _ => .ret)

theorem aside_resumeSnapshot (peer : Int) (offset : Nat) : Keeps (Aside es₀ s₀) (resumeSnapshot peer offset) :=
  .bind (.modify fun _ _ h => h) fun _ => aside_sendSnapshot peer

/-! ### What is received, and from whom -/

theorem aside_acceptEntries (request : Proto.AppendEntriesRequest) : Keeps (Aside es₀ s₀) (acceptEntries request) :=
  .get fun _ => .ite (.bind (.modify fun _ _ h => h) fun _ => .ite (.bind (aside_persistLog _) fun _ =>
    .bind (.modify fun _ _ h => h) fun _ => .bind aside_applyCommitted fun _ => .ret) .ret) .ret

theorem aside_receiveChunk (request : Proto.InstallSnapshotRequest) : Keeps (Aside es₀ s₀) (receiveChunk request) := by
  refine .get fun _ => .ite .ret (.bind (.modify fun _ s h => ?_) fun _ => .get fun _ => .ite .ret (.bind
    (.modify fun _ _ h => h) fun _ => .ite (.attempt ?_ fun _ => .bind (.modify fun _ _ h => h) fun _ => .ret) .ret))
  · unfold openTransfer
    split <;> exact h
  · exact .get fun _ => .bind .ofExcept fun _ => .bind (.get fun _ => .bind (aside_writeAtomically _ _) fun _ =>
      .modify fun _ _ h => h) fun _ => .bind aside_applyCommitted fun _ => .get fun _ =>
        .bind (.modify fun _ _ h => h) fun _ => .ret

theorem aside_acceptSnapshot (request : Proto.InstallSnapshotRequest) : Keeps (Aside es₀ s₀) (acceptSnapshot request) :=
  .get fun _ => .ite .ret (.ite .ret (.ite (aside_receiveChunk request) .ret))

omit [Protobuf] in
theorem aside_replaceConnection (peer : Int) (current : Option Conn) (connection : Conn) :
    Keeps (Aside es₀ s₀) (replaceConnection peer current connection) := by
  unfold replaceConnection
  split
  · exact .ret
  · exact .when (.bind (aside_resetPeerRpcState _ _) fun _ => aside_shutdown _)

theorem aside_contactPeer (peer : Int) : Keeps (Aside es₀ s₀) (contactPeer peer) :=
  .get fun _ => .ite (aside_sendAppend peer) (.when (aside_sendRequestVoteToPeer peer))

theorem aside_onPeerConnected (peer : Int) (connection : Conn) : Keeps (Aside es₀ s₀) (onPeerConnected peer connection) :=
  .get fun _ => .bind (aside_replaceConnection _ _ _) fun _ => .bind (.modify fun _ _ h => h) fun _ =>
    .bind (aside_resetPeerRpcState _ _) fun _ => .bind (aside_contactPeer peer) fun _ =>
      .bind aside_sendReadIndexProbes fun _ => .bind (aside_sendRpc _ _ _) fun _ => .ret

omit [Protobuf] in
theorem aside_onPeerDisconnected (peer : Int) (connection : Conn) :
    Keeps (Aside es₀ s₀) (onPeerDisconnected peer connection) :=
  .get fun _ => .when (.bind (aside_resetPeerRpcState _ _) fun _ => .modify fun _ _ h => h)

omit [Protobuf] in
theorem aside_handleConnection (connection : Conn) : Keeps (Aside es₀ s₀) (handleConnection connection) :=
  .bind (.modify fun _ _ h => h) fun _ => .bind (.modify fun _ _ h => h) fun _ =>
    .bind (.modify fun _ _ h => h) fun _ => .modify fun _ _ h => h

omit [Protobuf] in
theorem aside_registerSender (connection : Conn) (senderId : Nat) :
    Keeps (Aside es₀ s₀) (registerSender connection senderId) := by
  refine .get fun node => .ite .ret (.ite (.bind (aside_replaceConnection _ _ _) fun _ =>
    .bind (.modify fun _ _ h => h) fun _ => .ret) ?_)
  split
  · exact .bind (.modify fun _ _ h => h) fun _ => .ret
  · exact .ite .ret (.bind (aside_shutdown _) fun _ => .ret)

omit [Protobuf] in
theorem aside_rpcTimeout (timeout : RpcTimeout) : Keeps (Aside es₀ s₀) (rpcTimeout timeout) :=
  .bind (.modify fun _ _ h => h) fun _ => .get fun _ => .ite .ret (.bind (aside_resetPeerRpcState _ _) fun _ =>
    .ite (.modify fun _ _ h => h) (.bind (aside_shutdown _) fun _ => .modify fun _ _ h => h))

theorem aside_submit (call : SubmitCall) : Keeps (Aside es₀ s₀) (submit call) := by
  refine .attempt (.get fun _ => .ite (aside_setSubmitResult _ _) ?_) fun _ => aside_setSubmitResult _ _
  extract_lets applied
  clear_value applied
  cases applied with
  | some applied => exact aside_setSubmitResult _ _
  | none =>
    exact .bind (.bind (.modify fun _ _ h => h) fun _ => .bind (aside_persistLog _) fun _ => .get fun _ =>
      .bind aside_tryAdvanceCommit fun _ => .bind (.forEach aside_sendAppend) fun _ => .ret) fun _ =>
        aside_waitForCommit _

end Functions

end Nukv
