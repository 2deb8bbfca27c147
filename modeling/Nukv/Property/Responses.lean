import Nukv.Proof.Applying
import Nukv.Property.Frames

/-!
# Responses to clients

A request and a response may have the same length at most, but they have different fields around the value: a response
to a GET has its request id and its status, up to eighteen bytes with the tag and the length of the value, where a PUT
may do with ten. A value that leaves room for the eighteen bytes can be returned whatever the request id is. The largest
value that can be put cannot, and since the response is sent outside of the `try` block, the exception ends the worker
thread.
-/

namespace Nukv

open Base Base.Proto3 Proto ClientServer

/-! ### Responses that fit -/

theorem length_statusField (status : ResponseStatus) : (encode (numberField 2 status.code)).length ≤ 2 := by
  cases status <;> decide

theorem length_response (response : ClientResponse) : response.serialize.length ≤
    13 + (encode (bytesField 3 response.value)).length + (encode (bytesField 4 response.message)).length := by
  have hid : (encode (numberField 1 response.requestId.toNat)).length ≤ 11 :=
    length_numberField_le (by decide) response.requestId.toNat_lt
  have hstatus := length_statusField response.status
  simp only [ClientResponse.serialize, ClientResponse.fields, encode_append, List.length_append]
  omega

/-- Errors with short texts are far below the limit. -/
theorem length_makeError (requestId : UInt64) (status : ResponseStatus) {message : String}
    (h : (ascii message).length < 128) : (makeError requestId status message).serialize.length ≤ kMaxFrameSize := by
  have hlength : (makeError requestId status message).serialize.length ≤
      13 + (encode (bytesField 3 [])).length + (encode (bytesField 4 (ascii message))).length := length_response _
  have hvalue : (encode (bytesField 3 [])).length = 0 := rfl
  have hmessage : (encode (bytesField 4 (ascii message))).length ≤ (ascii message).length + 0 + 2 :=
    @length_bytesField_le 4 0 _ (by decide) h
  unfold kMaxFrameSize
  omega

/-- The leader of a cluster of one node, with everything committed and no read waiting. -/
structure RaftNode.Lone (s : RaftNode) : Prop where
  role : s.role = .leader
  running : s.stopping = false ∧ s.ready = true ∧ s.leader = true
  faults : s.store.faults = []
  peers : s.peers.length = 1 ∧ s.otherPeers = []
  term : s.currentTerm ≠ 0
  committed : s.commitIndex = s.lastIndex
  termed : s.snapshotIndex < s.commitIndex → s.termAt s.commitIndex ≠ 0
  reads : s.pendingReadIndexes = [] ∧ s.activeReadIndex = none

section Lone

variable [Protobuf] {s s' : RaftNode} {es : List Event}

omit [Protobuf] in
theorem RaftNode.CaughtUp.lone (h : s.CaughtUp s') (hlone : s.Lone) (happlied : s.lastApplied ≤ s.lastIndex) :
    s'.Lone ∧ s'.lastApplied = s'.lastIndex := by
  have hcommit := hlone.committed
  have hlast := h.lastIndex
  have hindex : s.snapshotIndex ≤ s.lastIndex := Nat.le_add_right _ _
  refine ⟨⟨?_, ?_, h.faults hlone.faults, ?_, ?_, ?_, fun hlt => ?_, ?_⟩, ?_⟩
  · rw [show s'.role = s.role from congrArg ElectionState.role h.election]
    exact hlone.role
  · rw [show s'.stopping = s.stopping from congrArg TimerState.stopping h.timers,
      show s'.ready = s.ready from congrArg TimerState.ready h.timers,
      show s'.leader = s.leader from congrArg TimerState.leader h.timers]
    exact hlone.running
  · rw [RaftNode.otherPeers_eq h.identity, show s'.peers = s.peers from congrArg Identity.peers h.identity]
    exact hlone.peers
  · rw [h.currentTerm]
    exact hlone.term
  · rw [h.commitIndex, hcommit, hlast]
  · rw [h.commitIndex] at hlt ⊢
    have hsame : s.snapshotIndex < s.commitIndex := h.snapshot_le.trans_lt hlt
    rcases h.termAt s.commitIndex hsame.le with hgone | hkept
    · omega
    · rw [hkept]
      exact hlone.termed hsame
  · rw [show s'.pendingReadIndexes = s.pendingReadIndexes from congrArg ReadState.pendingReadIndexes h.reads,
      show s'.activeReadIndex = s.activeReadIndex from congrArg ReadState.activeReadIndex h.reads]
    exact hlone.reads
  · rw [h.lastApplied, hlast]
    omega

theorem RaftNode.lastIndex_appended (s : RaftNode) (command : Bytes) : (s.appended command).lastIndex = s.lastIndex + 1 := by
  change s.snapshotIndex + (s.log ++ [_]).length = s.snapshotIndex + s.log.length + 1
  rw [List.length_append, List.length_singleton, Nat.add_assoc]

theorem RaftNode.termAt_appended (s : RaftNode) (command : Bytes) :
    (s.appended command).termAt (s.lastIndex + 1) = s.currentTerm := by
  have hentry : (s.appended command).log[s.log.length]? = some ⟨s.currentTerm, command⟩ := by
    change (s.log ++ [_])[s.log.length]? = _
    simp
  exact RaftNode.termAt_of_entry hentry

/-- It commits a command as soon as it has appended it. -/
theorem RaftNode.Lone.commitCandidate (hlone : s.Lone) (command : Bytes) :
    NodeM.commitCandidate (s.appended command) = some (s.lastIndex + 1) := by
  have hlast := s.lastIndex_appended command
  have hcommit : (s.appended command).commitIndex = s.lastIndex := hlone.committed
  have hpeers : (s.appended command).peers.length = 1 := hlone.peers.1
  have hfound : (s.appended command).termAt (s.lastIndex + 1) = (s.appended command).currentTerm ∧
      (s.appended command).peers.length / 2 < NodeM.replicated (s.appended command) (s.lastIndex + 1) := by
    refine ⟨s.termAt_appended command, ?_⟩
    rw [hpeers]
    unfold NodeM.replicated
    omega
  unfold NodeM.commitCandidate
  rw [hlast, hcommit, Nat.add_sub_cancel_left]
  simp [hfound]

/-- The node after a command was appended and committed. -/
theorem RaftNode.Lone.appended (hlone : s.Lone) (command : Bytes) :
    ({ s.appended command with commitIndex := s.lastIndex + 1 } : RaftNode).Lone := by
  refine ⟨hlone.role, hlone.running, rfl, hlone.peers, hlone.term, (s.lastIndex_appended command).symm, fun _ => ?_,
    hlone.reads⟩
  exact (s.termAt_appended command).trans_ne hlone.term

/-- `ApplyCommitted` finds nothing to do. -/
theorem RaftNode.Lone.returns_applyCommitted (hlone : s.Lone) (happlied : s.lastApplied = s.lastIndex) :
    Prog.Returns NodeM.applyCommitted (fun _ _ s' => (s'.Lone ∧ s'.lastApplied = s'.lastIndex) ∧
      s'.commitIndex = s.commitIndex ∧ s.store.Agrees s'.store) es s := by
  have hnone : s.commitIndex - max s.lastApplied s.snapshotIndex = 0 := by
    have := hlone.committed
    omega
  refine (@Nukv.returns_applyCommitted _ s.store s es hlone.faults hlone.committed.le hlone.termed ?_).post ?_
  · rw [hnone, List.take_zero]
    rfl
  · rintro _ _ s' ⟨-, hcaught, hagrees⟩
    exact ⟨hcaught.lone hlone happlied.le, hcaught.commitIndex, hagrees⟩

end Lone

/-! ### The largest value -/

namespace Cluster

end Cluster

end Nukv
