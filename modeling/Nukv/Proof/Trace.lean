import Nukv.Proof.Micro

/-!
# The functions of the loop as sequences of small steps: storage, sending, applying

Each lemma says that a function, run on a node, follows `Micro` steps, and what is known of the node when it
returns or throws. `Stands` relates the two: the step system stands in the core of the node, with the given
notes.
-/

namespace Nukv

open Base

variable [Protobuf]

/-- What every function of the loop can rely on and leaves behind: writes do not fail, an RPC id is never
zero, the loop is not being stopped, votes are awaited from configured peers, and an answer is awaited only from
peers that have a next index. -/
def RaftNode.Sound (node : RaftNode) : Prop :=
  node.store.faults = [] ∧ 0 < node.nextRpcId ∧ node.peers.Nodup ∧ node.stopping = false ∧
    (∀ peer, node.voteRequestId peer ≠ 0 → peer ∈ node.otherPeers) ∧
    ∀ peer, node.rpcRequestId peer ≠ 0 → node.nextIndex.lookup peer ≠ none

/-- Moreover no snapshot is being taken. -/
def RaftNode.Calm (node : RaftNode) : Prop := node.Sound ∧ node.snapshotInProgress = false

omit [Protobuf] in
theorem RaftNode.Calm.faults {node : RaftNode} (h : node.Calm) : node.store.faults = [] := h.1.1

omit [Protobuf] in
theorem RaftNode.Calm.written {node : RaftNode} (h : node.Calm) (batch : WriteBatch) :
    ({ node with store := node.store.written batch } : RaftNode).Calm := ⟨⟨rfl, h.1.2⟩, h.2⟩

omit [Protobuf] in
/-- RPC ids are only taken. -/
theorem RaftNode.Calm.sent {node node' : RaftNode} (h : node.Calm) (hstore : node'.store = node.store)
    (hid : node.nextRpcId ≤ node'.nextRpcId) (hidentity : node'.toIdentity = node.toIdentity)
    (hstopping : node'.stopping = node.stopping)
    (hquiet : node'.snapshotInProgress = node.snapshotInProgress)
    (hvotes : ∀ peer, node'.voteRequestId peer ≠ 0 → peer ∈ node'.otherPeers)
    (hanswers : ∀ peer, node'.rpcRequestId peer ≠ 0 → node'.nextIndex.lookup peer ≠ none) : node'.Calm :=
  ⟨⟨hstore ▸ h.faults, Nat.lt_of_lt_of_le h.1.2.1 hid,
    (congrArg Identity.peers hidentity).symm ▸ h.1.2.2.1, hstopping.trans h.1.2.2.2.1, hvotes, hanswers⟩,
    hquiet.trans h.2⟩

omit [Protobuf] in
theorem RaftNode.Calm.stopping {node : RaftNode} (h : node.Calm) : node.stopping = false := h.1.2.2.2.1

omit [Protobuf] in
theorem RaftNode.Calm.votes {node : RaftNode} (h : node.Calm) {peer : Int} (hpeer : node.voteRequestId peer ≠ 0) :
    peer ∈ node.otherPeers := h.1.2.2.2.2.1 peer hpeer

omit [Protobuf] in
theorem RaftNode.Calm.answers {node : RaftNode} (h : node.Calm) {peer : Int} (hpeer : node.rpcRequestId peer ≠ 0) :
    node.nextIndex.lookup peer ≠ none := h.1.2.2.2.2.2 peer hpeer

omit [Protobuf] in
theorem RaftNode.Calm.numbered {node : RaftNode} (h : node.Calm) {next : Nat} (hnext : node.nextRpcId ≤ next) :
    ({ node with nextRpcId := next } : RaftNode).Calm :=
  h.sent rfl hnext rfl rfl rfl (fun _ => h.votes) fun _ => h.answers

omit [Protobuf] in
/-- The next index of a peer may be set at any time. -/
theorem RaftNode.Calm.insert {node : RaftNode} (h : node.Calm) (peer : Int) (next : Nat) :
    ({ node with nextIndex := node.nextIndex.insert peer next } : RaftNode).Calm := by
  refine h.sent rfl le_rfl rfl rfl rfl (fun _ => h.votes) fun p hp => ?_
  by_cases hpeer : p = peer
  · simp [hpeer]
  · rw [AList.lookup_insert_ne hpeer]
    exact h.answers hp

omit [Protobuf] in
theorem RaftNode.Calm.indexed {node : RaftNode} (h : node.Calm) (peers : List Int) (next : Nat) :
    ({ node with nextIndex := peers.foldl (fun map peer => map.insert peer next) node.nextIndex } :
      RaftNode).Calm := by
  refine h.sent rfl le_rfl rfl rfl rfl (fun _ => h.votes) fun p hp => ?_
  change (peers.foldl (fun map peer => map.insert peer next) node.nextIndex).lookup p ≠ none
  rw [lookup_foldl_insert]
  split
  · simp
  · exact h.answers hp

omit [Protobuf] in
/-- Awaiting the answer of a peer that has a next index. -/
theorem RaftNode.Calm.awaits {node : RaftNode} (h : node.Calm) {peer : Int}
    (hpeer : node.nextIndex.lookup peer ≠ none) (inflight snapshot hasEntries : Int → Bool) (generation : Int → Nat)
    (timeouts : List RpcTimeout) :
    ({ node with
      rpcInflight := inflight
      rpcSnapshot := snapshot
      rpcHasEntries := hasEntries
      rpcGeneration := generation
      rpcRequestId := Function.update node.rpcRequestId peer node.nextRpcId
      nextRpcId := node.nextRpcId + 1
      rpcTimeouts := timeouts } : RaftNode).Calm := by
  refine h.sent rfl (Nat.le_succ _) rfl rfl rfl (fun _ => h.votes) fun p hp => ?_
  by_cases heq : p = peer
  · rwa [heq]
  · refine h.answers ?_
    rwa [← Function.update_of_ne heq node.nextRpcId node.rpcRequestId]

omit [Protobuf] in
/-- Giving up answers. -/
theorem RaftNode.Calm.reset {node : RaftNode} (h : node.Calm) (affected : Int → Bool) :
    (NodeM.resetPeers affected node).Calm := by
  refine h.sent rfl le_rfl rfl rfl rfl (fun _ => h.votes) fun p hp => ?_
  refine h.answers fun hzero => hp ?_
  change (if affected p then 0 else node.rpcRequestId p) = 0
  rw [hzero, ite_self]

/-- The step system stands where the node is, with these notes. -/
def Stands (applying : Bool) (waiting : List Int) (answering : Option PendingReadIndex)
    (pushed : Option CommitPoll) (Φ : RaftNode → Prop) (l : Local) (s : RaftNode) : Prop :=
  l = ⟨s.core, applying, waiting, answering, pushed⟩ ∧ s.Calm ∧ Φ s

/-- The node is between two statements of a function, outside `ApplyCommitted` and with nothing left to do as
a new leader. -/
def Idle (answering : Option PendingReadIndex) (pushed : Option CommitPoll) (l : Local) (s : RaftNode) : Prop :=
  Stands false [] answering pushed (fun _ => True) l s

/-- Where an exception leaves the node. -/
def Failed (l : Local) (s : RaftNode) : Prop :=
  l.node = s.core ∧ l.applying = false ∧ l.waiting = [] ∧ s.Calm

omit [Protobuf] in
theorem Stands.imp {applying : Bool} {waiting : List Int} {answering : Option PendingReadIndex}
    {pushed : Option CommitPoll} {Φ Ψ : RaftNode → Prop} {l : Local} {s : RaftNode}
    (h : Stands applying waiting answering pushed Φ l s) (hΦ : Φ s → Ψ s) :
    Stands applying waiting answering pushed Ψ l s :=
  ⟨h.1, h.2.1, hΦ h.2.2⟩

omit [Protobuf] in
theorem Stands.idle {answering : Option PendingReadIndex} {pushed : Option CommitPoll}
    {Φ : RaftNode → Prop} {l : Local} {s : RaftNode} (h : Stands false [] answering pushed Φ l s) :
    Idle answering pushed l s :=
  h.imp fun _ => trivial

omit [Protobuf] in
theorem Stands.failed {waiting : List Int} {answering : Option PendingReadIndex}
    {pushed : Option CommitPoll} {Φ : RaftNode → Prop} {l : Local} {s : RaftNode}
    (h : Stands false waiting answering pushed Φ l s) (hw : waiting = []) : Failed l s := by
  obtain ⟨rfl, hcalm, -⟩ := h
  exact ⟨rfl, rfl, hw, hcalm⟩

section Basics

variable {L : Type} {R : L → Option Event → L → Prop} {l l' : L} {s : RaftNode} {E : L → RaftNode → Prop}

omit [Protobuf] in
/-- A write is one step, whatever assignments the step system lags behind. -/
theorem follows_writeAtomically {op : StorageOp} {batch : WriteBatch} {Q : Unit → L → RaftNode → Prop}
    (hfaults : s.store.faults = [])
    (hstep : R l (some (.write op { s with store := s.store.written batch })) l')
    (h : Q () l' { s with store := s.store.written batch }) :
    Prog.Follows R (NodeM.writeAtomically op batch) Q E l s := by
  have hrun : NodeM.writeAtomically op batch s =
      (.ok (), { s with store := s.store.written batch },
        [.write op { s with store := s.store.written batch }]) := by
    unfold NodeM.writeAtomically
    rw [RocksKVStore.writeAtomically_eq hfaults]
  unfold Prog.Follows
  rw [hrun]
  exact ⟨l', Prog.Chain.single hstep, h⟩

omit [Protobuf] in
theorem follows_persistState {Q : Unit → L → RaftNode → Prop} (hfaults : s.store.faults = [])
    (hstep : R l (some (.write .persistState s.stateSaved)) l') (h : Q () l' s.stateSaved) :
    Prog.Follows R NodeM.persistState Q E l s :=
  .get (follows_writeAtomically hfaults hstep h)

theorem follows_persistLog {label : Option Proto.AppendEntriesRequest} {Q : Unit → L → RaftNode → Prop}
    (hfaults : s.store.faults = [])
    (hstep : R l (some (.write (.persistLog label) s.logSaved)) l') (h : Q () l' s.logSaved) :
    Prog.Follows R (NodeM.persistLog label) Q E l s :=
  .get (follows_writeAtomically hfaults hstep h)

/-- Frames without variable-length contents always fit. -/
theorem rpcByteSize_small {rpc : Proto.RaftRpc} (h : rpc.payload.contentSize = 0) :
    ¬ kMaxFrameSize < Protobuf.rpcByteSize rpc := by
  have := Protobuf.rpcByteSize_le rpc
  rw [h] at this
  unfold kMaxFrameSize
  omega

/-- Sending a frame that fits: nothing happens without a connection, else one step. -/
theorem follows_sendRpc {connection : Option Conn} {payload : Proto.Payload} {requestId : Nat}
    {Q : Nat → L → RaftNode → Prop}
    (hsize : ∀ id sender, ¬ kMaxFrameSize < Protobuf.rpcByteSize ⟨id, sender, payload⟩)
    (hnone : s.isConnected connection = false → Q 0 l s)
    (hsome : ∀ c id next, connection = some c → c ∈ s.connected → IdFor requestId s.nextRpcId id next →
      ∃ l', R l (some (.send c ⟨id, toUint64 s.serverId, payload⟩ { s with nextRpcId := next })) l' ∧
        Q id l' { s with nextRpcId := next }) :
    Prog.Follows R (NodeM.sendRpc connection payload requestId) Q E l s := by
  refine .get ?_
  cases connection with
  | none => exact .ret (hnone rfl)
  | some c =>
    refine .ite (fun hc => ?_) fun hc => .ret (hnone (by simpa [RaftNode.isConnected] using hc))
    have hmem : c ∈ s.connected := by simpa using hc
    by_cases hid : requestId = 0
    · obtain ⟨l', hstep, hQ⟩ := hsome c s.nextRpcId (s.nextRpcId + 1) rfl hmem (.inr ⟨hid, rfl, rfl⟩)
      refine .bind (.when (fun _ => .modify (.bind ?_)) fun hne => absurd hid hne)
      rw [NodeM.transmit, if_pos hid, if_neg (hsize _ _)]
      exact .emitState hstep (.ret hQ)
    · obtain ⟨l', hstep, hQ⟩ := hsome c requestId s.nextRpcId rfl hmem (.inl ⟨hid, rfl, rfl⟩)
      refine .bind (.when (fun heq => absurd heq hid) fun _ => .bind ?_)
      rw [NodeM.transmit, if_neg hid, if_neg (hsize _ _)]
      exact .emitState hstep (.ret hQ)

/-- What `Submit` does on a leader when there is no record of the request. -/
theorem follows_submitInLoop_new {call : SubmitCall} {Q : Unit → L → RaftNode → Prop} (hrole : s.role = .leader)
    (hstopping : s.stopping = false) (hnew : call.command.requestId = 0 ∨
      RaftStorage.getAppliedCommand s.store call.command.clientId call.command.requestId = none)
    (h : Prog.Follows R (NodeM.appendCommand (Protobuf.command.serialize call.command))
      (fun target => Prog.Follows R (NodeM.waitForCommit ⟨target, call⟩) Q E) E l s) :
    Prog.Follows R (NodeM.submitInLoop call) Q E l s := by
  have happlied : (if call.command.requestId ≠ 0 then
      RaftStorage.getAppliedCommand s.store call.command.clientId call.command.requestId else none) = none := by
    rcases hnew with hzero | hnone
    · rw [if_neg (by simpa using hzero)]
    · rw [hnone, ite_self]
  refine .get (.ite (fun hnot => ?_) fun _ => ?_)
  · rcases hnot with hnot | hnot
    · exact absurd hrole hnot
    · exact absurd (hstopping.symm.trans hnot) (by simp)
  · dsimp only
    rw [happlied]
    exact .bind h

end Basics

/-! ### Applying -/

namespace RaftNode

/-- What `ApplyCommitted` does not change, and what it keeps of the log. -/
structure Kept (s₀ s : RaftNode) : Prop where
  identity : s.toIdentity = s₀.toIdentity
  incoming : s.toIncomingSnapshot = s₀.toIncomingSnapshot
  election : s.toElectionState = s₀.toElectionState
  replication : s.toReplicationState = s₀.toReplicationState
  connection : s.toConnectionState = s₀.toConnectionState
  reads : s.toReadState = s₀.toReadState
  polls : s.commitPolls = s₀.commitPolls
  currentTerm : s.currentTerm = s₀.currentTerm
  commitIndex : s.commitIndex = s₀.commitIndex
  snapshot_le : s₀.snapshotIndex ≤ s.snapshotIndex
  lastIndex : s.lastIndex = s₀.lastIndex
  termAt : ∀ m, s₀.snapshotIndex ≤ m → m < s.snapshotIndex ∨ s.termAt m = s₀.termAt m
  retained : s.log = s₀.log.drop (s.snapshotIndex - s₀.snapshotIndex)

omit [Protobuf] in
theorem Kept.refl (s : RaftNode) : s.Kept s :=
  ⟨rfl, rfl, rfl, rfl, rfl, rfl, rfl, rfl, rfl, le_rfl, rfl, fun _ _ => .inr rfl, by rw [Nat.sub_self, List.drop_zero]⟩

/-- Applying an entry touches the store and the counter only. -/
structure Progressed (s₀ s : RaftNode) : Prop extends Kept s₀ s where
  snapshotIndex : s.snapshotIndex = s₀.snapshotIndex
  log : s.log = s₀.log

omit [Protobuf] in
theorem Kept.timed {s₀ s : RaftNode} (h : s₀.Kept s) (timers : TimerState) :
    s₀.Kept { s with toTimerState := timers } :=
  ⟨h.identity, h.incoming, h.election, h.replication, h.connection, h.reads, h.polls, h.currentTerm,
    h.commitIndex, h.snapshot_le, h.lastIndex, h.termAt, h.retained⟩

omit [Protobuf] in
theorem Progressed.applied {s₀ s : RaftNode} (h : s₀.Progressed s) (store : RocksKVStore) (index : Nat)
    (timers : TimerState) :
    s₀.Progressed { s with store := store, lastApplied := index, toTimerState := timers } :=
  ⟨⟨h.identity, h.incoming, h.election, h.replication, h.connection, h.reads, h.polls, h.currentTerm,
    h.commitIndex, h.snapshot_le, h.lastIndex, h.termAt, h.retained⟩, h.snapshotIndex, h.log⟩

/-- Compacting the log gives up the entries up to the commit index. -/
theorem Progressed.compacted {s₀ s : RaftNode} (h : s₀.Progressed s) (hle : s.snapshotIndex ≤ s.commitIndex)
    (hlast : s.commitIndex ≤ s.lastIndex) : s₀.Kept s.compacted := by
  have hlastIndex : s.compacted.lastIndex = s.lastIndex := lastIndex_compact hle hlast rfl rfl
  have hterm : ∀ m, s₀.snapshotIndex ≤ m → m < s.commitIndex ∨ s.compacted.termAt m = s₀.termAt m := by
    intro m hm
    rcases Nat.lt_or_ge m s.commitIndex with hlt | hge
    · exact .inl hlt
    · rcases h.termAt m hm with hsnap | hterm
      · omega
      · exact .inr ((termAt_compact hle rfl rfl rfl hge).trans hterm)
  have hlog : s.compacted.log = s₀.log.drop (s.commitIndex - s₀.snapshotIndex) := by
    rw [← h.log, ← h.snapshotIndex]
    rfl
  exact ⟨h.identity, h.incoming, h.election, h.replication, h.connection, h.reads, h.polls, h.currentTerm,
    h.commitIndex, h.snapshotIndex.ge.trans hle, hlastIndex.trans h.lastIndex, hterm, hlog⟩

end RaftNode

section Apply

variable {action : LoopAction} {r : Option PendingReadIndex} {q : Option CommitPoll}
  {l : Local} {s : RaftNode}

/-- An exception inside `ApplyCommitted` that no command is the reason of. -/
theorem follows_refuseIndex {x : Exn} {Q : Unit → Local → RaftNode → Prop} {E : Local → RaftNode → Prop}
    (hstuck : l.node.lastApplied < l.node.commitIndex ∧ (∃ x, l.node.entryAt (l.node.lastApplied + 1) = .error x) ∨
      l.node.commitIndex ≤ l.node.lastApplied ∧ l.node.Counted ∧
        l.node.snapshotIndex + kSnapshotThreshold ≤ l.node.commitIndex ∧
        (l.node.termAt l.node.commitIndex = 0 ∨ l.node.lastIndex < l.node.commitIndex))
    (h : E { l with applying := false } s) :
    Prog.Follows (Micro action) (NodeM.refuseIndex x) Q E l s :=
  .bind (.emit (.apply (.abort x hstuck)) (.throw h))

/-- One entry: the write of the applier, and the counter that follows it. -/
theorem follows_applyAtomically {entry : RaftLogEntry} {command : Proto.Command} {index : Nat}
    (h : Stands true [] r q (fun s => s.lastApplied < s.commitIndex ∧ s.lastApplied + 1 = index ∧
      s.entryAt index = .ok entry) l s)
    (hparse : Protobuf.command.parse entry.command = some command) :
    Prog.Follows (Micro action) (NodeM.applyAtomically command entry.command index)
      (fun _ l s' => l = ⟨({ s' with lastApplied := index } : RaftNode).core, true, [], r, q⟩ ∧
        ∃ batch, s' = { s with store := s.store.written batch }) Failed l s := by
  obtain ⟨rfl, hcalm, hlt, rfl, hentry⟩ := h
  refine .get ?_
  cases hbatch : CommandApplier.applyAtomically s.store command (s.lastApplied + 1) s.commitIndex with
  | ok batch =>
    exact follows_writeAtomically hcalm.faults (.apply (.apply entry command batch _ rfl hlt hentry hparse hbatch rfl))
      ⟨rfl, batch, rfl⟩
  | error x =>
    refine .bind (.emit (.apply (.refuse entry hlt hentry fun command' hparse' => ?_)) (.throw ⟨rfl, rfl, rfl, hcalm⟩))
    obtain rfl := Option.some.inj (hparse.symm.trans hparse')
    exact ⟨x, hbatch⟩

theorem follows_applyEntries (s₀ : RaftNode) (remaining : Nat)
    (h : Stands true [] r q (fun s => s₀.Progressed s ∧ s.commitIndex - s.lastApplied = remaining) l s) :
    Prog.Follows (Micro action) (NodeM.applyEntries remaining)
      (fun _ => Stands true [] r q fun s => s₀.Progressed s ∧ s.commitIndex ≤ s.lastApplied) Failed l s := by
  induction remaining generalizing l s with
  | zero =>
    refine .ret (h.imp fun hΦ => ⟨hΦ.1, ?_⟩)
    have := hΦ.2
    omega
  | succ remaining ih =>
    obtain ⟨rfl, hcalm, hprogress, hremaining⟩ := h
    have hlt : s.lastApplied < s.commitIndex := by omega
    refine .get ?_
    cases hentry : s.entryAt (s.lastApplied + 1) with
    | error x => exact follows_refuseIndex (.inl ⟨hlt, x, hentry⟩) ⟨rfl, rfl, rfl, hcalm⟩
    | ok entry =>
      dsimp only
      cases hparse : Protobuf.command.parse entry.command with
      | none =>
        refine .bind (.emit (.apply (.refuse entry hlt hentry fun command hparse' => ?_))
          (.throw ⟨rfl, rfl, rfl, hcalm⟩))
        exact absurd (hparse.symm.trans hparse') (by simp)
      | some command =>
        refine .bind (.emit (.apply (.call entry rfl hlt hentry)) (.bind ((follows_applyAtomically
          ⟨rfl, hcalm, hlt, rfl, hentry⟩ hparse).post ?_)))
        rintro _ l s' ⟨rfl, batch, rfl⟩
        refine .bind (.modify (ih ⟨rfl, hcalm.written batch, hprogress.applied _ _ _, ?_⟩))
        show s.commitIndex - (s.lastApplied + 1) = remaining
        omega

/-- `CreateSnapshotIfNeeded` past its checks. -/
theorem follows_createSnapshot (s₀ : RaftNode) (hsound : s.Sound) (hprogress : s₀.Progressed s)
    (happlied : s.commitIndex ≤ s.lastApplied) (hcounted : s.Counted)
    (hmany : s.snapshotIndex + kSnapshotThreshold ≤ s.commitIndex) :
    Prog.Follows (Micro action) NodeM.createSnapshot
      (fun _ l s' => l = ⟨s'.core, true, [], r, q⟩ ∧ s'.Sound ∧ s₀.Kept s' ∧
        s'.commitIndex ≤ s'.lastApplied ∧ s'.commitIndex ≤ s'.snapshotIndex ∧ s'.Counted)
      (fun l s => l.node = s.core ∧ l.applying = false ∧ l.waiting = [] ∧ s.Sound)
      ⟨s.core, true, [], r, q⟩ s := by
  refine .get (.bind (.when (fun hterm => ?_) fun hterm => .bind (.when (fun hcount => ?_) fun hcount => ?_)))
  · exact follows_refuseIndex (.inr ⟨happlied, hcounted, hmany, .inl hterm⟩) ⟨rfl, rfl, rfl, hsound⟩
  · have hlast : s.lastIndex < s.commitIndex := by unfold RaftNode.lastIndex; omega
    exact follows_refuseIndex (.inr ⟨happlied, hcounted, hmany, .inr hlast⟩) ⟨rfl, rfl, rfl, hsound⟩
  have hlast : s.commitIndex ≤ s.lastIndex := by unfold RaftNode.lastIndex; omega
  have hle : s.snapshotIndex ≤ s.commitIndex := by omega
  exact .bind (follows_writeAtomically hsound.1 (.apply (.compact _ rfl happlied hmany hterm hlast rfl rfl rfl))
    (.modify ⟨rfl, ⟨rfl, hsound.2⟩, hprogress.compacted hle hlast, happlied, Nat.le_refl _, s.compacted_counted⟩))

theorem follows_createSnapshotIfNeeded (s₀ : RaftNode)
    (h : Stands true [] r q (fun s => s₀.Progressed s ∧ s.commitIndex ≤ s.lastApplied ∧ s.Counted) l s) :
    Prog.Follows (Micro action) NodeM.createSnapshotIfNeeded
      (fun _ => Stands true [] r q fun s => s₀.Kept s ∧ s.commitIndex ≤ s.lastApplied ∧
        s.commitIndex < s.snapshotIndex + kSnapshotThreshold ∧ s.Counted) Failed l s := by
  obtain ⟨rfl, ⟨hsound, hidle⟩, hprogress, happlied, hcounted⟩ := h
  refine .get (.ite (fun hfew => ?_) fun hmany => ?_)
  · have hfew : s.commitIndex < s.snapshotIndex + kSnapshotThreshold := by
      rcases hfew with hbusy | hfew
      · exact absurd (hidle.symm.trans hbusy) (by simp)
      · unfold kSnapshotThreshold at *; omega
    exact .ret ⟨rfl, ⟨hsound, hidle⟩, hprogress.toKept, happlied, hfew, hcounted⟩
  · have hmany : s.snapshotIndex + kSnapshotThreshold ≤ s.commitIndex := by omega
    refine .bind (.modify (.bind (.attempt ((follows_createSnapshot s₀
      (s := { s with snapshotInProgress := true }) hsound (hprogress.applied _ _ _) happlied hcounted hmany).weaken
        ?_ ?_))))
    · rintro _ l s ⟨rfl, hsound, hkept, happlied, hle, hcounted⟩
      have hfew : s.commitIndex < s.snapshotIndex + kSnapshotThreshold := by
        unfold kSnapshotThreshold; omega
      exact .modify ⟨rfl, ⟨hsound, rfl⟩, hkept.timed _, happlied, hfew, hcounted⟩
    · rintro l s ⟨hl, hidle, hw, hsound⟩ x
      exact .bind (.modify (.throw ⟨hl, hidle, hw, hsound, rfl⟩))

/-- `ApplyCommitted` from the point where the commit index is set. -/
theorem follows_applyCommitted (hcalm : s.Calm) :
    Prog.Follows (Micro action) NodeM.applyCommitted
      (fun _ => Stands false [] r q fun s' => s.Kept s' ∧ s'.commitIndex ≤ s'.lastApplied) Failed
      ⟨s.core, true, [], r, q⟩ s := by
  have hstart : s.Progressed { s with lastApplied := max s.lastApplied s.snapshotIndex } :=
    RaftNode.Progressed.applied ⟨.refl s, rfl, rfl⟩ _ _ _
  refine .bind (.modify (.step (.apply (.catchUp rfl)) (.get (.bind ((follows_applyEntries s
    (s.commitIndex - max s.lastApplied s.snapshotIndex)
    (s := { s with lastApplied := max s.lastApplied s.snapshotIndex }) ⟨rfl, hcalm, hstart, rfl⟩).post ?_)))))
  rintro _ l s' ⟨rfl, hcalm', hprogress, happlied⟩
  refine .bind (follows_persistState hcalm'.faults (.apply (.persist _ rfl happlied rfl))
    (.bind ((follows_createSnapshotIfNeeded s ⟨rfl, hcalm'.written _, hprogress.applied _ _ _, happlied,
      s'.stateSaved_counted⟩).post ?_)))
  rintro _ l t ⟨rfl, hcalm'', hkept, happlied', hfew, hcounted⟩
  exact .emitState (.apply (.leave _ happlied' hfew hcounted rfl rfl)) ⟨rfl, hcalm'', hkept, happlied'⟩

end Apply

/-! ### Stepping down -/

/-- The node while its reads are being failed, the queue down to `reads`. -/
def RaftNode.failing (s : RaftNode) (reads : List PendingReadIndex) : RaftNode :=
  { s with readIndexTimer := none, activeReadIndex := none, pendingReadIndexes := reads }

omit [Protobuf] in
theorem RaftNode.failing_core {s : RaftNode} (hrole : s.role = .follower) :
    (s.failing []).core = s.steppedDown.core := by
  unfold failing steppedDown core
  rw [hrole]

section StepDown

variable {action : LoopAction} {connection : Conn} {rpc : Proto.RaftRpc} {a : Bool} {w : List Int}
  {q : Option CommitPoll} {l : Local} {s : RaftNode} {E : Local → RaftNode → Prop}

/-- The reads are failed one by one; the step system, standing in `l`, has dropped them already. -/
theorem follows_failPendingReadIndexes (hl : l.answering = none) :
    Prog.Follows (Micro action) NodeM.failPendingReadIndexes (fun _ l' s' => l' = l ∧ s' = s.failing [])
      E l s := by
  have hanswer : ∀ read t, Micro action l (some (.readResult read false t)) l := by
    intro read t
    have hstep : Micro action l (some (.readResult read false t)) { l with answering := none } :=
      .read (.answerFalse read t)
    rwa [← hl] at hstep
  have hloop : Prog.Follows (Micro action)
      (Prog.forEach s.pendingReadIndexes fun read => do
        NodeM.setReadResult read.result false
        Prog.modify fun node => { node with pendingReadIndexes := node.pendingReadIndexes.tail })
      (fun _ l' s' => l' = l ∧ s' = s.failing []) E l (s.failing s.pendingReadIndexes) := by
    refine Prog.Follows.forEach (I := fun reads l' s' => l' = l ∧ s' = s.failing reads) ⟨rfl, rfl⟩ ?_
    rintro read rest l' s' ⟨rfl, rfl⟩
    exact .bind (.emitState (hanswer _ _) (.modify ⟨rfl, rfl⟩))
  refine .bind (.modify (.bind (.get ?_)))
  cases hactive : s.activeReadIndex with
  | none =>
    refine .ret (.get ?_)
    have hs : s.failing s.pendingReadIndexes = { s with readIndexTimer := none } := by
      unfold RaftNode.failing
      rw [← hactive]
    rw [← hs]
    exact hloop
  | some active => exact .bind (.emitState (hanswer _ _) (.modify (.get hloop)))

/-- `StepDown`: one step that changes the role and, in a later term, the term with it. -/
theorem follows_stepDown (hcalm : s.Calm) (term : Nat) :
    Prog.Follows (Micro (.receive connection rpc)) (NodeM.stepDown term)
      (fun _ => Stands a w none q fun s' => s'.core =
        if s.currentTerm < term then s.core.termAdopted term else s.core.steppedDown)
      E ⟨s.core, a, w, none, q⟩ s := by
  have hrest : ∀ t : RaftNode, t.Calm → Prog.Follows (Micro (.receive connection rpc))
      (do
        Prog.modify fun node =>
          { node with
            heartbeatTimer := if node.role = .leader then false else node.heartbeatTimer
            role := .follower
            leader := false }
        NodeM.failPendingReadIndexes
        NodeM.resetElectionTimer)
      (fun _ => Stands a w none q fun s' => s'.core = t.core.steppedDown) E
      ⟨t.core.steppedDown, a, w, none, q⟩ t := by
    intro t ht
    refine .bind (.modify (.bind ((follows_failPendingReadIndexes rfl).post ?_)))
    rintro _ l s' ⟨rfl, rfl⟩
    exact .modify ⟨rfl, ht, rfl⟩
  refine .get (.bind (.when (fun hlt => ?_) fun hle => ?_))
  · refine .bind (.modify (follows_persistState hcalm.faults (.role (.adoptTerm connection rpc term _ rfl rfl hlt rfl)) ?_))
    refine (hrest ({ s with currentTerm := term, votedFor := -1 } : RaftNode).stateSaved
      ⟨⟨rfl, hcalm.1.2⟩, hcalm.2⟩).post ?_
    rintro _ l s' ⟨rfl, hcalm', hs'⟩
    exact ⟨rfl, hcalm', hs'.trans (if_pos hlt).symm⟩
  · refine .step (.role (.demote connection rpc rfl rfl)) ((hrest s hcalm).post ?_)
    rintro _ l s' ⟨rfl, hcalm', hs'⟩
    exact ⟨rfl, hcalm', hs'.trans (if_neg hle).symm⟩

/-- A request of the current term or a later one makes its receiver a follower in that term. -/
theorem follows_followLeader (hcalm : s.Calm) {term : Nat} (hterm : s.currentTerm ≤ term) :
    Prog.Follows (Micro (.receive connection rpc)) (NodeM.followLeader term)
      (fun _ => Stands a w none q fun s' => s'.role = .follower ∧ s'.currentTerm = term)
      E ⟨s.core, a, w, none, q⟩ s := by
  refine .get (.bind (.when (fun hnew => ?_) fun hold => ?_))
  · refine (follows_stepDown hcalm term).post ?_
    rintro _ l s' ⟨rfl, hcalm', hs'⟩
    refine .modify ⟨rfl, hcalm', ?_, ?_⟩
    · have hrole := congrArg (fun t => t.role) hs'
      split at hrole <;> exact hrole
    · have hcurrent := congrArg (fun t => t.currentTerm) hs'
      split at hcurrent
      · exact hcurrent
      · exact Eq.trans hcurrent (by change s.currentTerm = term; omega)
  · rw [not_or, not_not] at hold
    exact .modify ⟨rfl, hcalm, hold.2, by change s.currentTerm = term; omega⟩

end StepDown

end Nukv
