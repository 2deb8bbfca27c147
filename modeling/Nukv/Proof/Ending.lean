import Nukv.Proof.Trace

/-!
# How a function ends when the store may fail

The step system follows functions whose writes succeed. Here any write may throw, and the functions that apply,
compact and step down are described by what they leave of the node, whichever way they end, and by the frames they
send, which are none.
-/

namespace Nukv

open Base

/-- The payloads of the frames among some events. -/
def sentPayloads (events : List Event) : List Proto.Payload :=
  events.filterMap fun
    | .send _ rpc _ => some rpc.payload
    | _ => none

theorem sentPayloads_append (events events' : List Event) :
    sentPayloads (events ++ events') = sentPayloads events ++ sentPayloads events' :=
  List.filterMap_append

theorem sentPayloads_concat {events : List Event} {event : Event} (h : sentPayloads [event] = []) :
    sentPayloads (events ++ [event]) = sentPayloads events := by
  rw [sentPayloads_append, h, List.append_nil]

/-- The store with other outcomes ahead of it. -/
def RocksKVStore.facing (store : RocksKVStore) (faults : List Bool) : RocksKVStore := { store with faults := faults }

def RaftNode.facing (node : RaftNode) (faults : List Bool) : RaftNode := { node with store := node.store.facing faults }

theorem RocksKVStore.facing_faults {store : RocksKVStore} {faults : List Bool} (h : store.faults = faults) :
    store.facing faults = store := by
  subst h
  rfl

theorem RaftNode.facing_faults {node : RaftNode} {faults : List Bool} (h : node.store.faults = faults) :
    node.facing faults = node := by
  subst h
  rfl

variable [Protobuf] {es : List Event} {s : RaftNode}

omit [Protobuf] in
/-- A write succeeds or throws, and a write that throws leaves the contents of the store. -/
theorem ends_writeAtomically {op : StorageOp} {batch : WriteBatch} {Q : Unit → List Event → RaftNode → Prop}
    {E : List Event → RaftNode → Prop}
    (hok : ∀ faults, faults = s.store.faults.tail → (s.store.faults = [] → faults = []) →
      Q () (es ++ [.write op { s with store := (s.store.written batch).facing faults }])
        { s with store := (s.store.written batch).facing faults })
    (herror : ∀ faults, s.store.faults = true :: faults → E es (s.facing faults)) :
    Prog.Ends (NodeM.writeAtomically op batch) Q E es s := by
  unfold Prog.Ends Prog.Follows NodeM.writeAtomically RocksKVStore.writeAtomically
  cases hfaults : s.store.faults with
  | nil => exact ⟨_, .single rfl, hok [] (by rw [hfaults, List.tail_nil]) fun _ => rfl⟩
  | cons fails faults =>
    cases fails with
    | true => exact ⟨es, .nil es, herror faults hfaults⟩
    | false =>
      refine ⟨_, .single rfl, hok faults ?_ fun hnil => absurd (hfaults.symm.trans hnil) (by simp)⟩
      rw [hfaults, List.tail_cons]

/-! ### Following a leader -/

/-- What following a leader leaves of a node: only its role, its term and its vote, its timers and its reads
change. -/
structure RaftNode.Yields (s s' : RaftNode) : Prop where
  identity : s'.toIdentity = s.toIdentity
  incoming : s'.toIncomingSnapshot = s.toIncomingSnapshot
  replication : s'.toReplicationState = s.toReplicationState
  connection : s'.toConnectionState = s.toConnectionState
  log : s'.log = s.log
  snapshotIndex : s'.snapshotIndex = s.snapshotIndex
  snapshotTerm : s'.snapshotTerm = s.snapshotTerm
  snapshotData : s'.snapshotData = s.snapshotData
  commitIndex : s'.commitIndex = s.commitIndex
  lastApplied : s'.lastApplied = s.lastApplied
  snapshotInProgress : s'.snapshotInProgress = s.snapshotInProgress
  faults : s'.store.faults = if s.currentTerm < s'.currentTerm then s.store.faults.tail else s.store.faults
  stored : ∀ key ∉ fixedKeys, s'.store.get key = s.store.get key

omit [Protobuf] in
theorem RaftNode.Yields.refl (s : RaftNode) : s.Yields s :=
  ⟨rfl, rfl, rfl, rfl, rfl, rfl, rfl, rfl, rfl, rfl, rfl, (if_neg (lt_irrefl _)).symm, fun _ _ => rfl⟩

omit [Protobuf] in
theorem RaftNode.Yields.faults_nil {s s' : RaftNode} (h : s.Yields s') (hnil : s.store.faults = []) :
    s'.store.faults = [] := by
  rw [h.faults, hnil, List.tail_nil, ite_self]

omit [Protobuf] in
theorem RaftNode.Yields.set {s s' : RaftNode} (h : s.Yields s') (reads : ReadState) (election : ElectionState)
    (timers : TimerState) (htimers : timers.snapshotInProgress = s'.snapshotInProgress) :
    s.Yields { s' with toReadState := reads, toElectionState := election, toTimerState := timers } :=
  ⟨h.identity, h.incoming, h.replication, h.connection, h.log, h.snapshotIndex, h.snapshotTerm, h.snapshotData,
    h.commitIndex, h.lastApplied, htimers.trans h.snapshotInProgress, h.faults, h.stored⟩

omit [Protobuf] in
theorem returns_failPendingReadIndexes : Prog.Returns NodeM.failPendingReadIndexes
    (fun _ es' s' => s' = s.failing [] ∧ sentPayloads es' = sentPayloads es) es s := by
  have hloop : ∀ es', sentPayloads es' = sentPayloads es → Prog.Returns
      (Prog.forEach s.pendingReadIndexes fun read => do
        NodeM.setReadResult read.result false
        Prog.modify fun node => { node with pendingReadIndexes := node.pendingReadIndexes.tail })
      (fun _ es' s' => s' = s.failing [] ∧ sentPayloads es' = sentPayloads es) es'
      (s.failing s.pendingReadIndexes) := by
    intro es' hes
    refine Prog.Follows.forEach
      (I := fun reads es' s' => s' = s.failing reads ∧ sentPayloads es' = sentPayloads es) ⟨rfl, hes⟩ ?_
    rintro read rest es' s' ⟨rfl, hes⟩
    exact .bind (.emitState rfl (.modify ⟨rfl, (sentPayloads_concat rfl).trans hes⟩))
  refine .bind (.modify (.bind (.get ?_)))
  cases hactive : s.activeReadIndex with
  | none =>
    have hs : s.failing s.pendingReadIndexes = { s with readIndexTimer := none } := by
      unfold RaftNode.failing
      rw [← hactive]
    refine .ret (.get ?_)
    rw [← hs]
    exact hloop es rfl
  | some active => exact .bind (.emitState rfl (.modify (.get (hloop _ (sentPayloads_concat rfl)))))

omit [Protobuf] in
theorem ends_stepDown {term : Nat} : Prog.Ends (NodeM.stepDown term)
    (fun _ es' s' => s.Yields s' ∧ s'.currentTerm = max s.currentTerm term ∧ s'.role = .follower ∧
      sentPayloads es' = sentPayloads es)
    (fun es' s' => s.Yields s' ∧ s.store.faults ≠ [] ∧ sentPayloads es' = sentPayloads es) es s := by
  have hrest : ∀ (t : RaftNode) es', s.Yields t → t.currentTerm = max s.currentTerm term →
      sentPayloads es' = sentPayloads es → Prog.Ends
      (do
        Prog.modify fun node =>
          { node with
            heartbeatTimer := if node.role = .leader then false else node.heartbeatTimer
            role := .follower
            leader := false }
        NodeM.failPendingReadIndexes
        NodeM.resetElectionTimer)
      (fun _ es' s' => s.Yields s' ∧ s'.currentTerm = max s.currentTerm term ∧ s'.role = .follower ∧
        sentPayloads es' = sentPayloads es)
      (fun es' s' => s.Yields s' ∧ s.store.faults ≠ [] ∧ sentPayloads es' = sentPayloads es) es' t := by
    intro t es' ht hterm hes
    refine .bind (.modify (.bind (returns_failPendingReadIndexes.weaken ?_ fun _ _ => False.elim)))
    rintro _ es'' s' ⟨rfl, hsent⟩
    exact .modify ⟨ht.set _ _ _ rfl, hterm, rfl, hsent.trans hes⟩
  refine .get (.bind (.when (fun hlt => ?_) fun hle => ?_))
  · refine .bind (.modify (.get (ends_writeAtomically (fun faults htail _ => hrest _ _ ⟨rfl, rfl, rfl, rfl, rfl, rfl,
      rfl, rfl, rfl, rfl, rfl, htail.trans (if_pos hlt).symm, fun key hkey => ?_⟩ (Nat.max_eq_right hlt.le).symm
      (sentPayloads_concat rfl)) fun faults hfaults => ⟨⟨rfl, rfl, rfl, rfl, rfl, rfl, rfl, rfl, rfl, rfl, rfl, ?_,
        fun _ _ => rfl⟩, ?_, rfl⟩)))
    · change (s.store.written _).get key = s.store.get key
      rw [RocksKVStore.get_written, RaftStorage.persistState, RaftStorage.lastPut_stateEntries_of_not_mem hkey,
        Option.none_or, if_neg List.not_mem_nil]
    · refine Eq.trans ?_ (if_pos hlt).symm
      exact (congrArg List.tail hfaults).symm
    · exact fun hnil => absurd (hfaults.symm.trans hnil) (by simp)
  · exact hrest s es (.refl s) (Nat.max_eq_left (not_lt.mp hle)).symm rfl

omit [Protobuf] in
theorem ends_followLeader {term : Nat} (hterm : s.currentTerm ≤ term) : Prog.Ends (NodeM.followLeader term)
    (fun _ es' s' => s.Yields s' ∧ s'.currentTerm = term ∧ s'.role = .follower ∧ sentPayloads es' = sentPayloads es)
    (fun es' s' => s.Yields s' ∧ s.store.faults ≠ [] ∧ sentPayloads es' = sentPayloads es) es s := by
  refine .get (.bind (.when (fun _ => ?_) fun hold => ?_))
  · refine ends_stepDown.post ?_
    rintro _ es' s' ⟨hyields, hcurrent, hrole, hsent⟩
    exact .modify ⟨hyields.set _ _ _ rfl, hcurrent.trans (Nat.max_eq_right hterm), hrole, hsent⟩
  · rw [not_or, not_not] at hold
    exact .modify ⟨(RaftNode.Yields.refl s).set _ _ _ rfl, by change s.currentTerm = term; omega, hold.2, rfl⟩

/-! ### Applying and compacting -/

/-- There is nothing to compact, or it is being compacted. -/
def RaftNode.Compact (s : RaftNode) : Prop :=
  s.snapshotInProgress = true ∨ s.commitIndex ≤ s.snapshotIndex ∨ s.commitIndex - s.snapshotIndex < kSnapshotThreshold

theorem ends_applyEntries (remaining : Nat) : Prog.Ends (NodeM.applyEntries remaining)
    (fun _ es' s' => sentPayloads es' = sentPayloads es ∧ ∃ store, (s.store.faults = [] → store.faults = []) ∧
      s' = { s with store := store, lastApplied := s.lastApplied + remaining })
    (fun es' s' => sentPayloads es' = sentPayloads es ∧ ∃ store applied,
      s' = { s with store := store, lastApplied := applied }) es s := by
  induction remaining generalizing s es with
  | zero => exact .ret ⟨rfl, s.store, id, rfl⟩
  | succ remaining ih =>
    refine .get ?_
    rcases s.entryAt (s.lastApplied + 1) with x | entry
    · exact .bind (.emit rfl (.throw ⟨sentPayloads_concat rfl, s.store, s.lastApplied, rfl⟩))
    dsimp only
    cases Protobuf.command.parse entry.command with
    | none => exact .bind (.emit rfl (.throw ⟨sentPayloads_concat rfl, s.store, s.lastApplied, rfl⟩))
    | some command =>
      refine .bind (.emit rfl (.bind (.get ?_)))
      cases CommandApplier.applyAtomically s.store command (s.lastApplied + 1) s.commitIndex with
      | error x =>
        exact .bind (.emit rfl (.throw ⟨(sentPayloads_concat rfl).trans (sentPayloads_concat rfl), s.store,
          s.lastApplied, rfl⟩))
      | ok batch =>
        have hsent : sentPayloads (es ++ [.callApply (s.lastApplied + 1) entry.command]) = sentPayloads es :=
          sentPayloads_concat rfl
        refine ends_writeAtomically (fun faults _ hfaults => .bind (.modify (ih.weaken ?_ ?_)))
          fun faults _ => ⟨hsent, _, s.lastApplied, rfl⟩
        · rintro _ es' s' ⟨hes, store, hstore, rfl⟩
          refine ⟨hes.trans ((sentPayloads_concat rfl).trans hsent), store, fun hnil => hstore (hfaults hnil), ?_⟩
          rw [show s.lastApplied + (remaining + 1) = s.lastApplied + 1 + remaining by omega]
        · rintro es' s' ⟨hes, store, applied, rfl⟩
          exact ⟨hes.trans ((sentPayloads_concat rfl).trans hsent), store, applied, rfl⟩

/-- Compaction happens as a whole or not at all. -/
theorem ends_createSnapshotIfNeeded : Prog.Ends NodeM.createSnapshotIfNeeded
    (fun _ es' s' => sentPayloads es' = sentPayloads es ∧ (s.Compact ∧ s' = s ∨
      ¬ s.Compact ∧ s.commitIndex ≤ s.lastIndex ∧ s.termAt s.commitIndex ≠ 0 ∧
        ∃ faults, (s.store.faults = [] → faults = []) ∧ s' = s.compacted.facing faults))
    (fun es' s' => sentPayloads es' = sentPayloads es ∧ ¬ s.Compact ∧
      (s.store.faults = [] → s.lastIndex < s.commitIndex ∨ s.termAt s.commitIndex = 0) ∧
      ∃ faults, s' = s.facing faults) es s := by
  refine .get (.ite (fun hfew => .ret ⟨rfl, .inl ⟨hfew, rfl⟩⟩) fun hmany => ?_)
  have hidle : s.snapshotInProgress = false := by
    rw [← Bool.not_eq_true]
    exact fun hbusy => hmany (.inl hbusy)
  have hreset : ∀ t : RaftNode, t.snapshotInProgress = false → { t with snapshotInProgress := false } = t := by
    intro t ht
    rw [← ht]
  have hlast : s.log.length < s.commitIndex - s.snapshotIndex ↔ s.lastIndex < s.commitIndex := by
    unfold RaftNode.lastIndex
    omega
  refine .bind (.modify (.bind (.attempt (.get (.bind (.when (fun hzero => .bind (.emit rfl (.throw fun x => ?_)))
    fun hterm => .bind (.when (fun hshort => .bind (.emit rfl (.throw fun x => ?_))) fun hlong => .bind (ends_writeAtomically (fun faults _ hfaults =>
      .modify (.modify ?_)) fun faults hfaults x => ?_))))))))
  · exact .bind (.modify (.throw ⟨sentPayloads_concat rfl, hmany, fun _ => .inr hzero, s.store.faults, hreset s hidle⟩))
  · exact .bind (.modify (.throw ⟨sentPayloads_concat rfl, hmany, fun _ => .inl (hlast.mp hshort), s.store.faults, hreset s hidle⟩))
  · exact ⟨sentPayloads_concat rfl, .inr ⟨hmany, not_lt.mp fun hlt => hlong (hlast.mpr hlt), hterm, faults, hfaults,
      hreset (s.compacted.facing faults) hidle⟩⟩
  · refine .bind (.modify (.throw ⟨rfl, hmany, fun hnil => ?_, faults, hreset (s.facing faults) hidle⟩))
    exact absurd (hfaults.symm.trans hnil) (by simp)

omit [Protobuf] in
theorem RaftNode.Kept.facing {s₀ s : RaftNode} (h : s₀.Kept s) (faults : List Bool) : s₀.Kept (s.facing faults) :=
  ⟨h.identity, h.incoming, h.election, h.replication, h.connection, h.reads, h.polls, h.currentTerm, h.commitIndex,
    h.snapshot_le, h.lastIndex, h.termAt, h.retained⟩

/-- What a completed `ApplyCommitted` leaves. -/
structure RaftNode.CaughtUp (s s' : RaftNode) : Prop extends s.Kept s' where
  lastApplied : s'.lastApplied = max (max s.lastApplied s.snapshotIndex) s.commitIndex
  compacted : s'.snapshotIndex = s.snapshotIndex ∧ s.Compact ∨ s'.snapshotIndex = s.commitIndex ∧ ¬ s.Compact
  timers : s'.toTimerState = s.toTimerState
  faults : s.store.faults = [] → s'.store.faults = []

/-- From the end of the loop over the committed entries to the end of `ApplyCommitted`. -/
theorem RaftNode.CaughtUp.of_applied {mid s' : RaftNode} (hprogress : s.Progressed mid)
    (happlied : mid.lastApplied = max (max s.lastApplied s.snapshotIndex) s.commitIndex)
    (htimers : mid.toTimerState = s.toTimerState) (hfaults : s.store.faults = [] → mid.store.faults = [])
    (hend : mid.Compact ∧ s' = mid ∨ ¬ mid.Compact ∧ mid.commitIndex ≤ mid.lastIndex ∧ mid.termAt mid.commitIndex ≠ 0 ∧
      ∃ faults, (mid.store.faults = [] → faults = []) ∧ s' = mid.compacted.facing faults) : s.CaughtUp s' := by
  have hsame : mid.Compact ↔ s.Compact := by
    unfold Compact
    rw [htimers, hprogress.commitIndex, hprogress.snapshotIndex]
  rcases hend with ⟨hfew, rfl⟩ | ⟨hmany, hlast, -, faults, hfaults', rfl⟩
  · exact ⟨hprogress.toKept, happlied, .inl ⟨hprogress.snapshotIndex, hsame.mp hfew⟩, htimers, hfaults⟩
  · have hlow : mid.snapshotIndex ≤ mid.commitIndex := (not_le.mp fun hle => hmany (.inr (.inl hle))).le
    exact ⟨(hprogress.compacted hlow hlast).facing faults, happlied,
      .inr ⟨hprogress.commitIndex, fun hfew => hmany (hsame.mpr hfew)⟩, htimers, fun hnil => hfaults' (hfaults hnil)⟩

theorem ends_applyCommitted : Prog.Ends NodeM.applyCommitted
    (fun _ es' s' => sentPayloads es' = sentPayloads es ∧ s.CaughtUp s')
    (fun es' _ => sentPayloads es' = sentPayloads es) es s := by
  refine .bind (.modify (.get (.bind ((ends_applyEntries _).weaken ?_ fun _ _ h => h.1))))
  rintro _ es₁ s₁ ⟨hes, store, hstore, rfl⟩
  have hmax : max s.lastApplied s.snapshotIndex + (s.commitIndex - max s.lastApplied s.snapshotIndex) =
      max (max s.lastApplied s.snapshotIndex) s.commitIndex := by omega
  refine .bind (.get (ends_writeAtomically (fun faults _ hfaults => ?_) fun faults _ => hes))
  refine .bind (ends_createSnapshotIfNeeded.weaken ?_ ?_)
  · rintro _ es₂ s₂ ⟨hsent, hend⟩
    exact .emitState rfl ⟨(sentPayloads_concat rfl).trans (hsent.trans ((sentPayloads_concat rfl).trans hes)), .of_applied
      (RaftNode.Progressed.applied ⟨.refl s, rfl, rfl⟩ _ _ _) hmax rfl (fun hnil => hfaults (hstore hnil)) hend⟩
  · rintro es₂ s₂ ⟨hsent, -⟩
    exact hsent.trans ((sentPayloads_concat rfl).trans hes)

/-! ### AppendEntries -/

/-- A frame without variable-length contents: it is sent or there is no connection, and the node stays as it is but for
the counter of RPCs. -/
theorem ends_sendRpc {connection : Option Conn} {payload : Proto.Payload} {requestId : Nat}
    {E : List Event → RaftNode → Prop} (hsize : payload.contentSize = 0) :
    Prog.Ends (NodeM.sendRpc connection payload requestId)
      (fun _ es' s' => (∃ next, s' = { s with nextRpcId := next }) ∧
        (s.isConnected connection = false ∧ sentPayloads es' = sentPayloads es ∨
          s.isConnected connection = true ∧ sentPayloads es' = sentPayloads es ++ [payload])) E es s := by
  refine follows_sendRpc (fun _ _ => rpcByteSize_small hsize) (fun hnone => ⟨⟨s.nextRpcId, rfl⟩, .inl ⟨hnone, rfl⟩⟩) ?_
  rintro c id next rfl hmem -
  exact ⟨_, rfl, ⟨next, rfl⟩, .inr ⟨by simpa [RaftNode.isConnected] using hmem, sentPayloads_append _ _⟩⟩

/-- Consecutive entries are all taken, and applied as far as they are committed, or the node is left alone. -/
theorem ends_acceptEntries {request : Proto.AppendEntriesRequest}
    (hconsecutive : Consecutive request.prevLogIndex request.entries) :
    Prog.Ends (NodeM.acceptEntries request)
      (fun accepted es' s' => sentPayloads es' = sentPayloads es ∧
        (accepted = none ∧ s' = s ∨ ∃ log faults,
          accepted = some (request.prevLogIndex + request.entries.length) ∧ NodeM.prevMatches s request = true ∧
          NodeM.MergeResult s request.prevLogIndex request.entries
            ⟨true, request.prevLogIndex + request.entries.length, log⟩ ∧
          (s.store.faults = [] → faults = []) ∧
          ((s.merged log request.leaderCommit).facing faults).CaughtUp s'))
      (fun es' _ => sentPayloads es' = sentPayloads es) es s := by
  refine .get (.ite (fun hmatches => ?_) fun _ => .ret ⟨rfl, .inl ⟨rfl, rfl⟩⟩)
  have hprev := NodeM.prevMatches_iff.mp hmatches
  have hresult := NodeM.mergeEntries_result hconsecutive hprev.1 hprev.2.1
  generalize NodeM.mergeEntries s request.prevLogIndex request.entries = merge at hresult ⊢
  have hindex : merge.success = true → merge = ⟨true, request.prevLogIndex + request.entries.length, merge.log⟩ := by
    intro hsuccess
    cases hresult with
    | present => rfl
    | replaced => rfl
    | refused => exact absurd hsuccess (by simp)
  have hrefused : merge.success = false → merge.log = s.log := by
    intro hfailed
    cases hresult with
    | present => rfl
    | replaced => exact absurd hfailed (by simp)
    | refused => rfl
  refine .bind (.modify (.ite (fun hsuccess => ?_) fun hfailed => .ret ⟨rfl, .inl ⟨rfl, ?_⟩⟩))
  · rw [hindex hsuccess] at hresult
    refine .bind (.get (ends_writeAtomically (fun faults _ hfaults =>
      .bind (.modify (.bind (ends_applyCommitted.weaken ?_ ?_)))) fun _ _ => rfl))
    · rintro _ es' s' ⟨hsent, hcaught⟩
      refine .ret ⟨hsent.trans (sentPayloads_concat rfl), .inr ⟨merge.log, faults, ?_, hmatches, hresult, hfaults, hcaught⟩⟩
      rw [hindex hsuccess]
    · exact fun es' s' hsent => hsent.trans (sentPayloads_concat rfl)
  · rw [hrefused (by simpa using hfailed)]

end Nukv
