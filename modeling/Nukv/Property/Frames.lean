import Mathlib.Algebra.Group.Action.Defs
import Nukv.Model.Client
import Nukv.Model.Standard
import Nukv.Proof.Lineage
import Nukv.Property.Consensus

/-!
# Replication frames

`SendAppend` puts up to sixty-four entries into one frame, whatever their size, and sets `rpc_inflight_` before `Frame`
looks at the size. A frame fits when each command is short enough for sixty-four of its size: every entry of a log was
appended by `Submit`, so this is a condition on the commands that were submitted. The largest request that the client
server lets through is not that short: its command alone, wrapped into an entry, an AppendEntries request and an RPC, is
longer than a frame may be, and the peer it should have been sent to counts as busy from then on without a timeout.
-/

namespace Nukv

open Base Base.Proto3

/-- Sixty-four entries of this size fit into a frame. -/
def RaftLogEntry.Short (entry : RaftLogEntry) : Prop :=
  kMaxEntriesPerRpc * (entry.command.length + 40) + 128 ≤ kMaxFrameSize

instance (entry : RaftLogEntry) : Decidable entry.Short := inferInstanceAs (Decidable (_ ≤ _))

section Runs

variable [Protobuf] {config : Config} {timely : Prop} {A : Shadow} {w : World} {n : Int} {l : Local}

theorem rpcByteSize_appendRequest {node : RaftNode} (hshort : ∀ entry ∈ node.log, entry.Short) (peer : Int)
    (requestId senderId : Nat) :
    Protobuf.rpcByteSize ⟨requestId, senderId, .appendEntries (NodeM.appendRequest node peer)⟩ ≤ kMaxFrameSize := by
  refine (Protobuf.rpcByteSize_le _).trans ?_
  change 128 + ((NodeM.appendRequest node peer).entries.map fun entry => entry.command.length + 40).sum ≤ kMaxFrameSize
  have hlength : ((NodeM.appendRequest node peer).entries.map fun entry => entry.command.length + 40).length ≤
      kMaxEntriesPerRpc := by
    simp only [NodeM.appendRequest, List.length_map, List.length_mapIdx, List.length_take]
    exact Nat.min_le_left _ _
  have heach : ∀ size ∈ (NodeM.appendRequest node peer).entries.map fun entry => entry.command.length + 40,
      size ≤ (kMaxFrameSize - 128) / kMaxEntriesPerRpc := by
    intro size hsize
    obtain ⟨entry, hentry, rfl⟩ := List.mem_map.mp hsize
    obtain ⟨i, hi, rfl⟩ := List.mem_mapIdx.mp hentry
    have hfits := hshort _ (List.mem_of_mem_drop (List.mem_of_mem_take (List.getElem_mem hi)))
    unfold RaftLogEntry.Short kMaxEntriesPerRpc kMaxFrameSize at hfits
    unfold kMaxEntriesPerRpc kMaxFrameSize
    dsimp only
    omega
  have hsum := List.sum_le_card_nsmul _ _ heach
  rw [smul_eq_mul] at hsum
  have htotal := hsum.trans (Nat.mul_le_mul_right _ hlength)
  unfold kMaxEntriesPerRpc kMaxFrameSize at htotal
  unfold kMaxFrameSize
  omega

/-- Every entry of a log was once the last one of a leader that had just appended it. -/
theorem Tracked.source_appended (h : Tracked config timely w A) {L : List RaftLogEntry}
    (hL : Raft.Sourced config.setting A L) {k : Nat} {entry : RaftLogEntry} (hentry : L[k]? = some entry) :
    ∃ m s, (m, .write (.persistLog none) s) ∈ w.history ∧ s.log.getLast? = some entry := by
  have htake : L.take (k + 1) = (A.tlog entry.term).take (k + 1) := (hL k _ hentry).2
  have hown : (A.tlog entry.term)[k]? = some entry := by
    rw [← Raft.getElem?_eq_of_take_eq (Nat.lt_succ_self k) htake, hentry]
  obtain ⟨m, s, hevent, hterm, hlast⟩ := h.appended _ k _ hown rfl
  obtain ⟨hle, hshows, -⟩ := h.append_event hevent hlast
  refine ⟨m, s, hevent, ?_⟩
  rw [hterm] at hshows
  have hlength : s.log.length = k + 1 - s.snapshotIndex := by
    unfold RaftNode.lastIndex at hlast
    omega
  rw [List.getLast?_eq_getElem?, hshows.getElem?, hlength,
    show s.snapshotIndex + (k + 1 - s.snapshotIndex - 1) = k by omega, List.getElem?_take_of_lt (Nat.lt_succ_self k)]
  exact hown

theorem Tracked.entry_appended (h : Tracked config timely w A) {k : Nat} {entry : RaftLogEntry}
    (hentry : (A.log n)[k]? = some entry) :
    ∃ m s, (m, .write (.persistLog none) s) ∈ w.history ∧ s.log.getLast? = some entry :=
  h.source_appended (h.inv.sourced_log n) hentry

theorem Tracked.short (h : Tracked config timely w A)
    (hshort : ∀ m s entry, (m, .write (.persistLog none) s) ∈ w.history → s.log.getLast? = some entry → entry.Short)
    (hview : w.views n = .active l) : ∀ entry ∈ l.node.log, entry.Short := by
  intro entry hentry
  have hlog : l.node.log = (A.log n).drop l.node.snapshotIndex := (h.related.active n l hview).memory.depicts.log
  rw [hlog] at hentry
  obtain ⟨k, hk⟩ := List.mem_iff_getElem?.mp (List.mem_of_mem_drop hentry)
  obtain ⟨m, s, hevent, hlast⟩ := h.entry_appended hk
  exact hshort m s entry hevent hlast

/-- Only a request with entries of the log is ever too large. -/
theorem Micro.refuseFrame {action : LoopAction} {l' : Local} {connection : Conn} {rpc : Proto.RaftRpc} {s : RaftNode}
    (h : Micro action l (some (.refuseFrame connection rpc s)) l') :
    ∃ peer, rpc.payload = .appendEntries (NodeM.appendRequest l.node peer) ∧
      kMaxFrameSize < Protobuf.rpcByteSize rpc := by
  rcases h with h | h | h | h | h | h | h | h | h
  case peer =>
    cases h with
    | oversize peer _ _ _ _ _ _ _ hpayload _ hlarge => exact ⟨peer, hpayload, hlarge⟩
  all_goals cases h

theorem Tracked.unrefused (h : Tracked config timely w A) :
    (∀ m s entry, (m, .write (.persistLog none) s) ∈ w.history → s.log.getLast? = some entry → entry.Short) →
      ∀ n connection rpc s, (n, .refuseFrame connection rpc s) ∉ w.history := by
  refine h.invariant (I := fun w _ => (∀ m s entry, (m, .write (.persistLog none) s) ∈ w.history →
    s.log.getLast? = some entry → entry.Short) → ∀ n connection rpc s, (n, .refuseFrame connection rpc s) ∉ w.history)
    ?_ ?_
  · exact fun _ _ _ _ _ => List.not_mem_nil
  · intro w w' A A' m event htracked _ hstep _ _ ih hshort n connection rpc s hmem
    have hbefore : ∀ m s entry, (m, .write (.persistLog none) s) ∈ w.history → s.log.getLast? = some entry →
        entry.Short := fun m s entry hevent =>
      hshort m s entry (by rw [hstep.history]; exact List.mem_append_left _ hevent)
    rcases hstep.history_cases hmem with hold | ⟨rfl, rfl⟩
    · exact ih hbefore n connection rpc s hold
    · rcases hstep.event with ⟨_, _, -, -, hload, -⟩ | ⟨action, l, l', hview, -, -, hmicro⟩
      · cases hload
      · obtain ⟨peer, hpayload, hlarge⟩ := hmicro.refuseFrame
        obtain ⟨requestId, senderId, payload⟩ := rpc
        dsimp only at hpayload
        rw [hpayload] at hlarge
        exact absurd (rpcByteSize_appendRequest (htracked.short hbefore hview) peer requestId senderId)
          (not_le.mpr hlarge)

end Runs

namespace Cluster

/-- While every command that `Submit` has appended is short, every request that `SendAppend` can build fits into a frame,
and `Frame` has never thrown. -/
theorem frames_fit [Protobuf] {config : Config} {cluster : Cluster} (h : Reachable config cluster)
    (hshort : ∀ m s entry, (m, .write (.persistLog none) s) ∈ cluster.history → s.log.getLast? = some entry →
      entry.Short) :
    (∀ n node peer requestId senderId, cluster.nodes n = .running node →
      Protobuf.rpcByteSize ⟨requestId, senderId, .appendEntries (NodeM.appendRequest node peer)⟩ ≤ kMaxFrameSize) ∧
    ∀ n connection rpc s, (n, .refuseFrame connection rpc s) ∉ cluster.history := by
  obtain ⟨A, hA⟩ := h.reach.tracked
  refine ⟨fun n node peer requestId senderId hnode => ?_, hA.unrefused hshort⟩
  have hview : cluster.world.views n = .active (.rest node) := congrArg Status.view hnode
  exact rpcByteSize_appendRequest (hA.short hshort hview) peer requestId senderId

/-- Whether all entries that leaders append are short. -/
def appendsShort (history : List (Int × Event)) : Bool :=
  history.all fun
    | (_, .write (.persistLog none) s) => s.log.getLast?.all fun entry => decide entry.Short
    | _ => true

/-- Node 1 has a short command in its log. -/
theorem frames_fit_handover : ∃ cluster node, @Reachable Wire.protobuf trio cluster ∧
    (∀ m s entry, (m, .write (.persistLog none) s) ∈ cluster.history → s.log.getLast? = some entry → entry.Short) ∧
    cluster.nodes 1 = .running node ∧ (NodeM.appendRequest node 3).entries.length = 1 ∧
    Wire.protobuf.rpcByteSize ⟨7, 1, .appendEntries (NodeM.appendRequest node 3)⟩ ≤ kMaxFrameSize := by
  obtain ⟨cluster, hrun, htest⟩ := @run_of_play Wire.protobuf trio (fun _ _ => True) _ (handover.take 10)
    (fun cluster => appendsShort cluster.history && (cluster.nodes 1).runs fun node =>
      (NodeM.appendRequest node 3).entries.length == 1) (by decide +kernel)
  rw [Bool.and_eq_true, appendsShort, List.all_eq_true] at htest
  obtain ⟨hall, htest⟩ := htest
  have hshort : ∀ m s entry, (m, .write (.persistLog none) s) ∈ cluster.history → s.log.getLast? = some entry →
      entry.Short := by
    intro m s entry hevent hlast
    have hentry : s.log.getLast?.all (fun entry => decide entry.Short) = true := hall _ hevent
    rw [hlast, Option.all_some, decide_eq_true_eq] at hentry
    exact hentry
  obtain ⟨node, hnode, htest⟩ := Status.exists_of_runs htest
  exact ⟨cluster, node, hrun, hshort, hnode, by simpa using htest,
    (@frames_fit Wire.protobuf trio cluster hrun hshort).1 1 node 3 7 1 hnode⟩

/-! ### The largest request -/

/-- `SendAppend` to an idle peer, when the request does not fit: it throws after it has set the flag. -/
theorem ends_sendAppend_oversize [Protobuf] {es : List Event} {s : RaftNode} {peer : Int} {connection : Conn}
    {rpc : Proto.RaftRpc} {Q : Unit → List Event → RaftNode → Prop} {E : List Event → RaftNode → Prop}
    (hrole : s.role = .leader) (hidle : s.rpcInflight peer = false)
    (hconnection : s.connectionForPeer peer = some connection) (hlive : s.connected.contains connection = true)
    (hnext : s.snapshotIndex < s.nextIndexOf peer)
    (hrpc : rpc = ⟨s.nextRpcId, toUint64 s.serverId, .appendEntries (NodeM.appendRequest s peer)⟩)
    (hlarge : kMaxFrameSize < Protobuf.rpcByteSize rpc)
    (h : ∀ replication : ReplicationState, replication.rpcInflight = Function.update s.rpcInflight peer true →
      E (es ++ [.refuseFrame connection rpc { s with toReplicationState := replication }])
        { s with toReplicationState := replication }) :
    Prog.Ends (NodeM.sendAppend peer) Q E es s := by
  have hknown : s.nextIndex.lookup peer ≠ none := by
    intro hnone
    unfold RaftNode.nextIndexOf at hnext
    rw [hnone] at hnext
    exact absurd hnext (Nat.not_lt_zero _)
  refine .get (.ite (fun hbusy => ?_) fun _ => ?_)
  · rcases hbusy with hno | hbusy
    · exact absurd hrole hno
    · exact nomatch hidle.symm.trans hbusy
  rw [hconnection]
  refine .ite (fun _ => .bind (.modify ?_)) fun hno => absurd hlive hno
  rw [if_neg hknown]
  refine .ite (fun hle => absurd hle (not_le.mpr hnext)) fun _ => .bind (.modify (.bind (.get ?_)))
  refine .ite (fun _ => .bind (.when (fun _ => .modify (.bind ?_)) fun hno => absurd rfl hno)) fun hno => absurd hlive hno
  unfold NodeM.transmit
  rw [if_pos rfl, if_pos (hrpc ▸ hlarge)]
  exact .bind (.emitState rfl (.throw (hrpc ▸ h _ rfl)))

/-- `Submit` on a leader whose first peer is idle, when the request to it does not fit: the peer counts as busy, no
timeout is armed and the command stays in the log. -/
theorem returns_submit_oversize [Protobuf] {s : RaftNode} {call : SubmitCall} {command : Bytes} {peer : Int}
    {connection : Conn} {rpc : Proto.RaftRpc} {rest : List Int}
    (hcommand : Protobuf.command.serialize call.command = command) (hfaults : s.store.faults = [])
    (hrole : s.role = .leader) (hstopping : s.stopping = false) (hid : call.command.requestId = 0)
    (hcommit : NodeM.commitCandidate (s.appended command) = none) (hothers : s.otherPeers = peer :: rest)
    (hidle : s.rpcInflight peer = false) (hconnection : s.connectionForPeer peer = some connection)
    (hlive : s.connected.contains connection = true) (hnext : s.snapshotIndex < s.nextIndexOf peer)
    (hrpc : rpc = ⟨s.nextRpcId, toUint64 s.serverId, .appendEntries (NodeM.appendRequest (s.appended command) peer)⟩)
    (hlarge : kMaxFrameSize < Protobuf.rpcByteSize rpc) :
    Prog.Returns (NodeM.submit call) (fun _ es' s' => (∃ t, .refuseFrame connection rpc t ∈ es') ∧ s'.role = .leader ∧
      s'.log = s.log ++ [⟨s.currentTerm, command⟩] ∧ s'.rpcInflight peer = true ∧ s'.rpcTimeouts = s.rpcTimeouts)
      [] s := by
  subst hcommand
  refine .attempt (follows_submitInLoop_new hrole hstopping (.inl hid)
    (.bind (.modify (.bind (follows_persistLog hfaults rfl (.get (.bind ?_)))))))
  change Prog.Follows _ NodeM.tryAdvanceCommit _ _ _ (s.appended (Protobuf.command.serialize call.command))
  refine .get (.ite (fun _ => ?_) fun hno => absurd hrole hno)
  rw [hcommit]
  have hpeers : (s.appended (Protobuf.command.serialize call.command)).otherPeers = peer :: rest := hothers
  refine .ret (.bind ?_)
  change Prog.Follows _ (Prog.forEach (s.appended (Protobuf.command.serialize call.command)).otherPeers _) _ _ _ _
  rw [hpeers]
  refine .bind (ends_sendAppend_oversize hrole hidle hconnection hlive hnext hrpc hlarge fun replication hbusy => ?_)
  exact fun _ => .emitState rfl ⟨⟨_, List.mem_append_left _ (List.mem_append_right _ List.mem_cons_self)⟩, hrole, rfl,
    (congrFun hbusy peer).trans (Function.update_self ..), rfl⟩

/-- A PUT without ids, for a key of one byte. -/
def plainPut (value : Bytes) : Proto.ClientRequest := ⟨0, .put, [107], value, 0⟩

/-- The largest value that a request for this key can have. -/
theorem length_plainPut {value : Bytes} (h : value.length = kMaxFrameSize - 10) :
    (plainPut value).serialize.length ≤ kMaxFrameSize := by
  have hvalue : (encode (bytesField 4 value)).length ≤ value.length + 3 + 2 :=
    length_bytesField_le (by decide) (by rw [h]; decide)
  have hrequestId : (encode (numberField 1 (UInt64.toNat 0))).length = 0 := by decide
  have hoperation : (encode (numberField 2 (Proto.Operation.code .put))).length = 2 := by decide
  have hkey : (encode (bytesField 3 [107])).length = 3 := by decide
  have hclientId : (encode (numberField 5 (UInt64.toNat 0))).length = 0 := by decide
  simp only [Proto.ClientRequest.serialize, Proto.ClientRequest.fields, plainPut, encode_append, List.length_append]
  rw [hrequestId, hoperation, hkey, hclientId]
  unfold kMaxFrameSize at h ⊢
  omega

theorem length_plainPut_command (value : Bytes) :
    value.length + 5 ≤ (Standard.protobuf.command.serialize (ClientServer.commandOf .put (plainPut value))).length := by
  have hvalue := length_le_bytesField 5 value
  have htype : (encode (numberField 1 (Wire.typeCode .put))).length = 2 := by decide
  have hkey : (encode (bytesField 4 [107])).length = 3 := by decide
  change value.length + 5 ≤ (encode (Standard.commandFields _)).length
  simp only [Standard.commandFields, ClientServer.commandOf, plainPut, encode_append, List.length_append]
  rw [htype, hkey]
  omega

/-- A leader with at least two peers none of which is known to have anything commits nothing. -/
theorem commitCandidate_eq_none {s : RaftNode} (hmatch : ∀ entry ∈ s.matchIndex.entries, entry.2 = 0)
    (hpeers : 1 < s.peers.length) : NodeM.commitCandidate s = none := by
  refine List.find?_eq_none.mpr fun index hindex hcandidate => ?_
  have hpos : 1 ≤ index := by
    have := List.mem_range'_1.mp (List.mem_reverse.mp hindex)
    omega
  have hnone : s.matchIndex.entries.countP (fun entry => decide (index ≤ entry.2)) = 0 := by
    refine List.countP_eq_zero.mpr fun entry hentry => ?_
    rw [hmatch entry hentry, decide_eq_true_eq]
    omega
  have hmany : s.peers.length / 2 < 1 + s.matchIndex.entries.countP fun entry => decide (index ≤ entry.2) :=
    (of_decide_eq_true hcandidate).2
  omega

/-- Node 1 is elected by node 2, gets the answer to its first request, and the timeout of that request runs out. -/
def settled : List Move := handover.take 9 ++ [.act (.run 1 (.rpcTimeout ⟨2, 2, 3, ⟨1, 2, 0⟩, false⟩))]

/-- What the node is like then. -/
structure Settled (node : RaftNode) : Prop where
  role : node.role = .leader
  running : node.stopping = false ∧ node.ready = true
  log : node.log = [] ∧ node.snapshotIndex = 0 ∧ node.currentTerm = 1
  peers : node.otherPeers = [2, 3] ∧ 1 < node.peers.length
  idle : node.rpcInflight 2 = false ∧ node.rpcTimeouts = []
  connected : node.connectionForPeer 2 = some ⟨1, 2, 0⟩ ∧ node.connected.contains ⟨1, 2, 0⟩ = true
  next : node.nextIndexOf 2 = 1
  unmatched : ∀ entry ∈ node.matchIndex.entries, entry.2 = 0

theorem exists_settled : ∃ cluster node, @Reachable Standard.protobuf trio cluster ∧
    cluster.nodes 1 = .running node ∧ Settled node := by
  obtain ⟨cluster, hrun, htest⟩ := @run_of_play Standard.protobuf trio (fun _ _ => True) _ settled
    (fun cluster => (cluster.nodes 1).runs fun node =>
      decide (node.role = .leader ∧ (node.stopping = false ∧ node.ready = true) ∧
        (node.log.length = 0 ∧ node.snapshotIndex = 0 ∧ node.currentTerm = 1) ∧
        (node.otherPeers = [2, 3] ∧ 1 < node.peers.length) ∧ (node.rpcInflight 2 = false ∧ node.rpcTimeouts = []) ∧
        (node.connectionForPeer 2 = some ⟨1, 2, 0⟩ ∧ node.connected.contains ⟨1, 2, 0⟩ = true) ∧
        node.nextIndexOf 2 = 1 ∧ ∀ entry ∈ node.matchIndex.entries, entry.2 = 0)) (by decide +kernel)
  obtain ⟨node, hnode, htest⟩ := Status.exists_of_runs htest
  obtain ⟨hrole, hrunning, ⟨hlog, hsnapshot⟩, hpeers, hidle, hconnected, hnext, hunmatched⟩ := of_decide_eq_true htest
  exact ⟨cluster, node, hrun, hnode, hrole, hrunning, ⟨List.length_eq_zero_iff.mp hlog, hsnapshot⟩, hpeers, hidle,
    hconnected, hnext, hunmatched⟩

/-- A request with the largest payload is accepted and its command is appended. The frame for node 2 is then too large:
the flag is set, and there is no timeout that would clear it. -/
theorem frames_fit_largest : ∃ cluster node put connection rpc s,
    ClientServer.onMessage (ClientServer.writeUint32 put.serialize.length ++ put.serialize) =
      (.ok (), [], [.enqueue put]) ∧
    @Reachable Standard.protobuf trio cluster ∧ cluster.nodes 1 = .running node ∧ node.role = .leader ∧
    node.log = [⟨1, Standard.protobuf.command.serialize (ClientServer.commandOf .put put)⟩] ∧
    (1, .refuseFrame connection rpc s) ∈ cluster.history ∧ kMaxFrameSize < Standard.rpcByteSize rpc ∧
    node.rpcInflight 2 = true ∧ node.rpcTimeouts = [] := by
  obtain ⟨value, hvalue⟩ : ∃ value : Bytes, value.length = kMaxFrameSize - 10 :=
    ⟨List.replicate (kMaxFrameSize - 10) 118, List.length_replicate⟩
  obtain ⟨cluster, node, hrun, hnode, hsettled⟩ := exists_settled
  obtain ⟨hlog, hsnapshot, hterm⟩ := hsettled.log
  generalize hcommand : Standard.protobuf.command.serialize (ClientServer.commandOf .put (plainPut value)) = command
  have hlength : kMaxFrameSize < command.length + 6 := by
    have := length_plainPut_command value
    rw [hcommand, hvalue] at this
    unfold kMaxFrameSize at this ⊢
    omega
  have hentry : ⟨1, 1, command⟩ ∈ (NodeM.appendRequest (@RaftNode.appended Standard.protobuf node command) 2).entries := by
    have hnext : (@RaftNode.appended Standard.protobuf node command).nextIndexOf 2 = 1 := hsettled.next
    have hlog' : (@RaftNode.appended Standard.protobuf node command).log = [⟨1, command⟩] := by
      change node.log ++ [⟨node.currentTerm, command⟩] = _
      rw [hlog, hterm, List.nil_append]
    have hindex : (@RaftNode.appended Standard.protobuf node command).snapshotIndex = 0 := hsnapshot
    simp [NodeM.appendRequest, RaftNode.lastIndex, hnext, hlog', hindex, kMaxEntriesPerRpc]
  have hne : command.length ≠ 0 := by
    unfold kMaxFrameSize at hlength
    omega
  have hlarge := fun id sender => hlength.trans_le (Standard.length_add_le_rpcByteSize hentry hne id sender)
  have hfaults : node.store.faults = [] := (@Reachable.calm Standard.protobuf trio cluster hrun 1 node hnode).faults
  have hreturns := @returns_submit_oversize Standard.protobuf node ⟨0, ClientServer.commandOf .put (plainPut value)⟩
    command 2 ⟨1, 2, 0⟩ _ [3] hcommand hfaults hsettled.role hsettled.running.1 rfl
    (commitCandidate_eq_none hsettled.unmatched hsettled.peers.2) hsettled.peers.1 hsettled.idle.1
    hsettled.connected.1 hsettled.connected.2 (by rw [hsnapshot, hsettled.next]; exact Nat.one_pos) rfl (hlarge _ _)
  obtain ⟨_, node', events, hsubmit, ⟨s, hrefused⟩, hrole, hlog', hbusy, htimeouts⟩ := hreturns.run
  obtain ⟨cluster', hrun', hnode', hhistory⟩ := @Reachable.run Standard.protobuf trio cluster hrun 1
    (.submit ⟨0, ClientServer.commandOf .put (plainPut value)⟩) node node' events hnode (by simp) hsettled.running.2 rfl
    hsubmit
  have haccepted := @ClientServer.onMessage_frame (plainPut value) rfl (List.cons_ne_nil _ _) rfl
    (length_plainPut hvalue)
  rw [hlog, hterm, List.nil_append, ← hcommand] at hlog'
  have hevent := List.mem_append_right cluster.history (List.mem_map_of_mem (f := fun event => ((1 : Int), event)) hrefused)
  rw [List.nil_append, ← hhistory] at hevent
  exact ⟨cluster', node', plainPut value, _, _, s, haccepted, hrun', hnode', hrole, hlog', hevent, hlarge _ _, hbusy,
    htimeouts.trans hsettled.idle.2⟩

end Cluster

end Nukv
