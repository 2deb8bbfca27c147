import Nukv.Property.Frames
import Nukv.Property.ReadQueue

/-!
# One exchange between a leader and a follower

What `SendAppend`, `HandleAppendEntries` and `HandleAppendEntriesResponse` do when nothing is in their way: the
connection is up, the request is the one that is awaited, and neither a command nor a frame is refused. An exception in
one of them can only come from a refusal, and a refusal leaves its event (`Smooth`); so a run whose history has no such
event goes through.
-/

namespace Nukv

open Base

/-- Nothing was refused: no command, no index of the log and no frame. -/
def Smooth (events : List Event) : Prop :=
  Unrefused events ∧ ∀ connection rpc s, .refuseFrame connection rpc s ∉ events

theorem Smooth.of_append {events events' : List Event} (h : Smooth (events ++ events')) : Smooth events :=
  ⟨h.1.of_append, fun connection rpc s hmem => h.2 connection rpc s (List.mem_append_left _ hmem)⟩

theorem not_smooth_frame (events : List Event) (connection : Conn) (rpc : Proto.RaftRpc) (s : RaftNode) :
    ¬ Smooth (events ++ [.refuseFrame connection rpc s]) := fun h =>
  h.2 connection rpc s (List.mem_append_right _ (List.mem_singleton_self _))

variable [Protobuf] {s : RaftNode} {es : List Event} {peer : Int} {connection : Conn} {requestId : Nat}

/-! ### SendAppend -/

/-- What sending the next AppendEntries request leaves: only the bookkeeping of the request changes. -/
structure Asks (peer : Int) (connection : Conn) (es : List Event) (s : RaftNode) (es' : List Event) (s' : RaftNode) :
    Prop where
  node : ∃ replication timeouts, s' = { s with toReplicationState := replication, rpcTimeouts := timeouts }
  nextIndex : s'.nextIndex = s.nextIndex
  matchIndex : s'.matchIndex = s.matchIndex
  inflight : s'.rpcInflight peer = true
  hasEntries : s'.rpcHasEntries peer = !(NodeM.appendRequest s peer).entries.isEmpty
  requestId : s'.rpcRequestId peer = s.nextRpcId
  sent : ∃ t, es' = es ++ [.send connection
    ⟨s.nextRpcId, toUint64 s.serverId, .appendEntries (NodeM.appendRequest s peer)⟩ t]

omit [Protobuf] in
theorem RaftNode.connectionForPeer_congr {s s' : RaftNode} (hidentity : s'.toIdentity = s.toIdentity)
    (hconnection : s'.toConnectionState = s.toConnectionState) (peer : Int) :
    s'.connectionForPeer peer = s.connectionForPeer peer := by
  unfold connectionForPeer
  rw [hidentity, hconnection]

omit [Protobuf] in
theorem known_of_nextIndex (h : s.snapshotIndex < s.nextIndexOf peer) : s.nextIndex.lookup peer ≠ none := by
  intro hnone
  unfold RaftNode.nextIndexOf at h
  rw [hnone] at h
  exact absurd h (Nat.not_lt_zero _)

/-- An idle peer above the snapshot is sent the next request. -/
theorem ends_sendAppend (hrole : s.role = .leader) (hidle : s.rpcInflight peer = false)
    (hconnection : s.connectionForPeer peer = some connection) (hlive : connection ∈ s.connected)
    (hnext : s.snapshotIndex < s.nextIndexOf peer) (hpos : 0 < s.nextRpcId) :
    Prog.Ends (NodeM.sendAppend peer) (fun _ es' s' => Asks peer connection es s es' s') (fun es' _ => ¬ Smooth es')
      es s := by
  have hcontains : s.connected.contains connection = true := by simpa using hlive
  refine .get (.ite (fun hbusy => ?_) fun _ => ?_)
  · rcases hbusy with hno | hbusy
    · exact absurd hrole hno
    · exact nomatch hidle.symm.trans hbusy
  rw [hconnection]
  refine .ite (fun _ => .bind (.modify ?_)) fun hno => absurd hcontains hno
  rw [if_neg (known_of_nextIndex hnext)]
  refine .ite (fun hle => absurd hle (not_le.mpr hnext)) fun _ => .bind (.modify (.bind (.get ?_)))
  refine .ite (fun _ => .bind (.when (fun _ => .modify (.bind ?_)) fun hno => absurd rfl hno))
    fun hno => absurd hcontains hno
  unfold NodeM.transmit
  rw [if_pos rfl]
  refine .ite (fun _ => .bind (.emitState rfl (.throw (not_smooth_frame _ _ _ _)))) fun _ => .emitState rfl (.ret ?_)
  refine .ite (fun hzero => absurd hzero hpos.ne') fun _ => .modify ?_
  exact ⟨⟨_, _, rfl⟩, rfl, rfl, Function.update_self .., Function.update_self .., Function.update_self .., _, rfl⟩

/-! ### Heartbeats -/

/-- What sending to other peers leaves of the node: what it keeps about `p` is the same. -/
structure Besides (p : Int) (s s' : RaftNode) : Prop where
  node : ∃ replication timeouts, s' = { s with toReplicationState := replication, rpcTimeouts := timeouts }
  nextIndex : s'.nextIndex.lookup p = s.nextIndex.lookup p
  matchIndex : s'.matchIndex = s.matchIndex
  inflight : s'.rpcInflight p = s.rpcInflight p
  requestId : s'.rpcRequestId p = s.rpcRequestId p
  hasEntries : s'.rpcHasEntries p = s.rpcHasEntries p
  fresh : s.nextRpcId ≤ s'.nextRpcId

omit [Protobuf] in
theorem Besides.refl (p : Int) (s : RaftNode) : Besides p s s := ⟨⟨_, _, rfl⟩, rfl, rfl, rfl, rfl, rfl, le_rfl⟩

omit [Protobuf] in
theorem Besides.trans {p : Int} {s s' s'' : RaftNode} (h : Besides p s s') (h' : Besides p s' s'') : Besides p s s'' := by
  refine ⟨?_, h'.nextIndex.trans h.nextIndex, h'.matchIndex.trans h.matchIndex, h'.inflight.trans h.inflight,
    h'.requestId.trans h.requestId, h'.hasEntries.trans h.hasEntries, h.fresh.trans h'.fresh⟩
  obtain ⟨replication, timeouts, rfl⟩ := h.node
  obtain ⟨replication', timeouts', rfl⟩ := h'.node
  exact ⟨replication', timeouts', rfl⟩

/-- The node `n` has gone on, and has sent nothing to `p`. -/
def Elsewhere (n p : Int) (es : List Event) (s : RaftNode) (es' : List Event) (s' : RaftNode) : Prop :=
  Besides p s s' ∧ ∃ more, es' = es ++ more ∧ ∀ c rpc t, .send c rpc t ∈ more → c.otherEnd n ≠ p

omit [Protobuf] in
theorem Elsewhere.refl (n p : Int) (es : List Event) (s : RaftNode) : Elsewhere n p es s es s :=
  ⟨.refl p s, [], (List.append_nil es).symm, fun _ _ _ => nofun⟩

omit [Protobuf] in
theorem Elsewhere.trans {n p : Int} {es es' es'' : List Event} {s s' s'' : RaftNode} (h : Elsewhere n p es s es' s')
    (h' : Elsewhere n p es' s' es'' s'') : Elsewhere n p es s es'' s'' := by
  obtain ⟨hbesides, more, rfl, hmore⟩ := h
  obtain ⟨hbesides', more', rfl, hmore'⟩ := h'
  refine ⟨hbesides.trans hbesides', more ++ more', List.append_assoc .., fun c rpc t hmem => ?_⟩
  exact (List.mem_append.mp hmem).elim (hmore c rpc t) (hmore' c rpc t)

omit [Protobuf] in
/-- Only what the node keeps about `peer` is changed. -/
theorem Elsewhere.silent {n p : Int} (hne : peer ≠ p) {s' : RaftNode}
    (hnode : ∃ replication timeouts, s' = { s with toReplicationState := replication, rpcTimeouts := timeouts })
    (hnext : s'.nextIndex.lookup p = s.nextIndex.lookup p) (hmatch : s'.matchIndex = s.matchIndex)
    (hsame : ∀ q, q ≠ peer → s'.rpcInflight q = s.rpcInflight q ∧ s'.rpcRequestId q = s.rpcRequestId q ∧
      s'.rpcHasEntries q = s.rpcHasEntries q) (hfresh : s'.nextRpcId = s.nextRpcId) : Elsewhere n p es s es s' := by
  obtain ⟨hinflight, hid, hentries⟩ := hsame p hne.symm
  exact ⟨⟨hnode, hnext, hmatch, hinflight, hid, hentries, hfresh.ge⟩, [], (List.append_nil es).symm, fun _ _ _ => nofun⟩

/-- The answer that is awaited from a peer. -/
structure Awaits (s : RaftNode) (peer : Int) (connection : Conn) (response : Proto.AppendEntriesResponse)
    (requestId : Nat) : Prop where
  role : s.role = .leader
  term : response.term = s.currentTerm
  responder : toInt32 response.responderId = peer
  id : requestId = s.rpcRequestId peer
  positive : requestId ≠ 0
  bound : s.connectionForPeer peer = some connection
  connected : connection ∈ s.connected
  above : s.snapshotIndex < s.nextIndexOf peer
  fresh : 0 < s.nextRpcId

/-- The leader with the request to a peer forgotten. -/
def RaftNode.released (s : RaftNode) (peer : Int) : RaftNode := NodeM.resetPeers (fun p => p == peer) s

/-- The leader after a rejection. -/
def RaftNode.backedOff (s : RaftNode) (peer : Int) : RaftNode :=
  { s.released peer with
    nextIndex := if s.snapshotIndex + 1 < s.nextIndexOf peer then s.nextIndex.insert peer (s.nextIndexOf peer - 1)
      else s.nextIndex }

/-- The leader that has heard how far the log of a peer matches. -/
def RaftNode.matched (s : RaftNode) (peer : Int) (index : Nat) : RaftNode :=
  { s.released peer with
    matchIndex := s.matchIndex.insert peer (min index s.lastIndex)
    nextIndex := s.nextIndex.insert peer (min index s.lastIndex + 1) }

omit [Protobuf] in
theorem RaftNode.backedOff_nextIndexOf (s : RaftNode) (peer : Int) :
    (s.backedOff peer).nextIndexOf peer =
      if s.snapshotIndex + 1 < s.nextIndexOf peer then s.nextIndexOf peer - 1 else s.nextIndexOf peer := by
  unfold backedOff nextIndexOf
  dsimp only
  split
  · rw [AList.lookup_insert, Option.getD_some]
  · rfl

omit [Protobuf] in
theorem RaftNode.matched_nextIndexOf (s : RaftNode) (peer : Int) (index : Nat) :
    (s.matched peer index).nextIndexOf peer = min index s.lastIndex + 1 := by
  unfold matched nextIndexOf
  rw [AList.lookup_insert, Option.getD_some]

omit [Protobuf] in
/-- The request that was awaited is forgotten. -/
theorem follows_release {α : Type} {f : NodeM Unit} {g : Unit → NodeM α} {Q : α → List Event → RaftNode → Prop}
    {E : List Event → RaftNode → Prop} (hf : f = NodeM.resetPeerRpcState peer connection)
    (hconnection : s.connectionForPeer peer = some connection) (h : Prog.Ends (g ()) Q E es (s.released peer)) :
    Prog.Ends (f >>= g) Q E es s := by
  subst hf
  exact .bind (.get (.when (fun _ => .modify h) fun hno => absurd hconnection hno))

variable {response : Proto.AppendEntriesResponse}

omit [Protobuf] in
theorem Awaits.current (h : Awaits s peer connection response requestId) :
    ¬ (s.role ≠ .leader ∨ response.term ≠ s.currentTerm ∨ requestId = 0 ∨
      requestId ≠ s.rpcRequestId (toInt32 response.responderId) ∨
      s.connectionForPeer (toInt32 response.responderId) ≠ some connection) := by
  rw [h.responder]
  rintro (hrole | hterm | hzero | hid | hbound)
  · exact hrole h.role
  · exact hterm h.term
  · exact h.positive hzero
  · exact hid h.id
  · exact hbound h.bound

/-- A rejection moves `next_index_` down by one, as long as it stays above the snapshot, and the next request follows at
once. -/
theorem ends_rejected (h : Awaits s peer connection response requestId) (hfailed : response.success = false) :
    Prog.Ends (NodeM.handleAppendEntriesResponse connection response requestId)
      (fun _ es' s' => Asks peer connection es (s.backedOff peer) es' s') (fun es' _ => ¬ Smooth es') es s := by
  refine .get (.ite (fun hlt => absurd hlt (h.term ▸ lt_irrefl _)) fun _ => .ite (fun hstale => absurd hstale h.current)
    fun _ => ?_)
  rw [h.responder]
  refine follows_release rfl h.bound (.ite (fun hyes => ?_) fun _ => .bind (.modify ?_))
  · exact nomatch hfailed.symm.trans hyes
  have hknown : (s.released peer).nextIndex.lookup peer ≠ none := known_of_nextIndex h.above
  rw [if_neg hknown]
  have hsend : Prog.Ends (NodeM.sendAppend peer) (fun _ es' s' => Asks peer connection es (s.backedOff peer) es' s')
      (fun es' _ => ¬ Smooth es') es (s.backedOff peer) := by
    refine ends_sendAppend h.role (if_pos (beq_self_eq_true peer)) h.bound h.connected ?_ h.fresh
    rw [s.backedOff_nextIndexOf]
    have habove := h.above
    change s.snapshotIndex < _
    split <;> omega
  refine .bind (.when (fun hlt => .modify ?_) fun hge => ?_)
  · have hstate : ({ s.released peer with nextIndex := s.nextIndex.insert peer (s.nextIndexOf peer - 1) } : RaftNode) =
        s.backedOff peer := by rw [RaftNode.backedOff, if_pos hlt]
    rw [← hstate] at hsend ⊢
    exact hsend
  · have hstate : s.released peer = s.backedOff peer := by
      rw [RaftNode.backedOff, if_neg hge]
      rfl
    rw [← hstate] at hsend ⊢
    exact hsend

/-- What `TryAdvanceCommit` leaves of a leader: it commits what it can, and applies it. -/
def RaftNode.Commits (s s' : RaftNode) : Prop :=
  NodeM.commitCandidate s = none ∧ s' = s ∨
    ∃ index, NodeM.commitCandidate s = some index ∧ ({ s with commitIndex := index } : RaftNode).CaughtUp s'

theorem ends_tryAdvanceCommit (hrole : s.role = .leader) (hfaults : s.store.faults = []) :
    Prog.Ends NodeM.tryAdvanceCommit (fun _ _ s' => s.Commits s') (fun es' _ => ¬ Smooth es') es s := by
  refine .get (.ite (fun _ => ?_) fun hno => absurd hrole hno)
  cases hcandidate : NodeM.commitCandidate s with
  | none => exact .ret (.inl ⟨hcandidate, rfl⟩)
  | some index =>
    refine .bind (.modify (.bind (.emitState rfl ?_)))
    refine (Prog.Ends.and ends_applyCommitted (ends_applyCommitted_refused ?_)).weaken ?_ ?_
    · exact hfaults
    · rintro _ es' s' ⟨⟨-, hcaught⟩, -⟩
      exact .inr ⟨index, hcandidate, hcaught⟩
    · exact fun es' s' hrefused hsmooth => hrefused.2 hsmooth.1

/-- A success moves both indexes to what the peer has, the leader commits what it can, and if there is more to send the
next request follows. -/
theorem ends_accepted (h : Awaits s peer connection response requestId) (hsuccess : response.success = true)
    (hfaults : s.store.faults = []) (habove : ∀ t, (s.matched peer response.matchIndex).Commits t →
      t.snapshotIndex < t.nextIndexOf peer) :
    Prog.Ends (NodeM.handleAppendEntriesResponse connection response requestId)
      (fun _ es' s' => ∃ t es₁, (s.matched peer response.matchIndex).Commits t ∧
        if s.rpcHasEntries peer = true ∧ t.nextIndexOf peer ≤ t.lastIndex then Asks peer connection es₁ t es' s'
        else s' = t ∧ es' = es₁) (fun es' _ => ¬ Smooth es') es s := by
  refine .get (.ite (fun hlt => absurd hlt (h.term ▸ lt_irrefl _)) fun _ => .ite (fun hstale => absurd hstale h.current)
    fun _ => ?_)
  rw [h.responder]
  refine follows_release rfl h.bound (.ite (fun _ => .bind (.modify ?_)) fun hno => absurd hsuccess hno)
  have hadvance : Prog.Ends NodeM.tryAdvanceCommit (fun _ _ s' => (s.matched peer response.matchIndex).Commits s')
      (fun es' _ => ¬ Smooth es') es (s.matched peer response.matchIndex) := ends_tryAdvanceCommit h.role hfaults
  refine .bind (hadvance.post fun _ es₁ t hcommits => ?_)
  -- what `SendAppend` looks at has not changed
  have hkept : t.role = .leader ∧ t.rpcInflight peer = false ∧ t.connectionForPeer peer = some connection ∧
      connection ∈ t.connected ∧ 0 < t.nextRpcId := by
    rcases hcommits with ⟨-, rfl⟩ | ⟨index, -, hcaught⟩
    · exact ⟨h.role, if_pos (beq_self_eq_true peer), h.bound, h.connected, h.fresh⟩
    · exact ⟨(congrArg ElectionState.role hcaught.election).trans h.role,
        (congrFun (congrArg ReplicationState.rpcInflight hcaught.replication) peer).trans
          (if_pos (beq_self_eq_true peer)),
        (RaftNode.connectionForPeer_congr hcaught.identity hcaught.connection peer).trans h.bound,
        (congrArg ConnectionState.connected hcaught.connection) ▸ h.connected,
        (congrArg ReplicationState.nextRpcId hcaught.replication) ▸ h.fresh⟩
  refine .get (.when (fun hmore => ?_) fun hdone => ⟨t, es₁, hcommits, ?_⟩)
  · refine (ends_sendAppend hkept.1 hkept.2.1 hkept.2.2.1 hkept.2.2.2.1 (habove t hcommits) hkept.2.2.2.2).post ?_
    intro _ es' s' hasks
    refine ⟨t, es₁, hcommits, ?_⟩
    rw [if_pos hmore]
    exact hasks
  · rw [if_neg hdone]
    exact ⟨rfl, rfl⟩

/-! ### What there is to commit -/

omit [Protobuf] in
/-- There is nothing to commit: no entry of the own term above the commit index is on a quorum. -/
theorem commitCandidate_eq_none_iff : NodeM.commitCandidate s = none ↔ ∀ i, s.commitIndex < i → i ≤ s.lastIndex →
    s.termAt i = s.currentTerm → NodeM.replicated s i ≤ s.peers.length / 2 := by
  unfold NodeM.commitCandidate
  rw [List.find?_eq_none]
  constructor
  · intro h i hlow hhigh hterm
    have hi := h i (by rw [List.mem_reverse, List.mem_range'_1]; omega)
    rw [decide_eq_true_eq] at hi
    exact not_lt.mp fun hlt => hi ⟨hterm, hlt⟩
  · intro h i hi hcandidate
    rw [List.mem_reverse, List.mem_range'_1] at hi
    obtain ⟨hterm, hmany⟩ := of_decide_eq_true hcandidate
    exact absurd (h i (by omega) (by omega) hterm) (not_le.mpr hmany)

omit [Protobuf] in
theorem commitCandidate_congr {s s' : RaftNode} (hlog : s'.toLogState = s.toLogState)
    (hidentity : s'.toIdentity = s.toIdentity) (hmatch : s'.matchIndex = s.matchIndex) :
    NodeM.commitCandidate s' = NodeM.commitCandidate s := by
  unfold NodeM.commitCandidate NodeM.replicated RaftNode.termAt RaftNode.entryAt RaftNode.lastIndex
  rw [hlog, hidentity, hmatch]

omit [Protobuf] in
/-- `TryAdvanceCommit` finds the last index that can be committed. -/
theorem commitCandidate_last {index : Nat} (h : NodeM.commitCandidate s = some index) {i : Nat} (hlow : index < i)
    (hhigh : i ≤ s.lastIndex) (hterm : s.termAt i = s.currentTerm) : NodeM.replicated s i ≤ s.peers.length / 2 := by
  have hcommit := (NodeM.commitCandidate_some h).1
  unfold NodeM.commitCandidate at h
  obtain ⟨-, before, after, hsplit, hnone⟩ := List.find?_eq_some_iff_append.mp h
  have hsorted : (before ++ index :: after).Pairwise fun i j => j < i := by
    rw [← hsplit, List.pairwise_reverse]
    exact List.pairwise_lt_range'
  have hmem : i ∈ before ++ index :: after := by
    rw [← hsplit, List.mem_reverse, List.mem_range'_1]
    omega
  rcases List.mem_append.mp hmem with hbefore | hafter
  · have hi := hnone i hbefore
    rw [Bool.not_eq_true', decide_eq_false_iff_not] at hi
    exact not_lt.mp fun hlt => hi ⟨hterm, hlt⟩
  · rcases List.mem_cons.mp hafter with rfl | hafter
    · exact absurd hlow (lt_irrefl _)
    · have hlt := List.rel_of_pairwise_cons (List.pairwise_append.mp hsorted).2.1 hafter
      omega

omit [Protobuf] in
/-- What a peer has reported counts for no index above it. -/
theorem RaftNode.replicated_matched (s : RaftNode) {index i : Nat} (hlt : index < i) :
    NodeM.replicated (s.matched peer index) i ≤ NodeM.replicated s i := by
  refine Nat.add_le_add_left ?_ 1
  change List.countP _ (s.matchIndex.insert peer (min index s.lastIndex)).entries ≤ _
  rw [AList.entries_insert, List.countP_cons_of_neg]
  · exact (List.kerase_sublist _ _).countP_le
  · rw [decide_eq_true_eq]
    exact not_le.mpr ((Nat.min_le_left _ _).trans_lt hlt)

omit [Protobuf] in
theorem RaftNode.termAt_below {i : Nat} (h : i < s.snapshotIndex) : s.termAt i = 0 := by
  unfold RaftNode.termAt RaftNode.entryAt
  rw [if_neg h.ne, if_pos h.le]

/-- A leader that has heard how far the log of a peer matches, and has committed what it can. -/
structure Advances (peer : Int) (index : Nat) (s t : RaftNode) : Prop where
  settled : NodeM.commitCandidate t = none
  snapshot_le : t.snapshotIndex ≤ index
  lastIndex : t.lastIndex = s.lastIndex
  termAt : ∀ i, t.snapshotIndex ≤ i → t.termAt i = s.termAt i
  currentTerm : t.currentTerm = s.currentTerm
  identity : t.toIdentity = s.toIdentity
  election : t.toElectionState = s.toElectionState
  connection : t.toConnectionState = s.toConnectionState
  replication : t.toReplicationState = (s.matched peer index).toReplicationState

omit [Protobuf] in
/-- What a leader commits that had nothing to commit before is at most what the peer has reported. -/
theorem RaftNode.Commits.advances {t : RaftNode} {index : Nat} (h : (s.matched peer index).Commits t)
    (hsettled : NodeM.commitCandidate s = none) (hsnapshot : s.snapshotIndex ≤ index) (hpos : s.currentTerm ≠ 0) :
    Advances peer index s t := by
  rcases h with ⟨hnone, rfl⟩ | ⟨candidate, hcandidate, hcaught⟩
  · exact ⟨hnone, hsnapshot, rfl, fun _ _ => rfl, rfl, rfl, rfl, rfl, rfl⟩
  obtain ⟨hlow, hhigh, hterm, hmany⟩ := NodeM.commitCandidate_some hcandidate
  have hle : candidate ≤ index := by
    by_contra hgt
    have hfew := commitCandidate_eq_none_iff.mp hsettled candidate hlow hhigh hterm
    exact absurd (hmany.trans_le (s.replicated_matched (not_le.mp hgt))) (not_lt.mpr hfew)
  have hsnapshot' : t.snapshotIndex ≤ index := by
    rcases hcaught.compacted with ⟨heq, -⟩ | ⟨heq, -⟩
    · exact heq.le.trans hsnapshot
    · exact heq.le.trans hle
  have hsame : ∀ i, t.snapshotIndex ≤ i → t.termAt i = s.termAt i := fun i hi =>
    (hcaught.termAt i (hcaught.snapshot_le.trans hi)).resolve_left (not_lt.mpr hi)
  refine ⟨commitCandidate_eq_none_iff.mpr fun i hi hilast hiterm => ?_, hsnapshot', hcaught.lastIndex, hsame,
    hcaught.currentTerm, hcaught.identity, hcaught.election, hcaught.connection, hcaught.replication⟩
  rcases Nat.lt_or_ge i t.snapshotIndex with hbelow | habove
  · exact absurd (hiterm.symm.trans (RaftNode.termAt_below hbelow)) (hcaught.currentTerm ▸ hpos)
  · have hrest := commitCandidate_last hcandidate (lt_of_eq_of_lt hcaught.commitIndex.symm hi)
      (hilast.trans_eq hcaught.lastIndex) ((hsame i habove).symm.trans (hiterm.trans hcaught.currentTerm))
    unfold NodeM.replicated at hrest ⊢
    rw [hcaught.replication, hcaught.identity]
    exact hrest

/-! ### HandleAppendEntries -/

variable {request : Proto.AppendEntriesRequest}

/-- The entries are taken exactly when the logs agree before them and nothing committed contradicts them. -/
theorem ends_acceptEntries_isSome (hfaults : s.store.faults = []) :
    Prog.Ends (NodeM.acceptEntries request)
      (fun accepted _ _ => accepted.isSome = (NodeM.prevMatches s request &&
        (NodeM.mergeEntries s request.prevLogIndex request.entries).success)) (fun es' _ => ¬ Smooth es') es s := by
  refine .get (.ite (fun hmatches => .bind (.modify (.ite (fun hsuccess => .bind (.get ?_)) fun hfailed => ?_)))
    fun hno => .ret ?_)
  · refine follows_writeAtomically hfaults rfl (.bind (.modify (.bind ?_)))
    refine (ends_applyCommitted_refused rfl).weaken (fun _ _ _ _ => .ret ?_) fun _ _ hrefused hsmooth =>
      hrefused hsmooth.1
    rw [hmatches, hsuccess]
    rfl
  · refine .ret ?_
    rw [Bool.eq_false_of_not_eq_true hfailed, Bool.and_false]
    rfl
  · rw [Bool.eq_false_of_not_eq_true hno]
    rfl

/-- How a follower takes a request: it follows the leader, which makes it `t`, and then it rejects the request or takes
the entries. -/
structure Takes (request : Proto.AppendEntriesRequest) (s t : RaftNode) (accepted : Option Nat) (s' : RaftNode) :
    Prop where
  follows : s.Yields t
  term : t.currentTerm = request.term
  isSome : accepted.isSome = (NodeM.prevMatches t request &&
    (NodeM.mergeEntries t request.prevLogIndex request.entries).success)
  outcome : accepted = none ∧ s' = t ∨ ∃ log faults,
    accepted = some (request.prevLogIndex + request.entries.length) ∧ NodeM.prevMatches t request = true ∧
    NodeM.MergeResult t request.prevLogIndex request.entries
      ⟨true, request.prevLogIndex + request.entries.length, log⟩ ∧
    ((t.merged log request.leaderCommit).facing faults).CaughtUp s'

theorem Takes.kept {t s' : RaftNode} {accepted : Option Nat} (h : Takes request s t accepted s') :
    s'.toIdentity = s.toIdentity ∧ s'.toConnectionState = s.toConnectionState ∧ s'.currentTerm = request.term := by
  rcases h.outcome with ⟨-, rfl⟩ | ⟨_, _, -, -, -, hcaught⟩
  · exact ⟨h.follows.identity, h.follows.connection, h.term⟩
  · exact ⟨hcaught.identity.trans h.follows.identity, hcaught.connection.trans h.follows.connection,
      hcaught.currentTerm.trans h.term⟩

/-- A request of the own term or a later one is answered on a connection that is up. -/
theorem ends_answer (hterm : s.currentTerm ≤ request.term) (hlive : connection ∈ s.connected) (hid : requestId ≠ 0)
    (hfaults : s.store.faults = []) (hconsecutive : Consecutive request.prevLogIndex request.entries) :
    Prog.Ends (NodeM.handleAppendEntries connection request requestId)
      (fun _ es' s' => ∃ es₁ t accepted, Takes request s t accepted s' ∧
        es' = es₁ ++ [.send connection ⟨requestId, toUint64 s.serverId, .appendEntriesResponse
          ⟨request.term, accepted.isSome, accepted.getD s'.lastIndex, toUint64 s.serverId⟩⟩ s'])
      (fun es' _ => ¬ Smooth es') [] s := by
  refine .get (.ite (fun hlt => absurd hlt (not_lt.mpr hterm)) fun _ => .bind ((ends_followLeader hterm).weaken ?_ ?_))
  · rintro _ es₁ t ⟨hyields, hcurrent, -, -⟩
    refine .bind ((Prog.Ends.and (ends_acceptEntries hconsecutive)
      (ends_acceptEntries_isSome (hyields.faults_nil hfaults))).weaken ?_ fun _ _ h => h.2)
    rintro accepted es₂ u ⟨⟨-, houtcome⟩, hisSome⟩
    have htakes : Takes request s t accepted u :=
      ⟨hyields, hcurrent, hisSome, houtcome.imp id fun ⟨log, faults, h₁, h₂, h₃, _, h₄⟩ => ⟨log, faults, h₁, h₂, h₃, h₄⟩⟩
    obtain ⟨hidentity, hconnection, hnow⟩ := htakes.kept
    have hlive' : connection ∈ u.connected := (congrArg ConnectionState.connected hconnection) ▸ hlive
    refine .get (.bind (follows_sendRpc (fun _ _ => rpcByteSize_small rfl) (fun hnone => ?_) ?_))
    · simp [RaftNode.isConnected, hlive'] at hnone
    · rintro c id next hc - hfor
      obtain rfl := Option.some.inj hc
      rcases hfor with ⟨-, rfl, rfl⟩ | ⟨hzero, -⟩
      · refine ⟨_, rfl, .ret ⟨es₂, t, accepted, htakes, ?_⟩⟩
        rw [hnow, congrArg Identity.serverId hidentity]
        rfl
      · exact absurd hzero hid
  · exact fun _ _ h => absurd hfaults h.2.1

/-! ### HandleRpc -/

omit [Protobuf] in
/-- Nothing changes when the sender has the connection already. -/
theorem ends_registerSender {senderId : Nat} {E : List Event → RaftNode → Prop} (hother : toInt32 senderId ≠ s.serverId)
    (hbound : s.connectionForPeer (toInt32 senderId) = some connection) :
    Prog.Ends (NodeM.registerSender connection senderId) (fun known es' s' => known = true ∧ es' = es ∧ s' = s) E es s := by
  unfold RaftNode.connectionForPeer at hbound
  refine .get (.ite (fun _ => .ret ⟨rfl, rfl, rfl⟩) fun _ => .ite (fun hlt => .bind ?_) fun hge => ?_)
  · rw [if_neg (not_lt.mpr hlt.le)] at hbound
    rw [hbound]
    refine .when (fun hne => absurd rfl hne) fun _ => .bind (.modify (.ret ⟨rfl, rfl, ?_⟩))
    rw [← hbound, Function.update_eq_self]
  · rw [if_pos (lt_of_le_of_ne (not_lt.mp hge) hother.symm)] at hbound
    rw [hbound]
    exact .ite (fun _ => .ret ⟨rfl, rfl, rfl⟩) fun hne => absurd rfl hne

/-- A message on the connection of its sender goes to its handler, and the connection stays up unless something is
refused. -/
theorem returns_handleRpc {rpc : Proto.RaftRpc} {Q : Unit → List Event → RaftNode → Prop}
    (hother : toInt32 rpc.senderId ≠ s.serverId)
    (hbound : s.connectionForPeer (toInt32 rpc.senderId) = some connection)
    (h : Prog.Ends (NodeM.dispatch connection rpc) Q (fun es' _ => ¬ Smooth es') es s) :
    Prog.Returns (NodeM.handleRpc connection rpc) (fun x es' s' => Smooth es' → Q x es' s') es s := by
  refine .attempt (.bind ((ends_registerSender hother hbound).post ?_))
  rintro _ _ _ ⟨rfl, rfl, rfl⟩
  refine .when (fun _ => h.weaken (fun _ _ _ hQ _ => hQ) fun _ _ hrough _ => .modify fun hsmooth => absurd hsmooth hrough)
    fun hno => absurd rfl hno

end Nukv
