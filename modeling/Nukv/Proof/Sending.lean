import Nukv.Proof.Trace

/-!
# The functions of the loop as sequences of small steps: replication, elections, reads
-/

namespace Nukv

open Base

variable [Protobuf]

section Replication

variable {action : LoopAction} {w : List Int} {r : Option PendingReadIndex} {q : Option CommitPoll}
  {l l' : Local} {s : RaftNode} {peer : Int} {connection : Conn} {E : Local → RaftNode → Prop}

/-- An RPC that expects an answer: the frame, then the bookkeeping of its id and its timeout. A frame that is
too large is not sent, its id is used up. -/
theorem follows_sendReplication {payload : Proto.Payload} {snapshot : Bool}
    {Q : Unit → Local → RaftNode → Prop} (hconnected : connection ∈ s.connected) (hid : 0 < s.nextRpcId)
    (hstep : Micro action l (some (.send connection ⟨s.nextRpcId, toUint64 s.serverId, payload⟩
      { s with nextRpcId := s.nextRpcId + 1 })) l')
    (hsent : ∀ timeouts, Q () l'
      { s with
        rpcRequestId := Function.update s.rpcRequestId peer s.nextRpcId
        nextRpcId := s.nextRpcId + 1
        rpcTimeouts := timeouts })
    (hlarge : kMaxFrameSize < Protobuf.rpcByteSize ⟨s.nextRpcId, toUint64 s.serverId, payload⟩ →
      ∃ l', Micro action l (some (.refuseFrame connection ⟨s.nextRpcId, toUint64 s.serverId, payload⟩
        { s with nextRpcId := s.nextRpcId + 1 })) l' ∧ E l' { s with nextRpcId := s.nextRpcId + 1 }) :
    Prog.Follows (Micro action) (NodeM.sendReplication peer connection payload snapshot) Q E l s := by
  refine .bind (.get (.ite (fun _ => ?_) fun hno => absurd (by simpa using hconnected) hno))
  refine .bind (.when (fun _ => .modify ?_) fun hne => absurd rfl hne)
  refine .bind (.ite (fun hsize => ?_) fun _ => .emitState hstep (.ret ?_))
  · obtain ⟨l'', hrefuse, hE⟩ := hlarge hsize
    exact .bind (.emitState hrefuse (.throw hE))
  · exact .ite (fun hzero => absurd hzero (Nat.pos_iff_ne_zero.mp hid)) fun _ => .modify (hsent _)

/-- A chunk always fits into a frame. -/
theorem rpcByteSize_chunk {request : Proto.InstallSnapshotRequest} (h : s.IsChunk request)
    (id sender : Nat) : ¬ kMaxFrameSize < Protobuf.rpcByteSize ⟨id, sender, .installSnapshot request⟩ := by
  obtain ⟨offset, -, rfl⟩ := h
  refine Nat.not_lt.mpr ((Protobuf.rpcByteSize_le _).trans ?_)
  simp only [Proto.Payload.contentSize, List.length_take, List.length_drop]
  unfold kMaxFrameSize kSnapshotChunkSize
  omega

omit [Protobuf] in
theorem isChunk_snapshotRequest (s : RaftNode) (peer : Int) : s.IsChunk (NodeM.snapshotRequest s peer) := by
  unfold NodeM.snapshotRequest
  refine ⟨_, ?_, rfl⟩
  split <;> omega

/-- `SendSnapshot` when it sends: which step this is depends on the caller. -/
theorem follows_sendSnapshot {Q : Unit → Local → RaftNode → Prop} (hcalm : s.Calm) (hrole : s.role = .leader)
    (hidle : s.rpcInflight peer = false) (hsnapshot : s.snapshotIndex ≠ 0)
    (hpeer : s.connectionForPeer peer = some connection) (hconnected : connection ∈ s.connected)
    (hknown : s.nextIndex.lookup peer ≠ none)
    (hstep : ∀ request t, s.IsChunk request → t.toLogState = s.toLogState → Micro action l
      (some (.send connection ⟨s.nextRpcId, toUint64 s.serverId, .installSnapshot request⟩ t)) l')
    (h : ∀ s', s'.Calm → s'.core = s.core.awaiting peer → Q () l' s') :
    Prog.Follows (Micro action) (NodeM.sendSnapshot peer) Q E l s := by
  refine .get (.ite (fun hno => ?_) fun _ => ?_)
  · rcases hno with hno | hno | hno
    · exact absurd hrole hno
    · exact absurd (hidle.symm.trans hno) (by simp)
    · exact absurd hno hsnapshot
  · rw [hpeer]
    refine .ite (fun _ => ?_) fun hno => absurd (by simpa using hconnected) hno
    have hchunk := isChunk_snapshotRequest s peer
    exact .bind (.modify (follows_sendReplication hconnected hcalm.1.2.1 (hstep _ _ hchunk rfl)
      (fun timeouts => h _ (hcalm.awaits hknown _ _ _ _ _) rfl)
      fun hlarge => absurd hlarge (rpcByteSize_chunk hchunk _ _)))

/-- `SendSnapshot` does nothing without a snapshot or without a connection. -/
theorem follows_sendSnapshot_skipped {Q : Unit → Local → RaftNode → Prop}
    (hskip : s.snapshotIndex = 0 ∨ ∀ c, s.connectionForPeer peer = some c → c ∉ s.connected) (h : Q () l s) :
    Prog.Follows (Micro action) (NodeM.sendSnapshot peer) Q E l s := by
  refine .get (.ite (fun _ => .ret h) fun hgo => ?_)
  cases hpeer : s.connectionForPeer peer with
  | none => exact .ret h
  | some c =>
    refine .ite (fun hmem => ?_) fun _ => .ret h
    rcases hskip with hzero | hskip
    · exact absurd (.inr (.inr hzero)) hgo
    · exact absurd (by simpa using hmem) (hskip c hpeer)

omit [Protobuf] in
theorem lookup_ne_none_of_lt {peer : Int} {n : Nat} (h : n < s.nextIndexOf peer) :
    s.nextIndex.lookup peer ≠ none := by
  intro hnone
  unfold RaftNode.nextIndexOf at h
  rw [hnone] at h
  exact absurd h (Nat.not_lt_zero _)

/-- `SendAppend` to a peer whose next entry is retained: skipped, sent, or too large for a frame. -/
theorem follows_sendAppend_retained {Q : Unit → Local → RaftNode → Prop} (hcalm : s.Calm)
    (hrole : s.role = .leader) (hidle : s.rpcInflight peer = false)
    (hnext : s.snapshotIndex < s.nextIndexOf peer)
    (hskip : Q () ⟨s.core, false, w.erase peer, r, q⟩ s)
    (hsent : ∀ l' s', Stands false (w.erase peer) r q (fun s' => s'.core = s.core.awaiting peer) l' s' →
      Q () l' s')
    (hfail : (NodeM.appendRequest s peer).entries ≠ [] → ∀ l' s',
      Stands false w r q (fun _ => True) l' s' → E l' s') :
    Prog.Follows (Micro action) (NodeM.sendAppend peer) Q E ⟨s.core, false, w, r, q⟩ s := by
  refine .get (.ite (fun hno => ?_) fun _ => ?_)
  · rcases hno with hno | hno
    · exact absurd hrole hno
    · exact absurd (hidle.symm.trans hno) (by simp)
  cases hpeer : s.connectionForPeer peer with
  | none =>
    refine .step (.peer (.skip peer fun c hc => ?_)) (.ret hskip)
    exact absurd (hpeer.symm.trans hc) (by simp)
  | some connection =>
    refine .ite (fun hconnected => ?_) fun hno => ?_
    · have hmem : connection ∈ s.connected := by simpa using hconnected
      have htouch := lookup_ne_none_of_lt hnext
      refine .bind (.modify ?_)
      rw [if_neg htouch, if_neg (Nat.not_le.mpr hnext)]
      refine .bind (.modify (follows_sendReplication hmem hcalm.1.2.1
        (.peer (.sendAppend peer connection _ hrole hidle hpeer hmem hnext rfl))
        (fun timeouts => hsent _ _ ⟨rfl, hcalm.awaits htouch _ _ _ _ _, rfl⟩) fun hlarge => ?_))
      have hentries : (NodeM.appendRequest s peer).entries ≠ [] := by
        intro hempty
        refine rpcByteSize_small ?_ hlarge
        simp [Proto.Payload.contentSize, hempty]
      exact ⟨_, .peer (.oversize peer connection _ _ hrole hidle hpeer hmem rfl hentries hlarge),
        hfail hentries _ _ ⟨rfl, hcalm.numbered (Nat.le_succ _), trivial⟩⟩
    · refine .step (.peer (.skip peer fun c hc => ?_)) (.ret hskip)
      obtain rfl := Option.some.inj (hpeer.symm.trans hc)
      exact fun hmem => hno (List.elem_iff.mpr hmem)

theorem follows_sendAppend (h : Idle r q l s)
    (haddress : s.nextIndex.lookup peer = none → Addresses action s peer) :
    Prog.Follows (Micro action) (NodeM.sendAppend peer) (fun _ => Idle r q) Failed l s := by
  by_cases hready : s.role = .leader ∧ s.rpcInflight peer = false ∧ s.snapshotIndex < s.nextIndexOf peer
  · obtain ⟨hrole, hidle, hnext⟩ := hready
    obtain ⟨rfl, hcalm, -⟩ := h
    exact follows_sendAppend_retained hcalm hrole hidle hnext ⟨rfl, hcalm, trivial⟩
      (fun _ _ hs' => hs'.idle) fun _ _ _ hs' => hs'.failed rfl
  refine .get (.ite (fun _ => .ret h) fun hgo => ?_)
  rw [not_or, not_not, Bool.not_eq_true] at hgo
  obtain ⟨hrole, hidle⟩ := hgo
  have hnext : s.nextIndexOf peer ≤ s.snapshotIndex := by
    by_contra hlt
    exact hready ⟨hrole, hidle, by omega⟩
  cases hpeer : s.connectionForPeer peer with
  | none => exact .ret h
  | some connection =>
    refine .ite (fun hconnected => ?_) fun _ => .ret h
    have hmem : connection ∈ s.connected := by simpa using hconnected
    obtain ⟨rfl, hcalm, -⟩ := h
    -- the entry `next_index_[peer]` exists from here on
    have hsend : ∀ t : RaftNode, t.Calm → t.role = .leader → t.rpcInflight peer = false →
        t.connectionForPeer peer = some connection → connection ∈ t.connected →
        t.nextIndexOf peer ≤ t.snapshotIndex → t.nextIndex.lookup peer ≠ none →
        Prog.Follows (Micro action) (NodeM.sendSnapshot peer) (fun _ => Idle r q) Failed
          ⟨t.core, false, [], r, q⟩ t := by
      intro t hcalm hrole hidle hpeer hmem hnext hknown
      by_cases hzero : t.snapshotIndex = 0
      · exact follows_sendSnapshot_skipped (.inl hzero) ⟨rfl, hcalm, trivial⟩
      · refine follows_sendSnapshot hcalm hrole hidle hzero hpeer hmem hknown (fun request u hchunk hu =>
          .peer (.sendSnapshot peer connection request u hrole hidle hpeer hmem hnext hknown hchunk hu)) ?_
        intro s' hcalm' hs'
        exact ⟨by rw [hs']; rfl, hcalm', trivial⟩
    refine .bind (.modify ?_)
    rw [if_pos hnext]
    by_cases htouch : s.nextIndex.lookup peer = none
    · rw [if_pos htouch]
      refine .step (.peer (.touch peer htouch (haddress htouch) (fun hnone => nomatch hnone.symm.trans hpeer) hrole))
        (hsend { s with nextIndex := s.nextIndex.insert peer 0 } (hcalm.insert peer 0) hrole hidle hpeer hmem ?_ ?_)
      · simp [RaftNode.nextIndexOf]
      · simp
    · rw [if_neg htouch]
      exact hsend s hcalm hrole hidle hpeer hmem hnext htouch

/-- The identity of a node does not change along its steps. -/
theorem Follows.identity {α : Type} {m : NodeM α} {Q : α → Local → RaftNode → Prop}
    (h : Prog.Follows (Micro action) m Q E l s) :
    Prog.Follows (Micro action) m (fun x l' s' => Q x l' s' ∧ l'.node.toIdentity = l.node.toIdentity) E l s :=
  h.invariant (fun _ _ _ hstep hsame => hstep.identity.trans hsame) rfl

theorem follows_sendAppends (h : Idle r q l s) :
    Prog.Follows (Micro action) (Prog.forEach s.otherPeers NodeM.sendAppend) (fun _ => Idle r q) Failed l s := by
  refine Prog.Follows.post (.forEach (I := fun peers l' s' => Idle r q l' s' ∧ l'.node.toIdentity = l.node.toIdentity ∧
    ∀ peer ∈ peers, peer ∈ s.otherPeers) ⟨h, rfl, fun _ hp => hp⟩ ?_) fun _ _ _ hs => hs.1
  rintro peer rest l' s' ⟨hs', hsame, hmem⟩
  refine Prog.Follows.post (Follows.identity (follows_sendAppend hs' fun _ => .inl ?_)) fun _ l'' s'' hs'' =>
    ⟨hs''.1, hs''.2.trans hsame, fun p hp => hmem p (List.mem_cons_of_mem _ hp)⟩
  have hidentity : s'.toIdentity = s.toIdentity := by
    have := hs'.1 ▸ h.1 ▸ hsame
    exact this
  unfold RaftNode.otherPeers
  rw [congrArg Identity.peers hidentity, congrArg Identity.serverId hidentity]
  exact hmem peer List.mem_cons_self

theorem follows_sendHeartbeats (h : Idle r q l s) :
    Prog.Follows (Micro action) NodeM.sendHeartbeats (fun _ => Idle r q) Failed l s := by
  refine .get (.ite (fun _ => .ret h) fun _ => .bind ((follows_sendAppends h).post ?_))
  rintro _ l s ⟨rfl, hcalm, -⟩
  exact .modify ⟨rfl, hcalm, trivial⟩

end Replication

/-! ### Elections -/

section Elections

variable {action : LoopAction} {r : Option PendingReadIndex} {q : Option CommitPoll} {l : Local}
  {s : RaftNode} {E : Local → RaftNode → Prop}

/-- The state of a new leader whose first messages to `waiting` are still to be sent. -/
structure Opening (waiting : List Int) (s : RaftNode) : Prop where
  role : s.role = .leader
  idle : ∀ peer ∈ waiting, s.rpcInflight peer = false
  next : ∀ peer ∈ waiting, s.nextIndexOf peer = s.lastIndex + 1
  nodup : waiting.Nodup

omit [Protobuf] in
/-- A new leader's first message to a peer carries no entries. -/
theorem appendRequest_entries_nil {peer : Int} (h : s.nextIndexOf peer = s.lastIndex + 1) :
    (NodeM.appendRequest s peer).entries = [] := by
  have hdrop : s.log.drop (max 1 (min (s.nextIndexOf peer) (s.lastIndex + 1)) - s.snapshotIndex - 1) = [] := by
    rw [h, List.drop_eq_nil_iff]
    unfold RaftNode.lastIndex
    omega
  simp only [NodeM.appendRequest, hdrop, List.take_nil, List.mapIdx_nil]

omit [Protobuf] in
theorem Opening.sent {peer : Int} {rest : List Int} {s' : RaftNode} (h : Opening (peer :: rest) s)
    (hs' : s'.core = s.core.awaiting peer) : Opening rest s' := by
  have hinflight : s'.rpcInflight = Function.update s.rpcInflight peer true :=
    congrArg (fun t => t.rpcInflight) hs'
  have hnext : s'.nextIndex = s.nextIndex := congrArg (fun t => t.nextIndex) hs'
  have hlast : s'.core.lastIndex = (s.core.awaiting peer).lastIndex := congrArg RaftNode.lastIndex hs'
  have hnodup := List.nodup_cons.mp h.nodup
  refine ⟨(congrArg (fun t => t.role) hs').trans h.role, fun p hp => ?_, fun p hp => ?_, hnodup.2⟩
  · rw [hinflight, Function.update_of_ne (fun heq : p = peer => hnodup.1 (heq ▸ hp))]
    exact h.idle p (List.mem_cons_of_mem _ hp)
  · unfold RaftNode.nextIndexOf
    rw [hnext, show s'.lastIndex = s.lastIndex from hlast]
    exact h.next p (List.mem_cons_of_mem _ hp)

theorem follows_openingHeartbeats (waiting : List Int)
    (h : Stands false waiting r q (Opening waiting) l s) :
    Prog.Follows (Micro action) (Prog.forEach waiting NodeM.sendAppend) (fun _ => Idle r q) E l s := by
  refine Prog.Follows.post (.forEach (I := fun waiting => Stands false waiting r q (Opening waiting)) h ?_)
    fun _ _ _ hs => hs.idle
  rintro peer rest l s ⟨rfl, hcalm, hopen⟩
  have hnext := hopen.next peer List.mem_cons_self
  refine follows_sendAppend_retained hcalm hopen.role (hopen.idle peer List.mem_cons_self) ?_ ?_ ?_
    fun hentries => absurd (appendRequest_entries_nil hnext) hentries
  · rw [hnext]
    unfold RaftNode.lastIndex
    omega
  · rw [List.erase_cons_head]
    exact ⟨rfl, hcalm, hopen.role, fun p hp => hopen.idle p (List.mem_cons_of_mem _ hp),
      fun p hp => hopen.next p (List.mem_cons_of_mem _ hp), (List.nodup_cons.mp hopen.nodup).2⟩
  · rw [List.erase_cons_head]
    exact fun l' s' hs' => hs'.imp hopen.sent

/-- `BecomeLeader` of a candidate with a quorum of votes. -/
theorem follows_becomeLeader (hcalm : s.Calm) (hrole : s.role = .candidate)
    (hquorum : s.quorum ≤ s.grantedVotes.card) :
    Prog.Follows (Micro action) NodeM.becomeLeader (fun _ => Idle r q) E ⟨s.core, false, [], r, q⟩ s := by
  have hopen : Opening s.otherPeers (NodeM.leaderState s) := by
    refine ⟨rfl, fun peer hpeer => if_pos hpeer, fun peer hpeer => ?_, hcalm.1.2.2.1.filter _⟩
    unfold RaftNode.nextIndexOf NodeM.leaderState
    rw [lookup_foldl_insert, if_pos hpeer]
    rfl
  have hcalm' : (NodeM.leaderState s).Calm := hcalm.indexed s.otherPeers (s.lastIndex + 1)
  refine .bind (.modify (.bind (.emitState (.role (.elect _ hrole hquorum rfl rfl)) ?_)))
  refine .get (.ite (fun hno => ?_) fun _ => .bind ((follows_openingHeartbeats s.otherPeers
    (s := NodeM.leaderState s) ⟨rfl, hcalm', hopen⟩).post ?_))
  · rcases hno with hno | hno
    · exact absurd rfl hno
    · exact absurd (hcalm.stopping.symm.trans hno) (by simp)
  · rintro _ l s ⟨rfl, hcalm, -⟩
    exact .modify ⟨rfl, hcalm, trivial⟩

theorem follows_sendRequestVoteToPeer {peer : Int} {Φ : RaftNode → Prop} (h : Stands false [] r q Φ l s)
    (hrole : s.role = .candidate) (hmember : peer ∈ s.otherPeers)
    (hΦ : ∀ next ids, Φ s → Φ { s with nextRpcId := next, voteRequestId := ids }) :
    Prog.Follows (Micro action) (NodeM.sendRequestVoteToPeer peer) (fun _ => Stands false [] r q Φ)
      E l s := by
  obtain ⟨rfl, hcalm, hs⟩ := h
  have hvotes : ∀ id p, Function.update s.voteRequestId peer id p ≠ 0 → p ∈ s.otherPeers := by
    intro id p hp
    by_cases heq : p = peer
    · rwa [heq]
    · rw [Function.update_of_ne heq] at hp
      exact hcalm.votes hp
  refine .get (.bind (.get (follows_sendRpc (fun _ _ => rpcByteSize_small rfl) (fun _ => ?_) ?_)))
  · exact .modify ⟨rfl, hcalm.sent rfl le_rfl rfl rfl rfl (hvotes 0) fun _ => hcalm.answers, hΦ _ _ hs⟩
  · rintro c id next hpeer hmem (⟨hne, -, -⟩ | ⟨-, rfl, rfl⟩)
    · exact absurd rfl hne
    · exact ⟨_, .send (.requestVote peer c _ hrole hpeer hmem rfl),
        .modify ⟨rfl, hcalm.sent rfl (Nat.le_succ _) rfl rfl rfl (hvotes _) fun _ => hcalm.answers, hΦ _ _ hs⟩⟩

/-- A candidate whose counter of votes is up to date. -/
def Counting (s : RaftNode) : Prop := s.role = .candidate ∧ s.votesReceived = s.grantedVotes.card

theorem follows_becomeCandidate (hcalm : s.Calm) (hrole : s.role ≠ .leader) :
    Prog.Follows (Micro .electionTimeout) NodeM.becomeCandidate (fun _ => Idle none q) E
      ⟨s.core, false, [], none, q⟩ s := by
  refine .bind (.modify (.bind (follows_persistState hcalm.faults (.role (.campaign _ rfl rfl hrole rfl))
    (.bind (.modify (.bind (.get ?_)))))))
  refine Prog.Follows.post (.forEach (I := fun peers l' s' => (∀ peer ∈ peers, peer ∈ s.otherPeers) ∧
    Stands false [] none q (fun s' => Counting s' ∧ s'.toIdentity = s.toIdentity) l' s') ?_ ?_) ?_
  · exact ⟨fun _ hp => hp, rfl, ⟨⟨rfl, hcalm.1.2⟩, hcalm.2⟩, ⟨rfl, (Finset.card_singleton _).symm⟩, rfl⟩
  · rintro peer rest l' s' ⟨hmem, hs'⟩
    have hpeer : peer ∈ s'.otherPeers := by
      unfold RaftNode.otherPeers
      rw [congrArg Identity.peers hs'.2.2.2, congrArg Identity.serverId hs'.2.2.2]
      exact hmem peer List.mem_cons_self
    exact (follows_sendRequestVoteToPeer hs' hs'.2.2.1.1 hpeer fun _ _ hkept => hkept).post fun _ _ _ hs'' =>
      ⟨fun p hp => hmem p (List.mem_cons_of_mem _ hp), hs''⟩
  · rintro _ l s ⟨-, rfl, hcalm, ⟨hrole, hvotes⟩, -⟩
    refine .get (.when (fun hquorum => ?_) fun _ => ⟨rfl, hcalm, trivial⟩)
    exact follows_becomeLeader hcalm hrole (hvotes ▸ hquorum)

end Elections

/-! ### Commitment -/

section Commitment

variable {action : LoopAction} {r : Option PendingReadIndex} {q : Option CommitPoll} {l : Local}
  {s : RaftNode}

theorem follows_tryAdvanceCommit (h : Idle r q l s) :
    Prog.Follows (Micro action) NodeM.tryAdvanceCommit (fun _ => Idle r q) Failed l s := by
  refine .get (.ite (fun hrole => ?_) fun _ => .ret h)
  cases hindex : NodeM.commitCandidate s with
  | none => exact .ret h
  | some index =>
    obtain ⟨rfl, hcalm, -⟩ := h
    refine .bind (.modify (.bind (.emitState (.log (.advance index _ hrole hindex rfl rfl)) ?_)))
    exact (follows_applyCommitted (s := { s with commitIndex := index }) hcalm).post fun _ _ _ hs => hs.idle

/-- A peer that has a next index keeps it. -/
theorem follows_tryAdvanceCommit_kept {peer : Int} (h : Idle r q l s) (hpeer : s.nextIndex.lookup peer ≠ none) :
    Prog.Follows (Micro action) NodeM.tryAdvanceCommit
      (fun _ l' s' => Idle r q l' s' ∧ s'.nextIndex.lookup peer ≠ none) Failed l s := by
  have hnode : l.node.nextIndex = s.nextIndex := by rw [h.1]; rfl
  refine (Prog.Follows.invariant (I := fun l => l.node.nextIndex.lookup peer ≠ none) (follows_tryAdvanceCommit h)
    (fun _ _ _ hstep hknown => hstep.nextIndex_kept hknown) (hnode ▸ hpeer)).post ?_
  rintro _ l' s' ⟨hs', hknown⟩
  obtain ⟨rfl, -⟩ := id hs'
  exact ⟨hs', hknown⟩

end Commitment

/-! ### Reads -/

section Reads

variable {action : LoopAction} {r : Option PendingReadIndex} {q : Option CommitPoll} {l : Local}
  {s : RaftNode} {E : Local → RaftNode → Prop}

theorem follows_sendReadIndexProbes (h : Idle r q l s) :
    Prog.Follows (Micro action) NodeM.sendReadIndexProbes (fun _ => Idle r q) E l s := by
  refine .get ?_
  cases hactive : s.activeReadIndex with
  | none => exact .ret h
  | some active =>
    refine .ite (fun _ => .ret h) fun hgo => ?_
    rw [not_or, not_not, not_not] at hgo
    obtain ⟨rfl, hcalm, -⟩ := h
    refine Prog.Follows.post (.forEach (I := fun _ => Stands false [] r q fun s' => s'.role = .leader ∧
      s'.activeReadIndex = some active ∧ s'.currentTerm = s.currentTerm ∧ s'.serverId = s.serverId)
      ⟨rfl, hcalm, hgo.1, hactive, rfl, rfl⟩ ?_) fun _ _ _ hs => hs.idle
    rintro peer rest l s' ⟨rfl, hcalm', hrole, hactive', hterm, hserver⟩
    refine .bind (.get (follows_sendRpc (fun _ _ => rpcByteSize_small rfl) (fun _ => ?_) ?_))
    · exact .ret ⟨rfl, hcalm', hrole, hactive', hterm, hserver⟩
    · intro c id next hpeer hmem hid
      rw [← hterm, ← hserver]
      refine ⟨_, .send (.readIndex peer c active id next _ hrole hactive' (hgo.2.trans hterm.symm) hpeer hmem hid rfl),
        .ret ⟨rfl, hcalm'.numbered ?_, hrole, hactive', rfl, rfl⟩⟩
      rcases hid with ⟨-, -, rfl⟩ | ⟨-, -, rfl⟩
      · exact Nat.le_refl _
      · exact Nat.le_succ _

/-- The promise of a read that reached its quorum. -/
theorem follows_answerRead {active : PendingReadIndex} (h : Idle (some active) q l s) :
    Prog.Follows (Micro action) (NodeM.answerRead active true) (fun _ => Idle none q) Failed l s := by
  obtain ⟨rfl, hcalm, -⟩ := h
  refine .get (.ite (fun hleads => ?_) fun hno => ?_)
  · refine .step (.apply .enter) (.bind ((follows_applyCommitted hcalm).post ?_))
    rintro _ l s' ⟨rfl, hcalm', hkept, -⟩
    refine .get ?_
    by_cases hread : active.readIndex ≤ s'.lastApplied
    · refine .emitState ?_ ⟨rfl, hcalm', trivial⟩
      rw [decide_eq_true hread]
      exact .read (.answerTrue active _ rfl (fun _ _ => hread) rfl)
    · refine .emitState ?_ ⟨rfl, hcalm', trivial⟩
      rw [decide_eq_false hread]
      exact .read (.answerFalse active.result _)
  · exact .emitState (.read (.answerTrue active _ rfl (fun hrole hterm => absurd ⟨rfl, hrole, hterm⟩ hno) rfl))
      ⟨rfl, hcalm, trivial⟩

theorem follows_finishReadIndexThen {startNext : NodeM Unit} {success : Bool} (h : Idle none q l s)
    (hquorum : success = true → s.role = .leader ∧ ∀ active, s.activeReadIndex = some active →
      s.quorum ≤ active.acknowledgements.card)
    (hnext : ∀ l s, Idle none q l s →
      Prog.Follows (Micro action) startNext (fun _ => Idle none q) Failed l s) :
    Prog.Follows (Micro action) (NodeM.finishReadIndexThen startNext success) (fun _ => Idle none q)
      Failed l s := by
  refine .get ?_
  cases hactive : s.activeReadIndex with
  | none => exact .ret h
  | some active =>
    obtain ⟨rfl, hcalm, -⟩ := h
    refine .bind (.modify (.bind ?_))
    cases success with
    | true =>
      obtain ⟨hrole, hcard⟩ := hquorum rfl
      refine .step (.read (.finish active hactive hrole (hcard active hactive))) ?_
      exact Prog.Follows.post (follows_answerRead ⟨rfl, hcalm, trivial⟩) fun _ l s hs => hnext l s hs
    | false =>
      refine .step (.read (.giveUp s.pendingReadIndexes (.refl _))) (.get (.ite ?_ fun _ => ?_))
      · exact fun hno => absurd hno.1 (by simp)
      · exact .emitState (.read (.answerFalse active.result _)) (hnext _ _ ⟨rfl, hcalm, trivial⟩)

theorem follows_startNextReadIndexBounded (fuel : Nat) (h : Idle none q l s) :
    Prog.Follows (Micro action) (NodeM.startNextReadIndexBounded fuel) (fun _ => Idle none q) Failed l s := by
  induction fuel generalizing l s with
  | zero => exact .ret h
  | succ fuel ih =>
    refine .get (.ite (fun _ => .ret h) fun hready => .ite (fun _ => ?_) fun hleads => ?_)
    · obtain ⟨rfl, hcalm, -⟩ := h
      refine .step (.read (.giveUp [] (List.nil_sublist _))) ((follows_failPendingReadIndexes rfl).post ?_)
      rintro _ l s' ⟨rfl, rfl⟩
      exact ⟨rfl, hcalm, trivial⟩
    · rw [not_or, not_not] at hleads
      rw [not_or, Bool.not_eq_true, Option.isSome_eq_false_iff, Option.isNone_iff_eq_none] at hready
      obtain ⟨rfl, hcalm, -⟩ := h
      cases hpending : s.pendingReadIndexes with
      | nil => exact absurd hpending hready.2
      | cons read rest =>
        have hactivate : NodeM.activateNext s = s.activated read rest := by
          unfold NodeM.activateNext
          rw [hpending]
          rfl
        refine .bind (.modify ?_)
        rw [hactivate]
        refine .bind (.emitState (.read (.activate read rest _ rfl hleads.1 hready.1 hpending rfl)) ?_)
        refine .ite (fun hquorum => ?_) fun _ => .bind ?_
        · refine follows_finishReadIndexThen ⟨rfl, hcalm, trivial⟩ (fun _ => ⟨hleads.1, ?_⟩) fun l s hs => ih hs
          rintro active hactive
          obtain rfl := Option.some.inj hactive
          exact hquorum
        · refine Prog.Follows.post (follows_sendReadIndexProbes ⟨rfl, hcalm, trivial⟩) ?_
          rintro _ l s ⟨rfl, hcalm, -⟩
          exact .modify ⟨rfl, hcalm, trivial⟩

theorem follows_startNextReadIndex (h : Idle none q l s) :
    Prog.Follows (Micro action) NodeM.startNextReadIndex (fun _ => Idle none q) Failed l s :=
  .get (follows_startNextReadIndexBounded _ h)

theorem follows_finishReadIndex {success : Bool} (h : Idle none q l s)
    (hquorum : success = true → s.role = .leader ∧ ∀ active, s.activeReadIndex = some active →
      s.quorum ≤ active.acknowledgements.card) :
    Prog.Follows (Micro action) (NodeM.finishReadIndex success) (fun _ => Idle none q) Failed l s :=
  follows_finishReadIndexThen h hquorum fun _ _ hs => follows_startNextReadIndex hs

end Reads

end Nukv
