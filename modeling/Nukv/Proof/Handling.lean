import Nukv.Proof.Sending

/-!
# The functions of the loop as sequences of small steps: handlers, timers and client calls

A handler takes any frame, from whoever has sent it.
-/

namespace Nukv

open Base

variable [Protobuf]

section Handlers

variable {connection : Conn} {rpc : Proto.RaftRpc} {l : Local} {s : RaftNode}

/-- The notes of an exception are dropped with it. -/
theorem Failed.idle {action : LoopAction} {α : Type} {m : NodeM α} {Q : α → Local → RaftNode → Prop}
    {E : Local → RaftNode → Prop} (h : Failed l s)
    (hm : Idle none none ⟨s.core, false, [], none, none⟩ s →
      Prog.Follows (Micro action) m Q E ⟨s.core, false, [], none, none⟩ s) :
    Prog.Follows (Micro action) m Q E l s := by
  obtain ⟨node, applying, waiting, answering, pushed⟩ := l
  obtain ⟨rfl, rfl, rfl, hcalm⟩ := h
  exact .step (.read .clear) (.step (.submit .clear) (hm ⟨rfl, hcalm, trivial⟩))

/-- Answering a request, the last thing a handler does. -/
theorem follows_respond {action : LoopAction} {payload : Proto.Payload} {requestId : Nat}
    {E : Local → RaftNode → Prop} (hcalm : s.Calm) (hsize : payload.contentSize = 0)
    (hstep : ∀ id next t, connection ∈ s.connected → IdFor requestId s.nextRpcId id next →
      t.toLogState = s.toLogState → Micro action ⟨s.core, false, [], none, none⟩
        (some (.send connection ⟨id, toUint64 s.serverId, payload⟩ t))
        ⟨({ s with nextRpcId := next } : RaftNode).core, false, [], none, none⟩) :
    Prog.Follows (Micro action) (do let _ ← NodeM.sendRpc (some connection) payload requestId)
      (fun _ => Idle none none) E ⟨s.core, false, [], none, none⟩ s := by
  refine .bind (follows_sendRpc (fun _ _ => rpcByteSize_small hsize) (fun _ => .ret ⟨rfl, hcalm, trivial⟩) ?_)
  intro c id next hc hmem hid
  obtain rfl := Option.some.inj hc
  refine ⟨_, hstep id next _ hmem hid rfl, .ret ⟨rfl, hcalm.numbered ?_, trivial⟩⟩
  rcases hid with ⟨-, -, rfl⟩ | ⟨-, -, rfl⟩
  · exact Nat.le_refl _
  · exact Nat.le_succ _

/-! ### Votes -/

/-- Saving a vote, for whatever number the candidate's id is converted to. -/
theorem follows_saveVote {action : LoopAction} {E : Local → RaftNode → Prop} (hcalm : s.Calm)
    (candidate : Int)
    (hstep : ∀ t : RaftNode, t.store = (s.core.voteSaved candidate).store →
      Micro action ⟨s.core, false, [], none, none⟩ (some (.write .persistState t))
        ⟨s.core.voteSaved candidate, false, [], none, none⟩) :
    Prog.Follows (Micro action)
      (do
        Prog.modify fun node => { node with votedFor := candidate }
        NodeM.persistState
        NodeM.resetElectionTimer)
      (fun _ => Stands false [] none none fun s' => s'.currentTerm = s.currentTerm ∧
        s'.serverId = s.serverId ∧ s'.votedFor = candidate)
      E ⟨s.core, false, [], none, none⟩ s :=
  .bind (.modify (.bind (follows_persistState hcalm.faults (hstep _ rfl)
    (.modify ⟨rfl, ⟨⟨rfl, hcalm.1.2⟩, hcalm.2⟩, rfl, rfl, rfl⟩))))

theorem follows_recordVote {request : Proto.RequestVoteRequest} {E : Local → RaftNode → Prop}
    (hcalm : s.Calm) (hrpc : rpc.payload = .requestVote request)
    (hgrant : NodeM.grantsVote s request = true) :
    Prog.Follows (Micro (.receive connection rpc)) (NodeM.recordVote request.candidateId)
      (fun _ => Stands false [] none none fun s' => s'.currentTerm = s.currentTerm ∧
        s'.serverId = s.serverId ∧ s'.votedFor = toInt64 request.candidateId)
      E ⟨s.core, false, [], none, none⟩ s :=
  follows_saveVote hcalm (toInt64 request.candidateId) fun t ht =>
    .role (.grant connection rpc request t rfl hrpc hgrant ht)

theorem follows_voteResponse {request : Proto.RequestVoteRequest} {granted : Bool}
    {E : Local → RaftNode → Prop} (hcalm : s.Calm) (hrpc : rpc.payload = .requestVote request)
    (hgranted : granted = true → request.term = s.currentTerm ∧ s.votedFor = toInt64 request.candidateId) :
    Prog.Follows (Micro (.receive connection rpc))
      (do let _ ← NodeM.sendRpc (some connection)
            (.requestVoteResponse ⟨s.currentTerm, granted, toUint64 s.serverId⟩) rpc.requestId)
      (fun _ => Idle none none) E ⟨s.core, false, [], none, none⟩ s :=
  follows_respond hcalm rfl fun id next t hmem hid ht =>
    .send (.voteResponse connection rpc request granted id next t rfl hrpc hgranted hmem hid ht)

theorem follows_handleRequestVote {request : Proto.RequestVoteRequest} (h : Idle none none l s)
    (hrpc : rpc.payload = .requestVote request) :
    Prog.Follows (Micro (.receive connection rpc))
      (NodeM.handleRequestVote connection request rpc.requestId) (fun _ => Idle none none) Failed l s := by
  have hrest : ∀ l s, Idle none none l s → Prog.Follows (Micro (.receive connection rpc))
      (do
        let node ← Prog.get
        let grant := NodeM.grantsVote node request
        Prog.when (grant = true) (NodeM.recordVote request.candidateId)
        let _ ← NodeM.sendRpc (some connection)
          (.requestVoteResponse ⟨node.currentTerm, grant, toUint64 node.serverId⟩) rpc.requestId)
      (fun _ => Idle none none) Failed l s := by
    rintro l s ⟨rfl, hcalm, -⟩
    refine .get (.bind (.when (fun hgrant => ?_) fun hdeny => ?_))
    · have hterm : request.term = s.currentTerm := by
        simp only [NodeM.grantsVote, Bool.and_eq_true, beq_iff_eq] at hgrant
        exact hgrant.1.1
      refine (follows_recordVote hcalm hrpc hgrant).post ?_
      rintro _ l s' ⟨rfl, hcalm', hcurrent, hserver, hvote⟩
      rw [← hcurrent, ← hserver]
      exact follows_voteResponse hcalm' hrpc fun _ => ⟨hterm.trans hcurrent.symm, hvote⟩
    · exact follows_voteResponse hcalm hrpc fun hgrant => absurd hgrant hdeny
  obtain ⟨rfl, hcalm, -⟩ := h
  refine .get (.bind (.when (fun _ => ?_) fun _ => hrest _ _ ⟨rfl, hcalm, trivial⟩))
  exact (follows_stepDown hcalm request.term).post fun _ l s hs => hrest l s hs.idle

theorem follows_handleRequestVoteResponse {response : Proto.RequestVoteResponse} (h : Idle none none l s)
    (hrpc : rpc.payload = .requestVoteResponse response) :
    Prog.Follows (Micro (.receive connection rpc))
      (NodeM.handleRequestVoteResponse connection response rpc.requestId) (fun _ => Idle none none)
      Failed l s := by
  obtain ⟨rfl, hcalm, -⟩ := h
  refine .get (.ite (fun _ => ?_) fun _ => .ite (fun _ => .ret ⟨rfl, hcalm, trivial⟩) fun hcount => ?_)
  · exact (follows_stepDown hcalm response.term).post fun _ l s hs => hs.idle
  · simp only [not_or, not_not, Bool.not_eq_false] at hcount
    obtain ⟨hrole, hterm, hid, hasked, hpeer, hgranted, -⟩ := hcount
    have hmember : toInt32 response.responderId ∈ s.otherPeers := hcalm.votes (hasked ▸ hid)
    refine .bind (.modify (.step (.role (.countVote connection rpc response rfl hrpc hrole hterm hpeer hmember
      hgranted))
      (.when (fun hquorum => ?_) fun _ => ⟨rfl, hcalm, trivial⟩)))
    exact follows_becomeLeader (s := { s with
      grantedVotes := insert (toInt32 response.responderId) s.grantedVotes
      votesReceived := _ }) hcalm hrole hquorum

/-! ### AppendEntries -/

/-- What `acceptEntries` leaves for the answer: the index it vouches for, or a reason to refuse. -/
def Answered (request : Proto.AppendEntriesRequest) (accepted : Option Nat) (s : RaftNode) : Prop :=
  match accepted with
  | some index => s.role = .follower ∧ s.Accepts request index
  | none => s.Rejects request

theorem follows_acceptEntries {request : Proto.AppendEntriesRequest}
    (h : Stands false [] none none (fun s => s.role = .follower ∧ s.currentTerm = request.term) l s)
    (hrpc : rpc.payload = .appendEntries request) :
    Prog.Follows (Micro (.receive connection rpc)) (NodeM.acceptEntries request)
      (fun accepted => Stands false [] none none (Answered request accepted)) Failed l s := by
  obtain ⟨rfl, hcalm, hrole, hterm⟩ := h
  refine .get (.ite (fun hmatches => ?_) fun hno => .ret ⟨rfl, hcalm, .inr ⟨hterm.symm, ?_⟩⟩)
  · have hprev := NodeM.prevMatches_iff.mp hmatches
    refine .bind (.modify (.ite (fun hsuccess => .bind ?_) fun hfailed => ?_))
    · have hresult := NodeM.mergeEntries_result (NodeM.consecutive_of_mergeEntries hsuccess) hprev.1 hprev.2.1
      obtain ⟨hindex, hreach, hlast⟩ := hresult.reaches hsuccess hprev.1 hprev.2.1 hprev.2.2
      have hstep : ∀ t : RaftNode, t.core = ({ s.core with
          log := (NodeM.mergeEntries s request.prevLogIndex request.entries).log } : RaftNode).logSaved →
          Micro (.receive connection rpc) ⟨s.core, false, [], none, none⟩
            (some (.write (.persistLog (some request)) t))
            ⟨s.core.merged (NodeM.mergeEntries s request.prevLogIndex request.entries).log
              request.leaderCommit, true, [], none, none⟩ := by
        have hcore : NodeM.mergeEntries s.core request.prevLogIndex request.entries =
            NodeM.mergeEntries s request.prevLogIndex request.entries := NodeM.mergeEntries_congr rfl rfl rfl rfl
        rw [← hcore] at hsuccess ⊢
        exact fun t ht => .log (.merge connection rpc request t rfl hrpc hrole hterm.symm hmatches hsuccess ht rfl)
      refine follows_persistLog hcalm.faults (hstep _ rfl) (.bind (.modify ?_))
      refine .bind ((follows_applyCommitted (s := s.merged
        (NodeM.mergeEntries s request.prevLogIndex request.entries).log request.leaderCommit)
        ⟨⟨rfl, hcalm.1.2⟩, hcalm.2⟩).post ?_)
      rintro _ l s' ⟨rfl, hcalm', hkept, -⟩
      refine .ret ⟨rfl, hcalm', (congrArg ElectionState.role hkept.election).trans hrole,
        hterm.symm.trans hkept.currentTerm.symm, hindex, ?_, ?_⟩
      · rw [hkept.lastIndex]
        exact hreach
      · have hafter := hkept.termAt (NodeM.mergeEntries s request.prevLogIndex request.entries).index
          (by rw [hindex]; exact hprev.1.trans (Nat.le_add_right _ _))
        exact hafter.imp id fun heq => heq.trans hlast
    · by_cases hconsecutive : Consecutive request.prevLogIndex request.entries
      case neg =>
        exact .step (.log (.spoil connection rpc request _ rfl hrpc hconsecutive))
          (.ret ⟨rfl, hcalm, .inr ⟨hterm.symm, .inr (.inr (.inr (.inl hconsecutive)))⟩⟩)
      -- nothing was changed before the refusal
      have hresult := NodeM.mergeEntries_result hconsecutive hprev.1 hprev.2.1
      generalize NodeM.mergeEntries s request.prevLogIndex request.entries = merge at hresult hfailed ⊢
      cases hresult with
      | present => exact absurd rfl hfailed
      | replaced => exact absurd rfl hfailed
      | refused entry last hmem hlow hhigh hcommit hne =>
        exact .ret ⟨rfl, hcalm, .inr ⟨hterm.symm, .inr (.inr (.inr (.inr ⟨entry, hmem, hlow, hhigh, hcommit, hne⟩)))⟩⟩
  · have hprev : s.snapshotIndex ≤ request.prevLogIndex → request.prevLogIndex ≤ s.lastIndex →
        s.termAt request.prevLogIndex ≠ request.prevLogTerm := by
      exact fun hlow hhigh heq => hno (NodeM.prevMatches_iff.mpr ⟨hlow, hhigh, heq⟩)
    rcases Nat.lt_or_ge request.prevLogIndex s.snapshotIndex with hlow | hlow
    · exact .inl hlow
    · rcases Nat.lt_or_ge s.lastIndex request.prevLogIndex with hhigh | hhigh
      · exact .inr (.inl hhigh)
      · exact .inr (.inr (.inl (hprev hlow hhigh)))

theorem follows_appendResponse {request : Proto.AppendEntriesRequest} (accepted : Option Nat)
    {E : Local → RaftNode → Prop} (hcalm : s.Calm) (hrpc : rpc.payload = .appendEntries request)
    (hanswered : Answered request accepted s) :
    Prog.Follows (Micro (.receive connection rpc))
      (do let _ ← NodeM.sendRpc (some connection) (.appendEntriesResponse
            ⟨s.currentTerm, accepted.isSome, accepted.getD s.lastIndex, toUint64 s.serverId⟩) rpc.requestId)
      (fun _ => Idle none none) E ⟨s.core, false, [], none, none⟩ s := by
  refine follows_respond hcalm rfl fun id next t hmem hid ht =>
    .send (.appendResponse connection rpc request _ _ id next t rfl hrpc ?_ ?_ hmem hid ht)
  · intro hsuccess
    cases accepted with
    | none => exact absurd hsuccess (by simp)
    | some index => exact hanswered
  · intro hfailed
    cases accepted with
    | none => exact hanswered
    | some index => exact absurd hfailed (by simp)

theorem follows_handleAppendEntries {request : Proto.AppendEntriesRequest} (h : Idle none none l s)
    (hrpc : rpc.payload = .appendEntries request) :
    Prog.Follows (Micro (.receive connection rpc))
      (NodeM.handleAppendEntries connection request rpc.requestId) (fun _ => Idle none none) Failed l s := by
  obtain ⟨rfl, hcalm, -⟩ := h
  refine .get (.ite (fun hold => ?_) fun hnew => .bind ?_)
  · exact follows_appendResponse none hcalm hrpc (.inl hold)
  · refine (follows_followLeader hcalm (Nat.not_lt.mp hnew)).post fun _ l s hs => .bind ?_
    refine (follows_acceptEntries hs hrpc).post ?_
    rintro accepted l s ⟨rfl, hcalm, hanswered⟩
    exact .get (follows_appendResponse accepted hcalm hrpc hanswered)

theorem follows_resetPeerRpcState {action : LoopAction} {peer : Int} {Q : Unit → Local → RaftNode → Prop}
    {E : Local → RaftNode → Prop} (hpeer : s.connectionForPeer peer = some connection)
    (h : Q () l (NodeM.resetPeers (fun p => p == peer) s)) :
    Prog.Follows (Micro action) (NodeM.resetPeerRpcState peer connection) Q E l s :=
  .get (.when (fun _ => .modify h) fun hne => absurd hpeer hne)

theorem follows_handleAppendEntriesResponse {response : Proto.AppendEntriesResponse}
    (h : Idle none none l s) (hrpc : rpc.payload = .appendEntriesResponse response) :
    Prog.Follows (Micro (.receive connection rpc))
      (NodeM.handleAppendEntriesResponse connection response rpc.requestId) (fun _ => Idle none none)
      Failed l s := by
  obtain ⟨rfl, hcalm, -⟩ := h
  refine .get (.ite (fun _ => ?_) fun _ => .ite (fun _ => .ret ⟨rfl, hcalm, trivial⟩) fun hours => ?_)
  · exact (follows_stepDown hcalm response.term).post fun _ l s hs => hs.idle
  · simp only [not_or, not_not] at hours
    obtain ⟨hrole, hterm, hid, hrequest, hpeer⟩ := hours
    have hknown : s.nextIndex.lookup (toInt32 response.responderId) ≠ none := hcalm.answers (hrequest ▸ hid)
    have hreset := hcalm.reset fun p => p == toInt32 response.responderId
    refine .bind (follows_resetPeerRpcState hpeer (.ite (fun hsuccess => ?_) fun hfailed => ?_))
    · refine .bind (.modify (.step (.peer (.ackAppend connection rpc response rfl hrpc hrole hterm hid hrequest
        hpeer hknown hsuccess)) (.bind ?_)))
      refine Prog.Follows.post (follows_tryAdvanceCommit_kept ⟨rfl, hreset.insert _ _, trivial⟩
        fun hnone => nomatch (AList.lookup_insert s.nextIndex).symm.trans hnone) fun _ l s hs => ?_
      exact .get (.when (fun _ => follows_sendAppend hs.1 fun hnone => absurd hnone hs.2) fun _ => hs.1)
    · have hfailed : response.success = false := by simpa using hfailed
      by_cases hback : s.snapshotIndex + 1 < s.nextIndexOf (toInt32 response.responderId)
      · refine .step (.peer (.backOff connection rpc response rfl hrpc hrole hterm hid hrequest hpeer
          hfailed hback)) (.bind (.modify ?_))
        rw [if_neg (lookup_ne_none_of_lt (s := NodeM.resetPeers _ s) hback)]
        refine .bind (.when (fun _ => .modify ?_) fun hno => absurd hback hno)
        exact follows_sendAppend ⟨rfl, hreset.insert _ _, trivial⟩ fun hnone => absurd hnone (by simp)
      · refine .step (.peer (.forget fun p => p == toInt32 response.responderId)) (.bind (.modify ?_))
        rw [if_neg (show (NodeM.resetPeers _ s).nextIndex.lookup _ ≠ none from hknown)]
        exact .bind (.when (fun hgo => absurd hgo hback) fun _ =>
          follows_sendAppend ⟨rfl, hreset, trivial⟩ fun hnone => absurd hnone hknown)

/-! ### InstallSnapshot -/

/-- What a successful answer to a snapshot chunk says is true. -/
def ChunkAnswered (request : Proto.InstallSnapshotRequest) (answer : Bool × Nat) (s : RaftNode) : Prop :=
  answer.1 = true → s.Receives request answer.2

/-- The transfer of the request is complete and belongs to a snapshot the node does not have. -/
structure Complete (request : Proto.InstallSnapshotRequest) (s : RaftNode) : Prop where
  role : s.role = .follower
  term : request.term = s.currentTerm
  index : request.lastIncludedIndex = s.incomingSnapshotIndex
  label : request.lastIncludedTerm = s.incomingSnapshotTerm
  newer : s.snapshotIndex < s.incomingSnapshotIndex
  active : s.incomingSnapshotActive = true
  done : request.done = true
  length : s.incomingSnapshotData.length = request.offset + request.data.length
  labelled : request.lastIncludedTerm ≠ 0

theorem follows_finishInstall {request : Proto.InstallSnapshotRequest} (hcalm : s.Calm)
    (hrpc : rpc.payload = .installSnapshot request) (h : Complete request s) :
    Prog.Follows (Micro (.receive connection rpc)) NodeM.finishInstall
      (fun answer => Stands false [] none none (ChunkAnswered request answer)) Failed
      ⟨s.core, false, [], none, none⟩ s := by
  refine .get (.bind (.ofExcept (fun snapshot hparse => ?_) fun x _ => .throw ⟨rfl, rfl, rfl, hcalm⟩))
  refine .bind (.get (.bind (follows_writeAtomically hcalm.faults (.log (.install connection rpc request snapshot
    _ rfl hrpc h.role h.term h.index h.label h.newer h.active h.done h.length hparse rfl
    (h.label ▸ h.labelled) rfl)) (.modify ?_))))
  refine .bind ((follows_applyCommitted (s := s.installed snapshot) ⟨⟨rfl, hcalm.1.2⟩, hcalm.2⟩).post ?_)
  rintro _ l s' ⟨rfl, hcalm', hkept, -⟩
  exact .get (.bind (.modify (.step (.chunk .clear) (.ret ⟨rfl, hcalm', fun _ =>
    ⟨h.term.trans hkept.currentTerm.symm, .inl (h.index.le.trans hkept.snapshot_le)⟩⟩))))

/-- A chunk that fits onto the transfer it belongs to. -/
theorem follows_appendChunk {request : Proto.InstallSnapshotRequest}
    (h : Stands false [] none none (fun s => s.role = .follower ∧ s.currentTerm = request.term ∧
      s.snapshotIndex < request.lastIncludedIndex ∧ s.incomingSnapshotActive = true ∧
      s.incomingSnapshotIndex = request.lastIncludedIndex ∧
      s.incomingSnapshotTerm = request.lastIncludedTerm) l s)
    (hrpc : rpc.payload = .installSnapshot request) (hlabelled : request.lastIncludedTerm ≠ 0) :
    Prog.Follows (Micro (.receive connection rpc))
      (do
        let node ← Prog.get
        if request.offset ≠ node.incomingSnapshotData.length then return (false, 0)
        else
          Prog.modify fun node =>
            { node with incomingSnapshotData := node.incomingSnapshotData ++ request.data }
          if request.done = true then
            Prog.attempt NodeM.finishInstall fun _ => do
              Prog.modify NodeM.clearIncoming
              return (false, 0)
          else return (true, node.incomingSnapshotData.length + request.data.length))
      (fun answer => Stands false [] none none (ChunkAnswered request answer)) Failed l s := by
  obtain ⟨rfl, hcalm, hrole, hterm, hnewer, hactive, hindex, hlabel⟩ := h
  refine .get (.ite (fun _ => .ret ⟨rfl, hcalm, by simp [ChunkAnswered]⟩) fun hoffset => ?_)
  have hoffset : request.offset = s.incomingSnapshotData.length := not_not.mp hoffset
  refine .bind (.modify (.step (.chunk (.appendChunk connection rpc request rfl hrpc hactive hindex.symm
    hlabel.symm hoffset)) (.ite (fun hdone => .attempt ?_) fun hmore => .ret ⟨rfl, hcalm, fun _ =>
      ⟨hterm.symm, .inr ⟨by simpa using hmore, by rw [hoffset]⟩⟩⟩)))
  have hcomplete : Complete request
      { s with incomingSnapshotData := s.incomingSnapshotData ++ request.data } :=
    ⟨hrole, hterm.symm, hindex.symm, hlabel.symm, hindex ▸ hnewer, hactive, hdone, by
      rw [List.length_append, hoffset], hlabelled⟩
  have hinstall : Prog.Follows (Micro (.receive connection rpc)) NodeM.finishInstall _ _ _ _ :=
    follows_finishInstall (s := { s with incomingSnapshotData := s.incomingSnapshotData ++ request.data })
      hcalm hrpc hcomplete
  refine hinstall.weaken (fun _ _ _ hs => hs) fun l s hs x => ?_
  refine hs.idle ?_
  rintro ⟨-, hcalm, -⟩
  exact .bind (.modify (.step (.chunk .clear) (.ret ⟨rfl, hcalm, by simp [ChunkAnswered]⟩)))

theorem follows_receiveChunk {request : Proto.InstallSnapshotRequest}
    (h : Stands false [] none none (fun s => s.role = .follower ∧ s.currentTerm = request.term ∧
      s.snapshotIndex < request.lastIncludedIndex) l s)
    (hrpc : rpc.payload = .installSnapshot request) (hlabelled : request.lastIncludedTerm ≠ 0) :
    Prog.Follows (Micro (.receive connection rpc)) (NodeM.receiveChunk request)
      (fun answer => Stands false [] none none (ChunkAnswered request answer)) Failed l s := by
  obtain ⟨rfl, hcalm, hrole, hterm, hnewer⟩ := h
  refine .get (.ite (fun _ => .ret ⟨rfl, hcalm, by simp [ChunkAnswered]⟩) fun hgo => .bind (.modify ?_))
  unfold NodeM.openTransfer
  by_cases hstarts : NodeM.startsTransfer s request
  · rw [if_pos hstarts]
    have hoffset : request.offset = 0 := by
      by_contra hne
      exact hgo ⟨hstarts, hne⟩
    exact .step (.chunk (.openTransfer connection rpc request rfl hrpc hoffset))
      (follows_appendChunk ⟨rfl, hcalm, hrole, hterm, hnewer, rfl, rfl, rfl⟩ hrpc hlabelled)
  · rw [if_neg hstarts]
    unfold NodeM.startsTransfer at hstarts
    simp only [not_or, not_not, Bool.not_eq_false] at hstarts
    obtain ⟨hactive, hindex, hlabel, -⟩ := hstarts
    exact follows_appendChunk ⟨rfl, hcalm, hrole, hterm, hnewer, hactive, hindex, hlabel⟩ hrpc hlabelled

theorem follows_acceptSnapshot {request : Proto.InstallSnapshotRequest}
    (h : Stands false [] none none (fun s => s.role = .follower ∧ s.currentTerm = request.term) l s)
    (hrpc : rpc.payload = .installSnapshot request) :
    Prog.Follows (Micro (.receive connection rpc)) (NodeM.acceptSnapshot request)
      (fun answer => Stands false [] none none (ChunkAnswered request answer)) Failed l s := by
  have hterm : request.term = s.currentTerm := h.2.2.2.symm
  refine .get (.ite (fun _ => .ret (h.imp fun _ hno => absurd hno (by simp))) fun hvalid =>
    .ite (fun hsame => .ret (h.imp fun _ _ => ⟨hterm, .inl hsame.1.le⟩)) fun _ => .ite (fun hnewer => ?_) fun _ =>
      .ret (h.imp fun _ hno => absurd hno (by simp)))
  refine follows_receiveChunk (h.imp fun hs => ⟨hs.1, hs.2, hnewer⟩) hrpc fun hzero => hvalid ?_
  simp [NodeM.validChunk, hzero]

theorem follows_handleInstallSnapshot {request : Proto.InstallSnapshotRequest} (h : Idle none none l s)
    (hrpc : rpc.payload = .installSnapshot request) :
    Prog.Follows (Micro (.receive connection rpc))
      (NodeM.handleInstallSnapshot connection request rpc.requestId) (fun _ => Idle none none)
      Failed l s := by
  have hrespond : ∀ (s : RaftNode) (success : Bool) (nextOffset : Nat), s.Calm →
      (success = true → s.Receives request nextOffset) → Prog.Follows (Micro (.receive connection rpc))
        (do let _ ← NodeM.sendRpc (some connection) (.installSnapshotResponse
              ⟨s.currentTerm, success, toUint64 s.serverId, nextOffset⟩) rpc.requestId)
        (fun _ => Idle none none) Failed ⟨s.core, false, [], none, none⟩ s :=
    fun s success nextOffset hcalm hterm => follows_respond hcalm rfl fun id next t hmem hid ht =>
      .send (.snapshotResponse connection rpc request success nextOffset id next t rfl hrpc hterm hmem hid ht)
  obtain ⟨rfl, hcalm, -⟩ := h
  refine .get (.ite (fun _ => hrespond s false _ hcalm (by simp)) fun hnew => .bind ?_)
  refine (follows_followLeader hcalm (Nat.not_lt.mp hnew)).post fun _ l s hs => .bind ?_
  refine (follows_acceptSnapshot hs hrpc).post ?_
  rintro answer l s ⟨rfl, hcalm, hanswered⟩
  exact .get (hrespond s answer.1 answer.2 hcalm hanswered)

omit [Protobuf] in
theorem RaftNode.forgetting_awaiting (node : RaftNode) (peer : Int) :
    (node.forgetting fun p => p == peer).awaiting peer = node.awaiting peer := by
  have hupdate : ∀ {β : Type} (f : Int → β) (b c : β),
      Function.update (fun p => if (p == peer) = true then b else f p) peer c = Function.update f peer c := by
    intro β f b c
    funext p
    by_cases hp : p = peer
    · rw [hp, Function.update_self, Function.update_self]
    · rw [Function.update_of_ne hp, Function.update_of_ne hp, if_neg (by simpa using hp)]
  unfold forgetting awaiting
  simp only [hupdate]

/-- The snapshot is sent again from some offset, or nothing more is awaited. -/
theorem follows_resumeSnapshot {response : Proto.InstallSnapshotResponse} {offset : Nat} (hcalm : s.Calm)
    (hrpc : rpc.payload = .installSnapshotResponse response) (hrole : s.role = .leader)
    (hterm : response.term = s.currentTerm) (hid : rpc.requestId ≠ 0)
    (hrequest : rpc.requestId = s.rpcRequestId (toInt32 response.responderId))
    (hpeer : s.connectionForPeer (toInt32 response.responderId) = some connection)
    (hknown : s.nextIndex.lookup (toInt32 response.responderId) ≠ none) :
    Prog.Follows (Micro (.receive connection rpc))
      (NodeM.resumeSnapshot (toInt32 response.responderId) offset) (fun _ => Idle none none) Failed
      ⟨s.core, false, [], none, none⟩
      (NodeM.resetPeers (fun p => p == toInt32 response.responderId) s) := by
  have hforget : Micro (.receive connection rpc) ⟨s.core, false, [], none, none⟩ none
      ⟨s.core.forgetting fun p => p == toInt32 response.responderId, false, [], none, none⟩ :=
    .peer (.forget _)
  have hreset := hcalm.reset fun p => p == toInt32 response.responderId
  refine .bind (.modify ?_)
  by_cases hzero : s.snapshotIndex = 0
  · exact .step hforget (follows_sendSnapshot_skipped (.inl hzero) ⟨rfl, hreset, trivial⟩)
  by_cases hmem : connection ∈ s.connected
  · refine follows_sendSnapshot hreset hrole (if_pos (by simp)) hzero hpeer hmem hknown (fun request t hchunk ht =>
      .peer (.resumeSnapshot connection rpc response request t rfl hrpc hrole hterm hid hrequest hpeer hmem rfl
        hknown hchunk ht)) fun s' hcalm' hs' => ⟨?_, hcalm', trivial⟩
    rw [hs']
    exact congrArg (fun node => (⟨node, false, [], none, none⟩ : Local))
      (s.core.forgetting_awaiting (toInt32 response.responderId)).symm
  · refine .step hforget (follows_sendSnapshot_skipped (.inr fun c hc => ?_) ⟨rfl, hreset, trivial⟩)
    obtain rfl := Option.some.inj (hpeer.symm.trans hc)
    exact hmem

theorem follows_handleInstallSnapshotResponse {response : Proto.InstallSnapshotResponse}
    (h : Idle none none l s) (hrpc : rpc.payload = .installSnapshotResponse response) :
    Prog.Follows (Micro (.receive connection rpc))
      (NodeM.handleInstallSnapshotResponse connection response rpc.requestId) (fun _ => Idle none none)
      Failed l s := by
  obtain ⟨rfl, hcalm, -⟩ := h
  refine .get (.ite (fun _ => ?_) fun _ => .ite (fun _ => .ret ⟨rfl, hcalm, trivial⟩) fun hours => ?_)
  · exact (follows_stepDown hcalm response.term).post fun _ l s hs => hs.idle
  · simp only [not_or, not_not] at hours
    obtain ⟨hrole, hterm, hid, hknown, hrequest, -, hpeer⟩ := hours
    have hresume : ∀ offset, Prog.Follows (Micro (.receive connection rpc))
        (NodeM.resumeSnapshot (toInt32 response.responderId) offset) (fun _ => Idle none none) Failed
        ⟨s.core, false, [], none, none⟩
        (NodeM.resetPeers (fun p => p == toInt32 response.responderId) s) :=
      fun offset => follows_resumeSnapshot hcalm hrpc hrole hterm hid hrequest hpeer hknown
    refine .bind (follows_resetPeerRpcState hpeer (.ite (fun _ => hresume 0) fun hhigh =>
      .ite (fun _ => hresume _) fun hsuccess => .ite (fun _ => hresume _) fun hlow => ?_))
    refine .bind (.modify (.bind (.emitState (.peer (.ackSnapshot connection rpc response _ rfl hrpc hrole hterm hid
      hrequest hpeer hknown (by simpa using hsuccess) (Nat.le_antisymm (Nat.not_lt.mp hhigh) (Nat.not_lt.mp hlow))
      rfl)) ?_)))
    exact follows_sendAppend ⟨rfl, (hcalm.reset _).insert _ _, trivial⟩ fun hnone => absurd hnone (by simp)

/-! ### ReadIndex -/

theorem follows_handleReadIndexRequest {request : Proto.ReadIndexRequest} (h : Idle none none l s)
    (hrpc : rpc.payload = .readIndex request) :
    Prog.Follows (Micro (.receive connection rpc))
      (NodeM.handleReadIndexRequest connection request rpc.requestId) (fun _ => Idle none none)
      Failed l s := by
  have hrespond : ∀ (s : RaftNode) (success : Bool), s.Calm →
      (success = true → request.term = s.currentTerm) → Prog.Follows (Micro (.receive connection rpc))
        (do let _ ← NodeM.sendRpc (some connection)
              (.readIndexResponse ⟨s.currentTerm, success, toUint64 s.serverId⟩) rpc.requestId)
        (fun _ => Idle none none) Failed ⟨s.core, false, [], none, none⟩ s :=
    fun s success hcalm hterm => follows_respond hcalm rfl fun id next t hmem hid ht =>
      .send (.readResponse connection rpc request success id next t rfl hrpc hterm hmem hid ht)
  obtain ⟨rfl, hcalm, -⟩ := h
  refine .get (.ite (fun _ => hrespond s false hcalm (by simp)) fun hnew => .bind ?_)
  refine (follows_followLeader hcalm (Nat.not_lt.mp hnew)).post ?_
  rintro _ l s ⟨rfl, hcalm, -, hterm⟩
  exact .get (hrespond s _ hcalm fun _ => hterm.symm)

theorem follows_handleReadIndexResponse {response : Proto.ReadIndexResponse} (h : Idle none none l s)
    (hrpc : rpc.payload = .readIndexResponse response) :
    Prog.Follows (Micro (.receive connection rpc))
      (NodeM.handleReadIndexResponse connection response rpc.requestId) (fun _ => Idle none none)
      Failed l s := by
  obtain ⟨rfl, hcalm, -⟩ := h
  refine .get (.ite (fun _ => ?_) fun _ => ?_)
  · exact (follows_stepDown hcalm response.term).post fun _ l s hs => hs.idle
  cases hactive : s.activeReadIndex with
  | none => exact .ret ⟨rfl, hcalm, trivial⟩
  | some active =>
    refine .ite (fun _ => .ret ⟨rfl, hcalm, trivial⟩) fun hours => ?_
    simp only [not_or, not_not, Bool.not_eq_false] at hours
    obtain ⟨hrole, hterm, hid, hknown, hpeer, hsuccess⟩ := hours
    refine .bind (.modify (.step (.read (.ack connection rpc response active rfl hrpc hactive hrole hterm hid hpeer
      hknown hsuccess)) (.when (fun hquorum => ?_) fun _ => ⟨rfl, hcalm, trivial⟩)))
    refine follows_finishReadIndex ⟨rfl, hcalm, trivial⟩ fun _ => ⟨hrole, ?_⟩
    rintro current hcurrent
    obtain rfl := Option.some.inj hcurrent
    exact hquorum

end Handlers

end Nukv
