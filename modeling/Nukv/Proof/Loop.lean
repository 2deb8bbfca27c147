import Nukv.Proof.Handling

/-!
# The functions of the loop as sequences of small steps: connections, timers, client calls

The last theorem collects them: whatever the loop runs is a chain of `Micro` steps.
-/

namespace Nukv

open Base

variable [Protobuf]

namespace RaftNode

omit [Protobuf] in
theorem connectionForPeer_inbound (s : RaftNode) (peer : Int) (x : Option Conn) (p : Int) :
    ({ s with inboundConnections := Function.update s.inboundConnections peer x } :
      RaftNode).connectionForPeer p =
      if p = peer ∧ ¬ s.serverId < p then x else s.connectionForPeer p := by
  unfold connectionForPeer
  by_cases hlt : s.serverId < p
  · simp [hlt]
  · by_cases hp : p = peer
    · simp [hlt, ← hp]
    · simp [hlt, hp]

omit [Protobuf] in
theorem connectionForPeer_outbound (s : RaftNode) (peer : Int) (x : Option Conn) (p : Int) :
    ({ s with outboundConnections := Function.update s.outboundConnections peer x } :
      RaftNode).connectionForPeer p =
      if p = peer ∧ s.serverId < p then x else s.connectionForPeer p := by
  unfold connectionForPeer
  by_cases hlt : s.serverId < p
  · by_cases hp : p = peer
    · simp [hlt, ← hp]
    · simp [hlt, hp]
  · simp [hlt]

/-- The peer's connection may become `x`. -/
def MayConnect (action : LoopAction) (s : RaftNode) (peer : Int) (x : Option Conn) : Prop :=
  x = s.connectionForPeer peer ∨ (s.rpcRequestId peer = 0 ∨ s.connectionForPeer peer = none) ∧
    ∀ connection, x = some connection → Offers action s peer connection

end RaftNode

section Connections

variable {action : LoopAction} {connection : Conn} {l : Local} {s : RaftNode} {E : Local → RaftNode → Prop}

theorem micro_setInbound (peer : Int) (x : Option Conn)
    (h : ¬ l.node.serverId < peer → RaftNode.MayConnect action l.node peer x) :
    Micro action l none { l with node :=
      { l.node with inboundConnections := Function.update l.node.inboundConnections peer x } } := by
  refine .conn (.reconnect l.node.outboundConnections _ fun p => ?_)
  have hconn := l.node.connectionForPeer_inbound peer x p
  by_cases hp : p = peer ∧ ¬ l.node.serverId < p
  · rw [if_pos hp] at hconn
    obtain ⟨rfl, hlt⟩ := hp
    exact (h hlt).imp hconn.trans fun hfree => ⟨hfree.1, fun c hc => hfree.2 c (hconn.symm.trans hc)⟩
  · rw [if_neg hp] at hconn
    exact .inl hconn

theorem micro_setOutbound (peer : Int) (x : Option Conn)
    (h : l.node.serverId < peer → RaftNode.MayConnect action l.node peer x) :
    Micro action l none { l with node :=
      { l.node with outboundConnections := Function.update l.node.outboundConnections peer x } } := by
  refine .conn (.reconnect _ l.node.inboundConnections fun p => ?_)
  have hconn := l.node.connectionForPeer_outbound peer x p
  by_cases hp : p = peer ∧ l.node.serverId < p
  · rw [if_pos hp] at hconn
    obtain ⟨rfl, hlt⟩ := hp
    exact (h hlt).imp hconn.trans fun hfree => ⟨hfree.1, fun c hc => hfree.2 c (hconn.symm.trans hc)⟩
  · rw [if_neg hp] at hconn
    exact .inl hconn

theorem follows_shutdown {r : Option PendingReadIndex} {q : Option CommitPoll} {Φ : RaftNode → Prop}
    (h : Stands false [] r q Φ l s)
    (hΦ : ∀ connected, Φ s → Φ { s with connected := connected }) :
    Prog.Follows (Micro action) (NodeM.shutdown connection) (fun _ => Stands false [] r q Φ) E l s := by
  obtain ⟨rfl, hcalm, hs⟩ := h
  exact .step (.conn (.shutdown (s.connected.filter fun c => c ≠ connection)
    fun c hc => (List.mem_filter.mp hc).1)) (.modify ⟨rfl, hcalm, hΦ _ hs⟩)

/-- What giving up the current connection of a peer keeps, and that it awaits nothing on it any more. -/
structure Released (s₀ : RaftNode) (peer : Int) (current : Option Conn) (connection : Conn) (s : RaftNode) :
    Prop where
  identity : s.toIdentity = s₀.toIdentity
  outbound : s.outboundConnections = s₀.outboundConnections
  inbound : s.inboundConnections = s₀.inboundConnections
  connections : s.connections = s₀.connections
  free : current = s₀.connectionForPeer peer → current = some connection ∨ current = none ∨
    s.rpcRequestId peer = 0

theorem follows_replaceConnection {peer : Int} {current : Option Conn} (h : Idle none none l s) :
    Prog.Follows (Micro action) (NodeM.replaceConnection peer current connection)
      (fun _ => Stands false [] none none (Released s peer current connection)) E l s := by
  cases current with
  | none => exact .ret (h.imp fun _ => ⟨rfl, rfl, rfl, rfl, fun _ => .inr (.inl rfl)⟩)
  | some current =>
    refine .when (fun hne => .bind ?_) fun heq =>
      h.imp fun _ => ⟨rfl, rfl, rfl, rfl, fun _ => .inl (by rw [not_not.mp heq])⟩
    obtain ⟨rfl, hcalm, -⟩ := h
    refine .get (.when (fun hpeer => .step (.peer (.forget fun p => p == peer)) (.modify ?_)) fun hpeer => ?_)
    · exact follows_shutdown ⟨rfl, hcalm.reset _, rfl, rfl, rfl, rfl, fun _ => .inr (.inr (if_pos (by simp)))⟩
        fun connected hs => ⟨hs.identity, hs.outbound, hs.inbound, hs.connections, hs.free⟩
    · exact follows_shutdown ⟨rfl, hcalm, rfl, rfl, rfl, rfl, fun hcurrent => absurd hcurrent.symm hpeer⟩
        fun connected hs => ⟨hs.identity, hs.outbound, hs.inbound, hs.connections, hs.free⟩

omit [Protobuf] in
theorem Released.connectionForPeer {s₀ : RaftNode} {peer : Int} {current : Option Conn}
    (h : Released s₀ peer current connection s) (p : Int) :
    s.connectionForPeer p = s₀.connectionForPeer p := by
  unfold RaftNode.connectionForPeer
  rw [show s.serverId = s₀.serverId from congrArg Identity.serverId h.identity, h.outbound, h.inbound]

omit [Protobuf] in
theorem Released.mayConnect {s₀ : RaftNode} {peer : Int} {current : Option Conn}
    (h : Released s₀ peer current connection s) (hcurrent : current = s₀.connectionForPeer peer)
    (hoffers : Offers action s₀ peer connection) : RaftNode.MayConnect action s peer (some connection) := by
  have hserver : s.serverId = s₀.serverId := congrArg Identity.serverId h.identity
  have hnew : ∀ c, some connection = some c → Offers action s peer c := by
    rintro c hc
    obtain rfl := Option.some.inj hc
    exact ⟨h.connections ▸ hoffers.1, hserver ▸ hoffers.2⟩
  rcases h.free hcurrent with hsame | hnone | hfree
  · exact .inl (by rw [h.connectionForPeer, ← hcurrent, hsame])
  · exact .inr ⟨.inr (by rw [h.connectionForPeer, ← hcurrent, hnone]), hnew⟩
  · exact .inr ⟨.inl hfree, hnew⟩

theorem follows_registerSender {rpc : Proto.RaftRpc} (h : Idle none none l s)
    (hknown : connection ∈ s.connections) :
    Prog.Follows (Micro (.receive connection rpc)) (NodeM.registerSender connection rpc.senderId)
      (fun _ => Idle none none) E l s := by
  have hoffers : toInt32 rpc.senderId ≠ s.serverId →
      Offers (.receive connection rpc) s (toInt32 rpc.senderId) connection := fun hne =>
    ⟨hknown, hne, .inl ⟨rpc, rfl, rfl⟩⟩
  refine .get (.ite (fun _ => .ret h) fun _ => .ite (fun hlt => .bind ?_) fun hge => ?_)
  · refine (follows_replaceConnection h).post ?_
    rintro _ l s' ⟨rfl, hcalm, hreleased⟩
    refine .bind (.step (micro_setInbound _ _ fun hnot => hreleased.mayConnect ?_ (hoffers (by omega)))
      (.modify (.ret ⟨rfl, hcalm, trivial⟩)))
    exact (if_neg (by omega)).symm
  · cases houtbound : s.outboundConnections (toInt32 rpc.senderId) with
    | none =>
      obtain ⟨rfl, hcalm, -⟩ := h
      refine .bind (.step (micro_setOutbound _ _ fun hlt => .inr ⟨.inr ?_, fun c hc => ?_⟩)
        (.modify (.ret ⟨rfl, hcalm, trivial⟩)))
      · exact (if_pos hlt).trans houtbound
      · obtain rfl := Option.some.inj hc
        exact hoffers hlt.ne'
    | some current =>
      exact .ite (fun _ => .ret h) fun _ => .bind ((follows_shutdown h fun _ _ => trivial).post
        fun _ _ _ hs => .ret hs)

theorem follows_dispatch {rpc : Proto.RaftRpc} (h : Idle none none l s) :
    Prog.Follows (Micro (.receive connection rpc)) (NodeM.dispatch connection rpc)
      (fun _ => Idle none none) Failed l s := by
  unfold NodeM.dispatch
  cases hrpc : rpc.payload with
  | identify =>
    exact .get (.when (fun _ => follows_sendAppend h fun _ => .inr ⟨connection, rpc, rfl, hrpc, rfl⟩) fun _ => h)
  | requestVote request => exact follows_handleRequestVote h hrpc
  | requestVoteResponse response => exact follows_handleRequestVoteResponse h hrpc
  | appendEntries request => exact follows_handleAppendEntries h hrpc
  | appendEntriesResponse response => exact follows_handleAppendEntriesResponse h hrpc
  | installSnapshot request => exact follows_handleInstallSnapshot h hrpc
  | installSnapshotResponse response => exact follows_handleInstallSnapshotResponse h hrpc
  | readIndex request => exact follows_handleReadIndexRequest h hrpc
  | readIndexResponse response => exact follows_handleReadIndexResponse h hrpc
  | unspecified => exact follows_shutdown h fun _ _ => trivial

theorem follows_handleRpc {rpc : Proto.RaftRpc} (h : Idle none none l s)
    (hknown : connection ∈ s.connections) :
    Prog.Follows (Micro (.receive connection rpc)) (NodeM.handleRpc connection rpc)
      (fun _ => Idle none none) E l s := by
  refine .attempt (.bind ((follows_registerSender h hknown).post
    fun known l s hs => .when (fun _ => ?_) fun _ => hs))
  exact (follows_dispatch hs).weaken (fun _ _ _ hs => hs) fun l s hs x =>
    hs.idle fun hidle => follows_shutdown hidle fun _ _ => trivial

/-! ### Connections that come up and go down -/

theorem follows_contactPeer {peer : Int} (h : Idle none none l s) (hmember : peer ∈ s.otherPeers) :
    Prog.Follows (Micro action) (NodeM.contactPeer peer) (fun _ => Idle none none) Failed l s :=
  .get (.ite (fun _ => follows_sendAppend h fun _ => .inl hmember) fun _ => .when
    (fun hrole => follows_sendRequestVoteToPeer h hrole hmember fun _ _ _ => trivial) fun _ => h)

omit [Protobuf] in
theorem RaftNode.otherPeers_eq {s t : RaftNode} (h : t.toIdentity = s.toIdentity) : t.otherPeers = s.otherPeers := by
  unfold RaftNode.otherPeers
  rw [congrArg Identity.peers h, congrArg Identity.serverId h]

theorem follows_onPeerConnected {peer : Int} (h : Idle none none l s) (hoffers : Offers action s peer connection)
    (hmember : peer ∈ s.otherPeers) :
    Prog.Follows (Micro action) (NodeM.onPeerConnected peer connection) (fun _ => Idle none none)
      Failed l s := by
  refine .get (.bind ((follows_replaceConnection h).post ?_))
  rintro _ l s' ⟨rfl, hcalm, hreleased⟩
  refine .bind (.step (micro_setOutbound _ _ fun hlt => hreleased.mayConnect ?_ hoffers) (.modify ?_))
  · refine (if_pos ?_).symm
    rwa [← show s'.serverId = s.serverId from congrArg Identity.serverId hreleased.identity]
  have hrest : ∀ l t, Idle none none l t → t.toIdentity = s.toIdentity → Prog.Follows (Micro action)
      (do
        NodeM.contactPeer peer
        NodeM.sendReadIndexProbes
        let _ ← NodeM.sendRpc (some connection) .identify 0)
      (fun _ => Idle none none) Failed l t := by
    intro l t ht hidentity
    refine .bind ((follows_contactPeer ht (RaftNode.otherPeers_eq hidentity ▸ hmember)).post fun _ l s hs => .bind
      ((follows_sendReadIndexProbes hs).post ?_))
    rintro _ l s ⟨rfl, hcalm, -⟩
    refine follows_respond hcalm rfl fun id next t hmem hid ht => ?_
    rcases hid with ⟨hne, -, -⟩ | ⟨-, rfl, rfl⟩
    · exact absurd rfl hne
    · exact .send (.identify connection t hmem ht)
  refine .bind (.get (.when (fun _ => .step (.peer (.forget fun p => p == peer)) (.modify ?_)) fun _ => ?_))
  · exact hrest _ _ ⟨rfl, @RaftNode.Calm.reset { s' with outboundConnections := _ } hcalm _, trivial⟩
      hreleased.identity
  · exact hrest _ _ ⟨rfl, hcalm, trivial⟩ hreleased.identity

/-- A node that has lost a connection: it is the node of before until nothing refers to the connection. -/
def RaftNode.lost (s : RaftNode) (connection : Conn) : RaftNode :=
  { s with
    connections := s.connections.filter fun c => c ≠ connection
    connected := s.connected.filter fun c => c ≠ connection }

theorem follows_onPeerDisconnected (hcalm : s.Calm) (hclient : connection.client = s.serverId)
    (hlt : connection.client < connection.server) :
    Prog.Follows (Micro action) (NodeM.onPeerDisconnected connection.server connection)
      (fun _ => Idle none none) E ⟨s.core, false, [], none, none⟩ (s.lost connection) := by
  have hend : connection.otherEnd s.serverId = connection.server := if_pos hclient
  have hlt' : s.serverId < connection.server := hclient ▸ hlt
  have hout : s.connectionForPeer connection.server = s.outboundConnections connection.server := if_pos hlt'
  by_cases hours : s.outboundConnections connection.server = some connection
  · refine .step (.peer (.forget fun p => p == connection.server)) (.step
      (micro_setOutbound connection.server none fun _ => .inr ⟨.inl (if_pos (by simp)), by simp⟩)
      (.step (.conn (.close connection ?_)) (.get (.when (fun _ => ?_) fun hno => absurd hours hno))))
    · rw [RaftNode.connectionForPeer_outbound, if_pos ⟨hend, hend.symm ▸ hlt'⟩]
      simp
    · exact .bind (follows_resetPeerRpcState (hout.trans hours)
        (.modify ⟨rfl, @RaftNode.Calm.reset (s.lost connection) hcalm _, trivial⟩))
  · refine .step (.conn (.close connection fun hp => ?_)) (.get (.when (fun hno => absurd hno hours) fun _ =>
      ⟨rfl, hcalm, trivial⟩))
    exact hours (hout.symm.trans (hend ▸ hp))

/-- A map of connections without one of them. -/
def without (connections : Int → Option Conn) (connection : Conn) (peer : Int) : Option Conn :=
  if connections peer = some connection then none else connections peer

omit [Protobuf] in
theorem without_ne (connections : Int → Option Conn) (connection : Conn) (peer : Int) :
    without connections connection peer ≠ some connection := by
  unfold without
  split
  · simp
  · assumption

theorem follows_handleConnection (hcalm : s.Calm) :
    Prog.Follows (Micro action) (NodeM.handleConnection connection) (fun _ => Idle none none) E
      ⟨s.core, false, [], none, none⟩ (s.lost connection) := by
  refine .step (.peer (.forget fun p => s.inboundConnections p == some connection &&
      s.connectionForPeer p == some connection))
    (.step (.conn (.reconnect s.outboundConnections (without s.inboundConnections connection) fun p => ?_))
    (.step (.peer (.forget fun p => s.outboundConnections p == some connection &&
      ({ s with inboundConnections := without s.inboundConnections connection } :
        RaftNode).connectionForPeer p == some connection))
    (.step (.conn (.reconnect (without s.outboundConnections connection)
      (without s.inboundConnections connection) fun p => ?_))
    (.step (.conn (.close connection ?_)) ?_))))
  · by_cases hlt : s.serverId < p
    · exact .inl ((if_pos hlt).trans (if_pos hlt).symm)
    · by_cases hp : s.inboundConnections p = some connection
      · have hours : s.connectionForPeer p = some connection := (if_neg hlt).trans hp
        refine .inr ⟨.inl (if_pos (by simp [hp, hours])), fun c hc => ?_⟩
        exact absurd ((if_neg hlt).symm.trans hc) (by simp [without, hp])
      · exact .inl ((if_neg hlt).trans ((if_neg hp).trans (if_neg hlt).symm))
  · by_cases hlt : s.serverId < p
    · by_cases hp : s.outboundConnections p = some connection
      · have hours : ({ s with inboundConnections := without s.inboundConnections connection } :
            RaftNode).connectionForPeer p = some connection := (if_pos hlt).trans hp
        refine .inr ⟨.inl (if_pos (by simp [hp, hours])), fun c hc => ?_⟩
        exact absurd ((if_pos hlt).symm.trans hc) (by simp [without, hp])
      · exact .inl ((if_pos hlt).trans ((if_neg hp).trans (if_pos hlt).symm))
    · exact .inl ((if_neg hlt).trans (if_neg hlt).symm)
  · unfold RaftNode.connectionForPeer
    split
    · exact without_ne _ _ _
    · exact without_ne _ _ _
  · refine .bind (.modify (.bind (.modify (.bind (.modify (.modify ⟨rfl, ?_, trivial⟩))))))
    refine hcalm.sent rfl le_rfl rfl rfl rfl (fun _ => hcalm.votes) fun p hp => hcalm.answers fun hzero => hp ?_
    change (if _ then 0 else if _ then 0 else s.rpcRequestId p) = 0
    rw [hzero, ite_self, ite_self]

end Connections

/-! ### Timers -/

section Timers

variable {action : LoopAction} {l : Local} {s : RaftNode} {E : Local → RaftNode → Prop}

theorem follows_electionTimeout (h : Idle none none l s) :
    Prog.Follows (Micro .electionTimeout) NodeM.electionTimeout (fun _ => Idle none none) E l s := by
  obtain ⟨rfl, hcalm, -⟩ := h
  refine .bind (.modify (.get (.when (fun hgo => ?_) fun _ => ⟨rfl, hcalm, trivial⟩)))
  exact follows_becomeCandidate (s := { s with electionTimer := false }) hcalm hgo.1

theorem follows_heartbeatTimeout (h : Idle none none l s) :
    Prog.Follows (Micro action) NodeM.heartbeatTimeout (fun _ => Idle none none) Failed l s := by
  obtain ⟨rfl, hcalm, -⟩ := h
  exact .bind (.modify (follows_sendHeartbeats ⟨rfl, hcalm, trivial⟩))

theorem follows_rpcTimeout {timeout : RpcTimeout} (h : Idle none none l s) :
    Prog.Follows (Micro action) (NodeM.rpcTimeout timeout) (fun _ => Idle none none) E l s := by
  obtain ⟨rfl, hcalm, -⟩ := h
  refine .bind (.modify (.get (.ite (fun _ => .ret ⟨rfl, hcalm, trivial⟩) fun hours => ?_)))
  simp only [not_or, not_not] at hours
  obtain ⟨-, -, -, -, -, hpeer⟩ := hours
  have hcalm := @RaftNode.Calm.reset { s with rpcTimeouts := s.rpcTimeouts.erase timeout } hcalm
    fun p => p == timeout.peerId
  refine .bind (follows_resetPeerRpcState hpeer (.step (.peer (.forget fun p => p == timeout.peerId)) ?_))
  refine .ite (fun _ => ?_) fun _ => .bind ?_
  · exact .step (micro_setOutbound timeout.peerId none fun _ => .inr ⟨.inl (if_pos (by simp)), by simp⟩)
      (.modify ⟨rfl, hcalm, trivial⟩)
  · refine Prog.Follows.post (follows_shutdown (Φ := fun t => t.rpcRequestId timeout.peerId = 0)
      ⟨rfl, hcalm, if_pos (by simp)⟩ fun _ hfree => hfree) ?_
    rintro _ l s ⟨rfl, hcalm, hfree⟩
    exact .step (micro_setInbound timeout.peerId none fun _ => .inr ⟨.inl hfree, by simp⟩)
      (.modify ⟨rfl, hcalm, trivial⟩)

theorem follows_readTimeout {requestId : Nat} (h : Idle none none l s) :
    Prog.Follows (Micro action) (NodeM.readTimeout requestId) (fun _ => Idle none none) Failed l s := by
  obtain ⟨rfl, hcalm, -⟩ := h
  exact .bind (.modify (.get (.when (fun _ => follows_finishReadIndex ⟨rfl, hcalm, trivial⟩ (by simp))
    fun _ => ⟨rfl, hcalm, trivial⟩)))

end Timers

/-! ### Client calls -/

section Client

variable {action : LoopAction} {l : Local} {s : RaftNode} {E : Local → RaftNode → Prop}

theorem follows_waitForCommit {poll : CommitPoll} (h : Idle none (some poll) l s) :
    Prog.Follows (Micro action) (NodeM.waitForCommit poll) (fun _ => Idle none none) E l s := by
  obtain ⟨rfl, hcalm, -⟩ := h
  refine .get (.ite (fun _ => ?_) fun hleads => .ite (fun hreached => ?_) fun _ => ?_)
  · exact .emitState (.submit (.refused poll.result _)) ⟨rfl, hcalm, trivial⟩
  · rw [not_or, not_not] at hleads
    exact .emitState (.submit (.committed poll _ rfl hleads.2 hreached rfl)) ⟨rfl, hcalm, trivial⟩
  · exact .step (.submit (.wait poll rfl)) (.modify ⟨rfl, hcalm, trivial⟩)

theorem follows_commitPoll {poll : CommitPoll} (h : Idle none none l s) (hpoll : poll ∈ s.commitPolls) :
    Prog.Follows (Micro action) (NodeM.commitPoll poll) (fun _ => Idle none none) E l s := by
  obtain ⟨rfl, hcalm, -⟩ := h
  exact .step (.submit (.take poll hpoll)) (.bind (.modify (follows_waitForCommit ⟨rfl, hcalm, trivial⟩)))

theorem follows_appendCommand {call : SubmitCall} (h : Idle none none l s) (hrole : s.role = .leader)
    (hnew : call.command.requestId ≠ 0 → RaftStorage.getAppliedCommand s.store call.command.clientId
      call.command.requestId = none) :
    Prog.Follows (Micro (.submit call))
      (NodeM.appendCommand (Protobuf.command.serialize call.command))
      (fun target => Idle none (some ⟨target, call⟩)) Failed l s := by
  obtain ⟨rfl, hcalm, -⟩ := h
  refine .bind (.modify (.bind (follows_persistLog hcalm.faults (.log (.push call _ rfl hrole rfl hnew rfl))
    (.get (.bind ?_)))))
  have htarget : ({ s with log := s.log ++ [⟨s.currentTerm, Protobuf.command.serialize call.command⟩] } :
      RaftNode).logSaved.lastIndex = s.lastIndex + 1 := by
    simp [RaftNode.lastIndex, RaftNode.logSaved, Nat.add_assoc]
  rw [htarget]
  refine Prog.Follows.post (Follows.identity (follows_tryAdvanceCommit (q := some ⟨s.lastIndex + 1, call⟩)
    ⟨rfl, ⟨⟨rfl, hcalm.1.2⟩, hcalm.2⟩, trivial⟩)) ?_
  rintro _ l s' ⟨hs', hidentity⟩
  obtain ⟨rfl, -⟩ := id hs'
  have hpeers : s'.otherPeers = s.otherPeers := RaftNode.otherPeers_eq hidentity
  exact .bind ((hpeers ▸ follows_sendAppends hs').post fun _ l s hs => .ret hs)

theorem follows_submit {call : SubmitCall} (h : Idle none none l s) :
    Prog.Follows (Micro (.submit call)) (NodeM.submit call) (fun _ => Idle none none) E l s := by
  have hrefuse : ∀ l s, Failed l s → Prog.Follows (Micro (.submit call)) (NodeM.setSubmitResult call false)
      (fun _ => Idle none none) E l s := fun l s hs => hs.idle fun hidle =>
    .emitState (.submit (.refused call _)) hidle
  refine .attempt ?_
  obtain ⟨rfl, hcalm, -⟩ := h
  refine .get (.ite (fun _ => ?_) fun hleads => ?_)
  · exact .emitState (.submit (.refused call _)) ⟨rfl, hcalm, trivial⟩
  rw [not_or, not_not] at hleads
  dsimp only
  cases happlied : (if call.command.requestId ≠ 0 then
      RaftStorage.getAppliedCommand s.store call.command.clientId call.command.requestId else none) with
  | some applied =>
    by_cases hsame : applied = Protobuf.command.serialize call.command
    · have hid : call.command.requestId ≠ 0 := by
        intro hzero
        rw [if_neg (not_not.mpr hzero)] at happlied
        exact absurd happlied (by simp)
      rw [if_pos hid, hsame] at happlied
      refine .emitState ?_ ⟨rfl, hcalm, trivial⟩
      rw [beq_iff_eq.mpr hsame]
      exact .submit (.repeated call _ rfl hleads.1 hid happlied rfl)
    · refine .emitState ?_ ⟨rfl, hcalm, trivial⟩
      rw [beq_eq_false_iff_ne.mpr hsame]
      exact .submit (.refused call _)
  | none =>
    have hnew : call.command.requestId ≠ 0 → RaftStorage.getAppliedCommand s.store call.command.clientId
        call.command.requestId = none := fun hid => by rwa [if_pos hid] at happlied
    refine .bind ((follows_appendCommand ⟨rfl, hcalm, trivial⟩ hleads.1 hnew).weaken
      (fun target l s hs => follows_waitForCommit hs) fun l s hs x => hrefuse l s hs)

theorem follows_readIndex {result : Nat} (h : Idle none none l s) :
    Prog.Follows (Micro (.readIndex result)) (NodeM.readIndex result) (fun _ => Idle none none)
      Failed l s := by
  obtain ⟨rfl, hcalm, -⟩ := h
  refine .get (.ite (fun _ => ?_) fun hleads => ?_)
  · exact .emitState (.read (.answerFalse result _)) ⟨rfl, hcalm, trivial⟩
  · rw [not_or, not_not] at hleads
    refine .bind (.modify (.bind (.emit (.read (.queue result rfl hleads.1)) ?_)))
    exact follows_startNextReadIndex ⟨rfl, hcalm.numbered (Nat.le_succ _), trivial⟩

end Client

/-! ### Start -/

section StartStop

variable {s : RaftNode}

/-- What `StartInLoop` does once the store is read. -/
def afterLoad : NodeM Unit := do
  NodeM.applyCommitted
  Prog.modify fun node =>
    { node with
      nextIndex := node.otherPeers.foldl (fun map peer => map.insert peer (node.lastIndex + 1)) node.nextIndex
      matchIndex := node.otherPeers.foldl (fun map peer => map.insert peer 0) node.matchIndex
      ready := true }
  NodeM.resetElectionTimer

/-- `match_index_` has an entry for every other peer. -/
def RaftNode.Indexed (node : RaftNode) : Prop := ∀ p ∈ node.otherPeers, node.matchIndex.lookup p ≠ none

theorem follows_afterLoad (hcalm : s.Calm) (hrole : s.role = .follower) :
    Prog.Follows (Micro .start) afterLoad (fun _ => Stands false [] none none RaftNode.Indexed) Failed
      ⟨s.core, true, [], none, none⟩ s := by
  refine .bind ((follows_applyCommitted hcalm).post ?_)
  rintro _ l s' ⟨rfl, hcalm', hkept, -⟩
  have hrole' : s'.role ≠ .leader := by
    rw [show s'.role = s.role from congrArg ElectionState.role hkept.election, hrole]
    simp
  refine .step (.peer (.setIndexes hrole')) (.bind (.modify (.modify ⟨rfl, hcalm'.indexed _ _, fun p hp => ?_⟩)))
  change (s'.otherPeers.foldl (fun map peer => map.insert peer 0) s'.matchIndex).lookup p ≠ none
  rw [lookup_foldl_insert, if_pos (show p ∈ s'.otherPeers from hp)]
  simp

/-- A node that cannot read its store ends without a trace. -/
theorem startInLoop_error {x : Exn} (h : RaftStorage.load s.store = .error x) :
    (NodeM.startInLoop s).1 = .error x ∧ (NodeM.startInLoop s).2.1.store = s.store ∧
      (NodeM.startInLoop s).2.2 = [] := by
  simp [NodeM.startInLoop, NodeM.loadState, Prog.bind_assoc, h, Prog.ofExcept]

theorem startInLoop_ok {state : PersistedRaftState} (h : RaftStorage.load s.store = .ok state)
    (hrole : s.role = .follower) (hreceived : s.votesReceived = 0) (hvotes : s.grantedVotes = ∅) :
    NodeM.startInLoop s = ((afterLoad (s.loaded state)).1, (afterLoad (s.loaded state)).2.1,
      .loadState state :: (afterLoad (s.loaded state)).2.2) := by
  have hs : ({ s with role := .follower, votesReceived := 0, grantedVotes := ∅ } : RaftNode) = s := by
    rw [← hrole, ← hreceived, ← hvotes]
  unfold NodeM.startInLoop
  rw [Prog.modify_bind, hs]
  unfold NodeM.loadState
  simp only [Prog.bind_assoc, Prog.get_bind, h, Prog.ofExcept]
  simp only [Prog.bind_eq, Prog.andThen, Prog.ret_run, Prog.emit_run, Prog.modify_run, List.nil_append,
    List.singleton_append]
  rfl

end StartStop

end Nukv
