import Nukv.Base.Rounds
import Nukv.Property.Conflicts
import Nukv.Property.Exchange

/-!
# How a follower catches up

A leader and one follower, and nothing else happens: the leader sends a request, the follower answers, the leader goes on
from the answer (`exchange`). A rejection moves `next_index_` down by one, but never to the snapshot of the leader, and
`SendAppend` turns to `SendSnapshot` only when it is there. So a follower whose log ends before a snapshot that the leader
had before it became the leader is asked about the same index for ever.

If the logs of the two meet at an index that both still have, below `next_index_`, the exchange ends, and the follower has
the log of the leader. The rank that goes down is the distance of `next_index_` from the meeting point, and then the
distance of the meeting point from the end of the leader's log.
-/

namespace Nukv

open Base

/-! ### The exchange -/

/-- The frames between two nodes, oldest first. -/
def traffic (history : List (Int × Event)) (l p : Int) : List Packet :=
  (packets history).filter fun packet => decide (packet.sender = l ∧ packet.connection.otherEnd l = p ∨
    packet.sender = p ∧ packet.connection.otherEnd p = l)

/-- The node `p` has the log of the leader `l`, and the leader knows it. -/
def Cluster.Synced (cluster : Cluster) (l p : Int) : Prop :=
  ∃ a b, cluster.nodes l = .running a ∧ cluster.nodes p = .running b ∧
    a.matchIndex.lookup p = some a.lastIndex ∧ b.lastIndex = a.lastIndex ∧
    ∀ i, max a.snapshotIndex b.snapshotIndex ≤ i → i ≤ a.lastIndex → b.termAt i = a.termAt i

variable [Protobuf] {config : Config} {cluster : Cluster} {l p : Int} {c : Conn} {a b : RaftNode}

/-- One step of the exchange: a heartbeat of the leader when no answer of the follower is awaited, and otherwise the
delivery of the last frame between the two. -/
def Cluster.exchange (peers : List Int) (l p : Int) (cluster : Cluster) : Option Cluster :=
  match cluster.nodes l with
  | .down _ => none
  | .running a =>
    if a.rpcInflight p = true then
      match (traffic cluster.history l p).getLast? with
      | none => none
      | some packet => cluster.exec peers
          (.run (packet.connection.otherEnd packet.sender) (.receive packet.connection packet.rpc))
    else cluster.exec peers (.run l .heartbeatTimeout)

omit [Protobuf] in
theorem traffic_append (history more : List (Int × Event)) :
    traffic (history ++ more) l p = traffic history l p ++ traffic more l p := by
  unfold traffic packets
  rw [List.filterMap_append, List.filter_append]

omit [Protobuf] in
/-- A frame between the two, after which nothing is sent between them, is the last one. -/
theorem traffic_last {history after : List (Int × Event)} {n : Int} {rpc : Proto.RaftRpc} {t : RaftNode}
    (hends : n = l ∧ c.otherEnd l = p ∨ n = p ∧ c.otherEnd p = l) (hafter : traffic after l p = []) :
    (traffic (history ++ ((n, .send c rpc t) :: after)) l p).getLast? = some ⟨c, n, rpc⟩ := by
  have hone : traffic [(n, .send c rpc t)] l p = [⟨c, n, rpc⟩] := by
    refine List.filter_eq_self.mpr fun packet hpacket => ?_
    obtain rfl := List.mem_singleton.mp hpacket
    exact decide_eq_true hends
  rw [← List.singleton_append, traffic_append, traffic_append, hone, hafter, List.append_nil, List.getLast?_concat]

omit [Protobuf] in
theorem traffic_sent {history : List (Int × Event)} {n : Int} {events : List Event} {rpc : Proto.RaftRpc} {t : RaftNode}
    (hends : n = l ∧ c.otherEnd l = p ∨ n = p ∧ c.otherEnd p = l) :
    (traffic (history ++ (events ++ [Event.send c rpc t]).map fun event => (n, event)) l p).getLast? =
      some ⟨c, n, rpc⟩ := by
  rw [List.map_append, ← List.append_assoc]
  exact traffic_last hends rfl

/-! ### Runs in which nothing is refused -/

/-- The commands of the run can be applied, and frames of them can be sent. -/
structure Serviceable (history : List (Int × Event)) : Prop where
  orderly : Orderly history
  short : ∀ m s entry, (m, .write (.persistLog none) s) ∈ history → s.log.getLast? = some entry → entry.Short

open Cluster

theorem Serviceable.smooth (h : Serviceable cluster.history) (hreach : Reachable config cluster) {n : Int}
    {events : List Event} (hevents : ∀ e ∈ events, (n, e) ∈ cluster.history) : Smooth events := by
  obtain ⟨A, hA⟩ := hreach.reach.tracked
  have happlicable := (hA.orderly h.orderly).1.applicable
  refine ⟨⟨fun index hmem => happlicable n index (hevents _ hmem), fun x hmem => ?_⟩, fun connection rpc s hmem => ?_⟩
  · exact hA.labels n (happlicable n) _ (hevents _ hmem)
  · exact hA.unrefused h.short n connection rpc s (hevents _ hmem)

/-- A function of a running node that submits nothing leaves the run serviceable. -/
theorem Serviceable.ran (h : Serviceable cluster.history) (hreach : Reachable config cluster) {n : Int}
    {action : LoopAction} {node node₀ : RaftNode} (hnode : cluster.nodes n = .running node)
    (hentry : entry config.peers cluster n action = some node₀) (hsubmit : ∀ call, action ≠ .submit call)
    {status : Status} {events : List Event} (hevents : (program n action node₀).2.2 = events) :
    Serviceable (cluster.after n action status events).history := by
  have hmicro : ∀ e ∈ events, ∃ l l', Micro action l (some e) l' := by
    obtain ⟨rfl, hserver, hprepared, -, -⟩ := entry_running hreach.reach hnode hentry (fun hfalse => hfalse.elim)
    obtain ⟨l', hchain, -⟩ := follows_program (hreach.calm hnode) hserver hprepared
    exact fun e he => hchain.exists_step (hevents ▸ he)
  have happend : ∀ m s, (m, .write (.persistLog none) s) ∈ (cluster.after n action status events).history →
      (m, .write (.persistLog none) s) ∈ cluster.history := by
    intro m s hmem
    rcases mem_after_history hmem with hold | ⟨rfl, hnew⟩
    · exact hold
    · obtain ⟨l, l', hstep⟩ := hmicro _ hnew
      obtain ⟨call, hcall, -⟩ := hstep.appends
      exact absurd hcall (hsubmit call)
  refine ⟨⟨fun m s hmem => h.orderly.writes m s (happend m s hmem),
    fun m s hmem => h.orderly.unambiguous m s (happend m s hmem), fun m state hmem => ?_⟩,
    fun m s entry hmem => h.short m s entry (happend m s hmem)⟩
  rcases mem_after_history hmem with hold | ⟨rfl, hnew⟩
  · exact h.orderly.kept m state hold
  · obtain ⟨l, l', hstep⟩ := hmicro _ hnew
    rcases hstep with hstep | hstep | hstep | hstep | hstep | hstep | hstep | hstep | hstep
    all_goals cases hstep

/-- A function that returns when nothing is refused. -/
theorem Serviceable.exec {n : Int} {action : LoopAction} {node node₀ : RaftNode}
    {Q : Unit → List Event → RaftNode → Prop} (h : Serviceable cluster.history) (hreach : Reachable config cluster)
    (hnode : cluster.nodes n = .running node) (hentry : entry config.peers cluster n action = some node₀)
    (hsubmit : ∀ call, action ≠ .submit call) (hstop : action ≠ .stop)
    (hends : Prog.Ends (program n action) (fun x es' s' => Smooth es' → Q x es' s') (fun es' _ => ¬ Smooth es')
      [] node₀) :
    ∃ node' events, Q () events node' ∧
      Cluster.exec config.peers cluster (.run n action) = some (cluster.after n action (.running node') events) ∧
      Reachable config (cluster.after n action (.running node') events) ∧
      Serviceable (cluster.after n action (.running node') events).history := by
  have hend := hends.run
  rcases hrun : program n action node₀ with ⟨result, node', events⟩
  have hexec : Cluster.exec config.peers cluster (.run n action) =
      some (cluster.after n action (outcome action result node') events) := by
    simp only [Cluster.exec, hentry, hrun]
  have hreach' := Run.step hreach trivial hexec
  have hservice : Serviceable (cluster.after n action (outcome action result node') events).history :=
    h.ran hreach hnode hentry hsubmit (by rw [hrun])
  have hsmooth : Smooth events := hservice.smooth hreach' fun e he =>
    List.mem_append_right _ (List.mem_map_of_mem (f := fun event => (n, event)) he)
  rw [hrun] at hend
  cases result with
  | error x => exact absurd hsmooth hend
  | ok =>
    have hstatus : outcome action (.ok ()) node' = .running node' := if_neg hstop
    rw [hstatus] at hexec hreach' hservice
    exact ⟨node', events, hend hsmooth, hexec, hreach', hservice⟩

/-! ### The two ends -/

/-- A leader that sends AppendEntries requests to `p` on a connection that is up. -/
structure Serves (p : Int) (c : Conn) (a : RaftNode) : Prop where
  role : a.role = .leader
  bound : a.connectionForPeer p = some c
  live : c ∈ a.connected
  above : a.snapshotIndex < a.nextIndexOf p

/-- A leader and a follower of its term or an earlier one, which have one connection between them. -/
structure Linked (cluster : Cluster) (l p : Int) (c : Conn) (a b : RaftNode) : Prop extends Serves p c a where
  leader : cluster.nodes l = .running a
  follower : cluster.nodes p = .running b
  boundBack : b.connectionForPeer l = some c
  liveBack : c ∈ b.connected
  term : b.currentTerm ≤ a.currentTerm

/-- The request that `SendAppend` builds for the follower is on its way. -/
structure Requested (cluster : Cluster) (l p : Int) (c : Conn) (a b : RaftNode) : Prop
    extends Linked cluster l p c a b where
  inflight : a.rpcInflight p = true
  hasEntries : a.rpcHasEntries p = !(NodeM.appendRequest a p).entries.isEmpty
  last : (traffic cluster.history l p).getLast? =
    some ⟨c, l, ⟨a.rpcRequestId p, toUint64 l, .appendEntries (NodeM.appendRequest a p)⟩⟩

/-- The answer of the follower is on its way. -/
structure Replied (cluster : Cluster) (l p : Int) (c : Conn) (a b : RaftNode) (success : Bool) (matchIndex : Nat) : Prop
    extends Linked cluster l p c a b where
  inflight : a.rpcInflight p = true
  hasEntries : a.rpcHasEntries p = !(NodeM.appendRequest a p).entries.isEmpty
  last : (traffic cluster.history l p).getLast? = some ⟨c, p, ⟨a.rpcRequestId p, toUint64 p,
    .appendEntriesResponse ⟨a.currentTerm, success, matchIndex, toUint64 p⟩⟩⟩

/-- What the wiring of the cluster says about two linked nodes. -/
structure Joined (config : Config) (l p : Int) (c : Conn) (a b : RaftNode) : Prop where
  leaderId : a.serverId = l
  followerId : b.serverId = p
  leaderInt : toInt32 (toUint64 l) = l
  followerInt : toInt32 (toUint64 p) = p
  ne : p ≠ l
  leaderEnd : c ∈ a.connections ∧ c.otherEnd l = p
  followerEnd : c ∈ b.connections ∧ c.otherEnd p = l
  faults : a.store.faults = [] ∧ b.store.faults = []
  fresh : 0 < a.nextRpcId
  member : p ∈ config.peers

theorem Linked.joined (h : Linked cluster l p c a b) (hreach : Reachable config cluster) : Joined config l p c a b := by
  obtain ⟨A, hA⟩ := hreach.reach.tracked
  have hview : cluster.world.views l = .active (.rest a) := congrArg Status.view h.leader
  have hviewBack : cluster.world.views p = .active (.rest b) := congrArg Status.view h.follower
  have hleader := hA.wired.active l _ hview
  have hfollower := hA.wired.active p _ hviewBack
  have hint : ∀ n ∈ config.peers, toInt32 (toUint64 n) = n := fun n hn =>
    toInt32_toUint64 (by have := config.positive n hn; omega) (config.int32 n hn)
  obtain ⟨hmem, hend⟩ := hleader.wired p c h.bound
  obtain ⟨-, -, hlt⟩ := hA.wired.opened c (hleader.opened c hmem).1
  have hne : p ≠ l := by
    rintro rfl
    unfold Conn.otherEnd at hend
    split at hend
    · next hclient => exact absurd (hclient.trans hend.symm) hlt.ne
    · next hclient => exact hclient hend
  exact ⟨hleader.serverId, hfollower.serverId, hint l hleader.member, hint p hfollower.member, hne, ⟨hmem, hend⟩,
    hfollower.wired l c h.boundBack, ⟨hleader.faults, hfollower.faults⟩,
    (hA.related.active l _ hview).numbering.pos, hfollower.member⟩

omit [Protobuf] in
theorem mem_of_traffic {history : List (Int × Event)} {packet : Packet}
    (h : (traffic history l p).getLast? = some packet) : packet ∈ packets history :=
  (List.mem_filter.mp (List.mem_of_getLast? h)).1

theorem requestId_ne_zero (hreach : Reachable config cluster) {packet : Packet}
    (h : (traffic cluster.history l p).getLast? = some packet) : packet.rpc.requestId ≠ 0 := by
  obtain ⟨A, hA⟩ := hreach.reach.tracked
  exact (hA.related.frames packet (mem_of_traffic h)).id.ne'

/-- While an answer is awaited, the exchange delivers the last frame. -/
theorem exchange_delivers (peers : List Int) {packet : Packet} {n : Int} (hleader : cluster.nodes l = .running a)
    (hinflight : a.rpcInflight p = true) (hlast : (traffic cluster.history l p).getLast? = some packet)
    (hn : packet.connection.otherEnd packet.sender = n) :
    cluster.exchange peers l p = Cluster.exec peers cluster (.run n (.receive packet.connection packet.rpc)) := by
  unfold Cluster.exchange
  rw [hleader]
  dsimp only
  rw [if_pos hinflight, hlast]
  dsimp only
  rw [hn]

omit [Protobuf] in
theorem entry_receive (peers : List Int) {n : Int} {node : RaftNode} {packet : Packet}
    (hnode : cluster.nodes n = .running node) (hconnection : packet.connection ∈ node.connections)
    (hpacket : packet ∈ packets cluster.history) (hsender : packet.connection.otherEnd n = packet.sender) :
    entry peers cluster n (.receive packet.connection packet.rpc) = some node := by
  unfold entry
  rw [hnode]
  refine if_pos ⟨hconnection, ?_⟩
  rw [hsender]
  exact hpacket

/-- The follower takes the request, or it rejects it, and answers. -/
theorem Requested.deliver (h : Requested cluster l p c a b) (hreach : Reachable config cluster)
    (hservice : Serviceable cluster.history) :
    ∃ cluster' t accepted b', cluster.exchange config.peers l p = some cluster' ∧ Reachable config cluster' ∧
      Serviceable cluster'.history ∧ Takes (NodeM.appendRequest a p) b t accepted b' ∧
      Replied cluster' l p c a b' accepted.isSome (accepted.getD b'.lastIndex) := by
  have hjoined := h.toLinked.joined hreach
  have hexchange := exchange_delivers config.peers h.leader h.inflight h.last hjoined.leaderEnd.2
  have hentry := entry_receive config.peers h.follower hjoined.followerEnd.1 (mem_of_traffic h.last)
    hjoined.followerEnd.2
  have hanswer := ends_answer (show b.currentTerm ≤ (NodeM.appendRequest a p).term from h.term) h.liveBack
    (requestId_ne_zero hreach h.last) hjoined.faults.2 (consecutive_appendRequest a p)
  have hreturns := @returns_handleRpc _ b [] c ⟨a.rpcRequestId p, toUint64 l, .appendEntries (NodeM.appendRequest a p)⟩ _
    (by rw [hjoined.leaderInt, hjoined.followerId]; exact hjoined.ne.symm)
    (by rw [hjoined.leaderInt]; exact h.boundBack) hanswer
  obtain ⟨b', events, ⟨es₁, t, accepted, htakes, rfl⟩, hexec, hreach', hservice'⟩ :=
    hservice.exec hreach h.follower hentry (fun _ => nofun) nofun
      (hreturns.weaken (fun _ _ _ hQ => hQ) fun _ _ => False.elim)
  obtain ⟨hidentity, hconnection, hterm⟩ := htakes.kept
  refine ⟨_, t, accepted, b', hexchange.trans hexec, hreach', hservice', htakes, ⟨⟨h.toServes, ?_, after_nodes_self ..,
    ?_, ?_, hterm.le⟩, h.inflight, h.hasEntries, ?_⟩⟩
  · exact (Function.update_of_ne hjoined.ne.symm ..).trans h.leader
  · exact (RaftNode.connectionForPeer_congr hidentity hconnection l).trans h.boundBack
  · exact (congrArg ConnectionState.connected hconnection) ▸ h.liveBack
  · rw [hjoined.followerId]
    exact traffic_sent (.inr ⟨rfl, hjoined.followerEnd.2⟩)

omit [Protobuf] in
theorem appendRequest_congr {s s' : RaftNode} (hlog : s'.toLogState = s.toLogState)
    (hidentity : s'.toIdentity = s.toIdentity) (hnext : s'.nextIndexOf p = s.nextIndexOf p) :
    NodeM.appendRequest s' p = NodeM.appendRequest s p := by
  unfold NodeM.appendRequest RaftNode.termAt RaftNode.entryAt RaftNode.lastIndex
  rw [hlog, hidentity, hnext]

omit [Protobuf] in
theorem Asks.appendRequest {es es' : List Event} {s s' : RaftNode} (h : Asks p c es s es' s') :
    NodeM.appendRequest s' p = NodeM.appendRequest s p := by
  have hnext : s'.nextIndexOf p = s.nextIndexOf p := by
    unfold RaftNode.nextIndexOf
    rw [h.nextIndex]
  obtain ⟨replication, timeouts, rfl⟩ := h.node
  exact appendRequest_congr rfl rfl hnext

omit [Protobuf] in
theorem Asks.serves {es es' : List Event} {s s' : RaftNode} (h : Asks p c es s es' s') (hs : Serves p c s) :
    Serves p c s' := by
  have hnext : s'.nextIndexOf p = s.nextIndexOf p := by
    unfold RaftNode.nextIndexOf
    rw [h.nextIndex]
  obtain ⟨replication, timeouts, rfl⟩ := h.node
  exact ⟨hs.role, hs.bound, hs.live, lt_of_lt_of_eq hs.above hnext.symm⟩

omit [Protobuf] in
/-- The leader handles the answer, and the next request is on its way. -/
theorem Replied.requested {success : Bool} {matchIndex : Nat} (h : Replied cluster l p c a b success matchIndex)
    (hjoined : Joined config l p c a b) {rpc : Proto.RaftRpc} {es₁ events : List Event} {t a' : RaftNode}
    (hasks : Asks p c es₁ t events a') (hserves : Serves p c t)
    (hidentity : t.toIdentity = a.toIdentity) (hterm : t.currentTerm = a.currentTerm) :
    Requested (cluster.after l (.receive c rpc) (.running a') events) l p c a' b := by
  have hnow : a'.currentTerm = a.currentTerm := by
    obtain ⟨replication, timeouts, rfl⟩ := hasks.node
    exact hterm
  refine ⟨⟨hasks.serves hserves, after_nodes_self .., ?_, h.boundBack, h.liveBack, h.term.trans hnow.ge⟩,
    hasks.inflight, ?_, ?_⟩
  · exact (Function.update_of_ne hjoined.ne ..).trans h.follower
  · rw [hasks.appendRequest]
    exact hasks.hasEntries
  · obtain ⟨node, rfl⟩ := hasks.sent
    rw [hasks.requestId, hasks.appendRequest, congrArg Identity.serverId hidentity, hjoined.leaderId]
    exact traffic_sent (.inl ⟨rfl, hjoined.leaderEnd.2⟩)

theorem Replied.awaits {success : Bool} {matchIndex : Nat} (h : Replied cluster l p c a b success matchIndex)
    (hreach : Reachable config cluster) :
    Awaits a p c ⟨a.currentTerm, success, matchIndex, toUint64 p⟩ (a.rpcRequestId p) :=
  have hjoined := h.toLinked.joined hreach
  ⟨h.role, rfl, hjoined.followerInt, rfl, requestId_ne_zero hreach h.last, h.bound, h.live, h.above, hjoined.fresh⟩

/-- What the exchange does with an answer, from what the handler does with it. -/
theorem Replied.handle {success : Bool} {matchIndex : Nat} {Q : Unit → List Event → RaftNode → Prop}
    (h : Replied cluster l p c a b success matchIndex) (hreach : Reachable config cluster)
    (hservice : Serviceable cluster.history)
    (hends : Prog.Ends (NodeM.handleAppendEntriesResponse c ⟨a.currentTerm, success, matchIndex, toUint64 p⟩
      (a.rpcRequestId p)) Q (fun es' _ => ¬ Smooth es') [] a) :
    ∃ rpc a' events, Q () events a' ∧
      cluster.exchange config.peers l p = some (cluster.after l (.receive c rpc) (.running a') events) ∧
      Reachable config (cluster.after l (.receive c rpc) (.running a') events) ∧
      Serviceable (cluster.after l (.receive c rpc) (.running a') events).history := by
  have hjoined := h.toLinked.joined hreach
  have hexchange := exchange_delivers config.peers h.leader h.inflight h.last hjoined.followerEnd.2
  have hentry := entry_receive config.peers h.leader hjoined.leaderEnd.1 (mem_of_traffic h.last) hjoined.leaderEnd.2
  have hreturns := @returns_handleRpc _ a [] c ⟨a.rpcRequestId p, toUint64 p,
    .appendEntriesResponse ⟨a.currentTerm, success, matchIndex, toUint64 p⟩⟩ Q
    (by rw [hjoined.followerInt, hjoined.leaderId]; exact hjoined.ne) (by rw [hjoined.followerInt]; exact h.bound) hends
  obtain ⟨a', events, hQ, hexec, hreach', hservice'⟩ :=
    hservice.exec hreach h.leader hentry (fun _ => nofun) nofun
      (hreturns.weaken (fun _ _ _ hQ => hQ) fun _ _ => False.elim)
  exact ⟨_, a', events, hQ, hexchange.trans hexec, hreach', hservice'⟩

/-- After a rejection the leader asks again, one index further down if it can. -/
theorem Replied.reject {matchIndex : Nat} (h : Replied cluster l p c a b false matchIndex)
    (hreach : Reachable config cluster) (hservice : Serviceable cluster.history) :
    ∃ cluster' a', cluster.exchange config.peers l p = some cluster' ∧ Reachable config cluster' ∧
      Serviceable cluster'.history ∧ Requested cluster' l p c a' b ∧ a'.toLogState = a.toLogState ∧
      a'.toIdentity = a.toIdentity ∧ a'.matchIndex = a.matchIndex ∧
      a'.nextIndexOf p = if a.snapshotIndex + 1 < a.nextIndexOf p then a.nextIndexOf p - 1 else a.nextIndexOf p := by
  have hjoined := h.toLinked.joined hreach
  obtain ⟨rpc, a', events, hasks, hexchange, hreach', hservice'⟩ := h.handle hreach hservice
    (ends_rejected (h.awaits hreach) rfl)
  have hserves : Serves p c (a.backedOff p) := by
    refine ⟨h.role, h.bound, h.live, ?_⟩
    have habove := h.above
    rw [a.backedOff_nextIndexOf]
    change a.snapshotIndex < _
    split <;> omega
  refine ⟨_, a', hexchange, hreach', hservice', h.requested hjoined hasks hserves rfl rfl, ?_, ?_, ?_, ?_⟩
  · obtain ⟨replication, timeouts, rfl⟩ := hasks.node
    rfl
  · obtain ⟨replication, timeouts, rfl⟩ := hasks.node
    rfl
  · exact hasks.matchIndex
  · rw [← a.backedOff_nextIndexOf]
    unfold RaftNode.nextIndexOf
    rw [hasks.nextIndex]

omit [Protobuf] in
/-- Following a leader leaves the log. -/
theorem RaftNode.Yields.reads_log {s t : RaftNode} (h : s.Yields t) :
    t.lastIndex = s.lastIndex ∧ ∀ i, t.termAt i = s.termAt i := by
  have hentry : ∀ i, t.entryAt i = s.entryAt i := by
    intro i
    unfold RaftNode.entryAt
    rw [h.snapshotIndex, h.log]
  refine ⟨?_, fun i => RaftNode.termAt_congr h.snapshotIndex h.snapshotTerm (hentry i)⟩
  unfold RaftNode.lastIndex
  rw [h.snapshotIndex, h.log]

/-! ### A follower that stays behind -/

/-- The leader asks about an index above its snapshot, and the log of the follower ends below the snapshot. -/
def Behind (config : Config) (l p : Int) (cluster : Cluster) : Prop :=
  Reachable config cluster ∧ Serviceable cluster.history ∧ ∃ c a b, b.lastIndex < a.snapshotIndex ∧
    (Requested cluster l p c a b ∨ ∃ matchIndex, Replied cluster l p c a b false matchIndex)

theorem Behind.step (h : Behind config l p cluster) :
    ∃ cluster', cluster.exchange config.peers l p = some cluster' ∧ Behind config l p cluster' := by
  obtain ⟨hreach, hservice, c, a, b, hbelow, hrequested | ⟨matchIndex, hreplied⟩⟩ := h
  · obtain ⟨cluster', t, accepted, b', hexchange, hreach', hservice', htakes, hreplied⟩ :=
      hrequested.deliver hreach hservice
    obtain ⟨hlast, -⟩ := htakes.follows.reads_log
    have hprev : NodeM.prevMatches t (NodeM.appendRequest a p) = false := by
      refine Bool.eq_false_of_not_eq_true fun hmatches => ?_
      have hle : max 1 (min (a.nextIndexOf p) (a.lastIndex + 1)) - 1 ≤ t.lastIndex :=
        (NodeM.prevMatches_iff.mp hmatches).2.1
      have habove := hrequested.above
      unfold RaftNode.lastIndex at hle hlast hbelow
      omega
    have hnone : accepted.isSome = false := htakes.isSome.trans (by rw [hprev, Bool.false_and])
    obtain rfl := Option.isSome_eq_false_iff.mp hnone |> Option.isNone_iff_eq_none.mp
    obtain ⟨-, rfl⟩ | ⟨_, _, hsome, -⟩ := htakes.outcome
    · exact ⟨cluster', hexchange, hreach', hservice', c, a, b', hlast ▸ hbelow, .inr ⟨_, hreplied⟩⟩
    · cases hsome
  · obtain ⟨cluster', a', hexchange, hreach', hservice', hrequested, hlog, -⟩ := hreplied.reject hreach hservice
    have hsnapshot : a'.snapshotIndex = a.snapshotIndex := congrArg LogState.snapshotIndex hlog
    exact ⟨cluster', hexchange, hreach', hservice', c, a', b, hsnapshot ▸ hbelow, .inl hrequested⟩

/-- The request carries the entries of the leader from `next` on. -/
structure Spans (a : RaftNode) (next : Nat) (request : Proto.AppendEntriesRequest) : Prop where
  prev : request.prevLogIndex + 1 = next
  prevTerm : request.prevLogTerm = a.termAt request.prevLogIndex
  length : request.entries.length = min kMaxEntriesPerRpc (a.lastIndex - request.prevLogIndex)
  entryAt : ∀ k entry, request.entries[k]? = some entry →
    a.entryAt (request.prevLogIndex + k + 1) = .ok (storedEntry entry)

omit [Protobuf] in
theorem Serves.spans (h : Serves p c a) (hle : a.nextIndexOf p ≤ a.lastIndex + 1) :
    Spans a (a.nextIndexOf p) (NodeM.appendRequest a p) := by
  have habove := h.above
  have hnext : max 1 (min (a.nextIndexOf p) (a.lastIndex + 1)) = a.nextIndexOf p := by omega
  unfold NodeM.appendRequest
  rw [hnext]
  refine ⟨by dsimp only; omega, rfl, ?_, fun k entry hentry => ?_⟩
  · dsimp only
    rw [List.length_mapIdx, List.length_take, List.length_drop]
    unfold RaftNode.lastIndex at hle ⊢
    omega
  · dsimp only at hentry ⊢
    rw [List.getElem?_mapIdx] at hentry
    obtain ⟨old, hold, rfl⟩ := Option.map_eq_some_iff.mp hentry
    have hk : k < kMaxEntriesPerRpc := by
      have hlength := Raft.length_lt_of_getElem? hold
      rw [List.length_take] at hlength
      omega
    rw [List.getElem?_take_of_lt hk, List.getElem?_drop] at hold
    refine RaftNode.entryAt_eq_ok.mpr ⟨by omega, ?_⟩
    rw [show a.nextIndexOf p - 1 + k + 1 - a.snapshotIndex - 1 = a.nextIndexOf p - a.snapshotIndex - 1 + k by omega]
    exact hold

omit [Protobuf] in
/-- The term of the leader at the end of the request. -/
theorem Spans.lastTerm {next : Nat} {request : Proto.AppendEntriesRequest} (h : Spans a next request) :
    a.termAt (request.prevLogIndex + request.entries.length) =
      (request.entries.getLast?.map Proto.RaftLogEntry.term).getD request.prevLogTerm := by
  rcases List.eq_nil_or_concat request.entries with hnil | ⟨rest, entry, hconcat⟩
  · rw [hnil, h.prevTerm]
    rfl
  · have hentry : request.entries[rest.length]? = some entry := by
      rw [hconcat, List.concat_eq_append, List.getElem?_concat_length]
    have hlength : request.entries.length = rest.length + 1 := by
      rw [hconcat, List.concat_eq_append, List.length_append, List.length_singleton]
    rw [hlength, ← Nat.add_assoc, RaftNode.termAt_of_entryAt (h.entryAt _ _ hentry), hconcat]
    simp [storedEntry]

theorem Linked.next_le (h : Linked cluster l p c a b) (hreach : Reachable config cluster) :
    a.nextIndexOf p ≤ a.lastIndex + 1 := by
  have hjoined := h.joined hreach
  obtain ⟨A, hA⟩ := hreach.reach.tracked
  have hview : cluster.world.views l = .active (.rest a) := congrArg Status.view h.leader
  exact ((hA.related.active l _ hview).replicating h.role p hjoined.member hjoined.ne).high

/-- Nothing that the follower has committed contradicts a request of the leader. -/
theorem Linked.merges (h : Linked cluster l p c a b) (hreach : Reachable config cluster) {t : RaftNode}
    (hyields : b.Yields t) (hprev : NodeM.prevMatches t (NodeM.appendRequest a p) = true) :
    (NodeM.mergeEntries t (NodeM.appendRequest a p).prevLogIndex (NodeM.appendRequest a p).entries).success = true := by
  obtain ⟨hlow, hhigh, -⟩ := NodeM.prevMatches_iff.mp hprev
  have hspans := h.toServes.spans (h.next_le hreach)
  have hconsecutive := consecutive_appendRequest a p
  have hresult := NodeM.mergeEntries_result hconsecutive hlow hhigh
  generalize NodeM.appendRequest a p = request at *
  generalize NodeM.mergeEntries t request.prevLogIndex request.entries = merge at hresult
  cases hresult with
  | present => rfl
  | replaced => rfl
  | refused entry last hmem hsnapshot hlast hcommit hne =>
    exfalso
    obtain ⟨k, hk⟩ := List.mem_iff_getElem?.mp hmem
    rw [hconsecutive.index hk] at hsnapshot hlast hcommit hne
    obtain ⟨A, hA⟩ := hreach.reach.tracked
    have hview : cluster.world.views l = .active (.rest a) := congrArg Status.view h.leader
    have hviewBack : cluster.world.views p = .active (.rest b) := congrArg Status.view h.follower
    have hleads := (hA.related.active l _ hview).roles.leader h.role
    have hdepicts := (hA.related.active p _ hviewBack).memory.depicts
    have hagreed : Raft.Agreed config.setting A (A.term p) b.commitIndex (A.log p) := hdepicts.commitIndex
    have hterm : A.term p ≤ a.currentTerm := hdepicts.term.le.trans h.term
    have htlog : A.tlog a.currentTerm = A.log l := hleads.tlog
    have htake : (A.log l).take b.commitIndex = (A.log p).take b.commitIndex := by
      rw [← htlog]
      exact hagreed.take_tlog hA.inv hleads.leads hterm
    have hown := ((hA.shows h.leader).entryAt.mp (hspans.entryAt k entry hk)).2
    rw [hyields.commitIndex] at hcommit
    rw [hyields.snapshotIndex] at hsnapshot
    rw [Raft.getElem?_eq_of_take_eq hcommit htake] at hown
    have hthere := (hA.shows h.follower).entryAt.mpr ⟨Nat.le_of_lt_succ hsnapshot, hown⟩
    rw [hyields.reads_log.2, RaftNode.termAt_of_entryAt hthere] at hne
    exact hne rfl

/-! ### Rounds that bring the logs together -/

/-- The logs of the leader and of the follower meet at `j`, below `next_index_`. The follower has no more entries than the
leader, and what it has from `next_index_` on a request covers, or cuts off. -/
structure Meets (p : Int) (a b : RaftNode) (j : Nat) : Prop where
  low : max a.snapshotIndex b.snapshotIndex ≤ j
  high : j ≤ b.lastIndex
  below : j < a.nextIndexOf p
  term : a.termAt j = b.termAt j
  within : b.lastIndex ≤ a.lastIndex
  covered : b.lastIndex < a.nextIndexOf p + kMaxEntriesPerRpc ∨
    a.nextIndexOf p ≤ b.lastIndex ∧ a.termAt (a.nextIndexOf p) ≠ b.termAt (a.nextIndexOf p)

/-- A follower that has taken the entries of a request has the log of the leader up to the last of them, and no more. -/
theorem Takes.ends {request : Proto.AppendEntriesRequest} {next m : Nat} {t b' : RaftNode} {accepted : Option Nat}
    (h : Takes request b t accepted b') (hspans : Spans a next request) (hsome : accepted.isSome = true)
    (hwithin : b.lastIndex ≤ a.lastIndex) (hcovered : b.lastIndex < next + kMaxEntriesPerRpc ∨
      next ≤ b.lastIndex ∧ a.termAt next ≠ b.termAt next)
    (hm : request.prevLogIndex + request.entries.length = m) :
    accepted = some m ∧ b'.lastIndex = m ∧ b'.snapshotIndex ≤ m ∧ b'.termAt m = a.termAt m := by
  obtain ⟨rfl, -⟩ | ⟨log, faults, rfl, hprev, hmerge, hcaught⟩ := h.outcome
  · cases hsome
  obtain ⟨hlow, hhigh, hterm⟩ := NodeM.prevMatches_iff.mp hprev
  obtain ⟨hlast, hterms⟩ := h.follows.reads_log
  obtain ⟨-, hreaches, hend⟩ := hmerge.reaches rfl hlow hhigh hterm
  rw [hm] at hreaches hend
  have hlength : t.snapshotIndex + log.length = m := by
    cases hmerge with
    | present hpresent =>
      refine Nat.le_antisymm (not_lt.mp fun hlonger => ?_) hreaches
      -- the log goes on behind a full request, which says otherwise about its first entry
      have hlonger : m < b.lastIndex := lt_of_lt_of_eq hlonger hlast
      have hprevious := hspans.prev
      have hfull := hspans.length
      obtain ⟨hnext, hne⟩ := hcovered.resolve_left (by omega)
      have hsome : 0 < request.entries.length := by
        unfold kMaxEntriesPerRpc at hfull
        omega
      have hfirst : request.entries[0]? = some request.entries[0] := List.getElem?_eq_getElem hsome
      refine hne ?_
      rw [← hspans.prev, ← hterms, RaftNode.termAt_of_entryAt (hspans.entryAt 0 _ hfirst)]
      exact (hpresent 0 _ hfirst).2.symm
    | replaced i hi hbound =>
      unfold RaftNode.lastIndex at hbound
      rw [List.length_append, List.length_take, List.length_map, List.length_drop]
      omega
  have hsaved : ((t.merged log request.leaderCommit).facing faults).lastIndex = m := hlength
  have hsnapshot : b'.snapshotIndex ≤ m := by
    rcases hcaught.compacted with ⟨heq, -⟩ | ⟨heq, -⟩
    · rw [heq]
      change t.snapshotIndex ≤ m
      omega
    · rw [heq]
      exact (Nat.min_le_right _ _).trans hlength.le
  refine ⟨by rw [hm], hcaught.lastIndex.trans hsaved, hsnapshot, ?_⟩
  have hkept := (hcaught.termAt m (by change t.snapshotIndex ≤ m; omega)).resolve_left (not_lt.mpr hsnapshot)
  rw [hkept, ← hm, hspans.lastTerm, hm]
  exact hend

/-- A success moves the leader on: its indexes for the follower are those of what the follower has. -/
theorem Replied.accept {m : Nat} (h : Replied cluster l p c a b true m) (hreach : Reachable config cluster)
    (hservice : Serviceable cluster.history) (hsettled : NodeM.commitCandidate a = none)
    (hlow : a.snapshotIndex ≤ m) (hhigh : m ≤ a.lastIndex) :
    ∃ cluster' a', cluster.exchange config.peers l p = some cluster' ∧ Reachable config cluster' ∧
      Serviceable cluster'.history ∧ cluster'.nodes l = .running a' ∧ cluster'.nodes p = .running b ∧
      NodeM.commitCandidate a' = none ∧ a'.snapshotIndex ≤ m ∧ a'.lastIndex = a.lastIndex ∧
      a'.termAt m = a.termAt m ∧ a'.matchIndex.lookup p = some m ∧ a'.nextIndexOf p = m + 1 ∧
      (a.rpcHasEntries p = true → m < a.lastIndex → Requested cluster' l p c a' b) := by
  have hjoined := h.toLinked.joined hreach
  have hpos : a.currentTerm ≠ 0 := by
    obtain ⟨A, hA⟩ := hreach.reach.tracked
    have hview : cluster.world.views l = .active (.rest a) := congrArg Status.view h.leader
    exact (hA.inv.term_pos ((hA.related.active l _ hview).roles.leader h.role).leads).ne'
  have hadvances : ∀ t, (a.matched p m).Commits t → Advances p m a t := fun t ht => ht.advances hsettled hlow hpos
  have hmatch : ∀ t, Advances p m a t → t.matchIndex.lookup p = some m ∧ t.nextIndexOf p = m + 1 := by
    intro t ht
    unfold RaftNode.nextIndexOf
    rw [ht.replication]
    refine ⟨?_, (a.matched_nextIndexOf p m).trans (by rw [Nat.min_eq_left hhigh])⟩
    change (a.matchIndex.insert p (min m a.lastIndex)).lookup p = some m
    rw [AList.lookup_insert, Nat.min_eq_left hhigh]
  have habove : ∀ t, (a.matched p m).Commits t → t.snapshotIndex < t.nextIndexOf p := by
    intro t ht
    rw [(hmatch t (hadvances t ht)).2]
    exact Nat.lt_succ_of_le (hadvances t ht).snapshot_le
  obtain ⟨rpc, a', events, ⟨t, es₁, hcommits, hrest⟩, hexchange, hreach', hservice'⟩ := h.handle hreach hservice
    (ends_accepted (h.awaits hreach) rfl hjoined.faults.1 habove)
  have ht := hadvances t hcommits
  obtain ⟨hmatched, hnext⟩ := hmatch t ht
  have hfollower : (cluster.after l (.receive c rpc) (.running a') events).nodes p = .running b :=
    (Function.update_of_ne hjoined.ne ..).trans h.follower
  split at hrest
  · next hmore =>
    have hserves : Serves p c t := ⟨(congrArg ElectionState.role ht.election).trans h.role,
      (RaftNode.connectionForPeer_congr ht.identity ht.connection p).trans h.bound,
      (congrArg ConnectionState.connected ht.connection) ▸ h.live, habove t hcommits⟩
    have hmatched' : a'.matchIndex.lookup p = some m := hrest.matchIndex ▸ hmatched
    have hnext' : a'.nextIndexOf p = m + 1 := by
      unfold RaftNode.nextIndexOf
      rw [hrest.nextIndex]
      exact hnext
    have hsettled' : NodeM.commitCandidate a' = none := by
      refine Eq.trans ?_ ht.settled
      have hmatch' := hrest.matchIndex
      obtain ⟨replication, timeouts, rfl⟩ := hrest.node
      exact commitCandidate_congr rfl rfl hmatch'
    refine ⟨_, a', hexchange, hreach', hservice', after_nodes_self .., hfollower, hsettled', ?_, ?_, ?_, hmatched', hnext',
      fun _ _ => h.requested hjoined hrest hserves ht.identity ht.currentTerm⟩
    all_goals obtain ⟨replication, timeouts, rfl⟩ := hrest.node
    · exact ht.snapshot_le
    · exact ht.lastIndex
    · exact ht.termAt m ht.snapshot_le
  · next hdone =>
    obtain ⟨rfl, -⟩ := hrest
    refine ⟨_, a', hexchange, hreach', hservice', after_nodes_self .., hfollower, ht.settled, ht.snapshot_le, ht.lastIndex,
      ht.termAt m ht.snapshot_le, hmatched, hnext, fun hmore hlt => absurd ⟨hmore, ?_⟩ hdone⟩
    rw [hnext, ht.lastIndex]
    exact hlt

/-- Two logs that have the same term at an index have the same terms up to it. -/
theorem termAt_eq (hreach : Reachable config cluster) (ha : cluster.nodes l = .running a)
    (hb : cluster.nodes p = .running b) {j : Nat} (hlow : max a.snapshotIndex b.snapshotIndex ≤ j)
    (hhigh : j ≤ min a.lastIndex b.lastIndex) (hterm : a.termAt j = b.termAt j) {i : Nat}
    (hi : max a.snapshotIndex b.snapshotIndex ≤ i) (hij : i ≤ j) : b.termAt i = a.termAt i := by
  obtain ⟨A, hA⟩ := hreach.reach.tracked
  have hshows := hA.shows ha
  have hshows' := hA.shows hb
  obtain ⟨hla, hlb⟩ := max_le_iff.mp hlow
  obtain ⟨hha, hhb⟩ := le_min_iff.mp hhigh
  obtain ⟨hia, hib⟩ := max_le_iff.mp hi
  rw [hshows.termAt hla hha, hshows'.termAt hlb hhb] at hterm
  have htake := (hA.inv.sourced_log l).take_eq_of_lastTerm (hA.inv.sourced_log p) (hshows.lastIndex ▸ hha)
    (hshows'.lastIndex ▸ hhb) hterm
  rw [hshows.termAt hia (hij.trans hha), hshows'.termAt hib (hij.trans hhb), Raft.take_eq_mono hij htake]

/-- An exchange that comes nearer to its end: the rank is the distance of `next_index_` from the meeting point, and of the
meeting point from the end of the leader's log. -/
def Nearing (config : Config) (l p : Int) (rank : Nat) (cluster : Cluster) : Prop :=
  Reachable config cluster ∧ Serviceable cluster.history ∧ ∃ c a b j, Requested cluster l p c a b ∧ Meets p a b j ∧
    NodeM.commitCandidate a = none ∧ a.nextIndexOf p - 1 - j + (a.lastIndex - j) = rank

/-- A round in which the entries of the request are taken: the logs meet at the last of them, and if it is the last one of
the leader, that was the end. -/
theorem Nearing.advance {cluster₁ : Cluster} {t b' : RaftNode} {accepted : Option Nat} {j : Nat}
    (hrequested : Requested cluster l p c a b) (hreach : Reachable config cluster) (hmeets : Meets p a b j)
    (hsettled : NodeM.commitCandidate a = none) (hreach₁ : Reachable config cluster₁)
    (hservice₁ : Serviceable cluster₁.history) (htakes : Takes (NodeM.appendRequest a p) b t accepted b')
    (hreplied : Replied cluster₁ l p c a b' accepted.isSome (accepted.getD b'.lastIndex))
    (hprev : NodeM.prevMatches t (NodeM.appendRequest a p) = true) :
    ∃ cluster₂, cluster₁.exchange config.peers l p = some cluster₂ ∧
      (Reachable config cluster₂ ∧ cluster₂.Synced l p ∨
        ∃ lower < a.nextIndexOf p - 1 - j + (a.lastIndex - j), Nearing config l p lower cluster₂) := by
  have hspans := hrequested.toServes.spans (hrequested.toLinked.next_le hreach)
  have hle := hrequested.toLinked.next_le hreach
  have hlow := (max_le_iff.mp hmeets.low).1
  have hbelow := hmeets.below
  have hsome : accepted.isSome = true := by
    rw [htakes.isSome, hprev, hrequested.toLinked.merges hreach htakes.follows hprev]
    rfl
  obtain ⟨m, hm⟩ : ∃ m, (NodeM.appendRequest a p).prevLogIndex + (NodeM.appendRequest a p).entries.length = m :=
    ⟨_, rfl⟩
  obtain ⟨rfl, hlast, hsnapshot, hterm⟩ := htakes.ends hspans hsome hmeets.within hmeets.covered hm
  have hprevious := hspans.prev
  have hlength := hspans.length
  have hbounds : a.snapshotIndex ≤ m ∧ m ≤ a.lastIndex := by omega
  obtain ⟨cluster₂, a', hsecond, hreach₂, hservice₂, hleader, hfollower, hsettled', hsnapshot', hlast', hterm', hmatch,
    hnext, hmore⟩ := Replied.accept (m := m) hreplied hreach₁ hservice₁ hsettled hbounds.1 hbounds.2
  refine ⟨cluster₂, hsecond, ?_⟩
  have hagree : a'.termAt m = b'.termAt m := hterm'.trans hterm.symm
  unfold kMaxEntriesPerRpc at hlength
  rcases Nat.lt_or_ge m a.lastIndex with hlt | hge
  · have hentries : a.rpcHasEntries p = true := by
      rw [hrequested.hasEntries, Bool.not_eq_true', List.isEmpty_eq_false_iff]
      intro hnil
      rw [hnil, List.length_nil] at hlength
      omega
    refine .inr ⟨a.lastIndex - m, by omega, hreach₂, hservice₂, c, a', b', m, hmore hentries hlt,
      ⟨max_le hsnapshot' hsnapshot, hlast.ge, ?_, hagree, ?_, .inl ?_⟩, hsettled', ?_⟩
    · rw [hnext]
      exact Nat.lt_succ_self m
    · rw [hlast, hlast']
      exact hlt.le
    · rw [hlast, hnext]
      omega
    · rw [hnext, hlast']
      omega
  · have heq : m = a.lastIndex := Nat.le_antisymm hbounds.2 hge
    refine .inl ⟨hreach₂, a', b', hleader, hfollower, ?_, ?_, fun i hi hile => ?_⟩
    · rw [hmatch, hlast', heq]
    · rw [hlast, hlast', heq]
    · rw [hlast', ← heq] at hile
      exact termAt_eq hreach₂ hleader hfollower (max_le hsnapshot' hsnapshot)
        (le_min (hlast' ▸ hbounds.2) hlast.ge) hagree hi hile

namespace Cluster

/-- Node 2 has answered the first heartbeat of node 1, which has appended two commands meanwhile. -/
def waiting : List Move :=
  let submit (promise : Nat) : Move := .act (.run 1 (.submit ⟨promise, ⟨.put, 0, 0, [107], [118]⟩⟩))
  [.act (.run 1 .start), .act (.run 2 .start), .act (.run 1 (.connect 2 0)), .act (.run 2 (.accept ⟨1, 2, 0⟩)),
    .deliver 0, .act (.run 1 .electionTimeout), .deliver 1, .deliver 2, .deliver 3, submit 0, submit 1, .deliver 4]

end Cluster

end Nukv
