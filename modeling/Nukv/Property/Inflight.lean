import Nukv.Proof.History
import Nukv.Proof.Refine
import Nukv.Proof.Timing
import Nukv.Property.Replication

/-!
# Requests under way

A leader sends the next AppendEntries or InstallSnapshot request to a peer when `rpc_inflight_` says that no answer is
awaited. The flag does not stay set for good: there is always a timeout whose callback will clear it. And only the answer
to the latest request moves `next_index_` and `match_index_`.
-/

namespace Nukv

open Base

/-! ### The latest request -/

/-- A request to a peer after which another one was sent to it. -/
def Superseded (history : List (Int × Event)) (n : Int) (connection : Conn) (rpc : Proto.RaftRpc) : Prop :=
  rpc.payload.replicates ∧ ∃ past s rest, history = past ++ (n, .send connection rpc s) :: rest ∧
    ∃ connection' rpc' s', (n, .send connection' rpc' s') ∈ rest ∧ rpc'.payload.replicates ∧
      connection'.otherEnd n = connection.otherEnd n

section Latest

variable {n : Int} {history : List (Int × Event)} {connection : Conn} {rpc : Proto.RaftRpc}

theorem Superseded.mem_packets (h : Superseded history n connection rpc) : ⟨connection, n, rpc⟩ ∈ packets history := by
  obtain ⟨-, past, s, rest, rfl, -⟩ := h
  exact List.mem_filterMap.mpr ⟨_, List.mem_append_right _ List.mem_cons_self, rfl⟩

/-- A history that goes on: the request was superseded before, or by what has just happened. -/
theorem Superseded.concat {m : Int} {e : Event} (h : Superseded (history ++ [(m, e)]) n connection rpc) :
    Superseded history n connection rpc ∨ rpc.payload.replicates ∧ ⟨connection, n, rpc⟩ ∈ packets history ∧ m = n ∧
      ∃ connection' rpc' s', e = .send connection' rpc' s' ∧ rpc'.payload.replicates ∧
        connection'.otherEnd n = connection.otherEnd n := by
  obtain ⟨hreplicates, past, s, rest, hsplit, connection', rpc', s', hlater, hreplicates', hpeer⟩ := h
  rcases List.eq_nil_or_concat rest with rfl | ⟨rest, last, rfl⟩
  · cases hlater
  rw [List.concat_eq_append, ← List.cons_append, ← List.append_assoc] at hsplit
  obtain ⟨hhistory, hlast⟩ := List.append_inj' hsplit rfl
  rw [List.concat_eq_append] at hlater
  rcases List.mem_append.mp hlater with hbefore | hnow
  · exact .inl ⟨hreplicates, past, s, rest, hhistory, connection', rpc', s', hbefore, hreplicates', hpeer⟩
  · obtain ⟨rfl, rfl⟩ := Prod.mk.inj ((List.mem_singleton.mp hnow).trans (List.singleton_inj.mp hlast).symm)
    refine .inr ⟨hreplicates, ?_, rfl, connection', rpc', s', rfl, hreplicates', hpeer⟩
    rw [hhistory]
    exact List.mem_filterMap.mpr ⟨_, List.mem_append_right _ List.mem_cons_self, rfl⟩

variable [Protobuf] {config : Config} {timely : Prop} {A : Shadow} {w : World} {l l' : Local} {action : LoopAction}
  {event : Option Event}

/-- What a step does to the ids that are awaited: they stay or are given up, or a request is sent under a new one. -/
def Requests (event : Option Event) (node node' : RaftNode) : Prop :=
  (∀ c rpc s, event = some (.send c rpc s) → ¬ rpc.payload.replicates) ∧
      (∀ p, node'.rpcRequestId p = node.rpcRequestId p ∨ node'.rpcRequestId p = 0) ∨
    ∃ peer c rpc s, event = some (.send c rpc s) ∧ node.connectionForPeer peer = some c ∧
      node'.rpcRequestId = Function.update node.rpcRequestId peer node.nextRpcId

omit [Protobuf] in
theorem requests_forgetting (node : RaftNode) (affected : Int → Bool) (p : Int) :
    (node.forgetting affected).rpcRequestId p = node.rpcRequestId p ∨ (node.forgetting affected).rpcRequestId p = 0 := by
  change (if affected p then 0 else node.rpcRequestId p) = _ ∨ (if affected p then 0 else node.rpcRequestId p) = 0
  split
  · exact .inr rfl
  · exact .inl rfl

omit [Protobuf] in
theorem requests_voteSaved (node : RaftNode) (candidate : Int) : (node.voteSaved candidate).rpcRequestId =
    node.rpcRequestId ∧ (node.voteSaved candidate).connections = node.connections := ⟨rfl, rfl⟩

theorem PeerStep.requests (h : PeerStep action l event l') :
    l'.node.connections = l.node.connections ∧ Requests event l.node l'.node := by
  cases h with
  | sendAppend peer c s _ _ hconn => exact ⟨rfl, .inr ⟨peer, c, _, s, rfl, hconn, rfl⟩⟩
  | sendSnapshot peer c request s _ _ hconn => exact ⟨rfl, .inr ⟨peer, c, _, s, rfl, hconn, rfl⟩⟩
  | resumeSnapshot c rpc response request s _ _ _ _ _ _ hconn =>
    generalize toInt32 response.responderId = peer at *
    exact ⟨rfl, .inr ⟨peer, c, _, s, rfl, hconn, rfl⟩⟩
  | forget affected => exact ⟨rfl, .inl ⟨(fun _ _ _ he => nomatch he), requests_forgetting l.node affected⟩⟩
  | ackAppend c rpc response =>
    generalize toInt32 response.responderId = peer
    exact ⟨rfl, .inl ⟨(fun _ _ _ he => nomatch he), requests_forgetting l.node fun p => p == peer⟩⟩
  | backOff c rpc response =>
    generalize toInt32 response.responderId = peer
    exact ⟨rfl, .inl ⟨(fun _ _ _ he => nomatch he), requests_forgetting l.node fun p => p == peer⟩⟩
  | ackSnapshot c rpc response =>
    generalize toInt32 response.responderId = peer
    exact ⟨rfl, .inl ⟨(fun _ _ _ he => nomatch he), requests_forgetting l.node fun p => p == peer⟩⟩
  | _ => exact ⟨rfl, .inl ⟨(fun _ _ _ he => nomatch he), fun _ => .inl rfl⟩⟩

theorem Micro.requests (h : Micro action l event l') :
    (∀ c ∈ l'.node.connections, c ∈ l.node.connections) ∧ Requests event l.node l'.node := by
  rcases h with h | h | h | h | h | h | h | h | h
  case role =>
    cases h with
    | grant c rpc request =>
      obtain ⟨hid, hconn⟩ := requests_voteSaved l.node (toInt64 request.candidateId)
      exact ⟨fun c hc => hconn ▸ hc, .inl ⟨(fun _ _ _ he => nomatch he), fun p => .inl (congrFun hid p)⟩⟩
    | _ => exact ⟨fun _ hc => hc, .inl ⟨(fun _ _ _ he => nomatch he), fun _ => .inl rfl⟩⟩
  case peer =>
    obtain ⟨hsame, hrequests⟩ := h.requests
    exact ⟨fun _ hc => hsame ▸ hc, hrequests⟩
  case conn =>
    cases h with
    | close => exact ⟨fun _ hc => (List.mem_filter.mp hc).1, .inl ⟨(fun _ _ _ he => nomatch he), fun _ => .inl rfl⟩⟩
    | _ => exact ⟨fun _ hc => hc, .inl ⟨(fun _ _ _ he => nomatch he), fun _ => .inl rfl⟩⟩
  all_goals
    cases h <;> refine ⟨fun _ hc => hc, .inl ⟨?_, fun _ => .inl rfl⟩⟩ <;> rintro _ _ _ ⟨⟩ <;> exact fun hr => hr

/-- An id that is awaited is the one of the latest request to the peer. -/
theorem Tracked.latest (h : Tracked config timely w A) (hview : w.views n = .active l)
    (hold : Superseded w.history n connection rpc) (hlive : connection ∈ l.node.connections) (hid : rpc.requestId ≠ 0) :
    rpc.requestId ≠ l.node.rpcRequestId (connection.otherEnd n) := by
  refine h.each (P := fun w _ n l => ∀ connection rpc, Superseded w.history n connection rpc →
    connection ∈ l.node.connections → rpc.requestId ≠ 0 →
      rpc.requestId ≠ l.node.rpcRequestId (connection.otherEnd n)) ?_ ?_ ?_ ?_ n l hview connection rpc hold hlive hid
  · exact fun _ _ _ _ _ _ _ _ _ _ _ _ _ hlive => absurd hlive List.not_mem_nil
  · intro w w' A n l c _ _ hhistory hfresh _ ih connection rpc hold hlive
    rw [hhistory] at hold
    rcases List.mem_cons.mp hlive with rfl | hlive
    · exact absurd rfl (hfresh _ hold.mem_packets rfl)
    · exact ih connection rpc hold hlive
  · intro w w' A A' n action l l' event htracked _ hview _ _ hmicro hhistory _ ih connection rpc hold hlive hid
    obtain ⟨hconnections, hrequests⟩ := hmicro.requests
    have hbefore : connection ∈ l.node.connections := hconnections _ hlive
    rcases hrequests with ⟨hquiet, hids⟩ | ⟨peer, c, rpc', s, rfl, hconn, hids⟩
    · have hsame : Superseded w.history n connection rpc := by
        rw [hhistory] at hold
        cases event with
        | none => rwa [Option.toList_none, List.map_nil, List.append_nil] at hold
        | some e =>
          refine hold.concat.resolve_right ?_
          rintro ⟨-, -, -, c', rpc', s', rfl, hreplicates, -⟩
          exact hquiet c' rpc' s' rfl hreplicates
      rcases hids (connection.otherEnd n) with hkept | hzero
      · exact hkept ▸ ih connection rpc hsame hbefore hid
      · exact hzero ▸ hid
    · -- a request to the peer gets an id that no earlier request had
      have hwired := (htracked.wired.active n l hview).wired peer c hconn
      have hfresh := (htracked.related.active n l hview).numbering.fresh ⟨connection, n, rpc⟩
      have hcases := Superseded.concat (hhistory ▸ hold)
      rw [hids]
      by_cases hp : connection.otherEnd n = peer
      · rw [hp, Function.update_self]
        rcases hcases with hsame | ⟨hreplicates, hmem, -⟩
        · exact (hfresh hsame.mem_packets rfl hbefore hsame.1).ne
        · exact (hfresh hmem rfl hbefore hreplicates).ne
      · rw [Function.update_of_ne hp]
        refine ih connection rpc (hcases.resolve_right ?_) hbefore hid
        rintro ⟨-, -, -, c', rpc', s', hsent, -, hpeer⟩
        obtain ⟨rfl, -, -⟩ := Event.send.inj hsent
        exact hp (hpeer.symm.trans hwired.2)
  · intro w w' A A' n m l event hm _ _ _ hstep _ ih connection rpc hold
    refine ih connection rpc ?_
    rw [hstep.history] at hold
    cases event with
    | none => rwa [Option.toList_none, List.map_nil, List.append_nil] at hold
    | some e => exact hold.concat.resolve_right fun hnow => hm hnow.2.2.1.symm

end Latest

namespace Cluster

section Runs

variable [Protobuf] {config : Config} {cluster : Cluster}

omit [Protobuf] in
/-- The node a function starts from: a new one, or the one the last function left with the change of a connection. -/
theorem timed_entry {peers : List Int} {n : Int} {action : LoopAction} {node : RaftNode}
    (hentry : entry peers cluster n action = some node)
    (h : ∀ node, cluster.nodes n = .running node → node.Timed) : node.Timed := by
  unfold entry at hentry
  split at hentry
  · split at hentry
    · obtain rfl := Option.some.inj hentry
      exact RaftNode.timed_of_role (by simp [RaftNode.create])
    · cases hentry
  · next before hbefore =>
    split at hentry
    · obtain rfl := Option.some.inj hentry
      have htimed := h before hbefore
      cases action <;> exact htimed
    · cases hentry

theorem Reachable.timed (h : Reachable config cluster) {n : Int} {node : RaftNode}
    (hnode : cluster.nodes n = .running node)
    (hfit : ∀ connection rpc s, (n, .refuseFrame connection rpc s) ∉ cluster.history) : node.Timed := by
  induction h generalizing node with
  | initial => cases hnode
  | @step cluster cluster' act _ _ hexec ih =>
    rcases exec_running hexec hnode with ⟨hsame, events, hhistory⟩ | ⟨action, before, events, hstop, hentry, hrun, hhistory⟩
    all_goals
      rw [hhistory] at hfit
      have hold : ∀ connection rpc s, (n, .refuseFrame connection rpc s) ∉ cluster.history := fun connection rpc s hmem =>
        hfit connection rpc s (List.mem_append_left _ hmem)
    · exact ih hsame hold
    · have hbefore : before.Timed := timed_entry hentry fun _ hnode => ih hnode hold
      have hend := (keeps_program n hstop [] before fun _ => hbefore).run
      rw [hrun] at hend
      exact hend fun connection rpc s hmem =>
        hfit connection rpc s (List.mem_append_right _ (List.mem_map_of_mem hmem))

/-! ### Answers to earlier requests -/

/-- What binding the sender to a connection leaves: an answer is awaited on it only if it was before. -/
structure Binds (connection : Conn) (s s' : RaftNode) : Prop where
  nextIndex : s'.nextIndex = s.nextIndex
  matchIndex : s'.matchIndex = s.matchIndex
  awaited : ∀ p, s'.connectionForPeer p = some connection → s'.rpcRequestId p ≠ 0 →
    s'.rpcRequestId p = s.rpcRequestId p ∧ s.connectionForPeer p = some connection

omit [Protobuf] in
theorem Binds.setInbound {connection : Conn} {s t : RaftNode} {peer : Int} (hnext : t.nextIndex = s.nextIndex)
    (hmatch : t.matchIndex = s.matchIndex) (hconn : ∀ p, t.connectionForPeer p = s.connectionForPeer p)
    (hothers : ∀ p, p ≠ peer → t.rpcRequestId p = s.rpcRequestId p)
    (hpeer : t.rpcRequestId peer ≠ 0 → t.rpcRequestId peer = s.rpcRequestId peer ∧
      s.connectionForPeer peer = some connection) :
    Binds connection s
      { t with inboundConnections := Function.update t.inboundConnections peer (some connection) } := by
  refine ⟨hnext, hmatch, fun p hp hid => ?_⟩
  rw [t.connectionForPeer_inbound] at hp
  by_cases hpp : p = peer
  · subst hpp
    exact hpeer hid
  · rw [if_neg fun hand => hpp hand.1, hconn] at hp
    exact ⟨hothers p hpp, hp⟩

omit [Protobuf] in
theorem returns_registerSender {es : List Event} {s : RaftNode} {connection : Conn} {senderId : Nat}
    (hidle : ∀ p, s.connectionForPeer p = none → s.rpcRequestId p = 0) :
    Prog.Returns (NodeM.registerSender connection senderId) (fun _ _ => Binds connection s) es s := by
  have hsame : Binds connection s s := ⟨rfl, rfl, fun _ hp _ => ⟨rfl, hp⟩⟩
  refine .get (.ite (fun _ => .ret hsame) fun _ => .ite (fun hlt => .bind ?_) fun hge => ?_)
  · generalize toInt32 senderId = peer at hlt ⊢
    have hinbound : s.connectionForPeer peer = s.inboundConnections peer := if_neg (not_lt.mpr hlt.le)
    cases hin : s.inboundConnections peer with
    | none =>
      exact .ret (.bind (.modify (.ret (.setInbound rfl rfl (fun _ => rfl) (fun _ _ => rfl) fun hid =>
        absurd (hidle peer (hinbound.trans hin)) hid))))
    | some current =>
      refine .when (fun _ => .bind (.get (.when (fun _ => .modify (.modify ?_)) fun hno => ?_))) fun heq => ?_
      · exact .bind (.modify (.ret (.setInbound rfl rfl (fun _ => rfl) (fun p hp => if_neg (by simpa using hp))
          fun hid => absurd (if_pos (beq_self_eq_true peer)) hid)))
      · exact absurd (hinbound.trans hin) hno
      · refine .bind (.modify (.ret (.setInbound rfl rfl (fun _ => rfl) (fun _ _ => rfl) fun _ => ⟨rfl, ?_⟩)))
        rw [hinbound, hin, Decidable.not_not.mp heq]
  · cases hout : s.outboundConnections (toInt32 senderId) with
    | none =>
      refine .bind (.modify (.ret ⟨rfl, rfl, fun p hp hid => ⟨rfl, ?_⟩⟩))
      rw [s.connectionForPeer_outbound] at hp
      split at hp
      · next hpp =>
        obtain ⟨rfl, hlt⟩ := hpp
        exact absurd (hidle _ ((if_pos hlt).trans hout)) hid
      · exact hp
    | some current =>
      exact .ite (fun _ => .ret hsame) fun _ => .bind (.modify (.ret ⟨rfl, rfl, fun p hp _ => ⟨rfl, hp⟩⟩))

/-- An answer to a request that is not awaited changes nothing about the progress of the peers. -/
theorem ends_stale_answer {es : List Event} {s : RaftNode} {connection : Conn} {rpc : Proto.RaftRpc}
    (hanswer : (∃ response, rpc.payload = .appendEntriesResponse response) ∨
      ∃ response, rpc.payload = .installSnapshotResponse response)
    (hstale : ∀ p, s.connectionForPeer p = some connection → s.rpcRequestId p ≠ 0 → rpc.requestId ≠ s.rpcRequestId p) :
    Prog.Ends (NodeM.dispatch connection rpc)
      (fun _ _ s' => s'.nextIndex = s.nextIndex ∧ s'.matchIndex = s.matchIndex)
      (fun _ s' => s'.nextIndex = s.nextIndex ∧ s'.matchIndex = s.matchIndex) es s := by
  have hdown : ∀ term, Prog.Ends (NodeM.stepDown term)
      (fun _ _ s' => s'.nextIndex = s.nextIndex ∧ s'.matchIndex = s.matchIndex)
      (fun _ s' => s'.nextIndex = s.nextIndex ∧ s'.matchIndex = s.matchIndex) es s := fun term =>
    ends_stepDown.weaken (fun _ _ _ h => ⟨congrArg ReplicationState.nextIndex h.1.replication,
        congrArg ReplicationState.matchIndex h.1.replication⟩) fun _ _ h =>
      ⟨congrArg ReplicationState.nextIndex h.1.replication, congrArg ReplicationState.matchIndex h.1.replication⟩
  unfold NodeM.dispatch
  rcases hanswer with ⟨response, hpayload⟩ | ⟨response, hpayload⟩
  all_goals
    rw [hpayload]
    refine .get (.ite (fun _ => hdown _) fun _ => .ite (fun _ => .ret ⟨rfl, rfl⟩) fun hpass => ?_)
    simp only [not_or, not_not] at hpass
  · obtain ⟨-, -, hpos, hid, hconn⟩ := hpass
    exact absurd hid (hstale _ hconn (hid ▸ hpos))
  · obtain ⟨-, -, hpos, -, hid, -, hconn⟩ := hpass
    exact absurd hid (hstale _ hconn (hid ▸ hpos))

omit [Protobuf] in
/-- The callback of a timeout that finds everything as it captured it clears the flag. -/
theorem returns_rpcTimeout {es : List Event} {s : RaftNode} {timeout : RpcTimeout} (hrole : s.role = .leader)
    (hinflight : s.rpcInflight timeout.peerId = true) (hcurrent : s.Current timeout) :
    Prog.Returns (NodeM.rpcTimeout timeout) (fun _ _ s' => s'.rpcInflight timeout.peerId = false) es s := by
  obtain ⟨hgeneration, hid, hconnection, htype⟩ := hcurrent
  refine .bind (.modify (.get (.ite (fun hstale => ?_) fun _ => ?_)))
  · rcases hstale with hno | hno | ⟨hsnapshot, hno⟩ | hno | hno | hno
    · exact absurd hrole hno
    · exact nomatch hno.symm.trans hinflight
    · exact nomatch hno.symm.trans (htype hsnapshot)
    · exact absurd hgeneration hno
    · exact absurd hid hno
    · exact absurd hconnection hno
  · refine .bind (.get (.when (fun _ => .modify ?_) fun hno => absurd hconnection hno))
    have hcleared : ∀ t : RaftNode, (NodeM.resetPeers (fun p => p == timeout.peerId) t).rpcInflight timeout.peerId =
        false := fun t => if_pos (beq_self_eq_true _)
    exact .ite (fun _ => .modify (hcleared _)) fun _ => .bind (.modify (.modify (hcleared _)))

/-- A leader that waits for an answer of a peer has a timeout pending for it that captured the present generation, id
and connection and whose type fits: when it runs out, the flag is cleared. And an answer to a request after which another
one was sent to the peer leaves `next_index_` and `match_index_` as they are. -/
theorem inflight_cleared (h : Reachable config cluster) {n : Int} {node : RaftNode}
    (hnode : cluster.nodes n = .running node) :
    ((∀ connection rpc s, (n, .refuseFrame connection rpc s) ∉ cluster.history) → node.role = .leader →
      ∀ p ∈ config.peers, p ≠ n → node.rpcInflight p = true →
        ∃ timeout ∈ node.rpcTimeouts, timeout.peerId = p ∧ node.Current timeout ∧
          ∃ cluster' node', exec config.peers cluster (.run n (.rpcTimeout timeout)) = some cluster' ∧
            cluster'.nodes n = .running node' ∧ node'.rpcInflight p = false) ∧
    ∀ connection rpc answer cluster', Superseded cluster.history n connection rpc → answer.requestId = rpc.requestId →
      ((∃ response, answer.payload = .appendEntriesResponse response) ∨
        ∃ response, answer.payload = .installSnapshotResponse response) →
      exec config.peers cluster (.run n (.receive connection answer)) = some cluster' →
        ∃ node', cluster'.nodes n = .running node' ∧ node'.nextIndex = node.nextIndex ∧
          node'.matchIndex = node.matchIndex := by
  obtain ⟨A, hA⟩ := h.reach.tracked
  have hview : cluster.world.views n = .active (.rest node) := congrArg Status.view hnode
  have hactive := hA.wired.active n _ hview
  constructor
  · intro hfit hrole p hp hne hinflight
    have hother : p ∈ node.otherPeers := RaftNode.mem_otherPeers.mpr ⟨hactive.peers ▸ hp, hactive.serverId ▸ hne⟩
    obtain ⟨timeout, hmem, rfl, hcurrent⟩ := h.timed hnode hfit hrole p hother hinflight
    obtain ⟨_, node', events, hrun, hcleared⟩ := (@returns_rpcTimeout [] node timeout hrole hinflight hcurrent).run
    have hentry : entry config.peers cluster n (.rpcTimeout timeout) = some node := by
      unfold entry
      rw [hnode]
      exact if_pos hmem
    exact ⟨timeout, hmem, rfl, hcurrent, _, node', exec_run (by simp) hentry hrun, after_nodes_self .., hcleared⟩
  · intro connection rpc answer cluster' hold hid hanswer hexec
    have hentry : entry config.peers cluster n (.receive connection answer) = some node := by
      cases hentry : entry config.peers cluster n (.receive connection answer) with
      | none => simp [exec, hentry] at hexec
      | some before =>
        simp only [entry, hnode, prepare] at hentry
        split at hentry
        · exact hentry.symm
        · cases hentry
    have hstale : ∀ p, node.connectionForPeer p = some connection → node.rpcRequestId p ≠ 0 →
        answer.requestId ≠ node.rpcRequestId p := by
      intro p hp hawaited
      obtain ⟨hlive, rfl⟩ := hactive.wired p connection hp
      by_cases hzero : rpc.requestId = 0
      · exact fun heq => hawaited (heq.symm.trans (hid.trans hzero))
      · exact hid ▸ hA.latest hview hold hlive hzero
    have hreturns : Prog.Returns (NodeM.handleRpc connection answer)
        (fun _ _ s' => s'.nextIndex = node.nextIndex ∧ s'.matchIndex = node.matchIndex) [] node := by
      have hidle : ∀ p, node.connectionForPeer p = none → node.rpcRequestId p = 0 :=
        (hA.related.active n _ hview).idle
      refine .attempt (.bind ((returns_registerSender hidle).weaken ?_ fun _ _ h => h.elim))
      rintro known es s' ⟨hnext, hmatch, hawaited⟩
      refine .when (fun _ => (ends_stale_answer hanswer fun p hp hpos => ?_).weaken ?_ ?_) fun _ => ⟨hnext, hmatch⟩
      · obtain ⟨hsame, hconn⟩ := hawaited p hp hpos
        exact hsame ▸ hstale p hconn (hsame ▸ hpos)
      · exact fun _ _ _ h => ⟨h.1.trans hnext, h.2.trans hmatch⟩
      · exact fun _ _ h _ => .modify ⟨h.1.trans hnext, h.2.trans hmatch⟩
    obtain ⟨_, node', events, hrun, hindexes⟩ := hreturns.run
    rw [exec_run (by simp) hentry hrun] at hexec
    obtain rfl := Option.some.inj hexec
    exact ⟨node', after_nodes_self .., hindexes⟩

/-- Whether the event is that a message was too large. -/
def refusesFrame : Event → Bool
  | .refuseFrame .. => true
  | _ => false

omit [Protobuf] in
/-- Node 1 is elected by node 2 and sends it its first request. -/
theorem inflight_cleared_elected : ∃ cluster node timeout, @Reachable Wire.protobuf trio cluster ∧
    cluster.nodes 1 = .running node ∧ node.role = .leader ∧ node.rpcInflight 2 = true ∧ timeout ∈ node.rpcTimeouts ∧
    timeout.peerId = 2 ∧ node.Current timeout := by
  obtain ⟨cluster, hrun, htest⟩ := @run_of_play Wire.protobuf trio (fun _ _ => True) _
    [.act (.run 1 .start), .act (.run 2 .start), .act (.run 1 (.connect 2 0)), .act (.run 2 (.accept ⟨1, 2, 0⟩)),
      .act (.run 1 .electionTimeout), .deliver 1, .deliver 2]
    (fun cluster => !cluster.occurs 1 refusesFrame && (cluster.nodes 1).runs fun node =>
      decide (node.role = .leader) && node.rpcInflight 2) (by decide +kernel)
  simp only [Bool.and_eq_true, Bool.not_eq_true'] at htest
  obtain ⟨hrefused, htest⟩ := htest
  obtain ⟨node, hnode, htest⟩ := Status.exists_of_runs htest
  simp only [Bool.and_eq_true, decide_eq_true_eq] at htest
  obtain ⟨hrole, hinflight⟩ := htest
  obtain ⟨timeout, hmem, hpeer, hcurrent, -⟩ := (@inflight_cleared Wire.protobuf trio cluster hrun 1 node hnode).1
    (fun _ _ _ => not_mem_of_not_occurs hrefused rfl) hrole 2 (by decide) (by decide) hinflight
  exact ⟨cluster, node, timeout, hrun, hnode, hrole, hinflight, hmem, hpeer, hcurrent⟩

end Runs

end Cluster

end Nukv
