import Nukv.Proof.World

/-!
# Who is connected to whom

The part of the invariant that has nothing to do with logs and terms: every node knows its own id and its
peers, a connection joins two peers, a frame carries the id of the end that sent it, and the entries of an
AppendEntries request are consecutive. It is what the analysis of the handlers relies on.
-/

namespace Nukv

open Base

variable [Protobuf]

namespace Micro

variable {action : LoopAction} {l l' : Local} {event : Option Event}

theorem connection (h : Micro action l event l') :
    l'.node.toConnectionState = l.node.toConnectionState ∨ ConnStep action l event l' := by
  rcases h with h | h | h | h | h | h | h | h | h
  case conn => exact .inr h
  all_goals left; cases h <;> rfl

theorem connections_subset (h : Micro action l event l') {c : Conn} (hc : c ∈ l'.node.connections) :
    c ∈ l.node.connections := by
  rcases h.connection with hsame | hconn
  · rwa [congrArg ConnectionState.connections hsame] at hc
  · cases hconn with
    | close connection => exact (List.mem_filter.mp hc).1
    | _ => exact hc

/-- The steps of other kinds leave the reads alone, or drop them all with the leadership. -/
theorem reading (h : Micro action l event l') : ReadStep action l event l' ∨
    (∀ s, event ≠ some (.activateRead s)) ∧ l'.answering = l.answering ∧
      (l'.node.toReadState = l.node.toReadState ∨
        l'.node.activeReadIndex = none ∧ l'.node.pendingReadIndexes = []) := by
  rcases h with h | h | h | h | h | h | h | h | h
  case read => exact .inl h
  case role =>
    right
    cases h with
    | adoptTerm => exact ⟨by simp, rfl, .inr ⟨rfl, rfl⟩⟩
    | demote => exact ⟨by simp, rfl, .inr ⟨rfl, rfl⟩⟩
    | _ => exact ⟨by simp, rfl, .inl rfl⟩
  all_goals right; cases h <;> exact ⟨by simp, rfl, .inl rfl⟩

theorem faults (h : Micro action l event l') (hfaults : l.node.store.faults = []) :
    l'.node.store.faults = [] := by
  rcases h with h | h | h | h | h | h | h | h | h <;> cases h <;> first | exact hfaults | rfl

/-- The store after a step is the one its write event carries. -/
theorem store (h : Micro action l event l') :
    l'.node.store = Cluster.storeAfter l.node.store event.toList := by
  rcases h with h | h | h | h | h | h | h | h | h
  all_goals cases h
  all_goals first
    | rfl
    | exact Eq.symm ‹_›
    | (have hstore := congrArg (fun t : RaftNode => t.store) (by assumption : RaftNode.core _ = _)
       exact hstore.symm)

/-- A frame goes out on a live connection and carries the id of its sender. -/
theorem sent {c : Conn} {rpc : Proto.RaftRpc} {s : RaftNode} (h : Micro action l (some (.send c rpc s)) l') :
    c ∈ l.node.connected ∧ rpc.senderId = toUint64 l.node.serverId ∧
      ∀ request, rpc.payload = .appendEntries request →
        ∃ peer, request = NodeM.appendRequest l.node peer := by
  rcases h with h | h | h | h | h | h | h | h | h <;> cases h
  all_goals exact ⟨by assumption, rfl, by simp⟩

end Micro

omit [Protobuf] in
theorem consecutive_mapIdx (entries : List RaftLogEntry) (next : Nat) :
    Consecutive next (entries.mapIdx fun offset entry => ⟨next + 1 + offset, entry.term, entry.command⟩) := by
  induction entries generalizing next with
  | nil => trivial
  | cons entry rest ih =>
    rw [List.mapIdx_cons]
    refine ⟨rfl, ?_⟩
    have hshift : (fun (offset : Nat) (entry : RaftLogEntry) =>
        (⟨next + 1 + (offset + 1), entry.term, entry.command⟩ : Proto.RaftLogEntry)) =
        fun offset entry => ⟨next + 1 + 1 + offset, entry.term, entry.command⟩ := by
      funext offset entry
      congr 1
      omega
    rw [hshift]
    exact ih (next + 1)

omit [Protobuf] in
theorem consecutive_appendRequest (node : RaftNode) (peer : Int) :
    Consecutive (NodeM.appendRequest node peer).prevLogIndex (NodeM.appendRequest node peer).entries := by
  have hnext : max 1 (min (node.nextIndexOf peer) (node.lastIndex + 1)) =
      max 1 (min (node.nextIndexOf peer) (node.lastIndex + 1)) - 1 + 1 := by omega
  unfold NodeM.appendRequest
  dsimp only
  generalize max 1 (min (node.nextIndexOf peer) (node.lastIndex + 1)) = next at hnext ⊢
  obtain ⟨prev, rfl⟩ : ∃ prev, next = prev + 1 := ⟨next - 1, hnext⟩
  rw [Nat.add_sub_cancel]
  exact consecutive_mapIdx _ prev

/-- A running node and its connections. -/
structure ActiveWired (config : Config) (w : World) (n : Int) (node : RaftNode) : Prop where
  member : n ∈ config.peers
  serverId : node.serverId = n
  peers : node.peers = config.peers
  faults : node.store.faults = []
  opened : ∀ c ∈ node.connections, c ∈ w.opened ∧ (c.client = n ∨ c.server = n ∧ c ∈ w.accepted)
  connected : ∀ c ∈ node.connected, c ∈ node.connections
  wired : ∀ p c, node.connectionForPeer p = some c → c ∈ node.connections ∧ c.otherEnd n = p

/-- A frame of the cluster. -/
structure PacketWired (w : World) (packet : Packet) : Prop where
  opened : packet.connection ∈ w.opened
  sender : packet.connection.client = packet.sender ∨
    packet.connection.server = packet.sender ∧ packet.connection ∈ w.accepted
  senderId : packet.rpc.senderId = toUint64 packet.sender
  entries : ∀ request, packet.rpc.payload = .appendEntries request →
    Consecutive request.prevLogIndex request.entries

structure Wired (config : Config) (w : World) : Prop where
  active : ∀ n l, w.views n = .active l → ActiveWired config w n l.node
  down : ∀ n store, w.views n = .down store → store.faults = []
  opened : ∀ c ∈ w.opened, c.client ∈ config.peers ∧ c.server ∈ config.peers ∧ c.client < c.server
  packets : ∀ packet ∈ packets w.history, PacketWired w packet

omit [Protobuf] in
theorem Wired.initial (config : Config) : Wired config World.initial where
  active := fun n l h => absurd h (by simp [World.initial, Cluster.world, Cluster.initial, Status.view])
  down := by
    intro n store h
    obtain rfl : RocksKVStore.empty = store := by
      simpa [World.initial, Cluster.world, Cluster.initial, Status.view] using h
    rfl
  opened := by simp [World.initial, Cluster.world, Cluster.initial]
  packets := by simp [World.initial, Cluster.world, Cluster.initial, Nukv.packets]

section Steps

variable {config : Config} {timely : Prop} {w w' : World}

omit [Protobuf] in
theorem ActiveWired.mono {n : Int} {node : RaftNode} (h : ActiveWired config w n node)
    (hopened : ∀ c ∈ w.opened, c ∈ w'.opened) (haccepted : ∀ c ∈ w.accepted, c ∈ w'.accepted) :
    ActiveWired config w' n node :=
  { h with opened := fun c hc => (h.opened c hc).imp (hopened c) (.imp id (.imp id (haccepted c))) }

omit [Protobuf] in
theorem PacketWired.mono {packet : Packet} (h : PacketWired w packet)
    (hopened : ∀ c ∈ w.opened, c ∈ w'.opened) (haccepted : ∀ c ∈ w.accepted, c ∈ w'.accepted) :
    PacketWired w' packet :=
  ⟨hopened _ h.opened, h.sender.imp id (.imp id (haccepted _)), h.senderId, h.entries⟩

theorem ActiveWired.micro {n : Int} {action : LoopAction} {l l' : Local} {event : Option Event}
    (h : ActiveWired config w n l.node) (hstep : Micro action l event l')
    (hsender : ∀ c rpc, action = .receive c rpc → toInt32 rpc.senderId = c.otherEnd n) :
    ActiveWired config w n l'.node := by
  have hidentity := hstep.identity
  have hserver : l'.node.serverId = n := (congrArg Identity.serverId hidentity).trans h.serverId
  have hpeers : l'.node.peers = config.peers := (congrArg Identity.peers hidentity).trans h.peers
  rcases hstep.connection with hsame | hconn
  · have hconnections : l'.node.connections = l.node.connections := congrArg ConnectionState.connections hsame
    have hconnected : l'.node.connected = l.node.connected := congrArg ConnectionState.connected hsame
    have hpeer : ∀ p, l'.node.connectionForPeer p = l.node.connectionForPeer p := fun p => by
      unfold RaftNode.connectionForPeer
      rw [hserver, h.serverId, congrArg ConnectionState.outboundConnections hsame,
        congrArg ConnectionState.inboundConnections hsame]
    refine ⟨h.member, hserver, hpeers, hstep.faults h.faults, ?_, ?_, ?_⟩
    · rw [hconnections]; exact h.opened
    · rw [hconnections, hconnected]; exact h.connected
    · intro p
      rw [hconnections, hpeer]
      exact h.wired p
  · cases hconn with
    | reconnect outbound inbound hchange =>
      refine ⟨h.member, hserver, hpeers, h.faults, h.opened, h.connected, fun p c hc => ?_⟩
      rcases hchange p with hsame | ⟨-, hnew⟩
      · exact h.wired p c (hsame.symm.trans hc)
      · obtain ⟨hmem, -, ⟨rpc, haction, hpeer⟩ | ⟨serial, -, rfl⟩⟩ := hnew c hc
        · exact ⟨hmem, (hsender c rpc haction).symm.trans hpeer⟩
        · exact ⟨hmem, if_pos h.serverId⟩
    | shutdown connected hsub =>
      exact ⟨h.member, hserver, hpeers, h.faults, h.opened, fun c hc => h.connected c (hsub c hc), h.wired⟩
    | close connection hfree =>
      refine ⟨h.member, hserver, hpeers, h.faults, fun c hc => h.opened c (List.mem_filter.mp hc).1,
        fun c hc => ?_, fun p c hc => ?_⟩
      · obtain ⟨hmem, hne⟩ := List.mem_filter.mp hc
        exact List.mem_filter.mpr ⟨h.connected c hmem, hne⟩
      · obtain ⟨hmem, hend⟩ := h.wired p c hc
        refine ⟨List.mem_filter.mpr ⟨hmem, ?_⟩, hend⟩
        simp only [ne_eq, decide_not, Bool.not_eq_true', decide_eq_false_iff_not]
        rintro rfl
        rw [h.serverId, hend] at hfree
        exact hfree hc

/-- A frame that a wired node sends. -/
theorem ActiveWired.sent {n : Int} {action : LoopAction} {l l' : Local} {c : Conn} {rpc : Proto.RaftRpc}
    {s : RaftNode} (h : ActiveWired config w n l.node) (hstep : Micro action l (some (.send c rpc s)) l') :
    PacketWired w ⟨c, n, rpc⟩ := by
  obtain ⟨hconnected, hsender, hentries⟩ := hstep.sent
  obtain ⟨hopened, hend⟩ := h.opened c (h.connected c hconnected)
  refine ⟨hopened, hend, h.serverId ▸ hsender, fun request hrequest => ?_⟩
  obtain ⟨peer, rfl⟩ := hentries request hrequest
  exact consecutive_appendRequest l.node peer

omit [Protobuf] in
/-- A connection that came up. -/
theorem ActiveWired.joined {n : Int} {node : RaftNode} (h : ActiveWired config w n node) (c : Conn)
    (hc : c ∈ w.opened ∧ (c.client = n ∨ c.server = n ∧ c ∈ w.accepted)) :
    ActiveWired config w n
      { node with connections := c :: node.connections, connected := c :: node.connected } where
  member := h.member
  serverId := h.serverId
  peers := h.peers
  faults := h.faults
  opened := List.forall_mem_cons.mpr ⟨hc, h.opened⟩
  connected := List.forall_mem_cons.mpr ⟨List.mem_cons_self, fun c' hc' =>
    List.mem_cons_of_mem _ (h.connected c' hc')⟩
  wired := fun p c' hc' => (h.wired p c' hc').imp (List.mem_cons_of_mem _) id

omit [Protobuf] in
/-- One node moved, and connections were only added. -/
theorem Wired.moved (h : Wired config w) {n : Int} {view : View} {event : Option Event}
    {opened accepted : List Conn} (hopened : ∀ c ∈ w.opened, c ∈ opened)
    (haccepted : ∀ c ∈ w.accepted, c ∈ accepted)
    (hjoins : ∀ c ∈ opened, c.client ∈ config.peers ∧ c.server ∈ config.peers ∧ c.client < c.server)
    (hactive : ∀ l, view = .active l →
      ActiveWired config { w.moved n view event with opened := opened, accepted := accepted } n l.node)
    (hdown : ∀ store, view = .down store → store.faults = [])
    (hsent : ∀ c rpc s, event = some (.send c rpc s) →
      PacketWired { w.moved n view event with opened := opened, accepted := accepted } ⟨c, n, rpc⟩) :
    Wired config { w.moved n view event with opened := opened, accepted := accepted } where
  active := by
    intro m l hview
    by_cases hm : m = n
    · subst hm
      exact hactive l ((w.moved_views_self m view event).symm.trans hview)
    · exact (h.active m l ((w.moved_views_of_ne view event hm).symm.trans hview)).mono hopened haccepted
  down := by
    intro m store hview
    by_cases hm : m = n
    · subst hm
      exact hdown store ((w.moved_views_self m view event).symm.trans hview)
    · exact h.down m store ((w.moved_views_of_ne view event hm).symm.trans hview)
  opened := hjoins
  packets := by
    intro packet hpacket
    have hold : packet ∈ Nukv.packets w.history →
        PacketWired { w.moved n view event with opened := opened, accepted := accepted } packet :=
      fun hmem => (h.packets packet hmem).mono hopened haccepted
    cases event with
    | none => exact hold (by simpa using hpacket)
    | some event =>
      rcases World.mem_packets_append.mp (w.moved_history_some n view event ▸ hpacket) with hmem | hnew
      · exact hold hmem
      · cases event with
        | send c rpc s =>
          obtain rfl := Option.some.inj hnew
          exact hsent c rpc s rfl
        | _ => exact absurd hnew (by simp [Packet.ofEvent])

omit [Protobuf] in
/-- A frame of the cluster names the other end of its connection. -/
theorem Wired.sender (h : Wired config w) {n : Int} {c : Conn} {rpc : Proto.RaftRpc}
    (hpacket : ⟨c, c.otherEnd n, rpc⟩ ∈ Nukv.packets w.history) : toInt32 rpc.senderId = c.otherEnd n := by
  obtain ⟨hopened, -, hid, -⟩ := h.packets _ hpacket
  obtain ⟨hclient, hserver, -⟩ := h.opened c hopened
  have hpeer : c.otherEnd n ∈ config.peers := by
    unfold Conn.otherEnd
    split
    · exact hserver
    · exact hclient
  have hpositive := config.positive _ hpeer
  rw [hid, toInt32_toUint64 (by omega) (config.int32 _ hpeer)]

theorem Wired.step {n : Int} {event : Option Event} (h : Wired config w)
    (hstep : World.Step config timely w n event w') : Wired config w' := by
  cases hstep with
  | start store state hview hmember hload =>
    refine h.moved (fun c hc => hc) (fun c hc => hc) h.opened ?_ (by simp) (by simp)
    rintro l hl
    obtain rfl := View.active.inj hl
    refine ⟨hmember, rfl, rfl, h.down n store hview, by simp [Local.loaded, RaftNode.core, RaftNode.create, RaftNode.loaded],
      by simp [Local.loaded, RaftNode.core, RaftNode.create, RaftNode.loaded], fun p c hc => absurd hc ?_⟩
    unfold RaftNode.connectionForPeer
    split <;> simp [Local.loaded, RaftNode.core, RaftNode.create, RaftNode.loaded]
  | die l hview =>
    refine h.moved (fun c hc => hc) (fun c hc => hc) h.opened (by simp) ?_ (by simp)
    rintro store hstore
    obtain rfl := View.down.inj hstore
    exact (h.active n l hview).faults
  | connect peer serial l hview hpeer hlt hfresh =>
    have hactive := h.active n l hview
    refine h.moved (fun c hc => List.mem_cons_of_mem _ hc) (fun c hc => hc) ?_ ?_ (by simp) (by simp)
    · intro c hc
      rcases List.mem_cons.mp hc with rfl | hc
      · exact ⟨hactive.member, hpeer, hlt⟩
      · exact h.opened c hc
    · rintro l' hl'
      obtain rfl := View.active.inj hl'
      refine ActiveWired.joined ?_ ⟨n, peer, serial⟩ ⟨List.mem_cons_self, .inl rfl⟩
      exact hactive.mono (fun c hc => List.mem_cons_of_mem _ hc) fun c hc => hc
  | accept c l hview hopened hserver hfresh =>
    refine h.moved (fun c hc => hc) (fun c hc => List.mem_cons_of_mem _ hc) h.opened ?_ (by simp) (by simp)
    rintro l' hl'
    obtain rfl := View.active.inj hl'
    refine ActiveWired.joined ?_ c ⟨hopened, .inr ⟨hserver, List.mem_cons_self⟩⟩
    exact (h.active n l hview).mono (fun c hc => hc) fun c hc => List.mem_cons_of_mem _ hc
  | micro action l l' _ hview hdue hmicro =>
    have hactive := h.active n l hview
    refine h.moved (fun c hc => hc) (fun c hc => hc) h.opened ?_ (by simp) ?_
    · rintro l'' hl''
      obtain rfl := View.active.inj hl''
      refine (hactive.micro hmicro ?_).mono (fun c hc => hc) fun c hc => hc
      rintro c rpc rfl
      exact h.sender hdue.1
    · rintro c rpc s rfl
      exact (hactive.sent hmicro).mono (fun c hc => hc) fun c hc => hc

theorem World.Reach.wired {config : Config} {timely : Prop} {w : World} (h : Reach config timely w) :
    Wired config w :=
  h.invariant (Wired.initial config) fun _ _ _ _ hw hstep => hw.step hstep

end Steps

end Nukv
