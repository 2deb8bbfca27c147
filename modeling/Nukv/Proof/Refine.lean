import Nukv.Proof.Wiring

/-!
# Every run of the cluster is a run of the world
-/

namespace Nukv

open Base

variable [Protobuf]

/-- Where the small steps of a function start. A connection that comes up is there from the start, one that
went down is given up at the end. -/
def entered (n : Int) : LoopAction → RaftNode → RaftNode
  | .disconnect _, node => node
  | action, node => Cluster.prepare n action node

/-- What the functions of the loop rely on, beyond a calm node. -/
def Prepared (n : Int) (node : RaftNode) : LoopAction → Prop
  | .receive connection _ => connection ∈ node.connections
  | .connect peer _ => peer ∈ node.otherPeers
  | .disconnect connection => connection.client = n → connection.client < connection.server
  | .commitPoll poll => poll ∈ node.commitPolls
  | .start => False
  | _ => True

theorem follows_stop {E : Local → RaftNode → Prop} (n : Int) (node : RaftNode) :
    Prog.Follows (Micro .stop) (Cluster.program n .stop) (fun _ l s => l.node.store = s.store) E
      (Local.rest node) node := by
  refine .bind (.modify (.bind (.modify (.bind (.step (.read (.giveUp [] (List.nil_sublist _)))
    ((follows_failPendingReadIndexes rfl).post ?_))))))
  rintro _ l s ⟨rfl, rfl⟩
  exact .modify rfl

theorem follows_program {n : Int} {action : LoopAction} {node : RaftNode} (hcalm : node.Calm)
    (hserver : node.serverId = n) (hprepared : Prepared n node action) :
    Prog.Follows (Micro action) (Cluster.program n action)
      (fun _ l s => l.node.store = s.store ∧ (action ≠ .stop → Idle none none l s))
      (fun l s => l.node.store = s.store)
      (Local.rest (entered n action node)) (Cluster.prepare n action node) := by
  have hidle : Idle none none (Local.rest node) node := ⟨rfl, hcalm, trivial⟩
  have hQ : ∀ (u : Unit) l s, Idle none none l s → l.node.store = s.store ∧ (action ≠ .stop → Idle none none l s) :=
    fun _ l s hs => ⟨by rw [hs.1]; rfl, fun _ => hs⟩
  have hE : ∀ l s, Failed l s → l.node.store = s.store := fun l s hs => by rw [hs.1]; rfl
  cases action with
  | start => exact absurd hprepared id
  | stop => exact (follows_stop n node).post fun _ l s hs => ⟨hs, fun hne => absurd rfl hne⟩
  | electionTimeout => exact (follows_electionTimeout hidle).weaken hQ hE
  | heartbeatTimeout => exact (follows_heartbeatTimeout hidle).weaken hQ hE
  | rpcTimeout timeout => exact (follows_rpcTimeout hidle).weaken hQ hE
  | readTimeout requestId => exact (follows_readTimeout hidle).weaken hQ hE
  | commitPoll poll => exact (follows_commitPoll hidle hprepared).weaken hQ hE
  | connect peer serial =>
    subst hserver
    exact (follows_onPeerConnected (s := Cluster.prepare node.serverId (.connect peer serial) node)
      ⟨rfl, hcalm, trivial⟩ ⟨List.mem_cons_self, (RaftNode.mem_otherPeers.mp hprepared).2, .inr ⟨serial, rfl, rfl⟩⟩
      hprepared).weaken hQ hE
  | accept connection => exact .ret ⟨rfl, fun _ => ⟨rfl, hcalm, trivial⟩⟩
  | disconnect connection =>
    subst hserver
    refine .ite (fun hclient => ?_) fun _ => ?_
    · exact (follows_onPeerDisconnected hcalm hclient (hprepared hclient)).weaken hQ hE
    · exact (follows_handleConnection hcalm).weaken hQ hE
  | receive connection rpc => exact (follows_handleRpc hidle hprepared).weaken hQ hE
  | submit call => exact (follows_submit hidle).weaken hQ hE
  | readIndex result => exact (follows_readIndex hidle).weaken hQ hE

/-- A process that comes up leaves nothing when its store cannot be read, and starts from what it read
otherwise. -/
theorem program_start {n : Int} {peers : List Int} {store : RocksKVStore} (hfaults : store.faults = [])
    (hnodup : peers.Nodup) :
    ((∃ x, (Cluster.program n .start (RaftNode.create n peers store)).1 = .error x) ∧
      (Cluster.program n .start (RaftNode.create n peers store)).2.1.store = store ∧
      (Cluster.program n .start (RaftNode.create n peers store)).2.2 = []) ∨
    ∃ state l' events, RaftStorage.load store = .ok state ∧
      (Cluster.program n .start (RaftNode.create n peers store)).2.2 = .loadState state :: events ∧
      Prog.Chain (Micro .start) (Local.loaded n peers store state) events l' ∧
      l'.node.store = (Cluster.program n .start (RaftNode.create n peers store)).2.1.store ∧
      ∀ u, (Cluster.program n .start (RaftNode.create n peers store)).1 = .ok u →
        Stands false [] none none RaftNode.Indexed l'
          (Cluster.program n .start (RaftNode.create n peers store)).2.1 := by
  cases hload : RaftStorage.load store with
  | error x =>
    obtain ⟨hresult, hstore, hevents⟩ := startInLoop_error (s := RaftNode.create n peers store) hload
    exact .inl ⟨⟨x, hresult⟩, hstore, hevents⟩
  | ok state =>
    have hrun : Cluster.program n .start (RaftNode.create n peers store) = _ :=
      startInLoop_ok (s := RaftNode.create n peers store) hload rfl rfl rfl
    have hcalm : ((RaftNode.create n peers store).loaded state).Calm :=
      ⟨⟨hfaults, Nat.one_pos, hnodup, rfl, fun _ hne => absurd rfl hne, fun _ hne => absurd rfl hne⟩, rfl⟩
    obtain ⟨l', hchain, hpost⟩ := follows_afterLoad hcalm rfl
    rw [hrun]
    refine .inr ⟨state, l', _, rfl, rfl, hchain, ?_⟩
    dsimp only
    generalize afterLoad ((RaftNode.create n peers store).loaded state) = run at hpost
    obtain ⟨_ | u, node', events⟩ := run
    · exact ⟨by rw [hpost.1]; rfl, by simp⟩
    · exact ⟨by rw [hpost.1]; rfl, fun _ _ => hpost⟩

/-! ### Runs -/

/-- An election that starts without outstanding polls stays without them until a leader is elected. -/
theorem Micro.withoutPolls {l l' : Local} {event : Option Event} (h : Micro .electionTimeout l event l')
    (hbefore : l.node.role = .leader ∨ l.node.commitPolls = [] ∧ l.pushed = none) :
    l'.node.role = .leader ∨ l'.node.commitPolls = [] ∧ l'.pushed = none := by
  rcases h with h | h | h | h | h | h | h | h | h
  case role =>
    cases h with
    | campaign s haction hanswering hrole hstore => exact .inr (hbefore.resolve_left hrole)
    | elect s hrole hquorum hs => exact .inl rfl
    | adoptTerm connection rpc term s haction => cases haction
    | demote connection rpc haction => cases haction
    | grant connection rpc request s haction => cases haction
    | countVote connection rpc response haction => cases haction
  case log =>
    cases h with
    | push call s haction => cases haction
    | _ => exact hbefore
  case submit =>
    cases h with
    | take poll hpoll =>
      refine .inl (hbefore.resolve_right fun hnone => ?_)
      rw [hnone.1] at hpoll
      exact absurd hpoll (by simp)
    | wait poll hpushed =>
      refine .inl (hbefore.resolve_right fun hnone => ?_)
      rw [hnone.2] at hpushed
      exact absurd hpushed (by simp)
    | repeated => exact hbefore
    | _ => exact hbefore.imp id fun hnone => ⟨hnone.1, rfl⟩
  all_goals cases h <;> exact hbefore

namespace World

variable {config : Config} {timely : Prop} {w₀ w : World} {n : Int} {action : LoopAction} {l l' : Local}

theorem Due.micro {event : Option Event} (h : w.Due timely n l action) (hstep : Micro action l event l') :
    (w.moved n (.active l') event).Due timely n l' action := by
  cases action with
  | receive connection rpc =>
    refine ⟨?_, h.2⟩
    cases event with
    | none => rw [moved_history_none]; exact h.1
    | some event => rw [moved_history_some]; exact mem_packets_append.mpr (.inl h.1)
  | electionTimeout => exact fun htimely => hstep.withoutPolls (h htimely)
  | _ => trivial

/-- The world after several events of one node. -/
def ran (w : World) (n : Int) (view : View) (events : List Event) : World :=
  { w with
    views := Function.update w.views n view
    history := w.history ++ events.map fun e => (n, e) }

theorem Leads.chain {events : List Event} (h : Leads config timely w₀ w) (hview : w.views n = .active l)
    (hdue : w.Due timely n l action) (hchain : Prog.Chain (Micro action) l events l') :
    Leads config timely w₀ (w.ran n (.active l') events) := by
  induction hchain generalizing w with
  | nil l =>
    have hsame : w.ran n (.active l) [] = w := by
      unfold ran
      rw [← hview, Function.update_eq_self, List.map_nil, List.append_nil]
    rwa [hsame]
  | @cons l l₁ l₂ event events hstep _ ih =>
    have hmoved := h.step (.micro n action l l₁ event hview hdue hstep)
    have hran := ih hmoved (w.moved_views_self ..) (hdue.micro hstep)
    have hsame : (w.moved n (.active l₁) event).ran n (.active l₂) events =
        w.ran n (.active l₂) (event.toList ++ events) := by
      unfold ran moved
      simp only [Function.update_idem, List.map_append, List.append_assoc]
    rwa [hsame] at hran

omit [Protobuf] in
theorem moved_ran {event : Event} {events : List Event} (view view' : View) :
    (w.moved n view (some event)).ran n view' events = w.ran n view' (event :: events) := by
  unfold ran moved
  simp only [Function.update_idem, Option.toList, List.map_cons, List.map_nil, List.append_assoc,
    List.singleton_append]

/-- A node dies after some events. -/
theorem Leads.dies {events : List Event} (h : Leads config timely w₀ (w.ran n (.active l) events)) :
    Leads config timely w₀ (w.ran n (.down l.node.store) events) := by
  have hdead := h.step (.die n l (Function.update_self ..))
  have hsame : (w.ran n (.active l) events).moved n (.down l.node.store) none =
      w.ran n (.down l.node.store) events := by
    unfold ran moved
    simp only [Function.update_idem, Option.toList, List.map_nil, List.append_nil]
  rwa [hsame] at hdead

end World

omit [Protobuf] in
theorem Cluster.storeAfter_append (store : RocksKVStore) (events events' : List Event) :
    storeAfter store (events ++ events') = storeAfter (storeAfter store events) events' := by
  induction events generalizing store with
  | nil => rfl
  | cons event events ih =>
    cases event <;> exact ih _

theorem Micro.chain_store {action : LoopAction} {l l' : Local} {events : List Event}
    (h : Prog.Chain (Micro action) l events l') :
    l'.node.store = Cluster.storeAfter l.node.store events := by
  induction h with
  | nil => rfl
  | cons hstep _ ih => rw [ih, hstep.store, ← Cluster.storeAfter_append]

section Runs

variable {config : Config} {timely : Prop} {w₀ w : World} {n : Int} {action : LoopAction} {node : RaftNode}
  {l : Local} {events : List Event}

/-- What becomes of a function that has ended, given what it leaves. -/
theorem World.Leads.ends (h : Leads config timely w₀ (w.ran n (.active l) events)) {result : Except Exn Unit}
    {node' : RaftNode} (hstore : l.node.store = node'.store)
    (hidle : ∀ u, result = .ok u → action ≠ .stop → Idle none none l node') :
    Leads config timely w₀ (w.ran n (Cluster.outcome action result node').view events) ∧
      ∀ s, Cluster.outcome action result node' = .running s → s.Calm := by
  have hdead : Leads config timely w₀ (w.ran n (.down node'.store) events) := hstore ▸ h.dies
  unfold Cluster.outcome
  cases result with
  | error x => exact ⟨hdead, by simp⟩
  | ok u =>
    by_cases hstop : action = .stop
    · simp only [hstop, if_true]
      exact ⟨hdead, by simp⟩
    · obtain ⟨rfl, hcalm', -⟩ := hidle u rfl hstop
      simp only [hstop, if_false]
      exact ⟨h, fun s hs => Status.running.inj hs ▸ hcalm'⟩

/-- A function that runs to its end. -/
theorem World.Leads.runs (h : Leads config timely w₀ w) (hcalm : node.Calm) (hserver : node.serverId = n)
    (hprepared : Prepared n node action) (hview : w.views n = .active (Local.rest (entered n action node)))
    (hdue : w.Due timely n (Local.rest (entered n action node)) action) {result : Except Exn Unit}
    {node' : RaftNode}
    (hrun : Cluster.program n action (Cluster.prepare n action node) = (result, node', events)) :
    Leads config timely w₀ (w.ran n (Cluster.outcome action result node').view events) ∧
      ∀ s, Cluster.outcome action result node' = .running s → s.Calm := by
  obtain ⟨l', hchain, hpost⟩ := follows_program hcalm hserver hprepared
  rw [hrun] at hchain hpost
  have hleads := h.chain hview hdue hchain
  cases result with
  | error x => exact hleads.ends hpost (by simp)
  | ok u => exact hleads.ends hpost.1 fun _ _ => hpost.2

/-- A function cut short. -/
theorem World.Leads.crashes (h : Leads config timely w₀ w) (hcalm : node.Calm) (hserver : node.serverId = n)
    (hprepared : Prepared n node action) (hview : w.views n = .active (Local.rest (entered n action node)))
    (hdue : w.Due timely n (Local.rest (entered n action node)) action) (effects : Nat) :
    Leads config timely w₀ (w.ran n (.down (Cluster.storeAfter (Cluster.prepare n action node).store
      ((Cluster.program n action (Cluster.prepare n action node)).2.2.take effects)))
      ((Cluster.program n action (Cluster.prepare n action node)).2.2.take effects)) := by
  obtain ⟨l', hchain, -⟩ := follows_program hcalm hserver hprepared
  obtain ⟨l'', hcut⟩ := hchain.take effects
  have hstore := Micro.chain_store hcut
  have hentered : (Local.rest (entered n action node)).node.store = (Cluster.prepare n action node).store := by
    cases action <;> rfl
  rw [← hentered, ← hstore]
  exact (h.chain hview hdue hcut).dies

end Runs

/-- The process of an action and the function it runs. -/
def Action.runs : Action → Option (Int × LoopAction)
  | .run server action | .crash server action _ => some (server, action)
  | .kill _ => none

namespace Cluster

/-- The order in which the timers of one loop fire: an election starts on a node that does not lead only when
no commit poll is outstanding. -/
def PollsFirst (cluster : Cluster) : Action → Prop
  | .run server .electionTimeout | .crash server .electionTimeout _ =>
    ∀ node, cluster.nodes server = .running node → node.role = .leader ∨ node.commitPolls = []
  | _ => True

variable {config : Config} {timely : Prop} {cluster : Cluster} {n : Int} {action : LoopAction}

omit [Protobuf] in
/-- What the environment guarantees of a function that can run. -/
theorem prepared_of_enabled {node : RaftNode} (hwired : Wired config cluster.world)
    (hnode : cluster.nodes n = .running node)
    (henabled : enabled config.peers cluster n node action) : Prepared n node action := by
  have hview : cluster.world.views n = .active (Local.rest node) := congrArg Status.view hnode
  have hactive := hwired.active n _ hview
  cases action with
  | start => exact absurd henabled id
  | commitPoll poll => exact henabled
  | disconnect connection =>
    obtain ⟨hopened, -⟩ := hactive.opened connection henabled
    exact fun _ => (hwired.opened connection hopened).2.2
  | connect peer serial =>
    have hserver : node.serverId = n := hactive.serverId
    have hpeers : node.peers = config.peers := hactive.peers
    have hne : peer ≠ node.serverId := by have := henabled.2.1; omega
    exact RaftNode.mem_otherPeers.mpr ⟨hpeers ▸ henabled.1, hne⟩
  | receive connection rpc => exact henabled.1
  | _ => trivial

/-- The world a function starts in. -/
def enteredWorld (cluster : Cluster) (n : Int) (action : LoopAction) (node : RaftNode) : World :=
  ⟨Function.update cluster.world.views n (.active (Local.rest (entered n action node))), cluster.history,
    newlyOpened n action ++ cluster.opened, newlyAccepted action ++ cluster.accepted⟩

theorem leads_entered {node : RaftNode} (hnode : cluster.nodes n = .running node)
    (henabled : enabled config.peers cluster n node action) :
    World.Leads config timely cluster.world (cluster.enteredWorld n action node) := by
  have hview : cluster.world.views n = .active (Local.rest node) := congrArg Status.view hnode
  have hsame : World.Leads config timely cluster.world
      ⟨Function.update cluster.world.views n (.active (Local.rest node)), cluster.history, cluster.opened,
        cluster.accepted⟩ := by
    rw [← hview, Function.update_eq_self]
    exact .refl
  cases action with
  | connect peer serial =>
    have hstep : World.Leads config timely cluster.world _ :=
      .step .refl (.connect n peer serial _ hview henabled.1 henabled.2.1 henabled.2.2)
    simp only [World.moved, Option.toList, List.map_nil, List.append_nil] at hstep
    exact hstep
  | accept connection =>
    have hstep : World.Leads config timely cluster.world _ :=
      .step .refl (.accept n connection _ hview henabled.1 henabled.2.1 henabled.2.2)
    simp only [World.moved, Option.toList, List.map_nil, List.append_nil] at hstep
    exact hstep
  | _ => exact hsame

theorem due_entered {node : RaftNode} (hreach : World.Reach config timely cluster.world)
    (hnode : cluster.nodes n = .running node) (henabled : enabled config.peers cluster n node action)
    (hpolls : timely → action = .electionTimeout → node.role = .leader ∨ node.commitPolls = []) :
    (cluster.enteredWorld n action node).Due timely n (Local.rest (entered n action node)) action := by
  have hview : cluster.world.views n = .active (Local.rest node) := congrArg Status.view hnode
  have hactive := hreach.wired.active n _ hview
  cases action with
  | receive connection rpc => exact ⟨henabled.2, (hactive.opened connection henabled.1).2.imp id And.left⟩
  | electionTimeout => exact fun htimely => (hpolls htimely rfl).imp id fun hnone => ⟨hnone, rfl⟩
  | _ => trivial

omit [Protobuf] in
theorem view_update (nodes : Int → Status) (n : Int) (status : Status) :
    (fun m => (Function.update nodes n status m).view) =
      Function.update (fun m => (nodes m).view) n status.view :=
  funext fun m => Function.apply_update (fun _ => Status.view) nodes n status m

omit [Protobuf] in
theorem world_after (node : RaftNode) (status : Status) (events : List Event) :
    (cluster.after n action status events).world =
      (cluster.enteredWorld n action node).ran n status.view events := by
  unfold world after enteredWorld World.ran
  simp only [Function.update_idem, view_update]
  rfl

omit [Protobuf] in
theorem world_started (status : Status) (events : List Event) :
    (cluster.after n .start status events).world = cluster.world.ran n status.view events := by
  unfold world after World.ran
  simp only [view_update]
  rfl

omit [Protobuf] in
theorem entry_enabled {node node₀ : RaftNode} (hnode : cluster.nodes n = .running node)
    (hentry : entry config.peers cluster n action = some node₀) :
    enabled config.peers cluster n node action ∧ prepare n action node = node₀ := by
  unfold entry at hentry
  rw [hnode] at hentry
  simpa only [Option.ite_none_right_eq_some, Option.some.injEq] using hentry

/-- The start of a function of a running node: a world where it stands at its entry. -/
theorem entry_running {node node₀ : RaftNode} (hreach : World.Reach config timely cluster.world)
    (hnode : cluster.nodes n = .running node) (hentry : entry config.peers cluster n action = some node₀)
    (hpolls : timely → action = .electionTimeout → node.role = .leader ∨ node.commitPolls = []) :
    node₀ = prepare n action node ∧ node.serverId = n ∧ Prepared n node action ∧
      World.Reach config timely (cluster.enteredWorld n action node) ∧
      (cluster.enteredWorld n action node).Due timely n (Local.rest (entered n action node)) action := by
  obtain ⟨henabled, rfl⟩ := entry_enabled hnode hentry
  have hview : cluster.world.views n = .active (Local.rest node) := congrArg Status.view hnode
  exact ⟨rfl, (hreach.wired.active n _ hview).serverId, prepared_of_enabled hreach.wired hnode henabled,
    hreach.leads (leads_entered hnode henabled), due_entered hreach hnode henabled hpolls⟩

omit [Protobuf] in
theorem entry_down {store : RocksKVStore} {node₀ : RaftNode} (hnode : cluster.nodes n = .down store)
    (hentry : entry config.peers cluster n action = some node₀) :
    action = .start ∧ n ∈ config.peers ∧ node₀ = RaftNode.create n config.peers store := by
  unfold entry at hentry
  rw [hnode] at hentry
  simp only [Option.ite_none_right_eq_some, Option.some.injEq] at hentry
  exact ⟨hentry.1.1, hentry.1.2, hentry.2.symm⟩

omit [Protobuf] in
theorem ran_down {store : RocksKVStore} (hnode : cluster.nodes n = .down store) :
    cluster.world.ran n (.down store) [] = cluster.world := by
  have hview : cluster.world.views n = .down store := congrArg Status.view hnode
  unfold World.ran
  rw [← hview, Function.update_eq_self, List.map_nil, List.append_nil]

/-- A process that comes up and runs `StartInLoop` to its end. -/
theorem start_runs {store : RocksKVStore} (hreach : World.Reach config timely cluster.world)
    (hnode : cluster.nodes n = .down store) (hmember : n ∈ config.peers) {result : Except Exn Unit}
    {node' : RaftNode} {events : List Event}
    (hrun : program n .start (RaftNode.create n config.peers store) = (result, node', events)) :
    World.Leads config timely cluster.world (cluster.world.ran n (outcome .start result node').view events) ∧
      ∀ s, outcome .start result node' = .running s → s.Calm := by
  have hview : cluster.world.views n = .down store := congrArg Status.view hnode
  obtain ⟨⟨x, hresult⟩, hstore, hevents⟩ | ⟨state, l', rest, hload, hevents, hchain, hstore, hstands⟩ :=
    program_start (n := n) (hreach.wired.down n store hview) config.nodup
  · rw [hrun] at hresult hstore hevents
    dsimp only at hresult hstore hevents
    subst hresult hstore hevents
    refine ⟨?_, by simp [outcome]⟩
    change World.Leads config timely cluster.world (cluster.world.ran n (.down node'.store) [])
    rw [ran_down hnode]
    exact .refl
  · rw [hrun] at hevents hstore hstands
    dsimp only at hevents hstore hstands
    subst hevents
    have hloaded : World.Leads config timely cluster.world _ :=
      .step .refl (.start n store state hview hmember hload)
    have hleads := hloaded.chain (World.moved_views_self ..) (by trivial) hchain
    rw [World.moved_ran] at hleads
    exact hleads.ends hstore fun u hu _ => (hstands u hu).idle

/-- A process that comes up and is cut short in `StartInLoop`. -/
theorem start_crashes {store : RocksKVStore} (hreach : World.Reach config timely cluster.world)
    (hnode : cluster.nodes n = .down store) (hmember : n ∈ config.peers) (effects : Nat) :
    World.Leads config timely cluster.world (cluster.world.ran n (.down (storeAfter store
      ((program n .start (RaftNode.create n config.peers store)).2.2.take effects)))
      ((program n .start (RaftNode.create n config.peers store)).2.2.take effects)) := by
  have hview : cluster.world.views n = .down store := congrArg Status.view hnode
  have hstay : World.Leads config timely cluster.world (cluster.world.ran n (.down store) []) := by
    rw [ran_down hnode]
    exact .refl
  obtain ⟨-, -, hevents⟩ | ⟨state, l', rest, hload, hevents, hchain, -, -⟩ :=
    program_start (n := n) (hreach.wired.down n store hview) config.nodup
  · rw [hevents, List.take_nil]
    exact hstay
  · rw [hevents]
    cases effects with
    | zero => exact hstay
    | succ effects =>
      have hloaded : World.Leads config timely cluster.world _ :=
        .step .refl (.start n store state hview hmember hload)
      obtain ⟨l'', hcut⟩ := hchain.take effects
      have hdead := (hloaded.chain (World.moved_views_self ..) (by trivial) hcut).dies
      rw [World.moved_ran, Micro.chain_store hcut] at hdead
      exact hdead

/-- An action of the cluster is a sequence of moves. -/
theorem exec_leads {cluster' : Cluster} {act : Action} (hreach : World.Reach config timely cluster.world)
    (hcalm : ∀ n node, cluster.nodes n = .running node → node.Calm)
    (hpolls : timely → cluster.PollsFirst act) (hexec : exec config.peers cluster act = some cluster') :
    World.Leads config timely cluster.world cluster'.world ∧
      ∀ n node, cluster'.nodes n = .running node → node.Calm := by
  have hafter : ∀ (n : Int) (status : Status), (∀ s, status = .running s → s.Calm) →
      ∀ m node, Function.update cluster.nodes n status m = .running node → node.Calm := by
    intro n status hstatus m node hm
    by_cases heq : m = n
    · subst heq
      exact hstatus node ((Function.update_self ..).symm.trans hm)
    · exact hcalm m node ((Function.update_of_ne heq ..).symm.trans hm)
  cases act with
  | kill n =>
    unfold exec at hexec
    cases hnode : cluster.nodes n with
    | down store => simp [hnode] at hexec
    | running node =>
      simp only [hnode, Option.some.injEq] at hexec
      subst hexec
      have hview : cluster.world.views n = .active (Local.rest node) := congrArg Status.view hnode
      have hstep : World.Leads config timely _ _ := .step .refl (.die n _ hview)
      refine ⟨?_, hafter n _ (by simp)⟩
      simp only [World.moved, Option.toList, List.map_nil, List.append_nil] at hstep
      unfold world
      rw [view_update]
      exact hstep
  | run n action =>
    unfold exec at hexec
    cases hentry : entry config.peers cluster n action with
    | none => simp [hentry] at hexec
    | some node₀ =>
      rcases hrun : program n action node₀ with ⟨result, node', events⟩
      simp only [hentry, hrun, Option.some.injEq] at hexec
      subst hexec
      cases hnode : cluster.nodes n with
      | running node =>
        obtain ⟨rfl, hserver, hprepared, -, hdue⟩ := entry_running hreach hnode hentry
          (by rintro htimely rfl; exact hpolls htimely node hnode)
        have hentered : World.Leads config timely cluster.world _ := leads_entered hnode (entry_enabled hnode hentry).1
        obtain ⟨hruns, hstatus⟩ := hentered.runs (hcalm n node hnode) hserver hprepared
          (Function.update_self ..) hdue hrun
        rw [world_after node]
        exact ⟨hruns, hafter n _ hstatus⟩
      | down store =>
        obtain ⟨rfl, hmember, rfl⟩ := entry_down hnode hentry
        obtain ⟨hruns, hstatus⟩ := start_runs hreach hnode hmember hrun
        rw [world_started]
        exact ⟨hruns, hafter n _ hstatus⟩
  | crash n action effects =>
    unfold exec at hexec
    cases hentry : entry config.peers cluster n action with
    | none => simp [hentry] at hexec
    | some node₀ =>
      simp only [hentry, Option.some.injEq] at hexec
      subst hexec
      cases hnode : cluster.nodes n with
      | running node =>
        obtain ⟨rfl, hserver, hprepared, -, hdue⟩ := entry_running hreach hnode hentry
          (by rintro htimely rfl; exact hpolls htimely node hnode)
        have hentered : World.Leads config timely cluster.world _ := leads_entered hnode (entry_enabled hnode hentry).1
        rw [world_after node]
        exact ⟨hentered.crashes (hcalm n node hnode) hserver hprepared (Function.update_self ..) hdue effects,
          hafter n _ (by simp)⟩
      | down store =>
        obtain ⟨rfl, hmember, rfl⟩ := entry_down hnode hentry
        rw [world_started]
        exact ⟨start_crashes hreach hnode hmember effects, hafter n _ (by simp)⟩

/-- Every run of the cluster passes through reachable worlds. -/
theorem Run.reach {ok : Cluster → Action → Prop} (h : Run config ok cluster)
    (hok : timely → ∀ cluster act, ok cluster act → cluster.PollsFirst act) :
    World.Reach config timely cluster.world ∧ ∀ n node, cluster.nodes n = .running node → node.Calm := by
  induction h with
  | initial => exact ⟨.initial, by simp [Cluster.initial]⟩
  | step _ hact hexec ih =>
    obtain ⟨hleads, hcalm⟩ := exec_leads ih.1 ih.2 (fun htimely => hok htimely _ _ hact) hexec
    exact ⟨ih.1.leads hleads, hcalm⟩

/-- An event of a function is the one of a process that has read its store, or of a step. -/
theorem program_events {node₀ : RaftNode} (hreach : World.Reach config False cluster.world)
    (hcalm : ∀ n node, cluster.nodes n = .running node → node.Calm)
    (hentry : entry config.peers cluster n action = some node₀) {e : Event} (he : e ∈ (program n action node₀).2.2) :
    (∃ state, e = .loadState state) ∨ ∃ l l', Micro action l (some e) l' := by
  cases hnode : cluster.nodes n with
  | running node =>
    obtain ⟨rfl, hserver, hprepared, -, -⟩ := entry_running hreach hnode hentry (fun hfalse => hfalse.elim)
    obtain ⟨l', hchain, -⟩ := follows_program (hcalm n node hnode) hserver hprepared
    exact .inr (hchain.exists_step he)
  | down store =>
    obtain ⟨rfl, -, rfl⟩ := entry_down hnode hentry
    have hview : cluster.world.views n = .down store := congrArg Status.view hnode
    obtain ⟨-, -, hnone⟩ | ⟨state, l', rest, -, hsome, hchain, -⟩ :=
      program_start (n := n) (hreach.wired.down n store hview) config.nodup
    · rw [hnone] at he
      exact absurd he List.not_mem_nil
    · rw [hsome] at he
      rcases List.mem_cons.mp he with rfl | he
      · exact .inl ⟨state, rfl⟩
      · exact .inr (hchain.exists_step he)

omit [Protobuf] in
theorem mem_after_history {status : Status} {events : List Event} {m : Int} {e : Event}
    (h : (m, e) ∈ (cluster.after n action status events).history) : (m, e) ∈ cluster.history ∨ m = n ∧ e ∈ events := by
  rcases List.mem_append.mp h with hold | hnew
  · exact .inl hold
  · obtain ⟨e', he', heq⟩ := List.mem_map.mp hnew
    obtain ⟨rfl, rfl⟩ := Prod.mk.inj heq
    exact .inr ⟨rfl, he'⟩

theorem exec_history {cluster' : Cluster} {act : Action} (hreach : World.Reach config False cluster.world)
    (hcalm : ∀ n node, cluster.nodes n = .running node → node.Calm)
    (hexec : exec config.peers cluster act = some cluster') {m : Int} {e : Event} (hmem : (m, e) ∈ cluster'.history) :
    (m, e) ∈ cluster.history ∨ (∃ state, e = .loadState state) ∨
      ∃ action l l', act.runs = some (m, action) ∧ Micro action l (some e) l' := by
  cases act with
  | kill n =>
    unfold exec at hexec
    cases hnode : cluster.nodes n with
    | down store => simp [hnode] at hexec
    | running node =>
      simp only [hnode, Option.some.injEq] at hexec
      subst hexec
      exact .inl hmem
  | run n action =>
    unfold exec at hexec
    cases hentry : entry config.peers cluster n action with
    | none => simp [hentry] at hexec
    | some node₀ =>
      simp only [hentry, Option.some.injEq] at hexec
      subst hexec
      rcases mem_after_history hmem with hold | ⟨rfl, he⟩
      · exact .inl hold
      · rcases program_events hreach hcalm hentry he with hload | ⟨l, l', hmicro⟩
        · exact .inr (.inl hload)
        · exact .inr (.inr ⟨action, l, l', rfl, hmicro⟩)
  | crash n action effects =>
    unfold exec at hexec
    cases hentry : entry config.peers cluster n action with
    | none => simp [hentry] at hexec
    | some node₀ =>
      simp only [hentry, Option.some.injEq] at hexec
      subst hexec
      rcases mem_after_history hmem with hold | ⟨rfl, he⟩
      · exact .inl hold
      · rcases program_events hreach hcalm hentry (List.mem_of_mem_take he) with hload | ⟨l, l', hmicro⟩
        · exact .inr (.inl hload)
        · exact .inr (.inr ⟨action, l, l', rfl, hmicro⟩)

/-- Where the events of a run come from. -/
theorem Run.origin {ok : Cluster → Action → Prop} (h : Run config ok cluster) {m : Int} {e : Event}
    (hmem : (m, e) ∈ cluster.history) : (∃ state, e = .loadState state) ∨
      ∃ before act action l l', ok before act ∧ act.runs = some (m, action) ∧ Micro action l (some e) l' := by
  induction h with
  | initial => exact absurd hmem (by simp [Cluster.initial])
  | @step before after act hrun hact hexec ih =>
    obtain ⟨hreach, hcalm⟩ : World.Reach config False before.world ∧ _ := hrun.reach False.elim
    rcases exec_history hreach hcalm hexec hmem with hold | hload | ⟨action, l, l', hruns, hmicro⟩
    · exact ih hold
    · exact .inl hload
    · exact .inr ⟨before, act, action, l, l', hact, hruns, hmicro⟩

theorem Reachable.reach (h : Reachable config cluster) : World.Reach config False cluster.world :=
  (Run.reach h False.elim).1

theorem Reachable.calm (h : Reachable config cluster) {n : Int} {node : RaftNode}
    (hnode : cluster.nodes n = .running node) : node.Calm := by
  have hreach : World.Reach config False cluster.world ∧ ∀ n node, cluster.nodes n = .running node → node.Calm :=
    Run.reach h False.elim
  exact hreach.2 n node hnode

omit [Protobuf] in
theorem after_nodes_self (n : Int) (action : LoopAction) (status : Status) (events : List Event) :
    (cluster.after n action status events).nodes n = status :=
  Function.update_self ..

/-- A function that returns. -/
theorem exec_run {peers : List Int} {n : Int} {action : LoopAction} {node node' : RaftNode} {events : List Event}
    (hstop : action ≠ .stop) (hentry : entry peers cluster n action = some node)
    (hrun : program n action node = (.ok (), node', events)) :
    exec peers cluster (.run n action) = some (cluster.after n action (.running node') events) := by
  simp only [exec, hentry, hrun, outcome, if_neg hstop]

/-- A run that goes on with a function that returns. -/
theorem Reachable.run (h : Reachable config cluster) {n : Int} {action : LoopAction} {node node' : RaftNode}
    {events : List Event} (hnode : cluster.nodes n = .running node) (hstop : action ≠ .stop)
    (henabled : enabled config.peers cluster n node action) (hprepare : prepare n action node = node)
    (hrun : program n action node = (.ok (), node', events)) :
    ∃ cluster', Reachable config cluster' ∧ cluster'.nodes n = .running node' ∧
      cluster'.history = cluster.history ++ events.map fun event => (n, event) := by
  have hentry : entry config.peers cluster n action = some node := by
    unfold entry
    rw [hnode]
    dsimp only
    rw [if_pos henabled, hprepare]
  exact ⟨_, Run.step h trivial (exec_run hstop hentry hrun), after_nodes_self .., rfl⟩

/-- How a process that is running after a step came to be in its state. -/
theorem exec_running {peers : List Int} {cluster' : Cluster} {act : Action} {n : Int} {node' : RaftNode}
    (hexec : exec peers cluster act = some cluster') (hnode' : cluster'.nodes n = .running node') :
    (cluster.nodes n = .running node' ∧ ∃ events, cluster'.history = cluster.history ++ events) ∨
    ∃ action node events, action ≠ .stop ∧ entry peers cluster n action = some node ∧
      program n action node = (.ok (), node', events) ∧
      cluster'.history = cluster.history ++ events.map fun event => (n, event) := by
  have hother : ∀ (m : Int) (status : Status), m ≠ n → Function.update cluster.nodes m status n = .running node' →
      cluster.nodes n = .running node' := fun m status hm h => (Function.update_of_ne hm.symm ..).symm.trans h
  cases act with
  | kill m =>
    unfold exec at hexec
    cases hm : cluster.nodes m with
    | down store => simp [hm] at hexec
    | running node =>
      simp only [hm, Option.some.injEq] at hexec
      subst hexec
      by_cases hmn : m = n
      · subst hmn
        exact absurd ((Function.update_self ..).symm.trans hnode') (by simp)
      · exact .inl ⟨hother m _ hmn hnode', [], (List.append_nil _).symm⟩
  | run m action =>
    unfold exec at hexec
    cases hentry : entry peers cluster m action with
    | none => simp [hentry] at hexec
    | some node =>
      rcases hrun : program m action node with ⟨result, node'', events⟩
      simp only [hentry, hrun, Option.some.injEq] at hexec
      subst hexec
      by_cases hmn : m = n
      · subst hmn
        have houtcome : outcome action result node'' = .running node' := (Function.update_self ..).symm.trans hnode'
        unfold outcome at houtcome
        split at houtcome
        · cases houtcome
        · split at houtcome
          · cases houtcome
          · next hstop =>
            obtain rfl := Status.running.inj houtcome
            exact .inr ⟨action, node, events, hstop, hentry, hrun, rfl⟩
      · exact .inl ⟨hother m _ hmn hnode', _, rfl⟩
  | crash m action effects =>
    unfold exec at hexec
    cases hentry : entry peers cluster m action with
    | none => simp [hentry] at hexec
    | some node =>
      simp only [hentry, Option.some.injEq] at hexec
      subst hexec
      by_cases hmn : m = n
      · subst hmn
        exact absurd ((Function.update_self ..).symm.trans hnode') (by simp)
      · exact .inl ⟨hother m _ hmn hnode', _, rfl⟩

end Cluster

end Nukv
