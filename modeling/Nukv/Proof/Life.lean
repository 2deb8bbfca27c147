import Nukv.Model.Process
import Nukv.Proof.Refine

/-!
# The life of one process

A process on its own in small steps. Every run of a process passes through the stages of such a life, so what holds
at every stage holds in every run, whatever the frames say that arrive.
-/

namespace Nukv

open Base

/-- A connection that comes up: one that the process makes leads to a greater id, one that it accepts comes from
another process. -/
def Joins (n : Int) : LoopAction → Prop
  | .connect peer _ => n < peer
  | .accept connection => connection.client ≠ n
  | _ => True

/-- The function that the process is running. -/
def Calling (past : List Moment) (action : LoopAction) : Prop :=
  ∃ before events, past = before ++ .call action :: List.map .effect events

theorem Calling.mem {past : List Moment} {action : LoopAction} (h : Calling past action) : .call action ∈ past := by
  obtain ⟨before, events, rfl⟩ := h
  simp

theorem Calling.effects {past : List Moment} {action : LoopAction} (h : Calling past action) (events : List Event) :
    Calling (past ++ events.map .effect) action := by
  obtain ⟨before, events', rfl⟩ := h
  exact ⟨before, events' ++ events, by simp⟩

variable [Protobuf]

inductive Life (config : Config) (n : Int) (admits : LoopAction → Prop) : View → List Moment → Prop
  | initial : Life config n admits (.down .empty) []
  /-- The process dies before it has read its store, or cannot read it. -/
  | fail {store : RocksKVStore} {past : List Moment} :
      Life config n admits (.down store) past → Life config n admits (.down store) (past ++ [.call .start])
  | start {store : RocksKVStore} {past : List Moment} (state : PersistedRaftState) :
      Life config n admits (.down store) past → n ∈ config.peers → admits .start →
        RaftStorage.load store = .ok state →
        Life config n admits (.active (Local.loaded n config.peers store state))
          (past ++ [.call .start, .effect (.loadState state)])
  | die {l : Local} {past : List Moment} :
      Life config n admits (.active l) past → Life config n admits (.down l.node.store) past
  | call {l : Local} {past : List Moment} (action : LoopAction) :
      Life config n admits (.active l) past → admits action → Joins n action →
        Life config n admits (.active { l with node := entered n action l.node }) (past ++ [.call action])
  | micro {l l' : Local} {past : List Moment} {action : LoopAction} {event : Option Event} :
      Life config n admits (.active l) past → Calling past action → admits action → Micro action l event l' →
        Life config n admits (.active l') (past ++ event.toList.map .effect)

variable {config : Config} {n : Int} {admits : LoopAction → Prop} {view : View} {past : List Moment} {l l' : Local}
  {action : LoopAction} {event : Option Event}

theorem Life.chain {events : List Event} (h : Life config n admits (.active l) past) (hcall : Calling past action)
    (hadmits : admits action) (hchain : Prog.Chain (Micro action) l events l') :
    Life config n admits (.active l') (past ++ events.map .effect) := by
  induction hchain generalizing past with
  | nil l => rwa [List.map_nil, List.append_nil]
  | cons hstep _ ih =>
    have hrest := ih (h.micro hcall hadmits hstep) (hcall.effects _)
    rwa [List.append_assoc, ← List.map_append] at hrest

/-- What is true of every node that has just come up, and stays true when a function starts and along its small
steps, is true of every running node. -/
theorem Life.each {P : List Moment → Local → Prop}
    (loaded : ∀ past store state, Life config n admits (.down store) past → n ∈ config.peers →
      RaftStorage.load store = .ok state →
      P (past ++ [.call .start, .effect (.loadState state)]) (Local.loaded n config.peers store state))
    (called : ∀ past l action, Life config n admits (.active l) past → admits action → Joins n action → P past l →
      P (past ++ [.call action]) { l with node := entered n action l.node })
    (micro : ∀ past l l' action event, Life config n admits (.active l) past → Calling past action → admits action →
      Micro action l event l' → P past l → P (past ++ event.toList.map .effect) l')
    (h : Life config n admits (.active l) past) : P past l := by
  generalize hview : View.active l = view at h
  induction h generalizing l with
  | initial => cases hview
  | fail => cases hview
  | die => cases hview
  | start state hlife hmember _ hload =>
    obtain rfl := View.active.inj hview
    exact loaded _ _ state hlife hmember hload
  | call action hlife hadmits hjoins ih =>
    obtain rfl := View.active.inj hview
    exact called _ _ action hlife hadmits hjoins (ih rfl)
  | micro hlife hcall hadmits hstep ih =>
    obtain rfl := View.active.inj hview
    exact micro _ _ _ _ _ hlife hcall hadmits hstep (ih rfl)

omit [Protobuf] in
theorem split_effect {past more before after : List Moment} {e : Event}
    (h : past ++ more = before ++ .effect e :: after) :
    (∃ rest, past = before ++ .effect e :: rest) ∨ ∃ middle, before = past ++ middle ∧ more = middle ++ .effect e :: after := by
  rcases List.append_eq_append_iff.mp h with ⟨middle, hbefore, hmore⟩ | ⟨rest, hpast, hafter⟩
  · exact .inr ⟨middle, hbefore, hmore⟩
  · cases rest with
    | nil => exact .inr ⟨[], by rw [hpast, List.append_nil, List.append_nil], hafter.symm⟩
    | cons m rest =>
      obtain ⟨rfl, -⟩ := List.cons.inj hafter
      exact .inl ⟨rest, hpast⟩

/-- What is true of every effect when it happens, is true of all effects of a life. -/
theorem Life.effects {Q : List Moment → Event → Prop}
    (loaded : ∀ past store state, Life config n admits (.down store) past → RaftStorage.load store = .ok state →
      Q (past ++ [.call .start]) (.loadState state))
    (micro : ∀ past l l' action e, Life config n admits (.active l) past → Calling past action → admits action →
      Micro action l (some e) l' → Q past e)
    (h : Life config n admits view past) : ∀ before e after, past = before ++ .effect e :: after → Q before e := by
  induction h with
  | initial => exact fun before e after hpast => absurd hpast.symm (by simp)
  | fail _ ih =>
    intro before e after hpast
    rcases split_effect hpast with ⟨rest, hpast⟩ | ⟨middle, -, hmore⟩
    · exact ih before e rest hpast
    · rcases List.singleton_eq_append_iff.mp hmore with ⟨-, h⟩ | ⟨-, h⟩ <;> cases h
  | @start store past state hlife _ _ hload ih =>
    intro before e after hpast
    rcases split_effect hpast with ⟨rest, hpast⟩ | ⟨middle, rfl, hmore⟩
    · exact ih before e rest hpast
    · rcases middle with _ | ⟨m, middle⟩
      · cases hmore
      · obtain ⟨rfl, hlast⟩ := List.cons.inj hmore
        rcases List.singleton_eq_append_iff.mp hlast with ⟨rfl, h⟩ | ⟨-, h⟩
        · obtain ⟨h, -⟩ := List.cons.inj h
          obtain rfl := Moment.effect.inj h
          exact loaded past store state hlife hload
        · cases h
  | die _ ih => exact ih
  | call action _ _ _ ih =>
    intro before e after hpast
    rcases split_effect hpast with ⟨rest, hpast⟩ | ⟨middle, -, hmore⟩
    · exact ih before e rest hpast
    · rcases List.singleton_eq_append_iff.mp hmore with ⟨-, h⟩ | ⟨-, h⟩ <;> cases h
  | @micro l l' past action event hlife hcall hadmits hstep ih =>
    intro before e after hpast
    rcases split_effect hpast with ⟨rest, hpast⟩ | ⟨middle, rfl, hmore⟩
    · exact ih before e rest hpast
    · cases event with
      | none => exact absurd hmore.symm (by simp)
      | some event =>
        rcases List.singleton_eq_append_iff.mp hmore with ⟨rfl, h⟩ | ⟨-, h⟩
        · obtain ⟨h, -⟩ := List.cons.inj h
          obtain rfl := Moment.effect.inj h
          rw [List.append_nil]
          exact micro past l l' action e hlife hcall hadmits hstep
        · cases h

/-! ### Where the process is -/

/-- A node in its place: it has its own id and the configured peers, its store works, and the connections it made
lead to greater ids. -/
structure RaftNode.Placed (config : Config) (n : Int) (node : RaftNode) : Prop where
  member : n ∈ config.peers
  serverId : node.serverId = n
  peers : node.peers = config.peers
  faults : node.store.faults = []
  outgoing : ∀ c ∈ node.connections, c.client = n → c.client < c.server

def View.Placed (config : Config) (n : Int) : View → Prop
  | .active l => l.node.Placed config n
  | .down store => store.faults = []

omit [Protobuf] in
/-- The connections of a node whose function starts are those it had and the one that has come up. -/
theorem mem_entered {node : RaftNode} {c : Conn} (h : c ∈ (entered n action node).connections) :
    c ∈ node.connections ∨ (∃ peer serial, action = .connect peer serial ∧ c = ⟨n, peer, serial⟩) ∨
      action = .accept c := by
  cases action with
  | connect peer serial =>
    exact (List.mem_cons.mp h).symm.imp_right fun hc => .inl ⟨peer, serial, rfl, hc⟩
  | accept connection =>
    refine (List.mem_cons.mp h).symm.imp_right fun hc => .inr ?_
    rw [hc]
  | _ => exact .inl h

omit [Protobuf] in
/-- Nothing else changes when a function starts. -/
theorem entered_kept (n : Int) (action : LoopAction) (node : RaftNode) :
    (entered n action node).toIdentity = node.toIdentity ∧ (entered n action node).toLogState = node.toLogState ∧
      (entered n action node).toElectionState = node.toElectionState ∧
      (entered n action node).toIncomingSnapshot = node.toIncomingSnapshot ∧
      (entered n action node).nextIndex = node.nextIndex ∧ (entered n action node).matchIndex = node.matchIndex ∧
      (entered n action node).toReadState = node.toReadState ∧
      ∀ p, (entered n action node).connectionForPeer p = node.connectionForPeer p := by
  cases action <;> exact ⟨rfl, rfl, rfl, rfl, rfl, rfl, rfl, fun _ => rfl⟩

theorem RaftNode.Placed.micro (h : l.node.Placed config n) (hstep : Micro action l event l') :
    l'.node.Placed config n := by
  have hidentity := hstep.identity
  exact ⟨h.member, (congrArg Identity.serverId hidentity).trans h.serverId,
    (congrArg Identity.peers hidentity).trans h.peers, hstep.faults h.faults,
    fun c hc => h.outgoing c (hstep.connections_subset hc)⟩

theorem Life.placed (h : Life config n admits view past) : view.Placed config n := by
  induction h with
  | initial => rfl
  | fail _ ih => exact ih
  | start state _ hmember _ _ ih => exact ⟨hmember, rfl, rfl, ih, fun _ hc => absurd hc List.not_mem_nil⟩
  | die _ ih => exact RaftNode.Placed.faults ih
  | @call l past action _ _ hjoins ih =>
    obtain ⟨hmember, hserver, hpeers, hfaults, houtgoing⟩ : l.node.Placed config n := ih
    obtain ⟨hidentity, hlog, -⟩ := entered_kept n action l.node
    refine ⟨hmember, (congrArg Identity.serverId hidentity).trans hserver,
      (congrArg Identity.peers hidentity).trans hpeers, ?_, fun c hc hclient => ?_⟩
    · rw [congrArg LogState.store hlog]
      exact hfaults
    · rcases mem_entered hc with hold | ⟨peer, serial, rfl, rfl⟩ | rfl
      · exact houtgoing c hold hclient
      · exact hjoins
      · exact absurd hclient hjoins
  | micro _ _ _ hstep ih => exact RaftNode.Placed.micro ih hstep

theorem Life.active_placed (h : Life config n admits (.active l) past) : l.node.Placed config n := h.placed

/-! ### Runs -/

/-- `match_index_` loses no entry. -/
theorem Micro.indexed (h : Micro action l event l') (hindexed : l.node.Indexed) : l'.node.Indexed := by
  have hkeys : ∀ peer, l.node.matchIndex.lookup peer ≠ none → l'.node.matchIndex.lookup peer ≠ none := by
    intro peer hpeer
    have hinsert : ∀ p (m : Nat), (l.node.matchIndex.insert p m).lookup peer ≠ none := by
      intro p m
      by_cases heq : peer = p
      · simp [heq]
      · rwa [AList.lookup_insert_ne heq]
    have hfold : ∀ (peers : List Int),
        (peers.foldl (fun map p => map.insert p 0) l.node.matchIndex).lookup peer ≠ none := by
      intro peers
      rw [lookup_foldl_insert]
      split
      · simp
      · exact hpeer
    rcases h with h | h | h | h | h | h | h | h | h <;> cases h
    all_goals first
      | exact hpeer
      | exact hinsert _ _
      | exact hfold _
  intro p hp
  rw [RaftNode.otherPeers_eq h.identity] at hp
  exact hkeys p (hindexed p hp)

/-- What a running process is between two functions. -/
def RaftNode.Poised (node : RaftNode) : Prop := node.Calm ∧ node.Indexed

namespace Process

variable {process : Process}

/-- What becomes of a function that has ended, given what it leaves. -/
theorem ends (h : Life config n admits (.active l) past) {result : Except Exn Unit} {node : RaftNode}
    (hstore : l.node.store = node.store)
    (hrest : ∀ u, result = .ok u → action ≠ .stop → l = Local.rest node ∧ node.Poised) :
    Life config n admits (Cluster.outcome action result node).view past ∧
      ∀ s, Cluster.outcome action result node = .running s → s.Poised := by
  have hdead : Life config n admits (.down node.store) past := hstore ▸ h.die
  unfold Cluster.outcome
  cases result with
  | error x => exact ⟨hdead, by simp⟩
  | ok u =>
    by_cases hstop : action = .stop
    · simp only [hstop, if_true]
      exact ⟨hdead, by simp⟩
    · obtain ⟨rfl, hpoised⟩ := hrest u rfl hstop
      simp only [hstop, if_false]
      exact ⟨h, fun s hs => Status.running.inj hs ▸ hpoised⟩

omit [Protobuf] in
/-- What the loop guarantees of a function that can run. -/
theorem prepared_of_enabled {node : RaftNode} (hplaced : node.Placed config n)
    (henabled : enabled config.peers n node action) : Prepared n node action ∧ Joins n action := by
  cases action with
  | start => exact absurd henabled id
  | commitPoll poll => exact ⟨henabled, trivial⟩
  | disconnect connection => exact ⟨hplaced.outgoing connection henabled, trivial⟩
  | connect peer serial =>
    refine ⟨RaftNode.mem_otherPeers.mpr ⟨hplaced.peers ▸ henabled.1, ?_⟩, henabled.2.1⟩
    rw [hplaced.serverId]
    exact henabled.2.1.ne'
  | accept connection => exact ⟨trivial, henabled.2.1⟩
  | receive connection rpc => exact ⟨henabled, trivial⟩
  | _ => exact ⟨trivial, trivial⟩

/-- A function of a running process. -/
theorem life_running {node : RaftNode} (hlife : Life config n admits (.active (Local.rest node)) process.past)
    (hpoised : node.Poised) (hadmits : admits action) (henabled : enabled config.peers n node action) :
    ∃ l', Prog.Chain (Micro action) (Local.rest (entered n action node))
        (Cluster.program n action (Cluster.prepare n action node)).2.2 l' ∧
      Life config n admits (.active (Local.rest (entered n action node))) (process.past ++ [.call action]) ∧
      l'.node.store = (Cluster.program n action (Cluster.prepare n action node)).2.1.store ∧
      ∀ u, (Cluster.program n action (Cluster.prepare n action node)).1 = .ok u → action ≠ .stop →
        l' = Local.rest (Cluster.program n action (Cluster.prepare n action node)).2.1 ∧
        RaftNode.Poised (Cluster.program n action (Cluster.prepare n action node)).2.1 := by
  have hplaced : node.Placed config n := by
    obtain ⟨hmember, hserver, hpeers, hfaults, houtgoing⟩ := hlife.active_placed
    exact ⟨hmember, hserver, hpeers, hfaults, houtgoing⟩
  obtain ⟨hprepared, hjoins⟩ := prepared_of_enabled hplaced henabled
  have hentered : Life config n admits (.active (Local.rest (entered n action node)))
      (process.past ++ [.call action]) := by
    have hcall := hlife.call action hadmits hjoins
    cases action <;> exact hcall
  obtain ⟨l', hchain, hpost⟩ := follows_program hpoised.1 hplaced.serverId hprepared
  have hindexed : l'.node.Indexed := by
    refine hchain.invariant (I := fun l => l.node.Indexed) (fun _ _ _ => Micro.indexed) ?_
    obtain ⟨hidentity, -, -, -, -, hmatch, -⟩ := entered_kept n action node
    intro p hp
    change p ∈ (entered n action node).otherPeers at hp
    change (entered n action node).matchIndex.lookup p ≠ none
    rw [RaftNode.otherPeers_eq hidentity] at hp
    rw [hmatch]
    exact hpoised.2 p hp
  refine ⟨l', hchain, hentered, ?_⟩
  generalize Cluster.program n action (Cluster.prepare n action node) = run at hpost
  obtain ⟨_ | u, node', events⟩ := run
  · exact ⟨hpost, by simp⟩
  · refine ⟨hpost.1, fun u hu hstop => ?_⟩
    obtain ⟨rfl, hcalm, -⟩ := hpost.2 hstop
    exact ⟨rfl, hcalm, hindexed⟩

/-- A process that comes up. -/
theorem life_start {store : RocksKVStore} (hlife : Life config n admits (.down store) process.past)
    (hmember : n ∈ config.peers) (hadmits : admits .start) :
    (∃ x, (Cluster.program n .start (RaftNode.create n config.peers store)).1 = .error x) ∧
      (Cluster.program n .start (RaftNode.create n config.peers store)).2.1.store = store ∧
      (Cluster.program n .start (RaftNode.create n config.peers store)).2.2 = [] ∨
    ∃ state l' events,
      (Cluster.program n .start (RaftNode.create n config.peers store)).2.2 = .loadState state :: events ∧
      Prog.Chain (Micro .start) (Local.loaded n config.peers store state) events l' ∧
      Life config n admits (.active (Local.loaded n config.peers store state))
        (process.past ++ [.call .start, .effect (.loadState state)]) ∧
      l'.node.store = (Cluster.program n .start (RaftNode.create n config.peers store)).2.1.store ∧
      ∀ u, (Cluster.program n .start (RaftNode.create n config.peers store)).1 = .ok u →
        l' = Local.rest (Cluster.program n .start (RaftNode.create n config.peers store)).2.1 ∧
        RaftNode.Poised (Cluster.program n .start (RaftNode.create n config.peers store)).2.1 := by
  refine (program_start hlife.placed config.nodup).imp_right ?_
  rintro ⟨state, l', events, hload, hevents, hchain, hstore, hstands⟩
  refine ⟨state, l', events, hevents, hchain, hlife.start state hmember hadmits hload, hstore, fun u hu => ?_⟩
  obtain ⟨hl, hcalm, hindexed⟩ := hstands u hu
  exact ⟨hl, hcalm, hindexed⟩

omit [Protobuf] in
/-- A function starts in a running process that can run it, or it is `StartInLoop` in one that comes up. -/
theorem entry_cases {peers : List Int} {node₀ : RaftNode} (h : process.entry peers n action = some node₀) :
    (∃ node, process.status = .running node ∧ enabled peers n node action ∧
      node₀ = Cluster.prepare n action node) ∨
    ∃ store, process.status = .down store ∧ action = .start ∧ n ∈ peers ∧
      node₀ = RaftNode.create n peers store := by
  unfold entry at h
  cases hstatus : process.status with
  | running node =>
    rw [hstatus] at h
    simp only [Option.ite_none_right_eq_some, Option.some.injEq] at h
    exact .inl ⟨node, rfl, h.1, h.2.symm⟩
  | down store =>
    rw [hstatus] at h
    simp only [Option.ite_none_right_eq_some, Option.some.injEq] at h
    exact .inr ⟨store, rfl, h.1.1, h.1.2, h.2.symm⟩

section Exec

variable (hlife : Life config n admits process.status.view process.past)
  (hpoised : ∀ node, process.status = .running node → node.Poised) (hadmits : admits action)
include hlife hpoised hadmits

theorem run_life {node₀ node' : RaftNode} {result : Except Exn Unit} {events : List Event}
    (hentry : process.entry config.peers n action = some node₀)
    (hrun : Cluster.program n action node₀ = (result, node', events)) :
    Life config n admits (Cluster.outcome action result node').view
        (process.past ++ .call action :: events.map .effect) ∧
      ∀ s, Cluster.outcome action result node' = .running s → s.Poised := by
  rcases entry_cases hentry with ⟨node, hstatus, henabled, rfl⟩ | ⟨store, hstatus, rfl, hmember, rfl⟩
  · rw [hstatus] at hlife
    obtain ⟨l', hchain, hentered, hstore, hrest⟩ := life_running hlife (hpoised node hstatus) hadmits henabled
    rw [hrun] at hchain hstore hrest
    have hended := hentered.chain ⟨process.past, [], rfl⟩ hadmits hchain
    rw [List.append_assoc] at hended
    exact ends hended hstore hrest
  · rw [hstatus] at hlife
    obtain ⟨⟨x, hresult⟩, hstore, hevents⟩ | ⟨state, l', rest, hevents, hchain, hloaded, hstore, hrest⟩ :=
      life_start hlife hmember hadmits
    · rw [hrun] at hresult hstore hevents
      dsimp only at hresult hstore hevents
      subst hresult hstore hevents
      exact ⟨hlife.fail, by simp [Cluster.outcome]⟩
    · rw [hrun] at hevents hstore hrest
      dsimp only at hevents hstore hrest
      subst hevents
      have hended := hloaded.chain ⟨process.past, [.loadState state], rfl⟩ hadmits hchain
      rw [List.append_assoc] at hended
      exact ends hended hstore fun u hu _ => hrest u hu

theorem crash_life {node₀ : RaftNode} (hentry : process.entry config.peers n action = some node₀) (effects : Nat) :
    Life config n admits
      (.down (Cluster.storeAfter node₀.store ((Cluster.program n action node₀).2.2.take effects)))
      (process.past ++ .call action :: ((Cluster.program n action node₀).2.2.take effects).map .effect) := by
  rcases entry_cases hentry with ⟨node, hstatus, henabled, rfl⟩ | ⟨store, hstatus, rfl, hmember, rfl⟩
  · rw [hstatus] at hlife
    obtain ⟨l', hchain, hentered, -⟩ := life_running hlife (hpoised node hstatus) hadmits henabled
    obtain ⟨l'', hcut⟩ := hchain.take effects
    have hdead := (hentered.chain ⟨process.past, [], rfl⟩ hadmits hcut).die
    have hsame : (Local.rest (entered n action node)).node.store = (Cluster.prepare n action node).store := by
      cases action <;> rfl
    rw [Micro.chain_store hcut, hsame, List.append_assoc] at hdead
    exact hdead
  · rw [hstatus] at hlife
    obtain ⟨-, -, hevents⟩ | ⟨state, l', rest, hevents, hchain, hloaded, -, -⟩ :=
      life_start hlife hmember hadmits
    · rw [hevents, List.take_nil]
      exact hlife.fail
    · rw [hevents]
      cases effects with
      | zero => exact hlife.fail
      | succ effects =>
        obtain ⟨l'', hcut⟩ := hchain.take effects
        have hdead := (hloaded.chain ⟨process.past, [.loadState state], rfl⟩ hadmits hcut).die
        rw [Micro.chain_store hcut, List.append_assoc] at hdead
        exact hdead

end Exec

theorem exec_life {process' : Process} {act : Act} (hlife : Life config n admits process.status.view process.past)
    (hpoised : ∀ node, process.status = .running node → node.Poised) (hadmitted : act.Admitted admits)
    (hexec : exec config.peers n process act = some process') :
    Life config n admits process'.status.view process'.past ∧
      ∀ node, process'.status = .running node → node.Poised := by
  unfold exec at hexec
  cases act with
  | kill =>
    cases hstatus : process.status with
    | down store => simp [hstatus] at hexec
    | running node =>
      simp only [hstatus, Option.some.injEq] at hexec
      subst hexec
      rw [hstatus] at hlife
      exact ⟨hlife.die, by simp⟩
  | run action =>
    cases hentry : process.entry config.peers n action with
    | none => simp [hentry] at hexec
    | some node₀ =>
      rcases hrun : Cluster.program n action node₀ with ⟨result, node', events⟩
      simp only [hentry, hrun, Option.some.injEq] at hexec
      subst hexec
      exact run_life hlife hpoised hadmitted hentry hrun
  | crash action effects =>
    cases hentry : process.entry config.peers n action with
    | none => simp [hentry] at hexec
    | some node₀ =>
      simp only [hentry, Option.some.injEq] at hexec
      subst hexec
      exact ⟨crash_life hlife hpoised hadmitted hentry effects, by simp [after]⟩

/-- Every run of a process passes through the stages of a life. -/
theorem Run.life (h : Run config n admits process) :
    Life config n admits process.status.view process.past ∧
      ∀ node, process.status = .running node → node.Poised := by
  induction h with
  | initial => exact ⟨.initial, by simp [Process.initial]⟩
  | step _ hadmitted hexec ih => exact exec_life ih.1 ih.2 hadmitted hexec

end Process

end Nukv
