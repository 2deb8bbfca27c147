import Nukv.Proof.ShadowPeers

/-!
# Every run has a shadow

Each step of a world is followed by its shadow, so every reachable world is related to a state of the protocol
that satisfies the protocol's invariants. `Tracked` keeps the shadow along a run: later invariants are proved
about a world and its shadow together, by induction over it.
-/

namespace Nukv

variable [Protobuf] {config : Config} {timely : Prop} {A A' : Shadow} {w w' : World} {n : Int} {l l' : Local}
  {action : LoopAction} {event : Option Event}

section Micro

variable (hrel : Related config A w) (hwired : Wired config w) (hview : w.views n = .active l)
include hrel hwired hview

theorem RoleStep.shadowed (hdue : w.Due timely n l action) (h : RoleStep action l event l') :
    Shadowed config A w n event l' := by
  have hnode := hrel.active n l hview
  have hactive := hwired.active n l hview
  cases h with
  | adoptTerm c rpc term s haction hanswering hlt hstore => exact shadowed_adoptTerm hrel hnode hlt (by simp)
  | demote c rpc haction hanswering => exact shadowed_demote hnode (by simp)
  | campaign s haction hanswering hrole hstore =>
    exact shadowed_campaign hrel hnode hactive.serverId hactive.member (by simp)
  | grant c rpc request s haction hpayload hgrants hstore =>
    subst haction
    obtain ⟨⟨hpeer, -⟩, -, hmeans⟩ := hrel.received hwired hdue.1 hdue.2
    rw [hpayload] at hmeans
    obtain ⟨hcandidate, L, hstood, hindex, hlast⟩ := hmeans
    exact shadowed_grant hrel hnode hgrants hcandidate hpeer hstood hindex hlast (by simp)
  | countVote c rpc response haction hpayload hrole hterm hconn hmember hgranted =>
    subst haction
    obtain ⟨⟨hpeer, -⟩, -, hmeans⟩ := hrel.received hwired hdue.1 hdue.2
    rw [hpayload] at hmeans
    have hother := (hactive.wired _ c hconn).2
    rw [hother] at hpeer hmeans
    exact shadowed_countVote hnode hrole hpeer (hterm ▸ hmeans hgranted) (by simp)
  | elect s hrole hquorum hstate =>
    exact shadowed_elect hrel hnode hactive.serverId hactive.peers hrole hquorum (by simp)

theorem LogStep.shadowed (hdue : w.Due timely n l action) (h : LogStep action l event l') :
    Shadowed config A w n event l' := by
  have hnode := hrel.active n l hview
  have hactive := hwired.active n l hview
  cases h with
  | push call s haction hrole hwaiting hnew hstate => exact shadowed_push hrel hnode s hrole hwaiting
  | advance index s hrole hindex hstate =>
    exact shadowed_advance hrel hnode hrole hactive.peers hactive.member hindex (by simp)
  | merge c rpc request s haction hpayload hrole hterm hprev hsuccess hstate =>
    subst haction
    have hmeans := (hrel.received hwired hdue.1 hdue.2).2.2
    have hconsecutive := (hwired.packets _ hdue.1).entries request hpayload
    rw [hpayload] at hmeans
    exact shadowed_merge hrel hnode hmeans hconsecutive hrole hterm hprev hsuccess (by simp)
  | spoil c rpc request log haction hpayload hgap =>
    subst haction
    exact absurd ((hwired.packets _ hdue.1).entries request hpayload) hgap
  | install c rpc request snapshot s haction hpayload hrole hterm hindex hlabel hlt hopen hdone hlength hparse hstore hlabelled =>
    subst haction
    have hmeans := (hrel.received hwired hdue.1 hdue.2).2.2
    rw [hpayload] at hmeans
    exact shadowed_install hrel hnode hmeans hrole hterm hindex hlabel hlt hparse hlabelled (by simp)

omit hwired in
theorem ApplyStep.shadowed (h : ApplyStep l event l') : Shadowed config A w n event l' := by
  have hnode := hrel.active n l hview
  have hsame : ∀ applying, Shadowed config A w n none { l with applying := applying } := fun _ =>
    .same (by simp) ⟨hnode.memory, hnode.roles, hnode.numbering, hnode.idle, hnode.replicating⟩
  cases h with
  | enter => exact hsame true
  | catchUp =>
    exact .same (by simp)
      ⟨hnode.memory.applied (hnode.memory.depicts.lastApplied.max hnode.memory.depicts.snapshotIndex), hnode.roles,
        hnode.numbering, hnode.idle, hnode.replicating⟩
  | call entry hin hlt hentry => exact .same (by simp) hnode
  | apply entry command batch s hin hlt hentry hparse hbatch hstore =>
    exact shadowed_apply hnode hlt hbatch (by simp)
  | persist s hin hle hstore => exact shadowed_persist hrel hnode (by simp)
  | compact s hin happlied hlow hterm hhigh hstore => exact shadowed_compact hrel hnode hlow hterm hhigh (by simp)
  | leave | refuse | abort =>
    exact .same (by simp) ⟨hnode.memory, hnode.roles, hnode.numbering, hnode.idle, hnode.replicating⟩

theorem SendStep.shadowed (hdue : w.Due timely n l action) (h : SendStep action l event l') :
    Shadowed config A w n event l' := by
  have hnode := hrel.active n l hview
  have hpos := hnode.numbering.pos
  cases h with
  | requestVote peer c s hrole => exact shadowed_requestVote hrel hwired hview hrole
  | identify c => exact shadowed_plain hrel hview (Nat.le_succ _) (fun h => h) hpos trivial
  | readIndex peer c active id next s hrole hread hterm hconn hlive hid =>
    exact shadowed_plain hrel hview hid.le (fun h => h) (hid.pos hpos) (hnode.roles.leader hrole).leads
  | voteResponse c rpc request granted id next s haction hpayload hgranted hlive hid =>
    subst haction
    exact shadowed_voteResponse hrel hwired hview hdue.1 hdue.2 hpayload hgranted hid
  | appendResponse c rpc request success matchIndex id next s haction hpayload haccepts hrejects hlive hid =>
    subst haction
    exact shadowed_appendResponse hrel hwired hview hdue.1 hdue.2 hpayload (fun h => (haccepts h).2) hrejects hid
  | snapshotResponse c rpc request success offset id next s haction hpayload hreceives hlive hid =>
    subst haction
    exact shadowed_snapshotResponse hrel hwired hview hdue.1 hdue.2 hpayload hreceives hid
  | readResponse c rpc request success id next s haction hpayload hsuccess hlive hid =>
    subst haction
    exact shadowed_readResponse hrel hwired hview hdue.1 hdue.2 hpayload hid

theorem PeerStep.shadowed (hdue : w.Due timely n l action) (h : PeerStep action l event l') :
    Shadowed config A w n event l' := by
  have hnode := hrel.active n l hview
  have hactive := hwired.active n l hview
  have herase : ∀ peer p, p ≠ peer → p ∈ l.waiting → p ∈ l.waiting.erase peer := fun peer p hne =>
    (List.mem_erase_of_ne hne).mpr
  cases h with
  | sendAppend peer c s hrole hidle hconn hlive hnext =>
    exact shadowed_sendAppend hrel hwired hview hrole hconn (herase peer) hnext
  | oversize peer c rpc s hrole hidle hconn hlive hrequest hentries =>
    exact shadowed_oversize hnode hwired hview hrole hidle hconn hlive hentries (by simp)
  | sendSnapshot peer c request s hrole hidle hconn hlive hnext hknown hchunk =>
    exact shadowed_sendSnapshot hrel hwired hview hrole hconn (herase peer) hnext hchunk
  | resumeSnapshot c rpc response request s haction hpayload hrole hterm hpos hid hconn hlive hwaiting hknown hchunk =>
    subst haction
    exact shadowed_resumeSnapshot hrel hwired hview hdue.1 hdue.2 hpayload hrole hpos hid hconn hlive hwaiting hchunk
  | forget affected => exact shadowed_forget hnode affected (by simp)
  | touch peer hnone => exact shadowed_touch hnode hnone (by simp)
  | skip peer hgone => exact shadowed_skip hnode hgone (by simp)
  | ackAppend c rpc response haction hpayload hrole hterm hpos hid hconn hknown hsuccess =>
    subst haction
    exact shadowed_ackAppend hrel hwired hview hdue.1 hdue.2 hpayload hrole hterm hpos hid hconn hsuccess (by simp)
  | backOff c rpc response haction hpayload hrole hterm hpos hid hconn hfailure hlow =>
    subst haction
    exact shadowed_backOff hrel hwired hview hdue.1 hdue.2 hpayload hrole hterm hpos hid hconn hfailure hlow (by simp)
  | ackSnapshot c rpc response s haction hpayload hrole hterm hpos hid hconn hknown hsuccess =>
    subst haction
    exact shadowed_ackSnapshot hrel hwired hview hdue.1 hdue.2 hpayload hrole hterm hpos hid hconn hsuccess (by simp)
  | setIndexes hrole =>
    refine shadowed_setIndexes hnode hrole (fun p m hm => ?_) (by simp)
    rw [lookup_foldl_insert] at hm
    split at hm
    · next hother => simpa [RaftNode.otherPeers, hactive.serverId, hactive.peers] using hother
    · exact hnode.roles.keys p m hm

omit hwired in
theorem ConnStep.shadowed (h : ConnStep action l event l') : Shadowed config A w n event l' := by
  have hnode := hrel.active n l hview
  cases h with
  | reconnect outbound inbound hchange =>
    exact shadowed_reconnect hnode (fun peer => (hchange peer).imp_right And.left) (by simp)
  | shutdown connected hsub => exact shadowed_shutdown hnode (fun _ h => h) hsub (by simp)
  | close c hfree =>
    exact shadowed_shutdown hnode (fun _ h => (List.mem_filter.mp h).1) (fun _ h => (List.mem_filter.mp h).1)
      (by simp)

/-- The shadow follows every small step. -/
theorem Micro.shadowed (hdue : w.Due timely n l action) (h : Micro action l event l') :
    Shadowed config A w n event l' := by
  have hnode := hrel.active n l hview
  rcases h with h | h | h | h | h | h | h | h | h
  · exact h.shadowed hrel hwired hview hdue
  · exact h.shadowed hrel hwired hview hdue
  · exact h.shadowed hrel hview
  · -- the snapshot that is being received is not part of the log
    cases h <;> exact .same (by simp)
      ⟨hnode.memory, hnode.roles, hnode.numbering, hnode.idle, hnode.replicating⟩
  · exact h.shadowed hrel hwired hview hdue
  · exact h.shadowed hrel hwired hview hdue
  · exact h.shadowed hrel hview
  · -- reads take ids and nothing else
    have hnumbering : Numbering (packets w.history) n (l.node.nextRpcId + 1) l.node.connections :=
      ⟨Nat.succ_pos _, fun packet hpacket hsender hon hr =>
        (hnode.numbering.fresh packet hpacket hsender hon hr).trans (Nat.lt_succ_self _)⟩
    cases h with
    | queue =>
      exact .same (by simp)
        ⟨hnode.memory, hnode.roles, hnumbering, hnode.idle, hnode.replicating⟩
    | _ =>
      exact .same (by simp)
        ⟨hnode.memory, hnode.roles, hnode.numbering, hnode.idle, hnode.replicating⟩
  · cases h <;> exact .same (by simp)
      ⟨hnode.memory, hnode.roles, hnode.numbering, hnode.idle, hnode.replicating⟩

end Micro

/-! ### Coming up, going down and connecting -/

/-- A node that has read its store stands where it stood when it wrote it. -/
theorem Stored.loaded {store : RocksKVStore} {state : PersistedRaftState} (h : Stored config A n store)
    (hload : RaftStorage.load store = .ok state) (sent : List Packet) :
    NodeSim config A sent n (Local.loaded n config.peers store state) := by
  obtain ⟨held, hholds, hd⟩ := h
  obtain ⟨rfl, -⟩ := hholds.load_eq_ok.mp hload
  have hmax := hd.commitIndex.max hd.snapshotIndex
  have hcommit : Raft.Agreed config.setting A (A.term n)
      (min (max state.commitIndex state.snapshotIndex) (state.snapshotIndex + state.log.length)) (A.log n) :=
    hmax.mono le_rfl (Nat.min_le_left _ _)
  have happlied : Raft.Agreed config.setting A (A.term n)
      (min (max state.lastApplied state.snapshotIndex)
        (min (max state.commitIndex state.snapshotIndex) (state.snapshotIndex + state.log.length))) (A.log n) :=
    hcommit.mono le_rfl (Nat.min_le_right _ _)
  refine ⟨⟨⟨hd.term, hd.unvoted, hd.voted, hd.base, hd.log, hd.snapshotTerm, hd.snapshotIndex, hcommit, happlied⟩,
    state.commitIndex, state.lastApplied, state.snapshotData, hholds, hd.commitIndex, hd.lastApplied⟩,
    .follower rfl nofun, ⟨Nat.one_pos, fun packet _ _ hon => absurd hon List.not_mem_nil⟩, fun _ _ => rfl, nofun⟩

theorem Memory.dies {d : LogState} (h : Memory config A n d) : Stored config A n d.store := by
  obtain ⟨hd, c, a, data, hholds, hc, ha⟩ := h
  exact ⟨_, hholds, hd.term, hd.unvoted, hd.voted, hd.base, hd.log, hd.snapshotTerm, hd.snapshotIndex, hc, ha⟩

section Connecting

variable (hwired : Wired config w) (hview : w.views n = .active l)
include hwired hview

omit [Protobuf] in
/-- A new connection carries no frame yet and is the connection of no peer. -/
theorem Wired.connecting {c : Conn} (hnew : c ∉ w.opened) :
    (∀ packet ∈ Nukv.packets w.history, packet.sender = n → packet.connection ≠ c) ∧
      ∀ p, l.node.connectionForPeer p ≠ some c := by
  have hactive := hwired.active n l hview
  refine ⟨fun packet hpacket _ heq => hnew ?_, fun p hp => hnew ?_⟩
  · exact heq ▸ (hwired.packets packet hpacket).opened
  · exact (hactive.opened _ (hactive.wired p _ hp).1).1

omit [Protobuf] in
theorem Wired.accepting {c : Conn} (hopened : c ∈ w.opened) (hserver : c.server = n) (hnew : c ∉ w.accepted) :
    (∀ packet ∈ Nukv.packets w.history, packet.sender = n → packet.connection ≠ c) ∧
      ∀ p, l.node.connectionForPeer p ≠ some c := by
  have hactive := hwired.active n l hview
  have hlt := (hwired.opened c hopened).2.2
  refine ⟨fun packet hpacket hsender heq => ?_, fun p hp => ?_⟩
  · rcases (hwired.packets packet hpacket).sender with hclient | ⟨-, haccepted⟩
    · rw [heq, hsender] at hclient
      omega
    · exact hnew (heq ▸ haccepted)
  · rcases (hactive.opened _ (hactive.wired p _ hp).1).2 with hclient | ⟨-, haccepted⟩
    · omega
    · exact hnew haccepted

end Connecting

theorem NodeSim.joined (h : NodeSim config A (packets w.history) n l) {c : Conn}
    (hfresh : ∀ packet ∈ packets w.history, packet.sender = n → packet.connection ≠ c)
    (hunused : ∀ p, l.node.connectionForPeer p ≠ some c) :
    NodeSim config A (packets w.history) n
      { l with node := { l.node with connections := c :: l.node.connections, connected := c :: l.node.connected } } := by
  refine ⟨h.memory, h.roles, ⟨h.numbering.pos, fun packet hpacket hsender hon => ?_⟩, h.idle,
    fun hrole p hp hne => ?_⟩
  · exact h.numbering.fresh packet hpacket hsender
      ((List.mem_cons.mp hon).resolve_left (hfresh packet hpacket hsender))
  · have hpeer := h.replicating hrole p hp hne
    refine ⟨hpeer.low, hpeer.high, hpeer.probed, hpeer.append, hpeer.install, fun hid hidle =>
      (hpeer.stale hid hidle).imp_right (Or.imp_right fun hgone c' hc' hin => ?_)⟩
    rcases List.mem_cons.mp hin with rfl | hin
    · exact hunused p hc'
    · exact hgone c' hc' hin

/-- One step of a world and the steps of its shadow, all by one node. Only small steps move the shadow. -/
theorem Related.step (hrel : Related config A w) (hwired : Wired config w)
    (hstep : World.Step config timely w n event w') :
    ∃ A', Raft.Steps config.setting n A A' ∧ Grows A A' n event ∧ Related config A' w' ∧
      (A' = A ∨ ∃ action l l', w.views n = .active l ∧ w'.views n = .active l' ∧ w.Due timely n l action ∧
        Micro action l event l') := by
  cases hstep with
  | start store state hview hmember hload =>
    refine ⟨A, .refl .., .of_eq rfl, hrel.moved (.refl ..) (fun l hl => ?_) (by simp) (by simp), .inl rfl⟩
    obtain rfl := View.active.inj hl
    exact (hrel.down n store hview).loaded hload _
  | die l hview =>
    refine ⟨A, .refl .., .of_eq rfl, hrel.moved (.refl ..) (by simp) (fun store hstore => ?_) (by simp), .inl rfl⟩
    obtain rfl := View.down.inj hstore
    exact (hrel.active n l hview).memory.dies
  | connect peer serial l hview hpeer hlt hnew =>
    refine ⟨A, .refl .., .of_eq rfl, hrel.moved (.refl ..) (fun l' hl' => ?_) (by simp) (by simp), .inl rfl⟩
    obtain rfl := View.active.inj hl'
    rw [World.moved_history_none]
    obtain ⟨hfresh, hunused⟩ := hwired.connecting hview hnew
    exact (hrel.active n l hview).joined hfresh hunused
  | accept c l hview hopened hserver hnew =>
    refine ⟨A, .refl .., .of_eq rfl, hrel.moved (.refl ..) (fun l' hl' => ?_) (by simp) (by simp), .inl rfl⟩
    obtain rfl := View.active.inj hl'
    rw [World.moved_history_none]
    obtain ⟨hfresh, hunused⟩ := hwired.accepting hview hopened hserver hnew
    exact (hrel.active n l hview).joined hfresh hunused
  | micro action l l' _ hview hdue hmicro =>
    obtain ⟨A', hsteps, hgrows, hnode, hpacket⟩ := hmicro.shadowed hrel hwired hview hdue
    refine ⟨A', hsteps, hgrows, hrel.moved hsteps (fun l'' hl'' => ?_) (by simp) hpacket,
      .inr ⟨action, l, l', hview, World.moved_views_self .., hdue, hmicro⟩⟩
    obtain rfl := View.active.inj hl''
    exact hnode

theorem Related.initial (config : Config) : Related config Raft.State.initial World.initial where
  inv := .initial _
  active n l h := absurd h (by simp [World.initial, Cluster.world, Cluster.initial, Status.view])
  down n store h := by
    obtain rfl : RocksKVStore.empty = store := by
      simpa [World.initial, Cluster.world, Cluster.initial, Status.view] using h
    exact ⟨_, .empty, rfl, fun _ _ h => h, fun h => absurd rfl h, rfl, rfl, rfl, .zero .., .zero .., .zero ..⟩
  frames := by simp [World.initial, Cluster.world, Cluster.initial, packets]

/-- The worlds of a run with their shadows. -/
inductive Tracked (config : Config) (timely : Prop) : World → Shadow → Prop
  | initial : Tracked config timely World.initial Raft.State.initial
  | step {w w' : World} {A A' : Shadow} {n : Int} {event : Option Event} :
      Tracked config timely w A → World.Step config timely w n event w' → Raft.Steps config.setting n A A' →
        Grows A A' n event → Related config A' w' →
        (A' = A ∨ ∃ action l l', w.views n = .active l ∧ w'.views n = .active l' ∧ w.Due timely n l action ∧
          Micro action l event l') →
        Tracked config timely w' A'

namespace Tracked

theorem related (h : Tracked config timely w A) : Related config A w := by
  cases h with
  | initial => exact .initial config
  | step _ _ _ _ hrel => exact hrel

theorem reach (h : Tracked config timely w A) : World.Reach config timely w := by
  induction h with
  | initial => exact .initial
  | step _ hstep _ _ _ _ ih => exact ih.step hstep

theorem inv (h : Tracked config timely w A) : Raft.Inv config.setting A := h.related.inv

theorem wired (h : Tracked config timely w A) : Wired config w := h.reach.wired

/-- What every step preserves, given the shadow on both sides, holds along a run. -/
theorem invariant {I : World → Shadow → Prop} (hinitial : I World.initial Raft.State.initial)
    (hstep : ∀ w w' A A' n event, Tracked config timely w A → Tracked config timely w' A' →
      World.Step config timely w n event w' → Raft.Steps config.setting n A A' → Grows A A' n event → I w A → I w' A')
    (h : Tracked config timely w A) : I w A := by
  induction h with
  | initial => exact hinitial
  | step htracked hmove hsteps hgrows hrel hmicro ih =>
    exact hstep _ _ _ _ _ _ htracked (.step htracked hmove hsteps hgrows hrel hmicro) hmove hsteps hgrows ih

/-- What is true of every node that has just come up, stays true of it along its own steps and when it gets a
connection, and is not touched by the steps of others, is true of every running node. -/
theorem each {P : World → Shadow → Int → Local → Prop}
    (loaded : ∀ w w' A n store state, Tracked config timely w A → w.views n = .down store →
      RaftStorage.load store = .ok state → w'.history = w.history ++ [(n, .loadState state)] →
      P w' A n (Local.loaded n config.peers store state))
    (joined : ∀ w w' A n l c, Tracked config timely w A → w.views n = .active l → w'.history = w.history →
      (∀ packet ∈ packets w.history, packet.sender = n → packet.connection ≠ c) →
      (∀ p, l.node.connectionForPeer p ≠ some c) → P w A n l → P w' A n
        { l with node := { l.node with connections := c :: l.node.connections, connected := c :: l.node.connected } })
    (own : ∀ w w' A A' n action l l' event, Tracked config timely w A → Tracked config timely w' A' →
      w.views n = .active l → w'.views n = .active l' → w.Due timely n l action → Micro action l event l' →
      w'.history = w.history ++ event.toList.map (fun e => (n, e)) → Raft.Steps config.setting n A A' →
      P w A n l → P w' A' n l')
    (others : ∀ w w' A A' n m l (event : Option Event), m ≠ n → Tracked config timely w A → Tracked config timely w' A' →
      w.views m = .active l → World.Step config timely w n event w' → Raft.Steps config.setting n A A' →
      P w A m l → P w' A' m l)
    (h : Tracked config timely w A) : ∀ n l, w.views n = .active l → P w A n l := by
  induction h with
  | initial => exact fun n l hview => absurd hview (by simp [World.initial, Cluster.world, Cluster.initial, Status.view])
  | @step w w' A A' n event htracked hstep hsteps hgrows hrel hmicro ih =>
    have htracked' := Tracked.step htracked hstep hsteps hgrows hrel hmicro
    intro m l' hview'
    by_cases hm : m = n
    · subst hm
      rcases hmicro with rfl | ⟨action, l, l'', hview, hview'', hdue, hmicro⟩
      · cases hstep with
        | start store state hview hmember hload =>
          obtain rfl := View.active.inj ((Function.update_self ..).symm.trans hview')
          exact loaded _ _ _ _ _ _ htracked hview hload (World.moved_history_some ..)
        | die l hview => exact absurd ((Function.update_self ..).symm.trans hview') (by simp)
        | connect peer serial l hview hpeer hlt hnew =>
          obtain rfl := View.active.inj ((Function.update_self ..).symm.trans hview')
          obtain ⟨hfresh, hunused⟩ := htracked.wired.connecting hview hnew
          exact joined _ _ _ _ _ _ htracked hview (List.append_nil _) hfresh hunused (ih m l hview)
        | accept c l hview hopened hserver hnew =>
          obtain rfl := View.active.inj ((Function.update_self ..).symm.trans hview')
          obtain ⟨hfresh, hunused⟩ := htracked.wired.accepting hview hopened hserver hnew
          exact joined _ _ _ _ _ _ htracked hview (List.append_nil _) hfresh hunused (ih m l hview)
        | micro action l l' _ hview hdue hmicro =>
          obtain rfl := View.active.inj ((Function.update_self ..).symm.trans hview')
          exact own _ _ _ _ _ _ _ _ _ htracked htracked' hview hview' hdue hmicro rfl (.refl ..) (ih m l hview)
      · obtain rfl := View.active.inj (hview''.symm.trans hview')
        exact own _ _ _ _ _ _ _ _ _ htracked htracked' hview hview' hdue hmicro hstep.history hsteps (ih m l hview)
    · rw [hstep.views hm] at hview'
      exact others _ _ _ _ _ _ _ _ hm htracked htracked' hview' hstep hsteps (ih m l' hview')

end Tracked

/-- Every reachable world has a shadow. -/
theorem World.Reach.tracked (h : World.Reach config timely w) : ∃ A, Tracked config timely w A := by
  induction h with
  | initial => exact ⟨_, .initial⟩
  | step hreach hstep ih =>
    obtain ⟨A, htracked⟩ := ih
    obtain ⟨A', hsteps, hgrows, hrel, hmicro⟩ := htracked.related.step hreach.wired hstep
    exact ⟨A', .step htracked hstep hsteps hgrows hrel hmicro⟩

end Nukv
