import Nukv.Proof.Tracked

/-!
# What the history tells

Every event of a run was true of the shadow when it happened, and stays true: an elected leader stood with the
log it shows, a commit index is agreed, an appended entry is in the log of its term, and a command is applied
from an agreed log. In the other direction, every entry of its own term in the log of a term was appended by
`Submit`.
-/

namespace Nukv

variable [Protobuf] {config : Config} {timely : Prop} {A A' : Shadow} {w w' : World} {n : Int}

/-! ### Where an event comes from -/

/-- A step leaves the history alone or adds one event of the node that takes it. -/
theorem World.Step.history_cases {event : Option Event} (hstep : World.Step config timely w n event w') {m : Int}
    {e : Event} (h : (m, e) ∈ w'.history) : (m, e) ∈ w.history ∨ m = n ∧ event = some e := by
  rw [hstep.history] at h
  rcases List.mem_append.mp h with hold | hnew
  · exact .inl hold
  · cases event with
    | none => exact absurd hnew List.not_mem_nil
    | some event =>
      obtain ⟨rfl, rfl⟩ := Prod.mk.inj (List.mem_singleton.mp hnew)
      exact .inr ⟨rfl, rfl⟩

omit [Protobuf] in
/-- The frames of a history that one node has continued. -/
theorem mem_packets_moved {event : Option Event} {history : List (Int × Event)} {packet : Packet}
    (h : packet ∈ packets (history ++ event.toList.map fun e => (n, e))) :
    packet ∈ packets history ∨ packet.sender = n ∧ ∃ s, event = some (.send packet.connection packet.rpc s) := by
  rw [packets, List.filterMap_append] at h
  rcases List.mem_append.mp h with hold | hnew
  · exact .inl hold
  · cases event with
    | none => exact absurd hnew List.not_mem_nil
    | some event =>
      cases event with
      | send c rpc s =>
        obtain rfl : packet = ⟨c, n, rpc⟩ := List.mem_singleton.mp hnew
        exact .inr ⟨rfl, s, rfl⟩
      | _ => exact absurd hnew List.not_mem_nil

/-- The step behind a new event. -/
theorem World.Step.event {e : Event} (hstep : World.Step config timely w n (some e) w') :
    (∃ store state, w.views n = .down store ∧ RaftStorage.load store = .ok state ∧ e = .loadState state ∧
      w'.views n = .active (Local.loaded n config.peers store state)) ∨
    ∃ action l l', w.views n = .active l ∧ w'.views n = .active l' ∧ w.Due timely n l action ∧
      Micro action l (some e) l' := by
  cases hstep with
  | start store state hview hmember hload =>
    exact .inl ⟨store, state, hview, hload, rfl, World.moved_views_self ..⟩
  | micro action l l' _ hview hdue hmicro =>
    exact .inr ⟨action, l, l', hview, World.moved_views_self .., hdue, hmicro⟩

/-! ### Events and the shadow -/

/-- What an event of `n` says about the shadow. -/
def EventSim (config : Config) (A : Shadow) (n : Int) : Event → Prop
  | .becomeLeader s =>
    A.leads s.currentTerm n ∧ ∃ L, A.stood n s.currentTerm L ∧ s.Shows L ∧
      Raft.Agreed config.setting A s.currentTerm s.snapshotIndex L
  | .advanceCommit s =>
    A.leads s.currentTerm n ∧ ∃ L, L <+: A.tlog s.currentTerm ∧ s.Shows L ∧
      Raft.Agreed config.setting A s.currentTerm s.commitIndex L ∧
      Raft.lastTerm RaftLogEntry.term (L.take s.commitIndex) = s.currentTerm
  | .write (.persistLog none) s =>
    A.leads s.currentTerm n ∧ ∃ L entry, L ++ [entry] <+: A.tlog s.currentTerm ∧ entry.term = s.currentTerm ∧
      s.snapshotIndex ≤ L.length ∧ s.Shows (L ++ [entry])
  | .write (.persistLog (some request)) s =>
    ∃ L, s.Shows L ∧ Raft.Agreed config.setting A request.term (min request.leaderCommit s.lastIndex) L
  | .send _ rpc s =>
    ∀ request, rpc.payload = .appendEntries request → A.leads request.term n ∧ ∃ L, L <+: A.tlog request.term ∧
      s.Shows L ∧ request.leaderCommit ≤ L.length
  | .callApply index command =>
    ∃ t L entry, Raft.Agreed config.setting A t index L ∧ 0 < index ∧ L[index - 1]? = some entry ∧
      entry.command = command
  | _ => True

omit [Protobuf] in
theorem EventSim.grow (hext : Raft.Extends A A') {event : Event} (h : EventSim config A n event) :
    EventSim config A' n event := by
  cases event with
  | becomeLeader s =>
    obtain ⟨hleads, L, hstood, hshows, hagreed⟩ := h
    exact ⟨hext.leads _ _ hleads, L, hext.stood _ _ _ hstood, hshows, hagreed.grow hext⟩
  | advanceCommit s =>
    obtain ⟨hleads, L, hL, hshows, hagreed, hterm⟩ := h
    exact ⟨hext.leads _ _ hleads, L, hL.trans (hext.tlog _), hshows, hagreed.grow hext, hterm⟩
  | write op s =>
    cases op with
    | persistLog commit =>
      cases commit with
      | none =>
        obtain ⟨hleads, L, entry, hL, hrest⟩ := h
        exact ⟨hext.leads _ _ hleads, L, entry, hL.trans (hext.tlog _), hrest⟩
      | some request =>
        obtain ⟨L, hshows, hagreed⟩ := h
        exact ⟨L, hshows, hagreed.grow hext⟩
    | _ => trivial
  | send c rpc s =>
    intro request hrequest
    obtain ⟨hleads, L, hL, hrest⟩ := h request hrequest
    exact ⟨hext.leads _ _ hleads, L, hL.trans (hext.tlog _), hrest⟩
  | callApply index command =>
    obtain ⟨t, L, entry, hagreed, hrest⟩ := h
    exact ⟨t, L, entry, hagreed.grow hext, hrest⟩
  | _ => trivial

/-- A leader that has just appended a command: the log of its term ends with it. -/
theorem NodeSim.pushed {sent : List Packet} {l : Local} {command : Bytes} {pushed : Option CommitPoll}
    (h : NodeSim config A sent n { l with node := l.node.appended command, pushed := pushed })
    (hrole : l.node.role = .leader) :
    ∃ L, A.tlog l.node.currentTerm = L ++ [⟨l.node.currentTerm, command⟩] ∧
      A.log n = L ++ [⟨l.node.currentTerm, command⟩] ∧ L.length = l.node.lastIndex := by
  have htlog : A.tlog l.node.currentTerm = A.log n := (h.roles.leader hrole).tlog
  have hlog : l.node.log ++ [⟨l.node.currentTerm, command⟩] = (A.log n).drop l.node.snapshotIndex :=
    h.memory.depicts.log
  have hle : l.node.snapshotIndex ≤ (A.log n).length := h.memory.snapshot_le
  have hsplit := List.take_append_drop l.node.snapshotIndex (A.log n)
  rw [← hlog, ← List.append_assoc] at hsplit
  refine ⟨_, htlog.trans hsplit.symm, hsplit.symm, ?_⟩
  rw [List.length_append, List.length_take, Nat.min_eq_left hle]
  rfl

section New

variable {action : LoopAction} {l l' : Local} (hext : Raft.Extends A A') (hI : Raft.Inv config.setting A)
  (hnode : NodeSim config A (packets w.history) n l) (hnode' : NodeSim config A' (packets w'.history) n l')
include hext hI hnode hnode'

/-- A new event fits the shadow of the world after it. -/
theorem Micro.eventSim {e : Event} (h : Micro action l (some e) l') : EventSim config A' n e := by
  have hterm : A.term n = l.node.currentTerm := hnode.memory.depicts.term
  rcases h with h | h | h | h | h | h | h | h | h
  · cases h with
    | elect s hrole hquorum hstate =>
      have hlog : s.toLogState = l.node.toLogState := congrArg (fun t => t.toLogState) hstate
      have hterm' : s.currentTerm = l.node.currentTerm := (congrArg (fun t : RaftNode => t.currentTerm) hstate).trans rfl
      have hindex : s.snapshotIndex = l.node.snapshotIndex := (congrArg (fun t : RaftNode => t.snapshotIndex) hstate).trans rfl
      refine ⟨hterm' ▸ (hnode'.roles.leader rfl).leads, A.log n, ?_, ?_, ?_⟩
      · exact hterm' ▸ hext.stood _ _ _ (hnode.roles.candidate hrole).stood
      · exact Memory.shows (hlog ▸ hnode.memory)
      · rw [hterm', hindex, ← hterm]
        exact hnode.memory.depicts.snapshotIndex.grow hext
    | _ => trivial
  · cases h with
    | push call s haction hrole hwaiting hnew hstate =>
      have hlog : s.toLogState = (l.node.appended (Protobuf.command.serialize call.command)).toLogState :=
        congrArg (fun t => t.toLogState) hstate
      have hterm' : s.currentTerm = l.node.currentTerm := (congrArg (fun t : RaftNode => t.currentTerm) hstate).trans rfl
      have hindex : s.snapshotIndex = l.node.snapshotIndex := (congrArg (fun t : RaftNode => t.snapshotIndex) hstate).trans rfl
      obtain ⟨L, htlog, hself, hlength⟩ := hnode'.pushed hrole
      refine ⟨hterm' ▸ (hnode'.roles.leader hrole).leads, L,
        ⟨l.node.currentTerm, Protobuf.command.serialize call.command⟩, ?_, hterm'.symm, ?_, ?_⟩
      · rw [hterm', htlog]
      · rw [hlength, hindex]
        exact Nat.le_add_right _ _
      · rw [← hself]
        exact Memory.shows (hlog ▸ hnode'.memory)
    | advance index s hrole hindex hstate =>
      have hlog : s.toLogState = ({ l.node with commitIndex := index } : RaftNode).toLogState :=
        congrArg (fun t => t.toLogState) hstate
      have hterm' : s.currentTerm = l.node.currentTerm := (congrArg (fun t : RaftNode => t.currentTerm) hstate).trans rfl
      have hcommit : s.commitIndex = index := (congrArg (fun t : RaftNode => t.commitIndex) hstate).trans rfl
      have hshows : s.Shows (A'.log n) := Memory.shows (hlog ▸ hnode'.memory)
      obtain ⟨-, hlow, hhigh, htermAt, -⟩ := hnode.commitCandidate hI hrole hindex
      have hagreed := hnode'.memory.depicts.commitIndex
      rw [show A'.term n = l.node.currentTerm from hnode'.memory.depicts.term] at hagreed
      refine ⟨hterm' ▸ (hnode'.roles.leader hrole).leads, A'.log n, ?_, hshows, ?_, ?_⟩
      · rw [hterm', ← (hnode'.roles.leader hrole).tlog]
        exact List.prefix_rfl
      · rw [hterm', hcommit]
        exact hagreed
      · rw [hterm', hcommit, ← htermAt]
        exact (hnode'.memory.termAt hlow.le hhigh).symm
    | merge c rpc request s haction hpayload hrole hsame hprev hsuccess hstate =>
      have hlog : s.toLogState = ({ l.node with
          log := (NodeM.mergeEntries l.node request.prevLogIndex request.entries).log } :
            RaftNode).logSaved.toLogState := congrArg (fun t => t.toLogState) hstate
      have hshows : s.Shows (A'.log n) := by
        refine ⟨?_, ?_, ?_⟩
        · rw [congrArg LogState.snapshotIndex hlog]
          exact hnode'.memory.snapshot_le
        · rw [congrArg LogState.log hlog, congrArg LogState.snapshotIndex hlog]
          exact hnode'.memory.depicts.log
        · rw [congrArg LogState.snapshotTerm hlog, congrArg LogState.snapshotIndex hlog]
          exact hnode'.memory.depicts.snapshotTerm
      have hlast : s.lastIndex =
          l.node.snapshotIndex + (NodeM.mergeEntries l.node request.prevLogIndex request.entries).log.length := by
        unfold RaftNode.lastIndex
        rw [congrArg LogState.log hlog, congrArg LogState.snapshotIndex hlog]
        rfl
      have hagreed := hnode'.memory.depicts.commitIndex
      rw [show A'.term n = l.node.currentTerm from hnode'.memory.depicts.term, ← hsame] at hagreed
      exact ⟨A'.log n, hshows, hlast ▸ hagreed⟩
    | _ => trivial
  · cases h with
    | call entry hin hlt hentry =>
      refine ⟨A.term n, A.log n, entry, ?_, Nat.succ_pos _, ?_, rfl⟩
      · exact (hnode.memory.depicts.commitIndex.mono le_rfl hlt).grow hext
      · exact (hnode.memory.shows.entryAt.mp hentry).2
    | _ => trivial
  · cases h
  · cases h <;> nofun
  · cases h with
    | sendAppend peer c s hrole hidle hconn hlive hnext hlog =>
      intro request hrequest
      obtain rfl := Proto.Payload.appendEntries.inj hrequest
      refine ⟨(hnode'.roles.leader hrole).leads, A'.log n, ?_, Memory.shows (hlog ▸ hnode'.memory), ?_⟩
      · rw [← (hnode'.roles.leader hrole).tlog]
        exact List.prefix_rfl
      · exact hnode'.memory.depicts.commitIndex.le_length
    | oversize => trivial
    | sendSnapshot => nofun
    | resumeSnapshot => nofun
    | ackSnapshot => trivial
  all_goals cases h <;> trivial

end New

/-- All events of a run fit the shadow. -/
theorem Tracked.events (h : Tracked config timely w A) : ∀ n e, (n, e) ∈ w.history → EventSim config A n e := by
  refine h.invariant (I := fun w A => ∀ n e, (n, e) ∈ w.history → EventSim config A n e) (fun n e he => ?_) ?_
  · exact absurd he (by simp [World.initial, Cluster.world, Cluster.initial])
  · intro w w' A A' m event htracked htracked' hstep hsteps _ ih n e he
    have hext := hsteps.extends htracked.inv
    rcases hstep.history_cases he with hold | ⟨rfl, rfl⟩
    · exact (ih n e hold).grow hext
    · rcases hstep.event with ⟨store, state, -, -, rfl, -⟩ | ⟨action, l, l', hview, hview', -, hmicro⟩
      · trivial
      · exact hmicro.eventSim hext htracked.inv (htracked.related.active n l hview)
          (htracked'.related.active n l' hview')

/-- The moment of an event: the world before it, the step that it belongs to, and the world after it. -/
theorem Tracked.cut (h : Tracked config timely w A) : ∀ past n e rest, w.history = past ++ (n, e) :: rest →
    ∃ w₁ A₁ w₂ A₂, Tracked config timely w₁ A₁ ∧ w₁.history = past ∧ World.Step config timely w₁ n (some e) w₂ ∧
      Tracked config timely w₂ A₂ ∧ Raft.Extends A₁ A₂ ∧ Raft.Extends A₂ A := by
  refine h.invariant (I := fun w A => ∀ past n e rest, w.history = past ++ (n, e) :: rest →
    ∃ w₁ A₁ w₂ A₂, Tracked config timely w₁ A₁ ∧ w₁.history = past ∧ World.Step config timely w₁ n (some e) w₂ ∧
      Tracked config timely w₂ A₂ ∧ Raft.Extends A₁ A₂ ∧ Raft.Extends A₂ A) ?_ ?_
  · intro past n e rest hsplit
    exact absurd hsplit.symm (by simp [World.initial, Cluster.world, Cluster.initial])
  · intro w w' A A' m event htracked htracked' hstep hsteps _ ih past n e rest hsplit
    have hext := hsteps.extends htracked.inv
    have hold : ∀ rest, w.history = past ++ (n, e) :: rest → ∃ w₁ A₁ w₂ A₂, Tracked config timely w₁ A₁ ∧
        w₁.history = past ∧ World.Step config timely w₁ n (some e) w₂ ∧ Tracked config timely w₂ A₂ ∧
        Raft.Extends A₁ A₂ ∧ Raft.Extends A₂ A' := by
      intro rest hrest
      obtain ⟨w₁, A₁, w₂, A₂, h₁, hpast, hstep₁, h₂, hext₁, hext₂⟩ := ih past n e rest hrest
      exact ⟨w₁, A₁, w₂, A₂, h₁, hpast, hstep₁, h₂, hext₁, hext₂.trans hext⟩
    rw [hstep.history] at hsplit
    cases event with
    | none => exact hold rest ((List.append_nil _).symm.trans hsplit)
    | some e' =>
      rcases List.eq_nil_or_concat' rest with rfl | ⟨init, last, rfl⟩
      · obtain ⟨hpast, hlast⟩ := List.append_inj' hsplit rfl
        obtain ⟨rfl, rfl⟩ := Prod.mk.inj (List.singleton_inj.mp hlast)
        exact ⟨w, A, w', A', htracked, hpast, hstep, htracked', hext, .refl A'⟩
      · rw [← List.cons_append, ← List.append_assoc] at hsplit
        exact hold init (List.append_inj' hsplit rfl).1

/-! ### Appended entries -/

/-- Every entry of its own term in the log of a term was appended by `Submit`. -/
theorem Tracked.appended (h : Tracked config timely w A) :
    ∀ t k entry, (A.tlog t)[k]? = some entry → entry.term = t →
      ∃ n s, (n, .write (.persistLog none) s) ∈ w.history ∧ s.currentTerm = t ∧ s.lastIndex = k + 1 := by
  refine h.invariant (I := fun w A => ∀ t k entry, (A.tlog t)[k]? = some entry → entry.term = t →
      ∃ n s, (n, .write (.persistLog none) s) ∈ w.history ∧ s.currentTerm = t ∧ s.lastIndex = k + 1)
    (fun t k entry hentry => by simp [Raft.State.initial] at hentry) ?_
  intro w w' A A' n event htracked htracked' hstep hsteps hgrows ih t k entry hentry hterm
  have hhistory := hstep.history
  have hkept : (A.tlog t)[k]? = some entry →
      ∃ n s, (n, .write (.persistLog none) s) ∈ w'.history ∧ s.currentTerm = t ∧ s.lastIndex = k + 1 := by
    intro hold
    obtain ⟨m, s, hmem, hs⟩ := ih t k entry hold hterm
    exact ⟨m, s, by rw [hhistory]; exact List.mem_append_left _ hmem, hs⟩
  rcases hgrows t with hsame | hlower | ⟨s, entry', rfl, rfl, hpushed⟩
  · exact hkept (hsame ▸ hentry)
  · exact absurd hterm (Nat.ne_of_lt (hlower entry (List.mem_of_getElem? hentry)))
  · rw [hpushed] at hentry
    rcases Nat.lt_or_ge k (A.tlog (A.term n)).length with hlt | hge
    · rw [List.getElem?_append_left hlt] at hentry
      exact hkept hentry
    · -- the new entry: its event carries the node that has just appended it
      have hk : k = (A.tlog (A.term n)).length := by
        have := Raft.length_lt_of_getElem? hentry
        rw [List.length_append, List.length_singleton] at this
        omega
      refine ⟨n, s, by rw [hhistory]; exact List.mem_append_right _ List.mem_cons_self, ?_⟩
      rcases hstep.event with ⟨_, _, -, -, hload, -⟩ | ⟨action, l, l', hview, hview', -, hmicro⟩
      · cases hload
      have hnode := htracked.related.active n l hview
      have hnode' := htracked'.related.active n l' hview'
      rcases hmicro with h | h | h | h | h | h | h | h | h
      case log =>
        cases h with
        | push call s haction hrole hwaiting hnew hstate =>
          have hlog : s.toLogState = (l.node.appended (Protobuf.command.serialize call.command)).toLogState :=
            congrArg (fun t => t.toLogState) hstate
          have hterm' : s.currentTerm = A.term n :=
            (congrArg (fun t : RaftNode => t.currentTerm) hstate).trans hnode.memory.depicts.term.symm
          have hlast : s.lastIndex = (A'.log n).length := Memory.lastIndex (hlog ▸ hnode'.memory)
          have htlog : A'.tlog (A.term n) = A'.log n := by
            rw [show A.term n = l.node.currentTerm from hnode.memory.depicts.term]
            exact (hnode'.roles.leader hrole).tlog
          refine ⟨hterm', ?_⟩
          rw [hlast, ← htlog, hpushed, List.length_append, hk]
          rfl
      all_goals cases h

end Nukv
