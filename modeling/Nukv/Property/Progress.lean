import Nukv.Property.Labels

/-!
# How the commit index moves

`commit_index_` is written in three places. `TryAdvanceCommit` and `HandleInstallSnapshot` only raise it, and
`HandleAppendEntries` sets it to what the leader has committed, as far as the log goes. A new leader may know of fewer
commitments than its followers do, and then the commit index goes down, below what has been applied. While every merged
request comes from a leader that has committed as much as the node, the commit index never goes down and the indexes of
the node stay in order.
-/

namespace Nukv

open Base

/-- A request that is merged comes from a leader that has committed as much as the node. -/
def Event.Informed : Event → Prop
  | .write (.persistLog (some request)) s => s.commitIndex ≤ request.leaderCommit
  | _ => True

/-- What is in the snapshot has been applied, and what has been applied is committed. -/
def RaftNode.Ordered (node : RaftNode) : Prop :=
  node.snapshotIndex ≤ node.lastApplied ∧ node.lastApplied ≤ node.commitIndex

theorem RaftNode.voteSaved_commitIndex (node : RaftNode) (candidate : Int) :
    (node.voteSaved candidate).commitIndex = node.commitIndex := rfl

theorem RaftNode.voteSaved_ordered (node : RaftNode) (h : node.Ordered) (candidate : Int) :
    (node.voteSaved candidate).Ordered := h

/-- A merge cuts nothing that is committed. -/
theorem NodeM.MergeResult.committed_le {node : RaftNode} {index : Nat} {entries : List Proto.RaftLogEntry}
    {merge : Merge} (h : MergeResult node index entries merge) (hhigh : node.commitIndex ≤ node.lastIndex) :
    node.commitIndex ≤ node.snapshotIndex + merge.log.length := by
  cases h with
  | present => exact hhigh
  | refused => exact hhigh
  | replaced i hi hend _ hreason =>
    have hle : node.commitIndex ≤ index + i := by
      rcases hreason with hlast | ⟨hcommit, -⟩
      · exact hlast ▸ hhigh
      · exact hcommit
    unfold RaftNode.lastIndex at hend
    simp only [List.length_append, List.length_take]
    omega

section Runs

variable [Protobuf] {config : Config} {timely : Prop} {A : Shadow} {w : World} {n : Int} {l l' : Local}
  {action : LoopAction} {event : Option Event}

theorem LogStep.commitIndex_le (hstep : LogStep action l event l') (hhigh : l.node.commitIndex ≤ l.node.lastIndex)
    (hinformed : ∀ e, event = some e → e.Informed) : l.node.commitIndex ≤ l'.node.commitIndex := by
  cases hstep with
  | push => exact le_rfl
  | spoil => exact le_rfl
  | advance index s _ hindex => exact (NodeM.commitCandidate_some hindex).1.le
  | install => exact le_max_left _ _
  | merge _ _ request s _ _ _ _ hprev hsuccess hs =>
    have hknown : s.commitIndex ≤ request.leaderCommit := hinformed _ rfl
    have hcommit : s.commitIndex = l.node.commitIndex := congrArg (fun t => t.toLogState.commitIndex) hs
    unfold NodeM.prevMatches at hprev
    simp only [Bool.and_eq_true, decide_eq_true_eq] at hprev
    have hresult := NodeM.mergeEntries_result (NodeM.consecutive_of_mergeEntries hsuccess) hprev.1.1 hprev.1.2
    exact le_min (hcommit ▸ hknown) (hresult.committed_le hhigh)

theorem Micro.commitIndex_le (hstep : Micro action l event l') (hhigh : l.node.commitIndex ≤ l.node.lastIndex)
    (hinformed : ∀ e, event = some e → e.Informed) : l.node.commitIndex ≤ l'.node.commitIndex := by
  rcases hstep with hstep | hstep | hstep | hstep | hstep | hstep | hstep | hstep | hstep
  case log => exact hstep.commitIndex_le hhigh hinformed
  case role =>
    cases hstep with
    | grant => exact (l.node.voteSaved_commitIndex _).ge
    | _ => exact le_rfl
  all_goals cases hstep <;> exact le_rfl

theorem Micro.ordered (hstep : Micro action l event l') (hhigh : l.node.commitIndex ≤ l.node.lastIndex)
    (hinformed : ∀ e, event = some e → e.Informed) (h : l.node.Ordered) : l'.node.Ordered := by
  obtain ⟨hsnapshot, happlied⟩ := h
  rcases hstep with hstep | hstep | hstep | hstep | hstep | hstep | hstep | hstep | hstep
  case log =>
    have hforward := hstep.commitIndex_le hhigh hinformed
    cases hstep with
    | install => exact ⟨le_rfl, le_max_right _ _⟩
    | _ => exact ⟨hsnapshot, happlied.trans hforward⟩
  case apply =>
    cases hstep with
    | catchUp => exact ⟨le_max_right _ _, max_le happlied (hsnapshot.trans happlied)⟩
    | apply _ _ _ _ _ hlt => exact ⟨hsnapshot.trans (Nat.le_succ _), hlt⟩
    | compact _ _ hall => exact ⟨hall, happlied⟩
    | _ => exact ⟨hsnapshot, happlied⟩
  case role =>
    cases hstep with
    | grant => exact l.node.voteSaved_ordered ⟨hsnapshot, happlied⟩ _
    | _ => exact ⟨hsnapshot, happlied⟩
  all_goals cases hstep <;> exact ⟨hsnapshot, happlied⟩

/-! ### Along a run -/

theorem Tracked.ordered (h : Tracked config timely w A) (hinformed : ∀ e, (n, e) ∈ w.history → e.Informed)
    (hview : w.views n = .active l) : l.node.Ordered := by
  refine h.each (P := fun w _ n l => (∀ e, (n, e) ∈ w.history → e.Informed) → l.node.Ordered) ?_ ?_ ?_ ?_ n l hview
    hinformed
  · intro w w' A n store state _ _ _ _ _
    refine ⟨?_, Nat.min_le_right ..⟩
    change state.snapshotIndex ≤ min (max state.lastApplied state.snapshotIndex)
      (min (max state.commitIndex state.snapshotIndex) (state.snapshotIndex + state.log.length))
    omega
  · intro w w' A n l c _ _ hhistory _ _ ih hinformed
    exact ih (hhistory ▸ hinformed)
  · intro w w' A A' n action l l' event htracked _ hview _ _ hmicro hhistory _ ih hinformed
    rw [hhistory] at hinformed
    refine hmicro.ordered (htracked.committed_termed hview).1 ?_ (ih fun e he => hinformed e (List.mem_append_left _ he))
    rintro e rfl
    exact hinformed e (List.mem_append_right _ (by simp))
  · intro w w' A A' n m l event hm _ _ _ hstep _ ih hinformed
    exact ih fun e he => hinformed e (hstep.history ▸ List.mem_append_left _ he)

/-- The small steps of one function. -/
theorem World.Reach.commitIndex_le {events : List Event} (h : Reach config timely w) (hview : w.views n = .active l)
    (hdue : w.Due timely n l action) (hchain : Prog.Chain (Micro action) l events l')
    (hinformed : ∀ e ∈ events, e.Informed) : l.node.commitIndex ≤ l'.node.commitIndex := by
  induction hchain generalizing w with
  | nil => exact le_rfl
  | @cons l l₁ l₂ event events hstep _ ih =>
    obtain ⟨A, hA⟩ := h.tracked
    have hfirst := hstep.commitIndex_le (hA.committed_termed hview).1 fun e he =>
      hinformed e (List.mem_append_left _ (by simp [he]))
    exact hfirst.trans (ih (h.step (.micro n action l l₁ event hview hdue hstep)) (w.moved_views_self ..)
      (hdue.micro hstep) fun e he => hinformed e (List.mem_append_right _ he))

end Runs

namespace Cluster

section Statement

variable [Protobuf] {config : Config} {cluster cluster' : Cluster} {n : Int} {node node' : RaftNode}

/-- The steps of a run during which the process `n` does not go down. -/
inductive Stays (config : Config) (n : Int) (cluster : Cluster) : Cluster → Prop
  | refl : Stays config n cluster cluster
  | step {cluster' cluster'' : Cluster} {action : Action} {node : RaftNode} :
      Stays config n cluster cluster' → exec config.peers cluster' action = some cluster'' →
        cluster''.nodes n = .running node → Stays config n cluster cluster''

theorem Stays.one {action : Action} (hexec : exec config.peers cluster action = some cluster')
    (hnode' : cluster'.nodes n = .running node') : Stays config n cluster cluster' := .step .refl hexec hnode'

/-- One action of the cluster. -/
theorem Reachable.commitIndex_le (h : Reachable config cluster) {act : Action}
    (hexec : exec config.peers cluster act = some cluster') (hnode : cluster.nodes n = .running node)
    (hnode' : cluster'.nodes n = .running node') (hinformed : ∀ e, (n, e) ∈ cluster'.history → e.Informed) :
    node.commitIndex ≤ node'.commitIndex := by
  rcases exec_running hexec hnode' with ⟨hsame, -⟩ | ⟨action, node₀, events, hstop, hentry, hrun, hhistory⟩
  · rw [Status.running.inj (hnode.symm.trans hsame)]
  · obtain ⟨rfl, hserver, hprepared, hreach, hdue⟩ := entry_running h.reach hnode hentry False.elim
    obtain ⟨l', hchain, hpost⟩ := follows_program (h.calm hnode) hserver hprepared
    rw [hrun] at hchain hpost
    have hle := hreach.commitIndex_le (Function.update_self ..) hdue hchain fun e he =>
      hinformed e (hhistory ▸ List.mem_append_right _ (List.mem_map_of_mem he))
    rw [(hpost.2 hstop).1] at hle
    have hentered : (Local.rest (entered n action node)).node.commitIndex = node.commitIndex := by
      cases action <;> rfl
    exact hentered ▸ hle

theorem Reachable.stays (h : Reachable config cluster) (hstays : Stays config n cluster cluster') :
    Reachable config cluster' := by
  induction hstays with
  | refl => exact h
  | step _ hexec _ ih => exact Run.step ih trivial hexec

theorem Stays.commitIndex_le (hstays : Stays config n cluster cluster') (h : Reachable config cluster)
    (hnode : cluster.nodes n = .running node) (hnode' : cluster'.nodes n = .running node')
    (hinformed : ∀ e, (n, e) ∈ cluster'.history → e.Informed) : node.commitIndex ≤ node'.commitIndex := by
  induction hstays generalizing node' with
  | refl => rw [Status.running.inj (hnode.symm.trans hnode')]
  | @step before after act last hstays hexec hlast ih =>
    have hold : ∀ e, (n, e) ∈ before.history → e.Informed := by
      intro e he
      refine hinformed e ?_
      rcases exec_running hexec hlast with ⟨-, events, hhistory⟩ | ⟨_, _, events, _, _, _, hhistory⟩
      all_goals exact hhistory ▸ List.mem_append_left _ he
    obtain ⟨middle, hmiddle⟩ : ∃ middle, before.nodes n = .running middle := by
      cases hstays with
      | refl => exact ⟨node, hnode⟩
      | step _ _ hrunning => exact ⟨_, hrunning⟩
    exact (ih hmiddle hold).trans ((h.stays hstays).commitIndex_le hexec hmiddle hnode' hinformed)

/-- Between two moments of one process, if every request merged by it came from a leader that had committed as much as
it had, the commit index does not go down, and the indexes are in order at the later moment. -/
theorem commitIndex_monotone (h : Reachable config cluster) (hstays : Stays config n cluster cluster')
    (hnode : cluster.nodes n = .running node) (hnode' : cluster'.nodes n = .running node')
    (hinformed : ∀ request s, (n, .write (.persistLog (some request)) s) ∈ cluster'.history →
      s.commitIndex ≤ request.leaderCommit) :
    node.commitIndex ≤ node'.commitIndex ∧ node'.snapshotIndex ≤ node'.lastApplied ∧
      node'.lastApplied ≤ node'.commitIndex ∧ node'.commitIndex ≤ node'.lastIndex := by
  have hall : ∀ e, (n, e) ∈ cluster'.history → e.Informed := by
    intro e he
    unfold Event.Informed
    split
    · exact hinformed _ _ he
    · trivial
  obtain ⟨A, hA⟩ := (h.stays hstays).reach.tracked
  have hview : cluster'.world.views n = .active (.rest node') := congrArg Status.view hnode'
  obtain ⟨hsnapshot, happlied⟩ := hA.ordered hall hview
  exact ⟨hstays.commitIndex_le h hnode hnode' hall, hsnapshot, happlied, (hA.committed_termed hview).1⟩

/-- Moves that can all be played, and one more. -/
theorem step_of_play {moves : List Move} {move : Move} {test : Cluster → Cluster → Bool}
    (h : (play config.peers (fun _ _ => True) initial moves).any (fun cluster =>
      ((move.action cluster).bind (exec config.peers cluster)).any (test cluster)) = true) :
    ∃ cluster cluster' action, Reachable config cluster ∧ exec config.peers cluster action = some cluster' ∧
      test cluster cluster' = true := by
  obtain ⟨cluster, hrun, htest⟩ := run_of_play h
  cases hstep : (move.action cluster).bind (exec config.peers cluster) with
  | none => simp [hstep] at htest
  | some cluster' =>
    rw [hstep] at htest
    obtain ⟨action, -, hexec⟩ := Option.bind_eq_some_iff.mp hstep
    exact ⟨cluster, cluster', action, hrun, hexec, htest⟩

omit [Protobuf] in
/-- Node 2 learns from its leader that the first entry is committed. -/
theorem commitIndex_monotone_handover : ∃ cluster cluster' node node', @Reachable Wire.protobuf trio cluster ∧
    @Stays Wire.protobuf trio 2 cluster cluster' ∧ cluster.nodes 2 = .running node ∧
    cluster'.nodes 2 = .running node' ∧ node.commitIndex = 0 ∧ node'.commitIndex = 1 ∧
    node'.lastApplied ≤ node'.commitIndex := by
  obtain ⟨cluster, cluster', action, hrun, hexec, htest⟩ := @step_of_play Wire.protobuf trio (handover.take 13)
    (.deliver 7) (fun cluster cluster' =>
      !cluster'.occurs 2 (Event.merges fun request s => !decide (s.commitIndex ≤ request.leaderCommit)) &&
      (cluster.nodes 2).runs fun a => (cluster'.nodes 2).runs fun b => a.commitIndex == 0 && b.commitIndex == 1)
    (by decide +kernel)
  simp only [Bool.and_eq_true, Bool.not_eq_true'] at htest
  obtain ⟨hinformed, htest⟩ := htest
  obtain ⟨a, ha, htest⟩ := Status.exists_of_runs htest
  obtain ⟨b, hb, htest⟩ := Status.exists_of_runs htest
  simp only [Bool.and_eq_true, beq_iff_eq] at htest
  have hstays : @Stays Wire.protobuf trio 2 cluster cluster' := @Stays.one Wire.protobuf _ _ _ _ _ _ hexec hb
  refine ⟨cluster, cluster', a, b, hrun, hstays, ha, hb, htest.1, htest.2, ?_⟩
  refine (@commitIndex_monotone Wire.protobuf trio cluster cluster' 2 a b hrun hstays ha hb ?_).2.2.1
  intro request s hmem
  by_contra hless
  exact not_mem_of_not_occurs hinformed (by simpa [Event.merges] using hless) hmem

/-- Node 1 commits a command with node 2 and answers its client. Node 2 does not learn of it, and is elected with the
vote of node 3. -/
def unaware : List Move :=
  [.act (.run 1 .start), .act (.run 2 .start), .act (.run 1 (.connect 2 0)), .act (.run 2 (.accept ⟨1, 2, 0⟩)),
    .act (.run 1 .electionTimeout), .deliver 1, .deliver 2, .deliver 3, .deliver 4,
    .act (.run 1 (.submit ⟨0, ⟨.put, 1, 1, [107], [118]⟩⟩)), .deliver 5, .deliver 6,
    .act (.run 1 (.commitPoll ⟨1, ⟨0, ⟨.put, 1, 1, [107], [118]⟩⟩⟩)),
    .act (.run 3 .start), .act (.run 2 (.connect 3 0)), .act (.run 3 (.accept ⟨2, 3, 0⟩)),
    .act (.run 2 .electionTimeout), .deliver 9, .deliver 10]

omit [Protobuf] in
/-- The first heartbeat of node 2 takes the commitment back that node 1 has acted on. -/
theorem commitIndex_lowered : ∃ cluster cluster' node node', @Reachable Wire.protobuf trio cluster ∧
    @Stays Wire.protobuf trio 1 cluster cluster' ∧ cluster.nodes 1 = .running node ∧
    cluster'.nodes 1 = .running node' ∧ node.commitIndex = 1 ∧ node'.commitIndex = 0 ∧ node'.lastApplied = 1 := by
  obtain ⟨cluster, cluster', action, hrun, hexec, htest⟩ := @step_of_play Wire.protobuf trio unaware (.deliver 11)
    (fun cluster cluster' => (cluster.nodes 1).runs fun a => (cluster'.nodes 1).runs fun b =>
      a.commitIndex == 1 && b.commitIndex == 0 && b.lastApplied == 1) (by decide +kernel)
  obtain ⟨a, ha, htest⟩ := Status.exists_of_runs htest
  obtain ⟨b, hb, htest⟩ := Status.exists_of_runs htest
  simp only [Bool.and_eq_true, beq_iff_eq] at htest
  obtain ⟨⟨hcommit, hcommit'⟩, happlied'⟩ := htest
  exact ⟨cluster, cluster', a, b, hrun, @Stays.one Wire.protobuf _ _ _ _ _ _ hexec hb, ha, hb, hcommit, hcommit', happlied'⟩

end Statement

end Cluster

end Nukv
