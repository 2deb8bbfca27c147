import Nukv.Model.Indexes
import Nukv.Property.Labels

/-!
# Indexes stay in range

Compaction, the installation of a snapshot and `LoadState` rebase the log, and conflicting entries truncate it, while
`commit_index_`, `last_applied_` and the `next_index_` of a leader live on. Most functions test an index before they use it,
so that they are in range on every node (`RaftNode.inRange`). `ApplyCommitted` and `CreateSnapshotIfNeeded` do not: they
rely on `snapshot_index_ <= last_applied_` and on `commit_index_ <= LastIndex()`. The latter is a fact about the cluster,
for an installed snapshot may replace a longer log; it is not longer than what is committed because all nodes agree on that
(`Tracked.committed_termed`).
-/

namespace Nukv

open Base

/-! ### Functions that test what they use -/

namespace Checked

variable [Protobuf] {node : RaftNode} {index : Nat}

omit [Protobuf] in
@[simp] theorem sub_of_le {a b : Nat} (h : b ≤ a) : sub a b = some (a - b) := if_pos h

omit [Protobuf] in
theorem logOffset_eq (hlow : node.snapshotIndex < index) (hhigh : index ≤ node.lastIndex) :
    logOffset node index = some (index - node.snapshotIndex - 1) := by
  unfold logOffset
  rw [if_neg (by omega), sub_of_le hlow.le, Option.bind_eq_bind, Option.bind_some, sub_of_le (by omega)]

omit [Protobuf] in
theorem entryAt_eq {entry : RaftLogEntry} (hhigh : index ≤ node.lastIndex) (h : node.entryAt index = .ok entry) :
    entryAt node index = some entry := by
  obtain ⟨hlow, hentry⟩ := RaftNode.entryAt_eq_ok.mp h
  unfold entryAt
  rw [logOffset_eq hlow hhigh, Option.bind_eq_bind, Option.bind_some, hentry]

omit [Protobuf] in
theorem termAt_eq (node : RaftNode) (index : Nat) : termAt node index = some (node.termAt index) := by
  unfold termAt
  split_ifs with hsnapshot houtside
  · rw [hsnapshot, RaftNode.termAt_snapshot]
  · congr 1
    unfold RaftNode.termAt RaftNode.entryAt
    rw [if_neg hsnapshot]
    rcases houtside with hlow | hhigh
    · rw [if_pos hlow]
    · unfold RaftNode.lastIndex at hhigh
      rw [if_neg (by omega), List.getElem?_eq_none (by omega)]
  · obtain ⟨entry, -, hentry⟩ := RaftNode.exists_entryAt (s := node) (m := index) (by omega) (by omega)
    rw [entryAt_eq (by omega) hentry, RaftNode.termAt_of_entryAt hentry]
    rfl

omit [Protobuf] in
theorem sentEntries_eq (room : Nat) (hlow : node.snapshotIndex < index) :
    sentEntries node room index =
      some (((node.log.drop (index - node.snapshotIndex - 1)).take room).mapIdx
        fun offset entry => ⟨index + offset, entry.term, entry.command⟩) := by
  induction room generalizing index with
  | zero => simp [sentEntries]
  | succ room ih =>
    unfold sentEntries
    split_ifs with hend
    · unfold RaftNode.lastIndex at hend
      rw [List.drop_eq_nil_of_le (by omega)]
      rfl
    · obtain ⟨entry, -, hentry⟩ := RaftNode.exists_entryAt (s := node) hlow (by omega)
      obtain ⟨hlt, hget⟩ := List.getElem?_eq_some_iff.mp (RaftNode.entryAt_eq_ok.mp hentry).2
      have hdrop : node.log.drop (index - node.snapshotIndex - 1) =
          entry :: node.log.drop (index + 1 - node.snapshotIndex - 1) := by
        rw [List.drop_eq_getElem_cons hlt, hget]
        congr 2
        omega
      rw [entryAt_eq (by omega) hentry, ih (by omega), hdrop]
      simp [List.mapIdx_cons, Nat.add_assoc, Nat.add_comm 1]

omit [Protobuf] in
theorem appendRequest_eq {peer : Int} (h : node.snapshotIndex < node.nextIndexOf peer) :
    appendRequest node peer = some (NodeM.appendRequest node peer) := by
  have hlow : node.snapshotIndex < max 1 (min (node.nextIndexOf peer) (node.lastIndex + 1)) := by
    unfold RaftNode.lastIndex
    omega
  unfold appendRequest
  dsimp only
  rw [sub_of_le (by omega)]
  simp only [Option.bind_eq_bind, Option.bind_some, termAt_eq, sentEntries_eq _ hlow]
  rfl

omit [Protobuf] in
theorem commitCandidate_eq (node : RaftNode) : commitCandidate node node.lastIndex = some (NodeM.commitCandidate node) := by
  suffices hloop : ∀ index, commitCandidate node index =
      some ((List.range' (node.commitIndex + 1) (index - node.commitIndex)).reverse.find? fun index =>
        decide (node.termAt index = node.currentTerm ∧ node.peers.length / 2 < NodeM.replicated node index)) from
    hloop node.lastIndex
  intro index
  induction index with
  | zero => simp [commitCandidate]
  | succ index ih =>
    unfold commitCandidate
    split_ifs with hend
    · rw [Nat.sub_eq_zero_of_le hend]
      rfl
    · rw [show index + 1 - node.commitIndex = index - node.commitIndex + 1 by omega, List.range'_concat,
        List.reverse_append, termAt_eq, ih]
      rw [show node.commitIndex + 1 + 1 * (index - node.commitIndex) = index + 1 by omega]
      simp only [Option.bind_eq_bind, Option.bind_some, List.reverse_singleton, List.singleton_append, List.find?_cons]
      split_ifs with hfound
      · rw [decide_eq_true hfound]
        rfl
      · rw [decide_eq_false hfound]

omit [Protobuf] in
/-- The index never goes below the snapshot, where the consistency check has put it. -/
theorem mergeEntries_eq (entries : List Proto.RaftLogEntry) (hlow : node.snapshotIndex ≤ index) :
    mergeEntries node index entries = some (NodeM.mergeEntries node index entries) := by
  induction entries generalizing node index with
  | nil => rfl
  | cons incoming rest ih =>
    unfold mergeEntries NodeM.mergeEntries
    rw [termAt_eq, Option.bind_eq_bind, Option.bind_some]
    split_ifs with hindex hpresent hsame hcommitted
    · rfl
    · exact ih (Nat.le_succ_of_le hlow)
    · rfl
    · rw [logOffset_eq (Nat.lt_succ_of_le hlow) hpresent, Option.bind_some,
        show index.succ - node.snapshotIndex - 1 = index - node.snapshotIndex by omega]
      exact ih (Nat.le_succ_of_le hlow)
    · exact ih (Nat.le_succ_of_le hlow)

omit [Protobuf] in
theorem retainedSuffix_eq (h : node.snapshotIndex < node.incomingSnapshotIndex) :
    retainedSuffix node = some (NodeM.retainedSuffix node) := by
  unfold retainedSuffix NodeM.retainedSuffix
  by_cases hpresent : node.incomingSnapshotIndex ≤ node.lastIndex
  · rw [if_pos hpresent, termAt_eq, Option.bind_eq_bind, Option.bind_some]
    by_cases hterm : node.termAt node.incomingSnapshotIndex = node.incomingSnapshotTerm
    · rw [if_pos hterm, if_pos (And.intro hpresent hterm)]
      by_cases hlast : node.incomingSnapshotIndex = node.lastIndex
      · rw [if_pos hlast, show node.incomingSnapshotIndex - node.snapshotIndex = node.log.length by
          rw [hlast, RaftNode.lastIndex, Nat.add_sub_cancel_left]]
        rfl
      · have hlength : node.incomingSnapshotIndex - node.snapshotIndex ≤ node.log.length := by
          unfold RaftNode.lastIndex at hpresent
          omega
        rw [if_neg hlast, logOffset_eq (by omega) (by omega), Option.bind_some,
          show node.incomingSnapshotIndex + 1 - node.snapshotIndex - 1 =
            node.incomingSnapshotIndex - node.snapshotIndex by omega, if_pos hlength]
        rfl
    · rw [if_neg hterm, if_neg fun hboth => hterm hboth.2]
      rfl
  · rw [if_neg hpresent, if_neg fun hboth => hpresent hboth.1]
    rfl

omit [Protobuf] in
theorem snapshotDue_eq (node : RaftNode) : snapshotDue node =
    some !decide (node.snapshotInProgress = true ∨ node.commitIndex ≤ node.snapshotIndex ∨
      node.commitIndex - node.snapshotIndex < kSnapshotThreshold) := by
  unfold snapshotDue
  split_ifs with hnone
  · rw [decide_eq_true (hnone.imp_right .inl)]
    rfl
  · rw [sub_of_le (by omega), Option.bind_eq_bind, Option.bind_some]
    refine congrArg some (congrArg not (decide_eq_decide.mpr ⟨fun hfew => .inr (.inr hfew), ?_⟩))
    rintro (hbusy | hle | hfew)
    · exact absurd (.inl hbusy) hnone
    · exact absurd (.inr hle) hnone
    · exact hfew

omit [Protobuf] in
theorem compactedLog_eq (hlow : node.snapshotIndex ≤ node.commitIndex) (hhigh : node.commitIndex ≤ node.lastIndex) :
    compactedLog node = some (node.log.drop (node.commitIndex - node.snapshotIndex)) := by
  unfold RaftNode.lastIndex at hhigh
  unfold compactedLog
  rw [sub_of_le hlow, Option.bind_eq_bind, Option.bind_some, if_neg (by omega)]
  rfl

end Checked

/-- Where a function computes with indexes, after the tests that it makes, no computation fails, and the results are those
of the model. -/
structure RaftNode.InRange (node : RaftNode) : Prop where
  termAt : ∀ index, Checked.termAt node index = some (node.termAt index)
  /-- Otherwise `SendAppend` calls `SendSnapshot`. -/
  appendRequest : ∀ peer, node.snapshotIndex < node.nextIndexOf peer →
    Checked.appendRequest node peer = some (NodeM.appendRequest node peer)
  commitCandidate : Checked.commitCandidate node node.lastIndex = some (NodeM.commitCandidate node)
  /-- Otherwise `HandleAppendEntries` leaves the log alone. -/
  mergeEntries : ∀ request, NodeM.prevMatches node request = true →
    Checked.mergeEntries node request.prevLogIndex request.entries =
      some (NodeM.mergeEntries node request.prevLogIndex request.entries)
  /-- Otherwise `HandleAppendEntriesResponse` leaves `next_index_` alone. -/
  backOff : ∀ peer, node.snapshotIndex + 1 < node.nextIndexOf peer →
    Checked.backOff node peer = some (node.nextIndexOf peer - 1)
  /-- Otherwise `HandleInstallSnapshot` has nothing to install. -/
  retainedSuffix : node.snapshotIndex < node.incomingSnapshotIndex →
    Checked.retainedSuffix node = some (NodeM.retainedSuffix node)
  snapshotDue : Checked.snapshotDue node =
    some !decide (node.snapshotInProgress = true ∨ node.commitIndex ≤ node.snapshotIndex ∨
      node.commitIndex - node.snapshotIndex < kSnapshotThreshold)
  /-- What `CreateSnapshotIfNeeded` knows is the first hypothesis; about the second it throws. -/
  compactedLog : node.snapshotIndex < node.commitIndex → node.commitIndex ≤ node.lastIndex →
    Checked.compactedLog node = some (node.log.drop (node.commitIndex - node.snapshotIndex))

theorem RaftNode.inRange (node : RaftNode) : node.InRange where
  termAt := Checked.termAt_eq node
  appendRequest := fun _ => Checked.appendRequest_eq
  commitCandidate := Checked.commitCandidate_eq node
  mergeEntries := fun request hmatches =>
    Checked.mergeEntries_eq request.entries (NodeM.prevMatches_iff.mp hmatches).1
  backOff := fun _ hlow => Checked.sub_of_le (Nat.one_le_of_lt hlow)
  retainedSuffix := Checked.retainedSuffix_eq
  snapshotDue := Checked.snapshotDue_eq node
  compactedLog := fun hlow => Checked.compactedLog_eq hlow.le

/-! ### The indexes of a leader -/

/-- Every `next_index_` that a node has set is positive. -/
def RaftNode.Advancing (node : RaftNode) : Prop := ∀ peer next, node.nextIndex.lookup peer = some next → 1 ≤ next

section Runs

variable [Protobuf] {config : Config} {timely : Prop} {A : Shadow} {w : World} {n : Int} {l l' : Local}
  {action : LoopAction} {event : Option Event}

/-- One step. A leader has an index for whomever it can send to, so it never inserts a zero. -/
theorem RaftNode.Advancing.step (h : l.node.Advancing) (hstep : Micro action l event l')
    (hknown : l.node.role = .leader → ∀ peer, l.node.connectionForPeer peer ≠ none →
      l.node.nextIndex.lookup peer ≠ none) : l'.node.Advancing := by
  have hinsert : ∀ (p : Int) (value : Nat), 1 ≤ value → ∀ peer next,
      (l.node.nextIndex.insert p value).lookup peer = some next → 1 ≤ next := by
    intro p value hvalue peer next hnext
    by_cases hpeer : peer = p
    · subst hpeer
      rw [AList.lookup_insert] at hnext
      exact Option.some.inj hnext ▸ hvalue
    · rw [AList.lookup_insert_ne hpeer] at hnext
      exact h peer next hnext
  have hreset : ∀ peer next, (l.node.otherPeers.foldl (fun map peer => map.insert peer (l.node.lastIndex + 1))
      l.node.nextIndex).lookup peer = some next → 1 ≤ next := by
    intro peer next hnext
    rw [lookup_foldl_insert] at hnext
    split at hnext
    · exact Option.some.inj hnext ▸ Nat.le_add_left 1 _
    · exact h peer next hnext
  rcases hstep with hstep | hstep | hstep | hstep | hstep | hstep | hstep | hstep | hstep
  case role =>
    cases hstep with
    | elect => exact hreset
    | _ => exact h
  case peer =>
    cases hstep with
    | touch peer hnone _ hconn hrole => exact absurd hnone (hknown hrole peer hconn)
    | ackAppend => exact hinsert _ _ (Nat.le_add_left 1 _)
    | backOff c rpc response _ _ _ _ _ _ _ _ hlow =>
      exact hinsert _ _ (Nat.le_sub_one_of_lt (Nat.lt_of_le_of_lt (Nat.le_add_left 1 _) hlow))
    | ackSnapshot => exact hinsert _ _ (Nat.le_add_left 1 _)
    | setIndexes => exact hreset
    | _ => exact h
  all_goals cases hstep <;> exact h

theorem Tracked.replicates (h : Tracked config timely w A) (hview : w.views n = .active l) (hrole : l.node.role = .leader)
    {peer : Int} (hpeer : peer ∈ config.peers) (hne : peer ≠ n) : 1 ≤ l.node.nextIndexOf peer :=
  ((h.related.active n l hview).replicating hrole peer hpeer hne).low

theorem Tracked.advancing (h : Tracked config timely w A) (hview : w.views n = .active l) : l.node.Advancing := by
  refine h.each (P := fun _ _ _ l => l.node.Advancing) ?_ ?_ ?_ ?_ n l hview
  · intro w w' A n store state _ _ _ _ peer next hnext
    exact nomatch hnext
  · exact fun _ _ _ _ _ _ _ _ _ _ _ ih => ih
  · intro w w' A A' n action l l' event htracked _ hview _ _ hmicro _ _ ih
    refine ih.step hmicro fun hrole peer hconn => ?_
    obtain ⟨c, hc⟩ := Option.ne_none_iff_exists'.mp hconn
    have hactive := htracked.wired.active n l hview
    obtain ⟨hmem, rfl⟩ := hactive.wired peer c hc
    obtain ⟨hpeer, hne⟩ := htracked.wired.otherEnd (hactive.opened c hmem).1
    exact lookup_ne_none_of_lt (htracked.replicates hview hrole hpeer hne)
  · exact fun _ _ _ _ _ _ _ _ _ _ _ _ _ _ ih => ih

end Runs

namespace Cluster

variable [Protobuf] {config : Config} {cluster : Cluster}

/-- While no committed command is refused, the snapshot of a running node does not go beyond what is applied nor the commit
index beyond the log, the next index is positive for every peer it is set for, and on a leader it is set for all others.
`ApplyCommitted` and `CreateSnapshotIfNeeded` never throw because of an index; the other functions, on whatever node, are
in range by the tests they make. -/
theorem indexes_in_range (h : Reachable config cluster) {n : Int}
    (happlicable : ∀ index, (n, .refuseApply index) ∉ cluster.history) :
    (∀ node, cluster.nodes n = .running node →
      node.snapshotIndex ≤ node.lastApplied ∧ node.commitIndex ≤ node.lastIndex ∧
      (∀ peer next, node.nextIndex.lookup peer = some next → 1 ≤ next) ∧
      (node.role = .leader → ∀ peer ∈ node.otherPeers, 1 ≤ node.nextIndexOf peer)) ∧
    (∀ x, (n, .refuseIndex x) ∉ cluster.history) ∧
    ∀ node : RaftNode, node.InRange := by
  obtain ⟨A, hA⟩ := h.reach.tracked
  refine ⟨fun node hnode => ?_, fun x hmem => hA.labels n happlicable _ hmem, RaftNode.inRange⟩
  have hview : cluster.world.views n = .active (.rest node) := congrArg Status.view hnode
  refine ⟨(hA.labelled happlicable hview).low, (hA.committed_termed hview).1, hA.advancing hview, fun hrole peer hpeer => ?_⟩
  have hactive := hA.wired.active n _ hview
  rw [RaftNode.mem_otherPeers] at hpeer
  exact hA.replicates hview hrole (hactive.peers ▸ hpeer.1) (hactive.serverId ▸ hpeer.2)

omit [Protobuf] in
/-- Node 1 has compacted its log and serves a follower from the snapshot. -/
theorem indexes_in_range_catchUp : ∃ cluster node, @Reachable Wire.protobuf trio cluster ∧
    (∀ index, (1, .refuseApply index) ∉ cluster.history) ∧ cluster.nodes 1 = .running node ∧ node.role = .leader ∧
    node.snapshotIndex = 8 ∧ 8 ≤ node.lastApplied ∧ 1 ≤ node.nextIndexOf 3 ∧
    ∀ x, (1, .refuseIndex x) ∉ cluster.history := by
  obtain ⟨cluster, hrun, htest⟩ := @run_of_play Wire.protobuf trio (fun _ _ => True) _ catchUp
    (fun cluster => !cluster.occurs 1 (Event.refusesApply fun _ => true) && (cluster.nodes 1).runs fun node =>
      decide (node.role = .leader) && node.snapshotIndex == 8 && decide (3 ∈ node.otherPeers)) (by decide +kernel)
  simp only [Bool.and_eq_true, Bool.not_eq_true'] at htest
  obtain ⟨hrefused, htest⟩ := htest
  have happlicable : ∀ index, (1, .refuseApply index) ∉ cluster.history := fun _ =>
    not_mem_of_not_occurs hrefused rfl
  obtain ⟨node, hnode, htest⟩ := Status.exists_of_runs htest
  simp only [Bool.and_eq_true, decide_eq_true_eq, beq_iff_eq] at htest
  obtain ⟨⟨hrole, hsnapshot⟩, hpeer⟩ := htest
  obtain ⟨hrunning, hindex, -⟩ := @indexes_in_range Wire.protobuf trio cluster hrun 1 happlicable
  obtain ⟨hlow, -, -, hnext⟩ := hrunning node hnode
  exact ⟨cluster, node, hrun, happlicable, hnode, hrole, hsnapshot, hsnapshot ▸ hlow, hnext hrole 3 hpeer, hindex⟩

end Cluster

end Nukv
