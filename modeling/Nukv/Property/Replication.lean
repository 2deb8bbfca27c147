import Nukv.Proof.Matching
import Nukv.Property.AppendEntries
import Nukv.Property.Consensus

/-!
# Replication

What a follower commits because of a leader's request the leader has, and what a leader believes its followers have
they have. The second is true as long as a leader does not replace its snapshot while the last chunk of the old one
is on its way.
-/

namespace Nukv

open Cluster

section Runs

variable [Protobuf] {config : Config} {cluster : Cluster}

/-- In every run terms are counted from one, in the logs and in the requests under way. -/
theorem termed_of_reachable (h : Reachable config cluster) {n : Int} {node : RaftNode}
    (hnode : cluster.nodes n = .running node) {packet : Packet} (hpacket : packet ∈ packets cluster.history)
    {request : Proto.AppendEntriesRequest} (hrequest : packet.rpc.payload = .appendEntries request) :
    Termed node request := by
  obtain ⟨A, hA⟩ := h.reach.tracked
  have hpos : ∀ L, Raft.Sourced config.setting A L → ∀ entry ∈ L, entry.term ≠ 0 := by
    intro L hL entry hmem
    obtain ⟨i, hi⟩ := List.mem_iff_getElem?.mp hmem
    exact (hA.inv.sourced_pos hL hi).ne'
  constructor
  · intro entry hmem
    rw [(hA.shows hnode).log] at hmem
    exact hpos _ (hA.inv.sourced_log n) entry (List.mem_of_mem_drop hmem)
  · intro entry hmem
    have hmeans := (hA.related.frames packet hpacket).means
    rw [hrequest] at hmeans
    have hentries : Carries config A _ _ request := hmeans
    have hstored : storedEntry entry ∈ request.entries.map storedEntry := List.mem_map_of_mem hmem
    rw [hentries.entries] at hstored
    exact hpos _ (hA.inv.sourced_tlog _) _ (List.mem_of_mem_take (List.mem_of_mem_drop hstored))

/-! ### What a follower commits -/

/-- The match index of a follower in the leader's term: everything up to it is in the follower's snapshot, or in its
log as the leader has it, in the log or under its snapshot. -/
theorem matchIndex_sound (h : Reachable config cluster) (hcurrent : SnapshotsCurrent cluster.history) {l p : Int}
    {leader follower : RaftNode} (hl : cluster.nodes l = .running leader) (hp : cluster.nodes p = .running follower)
    (hrole : leader.role = .leader) (hterm : follower.currentTerm = leader.currentTerm) {m : Nat}
    (hm : leader.matchIndex.lookup p = some m) :
    m ≤ follower.lastIndex ∧ ∀ i, i < m → i + 1 ≤ follower.snapshotIndex ∨
      ∃ entry, follower.entryAt (i + 1) = .ok entry ∧ (leader.entryAt (i + 1) = .ok entry ∨
        i + 1 ≤ leader.snapshotIndex ∧
          ∃ L, Lineage cluster.history leader.snapshotIndex leader.snapshotTerm L ∧ L[i]? = some entry) := by
  obtain ⟨A, hA⟩ := h.reach.tracked
  have hview : cluster.world.views l = .active (.rest leader) := congrArg Status.view hl
  have hview' : cluster.world.views p = .active (.rest follower) := congrArg Status.view hp
  have hshows := hA.shows hl
  have hshows' := hA.shows hp
  have htlog : A.tlog leader.currentTerm = A.log l := ((hA.related.active l _ hview).roles.leader hrole).tlog
  have htermp : A.term p = leader.currentTerm :=
    (hA.related.active p _ hview').memory.depicts.term.trans hterm
  rcases hA.matched hcurrent hview hrole p m hm with rfl | hacked
  · exact ⟨Nat.zero_le _, fun i hi => absurd hi (Nat.not_lt_zero i)⟩
  change A.acked p leader.currentTerm m at hacked
  have hlength : m ≤ (A.log l).length := htlog ▸ hA.inv.acked_length _ _ _ hacked
  have htake : (A.log p).take m = (A.log l).take m := by
    have hsame := hA.steady p m (htermp.symm ▸ hacked)
    rwa [htermp, htlog] at hsame
  have hlength' : m ≤ (A.log p).length := Raft.length_le_of_take_eq htake.symm hlength
  refine ⟨hshows'.lastIndex ▸ hlength', fun i hi => ?_⟩
  have hentry : (A.log p)[i]? = some (A.log p)[i] := List.getElem?_eq_getElem (hi.trans_le hlength')
  have hentry' : (A.log l)[i]? = some (A.log p)[i] := by
    rw [← Raft.getElem?_eq_of_take_eq hi htake, hentry]
  rcases Nat.lt_or_ge i follower.snapshotIndex with hlow | hhigh
  · exact .inl hlow
  refine .inr ⟨_, hshows'.entryAt.mpr ⟨hhigh, hentry⟩, ?_⟩
  rcases Nat.lt_or_ge i leader.snapshotIndex with hlow' | hhigh'
  · have hown := hA.lineage_take (hA.inv.sourced_log l) hshows.bound
    rw [← hshows.snapshotTerm] at hown
    exact .inr ⟨hlow', _, hown, by rw [List.getElem?_take_of_lt hlow', hentry']⟩
  · exact .inl (hshows.entryAt.mpr ⟨hhigh', hentry'⟩)

/-- The same key is written eight times. -/
def eightPuts : List Move :=
  (List.range 8).map fun result => .act (.run 1 (.submit ⟨result, ⟨.put, 0, 0, [107], [118]⟩⟩))

/-- Eight commands, committed by nodes 1 and 2 and compacted by node 1; then node 3 comes up and gets the snapshot in
one chunk. -/
def catchUp : List Move :=
  [.act (.run 1 .start), .act (.run 2 .start), .act (.run 1 (.connect 2 0)), .act (.run 2 (.accept ⟨1, 2, 0⟩)),
    .act (.run 1 .electionTimeout), .deliver 1, .deliver 2, .deliver 3, .deliver 4] ++ eightPuts ++
  [.deliver 5, .deliver 6, .deliver 7, .deliver 8,
    .act (.run 3 .start), .act (.run 1 (.connect 3 0)), .act (.run 3 (.accept ⟨1, 3, 0⟩)), .deliver 9]

omit [Protobuf] in
/-- The answer of node 3 arrives at once. -/
theorem matchIndex_sound_catchUp : ∃ cluster leader follower, @Reachable Wire.protobuf trio cluster ∧
    SnapshotsCurrent cluster.history ∧ cluster.nodes 1 = .running leader ∧ cluster.nodes 3 = .running follower ∧
    leader.role = .leader ∧ leader.matchIndex.lookup 3 = some 8 ∧ 8 ≤ follower.lastIndex := by
  obtain ⟨cluster, hrun, htest⟩ := @run_of_play Wire.protobuf trio (fun _ _ => True) _ (catchUp ++ [.deliver 11])
    (fun cluster => decide (SnapshotsCurrent cluster.history) && (cluster.nodes 1).runs fun a =>
      (cluster.nodes 3).runs fun b => decide (a.role = .leader) && b.currentTerm == a.currentTerm &&
        a.matchIndex.lookup 3 == some 8) (by decide +kernel)
  simp only [Bool.and_eq_true, decide_eq_true_eq] at htest
  obtain ⟨hcurrent, htest⟩ := htest
  obtain ⟨a, ha, htest⟩ := Status.exists_of_runs htest
  obtain ⟨b, hb, htest⟩ := Status.exists_of_runs htest
  simp only [Bool.and_eq_true, decide_eq_true_eq, beq_iff_eq] at htest
  obtain ⟨⟨hrole, hterm⟩, hm⟩ := htest
  exact ⟨cluster, a, b, hrun, hcurrent, ha, hb, hrole, hm,
    (@matchIndex_sound Wire.protobuf trio cluster hrun hcurrent 1 3 a b ha hb hrole hterm 8 hm).1⟩

omit [Protobuf] in
/-- The answer of node 3 arrives after the leader has committed eight more commands and replaced its snapshot by one
of the same size: it takes node 3 to have all sixteen. -/
theorem matchIndex_overtaken : ∃ cluster leader follower, @Reachable Wire.protobuf trio cluster ∧
    cluster.nodes 1 = .running leader ∧ cluster.nodes 3 = .running follower ∧ leader.role = .leader ∧
    follower.currentTerm = leader.currentTerm ∧ leader.matchIndex.lookup 3 = some 16 ∧ follower.snapshotIndex = 8 ∧
    follower.lastIndex = 8 := by
  obtain ⟨cluster, hrun, htest⟩ := @run_of_play Wire.protobuf trio (fun _ _ => True) _
    (catchUp ++ eightPuts ++ [.deliver 12, .deliver 13, .deliver 14, .deliver 15, .deliver 11])
    (fun cluster => (cluster.nodes 1).runs fun a => (cluster.nodes 3).runs fun b =>
      decide (a.role = .leader) && b.currentTerm == a.currentTerm && a.matchIndex.lookup 3 == some 16 &&
        b.snapshotIndex == 8 && b.lastIndex == 8) (by decide +kernel)
  obtain ⟨a, ha, htest⟩ := Status.exists_of_runs htest
  obtain ⟨b, hb, htest⟩ := Status.exists_of_runs htest
  simp only [Bool.and_eq_true, decide_eq_true_eq, beq_iff_eq] at htest
  obtain ⟨⟨⟨⟨hrole, hterm⟩, hm⟩, hsnapshot⟩, hlast⟩ := htest
  exact ⟨cluster, a, b, hrun, ha, hb, hrole, hterm, hm, hsnapshot, hlast⟩

end Runs

end Nukv
