import Nukv.Model.Wire
import Nukv.Proof.Lineage

/-!
# Consensus

What the nodes of a cluster agree on, in every run: who leads a term, what is committed, what is applied and
where two logs are the same. The statements are about the events of the history and the nodes that run; each is
read off the shadow that follows the run.
-/

namespace Nukv

open Cluster

/-! ### A run -/

/-- Three peers. -/
def trio : Config := ⟨[1, 2, 3], by decide, by decide, by decide⟩

/-- Node 1 is elected with the vote of node 2, replicates a command to it and tells it that the command is
committed; then node 2 is elected with the vote of node 3. -/
def handover : List Move :=
  [.act (.run 1 .start), .act (.run 2 .start), .act (.run 1 (.connect 2 0)), .act (.run 2 (.accept ⟨1, 2, 0⟩)),
    .act (.run 1 .electionTimeout), .deliver 1, .deliver 2, .deliver 3, .deliver 4,
    .act (.run 1 (.submit ⟨0, ⟨.put, 1, 1, [107], [118]⟩⟩)), .deliver 5, .deliver 6,
    .act (.run 1 .heartbeatTimeout), .deliver 7,
    .act (.run 3 .start), .act (.run 2 (.connect 3 0)), .act (.run 3 (.accept ⟨2, 3, 0⟩)),
    .act (.run 2 .electionTimeout), .deliver 11, .deliver 12]

/-- What happens in this run, for a test. -/
def handedOver (cluster : Cluster) : Bool :=
  cluster.occurs 1 (fun | .becomeLeader s => s.currentTerm == 1 | _ => false) &&
  cluster.occurs 2 (fun | .becomeLeader s => s.currentTerm == 2 | _ => false) &&
  cluster.occurs 1 (fun | .advanceCommit s => s.currentTerm == 1 && s.commitIndex == 1 | _ => false) &&
  cluster.occurs 1 (fun | .callApply index _ => index == 1 | _ => false) &&
  cluster.occurs 2 (fun | .callApply index _ => index == 1 | _ => false) &&
  match cluster.nodes 1, cluster.nodes 2 with
  | .running a, .running b =>
    a.snapshotIndex == 0 && b.snapshotIndex == 0 && a.lastIndex == 1 && b.lastIndex == 1 && a.termAt 1 == b.termAt 1
  | _, _ => false

theorem handover_run : ∃ cluster, @Reachable Wire.protobuf trio cluster ∧
    (∃ s, (1, .becomeLeader s) ∈ cluster.history ∧ s.currentTerm = 1) ∧
    (∃ s, (2, .becomeLeader s) ∈ cluster.history ∧ s.currentTerm = 2) ∧
    (∃ s, (1, .advanceCommit s) ∈ cluster.history ∧ s.currentTerm = 1 ∧ s.commitIndex = 1) ∧
    (∃ command, (1, .callApply 1 command) ∈ cluster.history) ∧
    (∃ command, (2, .callApply 1 command) ∈ cluster.history) ∧
    ∃ a b, cluster.nodes 1 = .running a ∧ cluster.nodes 2 = .running b ∧ a.snapshotIndex = 0 ∧
      b.snapshotIndex = 0 ∧ a.lastIndex = 1 ∧ b.lastIndex = 1 ∧ a.termAt 1 = b.termAt 1 := by
  obtain ⟨cluster, hrun, htest⟩ :=
    @run_of_play Wire.protobuf trio (fun _ _ => True) _ handover handedOver (by decide +kernel)
  simp only [handedOver, Bool.and_eq_true] at htest
  obtain ⟨⟨⟨⟨⟨h₁, h₂⟩, h₃⟩, h₄⟩, h₅⟩, h₆⟩ := htest
  refine ⟨cluster, hrun, ?_, ?_, ?_, ?_, ?_, ?_⟩
  · obtain ⟨event, hmem, hevent⟩ := exists_of_occurs h₁
    cases event with
    | becomeLeader s => exact ⟨s, hmem, by simpa using hevent⟩
    | _ => cases hevent
  · obtain ⟨event, hmem, hevent⟩ := exists_of_occurs h₂
    cases event with
    | becomeLeader s => exact ⟨s, hmem, by simpa using hevent⟩
    | _ => cases hevent
  · obtain ⟨event, hmem, hevent⟩ := exists_of_occurs h₃
    cases event with
    | advanceCommit s => exact ⟨s, hmem, by simpa using hevent⟩
    | _ => cases hevent
  · obtain ⟨event, hmem, hevent⟩ := exists_of_occurs h₄
    cases event with
    | callApply index command =>
      obtain rfl : index = 1 := by simpa using hevent
      exact ⟨command, hmem⟩
    | _ => cases hevent
  · obtain ⟨event, hmem, hevent⟩ := exists_of_occurs h₅
    cases event with
    | callApply index command =>
      obtain rfl : index = 1 := by simpa using hevent
      exact ⟨command, hmem⟩
    | _ => cases hevent
  · split at h₆
    next a b ha hb => exact ⟨a, b, ha, hb, by simpa [and_assoc] using h₆⟩
    next => cases h₆

section Runs

variable [Protobuf] {config : Config} {cluster : Cluster}

/-- The log of a running node, read from the shadow. -/
theorem Tracked.shows {timely : Prop} {A : Shadow} (h : Tracked config timely cluster.world A) {n : Int}
    {node : RaftNode} (hnode : cluster.nodes n = .running node) : node.Shows (A.log n) := by
  have hview : cluster.world.views n = .active (.rest node) := congrArg Status.view hnode
  exact Memory.shows (h.related.active n _ hview).memory

/-- Election safety: at most one node has executed `BecomeLeader` in a term. -/
theorem electionSafety (h : Reachable config cluster) {m n : Int} {s s' : RaftNode}
    (hm : (m, .becomeLeader s) ∈ cluster.history) (hn : (n, .becomeLeader s') ∈ cluster.history)
    (hterm : s.currentTerm = s'.currentTerm) : m = n := by
  obtain ⟨A, hA⟩ := h.reach.tracked
  have hleads := (hA.events m _ hm).1
  have hleads' := (hA.events n _ hn).1
  rw [hterm] at hleads
  exact hA.inv.leads_unique hleads hleads'

omit [Protobuf] in
theorem electionSafety_handover : ∃ cluster s, @Reachable Wire.protobuf trio cluster ∧
    (1, .becomeLeader s) ∈ cluster.history ∧ s.currentTerm = 1 ∧
    ∀ n s', (n, Event.becomeLeader s') ∈ cluster.history → s'.currentTerm = 1 → 1 = n := by
  obtain ⟨cluster, hrun, ⟨s, hmem, hterm⟩, -⟩ := handover_run
  exact ⟨cluster, s, hrun, hmem, hterm, fun n s' hmem' hterm' =>
    @electionSafety Wire.protobuf trio cluster hrun 1 n s s' hmem hmem' (hterm.trans hterm'.symm)⟩

/-- State machine safety: `ApplyAtomically` is called for an index with one command, on all nodes and after
every restart. -/
theorem stateMachineSafety (h : Reachable config cluster) {m n : Int} {index : Nat} {command command' : Bytes}
    (hm : (m, .callApply index command) ∈ cluster.history)
    (hn : (n, .callApply index command') ∈ cluster.history) : command = command' := by
  obtain ⟨A, hA⟩ := h.reach.tracked
  obtain ⟨t, L, entry, hagreed, hpos, hentry, rfl⟩ := hA.events m _ hm
  obtain ⟨t', L', entry', hagreed', -, hentry', rfl⟩ := hA.events n _ hn
  have htake := hagreed.unique hA.inv hagreed' le_rfl
  rw [Raft.getElem?_eq_of_take_eq (Nat.sub_lt hpos Nat.one_pos) htake, hentry'] at hentry
  rw [Option.some.inj hentry]

omit [Protobuf] in
theorem stateMachineSafety_handover : ∃ cluster command, @Reachable Wire.protobuf trio cluster ∧
    (1, .callApply 1 command) ∈ cluster.history ∧ (2, .callApply 1 command) ∈ cluster.history := by
  obtain ⟨cluster, hrun, -, -, -, ⟨command, hmem⟩, ⟨command', hmem'⟩, -⟩ := handover_run
  have hsame := @stateMachineSafety Wire.protobuf trio cluster hrun 1 2 1 command command' hmem hmem'
  exact ⟨cluster, command, hrun, hmem, hsame ▸ hmem'⟩

/-- Log matching: where two nodes have the same term at an index, their entries up to it are the same. -/
theorem logMatching (h : Reachable config cluster) {m n : Int} {a b : RaftNode}
    (ha : cluster.nodes m = .running a) (hb : cluster.nodes n = .running b) {j : Nat}
    (hlow : max a.snapshotIndex b.snapshotIndex ≤ j) (hhigh : j ≤ min a.lastIndex b.lastIndex)
    (hterm : a.termAt j = b.termAt j) :
    ∀ i, max a.snapshotIndex b.snapshotIndex < i → i ≤ j →
      ∃ entry, a.entryAt i = .ok entry ∧ b.entryAt i = .ok entry := by
  obtain ⟨A, hA⟩ := h.reach.tracked
  have hshows := hA.shows ha
  have hshows' := hA.shows hb
  obtain ⟨hla, hlb⟩ := max_le_iff.mp hlow
  obtain ⟨hha, hhb⟩ := le_min_iff.mp hhigh
  have htake : (A.log m).take j = (A.log n).take j := by
    rw [hshows.termAt hla hha, hshows'.termAt hlb hhb] at hterm
    exact (hA.inv.sourced_log m).take_eq_of_lastTerm (hA.inv.sourced_log n) (hshows.lastIndex ▸ hha)
      (hshows'.lastIndex ▸ hhb) hterm
  rintro (_ | i) hi hij
  · exact absurd hi (Nat.not_lt_zero _)
  · obtain ⟨hia, hib⟩ := max_lt_iff.mp hi
    have hlength : i < (A.log m).length := hshows.lastIndex ▸ hij.trans hha
    have hentry : (A.log m)[i]? = some (A.log m)[i] := List.getElem?_eq_getElem hlength
    refine ⟨_, hshows.entryAt.mpr ⟨Nat.le_of_lt_succ hia, hentry⟩, hshows'.entryAt.mpr ⟨Nat.le_of_lt_succ hib, ?_⟩⟩
    rw [← Raft.getElem?_eq_of_take_eq hij htake, hentry]

omit [Protobuf] in
theorem logMatching_handover : ∃ cluster a b entry, @Reachable Wire.protobuf trio cluster ∧
    cluster.nodes 1 = .running a ∧ cluster.nodes 2 = .running b ∧ a.entryAt 1 = .ok entry ∧
    b.entryAt 1 = .ok entry := by
  obtain ⟨cluster, hrun, -, -, -, -, -, a, b, ha, hb, ha₀, hb₀, ha₁, hb₁, hterm⟩ := handover_run
  obtain ⟨entry, hentry⟩ := @logMatching Wire.protobuf trio cluster hrun 1 2 a b ha hb 1
    (by rw [ha₀, hb₀]; decide) (by rw [ha₁, hb₁]; decide) hterm 1 (by rw [ha₀, hb₀]; decide) le_rfl
  exact ⟨cluster, a, b, entry, hrun, ha, hb, hentry⟩

/-- What a leader has committed, a leader of a later term has stood for election with: `L` is the log that the
appends of the run made up to the committed entry. -/
theorem leaderCompleteness (h : Reachable config cluster) {m n : Int} {s s' : RaftNode}
    (hm : (m, .advanceCommit s) ∈ cluster.history) (hn : (n, .becomeLeader s') ∈ cluster.history)
    (hterm : s.currentTerm < s'.currentTerm) :
    ∃ L, (∀ L', Lineage cluster.history s.commitIndex s.currentTerm L' ↔ L' = L) ∧
      (∀ i entry, i < s.commitIndex → s.entryAt (i + 1) = .ok entry → L[i]? = some entry) ∧
      ∀ i < s.commitIndex,
        (∃ entry, s'.entryAt (i + 1) = .ok entry ∧ L[i]? = some entry) ∨
        i + 1 ≤ s'.snapshotIndex ∧ ∃ L', Lineage cluster.history s'.snapshotIndex s'.snapshotTerm L' ∧
          L'.take (i + 1) = L.take (i + 1) := by
  obtain ⟨A, hA⟩ := h.reach.tracked
  obtain ⟨-, L, hL, hshows, hagreed, hown⟩ := hA.events m _ hm
  obtain ⟨hleads', L', hstood, hshows', -⟩ := hA.events n _ hn
  have hsourced : Raft.Sourced config.setting A L := (hA.inv.sourced_tlog s.currentTerm).initial hL
  have hsourced' := hA.inv.sourced_stood _ _ _ hstood
  have htake : L'.take s.commitIndex = L.take s.commitIndex := hagreed.take_stood hA.inv hstood hleads' hterm
  have hlineage := hA.lineage_take hsourced hagreed.le_length
  rw [hown] at hlineage
  refine ⟨L.take s.commitIndex, fun L'' => ⟨fun h'' => ?_, fun h'' => h'' ▸ hlineage⟩, ?_, fun i hi => ?_⟩
  · rw [(hA.lineage_eq h'').1, (hA.lineage_eq hlineage).1]
  · intro i entry hi hentry
    rw [List.getElem?_take_of_lt hi]
    exact (hshows.entryAt.mp hentry).2
  · have hlength : i < L'.length := by
      have hlen := congrArg List.length htake
      have hle := hagreed.le_length
      simp only [List.length_take] at hlen
      omega
    rcases Nat.lt_or_ge i s'.snapshotIndex with hlt | hge
    · refine .inr ⟨hlt, _, hshows'.snapshotTerm ▸ hA.lineage_take hsourced' hshows'.bound, ?_⟩
      rw [List.take_take, List.take_take, Nat.min_eq_left hlt, Nat.min_eq_left hi]
      exact Raft.take_eq_mono hi htake
    · refine .inl ⟨L'[i], hshows'.entryAt.mpr ⟨hge, List.getElem?_eq_getElem hlength⟩, ?_⟩
      rw [← htake, List.getElem?_take_of_lt hi]
      exact List.getElem?_eq_getElem hlength

omit [Protobuf] in
theorem leaderCompleteness_handover : ∃ cluster s L, @Reachable Wire.protobuf trio cluster ∧
    (2, .becomeLeader s) ∈ cluster.history ∧ Lineage cluster.history 1 1 L ∧
    ((∃ entry, s.entryAt 1 = .ok entry ∧ L[0]? = some entry) ∨
      1 ≤ s.snapshotIndex ∧ ∃ L', Lineage cluster.history s.snapshotIndex s.snapshotTerm L' ∧
        L'.take 1 = L.take 1) := by
  obtain ⟨cluster, hrun, -, ⟨s', hmem', hterm'⟩, ⟨s, hmem, hterm, hcommit⟩, -⟩ := handover_run
  obtain ⟨L, hL, -, hkept⟩ := @leaderCompleteness Wire.protobuf trio cluster hrun 1 2 s s' hmem hmem'
    (by rw [hterm, hterm']; decide)
  rw [hcommit] at hL hkept
  rw [hterm] at hL
  exact ⟨cluster, s', L, hrun, hmem', (hL L).mpr rfl, hkept 0 Nat.one_pos⟩

end Runs

end Nukv
