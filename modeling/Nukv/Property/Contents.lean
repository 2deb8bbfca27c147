import Nukv.Property.Linearizable

/-!
# What stores and snapshots contain

A snapshot is decided by its index: it is the serialized state that the committed log up to the index leaves, in the
memory and in the store of every process and in every frame that carries a part of it. So parts that come from several
leaders, or from before and after a restart, belong to one snapshot.

The records of requests need less: also when commands are refused, or applied a second time after a restart, every
record is one of a committed command, and every request that a process counts as applied has its record.
-/

namespace Nukv

open Cluster

/-! ### Snapshots -/

section Snapshots

variable [Protobuf] {config : Config} {timely : Prop} {A : Shadow} {cluster : Cluster} {n : Int}

/-- The bytes are the state that the committed log up to the index leaves; its last entry has the term. -/
def SnapshotOf (history : List (Int × Event)) (index term : Nat) (data : Bytes) : Prop :=
  ∃ L, CommittedLog history L ∧ L.length = index ∧ Raft.lastTerm RaftLogEntry.term L = term ∧ data = snapshotBytes L

theorem Tracked.snapshotOf {w : World} (h : Tracked config timely w A) {t index term : Nat} {L : List RaftLogEntry}
    (hreached : Reached w.history index) (hagreed : Raft.Agreed config.setting A t index L)
    (hterm : term = Raft.lastTerm RaftLogEntry.term (L.take index)) :
    SnapshotOf w.history index term (snapshotBytes (L.take index)) := by
  refine ⟨_, h.committedLog hreached hagreed, ?_, hterm.symm, rfl⟩
  rw [List.length_take]
  exact Nat.min_eq_left hagreed.le_length

/-- The snapshot of a process, in its memory or in its store. -/
theorem Tracked.state_snapshotOf (hA : Tracked config timely cluster.world A) (hunhurt : Unhurt cluster.history)
    {state : PersistedRaftState} (hstate : (cluster.nodes n).state = .ok state) (hindex : state.snapshotIndex ≠ 0) :
    SnapshotOf cluster.history state.snapshotIndex state.snapshotTerm state.snapshotData := by
  have hreplicas := hA.replicas hunhurt
  have hdepicts := hA.depicts hstate
  have hbacked := hA.backed.1 n
  obtain ⟨hreached, hdata⟩ : Reached cluster.history state.snapshotIndex ∧
      state.snapshotData = snapshotBytes ((A.log n).take state.snapshotIndex) := by
    cases hnode : cluster.nodes n with
    | running node =>
      have hview : cluster.world.views n = .active (.rest node) := congrArg Status.view hnode
      rw [hnode] at hstate
      obtain rfl := Except.ok.inj hstate
      rw [hview] at hbacked
      exact ⟨hbacked.snapshot, (hreplicas.active hview).data⟩
    | down store =>
      have hview : cluster.world.views n = .down store := congrArg Status.view hnode
      rw [hnode] at hstate
      obtain ⟨held, hholds, -⟩ := hA.related.down n store hview
      obtain ⟨rfl, -⟩ := hholds.load_eq_ok.mp hstate
      rw [hview] at hbacked
      refine ⟨(hbacked state hholds).2.2, ?_⟩
      rcases hholds.snapshot with ⟨-, -, hzero, -⟩ | ⟨-, hdata, -⟩
      · exact absurd hzero hindex
      · exact Option.some.inj (hdata.symm.trans ((hreplicas.down hview hholds).data hindex))
  rw [hdata]
  exact hA.snapshotOf hreached hdepicts.snapshotIndex hdepicts.snapshotTerm

/-- The part of a snapshot that a frame carries. -/
structure PartOf (request : Proto.InstallSnapshotRequest) (data : Bytes) : Prop where
  offset : request.offset ≤ data.length
  chunk : request.data = (data.drop request.offset).take kSnapshotChunkSize
  done : request.done = true ↔ request.offset + request.data.length = data.length

omit [Protobuf] in
theorem partOf_snapshotRequest (sender : RaftNode) (peer : Int) :
    PartOf (NodeM.snapshotRequest sender peer) sender.snapshotData := by
  obtain ⟨offset, hoffset, hle⟩ : ∃ offset, (if sender.snapshotData.length < sender.rpcSnapshotOffset peer then 0
      else sender.rpcSnapshotOffset peer) = offset ∧ offset ≤ sender.snapshotData.length := by
    refine ⟨_, rfl, ?_⟩
    split <;> omega
  refine ⟨?_, ?_, ?_⟩
  · simpa only [NodeM.snapshotRequest, hoffset] using hle
  · simp only [NodeM.snapshotRequest, hoffset]
    rw [Nat.min_comm, ← List.length_drop, ← List.take_eq_take_min]
  · simp only [NodeM.snapshotRequest, hoffset, beq_iff_eq, List.length_take, List.length_drop]
    omega

/-- A frame of a transfer names a committed log and carries a part of its snapshot. -/
theorem Tracked.frame_snapshotOf (hA : Tracked config timely cluster.world A) (hunhurt : Unhurt cluster.history)
    {packet : Packet} (hpacket : packet ∈ packets cluster.history) {request : Proto.InstallSnapshotRequest}
    (hrequest : packet.rpc.payload = .installSnapshot request) :
    ∃ data, SnapshotOf cluster.history request.lastIncludedIndex request.lastIncludedTerm data ∧ PartOf request data := by
  obtain ⟨sender, peer, ⟨hbound, -⟩, hdata, rfl⟩ := (hA.replicas hunhurt).frames packet hpacket request hrequest
  refine ⟨sender.snapshotData, ?_, partOf_snapshotRequest sender peer⟩
  have hlabels := (hA.related.frames packet hpacket).means
  have hreached := hA.backed.2 packet hpacket
  rw [hrequest] at hlabels hreached
  obtain ⟨hleads, hlength, hterm, hcommit⟩ := hlabels
  -- the log of the term of the snapshot is the one of the sender up to the label
  have hsource : ((A.tlog sender.currentTerm).take sender.snapshotIndex) =
      (A.tlog sender.snapshotTerm).take sender.snapshotIndex := by
    rw [show sender.snapshotTerm = _ from hterm]
    exact (hA.inv.sourced_tlog sender.currentTerm).take_eq_tlog hlength
  rw [hdata]
  unfold labelBytes
  rw [← hsource]
  exact hA.snapshotOf hreached (.of_tlog hA.inv hleads hcommit rfl) hterm

/-- A snapshot is decided by its index. Provided that all committed commands can be applied and that no node has come up
with less committed than it had applied, all processes that have a snapshot up to one index have the same one, and every
frame that names this index carries a part of it. It is the state that the committed log up to the index leaves. -/
theorem snapshot_determined (h : Reachable config cluster) (happlicable : Applicable cluster.history)
    (hkept : NothingUndone cluster.history) :
    (∀ n state, (cluster.nodes n).state = .ok state → state.snapshotIndex ≠ 0 →
      SnapshotOf cluster.history state.snapshotIndex state.snapshotTerm state.snapshotData) ∧
    (∀ packet ∈ packets cluster.history, ∀ request, packet.rpc.payload = .installSnapshot request → ∃ data,
      SnapshotOf cluster.history request.lastIncludedIndex request.lastIncludedTerm data ∧ PartOf request data) ∧
    ∀ index term term' data data', SnapshotOf cluster.history index term data →
      SnapshotOf cluster.history index term' data' → term = term' ∧ data = data' := by
  obtain ⟨A, hA⟩ := h.reach.tracked
  have hunhurt := hA.unhurt happlicable hkept
  refine ⟨fun n state hstate hindex => hA.state_snapshotOf hunhurt hstate hindex,
    fun packet hpacket request hrequest => hA.frame_snapshotOf hunhurt hpacket hrequest, ?_⟩
  rintro index term term' data data' ⟨L, hL, rfl, rfl, rfl⟩ ⟨L', hL', hlength, rfl, rfl⟩
  obtain rfl := hA.committedLog_unique hL' hL hlength
  exact ⟨rfl, rfl⟩

omit [Protobuf] in
/-- The entry that a leader appends in an event. -/
def appendedEntry : Int × Event → Option RaftLogEntry
  | (_, .write (.persistLog none) s) => s.log.getLast?
  | _ => none

/-- All committed commands can be applied if all commands that were appended go together. -/
theorem applicable_of_appended (h : Reachable config cluster)
    (hcompatible : Compatible (cluster.history.filterMap appendedEntry)) : Applicable cluster.history := by
  obtain ⟨A, hA⟩ := h.reach.tracked
  intro L hL
  obtain ⟨t, hagreed⟩ := hA.agreed hL
  have hsubset : L ⊆ cluster.history.filterMap appendedEntry := by
    intro entry hentry
    obtain ⟨j, hj, rfl⟩ := List.getElem_of_mem hentry
    obtain ⟨m, s, hmem, hlast⟩ := hA.agreed_appended hagreed hj (List.getElem?_eq_getElem hj)
    exact List.mem_filterMap.mpr ⟨_, hmem, hlast⟩
  exact ⟨fun entry hentry => hcompatible.writes entry (hsubset hentry),
    fun entry hentry entry' hentry' => hcompatible.requests entry (hsubset hentry) entry' (hsubset hentry')⟩

omit [Protobuf] in
/-- Node 1 has taken a snapshot of eight commands and node 3 has got it. -/
theorem snapshot_determined_catchUp : ∃ cluster a b, @Reachable Wire.protobuf trio cluster ∧ cluster.nodes 1 = .running a ∧
    cluster.nodes 3 = .running b ∧ a.snapshotIndex = 8 ∧ b.snapshotIndex = 8 ∧ b.snapshotData = a.snapshotData := by
  obtain ⟨cluster, hrun, htest⟩ := @run_of_play Wire.protobuf trio (fun _ _ => True) _ catchUp
    (fun cluster => nothingUndone cluster.history && @decide (@Compatible Wire.protobuf
      (cluster.history.filterMap appendedEntry)) (@instDecidableCompatible Wire.protobuf _) &&
      (cluster.nodes 1).runs (fun a => a.snapshotIndex == 8) && (cluster.nodes 3).runs fun b => b.snapshotIndex == 8)
    (by decide +kernel)
  simp only [Bool.and_eq_true, decide_eq_true_eq] at htest
  obtain ⟨⟨⟨hkept, hcompatible⟩, ha⟩, hb⟩ := htest
  obtain ⟨a, ha, hindex⟩ := Status.exists_of_runs ha
  obtain ⟨b, hb, hindex'⟩ := Status.exists_of_runs hb
  rw [beq_iff_eq] at hindex hindex'
  obtain ⟨hstates, -, hunique⟩ := @snapshot_determined Wire.protobuf trio cluster hrun
    (@applicable_of_appended Wire.protobuf trio cluster hrun hcompatible) (nothingUndone_of_test hkept)
  have hsnapshot := hstates 1 a.toLogState.state (by rw [ha]; rfl) (by change a.snapshotIndex ≠ 0; omega)
  have hsnapshot' := hstates 3 b.toLogState.state (by rw [hb]; rfl) (by change b.snapshotIndex ≠ 0; omega)
  change @SnapshotOf Wire.protobuf cluster.history a.snapshotIndex a.snapshotTerm a.snapshotData at hsnapshot
  change @SnapshotOf Wire.protobuf cluster.history b.snapshotIndex b.snapshotTerm b.snapshotData at hsnapshot'
  rw [hindex] at hsnapshot
  rw [hindex'] at hsnapshot'
  exact ⟨cluster, a, b, hrun, ha, hb, hindex, hindex', (hunique 8 _ _ _ _ hsnapshot' hsnapshot).2⟩

end Snapshots

/-! ### Records -/

section Records

variable [Protobuf] {config : Config} {cluster : Cluster} {n : Int}

/-- The records of requests are of committed commands, and a process has those of all commands that it counts as
applied. This holds in every run, between two functions and at every moment at which a process may crash. -/
theorem requests_recorded (h : Reachable config cluster) {state : PersistedRaftState}
    (hstate : (cluster.nodes n).state = .ok state) :
    (∀ clientId requestId value, RaftStorage.getAppliedCommand (cluster.nodes n).store clientId requestId = some value →
      ∃ (L : List RaftLogEntry) (i : Nat) (entry : RaftLogEntry), CommittedLog cluster.history L ∧ L[i]? = some entry ∧
        entry.command = value) ∧
    ∀ L i entry command, CommittedLog cluster.history L → L[i]? = some entry → i < state.lastApplied →
      entry.parsed = some command → command.requestId ≠ 0 →
      ∃ value, RaftStorage.getAppliedCommand (cluster.nodes n).store command.clientId command.requestId = some value := by
  obtain ⟨A, hA⟩ := h.reach.tracked
  have hviews := hA.attribution.views n
  have hcovered := hA.remembrance.views n
  obtain ⟨hrecords, hcovers⟩ : Attributed (Placed config A cluster.history (A.term n)) (cluster.nodes n).store ∧
      Covers config A state.lastApplied (cluster.nodes n).store.Records := by
    cases hnode : cluster.nodes n with
    | running node =>
      have hview : cluster.world.views n = .active (.rest node) := congrArg Status.view hnode
      rw [hnode] at hstate
      obtain rfl := Except.ok.inj hstate
      rw [hview] at hviews hcovered
      exact ⟨hviews.store, hcovered.applied⟩
    | down store =>
      have hview : cluster.world.views n = .down store := congrArg Status.view hnode
      rw [hnode] at hstate
      obtain ⟨held, hholds, -⟩ := hA.related.down n store hview
      obtain ⟨rfl, -⟩ := hholds.load_eq_ok.mp hstate
      rw [hview] at hviews hcovered
      exact ⟨hviews, (hcovered state hholds).1⟩
  constructor
  · intro clientId requestId value hget
    unfold RaftStorage.getAppliedCommand appliedRequestKey at hget
    rw [List.append_assoc, List.append_assoc] at hget
    obtain ⟨L, i, entry, hreached, hagreed, hentry, hcommand⟩ := hrecords.records _ value hget
    refine ⟨_, i, entry, hA.committedLog hreached hagreed, ?_, hcommand⟩
    rwa [List.getElem?_take_of_lt (Nat.lt_succ_self i)]
  · intro L i entry command hL hentry hi hparse hid
    obtain ⟨t, hagreed⟩ := hA.agreed hL
    obtain ⟨entry', hfixed, hrecord⟩ := hcovers i hi
    obtain rfl := Option.some.inj ((hfixed.getElem? hA.inv hagreed (Raft.length_lt_of_getElem? hentry)).symm.trans hentry)
    obtain ⟨key, hkey, value, hget⟩ := hrecord command hparse hid
    exact ⟨value, (congrArg (cluster.nodes n).store.get hkey.symm).trans hget⟩

omit [Protobuf] in
theorem requests_recorded_handover : ∃ cluster node value, @Reachable Wire.protobuf trio cluster ∧
    cluster.nodes 2 = .running node ∧ RaftStorage.getAppliedCommand node.store 1 1 = some value ∧
    ∃ (L : List RaftLogEntry) (i : Nat) (entry : RaftLogEntry), CommittedLog cluster.history L ∧ L[i]? = some entry ∧
      entry.command = value := by
  obtain ⟨cluster, hrun, htest⟩ := @run_of_play Wire.protobuf trio (fun _ _ => True) _ handover
    (fun cluster => (cluster.nodes 2).runs fun node => (RaftStorage.getAppliedCommand node.store 1 1).isSome)
    (by decide +kernel)
  obtain ⟨node, hnode, hsome⟩ := Status.exists_of_runs htest
  obtain ⟨value, hvalue⟩ := Option.isSome_iff_exists.mp hsome
  have hrecorded := (@requests_recorded Wire.protobuf trio cluster 2 hrun node.toLogState.state (by rw [hnode]; rfl)).1
  rw [hnode] at hrecorded
  exact ⟨cluster, node, value, hrun, hnode, hvalue, hrecorded 1 1 value hvalue⟩

end Records

end Nukv
