import Nukv.Proof.Durable
import Nukv.Property.Consensus

/-!
# Installing a snapshot

The follower assembles a snapshot from chunks. What it has assembled is always a beginning of the snapshot that the
chunks name, whatever chunks arrive in whatever order: a chunk is appended only where it belongs. The last chunk ends
where the snapshot ends, so what is installed is the whole.

The write that installs it deletes every user entry, every dedup record and every log key and puts those of the snapshot
and of the retained suffix in their place.
-/

namespace Nukv

open Base

/-- The InstallSnapshot requests that arrive are built by `SendSnapshot`, by whatever node and from whatever offset, for
snapshots whose bytes are determined by their index and term. -/
def FromSnapshots (bytes : Nat → Nat → Bytes) : LoopAction → Prop
  | .receive _ ⟨_, _, .installSnapshot request⟩ => ∃ (sender : RaftNode) (peer : Int),
      sender.snapshotData = bytes sender.snapshotIndex sender.snapshotTerm ∧ request = NodeM.snapshotRequest sender peer
  | _ => True

variable [Protobuf] {config : Config} {n : Int} {past : List Moment} {l l' : Local} {action : LoopAction}
  {event : Option Event} {bytes : Nat → Nat → Bytes}

/-! ### Assembling -/

omit [Protobuf] in
/-- A chunk and what follows it. -/
theorem FromSnapshots.chunk {connection : Conn} {rpc : Proto.RaftRpc} {request : Proto.InstallSnapshotRequest}
    (h : FromSnapshots bytes (.receive connection rpc)) (hpayload : rpc.payload = .installSnapshot request) :
    ∃ rest, bytes request.lastIncludedIndex request.lastIncludedTerm =
        (bytes request.lastIncludedIndex request.lastIncludedTerm).take request.offset ++ request.data ++ rest ∧
      (request.done = true → rest = []) := by
  obtain ⟨id, sender, payload⟩ := rpc
  subst hpayload
  obtain ⟨sender, peer, hdata, rfl⟩ := h
  obtain ⟨offset, hoffset, heq⟩ := isChunk_snapshotRequest sender peer
  rw [heq]
  simp only
  rw [← hdata]
  generalize sender.snapshotData = data at hoffset
  refine ⟨(data.drop offset).drop (min (data.length - offset) kSnapshotChunkSize), ?_, fun hdone => ?_⟩
  · rw [List.append_assoc, List.take_append_drop, List.take_append_drop]
  · rw [beq_iff_eq] at hdone
    rw [hdone, ← List.length_drop, List.drop_length]

omit [Protobuf] in
/-- A chunk of the snapshot of a node, as `SendSnapshot` builds it at some offset. -/
theorem RaftNode.IsChunk.request_eq {node : RaftNode} {request : Proto.InstallSnapshotRequest} (h : node.IsChunk request) :
    ∃ sender : RaftNode, sender.toLogState = node.toLogState ∧ request = NodeM.snapshotRequest sender 0 := by
  obtain ⟨offset, hle, rfl⟩ := h
  refine ⟨{ node with rpcSnapshotOffset := fun _ => offset }, rfl, ?_⟩
  unfold NodeM.snapshotRequest
  dsimp only
  rw [if_neg (Nat.not_lt.mpr hle)]

/-- The bytes assembled so far are a beginning of the snapshot they are taken for. -/
def RaftNode.Assembles (bytes : Nat → Nat → Bytes) (node : RaftNode) : Prop :=
  node.incomingSnapshotActive = true →
    node.incomingSnapshotData <+: bytes node.incomingSnapshotIndex node.incomingSnapshotTerm

theorem RaftNode.Assembles.step (h : l.node.Assembles bytes) (hstep : Micro action l event l')
    (hframes : FromSnapshots bytes action) : l'.node.Assembles bytes := by
  rcases hstep with hstep | hstep | hstep | hstep | hstep | hstep | hstep | hstep | hstep
  case chunk =>
    cases hstep with
    | openTransfer => exact fun _ => List.nil_prefix
    | appendChunk connection rpc request haction hpayload hactive hindex hterm hoffset =>
      intro _
      subst haction
      obtain ⟨rest, hbytes, -⟩ := hframes.chunk hpayload
      rw [hindex, hterm, hoffset, ← List.prefix_iff_eq_take.mp (h hactive)] at hbytes
      exact ⟨rest, hbytes.symm⟩
    | clear => exact fun hactive => absurd (show false = true from hactive) (by simp)
  all_goals cases hstep <;> exact h

theorem Life.assembles (h : Life config n (FromSnapshots bytes) (.active l) past) : l.node.Assembles bytes := by
  refine h.each (P := fun _ l => l.node.Assembles bytes) ?_ ?_ ?_
  · exact fun past store state _ _ _ hactive => absurd (show false = true from hactive) (by simp)
  · intro past l action _ _ _ ih
    obtain ⟨-, -, -, hincoming, -⟩ := entered_kept n action l.node
    rw [RaftNode.Assembles, hincoming]
    exact ih
  · exact fun past l l' action event _ _ hadmits hstep ih => ih.step hstep hadmits

/-! ### Installing -/

/-- What an installation leaves: the whole snapshot was assembled, and the store has its user entries and its dedup
records and no others, and of the log what the node retains. -/
def Installed (bytes : Nat → Nat → Bytes) : Event → Prop
  | .write (.applySnapshot index term data) s =>
    data = bytes index term ∧
      ∃ contents, parseSnapshotState data = .ok contents ∧
        (∀ key value, (key, value) ∈ s.store.getAllUserEntries ↔ (key, value) ∈ contents.entries) ∧
        (∀ key value, (key, value) ∈ RaftStorage.getAppliedRequests s.store ↔ (key, value) ∈ contents.appliedRequests) ∧
        ∀ key value, (key, value) ∈ s.store.getAllPrefixedEntries logPath ↔
          (key, value) ∈ RaftStorage.logEntries index (NodeM.retainedSuffix s)
  | _ => True

theorem Micro.installed {e : Event} (hassembles : l.node.Assembles bytes) (hframes : FromSnapshots bytes action)
    (hstep : Micro action l (some e) l') : Installed bytes e := by
  rcases hstep with hstep | hstep | hstep | hstep | hstep | hstep | hstep | hstep | hstep
  case log =>
    cases hstep with
    | install connection rpc request snapshot s haction hpayload _ _ hindex hterm _ hactive hdone hlength hparse hs =>
      subst haction
      have hwell := SnapshotContents.WellFormed.of_parse hparse
      have hstore : s.store = (l.node.installed snapshot).store :=
        (congrArg (fun t : RaftNode => t.store) hs).trans rfl
      have hsuffix : NodeM.retainedSuffix s = NodeM.retainedSuffix l.node :=
        (congrArg (fun t : RaftNode => NodeM.retainedSuffix t) hs).trans rfl
      refine ⟨?_, snapshot, hparse, fun key value => ?_, fun key value => ?_, fun key value => ?_⟩
      · -- the last chunk reaches to the end of the snapshot
        obtain ⟨rest, hbytes, hrest⟩ := hframes.chunk hpayload
        rw [hrest hdone, List.append_nil, hindex, hterm] at hbytes
        have hend := congrArg List.length hbytes
        rw [List.length_append, List.length_take] at hend
        exact (hassembles hactive).eq_of_length_le (by omega)
      · rw [hstore]
        exact RaftStorage.mem_getAllUserEntries_applySnapshot hwell
      · rw [hstore, mem_getAppliedRequests]
        exact RaftStorage.get_applySnapshot_request hwell
      · have hnodup := RaftStorage.nodup_logEntries l.node.incomingSnapshotIndex (NodeM.retainedSuffix l.node)
        rw [hstore, hsuffix, RocksKVStore.mem_getAllPrefixedEntries, ← lastPut_eq_some_iff hnodup]
        constructor
        · rintro ⟨hget, hstart⟩
          rwa [← RaftStorage.get_applySnapshot_log hwell hstart]
        · intro hput
          have hstart : startsWith logPath key = true := by
            obtain ⟨k, hk, heq⟩ := List.mem_mapIdx.mp (mem_of_lastPut hput)
            rw [← (Prod.mk.inj heq).1]
            exact startsWith_logKey _
          exact ⟨(RaftStorage.get_applySnapshot_log hwell hstart).trans hput, hstart⟩
    | _ => trivial
  all_goals cases hstep <;> trivial

/-- Whatever chunks of snapshots arrive, an installed snapshot is complete and replaces the state machine. -/
theorem snapshotTransfer_faithful {process : Process} (h : Process.Run config n (FromSnapshots bytes) process) :
    ∀ e, .effect e ∈ process.past → Installed bytes e := by
  have hall := h.life.1.effects (Q := fun _ e => Installed bytes e) (fun _ _ _ _ _ => trivial)
    fun past l l' action e hlife _ hadmits hstep => hstep.installed hlife.assembles hadmits
  intro e he
  obtain ⟨before, after, hpast⟩ := List.append_of_mem he
  exact hall before e after hpast

/-- Node 2, the leader of term 1, with a snapshot of one entry up to index 5 and an offset to go on from. -/
def sender (offset : Nat) : RaftNode :=
  { RaftNode.create 2 trio.peers .empty with
    currentTerm := 1
    snapshotIndex := 5
    snapshotTerm := 1
    snapshotData := @serializeSnapshotState Wire.protobuf [([107], [118])] []
    rpcSnapshotOffset := fun _ => offset }

/-- Node 1 receives the end of the snapshot, which it cannot use, and then the whole. -/
def transferring : List Process.Act :=
  [.run .start, .run (.connect 2 0),
    .run (.receive ⟨1, 2, 0⟩ ⟨1, 2, .installSnapshot (NodeM.snapshotRequest (sender 3) 1)⟩),
    .run (.receive ⟨1, 2, 0⟩ ⟨2, 2, .installSnapshot (NodeM.snapshotRequest (sender 0) 1)⟩)]

/-- Whether the event is that a snapshot with a label was installed. -/
def installs (index term : Nat) : Event → Bool
  | .write (.applySnapshot index' term' _) _ => index' == index && term' == term
  | _ => false

omit [Protobuf] in
theorem snapshotTransfer_faithful_transferring : ∃ process data s,
    @Process.Run Wire.protobuf trio 1 (FromSnapshots fun _ _ => (sender 0).snapshotData) process ∧
    .effect (.write (.applySnapshot 5 1 data) s) ∈ process.past ∧ data = (sender 0).snapshotData ∧
    ([107], [118]) ∈ s.store.getAllUserEntries := by
  have hacts : ∀ act ∈ transferring, act.Admitted (FromSnapshots fun _ _ => (sender 0).snapshotData) := by
    intro act hact
    simp only [transferring, List.mem_cons, List.not_mem_nil, or_false] at hact
    rcases hact with rfl | rfl | rfl | rfl
    · trivial
    · trivial
    · exact ⟨sender 3, 1, rfl, rfl⟩
    · exact ⟨sender 0, 1, rfl, rfl⟩
  obtain ⟨process, hrun, htest⟩ := @Process.run_of_play Wire.protobuf trio 1
    (FromSnapshots fun _ _ => (sender 0).snapshotData) transferring
    (fun process => process.past.any (Moment.causes (installs 5 1))) hacts (by decide +kernel)
  obtain ⟨event, hmem, hevent⟩ := exists_of_causes htest
  unfold installs at hevent
  split at hevent
  · next index term data s =>
    simp only [Bool.and_eq_true, beq_iff_eq] at hevent
    obtain ⟨rfl, rfl⟩ := hevent
    obtain ⟨hdata, contents, hparse, huser, -⟩ := @snapshotTransfer_faithful Wire.protobuf trio 1 _ process hrun _ hmem
    refine ⟨process, data, s, hrun, hmem, hdata, (huser _ _).mpr ?_⟩
    rw [hdata] at hparse
    rw [@parseSnapshotState_serialize Wire.protobuf _ _ _ hparse]
    exact List.mem_singleton_self _
  · cases hevent

end Nukv
