import Nukv.Proof.Committed
import Nukv.Proof.Matching
import Nukv.Property.Commands
import Nukv.Property.Labels
import Nukv.Property.Snapshots

/-!
# Replicas

The store of a node has what the committed log up to `last_applied_` leaves. Applying keeps this, because a command and
the index it brings `last_applied_` to are written together; so does taking a snapshot, which is labelled with
`last_applied_`, and installing one, whose bytes are those of the log it is labelled with. Chunks of two snapshots with
one label fit together, since the label decides the bytes.

A restart breaks it when a new leader has lowered `commit_index_` below `last_applied_` before: `LoadState` then lowers
`last_applied_` as well, but not the store, and commands are applied a second time.
-/

namespace Nukv

/-- No committed command is refused, and no node comes up with less committed than it has applied. -/
structure Unhurt (history : List (Int × Event)) : Prop where
  applicable : ∀ n index, (n, .refuseApply index) ∉ history
  loads : ∀ n state, (n, .loadState state) ∈ history → state.lastApplied ≤ max state.commitIndex state.snapshotIndex

theorem Unhurt.of_append {history more : List (Int × Event)} (h : Unhurt (history ++ more)) : Unhurt history :=
  ⟨fun n index hmem => h.applicable n index (List.mem_append_left _ hmem),
    fun n state hmem => h.loads n state (List.mem_append_left _ hmem)⟩

section Replicas

variable [Protobuf] {config : Config} {timely : Prop} {A A' : Shadow} {w w' : World} {n : Int} {l l' : Local}
  {action : LoopAction} {event : Option Event} {store : RocksKVStore} {snapshotIndex lastApplied : Nat}

/-! ### Labels -/

/-- The bytes that belong to the label of a snapshot. -/
def labelBytes (A : Shadow) (index term : Nat) : Bytes := snapshotBytes ((A.tlog term).take index)

/-- The log that a label names is there and can be replayed. -/
def Known (A : Shadow) (index term : Nat) : Prop :=
  index ≤ (A.tlog term).length ∧ ∃ result, replay ((A.tlog term).take index) = some result

theorem labelBytes_grow (hext : Raft.Extends A A') {index term : Nat} (h : index ≤ (A.tlog term).length) :
    labelBytes A' index term = labelBytes A index term := by
  unfold labelBytes
  rw [hext.take_tlog h]

theorem Known.grow (hext : Raft.Extends A A') {index term : Nat} (h : Known A index term) : Known A' index term := by
  obtain ⟨hle, hreplay⟩ := h
  refine ⟨hle.trans (hext.tlog term).length_le, ?_⟩
  rwa [hext.take_tlog hle]

/-! ### What is kept -/

/-- What a store has, for the log of its node, its last snapshot and the last command that was applied to it. -/
structure Saved (A : Shadow) (n : Int) (store : RocksKVStore) (snapshotIndex lastApplied : Nat) : Prop where
  low : snapshotIndex ≤ lastApplied
  counted : ReadsNat store lastAppliedKey lastApplied
  folds : Folds ((A.log n).take lastApplied) store
  data : snapshotIndex ≠ 0 → store.get snapshotDataKey = some (snapshotBytes ((A.log n).take snapshotIndex))

/-- A replica: its store, its snapshot, and the beginning of one that is on its way to it. -/
structure Replica (A : Shadow) (n : Int) (d : LogState) (i : IncomingSnapshot) : Prop where
  saved : Saved A n d.store d.snapshotIndex d.lastApplied
  data : d.snapshotData = snapshotBytes ((A.log n).take d.snapshotIndex)
  assembles : i.incomingSnapshotActive = true → Known A i.incomingSnapshotIndex i.incomingSnapshotTerm ∧
    i.incomingSnapshotData <+: labelBytes A i.incomingSnapshotIndex i.incomingSnapshotTerm

theorem Saved.of_take (h : Saved A n store snapshotIndex lastApplied)
    (htake : (A'.log n).take lastApplied = (A.log n).take lastApplied) : Saved A' n store snapshotIndex lastApplied := by
  refine ⟨h.low, h.counted, htake ▸ h.folds, fun hne => ?_⟩
  rw [h.data hne, Raft.take_eq_mono h.low htake]

theorem Replica.of_take {d : LogState} {i : IncomingSnapshot} (h : Replica A n d i) (hext : Raft.Extends A A')
    (htake : (A'.log n).take d.lastApplied = (A.log n).take d.lastApplied) : Replica A' n d i := by
  refine ⟨h.saved.of_take htake, ?_, fun hactive => ?_⟩
  · rw [h.data, Raft.take_eq_mono h.saved.low htake]
  · obtain ⟨hknown, hbytes⟩ := h.assembles hactive
    exact ⟨hknown.grow hext, labelBytes_grow hext hknown.1 ▸ hbytes⟩

/-- A write that leaves the state machine and the snapshot alone. -/
theorem Saved.congr {store' : RocksKVStore} (h : Saved A n store snapshotIndex lastApplied) (hagrees : store.Agrees store')
    (hcounted : ReadsNat store' lastAppliedKey lastApplied)
    (hdata : store'.get snapshotDataKey = store.get snapshotDataKey) : Saved A n store' snapshotIndex lastApplied :=
  ⟨h.low, hcounted, h.folds.congr hagrees, fun hne => hdata.trans (h.data hne)⟩

theorem Saved.stateSaved (node : RaftNode) (h : Saved A n node.store node.snapshotIndex node.lastApplied) :
    Saved A n node.stateSaved.store node.snapshotIndex node.lastApplied := by
  refine h.congr node.stateSaved_agrees (.inl node.stateSaved_counted.2) ?_
  change (node.store.written _).get _ = _
  rw [RocksKVStore.get_written, RaftStorage.persistState, (RaftStorage.lastPut_stateEntries_snapshot ..).2,
    Option.none_or, if_neg List.not_mem_nil]

theorem Saved.logSaved (node : RaftNode) (h : Saved A n node.store node.snapshotIndex node.lastApplied) :
    Saved A n node.logSaved.store node.snapshotIndex node.lastApplied := by
  have hkept : ∀ key, startsWith logPath key = false → node.logSaved.store.get key = node.store.get key := fun key hkey =>
    Holds.get_persistLog hkey _ _
  refine h.congr node.logSaved_agrees ?_ (hkept _ (by decide))
  have hcounted := h.counted
  unfold ReadsNat at hcounted ⊢
  rwa [hkept _ (by decide)]

/-- One more command was applied. -/
theorem Saved.applied {node : RaftNode} {entry : RaftLogEntry} {command : Proto.Command} {batch : WriteBatch}
    (h : Saved A n node.store node.snapshotIndex node.lastApplied) (hentry : (A.log n)[node.lastApplied]? = some entry)
    (hparse : Protobuf.command.parse entry.command = some command)
    (hbatch : CommandApplier.applyAtomically node.store command (node.lastApplied + 1) node.commitIndex = .ok batch) :
    Saved A n (node.entryApplied batch).store node.snapshotIndex (node.lastApplied + 1) := by
  refine ⟨Nat.le_succ_of_le h.low, .inl (CommandApplier.get_progress hbatch).2, ?_, fun hne => ?_⟩
  · rw [List.take_add_one, hentry]
    exact h.folds.append hparse hbatch
  · have hkept : (node.store.written batch).get snapshotDataKey = node.store.get snapshotDataKey := by
      rw [CommandApplier.get_reserved hbatch (by decide) (by decide)]
      have hne : commitIndexKey ≠ snapshotDataKey ∧ lastAppliedKey ≠ snapshotDataKey := by decide
      simp [CommandApplier.progressEntries, lastPut, hne]
    exact hkept.trans (h.data hne)

/-- A snapshot was taken of all that is applied. -/
theorem Replica.compacted {node : RaftNode} {i : IncomingSnapshot} (h : Replica A n node.toLogState i)
    (hall : node.commitIndex = node.lastApplied) (hpos : 0 < node.commitIndex)
    (hlength : node.commitIndex ≤ (A.log n).length) : Replica A n node.compacted.toLogState i := by
  have hne : (A.log n).take node.commitIndex ≠ [] := by
    intro hnil
    have := congrArg List.length hnil
    rw [List.length_take, List.length_nil] at this
    omega
  have hcaptured : node.captured = snapshotBytes ((A.log n).take node.commitIndex) := by
    have hfolds := h.saved.folds
    rw [← hall] at hfolds
    exact hfolds.captured hne
  refine ⟨⟨hall.le, .inl node.compacted_counted.2, h.saved.folds.congr node.compacted_agrees, fun _ => ?_⟩, hcaptured,
    h.assembles⟩
  change _ = some (snapshotBytes ((A.log n).take node.commitIndex))
  rw [← hcaptured]
  refine RaftStorage.get_persistSnapshot (by decide) ?_
  rw [lastPut_append, (RaftStorage.lastPut_snapshotEntries ..).2, Option.some_or]

/-- The whole snapshot of a label was installed. -/
theorem Replica.installed {node : RaftNode} {i : IncomingSnapshot} {contents : SnapshotContents}
    (h : Replica A n node.toLogState i) (hpos : 0 < node.incomingSnapshotIndex)
    (hknown : Known A node.incomingSnapshotIndex node.incomingSnapshotTerm)
    (hdata : node.incomingSnapshotData = labelBytes A node.incomingSnapshotIndex node.incomingSnapshotTerm)
    (hparse : parseSnapshotState node.incomingSnapshotData = .ok contents)
    (hlog : (A.log n).take node.incomingSnapshotIndex =
      (A.tlog node.incomingSnapshotTerm).take node.incomingSnapshotIndex) :
    Replica A n (node.installed contents).toLogState i := by
  obtain ⟨hlength, result, hresult⟩ := hknown
  have hne : (A.tlog node.incomingSnapshotTerm).take node.incomingSnapshotIndex ≠ [] := by
    intro hnil
    have := congrArg List.length hnil
    rw [List.length_take, List.length_nil] at this
    omega
  have hwell := SnapshotContents.WellFormed.of_parse hparse
  rw [hdata] at hparse
  have hsame := serialize_parse_snapshotBytes hresult hne hparse
  have hcontents := Except.ok.inj (hparse.symm.trans (parse_snapshotBytes hresult hne))
  have hdata' : node.incomingSnapshotData = snapshotBytes ((A.log n).take node.incomingSnapshotIndex) := by
    rw [hdata, hlog]
    rfl
  refine ⟨⟨le_rfl, .inl (node.installed_counted hwell).2, ⟨result, ?_, .of_contents ?_ ?_⟩, fun _ => ?_⟩, hdata',
    h.assembles⟩
  · exact (congrArg replay hlog).trans hresult
  · intro key value
    refine (RaftStorage.mem_getAllUserEntries_applySnapshot hwell).trans ?_
    rw [hcontents]
  · intro key value
    rw [mem_getAppliedRequests]
    refine (RaftStorage.get_applySnapshot_request hwell).trans ?_
    rw [hcontents]
  · change _ = some (snapshotBytes ((A.log n).take node.incomingSnapshotIndex))
    rw [hlog, ← hsame]
    refine RaftStorage.get_applySnapshot hwell (by decide) ?_
    rw [lastPut_append, (RaftStorage.lastPut_snapshotEntries ..).2, Option.some_or]

theorem Replica.voteSaved {node : RaftNode} {i : IncomingSnapshot} (h : Replica A n node.toLogState i) (candidate : Int) :
    Replica A n (node.voteSaved candidate).toLogState i :=
  ⟨Saved.stateSaved ({ node with votedFor := candidate } : RaftNode) h.saved, h.data, h.assembles⟩

/-! ### One step -/

/-- A frame carries a chunk of the snapshot that it names. -/
def Pictured (A : Shadow) (request : Proto.InstallSnapshotRequest) : Prop :=
  ∃ (sender : RaftNode) (peer : Int), Known A sender.snapshotIndex sender.snapshotTerm ∧
    sender.snapshotData = labelBytes A sender.snapshotIndex sender.snapshotTerm ∧
    request = NodeM.snapshotRequest sender peer

theorem Pictured.grow (hext : Raft.Extends A A') {request : Proto.InstallSnapshotRequest} (h : Pictured A request) :
    Pictured A' request := by
  obtain ⟨sender, peer, hknown, hdata, hrequest⟩ := h
  exact ⟨sender, peer, hknown.grow hext, hdata.trans (labelBytes_grow hext hknown.1).symm, hrequest⟩

/-- The frames that the loop may run on carry chunks of the snapshots that they name. -/
def Pictures (A : Shadow) : LoopAction → Prop
  | .receive _ ⟨_, _, .installSnapshot request⟩ => Pictured A request
  | _ => True

theorem Pictures.fromSnapshots (h : Pictures A action) : FromSnapshots (labelBytes A) action := by
  unfold Pictures at h
  split at h
  · obtain ⟨sender, peer, -, hdata, hrequest⟩ := h
    exact ⟨sender, peer, hdata, hrequest⟩
  · next hother =>
    unfold FromSnapshots
    split
    · exact absurd rfl (hother _ _ _ _)
    · trivial

theorem Pictures.known {c : Conn} {rpc : Proto.RaftRpc} {request : Proto.InstallSnapshotRequest}
    (h : Pictures A (.receive c rpc)) (hpayload : rpc.payload = .installSnapshot request) :
    Known A request.lastIncludedIndex request.lastIncludedTerm := by
  obtain ⟨id, sender, payload⟩ := rpc
  subst hpayload
  obtain ⟨sender, peer, hknown, -, rfl⟩ := h
  exact hknown

section Step

variable {sent : List Packet} (h : Replica A n l.node.toLogState l.node.toIncomingSnapshot)
  (hnode : NodeSim config A sent n l')
include h hnode

omit hnode in
theorem Replica.roleStep (hstep : RoleStep action l event l') :
    Replica A n l'.node.toLogState l'.node.toIncomingSnapshot := by
  cases hstep with
  | adoptTerm c rpc term s =>
    exact ⟨Saved.stateSaved ({ l.node.steppedDown with currentTerm := term, votedFor := -1 } : RaftNode) h.saved, h.data,
      h.assembles⟩
  | demote => exact h
  | campaign s =>
    exact ⟨Saved.stateSaved ({ l.node with
      role := .candidate
      currentTerm := l.node.currentTerm + 1
      votedFor := l.node.serverId
      grantedVotes := {l.node.serverId} } : RaftNode) h.saved, h.data, h.assembles⟩
  | grant => exact h.voteSaved _
  | countVote => exact h
  | elect => exact h

theorem Replica.logStep (hI : Raft.Inv config.setting A) (hpictures : Pictures A action)
    (hstep : LogStep action l event l') : Replica A n l'.node.toLogState l'.node.toIncomingSnapshot := by
  cases hstep with
  | push call s =>
    exact ⟨Saved.logSaved ({ l.node with log := _ } : RaftNode) h.saved, h.data, h.assembles⟩
  | advance => exact ⟨h.saved, h.data, h.assembles⟩
  | merge c rpc request s =>
    exact ⟨Saved.logSaved ({ l.node with log := _ } : RaftNode) h.saved, h.data, h.assembles⟩
  | spoil => exact ⟨h.saved, h.data, h.assembles⟩
  | install c rpc request contents s haction hpayload hrole hterm hindex hlabel hnew hactive hdone hlength hparse hs
      hne hout =>
    have hassembles : l.node.Assembles (labelBytes A) := fun hactive => (h.assembles hactive).2
    have hinstalled := Micro.installed hassembles hpictures.fromSnapshots (.log (.install c rpc request contents s haction
      hpayload hrole hterm hindex hlabel hnew hactive hdone hlength hparse hs hne hout))
    -- the log of the node now begins with the log that the label names
    have hshows := Memory.shows hnode.memory
    have htake := (hI.sourced_log n).take_eq_tlog hshows.bound
    have hlast : l.node.incomingSnapshotTerm =
      Raft.lastTerm RaftLogEntry.term ((A.log n).take l.node.incomingSnapshotIndex) := hshows.snapshotTerm
    refine h.installed (Nat.zero_lt_of_lt hnew) (h.assembles hactive).1 hinstalled.1 hparse ?_
    rw [hlast]
    exact htake

theorem Replica.applyStep (hlabelled : l.Labelled) (hstep : ApplyStep l event l')
    (happlicable : ∀ index, event ≠ some (.refuseApply index)) :
    Replica A n l'.node.toLogState l'.node.toIncomingSnapshot := by
  cases hstep with
  | enter => exact h
  | catchUp =>
    have hsame : max l.node.lastApplied l.node.snapshotIndex = l.node.lastApplied := max_eq_left hlabelled.low
    rw [hsame]
    exact ⟨h.saved, h.data, h.assembles⟩
  | call => exact h
  | apply entry command batch s hin hlt hentry hparse hbatch =>
    have hread := ((Memory.shows hnode.memory).entryAt.mp hentry).2
    exact ⟨h.saved.applied hread hparse hbatch, h.data, h.assembles⟩
  | persist s => exact ⟨Saved.stateSaved l.node h.saved, h.data, h.assembles⟩
  | compact s hin happlied hmany =>
    have hall : l.node.commitIndex = l.node.lastApplied := by
      rcases hlabelled.inside hin with hle | hlt <;> omega
    have hpos : 0 < l.node.commitIndex := by
      unfold kSnapshotThreshold at hmany
      omega
    exact h.compacted hall hpos (Memory.snapshot_le hnode.memory)
  | leave => exact h
  | refuse => exact absurd rfl (happlicable _)
  | abort => exact h

omit hnode in
theorem Replica.chunkStep (hpictures : Pictures A action) (hstep : ChunkStep action l event l') :
    Replica A n l'.node.toLogState l'.node.toIncomingSnapshot := by
  have hassembles : l'.node.Assembles (labelBytes A) :=
    RaftNode.Assembles.step (fun hactive => (h.assembles hactive).2) (.chunk hstep) hpictures.fromSnapshots
  cases hstep with
  | openTransfer c rpc request haction hpayload =>
    subst haction
    exact ⟨h.saved, h.data, fun hactive => ⟨hpictures.known hpayload, hassembles hactive⟩⟩
  | appendChunk c rpc request haction hpayload hactive =>
    exact ⟨h.saved, h.data, fun hactive' => ⟨(h.assembles hactive).1, hassembles hactive'⟩⟩
  | clear => exact ⟨h.saved, h.data, fun hactive => absurd (show false = true from hactive) (by simp)⟩

theorem Replica.step (hI : Raft.Inv config.setting A) (hpictures : Pictures A action) (hlabelled : l.Labelled)
    (hstep : Micro action l event l') (happlicable : ∀ index, event ≠ some (.refuseApply index)) :
    Replica A n l'.node.toLogState l'.node.toIncomingSnapshot := by
  rcases hstep with hstep | hstep | hstep | hstep | hstep | hstep | hstep | hstep | hstep
  case role => exact h.roleStep hstep
  case log => exact h.logStep hnode hI hpictures hstep
  case apply => exact h.applyStep hnode hlabelled hstep happlicable
  case chunk => exact h.chunkStep hpictures hstep
  all_goals cases hstep <;> exact h

end Step

/-- A replica sends chunks of the snapshot of its label. -/
theorem Replica.pictured {sent : List Packet} {i : IncomingSnapshot} (h : Replica A n l.node.toLogState i)
    (hI : Raft.Inv config.setting A) (hnode : NodeSim config A sent n l) {node : RaftNode}
    {request : Proto.InstallSnapshotRequest} (hchunk : node.IsChunk request) (hsame : l.node.toLogState = node.toLogState) :
    Pictured A request := by
  obtain ⟨sender, hsender, hrequest⟩ := hchunk.request_eq
  rw [← hsame] at hsender
  have hshows := Memory.shows hnode.memory
  have htake : (A.log n).take l.node.snapshotIndex = (A.tlog l.node.snapshotTerm).take l.node.snapshotIndex := by
    rw [hshows.snapshotTerm]
    exact (hI.sourced_log n).take_eq_tlog hshows.bound
  have hknown : Known A l.node.snapshotIndex l.node.snapshotTerm := by
    refine ⟨Raft.length_le_of_take_eq htake hshows.bound, ?_⟩
    rw [← htake, ← Nat.min_eq_left h.saved.low, ← List.take_take]
    exact h.saved.folds.take _
  have hdata : l.node.snapshotData = labelBytes A l.node.snapshotIndex l.node.snapshotTerm := by
    unfold labelBytes
    rw [← htake]
    exact h.data
  refine ⟨sender, 0, ?_, ?_, hrequest⟩
  · rw [congrArg LogState.snapshotIndex hsender, congrArg LogState.snapshotTerm hsender]
    exact hknown
  · rw [congrArg LogState.snapshotIndex hsender, congrArg LogState.snapshotTerm hsender,
      congrArg LogState.snapshotData hsender]
    exact hdata

/-! ### Along a run -/

/-- A replica that runs, or what is left of one. -/
def View.IsReplica (A : Shadow) (n : Int) : View → Prop
  | .active l => Replica A n l.node.toLogState l.node.toIncomingSnapshot
  | .down store => ∀ state, Holds store state → Saved A n store state.snapshotIndex state.lastApplied

/-- All nodes of a world are replicas, also those that are down, and all frames carry chunks of their snapshots. -/
structure Replicas (w : World) (A : Shadow) : Prop where
  views : ∀ n, (w.views n).IsReplica A n
  frames : ∀ packet ∈ packets w.history, ∀ request, packet.rpc.payload = .installSnapshot request → Pictured A request

theorem Replicas.active (h : Replicas w A) (hview : w.views n = .active l) :
    Replica A n l.node.toLogState l.node.toIncomingSnapshot := by
  have hreplica := h.views n
  rwa [hview] at hreplica

theorem Replicas.down (h : Replicas w A) (hview : w.views n = .down store) {state : PersistedRaftState}
    (hholds : Holds store state) : Saved A n store state.snapshotIndex state.lastApplied := by
  have hreplica := h.views n
  rw [hview] at hreplica
  exact hreplica state hholds

/-- The shadow has moved. -/
theorem Replicas.shadow (h : Replicas w A) {a : Int} (hrel : Related config A w)
    (hsteps : Raft.Steps config.setting a A A') : Replicas w A' := by
  have hext := hsteps.extends hrel.inv
  refine ⟨fun m => ?_, fun packet hpacket request hrequest => ?_⟩
  · cases hview : w.views m with
    | active l =>
      have hagreed := (hrel.active m l hview).memory.depicts.lastApplied
      exact (h.active hview).of_take hext (hagreed.take_steps hsteps hrel.inv)
    | down store =>
      intro state hholds
      obtain ⟨held, hheld, hdepicts⟩ := hrel.down m store hview
      have hsame : held.lastApplied = state.lastApplied := hheld.lastApplied.unique hholds.lastApplied
      have hagreed := hdepicts.lastApplied
      rw [hsame] at hagreed
      exact (h.down hview hholds).of_take (hagreed.take_steps hsteps hrel.inv)
  · exact (h.frames packet hpacket request hrequest).grow hext

/-- A node comes up as the replica that its store was. -/
theorem Saved.loaded {state : PersistedRaftState} (h : Saved A n store state.snapshotIndex state.lastApplied)
    (hholds : Holds store state) (hdepicts : Depicts config A' n state)
    (hload : state.lastApplied ≤ max state.commitIndex state.snapshotIndex) :
    Replica A n (Local.loaded n config.peers store state).node.toLogState
      (Local.loaded n config.peers store state).node.toIncomingSnapshot := by
  have happlied : min (max state.lastApplied state.snapshotIndex)
      (min (max state.commitIndex state.snapshotIndex) (state.snapshotIndex + state.log.length)) = state.lastApplied := by
    have hlow := h.low
    have hlength := hdepicts.lastApplied.le_length
    rw [← hdepicts.length] at hlength
    omega
  refine ⟨?_, ?_, fun hactive => absurd (show false = true from hactive) (by simp)⟩
  · change Saved A n store state.snapshotIndex (min _ _)
    rw [happlied]
    exact h
  · change state.snapshotData = snapshotBytes ((A.log n).take state.snapshotIndex)
    rcases hholds.snapshot with ⟨-, -, hindex, -, hdata⟩ | ⟨-, hdata, hindex, -⟩
    · rw [hdata, hindex, List.take_zero]
      rfl
    · exact Option.some.inj (hdata.symm.trans (h.data hindex))

/-- A replica leaves its store behind. -/
theorem Replica.dies {i : IncomingSnapshot} {d : LogState} (h : Replica A n d i) (hmemory : Memory config A' n d)
    {state : PersistedRaftState} (hholds : Holds d.store state) :
    Saved A n d.store state.snapshotIndex state.lastApplied := by
  obtain ⟨-, c, a, data, hheld, -⟩ := hmemory
  rw [← h.saved.counted.unique hholds.lastApplied, ← hheld.snapshot.index_eq hholds.snapshot]
  exact h.saved

/-- It is enough to look at the node that has moved, and at what it has sent. -/
theorem Replicas.moved (h : Replicas w A) (hstep : World.Step config timely w n event w')
    (hview : (w'.views n).IsReplica A n)
    (hframes : ∀ c rpc s, event = some (.send c rpc s) → ∀ request, rpc.payload = .installSnapshot request →
      Pictured A request) : Replicas w' A := by
  refine ⟨fun m => ?_, fun packet hpacket request hrequest => ?_⟩
  · by_cases hm : m = n
    · exact hm ▸ hview
    · rw [hstep.views hm]
      exact h.views m
  · rw [hstep.history] at hpacket
    rcases mem_packets_moved hpacket with hpacket | ⟨-, s, hevent⟩
    · exact h.frames packet hpacket request hrequest
    · exact hframes _ _ _ hevent request hrequest

/-- The frames the loop may run on were sent. -/
theorem Replicas.pictures (h : Replicas w A) (hdue : w.Due timely n l action) : Pictures A action := by
  unfold Pictures
  split
  · exact h.frames _ hdue.1 _ rfl
  · trivial

/-- One move of a world, after its shadow has moved. -/
theorem Replicas.step (h : Replicas w A') (hrel : Related config A w) (hrel' : Related config A' w')
    (hlabelled : ∀ l, w.views n = .active l → l.Labelled) (hstep : World.Step config timely w n event w')
    (hunhurt : Unhurt w'.history) : Replicas w' A' := by
  have hmoved := h.moved hstep
  have hevent : ∀ e, event = some e → (n, e) ∈ w'.history := by
    rintro e rfl
    rw [hstep.history]
    exact List.mem_append_right _ List.mem_cons_self
  cases hstep with
  | start store state hview hmember hload =>
    obtain ⟨held, hholds, hdepicts⟩ := hrel.down n store hview
    obtain ⟨rfl, -⟩ := hholds.load_eq_ok.mp hload
    refine hmoved ?_ (by simp)
    rw [World.moved_views_self]
    exact (h.down hview hholds).loaded hholds hdepicts (hunhurt.loads n state (hevent _ rfl))
  | die l hview =>
    refine hmoved ?_ (by simp)
    rw [World.moved_views_self]
    exact fun state hholds => (h.active hview).dies (hrel.active n l hview).memory hholds
  | connect peer serial l hview =>
    refine hmoved ?_ (by simp)
    change ((w.moved n _ none).views n).IsReplica A' n
    rw [World.moved_views_self]
    have hreplica := h.active hview
    exact hreplica
  | accept connection l hview =>
    refine hmoved ?_ (by simp)
    change ((w.moved n _ none).views n).IsReplica A' n
    rw [World.moved_views_self]
    have hreplica := h.active hview
    exact hreplica
  | micro action l l' _ hview hdue hmicro =>
    have hnode := hrel'.active n l' (World.moved_views_self ..)
    have happlicable : ∀ index, event ≠ some (.refuseApply index) := fun index hrefuse =>
      hunhurt.applicable n index (hevent _ hrefuse)
    have hreplica := (h.active hview).step hnode hrel'.inv (h.pictures hdue) (hlabelled l hview) hmicro happlicable
    refine hmoved ?_ ?_
    · rw [World.moved_views_self]
      exact hreplica
    · rintro c rpc s rfl request hrequest
      obtain ⟨hchunk, hsame⟩ := hmicro.sends_chunk hrequest
      exact hreplica.pictured hrel'.inv hnode hchunk hsame

/-- All nodes are replicas, in every run in which no command is refused and nothing is undone by a restart. -/
theorem Tracked.replicas (h : Tracked config timely w A) (hunhurt : Unhurt w.history) : Replicas w A := by
  refine h.invariant (I := fun w A => Unhurt w.history → Replicas w A) ?_ ?_ hunhurt
  · intro _
    refine ⟨fun n state hholds => ?_, fun packet hpacket => ?_⟩
    · have happlied : state.lastApplied = 0 := hholds.lastApplied.unique (Holds.empty).lastApplied
      have hindex : state.snapshotIndex = 0 := hholds.snapshot.index_eq (Holds.empty).snapshot
      rw [happlied, hindex]
      refine ⟨le_rfl, .inr ⟨rfl, rfl⟩, ?_, fun hne => absurd rfl hne⟩
      rw [List.take_zero]
      exact .nil
    · exact absurd hpacket (by simp [World.initial, Cluster.world, Cluster.initial, packets])
  · intro w w' A A' n event htracked htracked' hstep hsteps _ ih hunhurt
    have hbefore : Unhurt w.history := Unhurt.of_append (hstep.history ▸ hunhurt)
    have hlabelled : ∀ l, w.views n = .active l → l.Labelled := fun l hview =>
      htracked.labelled (hbefore.applicable n) hview
    exact ((ih hbefore).shadow htracked.related hsteps).step htracked.related htracked'.related hlabelled hstep hunhurt

/-! ### Nothing is refused -/

/-- All committed commands can be applied. -/
def Applicable (history : List (Int × Event)) : Prop := ∀ L, CommittedLog history L → Compatible L

omit [Protobuf] in
/-- No node comes up with less committed than it has applied. -/
def NothingUndone (history : List (Int × Event)) : Prop :=
  ∀ n state, (n, .loadState state) ∈ history → state.lastApplied ≤ max state.commitIndex state.snapshotIndex

/-- A replica accepts the next command of a log that can be applied. -/
theorem Replica.accepts {d : LogState} {i : IncomingSnapshot} (h : Replica A n d i) {entry : RaftLogEntry}
    (hentry : (A.log n)[d.lastApplied]? = some entry) (hcompatible : Compatible ((A.log n).take (d.lastApplied + 1)))
    (index commitIndex : Nat) : ∃ command batch, Protobuf.command.parse entry.command = some command ∧
      CommandApplier.applyAtomically d.store command index commitIndex = .ok batch := by
  obtain ⟨result, hresult⟩ := hcompatible.replay
  rw [List.take_add_one, hentry] at hresult
  obtain ⟨before, command, batch, hbefore, hparse, hbatch, -⟩ := replay_append_eq_some.mp hresult
  obtain ⟨result, hresult, hagrees⟩ := h.saved.folds
  obtain rfl := Option.some.inj (hresult.symm.trans hbefore)
  obtain ⟨batch', hbatch', -⟩ := hagrees.applied hbatch index commitIndex
  exact ⟨command, batch', hparse, hbatch'⟩

/-- A command that is refused is committed, and the store refuses it. -/
theorem Micro.refuses {index : Nat} (h : Micro action l (some (.refuseApply index)) l') :
    l.node.lastApplied < l.node.commitIndex ∧ ∃ entry, l.node.entryAt (l.node.lastApplied + 1) = .ok entry ∧
      ∀ command, Protobuf.command.parse entry.command = some command → ∃ x, CommandApplier.applyAtomically l.node.store
        command (l.node.lastApplied + 1) l.node.commitIndex = .error x := by
  rcases h with h | h | h | h | h | h | h | h | h <;> cases h
  case apply.refuse => exact ⟨‹_›, _, ‹_›, ‹_›⟩

/-- A step refuses no command of a log that can be applied. -/
theorem Unhurt.step (h : Unhurt w.history) (htracked : Tracked config timely w A)
    (hstep : World.Step config timely w n event w') (hkept : NothingUndone w'.history)
    (hcompatible : ∀ l, w.views n = .active l → l.node.lastApplied < l.node.commitIndex →
      Compatible ((A.log n).take (l.node.lastApplied + 1))) : Unhurt w'.history := by
  refine ⟨fun m index hmem => ?_, hkept⟩
  rcases hstep.history_cases hmem with hold | ⟨rfl, rfl⟩
  · exact h.applicable m index hold
  · rcases hstep.event with ⟨_, _, -, -, hload, -⟩ | ⟨action, l, l', hview, -, -, hmicro⟩
    · cases hload
    · obtain ⟨hlt, entry, hentry, hrefused⟩ := hmicro.refuses
      have hread := ((Memory.shows (htracked.related.active m l hview).memory).entryAt.mp hentry).2
      obtain ⟨command, batch, hparse, hbatch⟩ := ((htracked.replicas h).active hview).accepts hread
        (hcompatible l hview hlt) (l.node.lastApplied + 1) l.node.commitIndex
      obtain ⟨x, herror⟩ := hrefused command hparse
      cases hbatch.symm.trans herror

omit [Protobuf] in
theorem Unhurt.initial : Unhurt World.initial.history :=
  ⟨fun _ _ hmem => absurd hmem (by simp [World.initial, Cluster.world, Cluster.initial]),
    fun _ _ hmem => absurd hmem (by simp [World.initial, Cluster.world, Cluster.initial])⟩

/-- When all committed commands can be applied, none is refused. -/
theorem Tracked.unhurt (h : Tracked config timely w A) (happlicable : Applicable w.history)
    (hkept : NothingUndone w.history) : Unhurt w.history := by
  refine h.invariant (I := fun w _ => Applicable w.history → NothingUndone w.history → Unhurt w.history)
    (fun _ _ => .initial) ?_ happlicable hkept
  intro w w' A A' n event htracked _ hstep _ _ ih happlicable hkept
  have happlicable' : Applicable w.history := fun L hL => happlicable L (by rw [hstep.history]; exact hL.append _)
  have hbefore : Unhurt w.history := by
    refine ih happlicable' fun m state hmem => hkept m state ?_
    rw [hstep.history]
    exact List.mem_append_left _ hmem
  refine hbefore.step htracked hstep hkept fun l hview hlt => happlicable' _ ?_
  -- the next entry of the node is the next one of a committed log
  have hbacked := htracked.backed.1 n
  rw [hview] at hbacked
  have hagreed := (htracked.related.active n l hview).memory.depicts.commitIndex
  exact htracked.committedLog (hbacked.commit.mono hlt) (hagreed.mono le_rfl hlt)

end Replicas

namespace Cluster

section Statement

variable [Protobuf] {config : Config} {cluster : Cluster}

/-- Provided that all committed commands can be applied and that no node has come up with less committed than it had
applied, the user entries of a running node and its records of requests are those that the committed commands up to
`last_applied_` leave, each applied once and in order. They are the same on all nodes that have applied as much. -/
theorem replica_folds (h : Reachable config cluster) (happlicable : Applicable cluster.history)
    (hkept : NothingUndone cluster.history) {n : Int} {node : RaftNode} (hnode : cluster.nodes n = .running node) :
    (∃ L commands, L.length = node.lastApplied ∧ CommittedLog cluster.history L ∧
      (∀ L', CommittedLog cluster.history L' → L'.length = node.lastApplied → L' = L) ∧
      L.map RaftLogEntry.parsed = commands.map some ∧
      (∀ key, RocksKVStore.isReserved key = false → node.store.get key = userEntries commands key) ∧
      ∀ key value, startsWith clientPath key = true →
        (node.store.get key = some value ↔ ∃ command ∈ effective commands, command.requestId ≠ 0 ∧
          key = CommandApplier.requestKey command ∧ value = Protobuf.command.serialize command)) ∧
    ∀ m other, cluster.nodes m = .running other → other.lastApplied = node.lastApplied →
      other.store.getAllUserEntries = node.store.getAllUserEntries ∧
        other.store.getAllPrefixedEntries clientPath = node.store.getAllPrefixedEntries clientPath := by
  obtain ⟨A, hA⟩ := h.reach.tracked
  have hreplicas := hA.replicas (hA.unhurt happlicable hkept)
  -- a running node folds a committed log
  have hfolds : ∀ m other, cluster.nodes m = .running other →
      ∃ L, L.length = other.lastApplied ∧ CommittedLog cluster.history L ∧ Folds L other.store := by
    intro m other hother
    have hview : cluster.world.views m = .active (.rest other) := congrArg Status.view hother
    have hagreed := (hA.related.active m _ hview).memory.depicts.lastApplied
    have hbacked := hA.backed.1 m
    rw [hview] at hbacked
    refine ⟨(A.log m).take other.lastApplied, ?_, hA.committedLog hbacked.applied hagreed,
      (hreplicas.active hview).saved.folds⟩
    rw [List.length_take]
    exact Nat.min_eq_left hagreed.le_length
  obtain ⟨L, hlength, hL, hfold⟩ := hfolds n node hnode
  obtain ⟨commands, hcommands, huser, hrecords⟩ := hfold.contents
  refine ⟨⟨L, commands, hlength, hL, fun L' hL' hlength' => ?_, hcommands, huser, hrecords⟩, fun m other hother hsame => ?_⟩
  · exact hA.committedLog_unique hL' hL (hlength'.trans hlength.symm)
  · obtain ⟨L', hlength', hL', hfold'⟩ := hfolds m other hother
    obtain rfl := hA.committedLog_unique hL' hL (by rw [hlength', hlength, hsame])
    have hagrees := hfold.agrees hfold'
    exact ⟨hagrees.getAllUserEntries_eq, hagrees.getAllPrefixedEntries_eq⟩

/-- The committed commands can be read off a node that has all of them in its log. -/
theorem applicable_of_log (h : Reachable config cluster) {n : Int} {node : RaftNode} (hnode : cluster.nodes n = .running node)
    (hsnapshot : node.snapshotIndex = 0)
    (hall : ∀ m s, (m, .advanceCommit s) ∈ cluster.history → s.commitIndex ≤ node.commitIndex)
    (hcompatible : Compatible (node.log.take node.commitIndex)) : Applicable cluster.history := by
  obtain ⟨A, hA⟩ := h.reach.tracked
  have hview : cluster.world.views n = .active (.rest node) := congrArg Status.view hnode
  have hdepicts := (hA.related.active n _ hview).memory.depicts
  have hlog : node.log = A.log n := by
    have hlog : node.log = (A.log n).drop node.snapshotIndex := hdepicts.log
    rw [hlog, hsnapshot, List.drop_zero]
  intro L hL
  obtain ⟨t, hagreed⟩ := hA.agreed hL
  have hlength : L.length ≤ node.commitIndex := by
    rcases hL with rfl | ⟨m, s, C, hmem, hlineage, hC⟩
    · exact Nat.zero_le _
    · exact (hC.length_le.trans (hA.lineage_eq hlineage).2.le).trans (hall m s hmem)
  have htake := hagreed.unique hA.inv hdepicts.commitIndex hlength
  rw [List.take_length, ← hlog] at htake
  refine hcompatible.initial ?_
  rw [htake]
  exact List.take_prefix_take_left hlength

end Statement

/-! ### Two runs -/

/-- All leaders of a history have committed at most `bound` entries. -/
def commitsUpTo (bound : Nat) (history : List (Int × Event)) : Bool :=
  history.all fun
    | (_, .advanceCommit s) => s.commitIndex ≤ bound
    | _ => true

theorem le_of_commitsUpTo {bound : Nat} {history : List (Int × Event)} (h : commitsUpTo bound history = true) (m : Int)
    (s : RaftNode) (hmem : (m, .advanceCommit s) ∈ history) : s.commitIndex ≤ bound := by
  have htest := List.all_eq_true.mp h _ hmem
  simpa using htest

/-- Whether a history is as `NothingUndone` asks. -/
def nothingUndone (history : List (Int × Event)) : Bool :=
  history.all fun
    | (_, .loadState state) => state.lastApplied ≤ max state.commitIndex state.snapshotIndex
    | _ => true

theorem nothingUndone_of_test {history : List (Int × Event)} (h : nothingUndone history = true) : NothingUndone history := by
  intro n state hmem
  have htest := List.all_eq_true.mp h _ hmem
  simpa using htest

/-- Node 1 commits two commands with node 2, which does not learn of it. Elected, node 2 takes the commitment back, and
node 1 restarts. The next command that node 2 commits has node 1 apply all three. -/
def replayed : List Move :=
  [.act (.run 1 .start), .act (.run 2 .start), .act (.run 1 (.connect 2 0)), .act (.run 2 (.accept ⟨1, 2, 0⟩)),
    .act (.run 1 .electionTimeout), .deliver 1, .deliver 2,
    .act (.run 1 (.submit ⟨0, ⟨.put, 1, 0, [107], [118]⟩⟩)), .act (.run 1 (.submit ⟨1, ⟨.put, 1, 1, [107], [119]⟩⟩)),
    .deliver 3, .deliver 4, .act (.run 1 .heartbeatTimeout), .deliver 5, .deliver 6,
    .act (.run 3 .start), .act (.run 2 (.connect 3 0)), .act (.run 3 (.accept ⟨2, 3, 0⟩)),
    .act (.run 2 .electionTimeout), .deliver 9, .deliver 10, .deliver 11, .deliver 13,
    .act (.kill 1), .act (.run 1 .start), .act (.run 1 (.connect 2 1)), .act (.run 2 (.accept ⟨1, 2, 1⟩)), .deliver 14,
    .act (.run 2 (.submit ⟨0, ⟨.put, 1, 2, [108], [118]⟩⟩)), .deliver 15, .deliver 16,
    .act (.run 2 .heartbeatTimeout), .deliver 17, .deliver 18, .act (.run 2 .heartbeatTimeout), .deliver 19]

/-- The first command, which has no request id, is applied a second time after the second one, which is skipped: both
nodes have applied the same three commands, and have different values for the key. -/
theorem replicas_diverge : ∃ cluster a b, @Reachable Wire.protobuf trio cluster ∧ @Applicable Wire.protobuf cluster.history ∧
    cluster.nodes 1 = .running a ∧ cluster.nodes 2 = .running b ∧ a.lastApplied = 3 ∧ b.lastApplied = 3 ∧
    a.store.get [107] = some [118] ∧ b.store.get [107] = some [119] := by
  obtain ⟨cluster, hrun, htest⟩ := @run_of_play Wire.protobuf trio (fun _ _ => True) _ replayed
    (fun cluster => (cluster.nodes 1).runs fun a => (cluster.nodes 2).runs fun b =>
      a.lastApplied == 3 && b.lastApplied == 3 && a.store.get [107] == some [118] &&
      b.store.get [107] == some [119] && b.snapshotIndex == 0 && commitsUpTo b.commitIndex cluster.history &&
      @decide (@Compatible Wire.protobuf (b.log.take b.commitIndex)) (@instDecidableCompatible Wire.protobuf _))
    (by decide +kernel)
  obtain ⟨a, ha, htest⟩ := Status.exists_of_runs htest
  obtain ⟨b, hb, htest⟩ := Status.exists_of_runs htest
  simp only [Bool.and_eq_true, beq_iff_eq, decide_eq_true_eq] at htest
  obtain ⟨⟨⟨⟨⟨⟨happlied, happlied'⟩, hvalue⟩, hvalue'⟩, hsnapshot⟩, hall⟩, hcompatible⟩ := htest
  have happlicable := @applicable_of_log Wire.protobuf trio cluster hrun 2 b hb hsnapshot (le_of_commitsUpTo hall)
    hcompatible
  exact ⟨cluster, a, b, hrun, happlicable, ha, hb, happlied, happlied', hvalue, hvalue'⟩

theorem replica_folds_handover : ∃ cluster node L, @Reachable Wire.protobuf trio cluster ∧
    cluster.nodes 2 = .running node ∧ node.lastApplied = 1 ∧ CommittedLog cluster.history L ∧ L.length = 1 ∧
    ∃ commands, L.map (@RaftLogEntry.parsed Wire.protobuf) = commands.map some ∧
      node.store.get [107] = userEntries commands [107] := by
  obtain ⟨cluster, hrun, htest⟩ := @run_of_play Wire.protobuf trio (fun _ _ => True) _ handover
    (fun cluster => (cluster.nodes 2).runs fun node => node.lastApplied == 1 && node.snapshotIndex == 0 &&
      commitsUpTo node.commitIndex cluster.history && nothingUndone cluster.history &&
      @decide (@Compatible Wire.protobuf (node.log.take node.commitIndex)) (@instDecidableCompatible Wire.protobuf _))
    (by decide +kernel)
  obtain ⟨node, hnode, htest⟩ := Status.exists_of_runs htest
  simp only [Bool.and_eq_true, beq_iff_eq, decide_eq_true_eq] at htest
  obtain ⟨⟨⟨⟨happlied, hsnapshot⟩, hall⟩, hkept⟩, hcompatible⟩ := htest
  have happlicable := @applicable_of_log Wire.protobuf trio cluster hrun 2 node hnode hsnapshot
    (le_of_commitsUpTo hall) hcompatible
  obtain ⟨⟨L, commands, hlength, hL, -, hcommands, huser, -⟩, -⟩ := @replica_folds Wire.protobuf trio cluster hrun
    happlicable (nothingUndone_of_test hkept) 2 node hnode
  exact ⟨cluster, node, L, hrun, hnode, happlied, hL, hlength.trans happlied, commands, hcommands,
    huser [107] (by decide)⟩

end Cluster

end Nukv
