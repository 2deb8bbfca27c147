import Nukv.Proof.Durable
import Nukv.Property.AppendEntries

/-!
# Compaction is invisible

`CreateSnapshotIfNeeded` moves the origin of the log. What the rest of the code can see of a node does not change: its
term and its vote, where its log ends and with which term, the terms and the entries from the commit index on, the user
entries and the records of requests. The relation is stated once, for two nodes. It holds between the node before and
the node after, and between the two nodes that come up from the store before and after the write.
-/

namespace Nukv

open Base

/-- The two nodes cannot be told apart from `index` on. -/
structure RaftNode.Indistinguishable (index : Nat) (node node' : RaftNode) : Prop where
  currentTerm : node'.currentTerm = node.currentTerm
  votedFor : node'.votedFor = node.votedFor
  lastIndex : node'.lastIndex = node.lastIndex
  lastTerm : node'.lastTerm = node.lastTerm
  termAt : ∀ m, index ≤ m → node'.termAt m = node.termAt m
  entryAt : ∀ m, index < m → node'.entryAt m = node.entryAt m
  store : node.store.Agrees node'.store

namespace RaftNode.Indistinguishable

variable {index : Nat} {node node' node'' : RaftNode}

theorem refl (node : RaftNode) : Indistinguishable index node node :=
  ⟨rfl, rfl, rfl, rfl, fun _ _ => rfl, fun _ _ => rfl, .refl _⟩

theorem symm (h : Indistinguishable index node node') : Indistinguishable index node' node :=
  ⟨h.currentTerm.symm, h.votedFor.symm, h.lastIndex.symm, h.lastTerm.symm, fun m hm => (h.termAt m hm).symm,
    fun m hm => (h.entryAt m hm).symm, h.store.symm⟩

theorem trans (h : Indistinguishable index node node') (h' : Indistinguishable index node' node'') :
    Indistinguishable index node node'' :=
  ⟨h'.currentTerm.trans h.currentTerm, h'.votedFor.trans h.votedFor, h'.lastIndex.trans h.lastIndex,
    h'.lastTerm.trans h.lastTerm, fun m hm => (h'.termAt m hm).trans (h.termAt m hm),
    fun m hm => (h'.entryAt m hm).trans (h.entryAt m hm), h.store.trans h'.store⟩

/-- Both grant a vote or none does, in the term they have and in any other they could adopt. -/
theorem grantsVote (h : Indistinguishable index node node') (term : Nat) (vote : Int)
    (request : Proto.RequestVoteRequest) :
    NodeM.grantsVote { node' with currentTerm := term, votedFor := vote } request =
      NodeM.grantsVote { node with currentTerm := term, votedFor := vote } request := by
  have hlast : node'.isCandidateLogUpToDate request.lastLogIndex request.lastLogTerm =
      node.isCandidateLogUpToDate request.lastLogIndex request.lastLogTerm := by
    unfold isCandidateLogUpToDate
    rw [h.lastIndex, h.lastTerm]
  exact congrArg (_ && ·) hlast

end RaftNode.Indistinguishable

theorem RaftNode.lastTerm_eq (node : RaftNode) : node.lastTerm = node.termAt node.lastIndex := by
  unfold lastTerm lastIndex
  rcases List.eq_nil_or_concat node.log with hnil | ⟨rest, entry, hlog⟩
  · rw [hnil]
    exact (node.termAt_snapshot).symm
  · have hentry : node.log[rest.length]? = some entry := by simp [hlog]
    rw [show node.snapshotIndex + node.log.length = node.snapshotIndex + rest.length + 1 by simp [hlog]; omega,
      node.termAt_of_entry hentry]
    simp [hlog]

variable [Protobuf] {node node' : RaftNode}

theorem RaftNode.compacted_indistinguishable (hlow : node.snapshotIndex ≤ node.commitIndex)
    (hhigh : node.commitIndex ≤ node.lastIndex) : Indistinguishable node.commitIndex node node.compacted := by
  have hterm : ∀ m, node.commitIndex ≤ m → node.compacted.termAt m = node.termAt m := fun m hm =>
    termAt_compact hlow rfl rfl rfl hm
  have hlast : node.compacted.lastIndex = node.lastIndex := lastIndex_compact hlow hhigh rfl rfl
  refine ⟨rfl, rfl, hlast, ?_, hterm, fun m hm => entryAt_compact hlow rfl rfl hm, node.compacted_agrees⟩
  rw [lastTerm_eq, lastTerm_eq, hlast, hterm _ hhigh]

omit [Protobuf] in
theorem RaftNode.Indistinguishable.facing {index : Nat} (h : Indistinguishable index node node') (faults : List Bool) :
    Indistinguishable index node (node'.facing faults) :=
  ⟨h.currentTerm, h.votedFor, h.lastIndex, h.lastTerm, h.termAt, h.entryAt, h.store⟩

/-! ### Coming up again -/

/-- The node that `LoadState` makes of a store, before it applies anything. -/
def reloaded (node : RaftNode) : Option RaftNode :=
  match RaftStorage.load node.store with
  | .ok state => some ((RaftNode.create node.serverId node.peers node.store).loaded state)
  | .error _ => none

theorem reloaded_eq_some : reloaded node = some node' ↔ ∃ state, RaftStorage.load node.store = .ok state ∧
    (RaftNode.create node.serverId node.peers node.store).loaded state = node' := by
  unfold reloaded
  cases RaftStorage.load node.store with
  | ok state => simp
  | error x => simp

omit [Protobuf] in
theorem RocksKVStore.get_facing (store : RocksKVStore) (faults : List Bool) (key : Bytes) :
    (store.facing faults).get key = store.get key := rfl

/-- Loading does not depend on the writes to come. -/
theorem load_facing (store : RocksKVStore) (faults : List Bool) :
    RaftStorage.load (store.facing faults) = RaftStorage.load store := by
  have hlog : ∀ fuel index, RaftStorage.loadLog (store.facing faults) fuel index = RaftStorage.loadLog store fuel index := by
    intro fuel
    induction fuel with
    | zero => exact fun _ => rfl
    | succ fuel ih =>
      intro index
      simp only [RaftStorage.loadLog, RocksKVStore.get_facing, ih]
  unfold RaftStorage.load
  simp only [RocksKVStore.get_facing, hlog]
  rfl

/-- Nor does what compaction leaves. -/
theorem RaftNode.compacted_facing (node : RaftNode) (faults : List Bool) :
    (node.facing faults).compacted = node.compacted := by
  have hstale : ∀ fuel index, RaftStorage.staleLogKeys (node.store.facing faults) fuel index =
      RaftStorage.staleLogKeys node.store fuel index := by
    intro fuel
    induction fuel with
    | zero => exact fun _ => rfl
    | succ fuel ih =>
      intro index
      simp only [RaftStorage.staleLogKeys, RocksKVStore.get_facing, ih]
  have hobsolete : ∀ index length, RaftStorage.obsoleteLogKeys (node.store.facing faults) index length =
      RaftStorage.obsoleteLogKeys node.store index length := fun _ _ => congrArg (_ ++ ·) (hstale _ _)
  unfold compacted RaftStorage.persistSnapshot
  change { node with store := _, snapshotIndex := _, snapshotTerm := _, snapshotData := _, log := _ } = _
  rw [show (node.facing faults).store = node.store.facing faults from rfl, hobsolete]
  rfl

/-- The store has the term, the vote and the log of the node, and the index and the term of its snapshot. -/
def RaftNode.Stored (node : RaftNode) (c a : Nat) (data : Bytes) : Prop :=
  Holds (node.store.facing []) ⟨node.currentTerm, node.votedFor, c, a, node.snapshotIndex, node.snapshotTerm, data, node.log⟩

/-- Then it comes up as that node. -/
theorem RaftNode.Stored.reloaded_eq_some {c a : Nat} {data : Bytes} (h : node.Stored c a data) :
    reloaded node = some node' ↔ PersistedRaftState.Representable ⟨node.currentTerm, node.votedFor, c, a,
        node.snapshotIndex, node.snapshotTerm, data, node.log⟩ ∧
      (create node.serverId node.peers node.store).loaded ⟨node.currentTerm, node.votedFor, c, a, node.snapshotIndex,
        node.snapshotTerm, data, node.log⟩ = node' := by
  rw [Nukv.reloaded_eq_some, ← load_facing node.store []]
  constructor
  · rintro ⟨state, hload, rfl⟩
    obtain ⟨rfl, hfits⟩ := h.load_eq_ok.mp hload
    exact ⟨hfits, rfl⟩
  · rintro ⟨hfits, rfl⟩
    exact ⟨_, h.load_eq_ok.mpr ⟨rfl, hfits⟩, rfl⟩

theorem RaftNode.Stored.reloaded {c a : Nat} {data : Bytes} (h : node.Stored c a data) (hnode' : reloaded node = some node')
    (index : Nat) : Indistinguishable index node node' := by
  obtain ⟨-, rfl⟩ := h.reloaded_eq_some.mp hnode'
  exact ⟨rfl, rfl, rfl, rfl, fun _ _ => rfl, fun _ _ => rfl, .refl _⟩

/-- The compacted node is stored. -/
theorem RaftNode.Stored.compacted {c a : Nat} {data : Bytes} (h : node.Stored c a data) (hmany : ¬ node.Compact)
    (hterm : node.termAt node.commitIndex ≠ 0) :
    node.compacted.Stored node.commitIndex node.lastApplied node.captured := by
  have hlow : node.snapshotIndex + kSnapshotThreshold ≤ node.commitIndex := by
    simp only [Compact, not_or, not_le, not_lt] at hmany
    omega
  have hholds := @compacted_holds _ (node.facing []) _ _ _ _ _ _ h hlow hterm
  rw [compacted_facing] at hholds
  have hfaults : node.compacted.store.faults = [] := rfl
  unfold Stored
  rw [RocksKVStore.facing_faults hfaults]
  exact hholds

theorem RaftNode.Stored.facing {c a : Nat} {data : Bytes} (h : node.Stored c a data) (faults : List Bool) :
    (node.facing faults).Stored c a data := h

/-- Two nodes that cannot be told apart come up as nodes that cannot be told apart. The one with the shorter log can be
loaded if the other can. -/
theorem RaftNode.Stored.reloads {c a c' a' index : Nat} {data data' : Bytes} {before : RaftNode}
    (h : node.Stored c a data) (h' : node'.Stored c' a' data') (hsame : Indistinguishable index node node')
    (hshorter : node.snapshotIndex ≤ node'.snapshotIndex)
    (hcounters : c < 2 ^ 64 → a < 2 ^ 64 → c' < 2 ^ 64 ∧ a' < 2 ^ 64) (hbefore : Nukv.reloaded node = some before) :
    ∃ after, Nukv.reloaded node' = some after ∧ Indistinguishable index before after := by
  obtain ⟨⟨hterm, hvote, hc, ha, hlog⟩, -⟩ := h.reloaded_eq_some.mp hbefore
  obtain ⟨hc', ha'⟩ := hcounters hc ha
  have hafter := h'.reloaded_eq_some.mpr ⟨⟨hsame.currentTerm ▸ hterm, hsame.votedFor ▸ hvote, hc', ha', fun i hi => ?_⟩, rfl⟩
  · exact ⟨_, hafter, ((h.reloaded hbefore index).symm.trans hsame).trans (h'.reloaded hafter index)⟩
  · -- an entry that is still there has the index it had before
    change i < node'.log.length at hi
    change node'.snapshotIndex + (i + 1) ≠ 2 ^ 64 - 1
    have hlast : node'.snapshotIndex + node'.log.length = node.snapshotIndex + node.log.length := hsame.lastIndex
    have hindex := hlog (node'.snapshotIndex + i - node.snapshotIndex) (show _ < node.log.length by omega)
    change node.snapshotIndex + (node'.snapshotIndex + i - node.snapshotIndex + 1) ≠ 2 ^ 64 - 1 at hindex
    omega

/-- Compaction is invisible, in memory and in the store, and happens as a whole or not at all. -/
theorem createSnapshotIfNeeded_invisible (hlow : node.snapshotIndex ≤ node.lastApplied)
    (happlied : node.lastApplied = node.commitIndex) (hhigh : node.commitIndex ≤ node.lastIndex)
    {result : Except Exn Unit} {events : List Event}
    (hrun : NodeM.createSnapshotIfNeeded node = (result, node', events)) :
    RaftNode.Indistinguishable node.commitIndex node node' ∧
      (∀ term vote request, NodeM.grantsVote { node' with currentTerm := term, votedFor := vote } request =
        NodeM.grantsVote { node with currentTerm := term, votedFor := vote } request) ∧
      (∀ x, result = .error x → (∃ faults, node' = node.facing faults) ∧ node'.snapshotInProgress = false) ∧
      ∀ c a data, node.Stored c a data → node.commitIndex < 2 ^ 64 → ∀ before, reloaded node = some before →
        ∃ after, reloaded node' = some after ∧ RaftNode.Indistinguishable node.commitIndex before after := by
  have hle : node.snapshotIndex ≤ node.commitIndex := happlied ▸ hlow
  have hend := (@ends_createSnapshotIfNeeded _ [] node).run
  rw [hrun] at hend
  -- either nothing has changed, or the node is compacted
  have hcases : (∃ faults, node' = node.facing faults) ∧ (∀ x, result = .error x → node.snapshotInProgress = false) ∨
      (∀ x, result ≠ .error x) ∧ ¬ node.Compact ∧ node.termAt node.commitIndex ≠ 0 ∧
        ∃ faults, node' = node.compacted.facing faults := by
    cases result with
    | error x =>
      obtain ⟨-, hmany, -, hsame⟩ := hend
      refine .inl ⟨hsame, fun _ _ => ?_⟩
      rw [← Bool.not_eq_true]
      exact fun hbusy => hmany (.inl hbusy)
    | ok =>
      obtain ⟨-, ⟨-, rfl⟩ | ⟨hmany, -, hterm, faults, -, rfl⟩⟩ := hend
      · exact .inl ⟨⟨_, (RaftNode.facing_faults rfl).symm⟩, nofun⟩
      · exact .inr ⟨nofun, hmany, hterm, faults, rfl⟩
  rcases hcases with ⟨⟨faults, rfl⟩, hidle⟩ | ⟨hok, hmany, hterm, faults, rfl⟩
  · have hsame := (@RaftNode.Indistinguishable.refl node.commitIndex node).facing faults
    refine ⟨hsame, hsame.grantsVote, fun x hx => ⟨⟨faults, rfl⟩, hidle x hx⟩, ?_⟩
    intro c a data hstored _ before hbefore
    exact hstored.reloads (hstored.facing faults) hsame le_rfl And.intro hbefore
  · have hsame := (RaftNode.compacted_indistinguishable hle hhigh).facing faults
    refine ⟨hsame, hsame.grantsVote, fun x hx => absurd hx (hok x), ?_⟩
    intro c a data hstored hfits before hbefore
    exact hstored.reloads ((hstored.compacted hmany hterm).facing faults) hsame hle
      (fun _ _ => ⟨hfits, happlied ▸ hfits⟩) hbefore

/-- A follower that has applied eight entries, and whose store has them and as many more as `count` says. -/
def progressed (count : Nat) : RaftNode :=
  @RaftNode.logSaved Wire.protobuf
    { followerWith 1 (8 + count) with commitIndex := 8, lastApplied := 8 }.stateSaved

omit [Protobuf] in
theorem createSnapshotIfNeeded_invisible_progressed : ∃ node' events before after,
    @NodeM.createSnapshotIfNeeded Wire.protobuf (progressed 1) = (.ok (), node', events) ∧ node'.snapshotIndex = 8 ∧
    RaftNode.Indistinguishable 8 (progressed 1) node' ∧ @reloaded Wire.protobuf (progressed 1) = some before ∧
    @reloaded Wire.protobuf node' = some after ∧ RaftNode.Indistinguishable 8 before after := by
  have hrun : (match @NodeM.createSnapshotIfNeeded Wire.protobuf (progressed 1) with
      | (.ok (), node', _) => decide (node'.snapshotIndex = 8)
      | (.error _, _, _) => false) = true := by decide +kernel
  have hstored : @RaftNode.Stored Wire.protobuf (progressed 1) 8 8 [] :=
    @Holds.persistLog Wire.protobuf _ _
      (@Holds.persistState Wire.protobuf _ _ (@Holds.empty Wire.protobuf) 1 8 8 0 0 (-1)) (List.replicate 9 (putEntry 1))
  have hloads : (@reloaded Wire.protobuf (progressed 1)).isSome = true := by decide +kernel
  split at hrun
  next node' events heq =>
    obtain ⟨before, hbefore⟩ := Option.isSome_iff_exists.mp hloads
    obtain ⟨hsame, -, -, hreloads⟩ := @createSnapshotIfNeeded_invisible Wire.protobuf (progressed 1) node'
      (by decide +kernel) rfl (by decide +kernel) _ _ heq
    obtain ⟨after, hafter, hcame⟩ := hreloads 8 8 [] hstored (by decide +kernel) before hbefore
    exact ⟨node', events, before, after, heq, of_decide_eq_true hrun, hsame, hbefore, hafter, hcame⟩
  next => cases hrun

/-- The same follower with one more entry in memory, which could not be written. -/
def unsaved : RaftNode := { progressed 0 with log := List.replicate 9 (putEntry 1) }

omit [Protobuf] in
/-- Compaction writes an entry that was not in the store before, so the store comes up with a longer log. -/
theorem createSnapshotIfNeeded_unsaved : ∃ node' events before after,
    unsaved.snapshotIndex ≤ unsaved.lastApplied ∧ unsaved.lastApplied = unsaved.commitIndex ∧
    unsaved.commitIndex ≤ unsaved.lastIndex ∧
    @NodeM.createSnapshotIfNeeded Wire.protobuf unsaved = (.ok (), node', events) ∧
    @reloaded Wire.protobuf unsaved = some before ∧ @reloaded Wire.protobuf node' = some after ∧
    before.lastIndex = 8 ∧ after.lastIndex = 9 := by
  have hreturns : (@NodeM.createSnapshotIfNeeded Wire.protobuf unsaved).1.isOk = true := by decide +kernel
  have hshort : (@reloaded Wire.protobuf unsaved).map RaftNode.lastIndex = some 8 := by decide +kernel
  have hlong : (@reloaded Wire.protobuf (@NodeM.createSnapshotIfNeeded Wire.protobuf unsaved).2.1).map
      RaftNode.lastIndex = some 9 := by decide +kernel
  obtain ⟨⟨result, node', events⟩, hrun⟩ : ∃ outcome,
      @NodeM.createSnapshotIfNeeded Wire.protobuf unsaved = outcome := ⟨_, rfl⟩
  rw [hrun] at hreturns hlong
  obtain ⟨before, hbefore, height⟩ := Option.map_eq_some_iff.mp hshort
  obtain ⟨after, hafter, hnine⟩ := Option.map_eq_some_iff.mp hlong
  cases result with
  | ok => exact ⟨node', events, before, after, by decide +kernel, rfl, by decide +kernel, hrun, hbefore, hafter, height, hnine⟩
  | error => cases hreturns

end Nukv
