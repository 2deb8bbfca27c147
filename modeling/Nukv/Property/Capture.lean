import Nukv.Model.Wire
import Nukv.Proof.Storage

/-!
# What a snapshot captures

A snapshot is taken from the store and written to bytes, and `ParseSnapshotState` has to accept it wherever it arrives,
first of all in the `Load` of its own node. The parser demands more of the keys than the store does: user keys must not
be reserved, a record must have a slash in it and no key may come twice. All writers of the store keep to keys that
satisfy this, so every snapshot of a store they have made is read back as it was.
-/

namespace Nukv

variable [Protobuf] {store : RocksKVStore}

/-- The stores that the functions of the program make out of an empty one, whatever their arguments are and whichever
writes fail. `ApplySnapshot` is given what `ParseSnapshotState` has accepted. -/
inductive RocksKVStore.Maintained : RocksKVStore → Prop
  | empty (faults : List Bool) : Maintained ⟨∅, faults⟩
  | applyAtomically {store : RocksKVStore} {command : Proto.Command} {logIndex commitIndex : Nat} {batch : WriteBatch} :
      Maintained store → CommandApplier.applyAtomically store command logIndex commitIndex = .ok batch →
        Maintained (store.writeAtomically batch).2
  | persistState {store : RocksKVStore} (t c a si st : Nat) (v : Int) :
      Maintained store → Maintained (store.writeAtomically (RaftStorage.persistState t v c a si st)).2
  | persistLog {store : RocksKVStore} (snapshotIndex : Nat) (log : List RaftLogEntry) :
      Maintained store → Maintained (store.writeAtomically (RaftStorage.persistLog store snapshotIndex log)).2
  | persistSnapshot {store : RocksKVStore} (t c a si st : Nat) (v : Int) (metadata data : Bytes)
      (log : List RaftLogEntry) : Maintained store →
        Maintained (store.writeAtomically (RaftStorage.persistSnapshot store t v c a si st metadata data log)).2
  | applySnapshot {store : RocksKVStore} {serialized : Bytes} {snapshot : SnapshotContents} (t c a si st : Nat) (v : Int)
      (log : List RaftLogEntry) : Maintained store → parseSnapshotState serialized = .ok snapshot →
        Maintained (store.writeAtomically (RaftStorage.applySnapshot store snapshot t v c a si st log)).2

omit [Protobuf] in
/-- A write that fails leaves the keys as they are. -/
theorem RocksKVStore.wellKeyed_writeAtomically {batch : WriteBatch} (h : ∀ key, store.get key ≠ none → WellKeyed key)
    (hputs : ∀ entry ∈ batch.puts, WellKeyed entry.1) :
    ∀ key, (store.writeAtomically batch).2.get key ≠ none → WellKeyed key := by
  unfold RocksKVStore.writeAtomically
  split
  · exact h
  · exact RocksKVStore.wellKeyed_written h hputs
  · exact RocksKVStore.wellKeyed_written h hputs

theorem RocksKVStore.Maintained.wellKeyed (h : store.Maintained) : ∀ key, store.get key ≠ none → WellKeyed key := by
  induction h with
  | empty faults => exact fun key hkey => absurd (by simp [RocksKVStore.get]) hkey
  | applyAtomically _ hbatch ih => exact wellKeyed_writeAtomically ih (CommandApplier.wellKeyed_applyAtomically hbatch)
  | persistState t c a si st v _ ih => exact wellKeyed_writeAtomically ih RaftStorage.wellKeyed_stateEntries
  | persistLog snapshotIndex log _ ih => exact wellKeyed_writeAtomically ih RaftStorage.wellKeyed_logEntries
  | persistSnapshot t c a si st v metadata data log _ ih =>
    exact wellKeyed_writeAtomically ih RaftStorage.wellKeyed_persistSnapshot
  | applySnapshot t c a si st v log _ hparse ih =>
    exact wellKeyed_writeAtomically ih (RaftStorage.wellKeyed_applySnapshot (.of_parse hparse))

omit [Protobuf] in
/-- The records with their path in front of them are the ones of the store. -/
theorem map_getAppliedRequests (store : RocksKVStore) :
    (RaftStorage.getAppliedRequests store).map (fun entry => (clientPath ++ entry.1, entry.2)) =
      store.getAllPrefixedEntries clientPath := by
  unfold RaftStorage.getAppliedRequests
  rw [List.map_map]
  refine (List.map_congr_left fun entry hentry => ?_).trans (List.map_id _)
  have hstart := (store.mem_getAllPrefixedEntries.mp hentry).2
  rw [startsWith, List.isPrefixOf_iff_prefix] at hstart
  exact Prod.ext (List.prefix_iff_eq_append.mp hstart) rfl

/-- A snapshot of a store that the program has made is read back as the two lists it was made of. They have every user
key and every dedup record of the store once and nothing else, and the records are found again under their keys. In the
other direction, what is read from accepted bytes is read again from its own serialization, and its user keys are
distinct and not reserved. -/
theorem snapshot_captured :
    (∀ store : RocksKVStore, store.Maintained →
      parseSnapshotState (serializeSnapshotState store.getAllUserEntries (RaftStorage.getAppliedRequests store)) =
        .ok ⟨store.getAllUserEntries, RaftStorage.getAppliedRequests store⟩ ∧
      (store.getAllUserEntries.map Prod.fst).Nodup ∧
      (∀ key value, (key, value) ∈ store.getAllUserEntries ↔
        store.get key = some value ∧ RocksKVStore.isReserved key = false) ∧
      ((RaftStorage.getAppliedRequests store).map Prod.fst).Nodup ∧
      (∀ key value, (key, value) ∈ RaftStorage.getAppliedRequests store ↔
        store.get (clientPath ++ key) = some value) ∧
      (RaftStorage.getAppliedRequests store).map (fun entry => (clientPath ++ entry.1, entry.2)) =
        store.getAllPrefixedEntries clientPath) ∧
    ∀ serialized contents, parseSnapshotState serialized = .ok contents →
      parseSnapshotState (serializeSnapshotState contents.entries contents.appliedRequests) = .ok contents ∧
      (contents.entries.map Prod.fst).Nodup ∧
      ∀ entry ∈ contents.entries, RocksKVStore.isReserved entry.1 = false := by
  constructor
  · intro store hstore
    have hwell := store.wellFormed_contents hstore.wellKeyed
    exact ⟨hwell.parse, hwell.entries_nodup, fun key value => store.mem_getAllUserEntries, hwell.requests_nodup,
      fun key value => mem_getAppliedRequests, map_getAppliedRequests store⟩
  · intro serialized contents hparse
    have hwell := SnapshotContents.WellFormed.of_parse hparse
    exact ⟨hwell.parse, hwell.entries_nodup, hwell.entries_free⟩

omit [Protobuf] in
/-- The snapshot of a store with a user key, its record and a counter. -/
theorem snapshot_captured_put : ∃ store : RocksKVStore, @RocksKVStore.Maintained Wire.protobuf store ∧
    @parseSnapshotState Wire.protobuf (@serializeSnapshotState Wire.protobuf store.getAllUserEntries
        (RaftStorage.getAppliedRequests store)) =
      .ok ⟨store.getAllUserEntries, RaftStorage.getAppliedRequests store⟩ ∧
    ([107], [118]) ∈ store.getAllUserEntries := by
  let put : Proto.Command := ⟨.put, 1, 1, [107], [118]⟩
  have hbatch : @CommandApplier.applyAtomically Wire.protobuf ⟨∅, []⟩ put 1 1 = .ok _ := rfl
  have hstore := @RocksKVStore.Maintained.applyAtomically Wire.protobuf _ _ _ _ _
    (@RocksKVStore.Maintained.empty Wire.protobuf []) hbatch
  obtain ⟨hparse, -, hentries, -⟩ := (@snapshot_captured Wire.protobuf).1 _ hstore
  refine ⟨_, hstore, hparse, (hentries _ _).mpr ⟨?_, by decide⟩⟩
  rw [RocksKVStore.writeAtomically_eq rfl, RocksKVStore.get_written]
  rfl

end Nukv
