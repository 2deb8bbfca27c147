import Nukv.Proof.Snapshot

/-!
# What the store holds

`Holds store state` says which Raft state the keys of a store stand for. The writers of `RaftStorage` and
`CommandApplier` take a store that holds a state to one that holds the state they are meant to write, and
whatever `Load` returns is the state that is held.
-/

namespace Nukv

/-! ### Counters -/

def ReadsNat (store : RocksKVStore) (key : Bytes) (n : Nat) : Prop :=
  store.get key = some (decimal n) ∨ store.get key = none ∧ n = 0

def ReadsInt (store : RocksKVStore) (key : Bytes) (i : Int) : Prop :=
  store.get key = some (decimalInt i) ∨ store.get key = none ∧ i = -1

/-- A stored number is read back, unless it does not fit a `uint64`. -/
theorem ReadsNat.parse_eq_ok {store : RocksKVStore} {key : Bytes} {n m : Nat} {name : String} (h : ReadsNat store key n) :
    parseUint64 (store.get key) name = .ok m ↔ m = n ∧ n < 2 ^ 64 := by
  rcases h with h | ⟨h, rfl⟩
  · rw [h, parseUint64, stoull_decimal]
    by_cases hn : 2 ^ 64 ≤ n
    · rw [if_pos hn]
      simp only [reduceCtorEq, false_iff, not_and, not_lt]
      exact fun _ => hn
    · rw [if_neg hn]
      simp only [ne_eq, not_true, if_false, Except.ok.injEq]
      omega
  · simp [h, parseUint64, eq_comm]

theorem ReadsInt.parse_eq_ok {store : RocksKVStore} {key : Bytes} {i j : Int} {name : String} (h : ReadsInt store key i) :
    parseInt64 (store.get key) name = .ok j ↔ j = i ∧ -2 ^ 63 ≤ i ∧ i < 2 ^ 63 := by
  rcases h with h | ⟨h, rfl⟩
  · rw [h, parseInt64, stoll_decimalInt]
    by_cases hi : i < -2 ^ 63 ∨ 2 ^ 63 ≤ i
    · rw [if_pos hi]
      simp only [reduceCtorEq, false_iff, not_and, not_lt]
      omega
    · rw [if_neg hi]
      simp only [ne_eq, not_true, if_false, Except.ok.injEq]
      omega
  · simp [h, parseInt64, eq_comm]

theorem ReadsNat.unique {store : RocksKVStore} {key : Bytes} {n m : Nat} (h : ReadsNat store key n)
    (h' : ReadsNat store key m) : n = m := by
  rcases h with h | ⟨h, rfl⟩ <;> rcases h' with h' | ⟨h', rfl⟩
  · exact decimal_injective (Option.some.inj (h.symm.trans h'))
  · exact nomatch h.symm.trans h'
  · exact nomatch h.symm.trans h'
  · rfl

/-- The store after a write that does not fail. -/
def RocksKVStore.written (store : RocksKVStore) (batch : WriteBatch) : RocksKVStore :=
  ⟨batch.applyTo store.data, []⟩

theorem RocksKVStore.writeAtomically_eq {store : RocksKVStore} (h : store.faults = []) (batch : WriteBatch) :
    store.writeAtomically batch = (.ok (), store.written batch) := by
  unfold RocksKVStore.writeAtomically
  rw [h]
  rfl

theorem RocksKVStore.get_written (store : RocksKVStore) (batch : WriteBatch) (key : Bytes) :
    (store.written batch).get key =
      (lastPut key batch.puts).or (if key ∈ batch.deletes then none else store.get key) :=
  batch.getElem?_applyTo store.data key

/-- A batch of well-placed keys keeps the keys of a store well-placed. -/
theorem RocksKVStore.wellKeyed_written {store : RocksKVStore} {batch : WriteBatch}
    (h : ∀ key, store.get key ≠ none → WellKeyed key) (hputs : ∀ entry ∈ batch.puts, WellKeyed entry.1) :
    ∀ key, (store.written batch).get key ≠ none → WellKeyed key := by
  intro key hkey
  rw [get_written] at hkey
  cases hput : lastPut key batch.puts with
  | some value => exact hputs _ (mem_of_lastPut hput)
  | none =>
    rw [hput, Option.none_or] at hkey
    split at hkey
    · exact absurd rfl hkey
    · exact h key hkey

namespace RaftStorage

theorem wellKeyed_stateEntries {t c a si st : Nat} {v : Int} : ∀ entry ∈ stateEntries t v c a si st, WellKeyed entry.1 := by
  intro entry hentry
  have hmem : entry.1 ∈ (stateEntries t v c a si st).map Prod.fst := List.mem_map_of_mem hentry
  exact wellKeyed_of_fixedKeys (List.mem_of_mem_take (show entry.1 ∈ fixedKeys.take 6 from hmem))

theorem wellKeyed_snapshotEntries {metadata data : Bytes} :
    ∀ entry ∈ [(snapshotMetadataKey, metadata), (snapshotDataKey, data)], WellKeyed entry.1 := by
  intro entry hentry
  have hmem : entry.1 ∈ [(snapshotMetadataKey, metadata), (snapshotDataKey, data)].map Prod.fst :=
    List.mem_map_of_mem hentry
  exact wellKeyed_of_fixedKeys (List.mem_of_mem_drop (show entry.1 ∈ fixedKeys.drop 6 from hmem))

theorem lastPut_stateEntries_of_not_mem {key : Bytes} (h : key ∉ fixedKeys) {t c a si st : Nat} {v : Int} :
    lastPut key (stateEntries t v c a si st) = none := by
  refine lastPut_eq_none fun entry hentry heq => h ?_
  rw [← heq]
  have hmem : entry.1 ∈ (stateEntries t v c a si st).map Prod.fst := List.mem_map_of_mem hentry
  exact List.mem_of_mem_take (show entry.1 ∈ fixedKeys.take 6 from hmem)

/-- The counters that `stateEntries` writes. -/
theorem lastPut_stateEntries (t c a si st : Nat) (v : Int) :
    lastPut currentTermKey (stateEntries t v c a si st) = some (decimal t) ∧
      lastPut votedForKey (stateEntries t v c a si st) = some (decimalInt v) ∧
      lastPut commitIndexKey (stateEntries t v c a si st) = some (decimal c) ∧
      lastPut lastAppliedKey (stateEntries t v c a si st) = some (decimal a) := by
  have hnodup : ((stateEntries t v c a si st).map Prod.fst).Nodup :=
    fixedKeys_nodup.sublist (List.take_sublist 6 fixedKeys)
  refine ⟨?_, ?_, ?_, ?_⟩ <;> exact lastPut_eq_some hnodup (by simp [stateEntries])

theorem lastPut_stateEntries_snapshot (t c a si st : Nat) (v : Int) :
    lastPut snapshotMetadataKey (stateEntries t v c a si st) = none ∧
      lastPut snapshotDataKey (stateEntries t v c a si st) = none := by
  constructor <;>
  · refine lastPut_eq_none fun entry hentry heq => ?_
    have hmem : entry.1 ∈ fixedKeys.take 6 := List.mem_map_of_mem (f := Prod.fst) hentry
    rw [heq] at hmem
    exact absurd hmem (by decide)

theorem startsWith_of_mem_staleLogKeys {store : RocksKVStore} {fuel start : Nat} {key : Bytes}
    (h : key ∈ staleLogKeys store fuel start) : startsWith logPath key = true := by
  induction fuel generalizing start with
  | zero => simp [staleLogKeys] at h
  | succ fuel ih =>
    rw [staleLogKeys] at h
    split at h
    · rcases List.mem_cons.mp h with rfl | h
      · exact startsWith_logKey start
      · exact ih h
    · simp at h

theorem startsWith_of_mem_obsoleteLogKeys {store : RocksKVStore} {snapshotIndex length : Nat} {key : Bytes}
    (h : key ∈ obsoleteLogKeys store snapshotIndex length) : startsWith logPath key = true := by
  rcases List.mem_append.mp h with h | h
  · obtain ⟨i, -, rfl⟩ := List.mem_map.mp h
    exact startsWith_logKey i
  · exact startsWith_of_mem_staleLogKeys h

/-- The entries that a snapshot writes besides the counters. -/
theorem lastPut_snapshotEntries (metadata data : Bytes) :
    lastPut snapshotMetadataKey [(snapshotMetadataKey, metadata), (snapshotDataKey, data)] = some metadata ∧
      lastPut snapshotDataKey [(snapshotMetadataKey, metadata), (snapshotDataKey, data)] = some data := by
  have hne : snapshotDataKey ≠ snapshotMetadataKey := by decide
  simp [lastPut, hne]

theorem lastPut_snapshotEntries_of_ne {key metadata data : Bytes}
    (h : key ∉ [snapshotMetadataKey, snapshotDataKey]) :
    lastPut key [(snapshotMetadataKey, metadata), (snapshotDataKey, data)] = none := by
  simp only [List.mem_cons, List.not_mem_nil, or_false, not_or] at h
  simp [lastPut, Ne.symm h.1, Ne.symm h.2]

/-- The counters and the snapshot records lie under the fixed keys. -/
theorem lastPut_fixed {key : Bytes} (hkey : key ∉ fixedKeys) {t c a si st : Nat} {v : Int} {metadata data : Bytes} :
    lastPut key (stateEntries t v c a si st ++
      [(snapshotMetadataKey, metadata), (snapshotDataKey, data)]) = none := by
  rw [lastPut_append, lastPut_stateEntries_of_not_mem hkey, lastPut_snapshotEntries_of_ne]
  · rfl
  · exact fun hmem => hkey (List.mem_of_mem_drop (show _ ∈ fixedKeys.drop 6 from hmem))

end RaftStorage

section Protobuf

variable [Protobuf]

/-! ### The state that is held -/

namespace PersistedRaftState

def lastIndex (state : PersistedRaftState) : Nat := state.snapshotIndex + state.log.length

/-- The stored form of the entry at an index, if it is retained. -/
def record (state : PersistedRaftState) (index : Nat) : Option Bytes :=
  if index ≤ state.snapshotIndex then none
  else (state.log[index - state.snapshotIndex - 1]?).map fun entry =>
    Protobuf.logEntry.serialize ⟨index, entry.term, entry.command⟩

end PersistedRaftState

/-- A stored snapshot: one that `Load` accepts, or none. -/
def HoldsSnapshot (store : RocksKVStore) (index term : Nat) (data : Bytes) : Prop :=
  store.get snapshotMetadataKey = none ∧ store.get snapshotDataKey = none ∧
      index = 0 ∧ term = 0 ∧ data = [] ∨
    store.get snapshotMetadataKey = some (serializeSnapshotMetadata index term) ∧
      store.get snapshotDataKey = some data ∧ index ≠ 0 ∧ term ≠ 0 ∧
      ∃ contents, parseSnapshotState data = .ok contents

structure Holds (store : RocksKVStore) (state : PersistedRaftState) : Prop where
  faults : store.faults = []
  currentTerm : ReadsNat store currentTermKey state.currentTerm
  votedFor : ReadsInt store votedForKey state.votedFor
  commitIndex : ReadsNat store commitIndexKey state.commitIndex
  lastApplied : ReadsNat store lastAppliedKey state.lastApplied
  snapshot : HoldsSnapshot store state.snapshotIndex state.snapshotTerm state.snapshotData
  log : ∀ index, store.get (logKey index) = state.record index
  keys : ∀ key, store.get key ≠ none → WellKeyed key

/-! ### Loading -/

theorem HoldsSnapshot.load {store : RocksKVStore} {index term : Nat} {data : Bytes}
    (h : HoldsSnapshot store index term data) : RaftStorage.loadSnapshotState store = .ok (index, term, data) := by
  unfold RaftStorage.loadSnapshotState RocksKVStore.loadSnapshot
  rw [show ascii "__raft/snapshot_metadata" = snapshotMetadataKey from rfl,
    show ascii "__raft/snapshot_data" = snapshotDataKey from rfl]
  rcases h with ⟨hm, hd, rfl, rfl, rfl⟩ | ⟨hm, hd, hindex, hterm, contents, hparse⟩
  · rw [hm, hd]
  · rw [hm, hd, serializeSnapshotMetadata]
    simp only [Protobuf.snapshotMetadata.parse_serialize, hindex, hterm, or_self, if_false, hparse]

theorem HoldsSnapshot.index_eq {store : RocksKVStore} {index term index' term' : Nat} {data data' : Bytes}
    (h : HoldsSnapshot store index term data) (h' : HoldsSnapshot store index' term' data') : index = index' := by
  rcases h with ⟨h, -, rfl, -⟩ | ⟨h, -⟩ <;> rcases h' with ⟨h', -, rfl, -⟩ | ⟨h', -⟩
  · rfl
  · exact nomatch h.symm.trans h'
  · exact nomatch h.symm.trans h'
  · have hsame := Protobuf.snapshotMetadata.serialize_injective (Option.some.inj (h.symm.trans h'))
    exact (Proto.SnapshotMetadata.mk.inj hsame).1

theorem record_offset (state : PersistedRaftState) (k : Nat) :
    state.record (state.snapshotIndex + (k + 1)) = (state.log[k]?).map fun entry =>
      Protobuf.logEntry.serialize ⟨state.snapshotIndex + (k + 1), entry.term, entry.command⟩ := by
  unfold PersistedRaftState.record
  rw [if_neg (by omega), show state.snapshotIndex + (k + 1) - state.snapshotIndex - 1 = k by omega]

theorem PersistedRaftState.record_ne_none {state : PersistedRaftState} {index : Nat} :
    state.record index ≠ none ↔ state.snapshotIndex < index ∧ index ≤ state.lastIndex := by
  unfold record lastIndex
  split
  · next hle => exact ⟨fun h => absurd rfl h, fun h => absurd h.1 (Nat.not_lt.mpr hle)⟩
  · rw [ne_eq, Option.map_eq_none_iff, List.getElem?_eq_none_iff]
    omega

/-- The log is read back, unless it has the greatest index of all. -/
theorem Holds.loadLog_eq_ok {store : RocksKVStore} {state : PersistedRaftState} (h : Holds store state)
    (fuel k : Nat) (hfuel : state.log.length < fuel + k) (log : List RaftLogEntry) :
    RaftStorage.loadLog store fuel (state.snapshotIndex + (k + 1)) = .ok log ↔
      log = state.log.drop k ∧ ∀ i, k ≤ i → i < state.log.length → state.snapshotIndex + (i + 1) ≠ 2 ^ 64 - 1 := by
  induction fuel generalizing k log with
  | zero =>
    rw [RaftStorage.loadLog, List.drop_eq_nil_of_le (by omega), Except.ok.injEq, eq_comm]
    exact ⟨fun hlog => ⟨hlog, fun i hlow hhigh => by omega⟩, And.left⟩
  | succ fuel ih =>
    rw [RaftStorage.loadLog, h.log, record_offset]
    by_cases hk : k < state.log.length
    · rw [List.getElem?_eq_getElem hk, Option.map_some, List.drop_eq_getElem_cons hk]
      simp only [Protobuf.logEntry.parse_serialize, ne_eq, not_true, if_false]
      split
      · next hlast => exact ⟨nofun, fun hall => absurd hlast (hall.2 k le_rfl hk)⟩
      · next hlast =>
        have hrest := ih (k + 1) (by omega)
        constructor
        · intro hlog
          split at hlog
          · cases hlog
          · next rest heq =>
            obtain ⟨rfl, hall⟩ := (hrest rest).mp heq
            refine ⟨(Except.ok.inj hlog).symm, fun i hlow hhigh => ?_⟩
            rcases Nat.lt_or_eq_of_le hlow with hlt | rfl
            · exact hall i hlt hhigh
            · exact hlast
        · rintro ⟨rfl, hall⟩
          rw [Nat.add_assoc, (hrest _).mpr ⟨rfl, fun i hlow => hall i (by omega)⟩]
    · rw [List.getElem?_eq_none (by omega), List.drop_eq_nil_of_le (by omega), Option.map_none]
      simp only [Except.ok.injEq]
      exact ⟨fun hlog => ⟨hlog.symm, fun i hlow hhigh => by omega⟩, fun hlog => hlog.1.symm⟩

theorem Holds.length_le_size {store : RocksKVStore} {state : PersistedRaftState}
    (h : Holds store state) : state.log.length ≤ store.data.size := by
  have hnodup : ((List.range state.log.length).map fun k =>
      logKey (state.snapshotIndex + (k + 1))).Nodup := by
    refine List.Nodup.map (fun i j hij => ?_) List.nodup_range
    have := logKey_injective hij
    omega
  have hlen := store.length_le_size hnodup fun key hkey => by
    obtain ⟨k, hk, rfl⟩ := List.mem_map.mp hkey
    rw [h.log, record_offset, List.getElem?_eq_getElem (List.mem_range.mp hk)]
    rfl
  simpa using hlen

theorem RaftStorage.load_eq_ok {store : RocksKVStore} {state : PersistedRaftState} : load store = .ok state ↔
    loadSnapshotState store = .ok (state.snapshotIndex, state.snapshotTerm, state.snapshotData) ∧
      parseUint64 (store.get currentTermKey) "__raft/current_term" = .ok state.currentTerm ∧
      parseInt64 (store.get votedForKey) "__raft/voted_for" = .ok state.votedFor ∧
      parseUint64 (store.get commitIndexKey) "__raft/commit_index" = .ok state.commitIndex ∧
      parseUint64 (store.get lastAppliedKey) "__raft/last_applied" = .ok state.lastApplied ∧
      loadLog store (store.data.size + 1) (state.snapshotIndex + 1) = .ok state.log := by
  unfold load
  simp only [bind, Except.bind]
  constructor
  · intro hload
    split at hload
    · cases hload
    next snapshot hsnapshot =>
    split at hload
    · cases hload
    next term hterm =>
    split at hload
    · cases hload
    next vote hvote =>
    split at hload
    · cases hload
    next commit hcommit =>
    split at hload
    · cases hload
    next applied happlied =>
    split at hload
    · cases hload
    next log hlog =>
    obtain rfl := Except.ok.inj hload
    exact ⟨hsnapshot, hterm, hvote, hcommit, happlied, hlog⟩
  · rintro ⟨hsnapshot, hterm, hvote, hcommit, happlied, hlog⟩
    rw [hsnapshot]
    simp only [hterm, hvote, hcommit, happlied, hlog]
    rfl

/-- What `Load` can represent. -/
structure PersistedRaftState.Representable (state : PersistedRaftState) : Prop where
  currentTerm : state.currentTerm < 2 ^ 64
  votedFor : -2 ^ 63 ≤ state.votedFor ∧ state.votedFor < 2 ^ 63
  commitIndex : state.commitIndex < 2 ^ 64
  lastApplied : state.lastApplied < 2 ^ 64
  log : ∀ i < state.log.length, state.snapshotIndex + (i + 1) ≠ 2 ^ 64 - 1

/-- Loading returns the state that is held, if it can be represented, and fails otherwise. -/
theorem Holds.load_eq_ok {store : RocksKVStore} {state loaded : PersistedRaftState} (h : Holds store state) :
    RaftStorage.load store = .ok loaded ↔ loaded = state ∧ state.Representable := by
  have hfuel : state.log.length < store.data.size + 1 + 0 := by
    have := h.length_le_size
    omega
  have hlog : ∀ log, RaftStorage.loadLog store (store.data.size + 1) (state.snapshotIndex + 1) = .ok log ↔
      log = state.log ∧ ∀ i < state.log.length, state.snapshotIndex + (i + 1) ≠ 2 ^ 64 - 1 := fun log => by
    have heq := h.loadLog_eq_ok (store.data.size + 1) 0 hfuel log
    simpa using heq
  rw [RaftStorage.load_eq_ok, h.snapshot.load, h.currentTerm.parse_eq_ok, h.votedFor.parse_eq_ok,
    h.commitIndex.parse_eq_ok, h.lastApplied.parse_eq_ok, Except.ok.injEq, Prod.mk.injEq, Prod.mk.injEq]
  constructor
  · rintro ⟨⟨hindex, hterm, hdata⟩, ⟨ht, hterm'⟩, ⟨hv, hvote⟩, ⟨hc, hcommit⟩, ⟨ha, happlied⟩, hload⟩
    rw [← hindex, hlog] at hload
    refine ⟨?_, hterm', hvote, hcommit, happlied, hload.2⟩
    obtain ⟨t, v, c, a, si, st, d, log⟩ := loaded
    simp only at hindex hterm hdata ht hv hc ha hload
    subst hindex hterm hdata ht hv hc ha
    rw [hload.1]
  · rintro ⟨rfl, hterm, hvote, hcommit, happlied, hall⟩
    exact ⟨⟨rfl, rfl, rfl⟩, ⟨rfl, hterm⟩, ⟨rfl, hvote⟩, ⟨rfl, hcommit⟩, ⟨rfl, happlied⟩, (hlog _).mpr ⟨rfl, hall⟩⟩

/-! ### Writing -/

namespace RaftStorage

theorem nodup_logEntries (snapshotIndex : Nat) (log : List RaftLogEntry) :
    ((logEntries snapshotIndex log).map Prod.fst).Nodup := by
  unfold logEntries
  rw [List.nodup_iff_injective_get]
  intro i j hij
  simp only [List.get_eq_getElem, List.getElem_map, List.getElem_mapIdx] at hij
  have := logKey_injective hij
  exact Fin.ext (by omega)

theorem lastPut_logEntries (snapshotIndex : Nat) (log : List RaftLogEntry) (index : Nat) :
    lastPut (logKey index) (logEntries snapshotIndex log) =
      if index ≤ snapshotIndex then none
      else (log[index - snapshotIndex - 1]?).map fun entry =>
        Protobuf.logEntry.serialize ⟨index, entry.term, entry.command⟩ := by
  have hnodup := nodup_logEntries snapshotIndex log
  split
  · next hle =>
    refine lastPut_eq_none fun entry hentry heq => ?_
    obtain ⟨k, hk, rfl⟩ := List.mem_mapIdx.mp hentry
    have := logKey_injective heq
    omega
  · next hgt =>
    cases hget : log[index - snapshotIndex - 1]? with
    | none =>
      rw [List.getElem?_eq_none_iff] at hget
      refine lastPut_eq_none fun entry hentry heq => ?_
      obtain ⟨k, hk, rfl⟩ := List.mem_mapIdx.mp hentry
      have := logKey_injective heq
      omega
    | some entry =>
      obtain ⟨hlt, hentry⟩ := List.getElem?_eq_some_iff.mp hget
      refine lastPut_eq_some hnodup (List.mem_mapIdx.mpr ⟨index - snapshotIndex - 1, hlt, ?_⟩)
      rw [show snapshotIndex + (index - snapshotIndex - 1 + 1) = index by omega, hentry]

theorem lastPut_logEntries_of_not_logPath {snapshotIndex : Nat} {log : List RaftLogEntry} {key : Bytes}
    (h : startsWith logPath key = false) : lastPut key (logEntries snapshotIndex log) = none := by
  refine lastPut_eq_none fun entry hentry heq => ?_
  obtain ⟨k, hk, rfl⟩ := List.mem_mapIdx.mp hentry
  exact ne_logKey h _ heq

theorem wellKeyed_logEntries {snapshotIndex : Nat} {log : List RaftLogEntry} :
    ∀ entry ∈ logEntries snapshotIndex log, WellKeyed entry.1 := by
  intro entry hentry
  obtain ⟨k, hk, rfl⟩ := List.mem_mapIdx.mp hentry
  exact wellKeyed_logKey _

end RaftStorage

omit [Protobuf] in
theorem SnapshotContents.WellFormed.lastPut_entries {contents : SnapshotContents} (h : contents.WellFormed) {key : Bytes}
    (hkey : RocksKVStore.isReserved key = true) : lastPut key contents.entries = none := by
  refine lastPut_eq_none fun entry hentry heq => ?_
  have hfree := h.entries_free entry hentry
  rw [heq, hkey] at hfree
  exact absurd hfree (by simp)

omit [Protobuf] in
theorem SnapshotContents.lastPut_requests (contents : SnapshotContents) {key : Bytes} (hkey : startsWith clientPath key = false) :
    lastPut key (contents.appliedRequests.map fun entry => (clientPath ++ entry.1, entry.2)) = none := by
  refine lastPut_eq_none fun entry hentry heq => ?_
  obtain ⟨request, -, rfl⟩ := List.mem_map.mp hentry
  rw [← heq, startsWith_append] at hkey
  exact absurd hkey (by simp)

namespace RaftStorage

variable {store : RocksKVStore} {t c a si st : Nat} {v : Int} {metadata data key value : Bytes} {log : List RaftLogEntry}

theorem wellKeyed_persistSnapshot :
    ∀ entry ∈ (persistSnapshot store t v c a si st metadata data log).puts, WellKeyed entry.1 := by
  intro entry hentry
  rcases List.mem_append.mp hentry with hentry | hentry
  · rcases List.mem_append.mp hentry with hentry | hentry
    · exact wellKeyed_stateEntries entry hentry
    · exact wellKeyed_snapshotEntries entry hentry
  · exact wellKeyed_logEntries entry hentry

theorem wellKeyed_applySnapshot {snapshot : SnapshotContents} (hwell : snapshot.WellFormed) :
    ∀ entry ∈ (applySnapshot store snapshot t v c a si st log).puts, WellKeyed entry.1 := by
  intro entry hentry
  simp only [applySnapshot, List.mem_append, List.mem_map] at hentry
  rcases hentry with (((hentry | hentry) | hentry) | ⟨request, hrequest, rfl⟩) | hentry
  · exact wellKeyed_stateEntries entry hentry
  · exact wellKeyed_snapshotEntries entry hentry
  · exact wellKeyed_of_not_reserved (hwell.entries_free entry hentry)
  · exact wellKeyed_request (hwell.requests_slash request hrequest)
  · exact wellKeyed_logEntries entry hentry

/-- A write of a snapshot puts the counters and the snapshot under the fixed keys. -/
theorem get_persistSnapshot (hkey : key ∈ fixedKeys)
    (hvalue : lastPut key (stateEntries t v c a si st ++ [(snapshotMetadataKey, metadata), (snapshotDataKey, data)]) =
      some value) :
    (store.written (persistSnapshot store t v c a si st metadata data log)).get key = some value := by
  rw [RocksKVStore.get_written, persistSnapshot, lastPut_append,
    lastPut_logEntries_of_not_logPath (not_logPath_of_fixedKeys key hkey), Option.none_or, hvalue, Option.some_or]

theorem get_applySnapshot {snapshot : SnapshotContents} (hwell : snapshot.WellFormed) (hkey : key ∈ fixedKeys)
    (hvalue : lastPut key (stateEntries t v c a si st ++ [(snapshotMetadataKey, serializeSnapshotMetadata si st),
      (snapshotDataKey, serializeSnapshotState snapshot.entries snapshot.appliedRequests)]) = some value) :
    (store.written (applySnapshot store snapshot t v c a si st log)).get key = some value := by
  rw [RocksKVStore.get_written, applySnapshot, lastPut_append, lastPut_append, lastPut_append,
    lastPut_logEntries_of_not_logPath (not_logPath_of_fixedKeys key hkey),
    snapshot.lastPut_requests (not_clientPath_of_fixedKeys key hkey),
    hwell.lastPut_entries (isReserved_of_fixedKeys key hkey), hvalue]
  rfl

section Replaced

variable {snapshot : SnapshotContents}

/-- Whatever lay under a user key, a record or a log key is deleted. -/
theorem deleted_applySnapshot
    (hkey : RocksKVStore.isReserved key = false ∨ startsWith clientPath key = true ∨ startsWith logPath key = true) :
    (if key ∈ (applySnapshot store snapshot t v c a si st log).deletes then none else store.get key) = none := by
  split
  · rfl
  · next hmem =>
    simp only [applySnapshot, List.mem_append, not_or] at hmem
    cases hget : store.get key with
    | none => rfl
    | some value =>
      rcases hkey with hfree | hclient | hlog
      · exact absurd (List.mem_map_of_mem (store.mem_getAllUserEntries.mpr ⟨hget, hfree⟩)) hmem.1.1
      · exact absurd (RocksKVStore.mem_map_fst.mpr ⟨by simp [hget], hclient⟩) hmem.1.2
      · exact absurd (RocksKVStore.mem_map_fst.mpr ⟨by simp [hget], hlog⟩) hmem.2

/-- So the write decides what lies there afterwards. -/
theorem get_applySnapshot_replaced
    (hkey : RocksKVStore.isReserved key = false ∨ startsWith clientPath key = true ∨ startsWith logPath key = true) :
    (store.written (applySnapshot store snapshot t v c a si st log)).get key =
      lastPut key (snapshot.entries ++ (snapshot.appliedRequests.map fun entry => (clientPath ++ entry.1, entry.2)) ++
        logEntries si log) := by
  have hfixed : key ∉ fixedKeys := by
    intro hmem
    rcases hkey with hfree | hclient | hlog
    · exact absurd (hfree.symm.trans (isReserved_of_fixedKeys key hmem)) (by simp)
    · exact absurd (hclient.symm.trans (not_clientPath_of_fixedKeys key hmem)) (by simp)
    · exact absurd (hlog.symm.trans (not_logPath_of_fixedKeys key hmem)) (by simp)
  rw [RocksKVStore.get_written, deleted_applySnapshot hkey, Option.or_none, applySnapshot]
  simp only [List.append_assoc _ snapshot.entries, List.append_assoc _ (_ ++ _)]
  rw [lastPut_append, lastPut_fixed hfixed, Option.or_none]

/-- A user key after the write. -/
theorem get_applySnapshot_user (hwell : snapshot.WellFormed) (hkey : RocksKVStore.isReserved key = false) :
    (store.written (applySnapshot store snapshot t v c a si st log)).get key = some value ↔
      (key, value) ∈ snapshot.entries := by
  have hlog : startsWith logPath key = false :=
    Bool.eq_false_iff.mpr fun h => absurd (hkey.symm.trans (isReserved_of_logPath h)) (by simp)
  have hclient : startsWith clientPath key = false :=
    Bool.eq_false_iff.mpr fun h => absurd (hkey.symm.trans (isReserved_of_clientPath h)) (by simp)
  rw [get_applySnapshot_replaced (.inl hkey), lastPut_append, lastPut_append, lastPut_logEntries_of_not_logPath hlog,
    snapshot.lastPut_requests hclient, Option.none_or, Option.none_or, lastPut_eq_some_iff hwell.entries_nodup]

theorem mem_getAllUserEntries_applySnapshot (hwell : snapshot.WellFormed) :
    (key, value) ∈ (store.written (applySnapshot store snapshot t v c a si st log)).getAllUserEntries ↔
      (key, value) ∈ snapshot.entries := by
  rw [RocksKVStore.mem_getAllUserEntries]
  constructor
  · rintro ⟨hget, hfree⟩
    exact (get_applySnapshot_user hwell hfree).mp hget
  · intro hmem
    have hfree := hwell.entries_free _ hmem
    exact ⟨(get_applySnapshot_user hwell hfree).mpr hmem, hfree⟩

/-- A dedup record after the write. -/
theorem get_applySnapshot_request (hwell : snapshot.WellFormed) :
    (store.written (applySnapshot store snapshot t v c a si st log)).get (clientPath ++ key) = some value ↔
      (key, value) ∈ snapshot.appliedRequests := by
  have hstart : startsWith clientPath (clientPath ++ key) = true := startsWith_append _ _
  have hnodup : ((snapshot.appliedRequests.map fun entry => (clientPath ++ entry.1, entry.2)).map Prod.fst).Nodup := by
    have heq : (snapshot.appliedRequests.map fun entry => (clientPath ++ entry.1, entry.2)).map Prod.fst =
        (snapshot.appliedRequests.map Prod.fst).map (clientPath ++ ·) := by simp
    rw [heq]
    exact hwell.requests_nodup.map fun _ _ => List.append_cancel_left
  rw [get_applySnapshot_replaced (.inr (.inl hstart)), lastPut_append, lastPut_append,
    lastPut_logEntries_of_not_logPath (not_logPath_of_clientPath hstart), Option.none_or,
    hwell.lastPut_entries (isReserved_of_clientPath hstart), Option.or_none, lastPut_eq_some_iff hnodup, List.mem_map]
  constructor
  · rintro ⟨entry, hentry, heq⟩
    obtain ⟨hkey, rfl⟩ := Prod.mk.inj heq
    rwa [← List.append_cancel_left hkey]
  · exact fun h => ⟨(key, value), h, rfl⟩

/-- A log key after the write. -/
theorem get_applySnapshot_log (hwell : snapshot.WellFormed) (hkey : startsWith logPath key = true) :
    (store.written (applySnapshot store snapshot t v c a si st log)).get key = lastPut key (logEntries si log) := by
  have hclient : startsWith clientPath key = false :=
    Bool.eq_false_iff.mpr fun h => absurd (hkey.symm.trans (not_logPath_of_clientPath h)) (by simp)
  rw [get_applySnapshot_replaced (.inr (.inr hkey)), lastPut_append, lastPut_append, snapshot.lastPut_requests hclient,
    hwell.lastPut_entries (isReserved_of_logPath hkey), Option.or_none, Option.or_none]

end Replaced

omit [Protobuf] in
/-- The counters after a write of a snapshot. -/
theorem get_counters
    (hfixed : ∀ key ∈ fixedKeys, ∀ value, lastPut key (stateEntries t v c a si st ++
      [(snapshotMetadataKey, metadata), (snapshotDataKey, data)]) = some value → store.get key = some value) :
    store.get currentTermKey = some (decimal t) ∧ store.get votedForKey = some (decimalInt v) ∧
      store.get commitIndexKey = some (decimal c) ∧ store.get lastAppliedKey = some (decimal a) := by
  obtain ⟨ht, hv, hc, ha⟩ := lastPut_stateEntries t c a si st v
  refine ⟨hfixed _ (by decide) _ ?_, hfixed _ (by decide) _ ?_, hfixed _ (by decide) _ ?_, hfixed _ (by decide) _ ?_⟩
  · rw [lastPut_append, lastPut_snapshotEntries_of_ne (by decide), ht, Option.none_or]
  · rw [lastPut_append, lastPut_snapshotEntries_of_ne (by decide), hv, Option.none_or]
  · rw [lastPut_append, lastPut_snapshotEntries_of_ne (by decide), hc, Option.none_or]
  · rw [lastPut_append, lastPut_snapshotEntries_of_ne (by decide), ha, Option.none_or]

end RaftStorage

namespace CommandApplier

/-- The ways in which `ApplyAtomically` can succeed. -/
theorem applyAtomically_cases {store : RocksKVStore} {command : Proto.Command} {index commit : Nat}
    {batch : WriteBatch} (h : applyAtomically store command index commit = .ok batch) :
    RocksKVStore.isReserved command.key = false ∧
      (command.requestId ≠ 0 ∧ store.get (requestKey command) = some (Protobuf.command.serialize command) ∧
          batch = ⟨progressEntries index commit, []⟩ ∨
        (command.requestId = 0 ∨ store.get (requestKey command) = none) ∧
          (command.type = .put ∧
              batch = ⟨progressEntries index commit ++ [(command.key, command.value)] ++
                recordEntries command, []⟩ ∨
            command.type = .delete ∧
              batch = ⟨progressEntries index commit ++ recordEntries command, [command.key]⟩)) := by
  unfold applyAtomically at h
  split at h
  · exact absurd h (by simp)
  next hreserved =>
  refine ⟨by simpa using hreserved, ?_⟩
  simp only at h
  split at h
  · next previous hprevious =>
    split at hprevious
    · next hid =>
      split at h
      · exact absurd h (by simp)
      · next hsame =>
        rw [ne_eq, not_not] at hsame
        exact .inl ⟨hid, hsame ▸ hprevious, (Except.ok.inj h).symm⟩
    · exact absurd hprevious (by simp)
  · next hnone =>
    have hfree : command.requestId = 0 ∨ store.get (requestKey command) = none := by
      by_cases hid : command.requestId = 0
      · exact .inl hid
      · rw [if_pos hid] at hnone
        exact .inr hnone
    split at h
    · next htype => exact .inr ⟨hfree, .inl ⟨htype, (Except.ok.inj h).symm⟩⟩
    · next htype => exact .inr ⟨hfree, .inr ⟨htype, (Except.ok.inj h).symm⟩⟩
    · exact absurd h (by simp)
    · exact absurd h (by simp)

omit [Protobuf] in
theorem requestKey_eq (command : Proto.Command) :
    requestKey command = clientPath ++ (decimal command.clientId ++ ascii "/" ++ decimal command.requestId) := by
  unfold requestKey
  rw [List.append_assoc, List.append_assoc, List.append_assoc]

omit [Protobuf] in
theorem startsWith_requestKey (command : Proto.Command) :
    startsWith clientPath (requestKey command) = true := by
  rw [requestKey_eq]
  exact startsWith_append _ _

omit [Protobuf] in
theorem wellKeyed_requestKey (command : Proto.Command) : WellKeyed (requestKey command) := by
  rw [requestKey_eq]
  refine wellKeyed_request (List.mem_append_left _ (List.mem_append_right _ ?_))
  decide

/-- A batch of the applier writes the progress counters, user keys and dedup records only. -/
theorem applyAtomically_puts {store : RocksKVStore} {command : Proto.Command} {index commit : Nat}
    {batch : WriteBatch} (h : applyAtomically store command index commit = .ok batch) :
    ∃ rest, batch.puts = progressEntries index commit ++ rest ∧
      (∀ entry ∈ rest, RocksKVStore.isReserved entry.1 = false ∨ entry.1 = requestKey command) ∧
      ∀ key ∈ batch.deletes, RocksKVStore.isReserved key = false := by
  have hrecord : ∀ entry ∈ recordEntries command, entry.1 = requestKey command := by
    intro entry hentry
    unfold recordEntries at hentry
    split at hentry
    · rw [List.mem_singleton.mp hentry]
    · simp at hentry
  obtain ⟨hreserved, ⟨-, -, rfl⟩ | ⟨-, ⟨-, rfl⟩ | ⟨-, rfl⟩⟩⟩ := applyAtomically_cases h
  · exact ⟨[], by simp, by simp, by simp⟩
  · refine ⟨[(command.key, command.value)] ++ recordEntries command, by simp, fun entry hentry => ?_, by simp⟩
    rcases List.mem_append.mp hentry with hmem | hmem
    · rw [List.mem_singleton.mp hmem]
      exact .inl hreserved
    · exact .inr (hrecord entry hmem)
  · refine ⟨recordEntries command, rfl, fun entry hentry => .inr (hrecord entry hentry), fun key hkey => ?_⟩
    rw [List.mem_singleton.mp hkey]
    exact hreserved

/-- A batch of the applier has well-placed keys. -/
theorem wellKeyed_applyAtomically {store : RocksKVStore} {command : Proto.Command} {index commit : Nat}
    {batch : WriteBatch} (h : applyAtomically store command index commit = .ok batch) :
    ∀ entry ∈ batch.puts, WellKeyed entry.1 := by
  obtain ⟨rest, hputs, hrest, -⟩ := applyAtomically_puts h
  intro entry hentry
  rw [hputs] at hentry
  rcases List.mem_append.mp hentry with hentry | hentry
  · have hmem : entry.1 ∈ [commitIndexKey, lastAppliedKey] := List.mem_map_of_mem (f := Prod.fst) hentry
    exact wellKeyed_of_fixedKeys (by rcases List.mem_pair.mp hmem with heq | heq <;> rw [heq] <;> decide)
  · rcases hrest entry hentry with hfree | hrecord
    · exact wellKeyed_of_not_reserved hfree
    · exact hrecord ▸ wellKeyed_requestKey command

omit [Protobuf] in
theorem lastPut_progressEntries {logIndex commitIndex : Nat} {key : Bytes}
    (h : RocksKVStore.isReserved key = false ∨ startsWith clientPath key = true) :
    lastPut key (progressEntries logIndex commitIndex) = none := by
  refine lastPut_eq_none fun entry hentry heq => ?_
  have hfixed : key ∈ fixedKeys := by
    rw [← heq]
    rcases List.mem_pair.mp hentry with rfl | rfl
    · exact List.mem_of_mem_drop (i := 2) (by simp [fixedKeys])
    · exact List.mem_of_mem_drop (i := 3) (by simp [fixedKeys])
  rcases h with h | h
  · exact absurd (h.symm.trans (isReserved_of_fixedKeys key hfixed)) (by simp)
  · exact absurd (h.symm.trans (not_clientPath_of_fixedKeys key hfixed)) (by simp)

/-- Reserved keys outside the dedup records see only the progress counters. -/
theorem get_reserved {store : RocksKVStore} {command : Proto.Command} {index commit : Nat} {batch : WriteBatch}
    (h : applyAtomically store command index commit = .ok batch) {key : Bytes}
    (hreserved : RocksKVStore.isReserved key = true) (hclient : startsWith clientPath key = false) :
    (store.written batch).get key = (lastPut key (progressEntries index commit)).or (store.get key) := by
  obtain ⟨rest, hputs, hrest, hdeletes⟩ := applyAtomically_puts h
  rw [RocksKVStore.get_written, hputs, lastPut_append, lastPut_eq_none (l := rest), Option.none_or, if_neg]
  · intro hmem
    rw [hdeletes key hmem] at hreserved
    exact absurd hreserved (by simp)
  · rintro entry hentry rfl
    rcases hrest entry hentry with hfree | hrecord
    · rw [hfree] at hreserved
      exact absurd hreserved (by simp)
    · rw [hrecord, startsWith_requestKey] at hclient
      exact absurd hclient (by simp)

/-- The counters that every application writes. -/
theorem get_progress {store : RocksKVStore} {command : Proto.Command} {index commit : Nat} {batch : WriteBatch}
    (h : applyAtomically store command index commit = .ok batch) :
    (store.written batch).get commitIndexKey = some (decimal commit) ∧
      (store.written batch).get lastAppliedKey = some (decimal index) := by
  have hne : lastAppliedKey ≠ commitIndexKey := by decide
  constructor
  · rw [get_reserved h (by decide) (by decide)]
    simp [progressEntries, lastPut, hne]
  · rw [get_reserved h (by decide) (by decide)]
    simp [progressEntries, lastPut]

end CommandApplier

namespace Holds

open RaftStorage

variable {store : RocksKVStore} {state : PersistedRaftState}

/-- The scan for stale keys finds every entry from its start to the end of the stored log. -/
theorem mem_staleLogKeys (h : Holds store state) (fuel start index : Nat)
    (hstart : state.snapshotIndex < start) (hle : start ≤ index) (hindex : index ≤ state.lastIndex)
    (hfuel : state.lastIndex < fuel + start) : logKey index ∈ staleLogKeys store fuel start := by
  induction fuel generalizing start with
  | zero => omega
  | succ fuel ih =>
    have hsome : (store.get (logKey start)).isSome := by
      obtain ⟨k, rfl⟩ : ∃ k, start = state.snapshotIndex + (k + 1) :=
        ⟨start - state.snapshotIndex - 1, by omega⟩
      unfold PersistedRaftState.lastIndex at hindex
      rw [h.log, record_offset, List.getElem?_eq_getElem (by omega)]
      rfl
    rw [staleLogKeys, if_pos hsome]
    rcases Nat.lt_or_eq_of_le hle with hlt | rfl
    · exact List.mem_cons_of_mem _ (ih (start + 1) (by omega) (by omega) (by omega))
    · exact List.mem_cons_self ..

/-- Nothing is left under the keys outside the log that a writer writes. -/
theorem get_obsolete (h : Holds store state) {snapshotIndex length index : Nat}
    (hsnapshot : state.snapshotIndex ≤ snapshotIndex)
    (hout : index ≤ snapshotIndex ∨ snapshotIndex + length < index) :
    (if logKey index ∈ obsoleteLogKeys store snapshotIndex length then none
      else store.get (logKey index)) = none := by
  split
  · rfl
  · next hmem =>
    unfold obsoleteLogKeys at hmem
    rw [List.mem_append, not_or] at hmem
    rw [h.log, PersistedRaftState.record]
    split
    · rfl
    · next hgt =>
      rcases hout with hle | hlt
      · exact absurd (List.mem_map.mpr ⟨index, List.mem_range'_1.mpr ⟨by omega, by omega⟩, rfl⟩) hmem.1
      · rw [List.getElem?_eq_none, Option.map_none]
        by_contra hcon
        refine hmem.2 (h.mem_staleLogKeys _ _ index (by omega) hlt ?_ ?_)
        · unfold PersistedRaftState.lastIndex; omega
        · have := h.length_le_size
          unfold PersistedRaftState.lastIndex; omega

theorem persistState (h : Holds store state) (t c a si st : Nat) (v : Int) :
    Holds (store.written (RaftStorage.persistState t v c a si st))
      { state with currentTerm := t, votedFor := v, commitIndex := c, lastApplied := a } := by
  obtain ⟨ht, hv, hc, ha⟩ := lastPut_stateEntries t c a si st v
  obtain ⟨hm, hd⟩ := lastPut_stateEntries_snapshot t c a si st v
  refine ⟨rfl, .inl ?_, .inl ?_, .inl ?_, .inl ?_, ?_, fun index => ?_,
    RocksKVStore.wellKeyed_written h.keys wellKeyed_stateEntries⟩
  · rw [RocksKVStore.get_written, RaftStorage.persistState, ht, Option.some_or]
  · rw [RocksKVStore.get_written, RaftStorage.persistState, hv, Option.some_or]
  · rw [RocksKVStore.get_written, RaftStorage.persistState, hc, Option.some_or]
  · rw [RocksKVStore.get_written, RaftStorage.persistState, ha, Option.some_or]
  · have := h.snapshot
    unfold HoldsSnapshot at this ⊢
    rw [RocksKVStore.get_written, RocksKVStore.get_written, RaftStorage.persistState, hm, hd]
    simpa using this
  · rw [RocksKVStore.get_written, RaftStorage.persistState,
      lastPut_stateEntries_of_not_mem (logKey_not_mem_fixedKeys index), Option.none_or,
      if_neg List.not_mem_nil]
    exact h.log index

/-- A batch of log entries and log keys leaves the other records alone. -/
theorem get_persistLog {key : Bytes} (hnot : startsWith logPath key = false) (snapshotIndex : Nat)
    (log : List RaftLogEntry) :
    (store.written (RaftStorage.persistLog store snapshotIndex log)).get key = store.get key := by
  rw [RocksKVStore.get_written, RaftStorage.persistLog, lastPut_logEntries_of_not_logPath hnot,
    Option.none_or, if_neg]
  intro hmem
  rw [startsWith_of_mem_obsoleteLogKeys hmem] at hnot
  exact absurd hnot (by simp)

theorem persistLog (h : Holds store state) (log : List RaftLogEntry) :
    Holds (store.written (RaftStorage.persistLog store state.snapshotIndex log))
      { state with log := log } := by
  have hfixed : ∀ key ∈ fixedKeys,
      (store.written (RaftStorage.persistLog store state.snapshotIndex log)).get key = store.get key :=
    fun key hkey => get_persistLog (not_logPath_of_fixedKeys key hkey) _ _
  refine ⟨rfl, ?_, ?_, ?_, ?_, ?_, fun index => ?_, RocksKVStore.wellKeyed_written h.keys wellKeyed_logEntries⟩
  · unfold ReadsNat; rw [hfixed _ (by decide)]; exact h.currentTerm
  · unfold ReadsInt; rw [hfixed _ (by decide)]; exact h.votedFor
  · unfold ReadsNat; rw [hfixed _ (by decide)]; exact h.commitIndex
  · unfold ReadsNat; rw [hfixed _ (by decide)]; exact h.lastApplied
  · unfold HoldsSnapshot
    rw [hfixed snapshotMetadataKey (by decide), hfixed snapshotDataKey (by decide)]
    exact h.snapshot
  · rw [RocksKVStore.get_written]
    show (lastPut _ (logEntries state.snapshotIndex log)).or
      (if logKey index ∈ obsoleteLogKeys store state.snapshotIndex log.length then none
        else store.get (logKey index)) = _
    rw [lastPut_logEntries]
    unfold PersistedRaftState.record
    split
    · next hle => rw [h.get_obsolete le_rfl (.inl hle)]; rfl
    · next hgt =>
      cases hget : log[index - state.snapshotIndex - 1]? with
      | some entry => rfl
      | none =>
        rw [List.getElem?_eq_none_iff] at hget
        rw [h.get_obsolete le_rfl (.inr (by omega))]
        simp

/-- The counters and the snapshot after the writes that begin with both. -/
theorem of_lastPut {store' : RocksKVStore} {t c a si st : Nat} {v : Int} {metadata data : Bytes}
    {log : List RaftLogEntry} (hfaults : store'.faults = [])
    (hmetadata : metadata = serializeSnapshotMetadata si st)
    (hfixed : ∀ key ∈ fixedKeys, ∀ value,
      lastPut key (stateEntries t v c a si st ++
        [(snapshotMetadataKey, metadata), (snapshotDataKey, data)]) = some value →
      store'.get key = some value)
    (hlog : ∀ index, store'.get (logKey index) = PersistedRaftState.record ⟨t, v, c, a, si, st, data, log⟩ index)
    (hkeys : ∀ key, store'.get key ≠ none → WellKeyed key) (hsi : si ≠ 0) (hst : st ≠ 0) {contents : SnapshotContents}
    (hparse : parseSnapshotState data = .ok contents) :
    Holds store' ⟨t, v, c, a, si, st, data, log⟩ := by
  obtain ⟨hm, hd⟩ := lastPut_snapshotEntries metadata data
  obtain ⟨ht, hv, hc, ha⟩ := get_counters hfixed
  refine ⟨hfaults, .inl ht, .inl hv, .inl hc, .inl ha,
    .inr ⟨hfixed _ (by decide) _ ?_, hfixed _ (by decide) _ ?_, hsi, hst, contents, hparse⟩, hlog, hkeys⟩
  · rw [lastPut_append, hm, Option.some_or, hmetadata]
  · rw [lastPut_append, hd, Option.some_or]

theorem persistSnapshot (h : Holds store state) (t c a si st : Nat) (v : Int) (data : Bytes)
    (hle : state.snapshotIndex ≤ si) (hsi : si ≠ 0) (hst : st ≠ 0) {contents : SnapshotContents}
    (hparse : parseSnapshotState data = .ok contents) :
    Holds (store.written (RaftStorage.persistSnapshot store t v c a si st
        (serializeSnapshotMetadata si st) data (state.log.drop (si - state.snapshotIndex))))
      ⟨t, v, c, a, si, st, data, state.log.drop (si - state.snapshotIndex)⟩ := by
  refine of_lastPut rfl rfl (fun key hkey value => get_persistSnapshot hkey) (fun index => ?_)
    (RocksKVStore.wellKeyed_written h.keys wellKeyed_persistSnapshot) hsi hst hparse
  · rw [RocksKVStore.get_written, RaftStorage.persistSnapshot, lastPut_append,
      lastPut_fixed (logKey_not_mem_fixedKeys index), Option.or_none, lastPut_logEntries]
    unfold PersistedRaftState.record
    split
    · next hidx => rw [h.get_obsolete hle (.inl hidx)]; rfl
    · next hidx =>
      cases hget : (state.log.drop (si - state.snapshotIndex))[index - si - 1]? with
      | some entry => rfl
      | none =>
        rw [List.getElem?_eq_none_iff] at hget
        rw [h.get_obsolete hle (.inr (by omega))]
        simp

theorem applySnapshot (h : Holds store state) {snapshot : SnapshotContents} (hwell : snapshot.WellFormed)
    (t c a : Nat) {si st : Nat} (v : Int) (log : List RaftLogEntry) (hsi : si ≠ 0) (hst : st ≠ 0) :
    Holds (store.written (RaftStorage.applySnapshot store snapshot t v c a si st log))
      ⟨t, v, c, a, si, st, serializeSnapshotState snapshot.entries snapshot.appliedRequests, log⟩ := by
  refine of_lastPut rfl rfl (fun key hkey value => get_applySnapshot hwell hkey) (fun index => ?_)
    (RocksKVStore.wellKeyed_written h.keys (wellKeyed_applySnapshot hwell)) hsi hst hwell.parse
  rw [get_applySnapshot_log hwell (startsWith_logKey index), lastPut_logEntries]
  rfl

theorem applyAtomically (h : Holds store state) {command : Proto.Command} {index commit : Nat}
    {batch : WriteBatch} (hbatch : CommandApplier.applyAtomically store command index commit = .ok batch) :
    Holds (store.written batch) { state with commitIndex := commit, lastApplied := index } := by
  have hother : ∀ key, RocksKVStore.isReserved key = true → startsWith clientPath key = false →
      key ∉ [commitIndexKey, lastAppliedKey] → (store.written batch).get key = store.get key := by
    intro key hreserved hclient hne
    rw [CommandApplier.get_reserved hbatch hreserved hclient, lastPut_eq_none, Option.none_or]
    rintro entry hentry rfl
    exact hne (List.mem_map_of_mem (f := Prod.fst) hentry)
  have hfixed : ∀ key ∈ fixedKeys, key ∉ [commitIndexKey, lastAppliedKey] →
      (store.written batch).get key = store.get key :=
    fun key hkey => hother key (isReserved_of_fixedKeys key hkey) (not_clientPath_of_fixedKeys key hkey)
  obtain ⟨hcommit, happlied⟩ := CommandApplier.get_progress hbatch
  refine ⟨rfl, ?_, ?_, .inl hcommit, .inl happlied, ?_, fun i => ?_,
    RocksKVStore.wellKeyed_written h.keys (CommandApplier.wellKeyed_applyAtomically hbatch)⟩
  · unfold ReadsNat; rw [hfixed _ (by decide) (by decide)]; exact h.currentTerm
  · unfold ReadsInt; rw [hfixed _ (by decide) (by decide)]; exact h.votedFor
  · unfold HoldsSnapshot
    rw [hfixed snapshotMetadataKey (by decide) (by decide), hfixed snapshotDataKey (by decide) (by decide)]
    exact h.snapshot
  · rw [hother _ (isReserved_of_logPath (startsWith_logKey i))]
    · exact h.log i
    · cases hc : startsWith clientPath (logKey i) with
      | false => rfl
      | true => exact absurd (not_logPath_of_clientPath hc) (by rw [startsWith_logKey]; simp)
    · exact fun hmem => logKey_not_mem_fixedKeys i (by
        rcases List.mem_pair.mp hmem with heq | heq <;> rw [heq] <;> decide)

end Holds

end Protobuf

theorem Holds.empty [Protobuf] : Holds .empty ⟨0, -1, 0, 0, 0, 0, [], []⟩ := by
  have hnone : ∀ key, RocksKVStore.empty.get key = none := fun key => by simp [RocksKVStore.empty, RocksKVStore.get]
  refine ⟨rfl, .inr ⟨hnone _, rfl⟩, .inr ⟨hnone _, rfl⟩, .inr ⟨hnone _, rfl⟩, .inr ⟨hnone _, rfl⟩,
    .inl ⟨hnone _, hnone _, rfl, rfl, rfl⟩, fun index => ?_, fun key hkey => absurd (hnone key) hkey⟩
  rw [hnone]
  unfold PersistedRaftState.record
  split <;> rfl

end Nukv
