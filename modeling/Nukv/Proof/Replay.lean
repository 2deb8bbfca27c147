import Nukv.Proof.Applying
import Nukv.Proof.Snapshot

/-!
# The state machine as a function of the log

`replay L` is the store that the entries of `L` leave when they are applied, one after the other, to an empty store, and
`snapshotBytes L` is the snapshot of that store. Two stores that agree on the user entries and on the records of requests
have the same snapshot, since both are written in the order of the keys. So a log decides the bytes of its snapshot, and
a snapshot that is read back gives a store that the log folds to.
-/

namespace Nukv

open Base

/-! ### Stores that agree have the same snapshot -/

/-- Entries in the order of their keys are determined by what they contain. -/
theorem eq_of_ordered {l l' : List (Bytes × Bytes)} (h : l.Pairwise fun a b => compare a.1 b.1 = .lt)
    (h' : l'.Pairwise fun a b => compare a.1 b.1 = .lt) (hmem : ∀ entry, entry ∈ l ↔ entry ∈ l') : l = l' := by
  have hnodup : ∀ {l : List (Bytes × Bytes)}, (l.Pairwise fun a b => compare a.1 b.1 = .lt) → l.Nodup := by
    intro l hl
    refine hl.imp fun {a b} hab heq => ?_
    rw [heq] at hab
    simp at hab
  refine List.Perm.eq_of_pairwise (fun a b _ _ hab hba => ?_) h h' ((List.perm_ext_iff_of_nodup (hnodup h) (hnodup h')).mpr hmem)
  exact absurd hba (Std.OrientedCmp.not_lt_of_lt hab)

namespace RocksKVStore

variable {store store' : RocksKVStore}

theorem ordered_toList (store : RocksKVStore) : store.data.toList.Pairwise fun a b => compare a.1 b.1 = .lt :=
  Std.ExtTreeMap.ordered_keys_toList

theorem Agrees.getAllUserEntries_eq (h : store.Agrees store') : store'.getAllUserEntries = store.getAllUserEntries := by
  have hordered : ∀ store : RocksKVStore, store.getAllUserEntries.Pairwise fun a b => compare a.1 b.1 = .lt := by
    intro store
    rw [getAllUserEntries, getAllPrefixedEntries_eq]
    exact (store.ordered_toList.sublist List.filter_sublist).sublist List.filter_sublist
  refine eq_of_ordered (hordered store') (hordered store) ?_
  rintro ⟨key, value⟩
  rw [mem_getAllUserEntries, mem_getAllUserEntries]
  refine and_congr_left fun hfree => ?_
  rw [h key (.inl hfree)]

theorem Agrees.getAllPrefixedEntries_eq (h : store.Agrees store') :
    store'.getAllPrefixedEntries clientPath = store.getAllPrefixedEntries clientPath := by
  have hordered : ∀ store : RocksKVStore,
      (store.getAllPrefixedEntries clientPath).Pairwise fun a b => compare a.1 b.1 = .lt := by
    intro store
    rw [RocksKVStore.getAllPrefixedEntries_eq]
    exact store.ordered_toList.sublist List.filter_sublist
  refine eq_of_ordered (hordered store') (hordered store) fun ⟨key, value⟩ => ?_
  rw [mem_getAllPrefixedEntries, mem_getAllPrefixedEntries]
  refine and_congr_left fun hclient => ?_
  rw [h key (.inr hclient)]

theorem Agrees.getAppliedRequests_eq (h : store.Agrees store') :
    RaftStorage.getAppliedRequests store' = RaftStorage.getAppliedRequests store := by
  rw [RaftStorage.getAppliedRequests, RaftStorage.getAppliedRequests, h.getAllPrefixedEntries_eq]

/-- Stores with the same user entries and the same records. -/
theorem Agrees.of_contents
    (huser : ∀ key value, (key, value) ∈ store'.getAllUserEntries ↔ (key, value) ∈ store.getAllUserEntries)
    (hrequests : ∀ key value, (key, value) ∈ RaftStorage.getAppliedRequests store' ↔
      (key, value) ∈ RaftStorage.getAppliedRequests store) : store.Agrees store' := by
  rintro key (hfree | hclient)
  · refine Option.ext fun value => ?_
    have hiff := huser key value
    rwa [mem_getAllUserEntries, mem_getAllUserEntries, and_iff_left hfree, and_iff_left hfree] at hiff
  · rw [startsWith, List.isPrefixOf_iff_prefix] at hclient
    obtain ⟨rest, rfl⟩ := hclient
    refine Option.ext fun value => ?_
    have hiff := hrequests rest value
    rwa [mem_getAppliedRequests, mem_getAppliedRequests] at hiff

end RocksKVStore

/-! ### Replaying a log -/

variable [Protobuf]

/-- The store that the entries of a log leave, if none of them is refused. -/
def replay (L : List RaftLogEntry) : Option RocksKVStore := applyAll 0 RocksKVStore.empty 1 L

/-- The snapshot of that store; there is none of an empty log. -/
def snapshotBytes (L : List RaftLogEntry) : Bytes :=
  match L, replay L with
  | _ :: _, some store => serializeSnapshotState store.getAllUserEntries (RaftStorage.getAppliedRequests store)
  | _, _ => []

/-- The store has what the log leaves to the state machine. -/
def Folds (L : List RaftLogEntry) (store : RocksKVStore) : Prop := ∃ result, replay L = some result ∧ result.Agrees store

variable {L : List RaftLogEntry} {store store' : RocksKVStore}

theorem snapshotBytes_eq {result : RocksKVStore} (hresult : replay L = some result) (hne : L ≠ []) :
    snapshotBytes L = serializeSnapshotState result.getAllUserEntries (RaftStorage.getAppliedRequests result) := by
  cases L with
  | nil => exact absurd rfl hne
  | cons entry rest => simp only [snapshotBytes, hresult]

theorem replay_keys {result : RocksKVStore} (h : replay L = some result) :
    ∀ key, result.get key ≠ none → WellKeyed key := by
  have hall : ∀ (L : List RaftLogEntry) (store : RocksKVStore) (index : Nat),
      (∀ key, store.get key ≠ none → WellKeyed key) → applyAll 0 store index L = some result →
      ∀ key, result.get key ≠ none → WellKeyed key := by
    intro L
    induction L with
    | nil =>
      intro store index hkeys hresult
      exact Option.some.inj hresult ▸ hkeys
    | cons entry rest ih =>
      intro store index hkeys hresult
      obtain ⟨command, batch, -, hbatch, hrest⟩ := applyAll_cons_eq_some.mp hresult
      exact ih _ _ (RocksKVStore.wellKeyed_written hkeys (CommandApplier.wellKeyed_applyAtomically hbatch)) hrest
  exact hall L _ 1 (fun key hkey => absurd (by simp [RocksKVStore.empty, RocksKVStore.get]) hkey) h

namespace Folds

theorem nil : Folds [] RocksKVStore.empty := ⟨_, rfl, .refl _⟩

theorem congr (h : Folds L store) (hagrees : store.Agrees store') : Folds L store' := by
  obtain ⟨result, hresult, hstore⟩ := h
  exact ⟨result, hresult, hstore.trans hagrees⟩

theorem agrees (h : Folds L store) (h' : Folds L store') : store.Agrees store' := by
  obtain ⟨result, hresult, hstore⟩ := h
  obtain ⟨result', hresult', hstore'⟩ := h'
  obtain rfl := Option.some.inj (hresult.symm.trans hresult')
  exact hstore.symm.trans hstore'

/-- One more entry. -/
theorem append (h : Folds L store) {entry : RaftLogEntry} {command : Proto.Command} {batch : WriteBatch}
    {index commitIndex : Nat} (hparse : Protobuf.command.parse entry.command = some command)
    (hbatch : CommandApplier.applyAtomically store command index commitIndex = .ok batch) :
    Folds (L ++ [entry]) (store.written batch) := by
  obtain ⟨result, hresult, hstore⟩ := h
  obtain ⟨batch', hbatch', hagrees⟩ := hstore.symm.applied hbatch (1 + L.length) 0
  refine ⟨result.written batch', ?_, hagrees.symm⟩
  unfold replay at hresult ⊢
  rw [applyAll_append, hresult, Option.bind_some]
  exact applyAll_cons_eq_some.mpr ⟨command, batch', hparse, hbatch', rfl⟩

/-- A beginning of the log folds to some store. -/
theorem take (h : Folds L store) (count : Nat) : ∃ result, replay (L.take count) = some result := by
  obtain ⟨result, hresult, -⟩ := h
  unfold replay at hresult ⊢
  rw [← List.take_append_drop count L, applyAll_append] at hresult
  obtain ⟨middle, hmiddle, -⟩ := Option.bind_eq_some_iff.mp hresult
  exact ⟨middle, hmiddle⟩

/-- The snapshot of a store is the one of its log. -/
theorem captured (h : Folds L store) (hne : L ≠ []) :
    serializeSnapshotState store.getAllUserEntries (RaftStorage.getAppliedRequests store) = snapshotBytes L := by
  obtain ⟨result, hresult, hstore⟩ := h
  rw [snapshotBytes_eq hresult hne, hstore.getAllUserEntries_eq, hstore.getAppliedRequests_eq]

end Folds

/-- What is read from the snapshot of a log. -/
theorem parse_snapshotBytes {result : RocksKVStore} (hresult : replay L = some result) (hne : L ≠ []) :
    parseSnapshotState (snapshotBytes L) =
      .ok ⟨result.getAllUserEntries, RaftStorage.getAppliedRequests result⟩ := by
  rw [snapshotBytes_eq hresult hne]
  exact (RocksKVStore.wellFormed_contents (replay_keys hresult)).parse

/-- It is written again as it was. -/
theorem serialize_parse_snapshotBytes {result : RocksKVStore} (hresult : replay L = some result) (hne : L ≠ [])
    {contents : SnapshotContents} (hparse : parseSnapshotState (snapshotBytes L) = .ok contents) :
    serializeSnapshotState contents.entries contents.appliedRequests = snapshotBytes L := by
  rw [parse_snapshotBytes hresult hne] at hparse
  obtain rfl := Except.ok.inj hparse
  exact (snapshotBytes_eq hresult hne).symm

end Nukv
