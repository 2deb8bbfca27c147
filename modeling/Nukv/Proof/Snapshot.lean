import Nukv.Proof.Store
import Mathlib.Data.List.Nodup

/-!
# Snapshot contents

What `ParseSnapshotState` accepts is a set of user entries and a set of dedup records, without repeated or misplaced
keys, and it accepts every such pair of sets. In particular it accepts what a node takes from its own store.
-/

namespace Nukv

/-- An entry set that is accepted is the given one, without rejected or repeated keys. -/
theorem parseSnapshotEntries_ok {bad : Bytes → Bool} {what : String} {given : List Proto.SnapshotEntry}
    {keys : List Bytes} {entries : List (Bytes × Bytes)}
    (h : parseSnapshotEntries bad what given keys = .ok entries) :
    entries = given.map (fun entry => (entry.key, entry.value)) ∧ (entries.map Prod.fst).Nodup ∧
      ∀ entry ∈ entries, bad entry.1 = false ∧ entry.1 ∉ keys := by
  induction given generalizing keys entries with
  | nil =>
    obtain rfl := Except.ok.inj h
    simp
  | cons first rest ih =>
    unfold parseSnapshotEntries at h
    split at h
    · exact absurd h (by simp)
    next hgood =>
      simp only [Bool.or_eq_true, List.contains_iff_mem, not_or, Bool.not_eq_true] at hgood
      cases hrest : parseSnapshotEntries bad what rest (first.key :: keys) with
      | error x => simp [hrest] at h
      | ok tail =>
        rw [hrest] at h
        obtain rfl := Except.ok.inj h
        obtain ⟨rfl, hnodup, htail⟩ := ih hrest
        refine ⟨rfl, List.nodup_cons.mpr ⟨fun hmem => ?_, hnodup⟩, fun entry hentry => ?_⟩
        · obtain ⟨entry, hentry, heq⟩ := List.mem_map.mp hmem
          exact (htail entry hentry).2 (heq ▸ List.mem_cons_self)
        · rcases List.mem_cons.mp hentry with rfl | hentry
          · exact hgood
          · exact (htail entry hentry).imp_right fun hnot hmem => hnot (List.mem_cons_of_mem _ hmem)

theorem parseSnapshotState_ok [Protobuf] {serialized : Bytes} {snapshot : SnapshotContents}
    (h : parseSnapshotState serialized = .ok snapshot) :
    ∃ state, Protobuf.snapshotState.parse serialized = some state ∧
      parseSnapshotEntries RocksKVStore.isReserved "invalid Raft snapshot key set" state.entries [] =
        .ok snapshot.entries ∧
      parseSnapshotEntries (fun key => key.isEmpty || !key.contains 47) "invalid applied request set"
        state.appliedRequests [] = .ok snapshot.appliedRequests := by
  unfold parseSnapshotState at h
  split at h
  · exact absurd h (by simp)
  next state hstate =>
    split at h
    · exact absurd h (by simp)
    next entries hentries =>
      split at h
      · exact absurd h (by simp)
      next requests hrequests =>
        obtain rfl := Except.ok.inj h
        exact ⟨state, hstate, hentries, hrequests⟩

/-- The reverse: an entry set without rejected or repeated keys is accepted. -/
theorem parseSnapshotEntries_eq (bad : Bytes → Bool) (what : String) {entries : List (Bytes × Bytes)} {keys : List Bytes}
    (hnodup : (entries.map Prod.fst).Nodup) (hgood : ∀ entry ∈ entries, bad entry.1 = false ∧ entry.1 ∉ keys) :
    parseSnapshotEntries bad what (entries.map fun entry => ⟨entry.1, entry.2⟩) keys = .ok entries := by
  induction entries generalizing keys with
  | nil => rfl
  | cons first rest ih =>
    obtain ⟨hnew, hrest⟩ := List.nodup_cons.mp hnodup
    obtain ⟨hbad, hkeys⟩ := hgood first List.mem_cons_self
    have hothers : ∀ entry ∈ rest, bad entry.1 = false ∧ entry.1 ∉ first.1 :: keys := by
      intro entry hentry
      obtain ⟨hentrybad, hentrykeys⟩ := hgood entry (List.mem_cons_of_mem _ hentry)
      refine ⟨hentrybad, fun hmem => ?_⟩
      rcases List.mem_cons.mp hmem with heq | hmem
      · exact hnew (heq ▸ List.mem_map_of_mem hentry)
      · exact hentrykeys hmem
    have htail := ih hrest hothers
    simp only [List.map_cons, parseSnapshotEntries, htail, hbad, Bool.false_or, List.contains_iff_mem, hkeys, if_false]

/-- Contents that a snapshot can have. -/
structure SnapshotContents.WellFormed (contents : SnapshotContents) : Prop where
  entries_nodup : (contents.entries.map Prod.fst).Nodup
  entries_free : ∀ entry ∈ contents.entries, RocksKVStore.isReserved entry.1 = false
  requests_nodup : (contents.appliedRequests.map Prod.fst).Nodup
  requests_slash : ∀ entry ∈ contents.appliedRequests, 47 ∈ entry.1

section Codec

variable [Protobuf] {contents : SnapshotContents} {data : Bytes}

theorem SnapshotContents.WellFormed.of_parse (h : parseSnapshotState data = .ok contents) : contents.WellFormed := by
  obtain ⟨state, -, hentries, hrequests⟩ := parseSnapshotState_ok h
  obtain ⟨-, hnodup, hfree⟩ := parseSnapshotEntries_ok hentries
  obtain ⟨-, hnodup', hslash⟩ := parseSnapshotEntries_ok hrequests
  refine ⟨hnodup, fun entry hentry => (hfree entry hentry).1, hnodup', fun entry hentry => ?_⟩
  have hgood := (hslash entry hentry).1
  simp only [Bool.or_eq_false_iff, Bool.not_eq_false', List.contains_iff_mem] at hgood
  exact hgood.2

theorem SnapshotContents.WellFormed.parse (h : contents.WellFormed) :
    parseSnapshotState (serializeSnapshotState contents.entries contents.appliedRequests) = .ok contents := by
  have hrequests : ∀ entry ∈ contents.appliedRequests,
      (entry.1.isEmpty || !entry.1.contains 47) = false ∧ entry.1 ∉ ([] : List Bytes) := by
    intro entry hentry
    have hslash := h.requests_slash entry hentry
    refine ⟨?_, List.not_mem_nil⟩
    simp only [Bool.or_eq_false_iff, Bool.not_eq_false', List.contains_iff_mem, List.isEmpty_eq_false_iff]
    exact ⟨List.ne_nil_of_mem hslash, hslash⟩
  unfold parseSnapshotState serializeSnapshotState
  rw [Protobuf.snapshotState.parse_serialize]
  simp only
  rw [parseSnapshotEntries_eq _ _ h.entries_nodup fun entry hentry => ⟨h.entries_free entry hentry, List.not_mem_nil⟩]
  simp only
  rw [parseSnapshotEntries_eq (fun key => key.isEmpty || !key.contains 47) _ h.requests_nodup hrequests]

/-- Serialized contents that are accepted are read back as they are. -/
theorem parseSnapshotState_serialize {entries requests : List (Bytes × Bytes)}
    (h : parseSnapshotState (serializeSnapshotState entries requests) = .ok contents) : contents = ⟨entries, requests⟩ := by
  obtain ⟨state, hstate, hentries, hrequests⟩ := parseSnapshotState_ok h
  rw [serializeSnapshotState, Protobuf.snapshotState.parse_serialize] at hstate
  obtain rfl := Option.some.inj hstate
  obtain ⟨hentries, -⟩ := parseSnapshotEntries_ok hentries
  obtain ⟨hrequests, -⟩ := parseSnapshotEntries_ok hrequests
  rw [List.map_map] at hentries hrequests
  obtain ⟨e, r⟩ := contents
  simp only at hentries hrequests
  rw [hentries, hrequests]
  simp [Function.comp_def]

end Codec

/-! ### What a node takes from its store -/

theorem mem_getAppliedRequests {store : RocksKVStore} {key value : Bytes} :
    (key, value) ∈ RaftStorage.getAppliedRequests store ↔ store.get (clientPath ++ key) = some value := by
  unfold RaftStorage.getAppliedRequests
  rw [List.mem_map]
  constructor
  · rintro ⟨⟨full, found⟩, hmem, heq⟩
    obtain ⟨rfl, rfl⟩ := Prod.mk.inj heq
    obtain ⟨hget, hstart⟩ := store.mem_getAllPrefixedEntries.mp hmem
    rw [startsWith, List.isPrefixOf_iff_prefix] at hstart
    rwa [List.prefix_iff_eq_append.mp hstart]
  · exact fun hget => ⟨(clientPath ++ key, value),
      store.mem_getAllPrefixedEntries.mpr ⟨hget, startsWith_append _ _⟩, by rw [List.drop_left]⟩

theorem RocksKVStore.wellFormed_contents {store : RocksKVStore} (hkeys : ∀ key, store.get key ≠ none → WellKeyed key) :
    SnapshotContents.WellFormed ⟨store.getAllUserEntries, RaftStorage.getAppliedRequests store⟩ := by
  have hrequest : ∀ entry ∈ store.getAllPrefixedEntries clientPath,
      store.get entry.1 = some entry.2 ∧ startsWith clientPath entry.1 = true :=
    fun entry hentry => store.mem_getAllPrefixedEntries.mp hentry
  refine ⟨?_, fun entry hentry => (store.mem_getAllUserEntries.mp hentry).2, ?_, fun entry hentry => ?_⟩
  · exact (store.nodup_map_fst []).sublist (List.filter_sublist.map Prod.fst)
  · unfold RaftStorage.getAppliedRequests
    rw [List.map_map]
    refine List.Nodup.map_on (fun a ha b hb hab => ?_) (List.Nodup.of_map _ (store.nodup_map_fst clientPath))
    obtain ⟨hget, hstart⟩ := hrequest a ha
    obtain ⟨hget', hstart'⟩ := hrequest b hb
    rw [startsWith, List.isPrefixOf_iff_prefix] at hstart hstart'
    have hkey : a.1 = b.1 := calc
      a.1 = clientPath ++ a.1.drop clientPath.length := (List.prefix_iff_eq_append.mp hstart).symm
      _ = clientPath ++ b.1.drop clientPath.length := congrArg (clientPath ++ ·) hab
      _ = b.1 := List.prefix_iff_eq_append.mp hstart'
    exact Prod.ext hkey (Option.some.inj (hget.symm.trans ((congrArg store.get hkey).trans hget')))
  · obtain ⟨given, hgiven, rfl⟩ := List.mem_map.mp hentry
    obtain ⟨hget, hstart⟩ := hrequest given hgiven
    exact (hkeys given.1 (by simp [hget])).2 hstart

end Nukv
