import Nukv.Model.Storage
import Mathlib.Data.List.Perm.Subperm

/-!
# Reading the store back

What a key holds after a batch, what an iteration over a key range returns, and that the keys of different
records are different.
-/

namespace Nukv

/-! ### Batches -/

/-- The value a list of insertions leaves under a key. -/
def lastPut (key : Bytes) : List (Bytes × Bytes) → Option Bytes
  | [] => none
  | entry :: rest => (lastPut key rest).or (if entry.1 = key then some entry.2 else none)

theorem lastPut_append (key : Bytes) (l₁ l₂ : List (Bytes × Bytes)) :
    lastPut key (l₁ ++ l₂) = (lastPut key l₂).or (lastPut key l₁) := by
  induction l₁ with
  | nil => simp [lastPut]
  | cons entry l₁ ih => simp [lastPut, ih, Option.or_assoc]

theorem lastPut_eq_none {key : Bytes} {l : List (Bytes × Bytes)} (h : ∀ entry ∈ l, entry.1 ≠ key) :
    lastPut key l = none := by
  induction l with
  | nil => rfl
  | cons entry l ih =>
    have hhead := h entry (List.mem_cons_self ..)
    simp [lastPut, hhead, ih fun e he => h e (List.mem_cons_of_mem _ he)]

/-- With distinct keys, every insertion is the last one for its key. -/
theorem lastPut_eq_some {key value : Bytes} {l : List (Bytes × Bytes)} (hnodup : (l.map Prod.fst).Nodup)
    (h : (key, value) ∈ l) : lastPut key l = some value := by
  induction l with
  | nil => simp at h
  | cons entry l ih =>
    rw [List.map_cons, List.nodup_cons] at hnodup
    rcases List.mem_cons.mp h with rfl | hmem
    · have hnone : lastPut key l = none := lastPut_eq_none fun e he heq =>
        hnodup.1 (List.mem_map.mpr ⟨e, he, heq⟩)
      simp [lastPut, hnone]
    · simp [lastPut, ih hnodup.2 hmem]

theorem mem_of_lastPut {key value : Bytes} {l : List (Bytes × Bytes)} (h : lastPut key l = some value) :
    (key, value) ∈ l := by
  induction l with
  | nil => simp [lastPut] at h
  | cons entry l ih =>
    rw [lastPut, Option.or_eq_some_iff] at h
    rcases h with h | ⟨-, h⟩
    · exact List.mem_cons_of_mem _ (ih h)
    · split at h
      · next heq =>
        obtain rfl := Option.some.inj h
        rw [← heq]
        exact List.mem_cons_self ..
      · exact absurd h (by simp)

theorem lastPut_eq_some_iff {key value : Bytes} {l : List (Bytes × Bytes)} (hnodup : (l.map Prod.fst).Nodup) :
    lastPut key l = some value ↔ (key, value) ∈ l :=
  ⟨mem_of_lastPut, lastPut_eq_some hnodup⟩

theorem getElem?_foldl_insert (data : Std.ExtTreeMap Bytes Bytes compare) (puts : List (Bytes × Bytes))
    (key : Bytes) :
    (puts.foldl (fun data entry => data.insert entry.1 entry.2) data)[key]? =
      (lastPut key puts).or data[key]? := by
  induction puts generalizing data with
  | nil => simp [lastPut]
  | cons entry puts ih =>
    rw [List.foldl_cons, ih, lastPut, Std.ExtTreeMap.getElem?_insert, Option.or_assoc]
    congr 1
    simp only [Std.LawfulEqCmp.compare_eq_iff_eq]
    split <;> rfl

theorem getElem?_foldl_erase (data : Std.ExtTreeMap Bytes Bytes compare) (deletes : List Bytes)
    (key : Bytes) :
    (deletes.foldl (fun data key => data.erase key) data)[key]? =
      if key ∈ deletes then none else data[key]? := by
  induction deletes generalizing data with
  | nil => simp
  | cons head deletes ih =>
    rw [List.foldl_cons, ih, Std.ExtTreeMap.getElem?_erase]
    simp only [Std.LawfulEqCmp.compare_eq_iff_eq, List.mem_cons]
    by_cases h : key ∈ deletes
    · simp [h]
    · by_cases h' : head = key
      · simp [h']
      · simp [h, h', Ne.symm h']

theorem WriteBatch.getElem?_applyTo (batch : WriteBatch) (data : Std.ExtTreeMap Bytes Bytes compare)
    (key : Bytes) :
    (batch.applyTo data)[key]? =
      (lastPut key batch.puts).or (if key ∈ batch.deletes then none else data[key]?) := by
  rw [WriteBatch.applyTo, getElem?_foldl_insert, getElem?_foldl_erase]

/-! ### Iteration -/

theorem compare_cons (x y : UInt8) (a b : Bytes) :
    compare (x :: a) (y :: b) = (compare x y).then (compare a b) :=
  List.compareLex_cons_cons

theorem not_lt_of_startsWith {head key : Bytes} (h : startsWith head key = true) :
    compare key head ≠ .lt := by
  induction head generalizing key with
  | nil => cases key <;> simp [compare, List.compareLex]
  | cons b head ih =>
    cases key with
    | nil => simp [startsWith] at h
    | cons c key =>
      simp only [startsWith, List.isPrefixOf, Bool.and_eq_true, beq_iff_eq] at h
      obtain ⟨rfl, h⟩ := h
      rw [compare_cons, show compare b b = .eq from Std.ReflCmp.compare_self]
      exact ih h

/-- The keys that start with `head` follow each other in the order of the keys. -/
theorem startsWith_of_between {head a b : Bytes} (ha : compare a head ≠ .lt) (hab : compare a b = .lt)
    (hb : startsWith head b = true) : startsWith head a = true := by
  induction head generalizing a b with
  | nil => rfl
  | cons x head ih =>
    cases b with
    | nil => simp [startsWith] at hb
    | cons y b =>
      simp only [startsWith, List.isPrefixOf, Bool.and_eq_true, beq_iff_eq] at hb
      obtain ⟨rfl, hb⟩ := hb
      cases a with
      | nil => exact absurd rfl ha
      | cons z a =>
        rw [compare_cons] at ha hab
        cases hzx : compare z x with
        | lt => simp [hzx, Ordering.then] at ha
        | gt => simp [hzx, Ordering.then] at hab
        | eq =>
          rw [hzx] at ha hab
          obtain rfl := Std.LawfulEqCmp.compare_eq_iff_eq.mp hzx
          have := ih ha hab hb
          simp [startsWith, List.isPrefixOf] at this ⊢
          exact this

theorem takeWhile_startsWith {head : Bytes} {l : List (Bytes × Bytes)}
    (hsorted : l.Pairwise fun a b => compare a.1 b.1 = .lt)
    (hge : ∀ entry ∈ l, compare entry.1 head ≠ .lt) :
    (l.takeWhile fun entry => startsWith head entry.1) = l.filter fun entry => startsWith head entry.1 := by
  induction l with
  | nil => rfl
  | cons entry l ih =>
    rw [List.pairwise_cons] at hsorted
    rw [List.takeWhile_cons, List.filter_cons]
    split
    · rw [ih hsorted.2 fun e he => hge e (List.mem_cons_of_mem _ he)]
    · next h =>
      symm
      rw [List.filter_eq_nil_iff]
      intro e he hstarts
      exact h (startsWith_of_between (hge entry (List.mem_cons_self ..)) (hsorted.1 e he) hstarts)

theorem dropWhile_takeWhile_startsWith {head : Bytes} {l : List (Bytes × Bytes)}
    (hsorted : l.Pairwise fun a b => compare a.1 b.1 = .lt) :
    ((l.dropWhile fun entry => compare entry.1 head == .lt).takeWhile fun entry =>
        startsWith head entry.1) = l.filter fun entry => startsWith head entry.1 := by
  induction l with
  | nil => rfl
  | cons entry l ih =>
    rw [List.dropWhile_cons]
    split
    · next h =>
      have hnot : ¬ startsWith head entry.1 = true := fun hs =>
        not_lt_of_startsWith hs (by simpa using h)
      rw [List.filter_cons, if_neg hnot]
      exact ih (List.pairwise_cons.mp hsorted).2
    · next h =>
      refine takeWhile_startsWith hsorted fun e he => ?_
      rcases List.mem_cons.mp he with rfl | hmem
      · simpa using h
      · -- later keys are larger still
        have hlt := (List.pairwise_cons.mp hsorted).1 e hmem
        have hentry : compare entry.1 head ≠ .lt := by simpa using h
        intro hcon
        exact hentry (Std.TransCmp.lt_trans hlt hcon)

namespace RocksKVStore

theorem getAllPrefixedEntries_eq (store : RocksKVStore) (head : Bytes) :
    store.getAllPrefixedEntries head = store.data.toList.filter fun entry => startsWith head entry.1 := by
  unfold getAllPrefixedEntries
  split
  · next h => simp [h, startsWith]
  · exact dropWhile_takeWhile_startsWith Std.ExtTreeMap.ordered_keys_toList

theorem mem_toList (store : RocksKVStore) {key value : Bytes} :
    (key, value) ∈ store.data.toList ↔ store.get key = some value :=
  Std.ExtTreeMap.mem_toList_iff_getElem?_eq_some

theorem mem_getAllPrefixedEntries (store : RocksKVStore) {head key value : Bytes} :
    (key, value) ∈ store.getAllPrefixedEntries head ↔
      store.get key = some value ∧ startsWith head key = true := by
  rw [getAllPrefixedEntries_eq, List.mem_filter, mem_toList]

theorem mem_getAllUserEntries (store : RocksKVStore) {key value : Bytes} :
    (key, value) ∈ store.getAllUserEntries ↔ store.get key = some value ∧ isReserved key = false := by
  rw [getAllUserEntries, List.mem_filter, mem_getAllPrefixedEntries]
  simp [startsWith]

theorem mem_map_fst {store : RocksKVStore} {head key : Bytes} :
    key ∈ (store.getAllPrefixedEntries head).map Prod.fst ↔
      (store.get key).isSome ∧ startsWith head key = true := by
  constructor
  · rintro h
    obtain ⟨⟨k, v⟩, hmem, rfl⟩ := List.mem_map.mp h
    rw [mem_getAllPrefixedEntries] at hmem
    exact ⟨by simp [hmem.1], hmem.2⟩
  · rintro ⟨hsome, hstarts⟩
    obtain ⟨v, hv⟩ := Option.isSome_iff_exists.mp hsome
    exact List.mem_map.mpr ⟨(key, v), store.mem_getAllPrefixedEntries.mpr ⟨hv, hstarts⟩, rfl⟩

theorem nodup_map_fst (store : RocksKVStore) (head : Bytes) :
    ((store.getAllPrefixedEntries head).map Prod.fst).Nodup := by
  rw [getAllPrefixedEntries_eq]
  refine List.Nodup.sublist (List.filter_sublist.map Prod.fst) ?_
  rw [Std.ExtTreeMap.map_fst_toList_eq_keys]
  exact Std.ExtTreeMap.nodup_keys

/-- A list of different keys that are all present is no longer than the store. -/
theorem length_le_size (store : RocksKVStore) {keys : List Bytes} (hnodup : keys.Nodup)
    (h : ∀ key ∈ keys, (store.get key).isSome) : keys.length ≤ store.data.size := by
  rw [← Std.ExtTreeMap.length_keys]
  refine (List.Nodup.subperm hnodup fun key hkey => ?_).length_le
  obtain ⟨v, hv⟩ := Option.isSome_iff_exists.mp (h key hkey)
  rw [← Std.ExtTreeMap.map_fst_toList_eq_keys]
  exact List.mem_map.mpr ⟨(key, v), store.mem_toList.mpr hv, rfl⟩

end RocksKVStore

/-! ### Keys -/

theorem startsWith_append (head tail : Bytes) : startsWith head (head ++ tail) = true := by
  rw [startsWith, List.isPrefixOf_iff_prefix]
  exact List.prefix_append head tail

/-- A key that starts with two texts: the shorter text starts the longer one. -/
theorem startsWith_of_startsWith {a b key : Bytes} (ha : startsWith a key = true)
    (hb : startsWith b key = true) (hle : a.length ≤ b.length) : startsWith a b = true := by
  rw [startsWith, List.isPrefixOf_iff_prefix] at *
  exact List.prefix_of_prefix_length_le ha hb hle

theorem logKey_injective {i j : Nat} (h : logKey i = logKey j) : i = j :=
  decimal_injective (List.append_cancel_left h)

theorem startsWith_logKey (index : Nat) : startsWith logPath (logKey index) = true :=
  startsWith_append _ _

theorem ne_logKey {key : Bytes} (h : startsWith logPath key = false) (index : Nat) : logKey index ≠ key := by
  rintro rfl
  rw [startsWith_logKey] at h
  exact absurd h (by simp)

theorem startsWith_raft_of {path key : Bytes} (hpath : startsWith (ascii "__raft/") path = true)
    (h : startsWith path key = true) : RocksKVStore.isReserved key = true := by
  rw [startsWith, List.isPrefixOf_iff_prefix] at hpath h
  rw [RocksKVStore.isReserved, startsWith, List.isPrefixOf_iff_prefix]
  exact hpath.trans h

theorem isReserved_of_logPath {key : Bytes} (h : startsWith logPath key = true) :
    RocksKVStore.isReserved key = true :=
  startsWith_raft_of (by decide) h

theorem isReserved_of_clientPath {key : Bytes} (h : startsWith clientPath key = true) :
    RocksKVStore.isReserved key = true :=
  startsWith_raft_of (by decide) h

theorem not_logPath_of_clientPath {key : Bytes} (h : startsWith clientPath key = true) :
    startsWith logPath key = false := by
  cases hlog : startsWith logPath key with
  | false => rfl
  | true => exact absurd (startsWith_of_startsWith hlog h (by decide)) (by decide)

/-- The fixed records: the counters and the snapshot. -/
def fixedKeys : List Bytes :=
  [currentTermKey, votedForKey, commitIndexKey, lastAppliedKey, snapshotIndexKey, snapshotTermKey,
    snapshotMetadataKey, snapshotDataKey]

theorem isReserved_of_fixedKeys : ∀ key ∈ fixedKeys, RocksKVStore.isReserved key = true := by decide

theorem not_logPath_of_fixedKeys : ∀ key ∈ fixedKeys, startsWith logPath key = false := by decide

theorem logKey_not_mem_fixedKeys (index : Nat) : logKey index ∉ fixedKeys := fun h =>
  ne_logKey (not_logPath_of_fixedKeys _ h) index rfl

theorem not_clientPath_of_fixedKeys : ∀ key ∈ fixedKeys, startsWith clientPath key = false := by decide

theorem fixedKeys_nodup : fixedKeys.Nodup := by decide

/-- A key under the path of the log stands for an index, and one under the path of the clients for a request. -/
def WellKeyed (key : Bytes) : Prop :=
  (startsWith logPath key = true → ∃ index, key = logKey index) ∧
    (startsWith clientPath key = true → 47 ∈ key.drop clientPath.length)

theorem wellKeyed_of_fixedKeys {key : Bytes} (h : key ∈ fixedKeys) : WellKeyed key := by
  constructor
  · rw [not_logPath_of_fixedKeys key h]
    simp
  · rw [not_clientPath_of_fixedKeys key h]
    simp

theorem wellKeyed_of_not_reserved {key : Bytes} (h : RocksKVStore.isReserved key = false) : WellKeyed key := by
  constructor
  · intro hlog
    rw [isReserved_of_logPath hlog] at h
    exact absurd h (by simp)
  · intro hclient
    rw [isReserved_of_clientPath hclient] at h
    exact absurd h (by simp)

theorem wellKeyed_logKey (index : Nat) : WellKeyed (logKey index) := by
  refine ⟨fun _ => ⟨index, rfl⟩, fun hclient => ?_⟩
  have hlog := not_logPath_of_clientPath hclient
  rw [startsWith_logKey] at hlog
  exact absurd hlog (by simp)

theorem wellKeyed_request {rest : Bytes} (h : 47 ∈ rest) : WellKeyed (clientPath ++ rest) := by
  refine ⟨fun hlog => ?_, fun _ => ?_⟩
  · rw [not_logPath_of_clientPath (startsWith_append clientPath rest)] at hlog
    exact absurd hlog (by simp)
  · rw [List.drop_left]
    exact h

end Nukv
