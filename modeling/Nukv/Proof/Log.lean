import Nukv.Model.Handlers

/-!
# The retained log

Reading a log whose beginning was given up to a snapshot, and what the loop of `HandleAppendEntries` makes
of it.
-/

namespace Nukv

namespace RaftNode

variable {s s' : RaftNode}

theorem entryAt_eq_ok {m : Nat} {entry : RaftLogEntry} :
    s.entryAt m = .ok entry ↔ s.snapshotIndex < m ∧ s.log[m - s.snapshotIndex - 1]? = some entry := by
  unfold entryAt
  split
  · next hle => simp; omega
  · next hlt =>
    split
    · next hnone => simp [hnone]
    · next e he => simp [he, Nat.lt_of_not_le hlt]

theorem termAt_snapshot (s : RaftNode) : s.termAt s.snapshotIndex = s.snapshotTerm := if_pos rfl

theorem termAt_of_entry {i : Nat} {entry : RaftLogEntry} (h : s.log[i]? = some entry) :
    s.termAt (s.snapshotIndex + i + 1) = entry.term := by
  have hentry : s.entryAt (s.snapshotIndex + i + 1) = .ok entry :=
    entryAt_eq_ok.mpr ⟨by omega, by rwa [show s.snapshotIndex + i + 1 - s.snapshotIndex - 1 = i by omega]⟩
  unfold termAt
  rw [if_neg (by omega), hentry]

/-- Dropping the entries up to `j` leaves the ones above in place. -/
theorem entryAt_compact {s s' : RaftNode} {j m : Nat} (hj : s.snapshotIndex ≤ j)
    (hindex : s'.snapshotIndex = j) (hlog : s'.log = s.log.drop (j - s.snapshotIndex)) (hm : j < m) :
    s'.entryAt m = s.entryAt m := by
  have hoffset : j - s.snapshotIndex + (m - j - 1) = m - s.snapshotIndex - 1 := by omega
  unfold entryAt
  rw [hindex, hlog, if_neg (by omega), if_neg (by omega), List.getElem?_drop, hoffset]

theorem termAt_compact {s s' : RaftNode} {j m : Nat} (hj : s.snapshotIndex ≤ j)
    (hindex : s'.snapshotIndex = j) (hterm : s'.snapshotTerm = s.termAt j)
    (hlog : s'.log = s.log.drop (j - s.snapshotIndex)) (hm : j ≤ m) : s'.termAt m = s.termAt m := by
  rcases Nat.eq_or_lt_of_le hm with rfl | hlt
  · rw [← hterm, termAt, if_pos hindex.symm]
  · unfold termAt
    rw [entryAt_compact hj hindex hlog hlt, if_neg (by omega), if_neg (by omega)]

theorem lastIndex_compact {s s' : RaftNode} {j : Nat} (hj : s.snapshotIndex ≤ j) (hle : j ≤ s.lastIndex)
    (hindex : s'.snapshotIndex = j) (hlog : s'.log = s.log.drop (j - s.snapshotIndex)) :
    s'.lastIndex = s.lastIndex := by
  unfold lastIndex at *
  rw [hindex, hlog, List.length_drop]
  omega

theorem termAt_of_entryAt {m : Nat} {entry : RaftLogEntry} (h : s.entryAt m = .ok entry) : s.termAt m = entry.term := by
  have hlow := (entryAt_eq_ok.mp h).1
  unfold termAt
  rw [if_neg (by omega), h]

theorem termAt_congr {m : Nat} (hindex : s'.snapshotIndex = s.snapshotIndex) (hterm : s'.snapshotTerm = s.snapshotTerm)
    (h : s'.entryAt m = s.entryAt m) : s'.termAt m = s.termAt m := by
  unfold termAt
  rw [hindex, hterm, h]

/-- A log cut after `m` and continued with other entries. -/
theorem entryAt_splice {m : Nat} {rest : List RaftLogEntry} (hlow : s.snapshotIndex ≤ m) (hhigh : m ≤ s.lastIndex)
    (hindex : s'.snapshotIndex = s.snapshotIndex) (hlog : s'.log = s.log.take (m - s.snapshotIndex) ++ rest) :
    (∀ k ≤ m, s'.entryAt k = s.entryAt k) ∧
      (∀ k entry, rest[k]? = some entry → s'.entryAt (m + k + 1) = .ok entry) ∧
      s'.lastIndex = m + rest.length := by
  have htake : (s.log.take (m - s.snapshotIndex)).length = m - s.snapshotIndex := by
    unfold lastIndex at hhigh
    rw [List.length_take]
    omega
  refine ⟨fun k hk => ?_, fun k entry hentry => ?_, ?_⟩
  · unfold entryAt
    rw [hindex, hlog]
    split
    · rfl
    · rw [List.getElem?_append_left (by omega), List.getElem?_take_of_lt (by omega)]
  · refine entryAt_eq_ok.mpr ⟨by omega, ?_⟩
    rw [hindex, hlog, List.getElem?_append_right (by omega), htake,
      show m + k + 1 - s.snapshotIndex - 1 - (m - s.snapshotIndex) = k by omega, hentry]
  · unfold lastIndex
    rw [hindex, hlog, List.length_append, htake]
    omega

theorem entryAt_past {m : Nat} (h : s.lastIndex < m) :
    s.entryAt m = .error (.outOfRange "Raft log index is outside retained log") := by
  unfold entryAt
  split
  · rfl
  · have hnone : s.log[m - s.snapshotIndex - 1]? = none := by
      unfold lastIndex at h
      exact List.getElem?_eq_none (by omega)
    rw [hnone]

theorem exists_entryAt {m : Nat} (hlow : s.snapshotIndex < m) (hhigh : m ≤ s.lastIndex) :
    ∃ entry ∈ s.log, s.entryAt m = .ok entry := by
  unfold lastIndex at hhigh
  have hentry : s.log[m - s.snapshotIndex - 1]? = some s.log[m - s.snapshotIndex - 1] :=
    List.getElem?_eq_getElem (by omega)
  exact ⟨_, List.getElem_mem _, entryAt_eq_ok.mpr ⟨hlow, hentry⟩⟩

end RaftNode

/-- The entries follow the index `prev` without a gap. -/
def Consecutive (prev : Nat) : List Proto.RaftLogEntry → Prop
  | [] => True
  | entry :: rest => entry.index = prev + 1 ∧ Consecutive (prev + 1) rest

instance Consecutive.decidable : (prev : Nat) → (entries : List Proto.RaftLogEntry) → Decidable (Consecutive prev entries)
  | _, [] => .isTrue trivial
  | prev, entry :: rest =>
    have := Consecutive.decidable (prev + 1) rest
    inferInstanceAs (Decidable (entry.index = prev + 1 ∧ Consecutive (prev + 1) rest))

theorem Consecutive.index {prev : Nat} {entries : List Proto.RaftLogEntry} (h : Consecutive prev entries) {i : Nat}
    {entry : Proto.RaftLogEntry} (hentry : entries[i]? = some entry) : entry.index = prev + i + 1 := by
  induction entries generalizing prev i with
  | nil => simp at hentry
  | cons first rest ih =>
    obtain ⟨hfirst, hrest⟩ := h
    cases i with
    | zero =>
      obtain rfl : first = entry := by simpa using hentry
      exact hfirst
    | succ i =>
      rw [ih hrest (by simpa using hentry)]
      omega

/-- The entry a node stores for one it received. -/
def storedEntry (entry : Proto.RaftLogEntry) : RaftLogEntry := ⟨entry.term, entry.command⟩

namespace NodeM

variable {node : RaftNode} {index : Nat} {entries : List Proto.RaftLogEntry}

theorem prevMatches_iff {request : Proto.AppendEntriesRequest} : prevMatches node request = true ↔
    node.snapshotIndex ≤ request.prevLogIndex ∧ request.prevLogIndex ≤ node.lastIndex ∧
      node.termAt request.prevLogIndex = request.prevLogTerm := by
  simp only [prevMatches, Bool.and_eq_true, decide_eq_true_eq, beq_iff_eq, and_assoc]

/-- The loop reads the log, the label of the snapshot and the commit index. -/
theorem mergeEntries_congr {node' : RaftNode} (hlog : node'.log = node.log)
    (hindex : node'.snapshotIndex = node.snapshotIndex) (hterm : node'.snapshotTerm = node.snapshotTerm)
    (hcommit : node'.commitIndex = node.commitIndex) :
    mergeEntries node' index entries = mergeEntries node index entries := by
  induction entries generalizing node node' index with
  | nil => rw [mergeEntries, mergeEntries, hlog]
  | cons entry rest ih =>
    have hlast : node'.lastIndex = node.lastIndex := by
      unfold RaftNode.lastIndex
      rw [hindex, hlog]
    have hentry : node'.entryAt (index + 1) = node.entryAt (index + 1) := by
      unfold RaftNode.entryAt
      rw [hindex, hlog]
    -- the two branches that write go on from the same log
    have hwrite : ∀ log, mergeEntries { node' with log := log } (index + 1) rest =
        mergeEntries { node with log := log } (index + 1) rest := fun log => ih rfl hindex hterm hcommit
    rw [mergeEntries, mergeEntries, ih hlog hindex hterm hcommit, hwrite, hwrite, hlast,
      RaftNode.termAt_congr hindex hterm hentry, hcommit, hlog, hindex]

/-- Past the end of the log every entry is appended. -/
theorem mergeEntries_append (hconsecutive : Consecutive index entries) (hlast : node.lastIndex = index) :
    mergeEntries node index entries =
      ⟨true, index + entries.length, node.log ++ entries.map storedEntry⟩ := by
  induction entries generalizing node index with
  | nil => simp [mergeEntries]
  | cons entry rest ih =>
    obtain ⟨hindex, hrest⟩ := hconsecutive
    unfold mergeEntries
    rw [if_neg (by simpa using hindex), if_neg (by omega), ih hrest]
    · simp [storedEntry]
      omega
    · unfold RaftNode.lastIndex at *
      simp only [List.length_append, List.length_singleton]
      omega

/-- A loop that goes through has seen consecutive entries. -/
theorem consecutive_of_mergeEntries (h : (mergeEntries node index entries).success = true) :
    Consecutive index entries := by
  induction entries generalizing node index with
  | nil => trivial
  | cons entry rest ih =>
    unfold mergeEntries at h
    split at h
    · exact absurd h (by simp)
    · next hindex =>
      refine ⟨not_not.mp hindex, ?_⟩
      split at h
      · split at h
        · exact ih h
        · split at h
          · exact absurd h (by simp)
          · exact ih h
      · exact ih h

/-- The three ways the loop can go: every entry is there already; the first `i` are, and the rest replaces what
follows; or an entry contradicts a committed one, and nothing has been changed. -/
inductive MergeResult (node : RaftNode) (index : Nat) (entries : List Proto.RaftLogEntry) : Merge → Prop
  | present :
      (∀ i entry, entries[i]? = some entry → index + i + 1 ≤ node.lastIndex ∧
        node.termAt (index + i + 1) = entry.term) →
      MergeResult node index entries ⟨true, index + entries.length, node.log⟩
  | replaced (i : Nat) :
      i < entries.length → index + i ≤ node.lastIndex →
      (∀ j entry, j < i → entries[j]? = some entry → node.termAt (index + j + 1) = entry.term) →
      (index + i = node.lastIndex ∨ node.commitIndex ≤ index + i ∧
        ∀ entry, entries[i]? = some entry → node.termAt (index + i + 1) ≠ entry.term) →
      MergeResult node index entries ⟨true, index + entries.length,
        node.log.take (index + i - node.snapshotIndex) ++ (entries.drop i).map storedEntry⟩
  | refused (entry : Proto.RaftLogEntry) (last : Nat) :
      entry ∈ entries → node.snapshotIndex < entry.index → entry.index ≤ node.lastIndex →
      entry.index ≤ node.commitIndex → node.termAt entry.index ≠ entry.term →
      MergeResult node index entries ⟨false, last, node.log⟩

/-- An entry that is there already leaves the outcome of the rest. -/
theorem MergeResult.cons {entry : Proto.RaftLogEntry} {merge : Merge} (hle : index + 1 ≤ node.lastIndex)
    (hterm : node.termAt (index + 1) = entry.term) (h : MergeResult node (index + 1) entries merge) :
    MergeResult node index (entry :: entries) merge := by
  have hlength : index + 1 + entries.length = index + (entry :: entries).length := by
    rw [List.length_cons]; omega
  have hshift : ∀ j, index + (j + 1) + 1 = index + 1 + j + 1 := fun j => by omega
  cases h with
  | present hpresent =>
    rw [hlength]
    refine .present fun i e he => ?_
    cases i with
    | zero => exact ⟨hle, by rw [hterm]; simpa using congrArg (Option.map Proto.RaftLogEntry.term) he⟩
    | succ i =>
      rw [hshift]
      exact hpresent i e (by simpa using he)
  | replaced i hi hend hbefore hreason =>
    have hindex : index + 1 + i = index + (i + 1) := by omega
    rw [hlength, hindex]
    refine .replaced (i + 1) (by simpa using hi) (by omega) (fun j e hj he => ?_) ?_
    · cases j with
      | zero => rw [hterm]; simpa using congrArg (Option.map Proto.RaftLogEntry.term) he
      | succ j =>
        rw [hshift]
        exact hbefore j e (by omega) (by simpa using he)
    · rw [← hindex]
      simpa using hreason
  | refused e last hmem hlow hhigh hcommit hne =>
    exact .refused e last (List.mem_cons_of_mem _ hmem) hlow hhigh hcommit hne

theorem mergeEntries_result (hconsecutive : Consecutive index entries) (hlow : node.snapshotIndex ≤ index)
    (hhigh : index ≤ node.lastIndex) :
    MergeResult node index entries (mergeEntries node index entries) := by
  induction entries generalizing index with
  | nil => exact .present (by simp)
  | cons entry rest ih =>
    obtain ⟨hindex, hrest⟩ := hconsecutive
    have hlength : index + 1 + rest.length = index + (entry :: rest).length := by
      rw [List.length_cons]; omega
    have hreplaced : index = node.lastIndex ∨ node.commitIndex ≤ index ∧ node.termAt (index + 1) ≠ entry.term →
        MergeResult node index (entry :: rest) ⟨true, index + (entry :: rest).length,
          node.log.take (index - node.snapshotIndex) ++ storedEntry entry :: rest.map storedEntry⟩ :=
      fun hreason => .replaced 0 (by simp) hhigh (by simp) (by simpa using hreason)
    unfold mergeEntries
    rw [if_neg (by simpa using hindex)]
    split
    · next hle =>
      split
      · next hterm => exact (ih hrest (by omega) hle).cons hle hterm
      · next hterm =>
        split
        · next hcommit =>
          rw [← hindex] at hle hterm hcommit ⊢
          exact .refused entry _ List.mem_cons_self (by omega) hle hcommit hterm
        · next hcommit =>
          rw [mergeEntries_append hrest, hlength]
          · simpa [storedEntry] using hreplaced (.inr ⟨by omega, hterm⟩)
          · unfold RaftNode.lastIndex at *
            simp only [List.length_append, List.length_take, List.length_singleton]
            omega
    · next hgt =>
      have hlast : index = node.lastIndex := by omega
      rw [mergeEntries_append hrest, hlength]
      · have htake : node.log.take (index - node.snapshotIndex) = node.log := by
          rw [List.take_of_length_le]
          unfold RaftNode.lastIndex at hlast
          omega
        simpa [storedEntry, htake] using hreplaced (.inl hlast)
      · unfold RaftNode.lastIndex at *
        simp only [List.length_append, List.length_singleton]
        omega

/-- What the loop leaves in the log was there or is in the request. -/
theorem MergeResult.mem_log {merge : Merge} (h : MergeResult node index entries merge) {entry : RaftLogEntry}
    (hentry : entry ∈ merge.log) : entry ∈ node.log ∨ ∃ incoming ∈ entries, entry = storedEntry incoming := by
  cases h with
  | present => exact .inl hentry
  | refused => exact .inl hentry
  | replaced i =>
    rcases List.mem_append.mp hentry with hold | hnew
    · exact .inl (List.mem_of_mem_take hold)
    · obtain ⟨incoming, hincoming, rfl⟩ := List.mem_map.mp hnew
      exact .inr ⟨incoming, List.mem_of_mem_drop hincoming, rfl⟩

/-- After a loop that went through, the log reaches the last entry of the request and has its term. -/
theorem MergeResult.reaches {merge : Merge} {prevTerm : Nat} (h : MergeResult node index entries merge)
    (hsuccess : merge.success = true) (hlow : node.snapshotIndex ≤ index) (hhigh : index ≤ node.lastIndex)
    (hprev : node.termAt index = prevTerm) :
    merge.index = index + entries.length ∧ merge.index ≤ node.snapshotIndex + merge.log.length ∧
      ({ node with log := merge.log } : RaftNode).termAt merge.index =
        (entries.getLast?.map Proto.RaftLogEntry.term).getD prevTerm := by
  cases h with
  | refused => exact absurd hsuccess (by simp)
  | present hpresent =>
    refine ⟨rfl, ?_⟩
    rcases List.eq_nil_or_concat entries with rfl | ⟨rest, entry, rfl⟩
    · exact ⟨hhigh, hprev⟩
    · obtain ⟨hle, hterm⟩ := hpresent rest.length entry (by simp)
      refine ⟨by simpa [RaftNode.lastIndex, Nat.add_assoc] using hle, ?_⟩
      simpa [Nat.add_assoc] using hterm
  | replaced i hi hend hbefore hreason =>
    rcases List.eq_nil_or_concat entries with rfl | ⟨rest, entry, rfl⟩
    · exact absurd hi (by simp)
    · have htake : (node.log.take (index + i - node.snapshotIndex)).length = index + i - node.snapshotIndex := by
        rw [List.length_take]
        unfold RaftNode.lastIndex at hend
        omega
      simp only [List.concat_eq_append, List.length_append, List.length_singleton] at hi ⊢
      refine ⟨trivial, ?_, ?_⟩
      · rw [List.length_map, List.length_drop, htake, List.length_append, List.length_singleton]
        omega
      · have hentry : (node.log.take (index + i - node.snapshotIndex) ++
            ((rest ++ [entry]).drop i).map storedEntry)[index + rest.length - node.snapshotIndex]? =
              some (storedEntry entry) := by
          rw [List.getElem?_append_right (by rw [htake]; omega), htake, List.getElem?_map, List.getElem?_drop,
            show i + (index + rest.length - node.snapshotIndex - (index + i - node.snapshotIndex)) = rest.length by
              omega]
          simp
        have hterm := RaftNode.termAt_of_entry (s := { node with log := _ }) hentry
        rw [show index + (rest.length + 1) =
          node.snapshotIndex + (index + rest.length - node.snapshotIndex) + 1 by omega]
        simpa [storedEntry] using hterm

/-- What `TryAdvanceCommit` finds. -/
theorem commitCandidate_some {node : RaftNode} {index : Nat} (h : commitCandidate node = some index) :
    node.commitIndex < index ∧ index ≤ node.lastIndex ∧ node.termAt index = node.currentTerm ∧
      node.peers.length / 2 < replicated node index := by
  unfold commitCandidate at h
  have hmem := List.mem_of_find?_eq_some h
  have hsome := List.find?_some h
  rw [List.mem_reverse, List.mem_range'_1] at hmem
  rw [decide_eq_true_eq] at hsome
  exact ⟨by omega, by omega, hsome⟩

end NodeM

end Nukv
