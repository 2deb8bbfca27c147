import Nukv.Property.Failures

/-!
# Installing a snapshot

The chunk that completes a transfer makes `HandleInstallSnapshot` replace the user entries and the records of requests
by those of the snapshot, keep the entries of its log that follow the snapshot, if the log has the last entry of the
snapshot, and apply again what it had committed beyond it. All of this stands in one `try` block: an exception of
`ApplyCommitted` is answered with a failure, although the snapshot is installed by then.
-/

namespace Nukv

open Base

/-- The data of the transfer that a chunk belongs to, with the chunk. -/
def assembled (node : RaftNode) (request : Proto.InstallSnapshotRequest) : Bytes :=
  (NodeM.openTransfer request node).incomingSnapshotData ++ request.data

/-- The chunk is the last one of a snapshot that is newer than the node's. -/
structure Completes (node : RaftNode) (request : Proto.InstallSnapshotRequest) : Prop where
  valid : NodeM.validChunk request = true
  newer : node.snapshotIndex < request.lastIncludedIndex
  first : NodeM.startsTransfer node request → request.offset = 0
  offset : request.offset = (NodeM.openTransfer request node).incomingSnapshotData.length
  last : request.done = true

/-- The node with the chunk. -/
def RaftNode.gathered (node : RaftNode) (request : Proto.InstallSnapshotRequest) : RaftNode :=
  { NodeM.openTransfer request node with incomingSnapshotData := assembled node request }

theorem RaftNode.gathered_eq (node : RaftNode) (request : Proto.InstallSnapshotRequest) :
    node.gathered request = { node with toIncomingSnapshot :=
      ⟨request.lastIncludedIndex, request.lastIncludedTerm, assembled node request, true⟩ } := by
  unfold gathered NodeM.openTransfer
  split
  · rfl
  · next h =>
    simp only [NodeM.startsTransfer, not_or, not_not, Bool.not_eq_false] at h
    rw [← h.1, ← h.2.1, ← h.2.2.1]

/-- A store that has the contents of a snapshot and nothing else. -/
def SnapshotContents.restored (snapshot : SnapshotContents) : RocksKVStore :=
  RocksKVStore.empty.written
    ⟨snapshot.entries ++ snapshot.appliedRequests.map fun entry => (clientPath ++ entry.1, entry.2), []⟩

variable [Protobuf] {node s : RaftNode} {es : List Event} {request : Proto.InstallSnapshotRequest}
  {snapshot : SnapshotContents} {store : RocksKVStore}

/-- Installing a snapshot leaves its contents to the state machine. -/
theorem RaftNode.installed_agrees (s : RaftNode) (snapshot : SnapshotContents) :
    snapshot.restored.Agrees (s.installed snapshot).store := by
  intro key hkey
  have hlog : startsWith logPath key = false := by
    refine Bool.eq_false_iff.mpr fun hlog => ?_
    rcases hkey with hfree | hclient
    · exact absurd (hfree.symm.trans (isReserved_of_logPath hlog)) (by simp)
    · exact absurd (hlog.symm.trans (not_logPath_of_clientPath hclient)) (by simp)
  change (s.store.written _).get key = _
  rw [RaftStorage.get_applySnapshot_replaced (hkey.imp id .inl), SnapshotContents.restored, RocksKVStore.get_written,
    if_neg List.not_mem_nil, lastPut_append, RaftStorage.lastPut_logEntries_of_not_logPath hlog, Option.none_or]
  simp [RocksKVStore.empty, RocksKVStore.get]

/-! ### The handler -/

/-- The exception of an installation. -/
def NodeM.abandonInstall : NodeM (Bool × Nat) := do
  Prog.modify clearIncoming
  return (false, 0)

/-- A chunk that does not complete a snapshot changes the transfer only. -/
theorem ends_acceptSnapshot {Q : Bool × Nat → List Event → RaftNode → Prop} {E : List Event → RaftNode → Prop}
    (hchunk : ¬ Completes s request → ∀ answer incoming, Q answer es { s with toIncomingSnapshot := incoming })
    (hlast : Completes s request →
      Prog.Ends (Prog.attempt NodeM.finishInstall fun _ => NodeM.abandonInstall) Q E es (s.gathered request)) :
    Prog.Ends (NodeM.acceptSnapshot request) Q E es s := by
  have hsame : ¬ Completes s request → ∀ answer, Q answer es s := fun hnot answer =>
    hchunk hnot answer s.toIncomingSnapshot
  have hopened : ¬ Completes s request → ∀ answer, Q answer es (NodeM.openTransfer request s) := by
    intro hnot answer
    unfold NodeM.openTransfer
    split
    · exact hchunk hnot answer _
    · exact hsame hnot answer
  refine .get (.ite (fun hinvalid => .ret (hsame (fun h => ?_) _)) fun hvalid => .ite (fun hold => .ret
    (hsame (fun h => h.newer.ne hold.1.symm) _)) fun _ => .ite (fun hnewer => ?_) fun hold => .ret
    (hsame (fun h => hold h.newer) _))
  · exact absurd (hinvalid.symm.trans h.valid) (by simp)
  refine .get (.ite (fun hlate => .ret (hsame (fun h => hlate.2 (h.first hlate.1)) _)) fun hfirst => .bind (.modify
    (.get (.ite (fun hoffset => .ret (hopened (fun h => hoffset h.offset) _)) fun hoffset => .bind (.modify
      (.ite (fun hdone => ?_) fun hmore => .ret ?_))))))
  · refine hlast ⟨by simpa using hvalid, hnewer, fun hstarts => ?_, by simpa using hoffset, hdone⟩
    by_contra hne
    exact hfirst ⟨hstarts, hne⟩
  · have hgathered := s.gathered_eq request
    unfold RaftNode.gathered at hgathered
    change Q _ es { NodeM.openTransfer request s with incomingSnapshotData := assembled s request }
    rw [hgathered]
    exact hchunk (fun h => hmore h.last) _ _

/-- The installation fails before it has changed anything, or it is up to `ApplyCommitted`. -/
theorem ends_finishInstall {Q : Bool × Nat → List Event → RaftNode → Prop} {E : List Event → RaftNode → Prop}
    (hfailed : ∀ faults incoming, (∀ snapshot, parseSnapshotState s.incomingSnapshotData ≠ .ok snapshot) ∨
      s.store.faults = true :: faults → Q (false, 0) es { s.facing faults with toIncomingSnapshot := incoming })
    (happly : ∀ snapshot faults es', parseSnapshotState s.incomingSnapshotData = .ok snapshot →
      faults = s.store.faults.tail → sentPayloads es' = sentPayloads es →
      Prog.Ends NodeM.applyCommitted
        (fun _ es'' u => Q (true, u.incomingSnapshotData.length) es'' (NodeM.clearIncoming u))
        (fun es'' u => Q (false, 0) es'' (NodeM.clearIncoming u)) es' ((s.installed snapshot).facing faults)) :
    Prog.Ends (Prog.attempt NodeM.finishInstall fun _ => NodeM.abandonInstall) Q E es s := by
  refine .attempt (.get (.bind (.ofExcept (fun snapshot hparse => ?_) fun x herror => .throw fun _ => ?_)))
  · refine .bind (.get (.bind (ends_writeAtomically (fun faults htail _ => .modify (.bind ?_)) fun faults hfails _ => ?_)))
    · refine (happly snapshot faults _ hparse htail (sentPayloads_concat rfl)).weaken ?_ ?_
      · exact fun _ es' u hQ => .get (.bind (.modify (.ret hQ)))
      · exact fun es' u hQ _ => .bind (.modify (.ret hQ))
    · exact .bind (.modify (.ret (hfailed faults _ (.inr hfails))))
  · refine .bind (.modify (.ret (hfailed s.store.faults _ (.inl fun snapshot hok => ?_))))
    exact absurd (herror.symm.trans hok) (by simp)

/-! ### The log after the installation -/

/-- The log has the last entry of the snapshot that is coming in. -/
def RaftNode.Matches (s : RaftNode) : Prop :=
  s.incomingSnapshotIndex ≤ s.lastIndex ∧ s.termAt s.incomingSnapshotIndex = s.incomingSnapshotTerm

theorem RaftNode.Matches.log (h : s.Matches) (snapshot : SnapshotContents) :
    (s.installed snapshot).log = s.log.drop (s.incomingSnapshotIndex - s.snapshotIndex) := if_pos h

theorem RaftNode.Matches.lastIndex (h : s.Matches) (hnew : s.snapshotIndex < s.incomingSnapshotIndex)
    (snapshot : SnapshotContents) : (s.installed snapshot).lastIndex = s.lastIndex :=
  lastIndex_compact hnew.le h.1 rfl (h.log snapshot)

theorem RaftNode.Matches.entryAt (h : s.Matches) (hnew : s.snapshotIndex < s.incomingSnapshotIndex)
    (snapshot : SnapshotContents) {m : Nat} (hm : s.incomingSnapshotIndex < m) :
    (s.installed snapshot).entryAt m = s.entryAt m :=
  entryAt_compact hnew.le rfl (h.log snapshot) hm

theorem RaftNode.Matches.termAt (h : s.Matches) (hnew : s.snapshotIndex < s.incomingSnapshotIndex)
    (snapshot : SnapshotContents) {m : Nat} (hm : s.incomingSnapshotIndex ≤ m) :
    (s.installed snapshot).termAt m = s.termAt m :=
  termAt_compact hnew.le rfl h.2.symm (h.log snapshot) hm

/-- Every committed entry is covered by the snapshot or kept. -/
theorem RaftNode.installed_committed (hcommit : s.commitIndex ≤ s.lastIndex)
    (hnew : s.snapshotIndex < s.incomingSnapshotIndex) (hcovers : s.commitIndex ≤ s.incomingSnapshotIndex ∨ s.Matches)
    (snapshot : SnapshotContents) :
    (s.installed snapshot).commitIndex ≤ (s.installed snapshot).lastIndex ∧
      ∀ m ≤ s.commitIndex, s.incomingSnapshotIndex < m → (s.installed snapshot).entryAt m = s.entryAt m := by
  rcases hcovers with hcovered | hmatches
  · refine ⟨?_, fun m hm hlt => absurd hlt (by omega)⟩
    change max s.commitIndex s.incomingSnapshotIndex ≤ s.incomingSnapshotIndex + _
    omega
  · refine ⟨?_, fun m _ hlt => hmatches.entryAt hnew snapshot hlt⟩
    rw [hmatches.lastIndex hnew]
    exact max_le hcommit hmatches.1

/-- What is applied again after the installation. -/
def RaftNode.reapplied (s : RaftNode) : List RaftLogEntry :=
  (s.log.drop (s.incomingSnapshotIndex - s.snapshotIndex)).take (s.commitIndex - s.incomingSnapshotIndex)

/-- Applying what was committed beyond the snapshot goes through, but for a snapshot that could follow: it cannot be
taken at an entry of term zero. -/
theorem ends_applyCommitted_installed {base target : RocksKVStore} {commitIndex index : Nat}
    (hcommit : s.commitIndex ≤ s.lastIndex) (hnew : s.snapshotIndex < s.incomingSnapshotIndex)
    (hcovers : s.commitIndex ≤ s.incomingSnapshotIndex ∨ s.Matches) (hbase : base.Agrees snapshot.restored)
    (happly : applyAll commitIndex base index s.reapplied = some target) :
    Prog.Ends NodeM.applyCommitted
      (fun _ es' u => sentPayloads es' = sentPayloads es ∧ (s.installed snapshot).Kept u ∧
        u.lastApplied = max s.commitIndex s.incomingSnapshotIndex ∧ target.Agrees u.store)
      (fun es' u => sentPayloads es' = sentPayloads es ∧
        (s.incomingSnapshotIndex < s.commitIndex ∧ s.termAt s.commitIndex = 0) ∧ (s.installed snapshot).Kept u ∧
        u.lastApplied = max s.commitIndex s.incomingSnapshotIndex ∧ target.Agrees u.store)
      es ((s.installed snapshot).facing []) := by
  have hagrees := hbase.trans (s.installed_agrees snapshot)
  have hhigh := (RaftNode.installed_committed hcommit hnew hcovers snapshot).1
  have hlog : s.commitIndex ≤ s.incomingSnapshotIndex ∨
      (s.installed snapshot).log = s.log.drop (s.incomingSnapshotIndex - s.snapshotIndex) :=
    hcovers.imp id fun hmatches => hmatches.log snapshot
  have hterm : s.incomingSnapshotIndex < s.commitIndex →
      (s.installed snapshot).termAt s.commitIndex = s.termAt s.commitIndex := fun hbeyond =>
    (hcovers.resolve_left (not_le.mpr hbeyond)).termAt hnew snapshot hbeyond.le
  have hfields : (s.installed snapshot).snapshotIndex = s.incomingSnapshotIndex ∧
      (s.installed snapshot).lastApplied = s.incomingSnapshotIndex ∧
      (s.installed snapshot).commitIndex = max s.commitIndex s.incomingSnapshotIndex ∧
      (s.installed snapshot).store.faults = [] := ⟨rfl, rfl, rfl, rfl⟩
  rw [RaftNode.facing_faults hfields.2.2.2]
  generalize s.installed snapshot = t at *
  obtain ⟨hindex, happlied, hcommitted, hfaults⟩ := hfields
  have hmax : max t.lastApplied t.snapshotIndex = s.incomingSnapshotIndex := by omega
  -- what `ApplyCommitted` finds to apply
  have hentries : (t.log.drop (max t.lastApplied t.snapshotIndex - t.snapshotIndex)).take
      (t.commitIndex - max t.lastApplied t.snapshotIndex) = s.reapplied := by
    rw [hmax, hindex, hcommitted, Nat.sub_self, List.drop_zero, RaftNode.reapplied]
    rcases hlog with hcovered | hlog
    · rw [Nat.max_eq_right hcovered, Nat.sub_self, Nat.sub_eq_zero_of_le hcovered, List.take_zero, List.take_zero]
    · rw [hlog]
      congr 1
      omega
  obtain ⟨result, hresult, hreached⟩ := hagrees.applyAll happly (max t.lastApplied t.snapshotIndex + 1) t.commitIndex
  rw [← hentries] at hresult
  have hlast : max (max t.lastApplied t.snapshotIndex) t.commitIndex = max s.commitIndex s.incomingSnapshotIndex := by
    omega
  refine (ends_applyCommitted_applied hfaults hhigh hresult).weaken ?_ ?_
  · rintro _ es' u ⟨hsent, hcaught, hstore⟩
    exact ⟨hsent, hcaught.toKept, hcaught.lastApplied.trans hlast, hreached.trans hstore⟩
  · rintro es' u ⟨hsent, hlow, hzero, hprogress, hu, hstore⟩
    have hbeyond : s.incomingSnapshotIndex < s.commitIndex := by omega
    refine ⟨hsent, ⟨hbeyond, ?_⟩, hprogress.toKept, hu.trans hlast, hreached.trans hstore⟩
    rw [← hterm hbeyond, ← Nat.max_eq_left hbeyond.le, ← hcommitted]
    exact hzero

/-! ### Rejected snapshots -/

/-- What it takes to install a snapshot that has been parsed: writes succeed once the snapshot is written, nothing
committed is given up, and what was committed beyond the snapshot can be applied after it. The handler writes the term
first if it is new. -/
structure Installable (node : RaftNode) (request : Proto.InstallSnapshotRequest) (snapshot : SnapshotContents) :
    Prop where
  faults : node.store.faults.drop (if node.currentTerm < request.term then 2 else 1) = []
  covers : node.commitIndex ≤ request.lastIncludedIndex ∨
    node.termAt request.lastIncludedIndex = request.lastIncludedTerm
  terms : ∀ entry ∈ node.log, entry.term ≠ 0
  applicable : applicable node.commitIndex snapshot.restored (request.lastIncludedIndex + 1)
    ((node.log.drop (request.lastIncludedIndex - node.snapshotIndex)).take
      (node.commitIndex - request.lastIncludedIndex)) = true

/-- What is committed stays in the log or is covered by the snapshot. -/
structure RaftNode.Preserves (node node' : RaftNode) : Prop where
  commit_le : node'.commitIndex ≤ node'.lastIndex
  committed : ∀ m ≤ node.commitIndex, node'.snapshotIndex < m → node'.entryAt m = node.entryAt m

section Congruence

omit [Protobuf]

variable {node' : RaftNode}

theorem startsTransfer_congr (h : node'.toIncomingSnapshot = node.toIncomingSnapshot) :
    NodeM.startsTransfer node' request ↔ NodeM.startsTransfer node request := by
  unfold NodeM.startsTransfer
  rw [h]

theorem incomingData_congr (h : node'.toIncomingSnapshot = node.toIncomingSnapshot) :
    (NodeM.openTransfer request node').incomingSnapshotData = (NodeM.openTransfer request node).incomingSnapshotData := by
  have hsame := @startsTransfer_congr _ request _ h
  unfold NodeM.openTransfer
  by_cases hstarts : NodeM.startsTransfer node request
  · rw [if_pos hstarts, if_pos (hsame.mpr hstarts)]
  · rw [if_neg hstarts, if_neg (mt hsame.mp hstarts), h]

theorem assembled_congr (h : node'.toIncomingSnapshot = node.toIncomingSnapshot) :
    assembled node' request = assembled node request :=
  congrArg (· ++ request.data) (incomingData_congr h)

theorem Completes.congr (h : Completes node' request) (hsame : node'.toIncomingSnapshot = node.toIncomingSnapshot)
    (hindex : node'.snapshotIndex = node.snapshotIndex) : Completes node request :=
  ⟨h.valid, hindex ▸ h.newer, fun hstarts => h.first ((startsTransfer_congr hsame).mpr hstarts),
    h.offset.trans (congrArg List.length (incomingData_congr hsame)), h.last⟩

theorem RaftNode.Yields.entryAt (h : node.Yields s) (m : Nat) : s.entryAt m = node.entryAt m := by
  unfold RaftNode.entryAt
  rw [h.snapshotIndex, h.log]

end Congruence

theorem Installable.congr (h : Installable node request snapshot) (hyields : node.Yields s)
    (hterm : s.currentTerm = request.term) : Installable s request snapshot := by
  refine ⟨?_, ?_, hyields.log ▸ h.terms, ?_⟩
  · have hfaults := h.faults
    rw [hyields.faults, hterm, if_neg (lt_irrefl _)]
    split at hfaults
    next hlt =>
      rw [if_pos hlt, ← List.drop_one, List.drop_drop]
      exact hfaults
    next hle =>
      rw [if_neg hle]
      exact hfaults
  · rw [hyields.commitIndex, RaftNode.termAt_congr hyields.snapshotIndex hyields.snapshotTerm (hyields.entryAt _)]
    exact h.covers
  · rw [hyields.commitIndex, hyields.log, hyields.snapshotIndex]
    exact h.applicable

omit [Protobuf] in
theorem RaftNode.Preserves.congr {u u' : RaftNode} (h : node.Preserves u) (hsame : u'.toLogState = u.toLogState) :
    node.Preserves u' := by
  obtain ⟨hcommit, hcommitted⟩ := h
  unfold lastIndex entryAt at *
  rw [← hsame] at hcommit hcommitted
  exact ⟨hcommit, hcommitted⟩

/-- A follower that has applied its five entries. -/
def applied : RaftNode := { followerWith 1 5 with commitIndex := 5, lastApplied := 5 }

/-- The log is as before above the snapshot, and the node has applied it to its commit index, which is at least
`index`: its state machine is `target`. -/
structure RaftNode.CarriesOn (node : RaftNode) (index : Nat) (target : RocksKVStore) (node' : RaftNode) : Prop where
  lastIndex : node'.lastIndex = node.lastIndex
  entryAt : ∀ m, node'.snapshotIndex < m → node'.entryAt m = node.entryAt m
  termAt : ∀ m, node'.snapshotIndex < m → node'.termAt m = node.termAt m
  commitIndex : node'.commitIndex = max node.commitIndex index
  lastApplied : node'.lastApplied = max node.commitIndex index
  store : target.Agrees node'.store

theorem RaftNode.Matches.carriesOn {target : RocksKVStore} {u : RaftNode} (h : s.Matches)
    (hnew : s.snapshotIndex < s.incomingSnapshotIndex) (hkept : (s.installed snapshot).Kept u)
    (happlied : u.lastApplied = max s.commitIndex s.incomingSnapshotIndex) (hstore : target.Agrees u.store) :
    s.CarriesOn s.incomingSnapshotIndex target u := by
  refine ⟨hkept.lastIndex.trans (h.lastIndex hnew snapshot), fun m hm => ?_, fun m hm => ?_, hkept.commitIndex, happlied,
    hstore⟩
  · rw [entryAt_compact hkept.snapshot_le rfl hkept.retained hm]
    exact h.entryAt hnew snapshot (hkept.snapshot_le.trans_lt hm)
  · rw [← h.termAt hnew snapshot (hkept.snapshot_le.trans hm.le)]
    exact (hkept.termAt m (hkept.snapshot_le.trans hm.le)).resolve_left hm.le.not_gt

omit [Protobuf] in
theorem RaftNode.CarriesOn.congr {index : Nat} {target : RocksKVStore} {u u' : RaftNode}
    (h : s.CarriesOn index target u) (hsame : u'.toLogState = u.toLogState) : s.CarriesOn index target u' := by
  obtain ⟨hlast, hentry, hterm, hcommit, happlied, hstore⟩ := h
  unfold RaftNode.lastIndex at hlast
  unfold RaftNode.entryAt at hentry
  unfold RaftNode.termAt RaftNode.entryAt at hterm
  rw [← hsame] at *
  exact ⟨hlast, hentry, hterm, hcommit, happlied, hstore⟩

omit [Protobuf] in
theorem RaftNode.Yields.carriesOn {index : Nat} {target : RocksKVStore} {u : RaftNode} (hyields : node.Yields s)
    (h : s.CarriesOn index target u) : node.CarriesOn index target u := by
  refine ⟨?_, fun m hm => (h.entryAt m hm).trans (hyields.entryAt m), fun m hm => ?_, ?_, ?_, h.store⟩
  · rw [h.lastIndex, RaftNode.lastIndex, RaftNode.lastIndex, hyields.snapshotIndex, hyields.log]
  · rw [h.termAt m hm, RaftNode.termAt_congr hyields.snapshotIndex hyields.snapshotTerm (hyields.entryAt m)]
  · rw [h.commitIndex, hyields.commitIndex]
  · rw [h.lastApplied, hyields.commitIndex]

/-- On a node that follows the sender and has the last entry of the snapshot. -/
theorem returns_acceptSnapshot_matching {base target : RocksKVStore} {commitIndex index : Nat}
    (hfaults : s.store.faults = []) (hcommit : s.commitIndex ≤ s.lastIndex) (hcompletes : Completes s request)
    (hlast : request.lastIncludedIndex ≤ s.lastIndex)
    (hterm : s.termAt request.lastIncludedIndex = request.lastIncludedTerm)
    (hparse : parseSnapshotState (assembled s request) = .ok snapshot) (hbase : base.Agrees snapshot.restored)
    (happly : applyAll commitIndex base index ((s.log.drop (request.lastIncludedIndex - s.snapshotIndex)).take
      (s.commitIndex - request.lastIncludedIndex)) = some target) :
    Prog.Returns (NodeM.acceptSnapshot request)
      (fun _ _ u => s.CarriesOn request.lastIncludedIndex target u) es s := by
  refine ends_acceptSnapshot (fun hnot => absurd hcompletes hnot) fun _ => ?_
  rw [RaftNode.gathered_eq]
  refine ends_finishInstall (fun faults incoming hfailed => ?_) fun snapshot' faults es' hparse' htail hsent => ?_
  · rcases hfailed with hbad | hfails
    · exact absurd hparse (hbad snapshot)
    · exact absurd (hfaults.symm.trans hfails) (by simp)
  obtain rfl : snapshot = snapshot' := Except.ok.inj (hparse.symm.trans hparse')
  have hnil : faults = [] := by
    rw [htail]
    exact congrArg List.tail hfaults
  rw [hnil]
  generalize hg : ({ s with toIncomingSnapshot := _ } : RaftNode) = g
  have hgathered : g.commitIndex ≤ g.lastIndex ∧ g.snapshotIndex < g.incomingSnapshotIndex ∧ g.Matches ∧
      applyAll commitIndex base index g.reapplied = some target ∧
      ∀ u, g.CarriesOn g.incomingSnapshotIndex target u → s.CarriesOn request.lastIncludedIndex target u := by
    subst hg
    exact ⟨hcommit, hcompletes.newer, ⟨hlast, hterm⟩, happly, fun u h =>
      ⟨h.lastIndex, h.entryAt, h.termAt, h.commitIndex, h.lastApplied, h.store⟩⟩
  obtain ⟨hcommit', hnew, hmatches, happly', hcarries⟩ := hgathered
  refine (ends_applyCommitted_installed hcommit' hnew (.inr hmatches) hbase happly').weaken ?_ ?_
  · rintro _ es'' u ⟨-, hkept, happlied, hstore⟩
    exact (hcarries u (hmatches.carriesOn hnew hkept happlied hstore)).congr rfl
  · rintro es'' u ⟨-, -, hkept, happlied, hstore⟩
    exact (hcarries u (hmatches.carriesOn hnew hkept happlied hstore)).congr rfl

/-- A snapshot that continues the node's own log: `past` are the entries that the node has compacted already, so that
its whole log is `past ++ node.log`, and what the snapshot has is the fold of that log up to its index. When the
commands up to the commit index can be applied, installing the snapshot loses nothing: both ways lead to the state
machine of the whole log. -/
theorem handleInstallSnapshot_matching {past : List RaftLogEntry} {base target : RocksKVStore}
    (hpast : past.length = node.snapshotIndex) (hfaults : node.store.faults = [])
    (hcommit : node.commitIndex ≤ node.lastIndex) (hleader : node.currentTerm ≤ request.term)
    (hcompletes : Completes node request) (hlast : request.lastIncludedIndex ≤ node.lastIndex)
    (hterm : node.termAt request.lastIncludedIndex = request.lastIncludedTerm)
    (hparse : parseSnapshotState (assembled node request) = .ok snapshot)
    (hbase : applyAll 0 .empty 1 ((past ++ node.log).take request.lastIncludedIndex) = some base)
    (hcontents : base.Agrees snapshot.restored)
    (htarget : applyAll 0 .empty 1 ((past ++ node.log).take (max node.commitIndex request.lastIncludedIndex)) =
      some target) (connection : Conn) (requestId : Nat) :
    ∃ node' events, NodeM.handleInstallSnapshot connection request requestId node = (.ok (), node', events) ∧
      node.CarriesOn request.lastIncludedIndex target node' := by
  have hnewer := hcompletes.newer
  -- what follows the snapshot takes its state machine to that of the whole log
  have happly : ∃ index, applyAll 0 base index ((node.log.drop (request.lastIncludedIndex - node.snapshotIndex)).take
      (node.commitIndex - request.lastIncludedIndex)) = some target := by
    have hsplit : (past ++ node.log).take (max node.commitIndex request.lastIncludedIndex) =
        (past ++ node.log).take request.lastIncludedIndex ++
          (node.log.drop (request.lastIncludedIndex - node.snapshotIndex)).take
            (node.commitIndex - request.lastIncludedIndex) := by
      have hsum : max node.commitIndex request.lastIncludedIndex =
          request.lastIncludedIndex + (node.commitIndex - request.lastIncludedIndex) := by omega
      rw [hsum, List.take_add, List.drop_append, List.drop_eq_nil_of_le (by omega), List.nil_append, hpast]
    rw [hsplit, applyAll_append, hbase] at htarget
    exact ⟨_, htarget⟩
  obtain ⟨index, happly⟩ := happly
  have hreturns : Prog.Returns (NodeM.handleInstallSnapshot connection request requestId)
      (fun _ _ u => node.CarriesOn request.lastIncludedIndex target u) [] node := by
    refine .get (.ite (fun hold => absurd hold (not_lt.mpr hleader)) fun _ =>
      .bind ((ends_followLeader hleader).weaken ?_ fun _ _ h => h.2.1 hfaults))
    rintro _ es₁ t ⟨hyields, hcurrent, -, -⟩
    have hlast' : t.lastIndex = node.lastIndex := by
      rw [RaftNode.lastIndex, RaftNode.lastIndex, hyields.snapshotIndex, hyields.log]
    rw [← hyields.log, ← hyields.snapshotIndex, ← hyields.commitIndex] at happly
    have haccepts : Prog.Returns (NodeM.acceptSnapshot request)
        (fun _ _ u => t.CarriesOn request.lastIncludedIndex target u) es₁ t := by
      refine returns_acceptSnapshot_matching (hyields.faults_nil hfaults) ?_
        (hcompletes.congr hyields.incoming.symm hyields.snapshotIndex.symm) (hlast'.symm ▸ hlast) ?_ ?_ hcontents happly
      · rwa [hyields.commitIndex, hlast']
      · rwa [RaftNode.termAt_congr hyields.snapshotIndex hyields.snapshotTerm (hyields.entryAt _)]
      · rwa [assembled_congr hyields.incoming]
    refine .bind (haccepts.post ?_)
    rintro answer es₂ u hcarries
    refine .get (.bind ((ends_sendRpc rfl).post ?_))
    rintro _ es₃ u' ⟨⟨next, rfl⟩, -⟩
    exact .ret ((hyields.carriesOn hcarries).congr rfl)
  obtain ⟨_, node', events, hrun, hcarries⟩ := hreturns.run
  exact ⟨node', events, hrun, hcarries⟩

/-- What the first entry of the log makes of an empty store. -/
def firstApplied : RocksKVStore :=
  RocksKVStore.empty.written ⟨CommandApplier.progressEntries 1 0 ++ [([107], [118])], []⟩

/-- A snapshot of the first entry. -/
def firstSnapshot : Proto.InstallSnapshotRequest :=
  ⟨1, 1, 1, 1, 0, @serializeSnapshotState Wire.protobuf [([107], [118])] [], true⟩

omit [Protobuf] in
theorem handleInstallSnapshot_matching_first : ∃ node' events,
    @NodeM.handleInstallSnapshot Wire.protobuf ⟨1, 2, 0⟩ firstSnapshot 7 applied = (.ok (), node', events) ∧
    node'.lastIndex = 5 ∧ node'.lastApplied = 5 := by
  have hparse : @parseSnapshotState Wire.protobuf (assembled applied firstSnapshot) = .ok ⟨[([107], [118])], []⟩ := rfl
  have hbase : @applyAll Wire.protobuf 0 .empty 1 (([] ++ applied.log).take 1) = some firstApplied := rfl
  have hcontents : firstApplied.Agrees (SnapshotContents.restored ⟨[([107], [118])], []⟩) := by
    intro key hkey
    simp [firstApplied, SnapshotContents.restored, RocksKVStore.get_written, lastPut_append,
      CommandApplier.lastPut_progressEntries hkey]
  have htarget : (@applyAll Wire.protobuf 0 .empty 1 (([] ++ applied.log).take 5)).isSome = true := by decide +kernel
  obtain ⟨target, htarget⟩ := Option.isSome_iff_exists.mp htarget
  obtain ⟨node', events, hrun, hcarries⟩ := @handleInstallSnapshot_matching Wire.protobuf applied firstSnapshot
    ⟨[([107], [118])], []⟩ [] firstApplied target rfl rfl (by decide +kernel) (by decide)
    ⟨rfl, by decide, fun _ => rfl, rfl, rfl⟩ (by decide +kernel) rfl hparse hbase hcontents htarget ⟨1, 2, 0⟩ 7
  exact ⟨node', events, hrun, hcarries.lastIndex, hcarries.lastApplied⟩

end Nukv
