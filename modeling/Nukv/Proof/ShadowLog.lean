import Nukv.Proof.Shadow

/-!
# The shadow follows the log

Appending, committing, accepting entries and installing snapshots. The loop of `HandleAppendEntries` leaves
exactly what `Raft.adopt` says, seen behind the snapshot, and so does the suffix that stays behind an installed
snapshot.
-/

namespace Nukv

variable [Protobuf] {config : Config} {A A' : Shadow} {w : World} {n : Int} {l l' : Local} {event : Option Event}

/-! ### What is kept -/

namespace Memory

variable {d : LogState}

theorem commit (h : Memory config A n d) {c : Nat}
    (hc : Raft.Agreed config.setting A (A.term n) c (A.log n)) : Memory config A n { d with commitIndex := c } :=
  ⟨⟨h.depicts.term, h.depicts.unvoted, h.depicts.voted, h.depicts.base, h.depicts.log, h.depicts.snapshotTerm,
    h.depicts.snapshotIndex, hc, h.depicts.lastApplied⟩, h.stored⟩

theorem applied (h : Memory config A n d) {a : Nat}
    (ha : Raft.Agreed config.setting A (A.term n) a (A.log n)) : Memory config A n { d with lastApplied := a } :=
  ⟨⟨h.depicts.term, h.depicts.unvoted, h.depicts.voted, h.depicts.base, h.depicts.log, h.depicts.snapshotTerm,
    h.depicts.snapshotIndex, h.depicts.commitIndex, ha⟩, h.stored⟩

/-- A log is written after the shadow changed it behind the snapshot. -/
theorem logSaved (h : Memory config A n d) (hI : Raft.Inv config.setting A)
    (hsteps : Raft.Steps config.setting n A A') (hterm : A'.term n = A.term n) (hbase : A'.base n = A.base n)
    (hvoted : ∀ t c, A'.voted n t c ↔ A.voted n t c)
    (htake : (A'.log n).take d.snapshotIndex = (A.log n).take d.snapshotIndex) (log : List RaftLogEntry)
    (hlog : log = (A'.log n).drop d.snapshotIndex) :
    Memory config A' n
      { d with log := log, store := d.store.written (RaftStorage.persistLog d.store d.snapshotIndex log) } := by
  obtain ⟨hd, c, a, data, hholds, hc, ha⟩ := h
  refine ⟨⟨hterm.trans hd.term, fun hnone c hc => hd.unvoted hnone c ((hvoted _ c).mp hc),
    fun hvote => (hvoted _ _).mpr (hd.voted hvote), hbase.trans hd.base, hlog, ?_,
    hd.snapshotIndex.steps hsteps hI, hd.commitIndex.steps hsteps hI, hd.lastApplied.steps hsteps hI⟩,
    c, a, data, hholds.persistLog log, hc.steps hsteps hI, ha.steps hsteps hI⟩
  exact hd.snapshotTerm.trans (congrArg _ htake.symm)

end Memory

section LogSteps

variable (hrel : Related config A w) (hnode : NodeSim config A (packets w.history) n l)
include hrel hnode

theorem shadowed_push {command : Bytes} {pushed : Option CommitPoll} (s : RaftNode)
    (hrole : l.node.role = .leader) (hwaiting : l.waiting = []) :
    Shadowed config A w n (some (.write (.persistLog none) s)) { l with node := l.node.appended command, pushed := pushed } := by
  have hterm : A.term n = l.node.currentTerm := hnode.memory.depicts.term
  obtain ⟨hleads, htlog, hsnapshot, hacked⟩ := hnode.roles.leader hrole
  have hstep : Raft.Step config.setting A n (A.append n ⟨l.node.currentTerm, command⟩) :=
    .append n _ (hterm ▸ hleads) (hterm ▸ htlog) hterm.symm
  have hsteps := Raft.Steps.single hstep
  have hlog : (A.append n ⟨l.node.currentTerm, command⟩).log n = A.log n ++ [⟨l.node.currentTerm, command⟩] :=
    Function.update_self ..
  have hle := hnode.memory.snapshot_le
  have hleadership : Leadership (A.append n ⟨l.node.currentTerm, command⟩) n
      (l.node.appended command).standing := by
    refine ⟨hleads, ?_, hsnapshot, hacked⟩
    rw [hlog, show (l.node.appended command).standing.currentTerm = A.term n from hterm.symm]
    exact Function.update_self ..
  have hgrows : Grows A (A.append n ⟨l.node.currentTerm, command⟩) n (some (.write (.persistLog none) s)) := by
    intro t
    by_cases ht : t = A.term n
    · subst ht
      refine .inr (.inr ⟨s, ⟨l.node.currentTerm, command⟩, rfl, rfl, (Function.update_self ..).trans ?_⟩)
      rw [show A.tlog (A.term n) = A.log n from hterm ▸ htlog]
    · exact .inl (Function.update_of_ne ht ..)
  refine .quiet hsteps hgrows (by simp) ⟨?_, ⟨fun h => absurd (hrole.symm.trans h) (by simp), fun _ => hleadership,
    hnode.roles.keys⟩, hnode.numbering, hnode.idle, fun _ p hp hne => ?_⟩
  · refine hnode.memory.logSaved hrel.inv hsteps rfl rfl (fun _ _ => Iff.rfl) ?_ _ ?_
    · rw [hlog, List.take_append_of_le_length hle]
    · rw [hlog, List.drop_append_of_le_length hle]
      exact congrArg (· ++ _) hnode.memory.depicts.log
  · have hpeer := hnode.replicating hrole p hp hne
    refine ⟨hpeer.low, hpeer.high.trans (Nat.succ_le_succ ?_), hpeer.probed.steps hsteps hrel.inv, hpeer.append,
      hpeer.install, fun hid hidle => ?_⟩
    · change l.node.snapshotIndex + l.node.log.length ≤ l.node.snapshotIndex + (l.node.log ++ [_]).length
      rw [List.length_append]
      omega
    · obtain ⟨hprobed, hstale⟩ := hpeer.stale hid hidle
      refine ⟨hprobed.steps hsteps hrel.inv, .inr (hstale.resolve_left fun hin => ?_)⟩
      rw [show (l.toward p).waiting = [] from hwaiting] at hin
      exact absurd hin.1 (List.not_mem_nil)

/-- A node whose log agrees with its leader's up to `m` acknowledges that without changing. -/
theorem NodeSim.acknowledge {c : Int} {m : Nat} (hleads : A.leads (A.term n) c)
    (hm : m ≤ (A.tlog (A.term n)).length) (htake : (A.log n).take m = (A.tlog (A.term n)).take m) :
    Raft.Steps config.setting n A (A.accept n m) ∧ (A.accept n m).log n = A.log n ∧
      NodeSim config (A.accept n m) (packets w.history) n l := by
  have hsteps : Raft.Steps config.setting n A (A.accept n m) := .single (.accept n c m hleads hm)
  have hlog : (A.accept n m).log n = A.log n := by
    have hself : (A.accept n m).log n = Raft.adopt m (A.tlog (A.term n)) (A.log n) := Function.update_self ..
    rw [hself, Raft.adopt, if_pos htake]
  refine ⟨hsteps, hlog, ?_, ?_, hnode.numbering, hnode.idle, fun hrole p hp hne => ?_⟩
  · exact hnode.memory.congr hrel.inv hsteps rfl hlog rfl fun _ _ => Iff.rfl
  · exact hnode.roles.congr (hsteps.extends hrel.inv) hlog (fun _ => Iff.rfl) fun _ _ => rfl
  · exact (hnode.replicating hrole p hp hne).mono (fun _ _ hk => hk.steps hsteps hrel.inv) fun _ h _ => h

omit hrel in
/-- The index `TryAdvanceCommit` finds is an entry of the leader's own term, behind its snapshot. -/
theorem NodeSim.commitCandidate (hI : Raft.Inv config.setting A) (hrole : l.node.role = .leader) {index : Nat}
    (hindex : NodeM.commitCandidate l.node = some index) :
    l.node.commitIndex < index ∧ l.node.snapshotIndex < index ∧ index ≤ l.node.lastIndex ∧
      l.node.termAt index = l.node.currentTerm ∧
      l.node.peers.length / 2 < NodeM.replicated l.node index := by
  obtain ⟨hleads, -, hsnapshot, -⟩ := hnode.roles.leader hrole
  obtain ⟨hlow, hhigh, hsome⟩ := NodeM.commitCandidate_some hindex
  refine ⟨hlow, ?_, hhigh, hsome⟩
  have hpos : 0 < l.node.currentTerm := hI.term_pos hleads
  rcases Nat.lt_trichotomy index l.node.snapshotIndex with hlt | heq | hgt
  · -- below the snapshot `TermAt` is zero
    have hzero : l.node.termAt index = 0 := by
      unfold RaftNode.termAt RaftNode.entryAt
      rw [if_neg (by omega), if_pos (by omega)]
    omega
  · rw [heq, RaftNode.termAt_snapshot] at hsome
    rcases hsnapshot with hterm | hcommit
    · exact absurd hsome.1 (Nat.ne_of_lt hterm)
    · change l.node.snapshotIndex ≤ l.node.commitIndex at hcommit
      omega
  · exact hgt

omit hrel in
theorem NodeSim.quorum_replicated (hrole : l.node.role = .leader) (hpeers : l.node.peers = config.peers)
    (hmember : n ∈ config.peers) {index : Nat}
    (hsnapshot : l.node.snapshotIndex < index)
    (hcount : l.node.peers.length / 2 < NodeM.replicated l.node index) :
    config.Quorum {p | p = n ∨ ∃ m, index ≤ m ∧ A.acked p l.node.currentTerm m} := by
  obtain ⟨-, -, -, hacked⟩ := hnode.roles.leader hrole
  refine (Config.quorum_replicated hpeers hmember hnode.roles.keys hcount).mono fun p hp => hp.imp_right ?_
  rintro ⟨m, hlookup, hle⟩
  refine ⟨m, hle, (hacked p m hlookup).resolve_right fun hlow => ?_⟩
  change m ≤ l.node.snapshotIndex at hlow
  omega

theorem shadowed_advance (hrole : l.node.role = .leader) (hpeers : l.node.peers = config.peers)
    (hmember : n ∈ config.peers) {index : Nat} (hindex : NodeM.commitCandidate l.node = some index)
    (hquiet : ∀ c rpc s, event ≠ some (.send c rpc s)) :
    Shadowed config A w n event
      { l with node := { l.node with commitIndex := index }, applying := true } := by
  have hterm : A.term n = l.node.currentTerm := hnode.memory.depicts.term
  obtain ⟨hcommit, hsnap, hlast, htermAt, hcount⟩ := hnode.commitCandidate hrel.inv hrole hindex
  obtain ⟨hleads, htlog, hsnapshot, -⟩ := hnode.roles.leader hrole
  change A.leads l.node.currentTerm n at hleads
  change A.tlog l.node.currentTerm = A.log n at htlog
  have hlength := hnode.memory.lastIndex
  -- the leader counts itself: it acknowledges its own log
  obtain ⟨hsteps, hlog, hnode'⟩ := hnode.acknowledge hrel (m := index) (hterm ▸ hleads)
    (by rw [hterm, htlog, ← hlength]; exact hlast) (by rw [hterm, htlog])
  have hacked : ∀ p, (p = n ∨ ∃ m, index ≤ m ∧ A.acked p l.node.currentTerm m) →
      (A.accept n index).acked p l.node.currentTerm index := by
    rintro p (rfl | ⟨m, hle, hm⟩)
    · exact .inr ⟨rfl, hterm.symm, le_rfl⟩
    · exact .inl (hrel.inv.acked_down _ _ _ _ hm hle)
  obtain ⟨k, rfl⟩ : ∃ k, index = k + 1 := ⟨index - 1, by omega⟩
  have hentry : (A.log n)[k]? = some (A.log n)[k] := List.getElem?_eq_getElem (by omega)
  rw [hnode.memory.termAt hsnap.le hlast, Raft.lastTerm_take hentry] at htermAt
  have hcommitted : Raft.Committed config.setting (A.accept n (k + 1)) l.node.currentTerm (k + 1) := by
    refine ⟨⟨_, ?_, htermAt, Nat.succ_pos k⟩, _, hnode.quorum_replicated hrole hpeers hmember hsnap hcount, hacked⟩
    change (A.tlog l.node.currentTerm)[k + 1 - 1]? = _
    rw [htlog, Nat.add_sub_cancel]
    exact hentry
  have hagreed : Raft.Agreed config.setting (A.accept n (k + 1)) ((A.accept n (k + 1)).term n) (k + 1)
      ((A.accept n (k + 1)).log n) := by
    refine .inr ⟨l.node.currentTerm, k + 1, hterm.ge, le_rfl, hcommitted, ?_⟩
    rw [hlog, ← htlog]
    rfl
  obtain ⟨hleads', htlog', -, hacked'⟩ := hnode'.roles.leader hrole
  have hleadership : Leadership (A.accept n (k + 1)) n ({ l.node with commitIndex := k + 1 } : RaftNode).standing :=
    ⟨hleads', htlog', hsnapshot.imp_right fun h => (show l.node.snapshotIndex ≤ l.node.commitIndex from h).trans hcommit.le,
      hacked'⟩
  exact .quiet hsteps (.of_eq rfl) hquiet ⟨hnode'.memory.commit hagreed,
    ⟨fun h => absurd (hrole.symm.trans h) (by simp), fun _ => hleadership, hnode'.roles.keys⟩, hnode'.numbering,
    hnode'.idle, hnode'.replicating⟩

end LogSteps

/-! ### Accepting entries -/

section Merging

omit [Protobuf] in
theorem Carries.getElem? {c p : Int} {request : Proto.AppendEntriesRequest} (h : Carries config A c p request)
    {i : Nat} {entry : Proto.RaftLogEntry} (hentry : request.entries[i]? = some entry) :
    (A.tlog request.term)[request.prevLogIndex + i]? = some (storedEntry entry) := by
  have hi := Raft.length_lt_of_getElem? hentry
  have hmap : (request.entries.map storedEntry)[i]? = some (storedEntry entry) := by
    rw [List.getElem?_map, hentry, Option.map_some]
  rwa [h.entries, List.getElem?_drop, List.getElem?_take_of_lt (by omega)] at hmap

variable {node : RaftNode} {c p : Int} {request : Proto.AppendEntriesRequest}
  (hI : Raft.Inv config.setting A) (hmemory : Memory config A n node.toLogState)
  (hcarries : Carries config A c p request)
include hI hmemory hcarries

omit hcarries in
/-- The log agrees with the leader's as far as the terms of the request match. -/
theorem Memory.take_eq_tlog {j : Nat} (hlow : node.snapshotIndex ≤ j) (hhigh : j ≤ node.lastIndex)
    (hbound : j ≤ (A.tlog request.term).length)
    (hterm : node.termAt j = Raft.lastTerm RaftLogEntry.term ((A.tlog request.term).take j)) :
    (A.log n).take j = (A.tlog request.term).take j := by
  refine (hI.sourced_log n).take_eq_of_lastTerm (hI.sourced_tlog _) (hmemory.lastIndex ▸ hhigh) hbound ?_
  exact (hmemory.termAt hlow hhigh).symm.trans hterm

theorem Memory.take_eq_of_prevMatches (hprev : NodeM.prevMatches node request = true) :
    node.snapshotIndex ≤ request.prevLogIndex ∧ request.prevLogIndex ≤ node.lastIndex ∧
      (A.log n).take request.prevLogIndex = (A.tlog request.term).take request.prevLogIndex := by
  obtain ⟨hlow, hhigh, hterm⟩ := NodeM.prevMatches_iff.mp hprev
  refine ⟨hlow, hhigh, hmemory.take_eq_tlog hI hlow hhigh ?_ (hterm.trans hcarries.prevTerm)⟩
  exact (Nat.le_add_right _ _).trans hcarries.bound

/-- With the first `k` entries of the request the log agrees with the leader's that far. -/
theorem Memory.take_eq_of_matches (hprev : NodeM.prevMatches node request = true) {k : Nat}
    (hk : k ≤ request.entries.length) (hhigh : request.prevLogIndex + k ≤ node.lastIndex)
    (hmatch : ∀ j entry, j < k → request.entries[j]? = some entry →
      node.termAt (request.prevLogIndex + j + 1) = entry.term) :
    (A.log n).take (request.prevLogIndex + k) = (A.tlog request.term).take (request.prevLogIndex + k) := by
  obtain ⟨hlow, -, htake⟩ := hmemory.take_eq_of_prevMatches hI hcarries hprev
  have hbound := hcarries.bound
  cases k with
  | zero => exact htake
  | succ k =>
    have hentry : request.entries[k]? = some request.entries[k] := List.getElem?_eq_getElem (by omega)
    refine hmemory.take_eq_tlog hI (by omega) hhigh (by omega) ?_
    rw [← Nat.add_assoc, hmatch k _ (Nat.lt_succ_self k) hentry, Raft.lastTerm_take (hcarries.getElem? hentry)]
    rfl

theorem Memory.merge_log (hprev : NodeM.prevMatches node request = true) {merge : NodeM.Merge}
    (h : NodeM.MergeResult node request.prevLogIndex request.entries merge) (hsuccess : merge.success = true) :
    merge.log = (Raft.adopt (request.prevLogIndex + request.entries.length) (A.tlog request.term)
      (A.log n)).drop node.snapshotIndex := by
  obtain ⟨hlow, hhigh, -⟩ := hmemory.take_eq_of_prevMatches hI hcarries hprev
  have hbound := hcarries.bound
  have hlog : node.log = (A.log n).drop node.snapshotIndex := hmemory.depicts.log
  have hlength := hmemory.lastIndex
  cases h with
  | refused => exact absurd hsuccess (by simp)
  | present hpresent =>
    have htake := hmemory.take_eq_of_matches hI hcarries hprev le_rfl (k := request.entries.length)
      (by
        rcases Nat.eq_zero_or_pos request.entries.length with hzero | hpos
        · omega
        · have hlast := (hpresent _ _ (List.getElem?_eq_getElem (Nat.sub_lt hpos Nat.one_pos))).1
          omega)
      fun j entry _ hentry => (hpresent j entry hentry).2
    rw [Raft.adopt, if_pos htake]
    exact hlog
  | replaced i hi hend hbefore hreason =>
    have htake := hmemory.take_eq_of_matches hI hcarries hprev hi.le hend hbefore
    have hentry : request.entries[i]? = some request.entries[i] := List.getElem?_eq_getElem hi
    -- the logs part right after the entries that match
    have hdiffer : (A.log n).take (request.prevLogIndex + request.entries.length) ≠
        (A.tlog request.term).take (request.prevLogIndex + request.entries.length) := by
      intro heq
      have hstep := Raft.take_eq_mono (show request.prevLogIndex + i + 1 ≤ _ by omega) heq
      have hreach : request.prevLogIndex + i + 1 ≤ (A.log n).length :=
        Raft.length_le_of_take_eq hstep.symm (by omega)
      rcases hreason with hlast | ⟨-, hne⟩
      · omega
      · refine hne _ hentry ?_
        rw [hmemory.termAt (by omega) (by omega), hstep, Raft.lastTerm_take (hcarries.getElem? hentry)]
        rfl
    have hsplit : (A.tlog request.term).take (request.prevLogIndex + request.entries.length) =
        (A.tlog request.term).take (request.prevLogIndex + i) ++ (request.entries.drop i).map storedEntry := by
      rw [List.map_drop, hcarries.entries, List.drop_drop]
      conv_lhs => rw [← List.take_append_drop (request.prevLogIndex + i)
        ((A.tlog request.term).take (request.prevLogIndex + request.entries.length))]
      rw [List.take_take, Nat.min_eq_left (by omega)]
    rw [Raft.adopt, if_neg hdiffer, hsplit, List.drop_append_of_le_length, ← htake, hlog, List.drop_take]
    rw [List.length_take]
    omega

end Merging

theorem shadowed_merge (hrel : Related config A w) (hnode : NodeSim config A (packets w.history) n l) {c : Int}
    {request : Proto.AppendEntriesRequest} (hcarries : Carries config A c n request)
    (hconsecutive : Consecutive request.prevLogIndex request.entries) (hrole : l.node.role = .follower)
    (hsame : request.term = l.node.currentTerm) (hprev : NodeM.prevMatches l.node request = true)
    (hsuccess : (NodeM.mergeEntries l.node request.prevLogIndex request.entries).success = true)
    (hquiet : ∀ c rpc s, event ≠ some (.send c rpc s)) :
    Shadowed config A w n event
      { l with
        node := l.node.merged (NodeM.mergeEntries l.node request.prevLogIndex request.entries).log
          request.leaderCommit
        applying := true } := by
  have hterm : A.term n = request.term := hnode.memory.depicts.term.trans hsame.symm
  have hbase : A.base n = l.node.snapshotIndex := hnode.memory.depicts.base
  obtain ⟨hlow, hhigh, htake⟩ := hnode.memory.take_eq_of_prevMatches hrel.inv hcarries hprev
  have hmerge := hnode.memory.merge_log hrel.inv hcarries hprev
    (NodeM.mergeEntries_result hconsecutive hlow hhigh) hsuccess
  generalize (NodeM.mergeEntries l.node request.prevLogIndex request.entries).log = log at hmerge ⊢
  generalize hm : request.prevLogIndex + request.entries.length = m at hmerge
  have hbound : m ≤ (A.tlog (A.term n)).length := by
    rw [hterm, ← hm]
    exact hcarries.bound
  have hsteps : Raft.Steps config.setting n A (A.accept n m) :=
    .single (.accept n c m (hterm ▸ hcarries.leads) hbound)
  have hself : (A.accept n m).log n = Raft.adopt m (A.tlog request.term) (A.log n) := by
    rw [← hterm]
    exact Function.update_self ..
  have hsaved := hnode.memory.logSaved hrel.inv hsteps rfl rfl (fun _ _ => Iff.rfl)
    (by
      rw [hself]
      have hbelow := Raft.take_eq_mono hlow htake
      exact (Raft.take_adopt_of_take_eq hbelow).trans hbelow.symm)
    log (by rw [hself]; exact hmerge)
  have hlength : l.node.snapshotIndex + log.length = ((A.accept n m).log n).length := hsaved.depicts.length
  -- the follower's log is the leader's as far as the commit index it learns
  have hagreed : Raft.Agreed config.setting (A.accept n m) ((A.accept n m).term n)
      (min request.leaderCommit (l.node.snapshotIndex + log.length)) ((A.accept n m).log n) := by
    have hagree : ((A.accept n m).log n).take m = ((A.accept n m).tlog request.term).take m := by
      rw [hself]
      exact Raft.take_adopt m le_rfl
    have hreach := hcarries.reach
    have hcommon := (hcarries.probed.steps hsteps hrel.inv).take_eq hterm (hbase.trans_le hlow)
      (Raft.length_le_of_take_eq hagree.symm (hterm ▸ hbound)) hagree
      (c := min request.leaderCommit (l.node.snapshotIndex + log.length)) (by omega)
      (hlength ▸ Nat.min_le_right _ _)
    refine Raft.Agreed.mono (t := request.term) ?_ hterm.ge le_rfl
    exact .of_tlog (hrel.inv.steps hsteps) hcarries.leads
      ((hcarries.commit.grow (hsteps.extends hrel.inv)).mono le_rfl (Nat.min_le_left _ _)) hcommon
  have hfollower : ∀ r, l.node.role = r → r = .follower := fun r hr => hr.symm.trans hrole
  exact .quiet hsteps (.of_eq rfl) hquiet ⟨hsaved.commit hagreed, .follower hrole hnode.roles.keys, hnode.numbering, hnode.idle,
    fun h => absurd (hfollower _ h) (by simp)⟩

/-! ### Installing a snapshot -/

section Installing

variable {node : RaftNode} {c : Int} {request : Proto.InstallSnapshotRequest}

/-- The suffix that stays behind an installed snapshot. -/
theorem Memory.retainedSuffix (hI : Raft.Inv config.setting A) (hmemory : Memory config A n node.toLogState)
    (hlabels : Labels config A c request) (hindex : request.lastIncludedIndex = node.incomingSnapshotIndex)
    (hterm : request.lastIncludedTerm = node.incomingSnapshotTerm)
    (hnew : node.snapshotIndex < node.incomingSnapshotIndex) :
    NodeM.retainedSuffix node = (Raft.adopt request.lastIncludedIndex (A.tlog request.term) (A.log n)).drop
      request.lastIncludedIndex := by
  have hlog : node.log = (A.log n).drop node.snapshotIndex := hmemory.depicts.log
  have hlength := hmemory.lastIndex
  have hbound := hlabels.bound
  unfold NodeM.retainedSuffix
  rw [← hindex] at hnew
  rw [← hindex, ← hterm, hlabels.term]
  by_cases htake : (A.log n).take request.lastIncludedIndex = (A.tlog request.term).take request.lastIncludedIndex
  · have hreach := Raft.length_le_of_take_eq htake.symm hbound
    rw [Raft.adopt, if_pos htake, if_pos, hlog, List.drop_drop, Nat.add_sub_cancel' hnew.le]
    exact ⟨by omega, by rw [hmemory.termAt hnew.le (by omega), htake]⟩
  · rw [Raft.adopt, if_neg htake, if_neg, List.drop_eq_nil_of_le (by simp)]
    rintro ⟨hle, hsame⟩
    refine htake ((hI.sourced_log n).take_eq_of_lastTerm (hI.sourced_tlog _) (by omega) hbound ?_)
    rw [hmemory.termAt hnew.le hle] at hsame
    exact hsame

theorem shadowed_install (hrel : Related config A w) (hnode : NodeSim config A (packets w.history) n l)
    (hlabels : Labels config A c request) (hrole : l.node.role = .follower)
    (hsame : request.term = l.node.currentTerm)
    (hindex : request.lastIncludedIndex = l.node.incomingSnapshotIndex)
    (hlabel : request.lastIncludedTerm = l.node.incomingSnapshotTerm)
    (hnew : l.node.snapshotIndex < l.node.incomingSnapshotIndex) {snapshot : SnapshotContents}
    (hparse : parseSnapshotState l.node.incomingSnapshotData = .ok snapshot)
    (hlabelled : l.node.incomingSnapshotTerm ≠ 0) (hquiet : ∀ c rpc s, event ≠ some (.send c rpc s)) :
    Shadowed config A w n event { l with node := l.node.installed snapshot, applying := true } := by
  have hterm : A.term n = request.term := hnode.memory.depicts.term.trans hsame.symm
  have hbase : A.base n = l.node.snapshotIndex := hnode.memory.depicts.base
  have hsuffix := hnode.memory.retainedSuffix hrel.inv hlabels hindex hlabel hnew
  have haccept : Raft.Step config.setting A n (A.accept n request.lastIncludedIndex) :=
    .accept n c _ (hterm ▸ hlabels.leads) (hterm ▸ hlabels.bound)
  have hcompact : Raft.Step config.setting (A.accept n request.lastIncludedIndex) n
      ((A.accept n request.lastIncludedIndex).compact n request.lastIncludedIndex) :=
    .compact n _ (by rw [show (A.accept n request.lastIncludedIndex).base n = A.base n from rfl, hbase, hindex]; exact hnew.le)
  have hsteps := (Raft.Steps.single haccept).tail hcompact
  generalize hA' : (A.accept n request.lastIncludedIndex).compact n request.lastIncludedIndex = A' at hsteps
  have hself : A'.log n = Raft.adopt request.lastIncludedIndex (A.tlog request.term) (A.log n) := by
    rw [← hterm, ← hA']
    exact Function.update_self ..
  have htake : (A'.log n).take request.lastIncludedIndex =
      (A'.tlog request.term).take request.lastIncludedIndex := by
    rw [hself, ← hA']
    exact Raft.take_adopt _ le_rfl
  have hagreed : Raft.Agreed config.setting A' (A'.term n) request.lastIncludedIndex (A'.log n) := by
    refine Raft.Agreed.mono (t := request.term) ?_ (by rw [← hA']; exact hterm.ge) le_rfl
    exact .of_tlog (hrel.inv.steps hsteps) ((hsteps.extends hrel.inv).leads _ _ hlabels.leads)
      (hlabels.commit.grow (hsteps.extends hrel.inv)) htake
  have hcommit := (hnode.memory.depicts.commitIndex.steps hsteps hrel.inv).max hagreed
  have hmemory : Memory config A' n (l.node.installed snapshot).toLogState := by
    have hd := hnode.memory.depicts
    have hvoted : ∀ t c, A'.voted n t c ↔ A.voted n t c := fun t c => by rw [← hA']; rfl
    obtain ⟨-, c, a, data, hholds, -, -⟩ := hnode.memory
    rw [hindex] at hagreed hcommit
    refine ⟨⟨?_, fun hnone c hc => hd.unvoted hnone c ((hvoted _ c).mp hc),
      fun hvote => (hvoted _ _).mpr (hd.voted hvote), ?_, ?_, ?_, hagreed, hcommit, hagreed⟩,
      max l.node.commitIndex l.node.incomingSnapshotIndex, l.node.incomingSnapshotIndex, _,
      RaftNode.installed_holds hholds hnew hlabelled hparse, hcommit, hagreed⟩
    · rw [← hA']
      exact hd.term
    · change A'.base n = l.node.incomingSnapshotIndex
      rw [← hA', ← hindex]
      exact Function.update_self ..
    · change NodeM.retainedSuffix l.node = (A'.log n).drop l.node.incomingSnapshotIndex
      rw [hself, ← hindex]
      exact hsuffix
    · change l.node.incomingSnapshotTerm =
        Raft.lastTerm RaftLogEntry.term ((A'.log n).take l.node.incomingSnapshotIndex)
      rw [← hlabel, ← hindex, htake, ← hA']
      exact hlabels.term
  have hfollower : ∀ r, l.node.role = r → r = .follower := fun r hr => hr.symm.trans hrole
  exact .quiet hsteps (.of_eq (by rw [← hA']; rfl)) hquiet ⟨hmemory, .follower hrole hnode.roles.keys, hnode.numbering, hnode.idle,
    fun h => absurd (hfollower _ h) (by simp)⟩

end Installing

/-! ### Applying and compacting -/

section Applying

variable (hrel : Related config A w) (hnode : NodeSim config A (packets w.history) n l)
include hnode

/-- The commit index is known: everything up to it may be applied. -/
theorem shadowed_apply {command : Proto.Command} {batch : WriteBatch}
    (hlt : l.node.lastApplied < l.node.commitIndex)
    (hbatch : CommandApplier.applyAtomically l.node.store command (l.node.lastApplied + 1) l.node.commitIndex =
      .ok batch)
    (hquiet : ∀ c rpc s, event ≠ some (.send c rpc s)) :
    Shadowed config A w n event { l with node := l.node.entryApplied batch } := by
  obtain ⟨hd, c, a, data, hholds, hc, ha⟩ := hnode.memory
  have hagreed : Raft.Agreed config.setting A (A.term n) (l.node.lastApplied + 1) (A.log n) :=
    hd.commitIndex.mono le_rfl hlt
  refine .same hquiet ⟨⟨⟨hd.term, hd.unvoted, hd.voted, hd.base, hd.log, hd.snapshotTerm,
    hd.snapshotIndex, hd.commitIndex, hagreed⟩, l.node.commitIndex, l.node.lastApplied + 1, data, ?_,
    hd.commitIndex, hagreed⟩, hnode.roles, hnode.numbering, hnode.idle, hnode.replicating⟩
  exact hholds.applyAtomically hbatch

include hrel

theorem shadowed_persist (hquiet : ∀ c rpc s, event ≠ some (.send c rpc s)) :
    Shadowed config A w n event { l with node := l.node.stateSaved } :=
  .same hquiet ⟨hnode.memory.saved hrel.inv (.refl ..) rfl rfl hnode.memory.depicts.term
    hnode.memory.depicts.unvoted hnode.memory.depicts.voted, hnode.roles, hnode.numbering, hnode.idle,
    hnode.replicating⟩

theorem shadowed_compact (hlow : l.node.snapshotIndex + kSnapshotThreshold ≤ l.node.commitIndex)
    (hlabelled : l.node.termAt l.node.commitIndex ≠ 0) (hhigh : l.node.commitIndex ≤ l.node.lastIndex)
    (hquiet : ∀ c rpc s, event ≠ some (.send c rpc s)) :
    Shadowed config A w n event { l with node := l.node.compacted } := by
  have hbase : A.base n = l.node.snapshotIndex := hnode.memory.depicts.base
  have hle : l.node.snapshotIndex ≤ l.node.commitIndex := (Nat.le_add_right _ _).trans hlow
  have hsteps : Raft.Steps config.setting n A (A.compact n l.node.commitIndex) :=
    .single (.compact n _ (hbase.trans_le hle))
  have hterm := hnode.memory.termAt hle hhigh
  have hmemory : Memory config (A.compact n l.node.commitIndex) n l.node.compacted.toLogState := by
    obtain ⟨hd, c, a, data, hholds, -, -⟩ := hnode.memory
    have hcommit := hd.commitIndex.steps hsteps hrel.inv
    have happlied := hd.lastApplied.steps hsteps hrel.inv
    refine ⟨⟨hd.term, hd.unvoted, hd.voted, Function.update_self .., ?_, hterm, hcommit, hcommit, happlied⟩,
      l.node.commitIndex, l.node.lastApplied, _, RaftNode.compacted_holds hholds hlow hlabelled, hcommit, happlied⟩
    change l.node.log.drop _ = _
    rw [show l.node.log = _ from hd.log, List.drop_drop]
    exact congrArg (fun k => (A.log n).drop k) (Nat.add_sub_cancel' hle)
  have hlast : l.node.compacted.lastIndex = l.node.lastIndex := RaftNode.lastIndex_compact hle hhigh rfl rfl
  refine .quiet hsteps (.of_eq rfl) hquiet ⟨hmemory, ⟨fun hrole => ?_, fun hrole => ?_, hnode.roles.keys⟩, hnode.numbering,
    hnode.idle, fun hrole p hp hne => ?_⟩
  · obtain ⟨hstood, hleads, hvotes⟩ := hnode.roles.candidate hrole
    exact ⟨hstood, hleads, hvotes⟩
  · obtain ⟨hleads, htlog, -, hacked⟩ := hnode.roles.leader hrole
    exact ⟨hleads, htlog, .inr le_rfl, fun p m hm => (hacked p m hm).imp_right fun h => h.trans hle⟩
  · have hpeer := hnode.replicating hrole p hp hne
    refine ⟨hpeer.low, hpeer.high.trans_eq (congrArg (· + 1) hlast.symm), hpeer.probed.steps hsteps hrel.inv,
      hpeer.append, fun packet request hawaited hrequest => ?_, fun hid hidle => ?_⟩
    · obtain ⟨hbusy, hidle⟩ := hpeer.install packet request hawaited hrequest
      exact ⟨fun h => (hbusy h).imp_right fun hnext => hnext.trans hle, hidle⟩
    · obtain ⟨hprobed, hstale⟩ := hpeer.stale hid hidle
      exact ⟨hprobed.steps hsteps hrel.inv,
        hstale.imp_left (And.imp_right fun h => h.trans (congrArg (· + 1) hlast.symm))⟩

end Applying

end Nukv
