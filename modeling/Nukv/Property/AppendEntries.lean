import Nukv.Model.Wire
import Nukv.Proof.Applying

/-!
# What `HandleAppendEntries` makes of a log

The handler as a whole, as total correctness: on a request of the current term or a later one it returns and answers,
and when the answer is a success the log is the old one merged with the entries of the request. The merge is stated
index by index, against the log before the request, and does not mention the loop that computes it.
-/

namespace Nukv

open Base

/-! ### The merged log -/

/-- Some entry of the request has another term than the entry the log has at its index. -/
def RaftNode.Conflicts (node : RaftNode) (request : Proto.AppendEntriesRequest) : Prop :=
  ∃ i entry, request.entries[i]? = some entry ∧ request.prevLogIndex + i + 1 ≤ node.lastIndex ∧
    node.termAt (request.prevLogIndex + i + 1) ≠ entry.term

/-- The log of `new` is that of `old` with the entries of the request. -/
structure Merged (request : Proto.AppendEntriesRequest) (old new : RaftNode) : Prop where
  kept : ∀ index ≤ request.prevLogIndex, new.entryAt index = old.entryAt index
  terms : ∀ i entry, request.entries[i]? = some entry →
    new.termAt (request.prevLogIndex + i + 1) = entry.term
  replaced : ∀ i entry, request.entries[i]? = some entry →
    old.lastIndex < request.prevLogIndex + i + 1 ∨ old.termAt (request.prevLogIndex + i + 1) ≠ entry.term →
    new.entryAt (request.prevLogIndex + i + 1) = .ok (storedEntry entry)
  tail : ¬ old.Conflicts request → ∀ index, request.prevLogIndex + request.entries.length < index →
    new.entryAt index = old.entryAt index
  cut : old.Conflicts request → new.lastIndex = request.prevLogIndex + request.entries.length

variable {request : Proto.AppendEntriesRequest} {old new : RaftNode}

/-- The old tail survives exactly when nothing conflicts. -/
theorem Merged.tail_iff (h : Merged request old new)
    (htail : request.prevLogIndex + request.entries.length < old.lastIndex)
    (hlow : old.snapshotIndex ≤ request.prevLogIndex) :
    (∀ index, request.prevLogIndex + request.entries.length < index → new.entryAt index = old.entryAt index) ↔
      ¬ old.Conflicts request := by
  refine ⟨fun hkept hconflict => ?_, h.tail⟩
  obtain ⟨entry, -, hentry⟩ := RaftNode.exists_entryAt (s := old)
    (m := request.prevLogIndex + request.entries.length + 1) (by omega) (by omega)
  have hpast := RaftNode.entryAt_past (s := new) (m := request.prevLogIndex + request.entries.length + 1)
    (by rw [h.cut hconflict]; omega)
  rw [hkept _ (by omega), hentry] at hpast
  exact absurd hpast (by simp)

theorem Merged.of_result {merge : NodeM.Merge}
    (h : NodeM.MergeResult old request.prevLogIndex request.entries merge) (hsuccess : merge.success = true)
    (hlow : old.snapshotIndex ≤ request.prevLogIndex)
    (hindex : new.snapshotIndex = old.snapshotIndex) (hterm : new.snapshotTerm = old.snapshotTerm)
    (hlog : new.log = merge.log) : Merged request old new := by
  cases h with
  | refused => exact absurd hsuccess (by simp)
  | present hpresent =>
    -- nothing is written: every entry of the request is there
    have hsame : ∀ index, new.entryAt index = old.entryAt index := by
      intro index
      unfold RaftNode.entryAt
      rw [hindex, hlog]
    have hquiet : ¬ old.Conflicts request := by
      rintro ⟨i, entry, hentry, -, hne⟩
      exact hne (hpresent i entry hentry).2
    refine ⟨fun index _ => hsame index, fun i entry hentry => ?_, fun i entry hentry hreason => ?_,
      fun _ index _ => hsame index, fun hconflict => absurd hconflict hquiet⟩
    · rw [RaftNode.termAt_congr hindex hterm (hsame _)]
      exact (hpresent i entry hentry).2
    · obtain ⟨hle, hsameTerm⟩ := hpresent i entry hentry
      rcases hreason with hlt | hne
      · omega
      · exact absurd hsameTerm hne
  | replaced k hk hend hbefore hreason =>
    -- the first `k` entries are there, and the rest replaces what follows
    obtain ⟨hkept, hnew, hlast⟩ := RaftNode.entryAt_splice (s := old)
      (m := request.prevLogIndex + k) (by omega) hend hindex hlog
    have hwritten : ∀ i entry, k ≤ i → request.entries[i]? = some entry →
        new.entryAt (request.prevLogIndex + i + 1) = .ok (storedEntry entry) := by
      intro i entry hi hentry
      have hat := hnew (i - k) (storedEntry entry) (by
        rw [List.getElem?_map, List.getElem?_drop, Nat.add_sub_cancel' hi, hentry]
        rfl)
      rwa [show request.prevLogIndex + k + (i - k) + 1 = request.prevLogIndex + i + 1 by omega] at hat
    rw [List.length_map, List.length_drop] at hlast
    refine ⟨fun index hle => hkept index (by omega), fun i entry hentry => ?_, fun i entry hentry hmissing => ?_,
      fun hquiet index hpast => ?_, fun _ => by omega⟩
    · rcases Nat.lt_or_ge i k with hi | hi
      · rw [RaftNode.termAt_congr hindex hterm (hkept _ (by omega))]
        exact hbefore i entry hi hentry
      · exact RaftNode.termAt_of_entryAt (hwritten i entry hi hentry)
    · rcases Nat.lt_or_ge i k with hi | hi
      · rcases hmissing with hlt | hne
        · omega
        · exact absurd (hbefore i entry hi hentry) hne
      · exact hwritten i entry hi hentry
    · have hentry : request.entries[k]? = some request.entries[k] := List.getElem?_eq_getElem hk
      have hended : request.prevLogIndex + k = old.lastIndex := by
        rcases hreason with heq | ⟨-, hne⟩
        · exact heq
        · by_contra hcon
          exact hquiet ⟨k, _, hentry, by omega, hne _ hentry⟩
      rw [RaftNode.entryAt_past (by omega), RaftNode.entryAt_past (by omega)]

/-! ### Commands that can be applied -/

section Protobuf

variable [Protobuf]

/-- What a request makes committed that is not applied yet: the entries, with the commit index and the index of the
first. -/
def newlyCommitted (node : RaftNode) (request : Proto.AppendEntriesRequest) : Nat × Nat × List RaftLogEntry :=
  let log := (NodeM.mergeEntries node request.prevLogIndex request.entries).log
  let commitIndex := min request.leaderCommit (node.snapshotIndex + log.length)
  let applied := max node.lastApplied node.snapshotIndex
  (commitIndex, applied + 1, (log.drop (applied - node.snapshotIndex)).take (commitIndex - applied))

/-! ### Functions that return -/

section Returning

variable {s s₀ : RaftNode} {es : List Event}

/-- What a request is allowed to ask of the node it comes to: its entries are consecutive and contradict nothing
committed, and the commands it makes committed can be applied. -/
structure Proper (node : RaftNode) (request : Proto.AppendEntriesRequest) : Prop where
  consecutive : Consecutive request.prevLogIndex request.entries
  committed : ∀ i entry, request.entries[i]? = some entry → request.prevLogIndex + i + 1 ≤ node.commitIndex →
    request.prevLogIndex + i + 1 ≤ node.lastIndex → node.termAt (request.prevLogIndex + i + 1) = entry.term
  applicable : NodeM.prevMatches node request = true → applicable (newlyCommitted node request).1 node.store
    (newlyCommitted node request).2.1 (newlyCommitted node request).2.2 = true

/-- Terms are counted from one, in the log and in the request. -/
def Termed (node : RaftNode) (request : Proto.AppendEntriesRequest) : Prop :=
  (∀ entry ∈ node.log, entry.term ≠ 0) ∧ ∀ entry ∈ request.entries, entry.term ≠ 0

omit [Protobuf] in
theorem RaftNode.Yields.agrees {node : RaftNode} (h : node.Yields s) : node.store.Agrees s.store :=
  .of_get fun key hkey _ => h.stored key hkey

theorem RaftNode.Yields.proper {node : RaftNode} {request : Proto.AppendEntriesRequest} (h : node.Yields s)
    (hproper : Proper node request) :
    Proper s request ∧ NodeM.prevMatches s request = NodeM.prevMatches node request ∧
      s.lastIndex = node.lastIndex ∧ (∀ m, s.entryAt m = node.entryAt m) ∧ ∀ m, s.termAt m = node.termAt m := by
  have hlast : s.lastIndex = node.lastIndex := by
    unfold RaftNode.lastIndex
    rw [h.snapshotIndex, h.log]
  have hentry : ∀ m, s.entryAt m = node.entryAt m := by
    intro m
    unfold RaftNode.entryAt
    rw [h.snapshotIndex, h.log]
  have hterm : ∀ m, s.termAt m = node.termAt m := fun m =>
    RaftNode.termAt_congr h.snapshotIndex h.snapshotTerm (hentry m)
  have hprev : NodeM.prevMatches s request = NodeM.prevMatches node request := by
    unfold NodeM.prevMatches
    rw [h.snapshotIndex, hlast, hterm]
  have hnew : newlyCommitted s request = newlyCommitted node request := by
    unfold newlyCommitted
    rw [NodeM.mergeEntries_congr h.log h.snapshotIndex h.snapshotTerm h.commitIndex, h.snapshotIndex, h.lastApplied]
  refine ⟨⟨hproper.consecutive, ?_, ?_⟩, hprev, hlast, hentry, hterm⟩
  · rw [h.commitIndex, hlast]
    simpa only [hterm] using hproper.committed
  · rw [hprev, hnew]
    intro hmatches
    rw [h.agrees.applicable]
    exact hproper.applicable hmatches

/-- A merge is one with the log before the leader was followed. -/
theorem RaftNode.Yields.merged {node saved : RaftNode} {request : Proto.AppendEntriesRequest} (h : node.Yields s)
    (hproper : Proper node request) (hmerged : Merged request s saved) : Merged request node saved := by
  obtain ⟨-, -, hlast, hentry, hterm⟩ := h.proper hproper
  have hconflict : s.Conflicts request ↔ node.Conflicts request := by
    unfold RaftNode.Conflicts
    simp only [hlast, hterm]
  refine ⟨fun index hle => ?_, hmerged.terms, fun i entry hi hreason => ?_, fun hquiet index hpast => ?_,
    fun hcon => hmerged.cut (hconflict.mpr hcon)⟩
  · rw [hmerged.kept index hle, hentry]
  · rw [← hlast, ← hterm] at hreason
    exact hmerged.replaced i entry hi hreason
  · rw [hmerged.tail (fun hcon => hquiet (hconflict.mp hcon)) index hpast, hentry]

/-- The end of a request that was accepted: `saved` is the node with the log that was written. -/
structure Settled (request : Proto.AppendEntriesRequest) (old saved new : RaftNode) : Prop where
  merged : Merged request old saved
  lastIndex : new.lastIndex = saved.lastIndex
  snapshot_le : saved.snapshotIndex ≤ new.snapshotIndex
  entryAt : ∀ index, new.snapshotIndex < index → new.entryAt index = saved.entryAt index

theorem returns_acceptEntries {request : Proto.AppendEntriesRequest} (hfaults : s.store.faults = [])
    (hproper : Proper s request) (hterms : Termed s request) :
    Prog.Returns (NodeM.acceptEntries request) (fun accepted es' s' =>
      s'.toIdentity = s.toIdentity ∧ s'.toConnectionState = s.toConnectionState ∧ s'.currentTerm = s.currentTerm ∧
      accepted.isSome = NodeM.prevMatches s request ∧
      ∀ index, accepted = some index → index = request.prevLogIndex + request.entries.length ∧
        ∃ saved, Event.write (.persistLog (some request)) saved ∈ es' ∧ Settled request s saved s') es s := by
  refine .get (.ite (fun hmatches => ?_) fun hno => .ret ⟨rfl, rfl, rfl, ?_, fun _ hnone => nomatch hnone⟩)
  case refine_2 =>
    rw [Bool.not_eq_true] at hno
    rw [hno]
    rfl
  have hprev : s.snapshotIndex ≤ request.prevLogIndex ∧ request.prevLogIndex ≤ s.lastIndex := by
    simp only [NodeM.prevMatches, Bool.and_eq_true, decide_eq_true_eq] at hmatches
    exact hmatches.1
  have hresult := NodeM.mergeEntries_result hproper.consecutive hprev.1 hprev.2
  have happlicable := hproper.applicable hmatches
  unfold newlyCommitted at happlicable
  generalize NodeM.mergeEntries s request.prevLogIndex request.entries = merge at hresult happlicable ⊢
  have hsuccess : merge.success = true := by
    cases hresult with
    | present => rfl
    | replaced => rfl
    | refused entry last hmem _ hhigh hcommit hne =>
      obtain ⟨i, hi⟩ := List.mem_iff_getElem?.mp hmem
      have hindex := hproper.consecutive.index hi
      rw [hindex] at hhigh hcommit hne
      exact absurd (hproper.committed i entry hi hcommit hhigh) hne
  have hmerged : merge.index = request.prevLogIndex + request.entries.length := by
    cases hresult with
    | present => rfl
    | replaced => rfl
    | refused => exact absurd hsuccess (by simp)
  refine .bind (.modify (.ite (fun _ => .bind (follows_persistLog hfaults rfl (.bind (.modify (.bind ?_)))))
    fun hfailed => absurd hsuccess hfailed))
  have hlogTerms : ∀ entry ∈ merge.log, entry.term ≠ 0 := by
    intro entry hentry
    rcases hresult.mem_log hentry with hold | ⟨incoming, hincoming, rfl⟩
    · exact hterms.1 entry hold
    · exact hterms.2 incoming hincoming
  have hagrees : s.store.Agrees (s.merged merge.log request.leaderCommit).store :=
    RaftNode.logSaved_agrees { s with log := merge.log }
  have happly : Prog.Returns NodeM.applyCommitted
      (fun _ _ s' => (s.merged merge.log request.leaderCommit).Kept s')
      (es ++ [.write (.persistLog (some request)) ({ s with log := merge.log } : RaftNode).logSaved])
      (s.merged merge.log request.leaderCommit) := by
    rw [← hagrees.applicable, applicable_eq, Option.isSome_iff_exists] at happlicable
    obtain ⟨store, hstore⟩ := happlicable
    refine (returns_applyCommitted rfl (min_le_right _ _) (fun hlt => ?_) hstore).post fun _ _ _ h => h.2.1.toKept
    obtain ⟨entry, hmem, hentry⟩ := RaftNode.exists_entryAt (s := s.merged merge.log request.leaderCommit) hlt
      (min_le_right _ _)
    rw [RaftNode.termAt_of_entryAt hentry]
    exact hlogTerms entry hmem
  refine happly.grows.post ?_
  rintro _ es' s' ⟨hkept, hgrows⟩
  refine .ret ⟨hkept.identity, hkept.connection, hkept.currentTerm, ?_, fun index hindex => ?_⟩
  · rw [hmatches]
    rfl
  · obtain rfl := Option.some.inj hindex
    refine ⟨hmerged, _, hgrows.subset (List.mem_append_right _ List.mem_cons_self), ?_, hkept.lastIndex,
      hkept.snapshot_le, fun index hindex => ?_⟩
    · exact Merged.of_result hresult hsuccess hprev.1 rfl rfl rfl
    · exact RaftNode.entryAt_compact hkept.snapshot_le rfl hkept.retained hindex

end Returning

/-! ### The handler -/

/-- A request of the current term or a later one is answered, with success exactly when its previous entry is there;
then the log that is written is the old one merged with the entries of the request, and what is left of it after
compaction is the same at every index. -/
theorem handleAppendEntries_merges {node : RaftNode} {request : Proto.AppendEntriesRequest}
    (hfaults : node.store.faults = []) (hterm : node.currentTerm ≤ request.term) (hproper : Proper node request)
    (hterms : Termed node request) (connection : Conn) (requestId : Nat) :
    ∃ node' events answer,
      NodeM.handleAppendEntries connection request requestId node = (.ok (), node', events) ∧
      (connection ∈ node.connected → ∃ id, (requestId ≠ 0 → id = requestId) ∧ events.getLast? =
        some (.send connection ⟨id, toUint64 node.serverId, .appendEntriesResponse answer⟩ node')) ∧
      answer.term = request.term ∧
      (answer.success = true ↔ node.snapshotIndex ≤ request.prevLogIndex ∧ request.prevLogIndex ≤ node.lastIndex ∧
        node.termAt request.prevLogIndex = request.prevLogTerm) ∧
      (answer.success = true →
        answer.matchIndex = request.prevLogIndex + request.entries.length ∧
        ∃ saved, Event.write (.persistLog (some request)) saved ∈ events ∧ Settled request node saved node' ∧
          (request.prevLogIndex + request.entries.length < node.lastIndex →
            ((∀ index, request.prevLogIndex + request.entries.length < index →
                saved.entryAt index = node.entryAt index) ↔ ¬ node.Conflicts request))) := by
  have hreturns : Prog.Returns (NodeM.handleAppendEntries connection request requestId)
      (fun _ events node' => ∃ (accepted : Option Nat) (answer : Proto.AppendEntriesResponse),
        accepted.isSome = NodeM.prevMatches node request ∧ answer.success = accepted.isSome ∧
        answer.term = request.term ∧ (∀ index, accepted = some index → answer.matchIndex = index) ∧
        (connection ∈ node.connected → ∃ id, (requestId ≠ 0 → id = requestId) ∧ events.getLast? =
          some (.send connection ⟨id, toUint64 node.serverId, .appendEntriesResponse answer⟩ node')) ∧
        ∀ index, accepted = some index → index = request.prevLogIndex + request.entries.length ∧
          ∃ saved, Event.write (.persistLog (some request)) saved ∈ events ∧ Settled request node saved node')
      [] node := by
    refine .get (.ite (fun hlt => absurd hlt (by omega)) fun _ =>
      .bind ((ends_followLeader hterm).weaken ?_ fun _ _ hthrown => hthrown.2.1 hfaults))
    rintro _ es s ⟨hyields, hfollows, -, -⟩
    obtain ⟨hproper', hprev, -⟩ := hyields.proper hproper
    have hterms' : Termed s request := ⟨hyields.log.symm ▸ hterms.1, hterms.2⟩
    refine .bind ((returns_acceptEntries (hyields.faults_nil hfaults) hproper' hterms').post ?_)
    rintro accepted es' s' ⟨hidentity, hconnection, hcurrent, hsome, haccepted⟩
    have hserver : s'.serverId = node.serverId :=
      congrArg Identity.serverId (hidentity.trans hyields.identity)
    have hconnected : s'.connected = node.connected :=
      congrArg ConnectionState.connected (hconnection.trans hyields.connection)
    have hsettled : ∀ index, accepted = some index →
        index = request.prevLogIndex + request.entries.length ∧
          ∃ saved, Event.write (.persistLog (some request)) saved ∈ es' ∧ Settled request node saved s' := by
      intro index hindex
      obtain ⟨hlast, saved, hmem, hset⟩ := haccepted index hindex
      exact ⟨hlast, saved, hmem, hyields.merged hproper hset.merged, hset.lastIndex, hset.snapshot_le, hset.entryAt⟩
    refine .get (.bind (follows_sendRpc (fun id sender => rpcByteSize_small rfl) (fun hnone => .ret ?_)
      fun c id next hc hmem hid => ⟨_, rfl, .ret ?_⟩))
    · refine ⟨accepted, ⟨s'.currentTerm, accepted.isSome, accepted.getD s'.lastIndex, toUint64 s'.serverId⟩, hsome.trans hprev, rfl, hcurrent.trans hfollows, ?_, fun hmem => ?_, hsettled⟩
      · rintro index rfl
        rfl
      · rw [← hconnected] at hmem
        exact absurd hnone (by simp [RaftNode.isConnected, hmem])
    · obtain rfl := Option.some.inj hc
      refine ⟨accepted, ⟨s'.currentTerm, accepted.isSome, accepted.getD s'.lastIndex, toUint64 s'.serverId⟩, hsome.trans hprev, rfl, hcurrent.trans hfollows, ?_, fun _ => ⟨id, ?_, ?_⟩, ?_⟩
      · rintro index rfl
        rfl
      · rintro hne
        rcases hid with ⟨-, rfl, -⟩ | ⟨hzero, -⟩
        · rfl
        · exact absurd hzero hne
      · rw [← hserver]
        exact List.getLast?_concat
      · intro index hindex
        obtain ⟨hlast, saved, hmem', hset⟩ := hsettled index hindex
        exact ⟨hlast, saved, List.mem_append_left _ hmem', hset.merged, hset.lastIndex, hset.snapshot_le, hset.entryAt⟩
  obtain ⟨_, node', events, hrun, accepted, answer, hsome, hsuccess, hanswer, hindex, hsent, haccepted⟩ := hreturns.run
  have hprev : NodeM.prevMatches node request = true ↔ node.snapshotIndex ≤ request.prevLogIndex ∧
      request.prevLogIndex ≤ node.lastIndex ∧ node.termAt request.prevLogIndex = request.prevLogTerm := by
    simp [NodeM.prevMatches, and_assoc]
  refine ⟨node', events, answer, hrun, hsent, hanswer, by rw [hsuccess, hsome, hprev], fun htrue => ?_⟩
  rw [hsuccess] at htrue
  obtain ⟨index, rfl⟩ := Option.isSome_iff_exists.mp htrue
  obtain ⟨hlast, saved, hmem, hset⟩ := haccepted index rfl
  exact ⟨(hindex index rfl).trans hlast, saved, hmem, hset, fun htail =>
    hset.merged.tail_iff htail (hprev.mp (hsome.symm.trans htrue)).1⟩

/-- The entry of a PUT. -/
def putEntry (term : Nat) : RaftLogEntry := ⟨term, Wire.protobuf.command.serialize ⟨.put, 0, 0, [107], [118]⟩⟩

/-- A follower with `count` entries of a term, connected to node 1. -/
def followerWith (term count : Nat) : RaftNode :=
  { RaftNode.create 2 [1, 2, 3] .empty with
    log := List.replicate count (putEntry term)
    currentTerm := term
    connected := [⟨1, 2, 0⟩] }

/-- A request of the next term that replaces the second entry and adds a third. -/
def replacing : Proto.AppendEntriesRequest :=
  ⟨2, 1, 1, 1, [⟨2, 2, (putEntry 2).command⟩, ⟨3, 2, (putEntry 2).command⟩], 2⟩

omit [Protobuf] in
theorem handleAppendEntries_merges_replacing : ∃ node' events answer,
    @NodeM.handleAppendEntries Wire.protobuf ⟨1, 2, 0⟩ replacing 7 (followerWith 1 2) = (.ok (), node', events) ∧
    answer.success = true ∧ answer.matchIndex = 3 ∧
    events.getLast? = some (.send ⟨1, 2, 0⟩ ⟨7, toUint64 2, .appendEntriesResponse answer⟩ node') := by
  have hproper : @Proper Wire.protobuf (followerWith 1 2) replacing :=
    @Proper.mk Wire.protobuf _ _ ⟨rfl, rfl, trivial⟩ (fun i entry _ hcommit => absurd hcommit (Nat.not_succ_le_zero _))
      fun _ => by decide +kernel
  have hterms : Termed (followerWith 1 2) replacing := by
    constructor <;> decide +kernel
  obtain ⟨node', events, answer, hrun, hsent, -, hsuccess, hmatch⟩ :=
    @handleAppendEntries_merges Wire.protobuf (followerWith 1 2) replacing rfl (by decide) hproper hterms ⟨1, 2, 0⟩ 7
  have htrue : answer.success = true := hsuccess.mpr (by decide +kernel)
  obtain ⟨id, hid, hlast⟩ := hsent List.mem_cons_self
  rw [hid (by decide)] at hlast
  exact ⟨node', events, answer, hrun, htrue, (hmatch htrue).1, hlast⟩

/-- A request that only makes the eight entries of a follower committed. -/
def committing : Proto.AppendEntriesRequest := ⟨1, 1, 8, 0, [], 8⟩

omit [Protobuf] in
/-- Entries of term zero are merged and applied, but then no snapshot can be taken of them: the handler throws, and
there is no answer. -/
theorem handleAppendEntries_unanswered : @Proper Wire.protobuf (followerWith 0 8) committing ∧
    (followerWith 0 8).store.faults = [] ∧ (followerWith 0 8).currentTerm ≤ committing.term ∧
    (followerWith 0 8).snapshotIndex ≤ committing.prevLogIndex ∧
    committing.prevLogIndex ≤ (followerWith 0 8).lastIndex ∧
    (followerWith 0 8).termAt committing.prevLogIndex = committing.prevLogTerm ∧
    ∃ x node' events, @NodeM.handleAppendEntries Wire.protobuf ⟨1, 2, 0⟩ committing 7 (followerWith 0 8) =
      (.error x, node', events) ∧ ∀ c rpc s, Event.send c rpc s ∉ events := by
  have hthrows : (@NodeM.handleAppendEntries Wire.protobuf ⟨1, 2, 0⟩ committing 7 (followerWith 0 8)).1.isOk = false := by
    decide +kernel
  have hquiet : (@NodeM.handleAppendEntries Wire.protobuf ⟨1, 2, 0⟩ committing 7 (followerWith 0 8)).2.2.any
      (Event.transmits fun _ _ _ => true) = false := by decide +kernel
  refine ⟨@Proper.mk Wire.protobuf _ _ trivial (fun i entry hentry => absurd hentry (by simp [committing]))
    fun _ => by decide +kernel, rfl, by decide, by decide +kernel, by decide +kernel, by decide +kernel, ?_⟩
  obtain ⟨⟨result, node', events⟩, hrun⟩ : ∃ outcome,
      @NodeM.handleAppendEntries Wire.protobuf ⟨1, 2, 0⟩ committing 7 (followerWith 0 8) = outcome := ⟨_, rfl⟩
  rw [hrun] at hthrows hquiet ⊢
  cases result with
  | ok => cases hthrows
  | error x => exact ⟨x, node', events, rfl, fun c rpc s hmem => List.any_eq_false.mp hquiet _ hmem rfl⟩

end Protobuf

end Nukv
