import Nukv.Property.AppendEntries
import Nukv.Property.Consensus

/-!
# An AppendEntries that comes again

A leader that has not seen the answer to an AppendEntries sends it again. Once the first delivery was a success, the
log has every entry of the request and everything it commits is applied, so the second delivery finds nothing to do and
gives the same answer. The exception is a first delivery that compacts the log past the entry before those of the
request: the second one is then told that this entry is unknown.
-/

namespace Nukv

open Base

variable [Protobuf] {s s' : RaftNode} {es : List Event} {request : Proto.AppendEntriesRequest}

/-- A node for which a request has nothing left to do: its log has the entries, and what they commit is applied and
compacted. -/
structure RaftNode.Done (node : RaftNode) (request : Proto.AppendEntriesRequest) : Prop where
  prev : NodeM.prevMatches node request = true
  has : ∀ i entry, request.entries[i]? = some entry → request.prevLogIndex + i + 1 ≤ node.lastIndex ∧
    node.termAt (request.prevLogIndex + i + 1) = entry.term
  commitIndex : node.commitIndex = min request.leaderCommit node.lastIndex
  snapshot_le : node.snapshotIndex ≤ node.lastApplied
  applied : node.commitIndex ≤ node.lastApplied
  compact : node.Compact

omit [Protobuf] in
theorem RaftNode.Done.congr (h : s.Done request) (hlog : s'.log = s.log) (hindex : s'.snapshotIndex = s.snapshotIndex)
    (hterm : s'.snapshotTerm = s.snapshotTerm) (hcommit : s'.commitIndex = s.commitIndex)
    (happlied : s'.lastApplied = s.lastApplied) (hbusy : s'.snapshotInProgress = s.snapshotInProgress) :
    s'.Done request := by
  have hlast : s'.lastIndex = s.lastIndex := by
    unfold lastIndex
    rw [hindex, hlog]
  have hterms : ∀ m, s'.termAt m = s.termAt m := by
    intro m
    unfold termAt entryAt
    rw [hindex, hterm, hlog]
  refine ⟨?_, ?_, ?_, ?_, ?_, ?_⟩
  · have hprev := h.prev
    unfold NodeM.prevMatches at hprev ⊢
    rwa [hindex, hlast, hterms]
  · simpa only [hlast, hterms] using h.has
  · rw [hcommit, hlast, h.commitIndex]
  · rw [hindex, happlied]
    exact h.snapshot_le
  · rw [hcommit, happlied]
    exact h.applied
  · have hcompact := h.compact
    unfold Compact at hcompact ⊢
    rwa [hbusy, hcommit, hindex]

omit [Protobuf] in
/-- The loop over the entries goes through and leaves the log. -/
theorem RaftNode.Done.merge (h : s.Done request) (hconsecutive : Consecutive request.prevLogIndex request.entries) :
    NodeM.mergeEntries s request.prevLogIndex request.entries =
      ⟨true, request.prevLogIndex + request.entries.length, s.log⟩ := by
  have hprev := h.prev
  simp only [NodeM.prevMatches, Bool.and_eq_true, decide_eq_true_eq] at hprev
  have hresult := NodeM.mergeEntries_result hconsecutive hprev.1.1 hprev.1.2
  generalize NodeM.mergeEntries s request.prevLogIndex request.entries = merge at hresult
  cases hresult with
  | present => rfl
  | replaced i hi hend hbefore hreason =>
    have hentry : request.entries[i]? = some request.entries[i] := List.getElem?_eq_getElem hi
    obtain ⟨hle, hterm⟩ := h.has i _ hentry
    rcases hreason with hend' | ⟨-, hne⟩
    · omega
    · exact absurd hterm (hne _ hentry)
  | refused entry last hmem hlow hhigh hcommit hne =>
    obtain ⟨i, hi⟩ := List.mem_iff_getElem?.mp hmem
    rw [hconsecutive.index hi] at hne
    exact absurd (h.has i entry hi).2 hne

end Nukv
