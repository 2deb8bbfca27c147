import Nukv.Proof.History
import Nukv.Proof.Refine

/-!
# The log behind an index and a term

An entry is appended once, by the leader of its term, behind an entry of a known index and term. Following the
appends of a run backwards from an index and a term gives the whole log that ends there, also where every node
has compacted it away. In a reachable world there is at most one such log, and it is a beginning of the log of
the term.
-/

namespace Nukv

/-- The log that ends with the entry of `term` at `index`, as the appends of a run have made it. -/
inductive Lineage (history : List (Int × Event)) : (index term : Nat) → List RaftLogEntry → Prop
  | empty : Lineage history 0 0 []
  | append {index term : Nat} {L : List RaftLogEntry} {n : Int} {node : RaftNode} {entry : RaftLogEntry} :
      Lineage history index term L → (n, .write (.persistLog none) node) ∈ history →
        node.lastIndex = index + 1 → node.termAt index = term → node.entryAt (index + 1) = .ok entry →
        Lineage history (index + 1) entry.term (L ++ [entry])

variable [Protobuf] {config : Config} {timely : Prop} {A : Shadow} {w : World}

namespace Tracked

/-- The list an append leaves, read from the log of its term. -/
theorem append_event (h : Tracked config timely w A) {n : Int} {node : RaftNode}
    (hevent : (n, .write (.persistLog none) node) ∈ w.history) {index : Nat} (hlast : node.lastIndex = index + 1) :
    node.snapshotIndex ≤ index ∧ node.Shows ((A.tlog node.currentTerm).take (index + 1)) ∧
      index < (A.tlog node.currentTerm).length ∧
      ∃ entry, (A.tlog node.currentTerm)[index]? = some entry ∧ entry.term = node.currentTerm := by
  obtain ⟨-, L, entry, hinitial, hterm, hle, hshows⟩ := h.events n _ hevent
  have hlength : L.length = index := by
    have := hshows.lastIndex
    rw [List.length_append, List.length_singleton] at this
    omega
  subst hlength
  obtain ⟨R, hR⟩ := hinitial
  have htake : (A.tlog node.currentTerm).take (L.length + 1) = L ++ [entry] := by
    rw [← hR, List.take_append_of_le_length (by simp), List.take_of_length_le (by simp)]
  refine ⟨hle, htake ▸ hshows, by rw [← hR]; simp, entry, ?_, hterm⟩
  rw [← hR]
  simp

theorem lineage_eq (h : Tracked config timely w A) {index term : Nat} {L : List RaftLogEntry}
    (hlineage : Lineage w.history index term L) : L = (A.tlog term).take index ∧ L.length = index := by
  induction hlineage with
  | empty => exact ⟨rfl, rfl⟩
  | @append index term L n node entry _ hevent hlast hterm hentry ih =>
    obtain ⟨rfl, hlength⟩ := ih
    obtain ⟨hle, hshows, hlt, entry', hentry', hown⟩ := h.append_event hevent hlast
    obtain rfl : entry = entry' := by
      have hread := (hshows.entryAt.mp hentry).2
      rw [List.getElem?_take_of_lt (Nat.lt_succ_self _), hentry'] at hread
      exact (Option.some.inj hread).symm
    have hsame : (A.tlog term).take index = (A.tlog node.currentTerm).take index := by
      cases index with
      | zero => rw [List.take_zero, List.take_zero]
      | succ k =>
        -- the entry before the new one has the term that the event names
        have hprev : (A.tlog node.currentTerm)[k]? = some (A.tlog node.currentTerm)[k] :=
          List.getElem?_eq_getElem (by omega)
        have htermAt := hshows.termAt hle (by omega)
        rw [List.take_take, Nat.min_eq_left (by omega), Raft.lastTerm_take hprev, hterm] at htermAt
        rw [htermAt]
        exact (h.inv.sourced_tlog _ k _ hprev).2.symm
    rw [hown, hsame, List.take_add_one, hentry']
    refine ⟨rfl, ?_⟩
    rw [List.length_append, List.length_take]
    simp
    omega

theorem lineage_take (h : Tracked config timely w A) {L : List RaftLogEntry} (hL : Raft.Sourced config.setting A L)
    {index : Nat} (hindex : index ≤ L.length) :
    Lineage w.history index (Raft.lastTerm RaftLogEntry.term (L.take index)) (L.take index) := by
  induction index with
  | zero => exact .empty
  | succ k ih =>
    have hentry : L[k]? = some L[k] := List.getElem?_eq_getElem hindex
    have htake : L.take (k + 1) = (A.tlog L[k].term).take (k + 1) := (hL k _ hentry).2
    have hown : (A.tlog L[k].term)[k]? = some L[k] := by
      rw [← Raft.getElem?_eq_of_take_eq (Nat.lt_succ_self k) htake, hentry]
    obtain ⟨n, node, hevent, hterm, hlast⟩ := h.appended _ k _ hown rfl
    obtain ⟨hle, hshows, -⟩ := h.append_event hevent hlast
    rw [hterm, ← htake] at hshows
    rw [Raft.lastTerm_take hentry, List.take_add_one, hentry]
    refine .append (ih (by omega)) hevent hlast ?_ ?_
    · rw [hshows.termAt hle (by omega), List.take_take, Nat.min_eq_left (by omega)]
    · refine hshows.entryAt.mpr ⟨hle, ?_⟩
      rw [List.getElem?_take_of_lt (Nat.lt_succ_self k), hentry]

end Tracked

end Nukv
