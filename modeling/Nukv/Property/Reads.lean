import Nukv.Proof.Reading
import Nukv.Property.Consensus

/-!
# Reads

A read that `ReadIndex` answers with true was confirmed by a quorum after it had become active, so at its activation
the node that served it was the leader of the greatest term there was.
-/

namespace Nukv

open Cluster

/-- Node 1 is elected with the vote of node 2, commits a command with it and serves a read. -/
def reading : List Move :=
  [.act (.run 1 .start), .act (.run 2 .start), .act (.run 1 (.connect 2 0)), .act (.run 2 (.accept ⟨1, 2, 0⟩)),
    .act (.run 1 .electionTimeout), .deliver 1, .deliver 2, .deliver 3, .deliver 4,
    .act (.run 1 (.submit ⟨0, ⟨.put, 1, 1, [107], [118]⟩⟩)), .deliver 5, .deliver 6,
    .act (.run 1 (.readIndex 7)), .deliver 7, .deliver 8]

section Runs

variable [Protobuf] {config : Config} {cluster : Cluster}

/-- The promise of a read that is set to true is the one of the last read that the node has activated. No node had
become leader of a greater term before the activation, and the node has applied all that it had committed then. -/
theorem readIndex_confirmsLeadership (h : Reachable config cluster) {past rest : List (Int × Event)} {n : Int}
    {result : Nat} {σ' : RaftNode} (hread : cluster.history = past ++ (n, .readResult result true σ') :: rest) :
    ∃ before σ since, past = before ++ (n, .activateRead σ) :: since ∧ (∀ s, (n, .activateRead s) ∉ since) ∧
      σ.activeReadIndex.map PendingReadIndex.result = some result ∧ σ.role = .leader ∧
      (∀ m s, (m, .becomeLeader s) ∈ before → s.currentTerm ≤ σ.currentTerm) ∧ σ.commitIndex ≤ σ'.lastApplied := by
  obtain ⟨A, hA⟩ := h.reach.tracked
  obtain ⟨-, -, -, read, -, -, -, -, -, -,
    ⟨before, ⟨σ, since, hpast, hlast, hrole, hterm, hindex, hresult⟩, hterms⟩, rfl, happlied⟩ := hA.answered hread
  refine ⟨before, σ, since, hpast, hlast, hresult, hrole, fun m s hs => ?_, ?_⟩
  · rw [hterm]
    exact hterms m s hs
  · rw [hindex]
    exact happlied

/-- Whether the event is that a read has succeeded. -/
def succeeds (result : Nat) : Event → Bool
  | .readResult result' true _ => result' == result
  | _ => false

omit [Protobuf] in
theorem readIndex_confirmsLeadership_reading : ∃ cluster before since rest σ σ', @Reachable Wire.protobuf trio cluster ∧
    cluster.history = before ++ (1, .activateRead σ) :: since ++ (1, .readResult 7 true σ') :: rest ∧
    (∀ m s, (m, .becomeLeader s) ∈ before → s.currentTerm ≤ σ.currentTerm) ∧ σ.commitIndex ≤ σ'.lastApplied := by
  obtain ⟨cluster, hrun, htest⟩ := @run_of_play Wire.protobuf trio (fun _ _ => True) _ reading
    (fun cluster => cluster.occurs 1 (succeeds 7)) (by decide +kernel)
  obtain ⟨event, hmem, hevent⟩ := exists_of_occurs htest
  unfold succeeds at hevent
  split at hevent
  · next result σ' =>
    obtain rfl := beq_iff_eq.mp hevent
    obtain ⟨past, rest, hhistory⟩ := List.append_of_mem hmem
    obtain ⟨before, σ, since, rfl, -, -, -, hterms, happlied⟩ :=
      @readIndex_confirmsLeadership Wire.protobuf trio cluster hrun past rest 1 7 σ' hhistory
    exact ⟨cluster, before, since, rest, σ, σ', hrun, hhistory, hterms, happlied⟩
  · cases hevent

end Runs

end Nukv
