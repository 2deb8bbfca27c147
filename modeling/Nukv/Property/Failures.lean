import Nukv.Property.AppendEntries

/-!
# What a failed request leaves behind

`HandleAppendEntries` works on `log_` entry by entry and writes the log when all entries have gone through. A request
whose entries are consecutive is rejected before anything is changed; one with a gap is rejected after the entries
before the gap have been taken into memory, and into memory only. `PersistLog` may throw, too, and neither the handler
nor `Submit` takes back what they have done to `log_`.
-/

namespace Nukv

open Base

/-- The log of a node, its snapshot and its progress, and what its store has besides the counters and the snapshot,
are as before. -/
structure RaftNode.Intact (node node' : RaftNode) : Prop where
  log : node'.log = node.log
  snapshotIndex : node'.snapshotIndex = node.snapshotIndex
  snapshotTerm : node'.snapshotTerm = node.snapshotTerm
  snapshotData : node'.snapshotData = node.snapshotData
  commitIndex : node'.commitIndex = node.commitIndex
  lastApplied : node'.lastApplied = node.lastApplied
  stored : ∀ key ∉ fixedKeys, node'.store.get key = node.store.get key

/-- Only these fields matter. -/
theorem RaftNode.Intact.congr {node node' node'' : RaftNode} (h : node.Intact node')
    (hsame : node''.toLogState = node'.toLogState) : node.Intact node'' := by
  obtain ⟨hlog, hindex, hterm, hdata, hcommit, happlied, hstored⟩ := h
  rw [← hsame] at *
  exact ⟨hlog, hindex, hterm, hdata, hcommit, happlied, hstored⟩

variable [Protobuf] {node s : RaftNode} {es : List Event} {request : Proto.AppendEntriesRequest}

/-! ### Rejected entries -/

/-- A request whose previous entry a follower does not have. -/
def unmatched : Proto.AppendEntriesRequest := ⟨2, 1, 5, 1, [⟨6, 2, (putEntry 2).command⟩], 6⟩

/-- The operations that call `PersistLog`. -/
inductive LogOperation where
  | submit (call : SubmitCall)
  | receive (connection : Conn) (requestId senderId : Nat) (request : Proto.AppendEntriesRequest)

namespace LogOperation

def run : LogOperation → NodeM Unit
  | .submit call => NodeM.submit call
  | .receive connection requestId senderId request =>
    NodeM.handleRpc connection ⟨requestId, senderId, .appendEntries request⟩

end LogOperation

omit [Protobuf] in
/-- Which connection belongs to a sender is a matter of the connections and of the RPCs in flight. -/
theorem returns_registerSender (s : RaftNode) (es : List Event) (connection : Conn) (senderId : Nat) :
    Prog.Returns (NodeM.registerSender connection senderId) (fun _ es' s' => es' = es ∧
      ∃ replication connections, s' = { s with toReplicationState := replication, toConnectionState := connections })
      es s := by
  have hreplace : ∀ peer current, Prog.Returns (NodeM.replaceConnection peer current connection) (fun _ es' s' => es' = es ∧
      ∃ replication connections, s' = { s with toReplicationState := replication, toConnectionState := connections })
      es s := by
    intro peer current
    cases current with
    | none => exact .ret ⟨rfl, _, _, rfl⟩
    | some current =>
      exact .when (fun _ => .bind (.get (.when (fun _ => .modify (.modify ⟨rfl, _, _, rfl⟩))
        fun _ => .modify ⟨rfl, _, _, rfl⟩))) fun _ => ⟨rfl, _, _, rfl⟩
  refine .get (.ite (fun _ => .ret ⟨rfl, _, _, rfl⟩) fun _ => .ite (fun _ => ?_) fun _ => ?_)
  · refine .bind ((hreplace _ _).post ?_)
    rintro _ _ _ ⟨rfl, replication, connections, rfl⟩
    exact .bind (.modify (.ret ⟨rfl, _, _, rfl⟩))
  · cases s.outboundConnections (toInt32 senderId) with
    | none => exact .bind (.modify (.ret ⟨rfl, _, _, rfl⟩))
    | some current =>
      exact .ite (fun _ => .ret ⟨rfl, _, _, rfl⟩) fun _ => .bind (.modify (.ret ⟨rfl, _, _, rfl⟩))

/-- Every entry of the log is in the store. -/
def RaftNode.LogStored (node : RaftNode) : Prop :=
  ∀ index entry, node.entryAt index = .ok entry →
    node.store.get (logKey index) = some (Protobuf.logEntry.serialize ⟨index, entry.term, entry.command⟩)

/-- What `SendAppend` sends is in the store. -/
theorem RaftNode.LogStored.sent (h : node.LogStored) {peer : Int} (hnext : node.snapshotIndex < node.nextIndexOf peer)
    {entry : Proto.RaftLogEntry} (hmem : entry ∈ (NodeM.appendRequest node peer).entries) :
    node.store.get (logKey entry.index) = some (Protobuf.logEntry.serialize entry) := by
  obtain ⟨k, hk, rfl⟩ := List.mem_mapIdx.mp hmem
  have hlow : node.snapshotIndex < max 1 (min (node.nextIndexOf peer) (node.lastIndex + 1)) := by
    unfold lastIndex
    omega
  refine h _ _ (entryAt_eq_ok.mpr ⟨Nat.lt_add_right k hlow, ?_⟩)
  generalize max 1 (min (node.nextIndexOf peer) (node.lastIndex + 1)) = next at hk hlow
  rw [show next + k - node.snapshotIndex - 1 = next - node.snapshotIndex - 1 + k by omega, ← List.getElem?_drop,
    ← List.getElem?_take_of_lt (hk.trans_le (List.length_take_le _ _))]
  exact List.getElem?_eq_getElem hk

/-- What a leader counts itself for is in the store. -/
theorem RaftNode.LogStored.counted (h : node.LogStored) {index : Nat} (hcandidate : NodeM.commitCandidate node = some index)
    (hlow : node.snapshotIndex < index) : node.store.get (logKey index) ≠ none := by
  obtain ⟨entry, -, hentry⟩ := exists_entryAt hlow (NodeM.commitCandidate_some hcandidate).2.1
  rw [h index entry hentry]
  simp

/-- The loop of a process runs some functions. -/
def drive (server : Int) (actions : List LoopAction) : NodeM Unit :=
  Prog.forEach actions fun action => do
    Prog.modify (Cluster.prepare server action)
    Cluster.program server action

/-- Node 1 is elected with the vote of node 2; its third write will fail. -/
def elected : RaftNode :=
  (@drive Wire.protobuf 1 [.start, .connect 2 0, .electionTimeout,
    .receive ⟨1, 2, 0⟩ ⟨2, 2, .requestVoteResponse ⟨1, true, 2⟩⟩,
    .receive ⟨1, 2, 0⟩ ⟨3, 2, .appendEntriesResponse ⟨1, true, 0, 2⟩⟩]
    (RaftNode.create 1 [1, 2, 3] ⟨∅, [false, false, true]⟩)).2.1

end Nukv
