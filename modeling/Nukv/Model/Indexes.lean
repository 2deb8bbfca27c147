import Nukv.Model.Handlers

/-!
# Index arithmetic with its checks

The functions of `RaftNode` that compute with log indexes, once more, as the source writes them: every element of the log
is reached through `LogOffset`, and every difference is one of unsigned numbers. A computation has no value when `LogOffset`
throws, when an offset lies outside the vector it is used on, or when a difference would wrap. The functions of `NodeM` and
`RaftNode` compute the same on natural numbers and lists, where nothing can fail.
-/

namespace Nukv.Checked

open Base

variable [Protobuf]

/-- The difference of two unsigned numbers. -/
def sub (a b : Nat) : Option Nat := if b ≤ a then some (a - b) else none

def logOffset (node : RaftNode) (index : Nat) : Option Nat :=
  if index ≤ node.snapshotIndex ∨ node.lastIndex < index then none
  else do
    let distance ← sub index node.snapshotIndex
    sub distance 1

/-- `log_[LogOffset(index)]`. -/
def entryAt (node : RaftNode) (index : Nat) : Option RaftLogEntry := do
  let offset ← logOffset node index
  node.log[offset]?

def termAt (node : RaftNode) (index : Nat) : Option Nat :=
  if index = node.snapshotIndex then some node.snapshotTerm
  else if index ≤ node.snapshotIndex ∨ node.lastIndex < index then some 0
  else do
    let entry ← entryAt node index
    return entry.term

/-- The loop of `SendAppend`, with room for so many more entries. -/
def sentEntries (node : RaftNode) : (room index : Nat) → Option (List Proto.RaftLogEntry)
  | 0, _ => some []
  | room + 1, index =>
    if node.lastIndex < index then some []
    else do
      let entry ← entryAt node index
      let rest ← sentEntries node room (index + 1)
      return ⟨index, entry.term, entry.command⟩ :: rest

/-- The request of `SendAppend`. -/
def appendRequest (node : RaftNode) (peer : Int) : Option Proto.AppendEntriesRequest := do
  let next := max 1 (min (node.nextIndexOf peer) (node.lastIndex + 1))
  let prevLogIndex ← sub next 1
  let prevLogTerm ← termAt node prevLogIndex
  let entries ← sentEntries node kMaxEntriesPerRpc next
  return ⟨node.currentTerm, toUint64 node.serverId, prevLogIndex, prevLogTerm, entries, node.commitIndex⟩

/-- The downward loop of `TryAdvanceCommit`, from the given index. -/
def commitCandidate (node : RaftNode) : (index : Nat) → Option (Option Nat)
  | 0 => some none
  | index + 1 =>
    if index + 1 ≤ node.commitIndex then some none
    else do
      let term ← termAt node (index + 1)
      if term = node.currentTerm ∧ node.peers.length / 2 < NodeM.replicated node (index + 1) then
        return some (index + 1)
      else commitCandidate node index

/-- The loop of `HandleAppendEntries`. -/
def mergeEntries (node : RaftNode) (index : Nat) : List Proto.RaftLogEntry → Option NodeM.Merge
  | [] => some ⟨true, index, node.log⟩
  | incoming :: rest =>
    if incoming.index ≠ index + 1 then some ⟨false, index + 1, node.log⟩
    else if index + 1 ≤ node.lastIndex then do
      let term ← termAt node (index + 1)
      if term = incoming.term then mergeEntries node (index + 1) rest
      else if index + 1 ≤ node.commitIndex then return ⟨false, index + 1, node.log⟩
      else
        let offset ← logOffset node (index + 1)
        mergeEntries { node with log := node.log.take offset ++ [⟨incoming.term, incoming.command⟩] } (index + 1) rest
    else mergeEntries { node with log := node.log ++ [⟨incoming.term, incoming.command⟩] } (index + 1) rest

/-- `--next_index_[peer]`. -/
def backOff (node : RaftNode) (peer : Int) : Option Nat := sub (node.nextIndexOf peer) 1

/-- The suffix that `HandleInstallSnapshot` keeps. -/
def retainedSuffix (node : RaftNode) : Option (List RaftLogEntry) :=
  if node.incomingSnapshotIndex ≤ node.lastIndex then do
    let term ← termAt node node.incomingSnapshotIndex
    if term = node.incomingSnapshotTerm then
      if node.incomingSnapshotIndex = node.lastIndex then return node.log.drop node.log.length
      else
        let suffixBegin ← logOffset node (node.incomingSnapshotIndex + 1)
        if suffixBegin ≤ node.log.length then return node.log.drop suffixBegin
        else none
    else return []
  else return []

/-- The test at the start of `CreateSnapshotIfNeeded`. -/
def snapshotDue (node : RaftNode) : Option Bool :=
  if node.snapshotInProgress = true ∨ node.commitIndex ≤ node.snapshotIndex then return false
  else do
    let distance ← sub node.commitIndex node.snapshotIndex
    return !decide (distance < kSnapshotThreshold)

/-- What `CreateSnapshotIfNeeded` leaves of the log: `erase_count` entries are erased from its front. -/
def compactedLog (node : RaftNode) : Option (List RaftLogEntry) := do
  let eraseCount ← sub node.commitIndex node.snapshotIndex
  if node.log.length < eraseCount then none
  else return node.log.drop eraseCount

end Nukv.Checked
