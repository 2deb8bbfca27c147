import Nukv.Model.Bytes

/-!
# The Protobuf messages

The messages of `command.proto` and `raft.proto`, field by field (`uint64` fields are natural numbers).
The generated code that turns them into bytes is not part of the sources. What the program relies on is
the class `Protobuf`: every message that is stored as bytes can be parsed back, and the size of an RPC
is bounded by its variable-length contents plus a fixed allowance for tags, lengths and integers.
On the wire the messages of a run are kept as values: a frame is serialized and parsed by the same code.
-/

namespace Nukv

namespace Proto

/-- `CommandType`; a proto3 enum also carries values that have no name. -/
inductive CommandType where
  | unspecified
  | put
  | get
  | delete
  | unrecognized (value : Int)
  deriving DecidableEq, Repr

structure Command where
  type : CommandType
  clientId : Nat
  requestId : Nat
  key : Bytes
  value : Bytes
  deriving DecidableEq, Repr

structure RaftLogEntry where
  index : Nat
  term : Nat
  command : Bytes
  deriving DecidableEq, Repr

structure RequestVoteRequest where
  term : Nat
  candidateId : Nat
  lastLogIndex : Nat
  lastLogTerm : Nat
  deriving DecidableEq, Repr

structure RequestVoteResponse where
  term : Nat
  voteGranted : Bool
  responderId : Nat
  deriving DecidableEq, Repr

structure AppendEntriesRequest where
  term : Nat
  leaderId : Nat
  prevLogIndex : Nat
  prevLogTerm : Nat
  entries : List RaftLogEntry
  leaderCommit : Nat
  deriving DecidableEq, Repr

structure AppendEntriesResponse where
  term : Nat
  success : Bool
  matchIndex : Nat
  responderId : Nat
  deriving DecidableEq, Repr

structure SnapshotMetadata where
  lastIncludedIndex : Nat
  lastIncludedTerm : Nat
  deriving DecidableEq, Repr

structure SnapshotEntry where
  key : Bytes
  value : Bytes
  deriving DecidableEq, Repr

structure SnapshotState where
  entries : List SnapshotEntry
  appliedRequests : List SnapshotEntry
  deriving DecidableEq, Repr

structure InstallSnapshotRequest where
  term : Nat
  leaderId : Nat
  lastIncludedIndex : Nat
  lastIncludedTerm : Nat
  offset : Nat
  data : Bytes
  done : Bool
  deriving DecidableEq, Repr

structure InstallSnapshotResponse where
  term : Nat
  success : Bool
  responderId : Nat
  nextOffset : Nat
  deriving DecidableEq, Repr

structure ReadIndexRequest where
  term : Nat
  leaderId : Nat
  deriving DecidableEq, Repr

structure ReadIndexResponse where
  term : Nat
  success : Bool
  responderId : Nat
  deriving DecidableEq, Repr

/-- The type of a `RaftRpc` together with its parsed payload. -/
inductive Payload where
  | unspecified
  | requestVote (request : RequestVoteRequest)
  | requestVoteResponse (response : RequestVoteResponse)
  | appendEntries (request : AppendEntriesRequest)
  | appendEntriesResponse (response : AppendEntriesResponse)
  | identify
  | installSnapshot (request : InstallSnapshotRequest)
  | installSnapshotResponse (response : InstallSnapshotResponse)
  | readIndex (request : ReadIndexRequest)
  | readIndexResponse (response : ReadIndexResponse)
  deriving DecidableEq, Repr

structure RaftRpc where
  requestId : Nat
  senderId : Nat
  payload : Payload
  deriving DecidableEq, Repr

/-- The bytes of variable-length contents in a payload, with 40 bytes for the other fields of an entry. -/
def Payload.contentSize : Payload → Nat
  | .appendEntries request => (request.entries.map fun entry => entry.command.length + 40).sum
  | .installSnapshot request => request.data.length
  | _ => 0

end Proto

/-- A message type that can be written to bytes and read back. -/
structure Codec (M : Type) where
  serialize : M → Bytes
  parse : Bytes → Option M
  parse_serialize : ∀ message, parse (serialize message) = some message

theorem Codec.serialize_injective {M : Type} (codec : Codec M) {m n : M}
    (h : codec.serialize m = codec.serialize n) : m = n := by
  have hm := codec.parse_serialize m
  rw [h, codec.parse_serialize] at hm
  exact (Option.some.inj hm).symm

/-- The generated Protobuf code, as far as the program depends on it. -/
class Protobuf where
  command : Codec Proto.Command
  logEntry : Codec Proto.RaftLogEntry
  snapshotMetadata : Codec Proto.SnapshotMetadata
  snapshotState : Codec Proto.SnapshotState
  /-- The length of a serialized `RaftRpc`. -/
  rpcByteSize : Proto.RaftRpc → Nat
  rpcByteSize_le : ∀ rpc, rpcByteSize rpc ≤ 128 + rpc.payload.contentSize

end Nukv
