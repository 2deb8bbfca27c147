import Mathlib.Algebra.Order.BigOperators.Group.List
import Nukv.Base.Proto3
import Nukv.Model.Wire

/-!
# The standard encoding

The messages in the encoding the generated code uses, field by field with the numbers of the `.proto` files. The values
of `CommandType` without a name are numbered past the names, as in `Nukv.Wire`; the program does not build any.

The length of a `RaftRpc` is computed as `ByteSizeLong` does it: a `uint64` takes a tag and a varint and is left out when
it is zero, a byte string takes a tag and its length, cast to 32 bits, in front.
-/

namespace Nukv.Standard

open Base.Proto3

/-! ### Messages that are stored -/

def commandFields (command : Proto.Command) : List Field :=
  numberField 1 (Wire.typeCode command.type) ++ (numberField 2 command.clientId ++
    (numberField 3 command.requestId ++ (bytesField 4 command.key ++ bytesField 5 command.value)))

def readCommand (input : Bytes) : Option Proto.Command :=
  (decode input).map fun fields =>
    ⟨Wire.typeOfCode (readNumber 1 0 fields), readNumber 2 0 fields, readNumber 3 0 fields, readBytes 4 [] fields,
      readBytes 5 [] fields⟩

theorem readCommand_encode (command : Proto.Command) : readCommand (encode (commandFields command)) = some command := by
  simp [readCommand, commandFields]

def logEntryFields (entry : Proto.RaftLogEntry) : List Field :=
  numberField 1 entry.index ++ (numberField 2 entry.term ++ bytesField 3 entry.command)

def readLogEntry (input : Bytes) : Option Proto.RaftLogEntry :=
  (decode input).map fun fields => ⟨readNumber 1 0 fields, readNumber 2 0 fields, readBytes 3 [] fields⟩

theorem readLogEntry_encode (entry : Proto.RaftLogEntry) : readLogEntry (encode (logEntryFields entry)) = some entry := by
  simp [readLogEntry, logEntryFields]

def metadataFields (metadata : Proto.SnapshotMetadata) : List Field :=
  numberField 1 metadata.lastIncludedIndex ++ numberField 2 metadata.lastIncludedTerm

def readMetadata (input : Bytes) : Option Proto.SnapshotMetadata :=
  (decode input).map fun fields => ⟨readNumber 1 0 fields, readNumber 2 0 fields⟩

theorem readMetadata_encode (metadata : Proto.SnapshotMetadata) :
    readMetadata (encode (metadataFields metadata)) = some metadata := by
  simp [readMetadata, metadataFields]

def snapshotEntryFields (entry : Proto.SnapshotEntry) : List Field :=
  bytesField 1 entry.key ++ bytesField 2 entry.value

def readSnapshotEntry (input : Bytes) : Option Proto.SnapshotEntry :=
  (decode input).map fun fields => ⟨readBytes 1 [] fields, readBytes 2 [] fields⟩

def writeSnapshotEntries (entries : List Proto.SnapshotEntry) : List Bytes :=
  entries.map fun entry => encode (snapshotEntryFields entry)

def readSnapshotEntries : List Bytes → Option (List Proto.SnapshotEntry)
  | [] => some []
  | input :: inputs => do
    let entry ← readSnapshotEntry input
    let entries ← readSnapshotEntries inputs
    return entry :: entries

theorem readSnapshotEntries_write (entries : List Proto.SnapshotEntry) :
    readSnapshotEntries (writeSnapshotEntries entries) = some entries := by
  induction entries with
  | nil => rfl
  | cons entry entries ih =>
    have hentry : readSnapshotEntry (encode (snapshotEntryFields entry)) = some entry := by
      simp [readSnapshotEntry, snapshotEntryFields]
    have hcons : writeSnapshotEntries (entry :: entries) =
        encode (snapshotEntryFields entry) :: writeSnapshotEntries entries := rfl
    rw [hcons, readSnapshotEntries, hentry, ih]
    rfl

def snapshotStateFields (state : Proto.SnapshotState) : List Field :=
  repeatedField 1 (writeSnapshotEntries state.entries) ++ repeatedField 2 (writeSnapshotEntries state.appliedRequests)

def readSnapshotState (input : Bytes) : Option Proto.SnapshotState := do
  let fields ← decode input
  let entries ← readSnapshotEntries (readRepeated 1 fields)
  let appliedRequests ← readSnapshotEntries (readRepeated 2 fields)
  return ⟨entries, appliedRequests⟩

theorem readSnapshotState_encode (state : Proto.SnapshotState) :
    readSnapshotState (encode (snapshotStateFields state)) = some state := by
  simp [readSnapshotState, snapshotStateFields, readRepeated_append, readRepeated_repeatedField_of_ne,
    readSnapshotEntries_write]

/-! ### The length of an RPC -/

/-- A `uint64` field. -/
def uint64Size (n : Nat) : Nat := if n % 2 ^ 64 = 0 then 0 else 1 + (varint (n % 2 ^ 64)).length

/-- A `bool` field. -/
def boolSize (b : Bool) : Nat := if b then 2 else 0

/-- What is `length` bytes long, with its tag and its length in front. -/
def delimitedSize (length : Nat) : Nat := 1 + (varint (length % 2 ^ 32)).length + length

/-- A `bytes` field. -/
def bytesSize (length : Nat) : Nat := if length = 0 then 0 else delimitedSize length

def logEntrySize (entry : Proto.RaftLogEntry) : Nat :=
  uint64Size entry.index + uint64Size entry.term + bytesSize entry.command.length

def payloadSize : Proto.Payload → Nat
  | .unspecified => 0
  | .identify => 0
  | .requestVote request => uint64Size request.term + uint64Size request.candidateId +
      uint64Size request.lastLogIndex + uint64Size request.lastLogTerm
  | .requestVoteResponse response => uint64Size response.term + boolSize response.voteGranted +
      uint64Size response.responderId
  | .appendEntries request => uint64Size request.term + uint64Size request.leaderId +
      uint64Size request.prevLogIndex + uint64Size request.prevLogTerm +
      (request.entries.map fun entry => delimitedSize (logEntrySize entry)).sum + uint64Size request.leaderCommit
  | .appendEntriesResponse response => uint64Size response.term + boolSize response.success +
      uint64Size response.matchIndex + uint64Size response.responderId
  | .installSnapshot request => uint64Size request.term + uint64Size request.leaderId +
      uint64Size request.lastIncludedIndex + uint64Size request.lastIncludedTerm + uint64Size request.offset +
      bytesSize request.data.length + boolSize request.done
  | .installSnapshotResponse response => uint64Size response.term + boolSize response.success +
      uint64Size response.responderId + uint64Size response.nextOffset
  | .readIndex request => uint64Size request.term + uint64Size request.leaderId
  | .readIndexResponse response => uint64Size response.term + boolSize response.success +
      uint64Size response.responderId

/-- The field `type`. -/
def typeSize : Proto.Payload → Nat
  | .unspecified => 0
  | _ => 2

def rpcByteSize (rpc : Proto.RaftRpc) : Nat :=
  typeSize rpc.payload + uint64Size rpc.requestId + uint64Size rpc.senderId + bytesSize (payloadSize rpc.payload)

theorem uint64Size_le (n : Nat) : uint64Size n ≤ 11 := by
  unfold uint64Size
  split
  · exact Nat.zero_le _
  · have : (varint (n % 2 ^ 64)).length ≤ 9 + 1 := length_varint_le (by omega)
    omega

theorem boolSize_le (b : Bool) : boolSize b ≤ 2 := by cases b <;> decide

theorem delimitedSize_le (length : Nat) : delimitedSize length ≤ length + 6 := by
  have : (varint (length % 2 ^ 32)).length ≤ 4 + 1 := length_varint_le (by omega)
  unfold delimitedSize
  omega

theorem bytesSize_le (length : Nat) : bytesSize length ≤ length + 6 := by
  unfold bytesSize
  split
  · exact Nat.zero_le _
  · exact delimitedSize_le length

theorem typeSize_le (payload : Proto.Payload) : typeSize payload ≤ 2 := by
  cases payload <;> simp [typeSize]

theorem entriesSize_le (entries : List Proto.RaftLogEntry) :
    (entries.map fun entry => delimitedSize (logEntrySize entry)).sum ≤
      (entries.map fun entry => entry.command.length + 40).sum := by
  refine List.sum_le_sum fun entry _ => ?_
  have hindex := uint64Size_le entry.index
  have hterm := uint64Size_le entry.term
  have hcommand := bytesSize_le entry.command.length
  have hentry := delimitedSize_le (logEntrySize entry)
  unfold logEntrySize at hentry ⊢
  omega

theorem payloadSize_le (payload : Proto.Payload) : payloadSize payload ≤ 70 + payload.contentSize := by
  cases payload with
  | unspecified => exact Nat.zero_le _
  | identify => exact Nat.zero_le _
  | appendEntries request =>
    have hterm := uint64Size_le request.term
    have hleader := uint64Size_le request.leaderId
    have hindex := uint64Size_le request.prevLogIndex
    have hprev := uint64Size_le request.prevLogTerm
    have hcommit := uint64Size_le request.leaderCommit
    have hentries := entriesSize_le request.entries
    simp only [payloadSize, Proto.Payload.contentSize]
    omega
  | installSnapshot request =>
    have hterm := uint64Size_le request.term
    have hleader := uint64Size_le request.leaderId
    have hindex := uint64Size_le request.lastIncludedIndex
    have hlast := uint64Size_le request.lastIncludedTerm
    have hoffset := uint64Size_le request.offset
    have hdata := bytesSize_le request.data.length
    have hdone := boolSize_le request.done
    simp only [payloadSize, Proto.Payload.contentSize]
    omega
  | requestVote request =>
    have := uint64Size_le request.term
    have := uint64Size_le request.candidateId
    have := uint64Size_le request.lastLogIndex
    have := uint64Size_le request.lastLogTerm
    simp only [payloadSize, Proto.Payload.contentSize]
    omega
  | requestVoteResponse response =>
    have := uint64Size_le response.term
    have := boolSize_le response.voteGranted
    have := uint64Size_le response.responderId
    simp only [payloadSize, Proto.Payload.contentSize]
    omega
  | appendEntriesResponse response =>
    have := uint64Size_le response.term
    have := boolSize_le response.success
    have := uint64Size_le response.matchIndex
    have := uint64Size_le response.responderId
    simp only [payloadSize, Proto.Payload.contentSize]
    omega
  | installSnapshotResponse response =>
    have := uint64Size_le response.term
    have := boolSize_le response.success
    have := uint64Size_le response.responderId
    have := uint64Size_le response.nextOffset
    simp only [payloadSize, Proto.Payload.contentSize]
    omega
  | readIndex request =>
    have := uint64Size_le request.term
    have := uint64Size_le request.leaderId
    simp only [payloadSize, Proto.Payload.contentSize]
    omega
  | readIndexResponse response =>
    have := uint64Size_le response.term
    have := boolSize_le response.success
    have := uint64Size_le response.responderId
    simp only [payloadSize, Proto.Payload.contentSize]
    omega

theorem rpcByteSize_le (rpc : Proto.RaftRpc) : rpcByteSize rpc ≤ 128 + rpc.payload.contentSize := by
  have htype := typeSize_le rpc.payload
  have hid := uint64Size_le rpc.requestId
  have hsender := uint64Size_le rpc.senderId
  have hpayload := payloadSize_le rpc.payload
  have hbytes := bytesSize_le (payloadSize rpc.payload)
  unfold rpcByteSize
  omega

theorem lt_delimitedSize (length : Nat) : length + 2 ≤ delimitedSize length := by
  have := length_varint_pos (length % 2 ^ 32)
  unfold delimitedSize
  omega

theorem lt_bytesSize {length : Nat} (h : length ≠ 0) : length + 2 ≤ bytesSize length := by
  unfold bytesSize
  rw [if_neg h]
  exact lt_delimitedSize length

/-- A command is wrapped three times, each time with a tag and a length. -/
theorem length_add_le_rpcByteSize {request : Proto.AppendEntriesRequest} {entry : Proto.RaftLogEntry}
    (hmem : entry ∈ request.entries) (hne : entry.command.length ≠ 0) (requestId senderId : Nat) :
    entry.command.length + 6 ≤ rpcByteSize ⟨requestId, senderId, .appendEntries request⟩ := by
  have hcommand : entry.command.length + 2 ≤ logEntrySize entry := by
    have := lt_bytesSize hne
    unfold logEntrySize
    omega
  have hentry : logEntrySize entry + 2 ≤ payloadSize (.appendEntries request) := by
    have hsum := List.single_le_sum (l := request.entries.map fun entry => delimitedSize (logEntrySize entry))
      (fun _ _ => Nat.zero_le _) _ (List.mem_map_of_mem hmem)
    have := lt_delimitedSize (logEntrySize entry)
    simp only [payloadSize]
    omega
  have hpayload : payloadSize (.appendEntries request) + 2 ≤ bytesSize (payloadSize (.appendEntries request)) :=
    lt_bytesSize (by omega)
  unfold rpcByteSize
  dsimp only
  omega

@[reducible]
def protobuf : Protobuf where
  command := ⟨fun command => encode (commandFields command), readCommand, readCommand_encode⟩
  logEntry := ⟨fun entry => encode (logEntryFields entry), readLogEntry, readLogEntry_encode⟩
  snapshotMetadata := ⟨fun metadata => encode (metadataFields metadata), readMetadata, readMetadata_encode⟩
  snapshotState := ⟨fun state => encode (snapshotStateFields state), readSnapshotState, readSnapshotState_encode⟩
  rpcByteSize := rpcByteSize
  rpcByteSize_le := rpcByteSize_le

end Nukv.Standard
