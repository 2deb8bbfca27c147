import Nukv.Model.Store

/-!
# The Raft records in the store

`RaftStorage` keeps the term, the vote, the indices, the snapshot and the log under reserved keys. A
log entry lives under its index written in decimal; loading reads from the snapshot index on until the
first index that is missing, and every writer of the log removes the keys past its end by scanning to the
first gap. The writers are modelled by the batch they hand to `WriteAtomically`.
-/

namespace Nukv

/-- A retained log entry. -/
structure RaftLogEntry where
  term : Nat
  command : Bytes
  deriving DecidableEq, Repr

structure PersistedRaftState where
  currentTerm : Nat
  votedFor : Int
  commitIndex : Nat
  lastApplied : Nat
  snapshotIndex : Nat
  snapshotTerm : Nat
  snapshotData : Bytes
  log : List RaftLogEntry
  deriving DecidableEq, Repr

structure SnapshotContents where
  entries : List (Bytes × Bytes)
  appliedRequests : List (Bytes × Bytes)
  deriving DecidableEq, Repr

/-! ### Keys -/

def currentTermKey : Bytes := ascii "__raft/current_term"
def votedForKey : Bytes := ascii "__raft/voted_for"
def commitIndexKey : Bytes := ascii "__raft/commit_index"
def lastAppliedKey : Bytes := ascii "__raft/last_applied"
def snapshotIndexKey : Bytes := ascii "__raft/snapshot_index"
def snapshotTermKey : Bytes := ascii "__raft/snapshot_term"
def snapshotMetadataKey : Bytes := ascii "__raft/snapshot_metadata"
def snapshotDataKey : Bytes := ascii "__raft/snapshot_data"
def logPath : Bytes := ascii "__raft/log/"
def clientPath : Bytes := ascii "__raft/client/"

def logKey (index : Nat) : Bytes := logPath ++ decimal index

def appliedRequestKey (clientId requestId : Nat) : Bytes :=
  clientPath ++ decimal clientId ++ ascii "/" ++ decimal requestId

/-! ### Values -/

def parseUint64 (value : Option Bytes) (key : String) : Except Exn Nat :=
  match value with
  | none => .ok 0
  | some value =>
    match stoull value with
    | .error x => .error x
    | .ok (result, parsed) =>
      if parsed ≠ value.length then .error (.runtimeError ("invalid persisted Raft value: " ++ key))
      else .ok result

def parseInt64 (value : Option Bytes) (key : String) : Except Exn Int :=
  match value with
  | none => .ok (-1)
  | some value =>
    match stoll value with
    | .error x => .error x
    | .ok (result, parsed) =>
      if parsed ≠ value.length then .error (.runtimeError ("invalid persisted Raft value: " ++ key))
      else .ok result

variable [Protobuf]

def serializeSnapshotMetadata (lastIncludedIndex lastIncludedTerm : Nat) : Bytes :=
  Protobuf.snapshotMetadata.serialize ⟨lastIncludedIndex, lastIncludedTerm⟩

def serializeSnapshotState (entries appliedRequests : List (Bytes × Bytes)) : Bytes :=
  Protobuf.snapshotState.serialize
    ⟨entries.map fun entry => ⟨entry.1, entry.2⟩, appliedRequests.map fun entry => ⟨entry.1, entry.2⟩⟩

/-- One entry set of a snapshot: no key may be rejected by `bad` or occur twice. -/
def parseSnapshotEntries (bad : Bytes → Bool) (what : String) :
    List Proto.SnapshotEntry → List Bytes → Except Exn (List (Bytes × Bytes))
  | [], _ => .ok []
  | entry :: rest, keys =>
    if bad entry.key || keys.contains entry.key then .error (.runtimeError what)
    else
      match parseSnapshotEntries bad what rest (entry.key :: keys) with
      | .error x => .error x
      | .ok entries => .ok ((entry.key, entry.value) :: entries)

def parseSnapshotState (serialized : Bytes) : Except Exn SnapshotContents :=
  match Protobuf.snapshotState.parse serialized with
  | none => .error (.runtimeError "invalid Raft snapshot state")
  | some state =>
    match parseSnapshotEntries RocksKVStore.isReserved "invalid Raft snapshot key set" state.entries [] with
    | .error x => .error x
    | .ok entries =>
      match parseSnapshotEntries (fun key => key.isEmpty || !key.contains 47)
          "invalid applied request set" state.appliedRequests [] with
      | .error x => .error x
      | .ok appliedRequests => .ok ⟨entries, appliedRequests⟩

namespace RaftStorage

/-- The log keys from `index` on that are present without a gap. -/
def staleLogKeys (store : RocksKVStore) : (fuel index : Nat) → List Bytes
  | 0, _ => []
  | fuel + 1, index =>
    if (store.get (logKey index)).isSome then logKey index :: staleLogKeys store fuel (index + 1)
    else []

/-- The entries stored from `index` on, up to the first missing key. -/
def loadLog (store : RocksKVStore) : (fuel index : Nat) → Except Exn (List RaftLogEntry)
  | 0, _ => .ok []
  | fuel + 1, index =>
    match store.get (logKey index) with
    | none => .ok []
    | some serialized =>
      match Protobuf.logEntry.parse serialized with
      | none => .error (.runtimeError "corrupted persisted Raft log")
      | some entry =>
        if entry.index ≠ index then .error (.runtimeError "corrupted persisted Raft log")
        else if index = 2 ^ 64 - 1 then .error (.runtimeError "Raft log index overflow")
        else
          match loadLog store fuel (index + 1) with
          | .error x => .error x
          | .ok log => .ok (⟨entry.term, entry.command⟩ :: log)

/-- The persisted snapshot: index, term and data, all zero when there is none. -/
def loadSnapshotState (store : RocksKVStore) : Except Exn (Nat × Nat × Bytes) :=
  match store.loadSnapshot with
  | .error x => .error x
  | .ok none => .ok (0, 0, [])
  | .ok (some (metadata, data)) =>
    match Protobuf.snapshotMetadata.parse metadata with
    | none => .error (.runtimeError "invalid persisted Raft snapshot metadata")
    | some metadata =>
      if metadata.lastIncludedIndex = 0 ∨ metadata.lastIncludedTerm = 0 then
        .error (.runtimeError "invalid persisted Raft snapshot metadata")
      else
        match parseSnapshotState data with
        | .error x => .error x
        | .ok _ => .ok (metadata.lastIncludedIndex, metadata.lastIncludedTerm, data)

def load (store : RocksKVStore) : Except Exn PersistedRaftState := do
  let snapshot ← loadSnapshotState store
  let currentTerm ← parseUint64 (store.get currentTermKey) "__raft/current_term"
  let votedFor ← parseInt64 (store.get votedForKey) "__raft/voted_for"
  let commitIndex ← parseUint64 (store.get commitIndexKey) "__raft/commit_index"
  let lastApplied ← parseUint64 (store.get lastAppliedKey) "__raft/last_applied"
  -- every stored key is visited at most once, so the number of keys bounds the loop
  let log ← loadLog store (store.data.size + 1) (snapshot.1 + 1)
  return ⟨currentTerm, votedFor, commitIndex, lastApplied, snapshot.1, snapshot.2.1, snapshot.2.2, log⟩

def getAppliedCommand (store : RocksKVStore) (clientId requestId : Nat) : Option Bytes :=
  store.get (appliedRequestKey clientId requestId)

def getAppliedRequests (store : RocksKVStore) : List (Bytes × Bytes) :=
  (store.getAllPrefixedEntries clientPath).map fun entry => (entry.1.drop clientPath.length, entry.2)

/-- The six counters, as `PersistState` writes them. -/
def stateEntries (currentTerm : Nat) (votedFor : Int)
    (commitIndex lastApplied snapshotIndex snapshotTerm : Nat) : List (Bytes × Bytes) :=
  [(currentTermKey, decimal currentTerm),
   (votedForKey, decimalInt votedFor),
   (commitIndexKey, decimal commitIndex),
   (lastAppliedKey, decimal lastApplied),
   (snapshotIndexKey, decimal snapshotIndex),
   (snapshotTermKey, decimal snapshotTerm)]

def persistState (currentTerm : Nat) (votedFor : Int)
    (commitIndex lastApplied snapshotIndex snapshotTerm : Nat) : WriteBatch :=
  ⟨stateEntries currentTerm votedFor commitIndex lastApplied snapshotIndex snapshotTerm, []⟩

/-- The stored form of the retained log that follows index `snapshotIndex`. -/
def logEntries (snapshotIndex : Nat) (log : List RaftLogEntry) : List (Bytes × Bytes) :=
  log.mapIdx fun offset entry =>
    (logKey (snapshotIndex + (offset + 1)),
      Protobuf.logEntry.serialize ⟨snapshotIndex + (offset + 1), entry.term, entry.command⟩)

/-- The log keys that a log with this snapshot index and length must not leave behind. -/
def obsoleteLogKeys (store : RocksKVStore) (snapshotIndex length : Nat) : List Bytes :=
  (List.range' 1 snapshotIndex).map logKey ++
    staleLogKeys store (store.data.size + 1) (snapshotIndex + length + 1)

def persistLog (store : RocksKVStore) (snapshotIndex : Nat) (log : List RaftLogEntry) : WriteBatch :=
  ⟨logEntries snapshotIndex log, obsoleteLogKeys store snapshotIndex log.length⟩

def persistSnapshot (store : RocksKVStore) (currentTerm : Nat) (votedFor : Int)
    (commitIndex lastApplied snapshotIndex snapshotTerm : Nat) (metadata data : Bytes)
    (log : List RaftLogEntry) : WriteBatch :=
  ⟨stateEntries currentTerm votedFor commitIndex lastApplied snapshotIndex snapshotTerm ++
      [(snapshotMetadataKey, metadata), (snapshotDataKey, data)] ++ logEntries snapshotIndex log,
    obsoleteLogKeys store snapshotIndex log.length⟩

def applySnapshot (store : RocksKVStore) (snapshot : SnapshotContents) (currentTerm : Nat)
    (votedFor : Int) (commitIndex lastApplied snapshotIndex snapshotTerm : Nat)
    (log : List RaftLogEntry) : WriteBatch :=
  ⟨stateEntries currentTerm votedFor commitIndex lastApplied snapshotIndex snapshotTerm ++
      [(snapshotMetadataKey, serializeSnapshotMetadata snapshotIndex snapshotTerm),
       (snapshotDataKey, serializeSnapshotState snapshot.entries snapshot.appliedRequests)] ++
      snapshot.entries ++
      (snapshot.appliedRequests.map fun entry => (clientPath ++ entry.1, entry.2)) ++
      logEntries snapshotIndex log,
    (store.getAllUserEntries.map Prod.fst) ++
      ((store.getAllPrefixedEntries clientPath).map Prod.fst) ++
      ((store.getAllPrefixedEntries logPath).map Prod.fst)⟩

end RaftStorage

/-! ### Applying a committed command -/

namespace CommandApplier

def requestKey (command : Proto.Command) : Bytes :=
  clientPath ++ decimal command.clientId ++ ascii "/" ++ decimal command.requestId

/-- The two progress counters that every application writes. -/
def progressEntries (logIndex commitIndex : Nat) : List (Bytes × Bytes) :=
  [(commitIndexKey, decimal commitIndex), (lastAppliedKey, decimal logIndex)]

/-- The dedup record that applying the command leaves. -/
def recordEntries (command : Proto.Command) : List (Bytes × Bytes) :=
  if command.requestId ≠ 0 then [(requestKey command, Protobuf.command.serialize command)] else []

/-- The batch of `ApplyAtomically`, or the exception it throws before writing. -/
def applyAtomically (store : RocksKVStore) (command : Proto.Command) (logIndex commitIndex : Nat) :
    Except Exn WriteBatch :=
  if RocksKVStore.isReserved command.key then
    .error (.invalidArgument "keys beginning with __raft/ are reserved")
  else
    let previous := if command.requestId ≠ 0 then store.get (requestKey command) else none
    match previous with
    | some previous =>
      if previous ≠ Protobuf.command.serialize command then
        .error (.invalidArgument "client request id was reused with a different command")
      else .ok ⟨progressEntries logIndex commitIndex, []⟩
    | none =>
      match command.type with
      | .put =>
        .ok ⟨progressEntries logIndex commitIndex ++ [(command.key, command.value)] ++
          recordEntries command, []⟩
      | .delete =>
        .ok ⟨progressEntries logIndex commitIndex ++ recordEntries command, [command.key]⟩
      | .get => .error (.invalidArgument "GET command cannot be applied to the state machine")
      | _ => .error (.invalidArgument "unsupported command type")

end CommandApplier

end Nukv
