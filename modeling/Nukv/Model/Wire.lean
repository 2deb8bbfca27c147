import Nukv.Base.Proto3
import Nukv.Model.Proto

/-!
# A wire format

One way to write the messages as bytes that meets the class `Protobuf`: the fields in order, numbers as
base-128 varints with the low groups first, byte strings and lists with their length in front. It shows that
the assumptions about the generated code can be met, and lets concrete runs of the program be computed.
-/

namespace Nukv.Wire

open Base.Proto3 (varint readVarint readVarint_varint)

def writeBytes (b : Bytes) : Bytes := varint b.length ++ b

def readBytes (input : Bytes) : Option (Bytes × Bytes) :=
  match readVarint input with
  | none => none
  | some (length, rest) => some (rest.take length, rest.drop length)

@[simp] theorem readBytes_writeBytes (b rest : Bytes) :
    readBytes (writeBytes b ++ rest) = some (b, rest) := by
  simp [readBytes, writeBytes, List.append_assoc]

/-! ### Messages -/

/-- The enum as a number; values without a name keep theirs, shifted past the names. -/
def typeCode : Proto.CommandType → Nat
  | .unspecified => 0
  | .put => 1
  | .get => 2
  | .delete => 3
  | .unrecognized value => if 0 ≤ value then 4 + 2 * value.toNat else 5 + 2 * (-value - 1).toNat

def typeOfCode : Nat → Proto.CommandType
  | 0 => .unspecified
  | 1 => .put
  | 2 => .get
  | 3 => .delete
  | n + 4 => .unrecognized (if n % 2 = 0 then (n / 2 : Nat) else -((n / 2 : Nat) : Int) - 1)

@[simp] theorem typeOfCode_typeCode (type : Proto.CommandType) : typeOfCode (typeCode type) = type := by
  cases type with
  | unrecognized value =>
    show typeOfCode (if 0 ≤ value then 4 + 2 * value.toNat else 5 + 2 * (-value - 1).toNat) = _
    by_cases h : 0 ≤ value
    · rw [if_pos h, Nat.add_comm, typeOfCode, if_pos (by omega)]
      congr 1; omega
    · rw [if_neg h, show 5 + 2 * (-value - 1).toNat = (2 * (-value - 1).toNat + 1) + 4 by omega, typeOfCode,
        if_neg (by omega)]
      congr 1; omega
  | _ => rfl

def writeCommand (command : Proto.Command) : Bytes :=
  varint (typeCode command.type) ++ varint command.clientId ++ varint command.requestId ++
    writeBytes command.key ++ writeBytes command.value

def readCommand (input : Bytes) : Option Proto.Command := do
  let (type, rest) ← readVarint input
  let (clientId, rest) ← readVarint rest
  let (requestId, rest) ← readVarint rest
  let (key, rest) ← readBytes rest
  let (value, _) ← readBytes rest
  return ⟨typeOfCode type, clientId, requestId, key, value⟩

def writeLogEntry (entry : Proto.RaftLogEntry) : Bytes :=
  varint entry.index ++ varint entry.term ++ writeBytes entry.command

def readLogEntry (input : Bytes) : Option Proto.RaftLogEntry := do
  let (index, rest) ← readVarint input
  let (term, rest) ← readVarint rest
  let (command, _) ← readBytes rest
  return ⟨index, term, command⟩

def writeMetadata (metadata : Proto.SnapshotMetadata) : Bytes :=
  varint metadata.lastIncludedIndex ++ varint metadata.lastIncludedTerm

def readMetadata (input : Bytes) : Option Proto.SnapshotMetadata := do
  let (index, rest) ← readVarint input
  let (term, _) ← readVarint rest
  return ⟨index, term⟩

def writeEntries : List Proto.SnapshotEntry → Bytes
  | [] => varint 0
  | entry :: entries => varint 1 ++ writeBytes entry.key ++ writeBytes entry.value ++ writeEntries entries

/-- The entries up to the end mark; every entry takes at least one byte, which bounds the recursion. -/
def readEntries : (fuel : Nat) → Bytes → Option (List Proto.SnapshotEntry × Bytes)
  | 0, _ => none
  | fuel + 1, input => do
    let (more, rest) ← readVarint input
    if more = 0 then return ([], rest)
    else
      let (key, rest) ← readBytes rest
      let (value, rest) ← readBytes rest
      let (entries, rest) ← readEntries fuel rest
      return (⟨key, value⟩ :: entries, rest)

theorem readEntries_writeEntries (entries : List Proto.SnapshotEntry) (rest : Bytes) (fuel : Nat)
    (h : entries.length < fuel) :
    readEntries fuel (writeEntries entries ++ rest) = some (entries, rest) := by
  induction entries generalizing fuel with
  | nil =>
    obtain ⟨fuel, rfl⟩ := Nat.exists_eq_add_of_lt h
    simp [readEntries, writeEntries]
  | cons entry entries ih =>
    obtain ⟨fuel, rfl⟩ : ∃ k, fuel = k + 1 := ⟨fuel - 1, by simp at h; omega⟩
    have hrest := ih fuel (by simp at h; omega)
    simp [readEntries, writeEntries, List.append_assoc, hrest]

theorem length_le_writeEntries (entries : List Proto.SnapshotEntry) :
    entries.length < (writeEntries entries).length := by
  induction entries with
  | nil => decide
  | cons entry entries ih =>
    simp only [writeEntries, List.length_append, List.length_cons]
    have : (varint 1).length = 1 := by decide
    omega

def writeState (state : Proto.SnapshotState) : Bytes :=
  writeEntries state.entries ++ writeEntries state.appliedRequests

def readState (input : Bytes) : Option Proto.SnapshotState := do
  let (entries, rest) ← readEntries input.length input
  let (appliedRequests, _) ← readEntries rest.length rest
  return ⟨entries, appliedRequests⟩

@[reducible]
def protobuf : Protobuf where
  command := {
    serialize := writeCommand
    parse := readCommand
    parse_serialize := fun command => by
      have h := readBytes_writeBytes command.value []
      rw [List.append_nil] at h
      simp [readCommand, writeCommand, List.append_assoc, h] }
  logEntry := {
    serialize := writeLogEntry
    parse := readLogEntry
    parse_serialize := fun entry => by
      have h := readBytes_writeBytes entry.command []
      rw [List.append_nil] at h
      simp [readLogEntry, writeLogEntry, List.append_assoc, h] }
  snapshotMetadata := {
    serialize := writeMetadata
    parse := readMetadata
    parse_serialize := fun metadata => by
      have h := readVarint_varint metadata.lastIncludedTerm []
      rw [List.append_nil] at h
      simp [readMetadata, writeMetadata, h] }
  snapshotState := {
    serialize := writeState
    parse := readState
    parse_serialize := fun state => by
      have h₁ := readEntries_writeEntries state.entries (writeEntries state.appliedRequests)
        (writeState state).length (by
          have := length_le_writeEntries state.entries
          simp only [writeState, List.length_append]; omega)
      have h₂ := readEntries_writeEntries state.appliedRequests []
        (writeEntries state.appliedRequests).length (length_le_writeEntries _)
      rw [List.append_nil] at h₂
      unfold readState
      rw [show writeEntries state.entries ++ writeEntries state.appliedRequests = writeState state
        from rfl] at h₁
      simp [h₁, h₂] }
  rpcByteSize := fun rpc => 64 + rpc.payload.contentSize
  rpcByteSize_le := fun rpc => by omega

end Nukv.Wire
