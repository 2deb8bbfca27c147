import Nukv.Model.Proto
import Std.Data.ExtTreeMap.Lemmas

/-!
# The RocksDB wrapper

`RocksKVStore` is an ordered map from byte strings to byte strings, iterated in key order. Its only
write used by the Raft code is `WriteAtomically`: one batch, deletions before insertions, applied as a
whole or not at all. Whether a write fails is up to the environment: `faults` lists the outcomes of the
coming writes, and once it is exhausted every write succeeds.
-/

namespace Nukv

structure RocksKVStore where
  data : Std.ExtTreeMap Bytes Bytes compare
  faults : List Bool

/-- The arguments of one `WriteAtomically`. -/
structure WriteBatch where
  puts : List (Bytes × Bytes)
  deletes : List Bytes
  deriving DecidableEq, Repr

/-- The contents after the batch: every deletion, then every insertion. -/
def WriteBatch.applyTo (batch : WriteBatch) (data : Std.ExtTreeMap Bytes Bytes compare) :
    Std.ExtTreeMap Bytes Bytes compare :=
  batch.puts.foldl (fun data entry => data.insert entry.1 entry.2)
    (batch.deletes.foldl (fun data key => data.erase key) data)

namespace RocksKVStore

/-- A freshly created database. -/
def empty : RocksKVStore := ⟨∅, []⟩

def get (store : RocksKVStore) (key : Bytes) : Option Bytes := store.data[key]?

def writeAtomically (store : RocksKVStore) (batch : WriteBatch) : Except Exn Unit × RocksKVStore :=
  match store.faults with
  | true :: faults => (.error (.runtimeError "RocksDB atomic write failed: "), { store with faults := faults })
  | false :: faults => (.ok (), ⟨batch.applyTo store.data, faults⟩)
  | [] => (.ok (), ⟨batch.applyTo store.data, []⟩)

/-- Seek to the first key not below `head` and read while the keys start with it. -/
def getAllPrefixedEntries (store : RocksKVStore) (head : Bytes) : List (Bytes × Bytes) :=
  if head = [] then store.data.toList
  else (store.data.toList.dropWhile fun entry => compare entry.1 head == .lt).takeWhile
    fun entry => startsWith head entry.1

/-- `key.rfind("__raft/", 0) == 0`. -/
def isReserved (key : Bytes) : Bool := startsWith (ascii "__raft/") key

def getAllUserEntries (store : RocksKVStore) : List (Bytes × Bytes) :=
  (store.getAllPrefixedEntries []).filter fun entry => !isReserved entry.1

def loadSnapshot (store : RocksKVStore) : Except Exn (Option (Bytes × Bytes)) :=
  match store.get (ascii "__raft/snapshot_metadata"), store.get (ascii "__raft/snapshot_data") with
  | none, none => .ok none
  | some metadata, some data => .ok (some (metadata, data))
  | _, _ => .error (.runtimeError "incomplete or corrupted persisted snapshot")

end RocksKVStore

end Nukv
