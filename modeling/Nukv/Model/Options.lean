import Mathlib.Data.Finset.Insert
import Nukv.Model.Bytes

/-!
# The peer list of the command line

`--peers` is a text of items `id=host:port` with commas between them. `ParsePeers` of `main` cuts it into peers and
checks each of them; the endpoint of a peer stays a text, and `RaftNode` cuts it again with its own `ParseEndpoint`.
-/

namespace Nukv

/-- `std::stoi(value, &parsed)`. -/
def stoi (value : Bytes) : Except Exn (Int × Nat) :=
  match scanInteger value with
  | (negative, digits, parsed) =>
    if digits = [] then .error (.invalidArgument "stoi")
    else
      let number : Int := if negative then -digitsValue digits else digitsValue digits
      if number < -2 ^ 31 ∨ 2 ^ 31 ≤ number then .error (.outOfRange "stoi")
      else .ok (number, parsed)

/-- `text.find(b)`. -/
def findByte (b : UInt8) (text : Bytes) : Option Nat := text.findIdx? (· == b)

/-- `text.rfind(b)`. -/
def rfindByte (b : UInt8) (text : Bytes) : Option Nat :=
  (text.reverse.findIdx? (· == b)).map fun i => text.length - 1 - i

structure RaftPeer where
  id : Int
  endpoint : Bytes
  deriving DecidableEq, Repr

namespace Options

/-- `ParseInteger`. -/
def parseInteger (value : Bytes) (name : String) : Except Exn Int := do
  let (parsed, parsedLength) ← stoi value
  if parsedLength ≠ value.length then .error (.invalidArgument (name ++ " must be an integer")) else .ok parsed

/-- `ParsePort`. -/
def parsePort (value : Bytes) (name : String) : Except Exn Int := do
  let port ← parseInteger value name
  if port < 1 ∨ 65535 < port then .error (.invalidArgument (name ++ " must be between 1 and 65535")) else .ok port

/-- The check of an endpoint in `ParsePeers`. -/
def checkEndpoint (endpoint : Bytes) : Except Exn Unit :=
  match rfindByte 58 endpoint with
  | none => .error (.invalidArgument "peer endpoint must use host:port format")
  | some colon =>
    if colon = 0 ∨ endpoint.length ≤ colon + 1 then
      .error (.invalidArgument "peer endpoint must use host:port format")
    else do
      let _ ← parsePort (endpoint.drop (colon + 1)) "peer port"
      return ()

/-- What `ParsePeers` makes of one item, given the ids it has seen. -/
def parseItem (ids : Finset Int) (item : Bytes) : Except Exn RaftPeer :=
  match findByte 61 item with
  | none => .error (.invalidArgument "peers must use id=host:port format")
  | some separator =>
    if separator = 0 ∨ item.length ≤ separator + 1 then
      .error (.invalidArgument "peers must use id=host:port format")
    else do
      let id ← parseInteger (item.take separator) "peer id"
      let endpoint := item.drop (separator + 1)
      if id < 1 ∨ id ∈ ids then .error (.invalidArgument "peer ids must be unique positive integers")
      else
        checkEndpoint endpoint
        return ⟨id, endpoint⟩

/-- The loop of `ParsePeers` over the text that is left; every turn takes at least one byte, which bounds it. -/
def parsePeersLoop : (fuel : Nat) → List RaftPeer → Finset Int → Bytes → Except Exn (List RaftPeer)
  | 0, peers, _, _ => .ok peers
  | fuel + 1, peers, ids, text =>
    if text = [] then .ok peers
    else
      match findByte 44 text with
      | none => do
        let peer ← parseItem ids text
        return peers ++ [peer]
      | some comma => do
        let peer ← parseItem ids (text.take comma)
        parsePeersLoop fuel (peers ++ [peer]) (insert peer.id ids) (text.drop (comma + 1))

def parsePeers (value : Bytes) : Except Exn (List RaftPeer) := do
  let peers ← parsePeersLoop value.length [] ∅ value
  if peers = [] then .error (.invalidArgument "at least one peer is required") else .ok peers

end Options

/-- `ParseEndpoint` of `RaftNode`. -/
def parseEndpoint (endpoint : Bytes) : Except Exn (Bytes × Int) :=
  match rfindByte 58 endpoint with
  | none => .error (.invalidArgument "Raft endpoint must use host:port format")
  | some separator =>
    if separator = 0 ∨ endpoint.length ≤ separator + 1 then
      .error (.invalidArgument "Raft endpoint must use host:port format")
    else do
      let (port, _) ← stoi (endpoint.drop (separator + 1))
      if port < 1 ∨ 65535 < port then .error (.invalidArgument "Raft endpoint port is out of range")
      else return (endpoint.take separator, port)

end Nukv
