import Nukv.Model.Client
import Nukv.Model.Handlers

/-!
# The bytes between two nodes

The cluster passes messages from node to node. Here are the functions below it: `Frame` puts a length in front of a
serialized message, and `HandleMessage` takes the frames from the input buffer of a connection and hands each to
`HandleRpc`. The buffer is a queue of bytes; a read of the socket puts some behind it and calls `HandleMessage`.
-/

namespace Nukv

open Base

namespace NodeM

/-- `ReadNetworkUint32`. -/
def readNetworkUint32 (data : Bytes) : Nat := ClientServer.readUint32 data

/-- `Frame`. -/
def frame (payload : Bytes) : Except Exn Bytes :=
  if kMaxFrameSize < payload.length then .error (.runtimeError "Raft RPC frame is too large")
  else .ok (ClientServer.writeUint32 payload.length ++ payload)

variable [Protobuf]

/-- `HandleRpc` of the bytes of a frame, given the generated parser. -/
def handleFrame (parse : Bytes → Option Proto.RaftRpc) (connection : Conn) (bytes : Bytes) : NodeM Unit :=
  match parse bytes with
  | none => shutdown connection
  | some rpc => handleRpc connection rpc

/-- The loop of `HandleMessage`, which leaves a buffer; `hand` is what is done with the bytes of a frame. Every turn
takes at least four bytes, which bounds it. -/
def handleMessageLoop (hand : Bytes → NodeM Unit) (connection : Conn) : (fuel : Nat) → Bytes → NodeM Bytes
  | 0, buffer => return buffer
  | fuel + 1, buffer =>
    if buffer.length < 4 then return buffer
    else
      let payloadSize := readNetworkUint32 buffer
      if kMaxFrameSize < payloadSize then do
        shutdown connection
        return buffer
      else if buffer.length < 4 + payloadSize then return buffer
      else do
        hand ((buffer.drop 4).take payloadSize)
        handleMessageLoop hand connection fuel (buffer.drop (4 + payloadSize))

def handleMessage (parse : Bytes → Option Proto.RaftRpc) (connection : Conn) (buffer : Bytes) : NodeM Bytes :=
  handleMessageLoop (handleFrame parse connection) connection buffer.length buffer

/-- Successive reads of a connection. -/
def receive (parse : Bytes → Option Proto.RaftRpc) (connection : Conn) : List Bytes → Bytes → NodeM Bytes
  | [], buffer => return buffer
  | read :: reads, buffer => do
    let rest ← handleMessage parse connection (buffer ++ read)
    receive parse connection reads rest

end NodeM

/-- Successive reads of a connection to a client. -/
def ClientServer.receive (reads : List Bytes) : ClientM Unit :=
  Prog.forEach reads fun read => do
    Prog.modify fun buffer => buffer ++ read
    ClientServer.onMessage

end Nukv
