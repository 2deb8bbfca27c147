import Nukv.Base.Proto3
import Nukv.Model.Node

/-!
# The client server

`OnMessage` cuts the bytes of a connection into frames, parses each into a request and queues those it accepts;
`HandleRequest` asks the node and builds the response. The messages are in the standard encoding, and their ids have 64
bits, since the length of a message depends on them. The parser knows the two wire types these messages use.

A worker thread waits for the node between two calls, so the node may be in another state at each of them: `NodeCalls`
is what one request is told. `SendResponse` is called outside of the `try` block of `HandleRequest`, and what it throws
ends the worker thread.
-/

namespace Nukv

open Base Base.Proto3

namespace Proto

/-- `ClientRequest::Operation`. -/
inductive Operation where
  | unspecified
  | put
  | get
  | delete
  | unrecognized (value : Nat)
  deriving DecidableEq, Repr

structure ClientRequest where
  requestId : UInt64
  operation : Operation
  key : Bytes
  value : Bytes
  clientId : UInt64
  deriving DecidableEq, Repr

/-- `ClientResponse::Status`. -/
inductive ResponseStatus where
  | unspecified
  | ok
  | notFound
  | notLeader
  | invalidRequest
  | error
  | notReady
  deriving DecidableEq, Repr

structure ClientResponse where
  requestId : UInt64
  status : ResponseStatus
  value : Bytes
  message : Bytes
  deriving DecidableEq, Repr

def Operation.code : Operation → Nat
  | .unspecified => 0
  | .put => 1
  | .get => 2
  | .delete => 3
  | .unrecognized value => value

/-- An enum is read as 32 bits. -/
def Operation.ofCode (code : Nat) : Operation :=
  match code % 2 ^ 32 with
  | 0 => .unspecified
  | 1 => .put
  | 2 => .get
  | 3 => .delete
  | value => .unrecognized value

def ResponseStatus.code : ResponseStatus → Nat
  | .unspecified => 0
  | .ok => 1
  | .notFound => 2
  | .notLeader => 3
  | .invalidRequest => 4
  | .error => 5
  | .notReady => 6

def ClientRequest.fields (request : ClientRequest) : List Field :=
  numberField 1 request.requestId.toNat ++ (numberField 2 request.operation.code ++
    (bytesField 3 request.key ++ (bytesField 4 request.value ++ numberField 5 request.clientId.toNat)))

def ClientRequest.serialize (request : ClientRequest) : Bytes := encode request.fields

/-- `ParseFromString`. -/
def ClientRequest.parse (payload : Bytes) : Option ClientRequest :=
  (decode payload).map fun fields =>
    { requestId := UInt64.ofNat (readNumber 1 0 fields)
      operation := Operation.ofCode (readNumber 2 0 fields)
      key := readBytes 3 [] fields
      value := readBytes 4 [] fields
      clientId := UInt64.ofNat (readNumber 5 0 fields) }

def ClientResponse.fields (response : ClientResponse) : List Field :=
  numberField 1 response.requestId.toNat ++ (numberField 2 response.status.code ++
    (bytesField 3 response.value ++ bytesField 4 response.message))

def ClientResponse.serialize (response : ClientResponse) : Bytes := encode response.fields

theorem ClientRequest.parse_serialize {request : ClientRequest}
    (h : Operation.ofCode request.operation.code = request.operation) :
    ClientRequest.parse request.serialize = some request := by
  simp [ClientRequest.parse, ClientRequest.serialize, ClientRequest.fields, h]

end Proto

open Proto

/-- `error.what()`. -/
def Exn.what : Exn → String
  | .runtimeError what => what
  | .invalidArgument what => what
  | .outOfRange what => what

/-- What the client server does to a connection and its queue. -/
inductive ClientEvent where
  | send (frame : Bytes)
  | shutdown
  | enqueue (request : ClientRequest)
  deriving DecidableEq

/-- The functions of the client server; the state is the input buffer of the connection. -/
abbrev ClientM (α : Type) : Type := Prog Bytes ClientEvent Exn α

/-- What the node answers to the calls that one request makes. -/
structure NodeCalls where
  isReady : Bool
  isLeader : Bool
  submit : Proto.Command → Except Exn Bool
  readIndex : Except Exn Bool
  getLocal : Bytes → Except Exn (Option Bytes)

/-- The answers of a node whose store is `store` when `GetLocal` reads it. `Submit` and `ReadIndex` return what their
promise is set to, or false after two seconds, and do not throw. -/
def NodeCalls.answering (isReady isLeader submitted read : Bool) (store : RocksKVStore) : NodeCalls where
  isReady := isReady
  isLeader := isLeader
  submit _ := .ok submitted
  readIndex := .ok read
  getLocal key := .ok (store.get key)

namespace ClientServer

/-- `htonl`, as bytes. -/
def writeUint32 (n : Nat) : Bytes :=
  [UInt8.ofNat (n / 2 ^ 24), UInt8.ofNat (n / 2 ^ 16), UInt8.ofNat (n / 2 ^ 8), UInt8.ofNat n]

/-- `ReadUint32`. -/
def readUint32 (data : Bytes) : Nat := (data.take 4).foldl (fun n b => n * 2 ^ 8 + b.toNat) 0

def frame (payload : Bytes) : Except Exn Bytes :=
  if kMaxFrameSize < payload.length then .error (.runtimeError "client response is too large")
  else .ok (writeUint32 payload.length ++ payload)

def makeError (requestId : UInt64) (status : ResponseStatus) (message : String) : ClientResponse :=
  ⟨requestId, status, [], ascii message⟩

def sendResponse (response : ClientResponse) : ClientM Unit := do
  let framed ← Prog.ofExcept (frame response.serialize)
  Prog.emit (.send framed)

/-- What `OnMessage` does with the payload of one frame. -/
def onPayload (payload : Bytes) : ClientM Unit :=
  match ClientRequest.parse payload with
  | none => sendResponse (makeError 0 .invalidRequest "invalid protobuf request")
  | some request =>
    if request.key = [] then
      sendResponse (makeError request.requestId .invalidRequest "key must not be empty")
    else if RocksKVStore.isReserved request.key then
      sendResponse (makeError request.requestId .invalidRequest "reserved key")
    else Prog.emit (.enqueue request)

/-- The loop of `OnMessage`; every turn takes at least four bytes, which bounds it. -/
def onMessageLoop : (fuel : Nat) → ClientM Unit
  | 0 => return ()
  | fuel + 1 => do
    let buffer ← Prog.get
    if buffer.length < 4 then return ()
    else
      let payloadSize := readUint32 buffer
      if kMaxFrameSize < payloadSize then
        sendResponse (makeError 0 .invalidRequest "request frame is too large")
        Prog.emit .shutdown
      else if buffer.length < 4 + payloadSize then return ()
      else
        Prog.modify fun buffer => buffer.drop (4 + payloadSize)
        onPayload ((buffer.drop 4).take payloadSize)
        onMessageLoop fuel

def onMessage : ClientM Unit := do
  let buffer ← Prog.get
  onMessageLoop buffer.length

/-- The command a PUT or a DELETE submits. -/
def commandOf (type : CommandType) (request : ClientRequest) : Proto.Command where
  type := type
  clientId := request.clientId.toNat
  requestId := request.requestId.toNat
  key := request.key
  value := request.value

/-- The answer to a command that was submitted. -/
def submitted (request : ClientRequest) (failure : String) (success : Bool) : ClientResponse :=
  if success then ⟨request.requestId, .ok, [], []⟩ else makeError request.requestId .error failure

/-- The `try` block of `HandleRequest`. -/
def answer (calls : NodeCalls) (request : ClientRequest) : Except Exn ClientResponse :=
  match request.operation with
  | .put => (calls.submit (commandOf .put request)).map (submitted request "put failed")
  | .get => do
    if ← calls.readIndex then
      match ← calls.getLocal request.key with
      | some value => return ⟨request.requestId, .ok, value, []⟩
      | none => return ⟨request.requestId, .notFound, [], []⟩
    else return makeError request.requestId .error "linearizable read failed"
  | .delete => (calls.submit (commandOf .delete request)).map (submitted request "delete failed")
  | .unspecified | .unrecognized _ => return makeError request.requestId .invalidRequest "unsupported operation"

/-- The response that `HandleRequest` builds. -/
def responseTo (calls : NodeCalls) (request : ClientRequest) : ClientResponse :=
  if calls.isReady = false then makeError request.requestId .notReady "Raft node is still starting"
  else if calls.isLeader = false then
    makeError request.requestId .notLeader "request must be sent to the leader"
  else
    match answer calls request with
    | .ok response => response
    | .error x => makeError request.requestId .error x.what

def handleRequest (calls : NodeCalls) (request : ClientRequest) : ClientM Unit :=
  sendResponse (responseTo calls request)

/-! ### Frames that are accepted -/

@[simp] theorem length_writeUint32 (n : Nat) : (writeUint32 n).length = 4 := rfl

theorem readUint32_writeUint32 {n : Nat} (h : n < 2 ^ 32) (rest : Bytes) :
    readUint32 (writeUint32 n ++ rest) = n := by
  simp only [readUint32, writeUint32, List.cons_append, List.nil_append, List.take_succ_cons, List.take_zero,
    List.foldl_cons, List.foldl_nil, UInt8.toNat_ofNat']
  omega

/-- The frame of a request with a key of a client, and what is behind it in the buffer is left for the next turn. -/
theorem onMessageLoop_frame {request : ClientRequest} (fuel : Nat) (rest : Bytes)
    (hcode : Operation.ofCode request.operation.code = request.operation) (hkey : request.key ≠ [])
    (hreserved : RocksKVStore.isReserved request.key = false) (hsize : request.serialize.length ≤ kMaxFrameSize) :
    onMessageLoop (fuel + 1) (writeUint32 request.serialize.length ++ request.serialize ++ rest) =
      ((onMessageLoop fuel rest).1, (onMessageLoop fuel rest).2.1,
        .enqueue request :: (onMessageLoop fuel rest).2.2) := by
  have hlt : request.serialize.length < 2 ^ 32 := by
    unfold kMaxFrameSize at hsize
    omega
  have hparse := ClientRequest.parse_serialize hcode
  generalize request.serialize = payload at hsize hlt hparse
  have hread : readUint32 (writeUint32 payload.length ++ payload ++ rest) = payload.length := by
    rw [List.append_assoc]
    exact readUint32_writeUint32 hlt _
  have hlength : (writeUint32 payload.length ++ payload ++ rest).length = 4 + payload.length + rest.length := by
    simp [Nat.add_assoc]
  have hpayload : ((writeUint32 payload.length ++ payload ++ rest).drop 4).take payload.length = payload := by
    simp [writeUint32]
  have hrest : (writeUint32 payload.length ++ payload ++ rest).drop (4 + payload.length) = rest := by
    rw [← length_writeUint32 payload.length, ← List.length_append, List.drop_left]
  generalize writeUint32 payload.length ++ payload ++ rest = buffer at hread hlength hpayload hrest
  rw [onMessageLoop, Prog.get_bind, if_neg (by omega), hread, if_neg (by omega), if_neg (by omega), Prog.modify_bind,
    hrest, hpayload]
  have honPayload : onPayload payload rest = (.ok (), rest, [.enqueue request]) := by
    rw [onPayload, hparse]
    dsimp only
    rw [if_neg hkey, hreserved]
    rfl
  exact Prog.andThen_ok honPayload

theorem onMessageLoop_nil (fuel : Nat) : onMessageLoop fuel [] = (.ok (), [], []) := by
  cases fuel <;> rfl

/-- A frame that holds a request with a key of a client is accepted. -/
theorem onMessage_frame {request : ClientRequest}
    (hcode : Operation.ofCode request.operation.code = request.operation) (hkey : request.key ≠ [])
    (hreserved : RocksKVStore.isReserved request.key = false) (hsize : request.serialize.length ≤ kMaxFrameSize) :
    onMessage (writeUint32 request.serialize.length ++ request.serialize) = (.ok (), [], [.enqueue request]) := by
  rw [onMessage, Prog.get_bind, List.length_append, length_writeUint32, Nat.add_comm,
    ← List.append_nil (writeUint32 _ ++ _)]
  rw [show request.serialize.length + 4 = request.serialize.length + 3 + 1 from rfl,
    onMessageLoop_frame _ [] hcode hkey hreserved hsize, onMessageLoop_nil]

end ClientServer

end Nukv
