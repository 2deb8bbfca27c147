import Nukv.Model.Options

/-!
# The command line and the config file

`ParseOptions` of `main` loads the config file that the last `--config` names and then reads the arguments, which may set
the same things again; what was not set gets a default, and some combinations are refused. An argument is a text of bytes
that `main` gets from outside, and `files` is what can be read under a path.
-/

namespace Nukv

structure ServerOptions where
  nodeId : Int
  clientPort : Int
  dataDirectory : Bytes
  peers : List RaftPeer
  deriving DecidableEq, Repr

namespace Options

def kDefaultPeers : List RaftPeer :=
  [⟨1, ascii "127.0.0.1:19001"⟩, ⟨2, ascii "127.0.0.1:19002"⟩, ⟨3, ascii "127.0.0.1:19003"⟩]

/-- The options so far, and which of them were set. -/
structure Parsing extends ServerOptions where
  nodeIdSet : Bool
  peersSet : Bool
  clientPortSet : Bool
  dataDirectorySet : Bool
  deriving DecidableEq

def Parsing.start : Parsing := ⟨⟨0, 0, [], kDefaultPeers⟩, false, false, false, false⟩

/-- What can be set, in a config file and on the command line. -/
inductive Setting where
  | nodeId
  | peers
  | clientPort
  | dataDirectory
  deriving DecidableEq, Repr

/-- Bytes as a part of a message. -/
def message (bytes : Bytes) : String := String.ofList (bytes.map fun b => Char.ofNat b.toNat)

/-- The characters of `Trim`. -/
def isBlank (b : UInt8) : Bool := b == 32 || b == 9 || b == 13 || b == 10

def trim (value : Bytes) : Bytes := ((value.dropWhile isBlank).reverse.dropWhile isBlank).reverse

/-- What `LoadConfig` and `ParseOptions` do with a value. -/
def assign (setting : Setting) (value : Bytes) (parsing : Parsing) : Except Exn Parsing :=
  match setting with
  | .nodeId => do
    let nodeId ← parseInteger value "node_id"
    return { parsing with nodeId := nodeId, nodeIdSet := true }
  | .peers => do
    let peers ← parsePeers value
    return { parsing with peers := peers, peersSet := true }
  | .clientPort => do
    let clientPort ← parsePort value "client_port"
    return { parsing with clientPort := clientPort, clientPortSet := true }
  | .dataDirectory => return { parsing with dataDirectory := value, dataDirectorySet := true }

/-! ### The config file -/

/-- What `std::getline` reads, one line after the other. -/
def getLines : Bytes → List Bytes
  | [] => []
  | b :: rest =>
    if b = 10 then [] :: getLines rest
    else
      match getLines rest with
      | [] => [[b]]
      | line :: lines => (b :: line) :: lines

/-- The setting that a key of a config file names. -/
def keySetting (key : Bytes) : Option Setting :=
  if key = ascii "node_id" then some .nodeId
  else if key = ascii "peers" then some .peers
  else if key = ascii "client_port" then some .clientPort
  else if key = ascii "data_dir" then some .dataDirectory
  else none

/-- What a line says; a line that is empty or a comment says nothing. -/
def readLine (number : Nat) (line : Bytes) : Except Exn (Option (Setting × Bytes)) :=
  let line := trim (line.takeWhile (· != 35))
  if line = [] then .ok none
  else
    match findByte 61 line with
    | none => .error (.invalidArgument ("config line " ++ toString number ++ " must use key=value format"))
    | some separator =>
      let key := trim (line.take separator)
      let value := trim (line.drop (separator + 1))
      if key = [] ∨ value = [] then
        .error (.invalidArgument ("config line " ++ toString number ++ " has an empty key or value"))
      else
        match keySetting key with
        | none => .error (.invalidArgument ("unknown config key at line " ++ toString number ++ ": " ++ message key))
        | some setting => .ok (some (setting, value))

/-- The loop of `LoadConfig` behind line `number`. -/
def loadLines : (number : Nat) → List Bytes → Parsing → Except Exn Parsing
  | _, [], parsing => .ok parsing
  | number, line :: lines, parsing => do
    match ← readLine (number + 1) line with
    | none => loadLines (number + 1) lines parsing
    | some (setting, value) =>
      let parsing ← assign setting value parsing
      loadLines (number + 1) lines parsing

def loadConfig (files : Bytes → Option Bytes) (path : Bytes) (parsing : Parsing) : Except Exn Parsing :=
  match files path with
  | none => .error (.invalidArgument ("failed to open config file: " ++ message path))
  | some content => loadLines 0 (getLines content) parsing

/-! ### The arguments -/

/-- The error of `RequireValue`. -/
def requiresValue (option : Bytes) : Exn := .invalidArgument (message option ++ " requires a value")

/-- The first loop of `ParseOptions`: the value behind the last `--config`. -/
def configPath : (arguments : List Bytes) → (path : Bytes) → Except Exn Bytes
  | [], path => .ok path
  | [option], path => if option = ascii "--config" then .error (requiresValue option) else .ok path
  | option :: value :: rest, path =>
    if option = ascii "--config" then configPath rest value else configPath (value :: rest) path

/-- The setting that an option names. -/
def optionSetting (option : Bytes) : Option Setting :=
  if option = ascii "--node-id" then some .nodeId
  else if option = ascii "--peers" then some .peers
  else if option = ascii "--client-port" then some .clientPort
  else if option = ascii "--data-dir" then some .dataDirectory
  else none

/-- An option with its value. A config file cannot set an empty directory, so only here there is a check. -/
def applyOption (setting : Setting) (value : Bytes) (parsing : Parsing) : Except Exn Parsing :=
  if setting = .dataDirectory ∧ value = [] then .error (.invalidArgument "data directory must not be empty")
  else assign setting value parsing

/-- Whether an argument is read as a number: it does not begin with `-`. -/
def isPositional (argument : Bytes) : Bool := argument.head? != some 45

/-- The arguments in front of the options: the node id, and the port if there is a second. -/
def parsePositional : List Bytes → Parsing → Except Exn (Parsing × List Bytes)
  | [], parsing => .ok (parsing, [])
  | nodeId :: rest, parsing =>
    if isPositional nodeId then do
      let parsing ← assign .nodeId nodeId parsing
      match rest with
      | [] => return (parsing, [])
      | port :: rest =>
        if isPositional port then do
          let parsing ← assign .clientPort port parsing
          return (parsing, rest)
        else return (parsing, port :: rest)
    else .ok (parsing, nodeId :: rest)

/-- The second loop of `ParseOptions`; nothing comes back if it has printed the usage and left. -/
def parseArguments : List Bytes → Parsing → Except Exn (Option Parsing)
  | [], parsing => .ok (some parsing)
  | [option], _ =>
    if option = ascii "--help" then .ok none
    else if option = ascii "--config" ∨ (optionSetting option).isSome then .error (requiresValue option)
    else .error (.invalidArgument ("unknown option: " ++ message option))
  | option :: value :: rest, parsing =>
    if option = ascii "--help" then .ok none
    else if option = ascii "--config" then parseArguments rest parsing
    else
      match optionSetting option with
      | none => .error (.invalidArgument ("unknown option: " ++ message option))
      | some setting => do
        let parsing ← applyOption setting value parsing
        parseArguments rest parsing

/-- The checks and defaults at the end of `ParseOptions`. -/
def finish (parsing : Parsing) : Except Exn ServerOptions :=
  if parsing.nodeIdSet = false ∨ parsing.nodeId < 1 then .error (.invalidArgument "node_id must be a positive integer")
  else if parsing.clientPortSet = false ∧ (2147483647 - 18000 < parsing.nodeId ∨ 65535 < 18000 + parsing.nodeId) then
    .error (.invalidArgument "--client-port is required for this node_id")
  else if parsing.peersSet = true ∧ parsing.dataDirectorySet = false then
    .error (.invalidArgument
      "--data-dir is required with --peers to avoid reusing persisted cluster configuration")
  else
    .ok {
      nodeId := parsing.nodeId
      clientPort := if parsing.clientPortSet then parsing.clientPort else 18000 + parsing.nodeId
      dataDirectory :=
        if parsing.dataDirectorySet then parsing.dataDirectory else ascii "./data/node" ++ decimalInt parsing.nodeId
      peers := if parsing.peersSet then parsing.peers else kDefaultPeers }

/-- The options of the config file, if there is one. -/
def configure (files : Bytes → Option Bytes) (path : Bytes) : Except Exn Parsing :=
  if path = [] then .ok .start else loadConfig files path .start

def parseOptions (files : Bytes → Option Bytes) (arguments : List Bytes) : Except Exn (Option ServerOptions) := do
  let path ← configPath arguments []
  let configured ← configure files path
  let (parsing, rest) ← parsePositional arguments configured
  match ← parseArguments rest parsing with
  | none => return none
  | some parsing =>
    let options ← finish parsing
    return some options

def findLocalPeer (peers : List RaftPeer) (nodeId : Int) : Except Exn RaftPeer :=
  match peers.find? fun peer => peer.id == nodeId with
  | some peer => .ok peer
  | none => .error (.invalidArgument "peers do not contain the selected node_id")

/-- The port that `main` takes from the endpoint of the local peer. Without a colon the position wraps around to zero. -/
def raftPort (peer : RaftPeer) : Except Exn Int :=
  match rfindByte 58 peer.endpoint with
  | some separator => parsePort (peer.endpoint.drop (separator + 1)) "local Raft port"
  | none => parsePort peer.endpoint "local Raft port"

end Options

end Nukv
