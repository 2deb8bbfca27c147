import Nukv.Model.Client

/-!
# The interactive loop of `main`

One turn of the loop reads a line, cuts it into words and calls the node. `put`, `get` and `del` build a command without
client and request id and submit it; `get` submits its command too, before it reads the local store. Texts are printed
without the end of the line, and the prompt is left out.
-/

namespace Nukv

/-- What a turn of the loop does. -/
inductive Turn where
  | quit
  | silent
  | print (text : Bytes)
  deriving DecidableEq, Repr

namespace Shell

/-- `input >> word`: the next word and what is behind it, none at the end of the input. -/
def readWord (input : Bytes) : Option (Bytes × Bytes) :=
  let rest := input.dropWhile isSpace
  if rest = [] then none
  else some (rest.takeWhile fun b => !isSpace b, rest.dropWhile fun b => !isSpace b)

def reservedText : Bytes := ascii "Keys beginning with __raft/ are reserved"

/-- A command with the default ids. -/
def build (type : Proto.CommandType) (key value : Bytes) : Except Bytes Proto.Command :=
  if RocksKVStore.isReserved key then .error reservedText else .ok ⟨type, 0, 0, key, value⟩

/-- The command of a line with one argument. -/
def buildKey (type : Proto.CommandType) (usage : String) (input : Bytes) : Except Bytes Proto.Command :=
  match readWord input with
  | none => .error (ascii usage)
  | some (key, _) => build type key []

/-- The command of a line with two arguments. -/
def buildEntry (type : Proto.CommandType) (usage : String) (input : Bytes) : Except Bytes Proto.Command :=
  match readWord input with
  | none => .error (ascii usage)
  | some (key, input) =>
    match readWord input with
    | none => .error (ascii usage)
    | some (value, _) => build type key value

/-- The command that a line asks for, or the text that says why there is none. -/
def commandFor (operation input : Bytes) : Except Bytes Proto.Command :=
  if operation = ascii "put" then buildEntry .put "Usage: put <key> <value>" input
  else if operation = ascii "get" then buildKey .get "Usage: get <key>" input
  else if operation = ascii "del" then buildKey .delete "Usage: del <key>" input
  else .error (ascii "Unknown command")

/-- Submit the command and say how it went. -/
def perform (calls : NodeCalls) (command : Proto.Command) : Except Exn Bytes :=
  match command.type with
  | .get => do
    if ← calls.submit command then
      match ← calls.getLocal command.key with
      | some value => return value
      | none => return ascii "NOT_FOUND"
    else return ascii "GET failed"
  | .delete => do return if ← calls.submit command then ascii "OK" else ascii "DELETE failed"
  | _ => do return if ← calls.submit command then ascii "OK" else ascii "PUT failed"

/-- One turn of the loop. What the node throws ends the program. -/
def turn (calls : NodeCalls) (line : Bytes) : Except Exn Turn :=
  match readWord line with
  | none => return .silent
  | some (operation, input) =>
    if operation = ascii "exit" then return .quit
    else if operation = ascii "status" then
      return .print (if calls.isReady = false then ascii "STARTING"
        else if calls.isLeader then ascii "LEADER" else ascii "FOLLOWER")
    else if calls.isReady = false then return .print (ascii "NOT_READY")
    else if calls.isLeader = false then return .print (ascii "NOT_LEADER")
    else
      match commandFor operation input with
      | .error text => return .print text
      | .ok command => return .print (← perform calls command)

end Shell

/-! ### The commands of the front ends -/

/-- The commands that `HandleRequest` submits, for requests that `OnMessage` has queued, and those that the interactive
loop submits. -/
inductive FromFrontEnd : Proto.Command → Prop
  | put (payload buffer : Bytes) (request : Proto.ClientRequest) :
      .enqueue request ∈ (ClientServer.onPayload payload buffer).2.2 → request.operation = .put →
        FromFrontEnd (ClientServer.commandOf .put request)
  | delete (payload buffer : Bytes) (request : Proto.ClientRequest) :
      .enqueue request ∈ (ClientServer.onPayload payload buffer).2.2 → request.operation = .delete →
        FromFrontEnd (ClientServer.commandOf .delete request)
  | line (operation input : Bytes) (command : Proto.Command) :
      Shell.commandFor operation input = .ok command → FromFrontEnd command

/-- An answer that is sent queues nothing. -/
theorem ClientServer.enqueue_notMem_sendResponse (response : Proto.ClientResponse) (buffer : Bytes)
    (request : Proto.ClientRequest) : .enqueue request ∉ (sendResponse response buffer).2.2 := by
  rw [sendResponse]
  cases frame response.serialize with
  | error x => exact List.not_mem_nil
  | ok framed =>
    intro hmem
    cases List.mem_singleton.mp hmem

/-- A request that is queued has a user key. -/
theorem ClientServer.isReserved_of_enqueue {payload buffer : Bytes} {request : Proto.ClientRequest}
    (h : .enqueue request ∈ (onPayload payload buffer).2.2) : RocksKVStore.isReserved request.key = false := by
  rw [onPayload] at h
  cases hparse : Proto.ClientRequest.parse payload with
  | none =>
    rw [hparse] at h
    exact absurd h (enqueue_notMem_sendResponse _ _ _)
  | some queued =>
    rw [hparse] at h
    dsimp only at h
    by_cases hkey : queued.key = []
    · rw [if_pos hkey] at h
      exact absurd h (enqueue_notMem_sendResponse _ _ _)
    · rw [if_neg hkey] at h
      cases hreserved : RocksKVStore.isReserved queued.key with
      | true =>
        rw [hreserved, if_pos rfl] at h
        exact absurd h (enqueue_notMem_sendResponse _ _ _)
      | false =>
        rw [hreserved, if_neg (by simp)] at h
        obtain rfl := ClientEvent.enqueue.inj (List.mem_singleton.mp h)
        exact hreserved

namespace Shell

variable {command : Proto.Command} {type : Proto.CommandType} {usage : String} {input : Bytes}

theorem build_eq_ok {key value : Bytes} (h : build type key value = .ok command) :
    command.type = type ∧ RocksKVStore.isReserved command.key = false := by
  unfold build at h
  split at h
  · cases h
  · next hfree =>
    obtain rfl := Except.ok.inj h
    exact ⟨rfl, by simpa using hfree⟩

theorem buildKey_eq_ok (h : buildKey type usage input = .ok command) :
    command.type = type ∧ RocksKVStore.isReserved command.key = false := by
  unfold buildKey at h
  split at h
  · cases h
  · exact build_eq_ok h

theorem buildEntry_eq_ok (h : buildEntry type usage input = .ok command) :
    command.type = type ∧ RocksKVStore.isReserved command.key = false := by
  unfold buildEntry at h
  split at h
  · cases h
  · split at h
    · cases h
    · exact build_eq_ok h

end Shell

/-- What the front ends let through. -/
theorem FromFrontEnd.cases {command : Proto.Command} (h : FromFrontEnd command) :
    (command.type = .put ∨ command.type = .delete ∨ command.type = .get) ∧
      RocksKVStore.isReserved command.key = false := by
  cases h with
  | put payload buffer request hqueued => exact ⟨.inl rfl, ClientServer.isReserved_of_enqueue hqueued⟩
  | delete payload buffer request hqueued => exact ⟨.inr (.inl rfl), ClientServer.isReserved_of_enqueue hqueued⟩
  | line operation input _ hcommand =>
    unfold Shell.commandFor at hcommand
    split at hcommand
    · exact (Shell.buildEntry_eq_ok hcommand).imp .inl id
    · split at hcommand
      · exact (Shell.buildKey_eq_ok hcommand).imp (fun htype => .inr (.inr htype)) id
      · split at hcommand
        · exact (Shell.buildKey_eq_ok hcommand).imp (fun htype => .inr (.inl htype)) id
        · cases hcommand

/-! ### There are no others -/

section Submits

variable {calls : NodeCalls} {submit : Proto.Command → Except Exn Bool}
  (hsubmit : ∀ command, FromFrontEnd command → submit command = calls.submit command)
include hsubmit

/-- A turn of the loop asks `Submit` for no other command. -/
theorem Shell.turn_submits (line : Bytes) : turn { calls with submit := submit } line = turn calls line := by
  unfold turn
  cases readWord line with
  | none => rfl
  | some words =>
    obtain ⟨operation, input⟩ := words
    dsimp only
    cases hcommand : commandFor operation input with
    | error text => rfl
    | ok command =>
      have hsame : perform { calls with submit := submit } command = perform calls command := by
        unfold perform
        dsimp only
        rw [hsubmit command (.line operation input command hcommand)]
      dsimp only
      rw [hsame]

/-- Nor does the handling of a request that was queued. -/
theorem ClientServer.responseTo_submits {payload buffer : Bytes} {request : Proto.ClientRequest}
    (hqueued : .enqueue request ∈ (onPayload payload buffer).2.2) :
    responseTo { calls with submit := submit } request = responseTo calls request := by
  have hsame : answer { calls with submit := submit } request = answer calls request := by
    unfold answer
    cases hoperation : request.operation with
    | put => exact congrArg (Except.map _) (hsubmit _ (.put payload buffer request hqueued hoperation))
    | delete => exact congrArg (Except.map _) (hsubmit _ (.delete payload buffer request hqueued hoperation))
    | _ => rfl
  unfold responseTo
  rw [hsame]

end Submits

end Nukv
