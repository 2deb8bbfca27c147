import Nukv.Model.Cluster

/-!
# One process

A process on its own. Nothing is assumed about the processes it talks to: any frame may arrive on any of its
connections, and anybody may connect to it. What the process goes through is kept in order, the functions its loop
runs and their effects.
-/

namespace Nukv

inductive Moment where
  /-- The loop starts a function. -/
  | call (action : LoopAction)
  | effect (event : Event)

/-- Whether the moment is an effect that passes a test. -/
def Moment.causes (test : Event → Bool) : Moment → Bool
  | .call _ => false
  | .effect event => test event

theorem exists_of_causes {past : List Moment} {test : Event → Bool} (h : past.any (Moment.causes test) = true) :
    ∃ event, .effect event ∈ past ∧ test event = true := by
  obtain ⟨moment, hmem, hmoment⟩ := List.any_eq_true.mp h
  cases moment with
  | call action => cases hmoment
  | effect event => exact ⟨event, hmem, hmoment⟩

structure Process where
  status : Status
  past : List Moment

namespace Process

inductive Act where
  /-- The loop runs a function to its end. -/
  | run (action : LoopAction)
  /-- The process dies after some number of the function's effects. -/
  | crash (action : LoopAction) (effects : Nat)
  /-- The process dies between two functions. -/
  | kill

/-- The function of an act satisfies `admits`, if it has one. -/
def Act.Admitted (admits : LoopAction → Prop) : Act → Prop
  | .run action | .crash action _ => admits action
  | .kill => True

instance (admits : LoopAction → Prop) [DecidablePred admits] : DecidablePred (Act.Admitted admits) := fun act =>
  match act with
  | .run action | .crash action _ => inferInstanceAs (Decidable (admits action))
  | .kill => .isTrue trivial

def initial : Process := ⟨.down .empty, []⟩

/-- Whether the loop of a running process can run the function now. A process connects to the peers with greater ids
and to no others, and never to itself. -/
def enabled (peers : List Int) (server : Int) (node : RaftNode) : LoopAction → Prop
  | .start => False
  | .stop => True
  | .electionTimeout => node.electionTimer = true
  | .heartbeatTimeout => node.heartbeatTimer = true
  | .rpcTimeout timeout => timeout ∈ node.rpcTimeouts
  | .readTimeout requestId => node.readIndexTimer = some requestId
  | .commitPoll poll => poll ∈ node.commitPolls
  | .connect peer serial => peer ∈ peers ∧ server < peer ∧ ⟨server, peer, serial⟩ ∉ node.connections
  | .accept connection => connection.server = server ∧ connection.client ≠ server ∧ connection ∉ node.connections
  | .disconnect connection => connection ∈ node.connections
  | .receive connection _ => connection ∈ node.connections
  | .submit _ => node.ready = true
  | .readIndex _ => node.ready = true

instance (peers : List Int) (server : Int) (node : RaftNode) (action : LoopAction) :
    Decidable (enabled peers server node action) :=
  match action with
  | .start => inferInstanceAs (Decidable False)
  | .stop => inferInstanceAs (Decidable True)
  | .electionTimeout | .heartbeatTimeout | .submit _ | .readIndex _ => inferInstanceAs (Decidable (_ = true))
  | .rpcTimeout _ | .commitPoll _ | .disconnect _ | .receive _ _ => inferInstanceAs (Decidable (_ ∈ _))
  | .readTimeout _ => inferInstanceAs (Decidable (_ = _))
  | .connect _ _ => inferInstanceAs (Decidable (_ ∈ _ ∧ _ < _ ∧ _ ∉ _))
  | .accept _ => inferInstanceAs (Decidable (_ = _ ∧ _ ≠ _ ∧ _ ∉ _))

/-- The node the function starts from, if it can start. -/
def entry (peers : List Int) (server : Int) (process : Process) (action : LoopAction) : Option RaftNode :=
  match process.status with
  | .down store => if action = .start ∧ server ∈ peers then some (RaftNode.create server peers store) else none
  | .running node => if enabled peers server node action then some (Cluster.prepare server action node) else none

/-- The process after it ran `action` with these events and ended in `status`. -/
def after (process : Process) (action : LoopAction) (status : Status) (events : List Event) : Process :=
  ⟨status, process.past ++ .call action :: events.map .effect⟩

variable [Protobuf]

def exec (peers : List Int) (server : Int) (process : Process) : Act → Option Process
  | .kill =>
    match process.status with
    | .down _ => none
    | .running node => some { process with status := .down node.store }
  | .run action =>
    match process.entry peers server action with
    | none => none
    | some node =>
      match Cluster.program server action node with
      | (result, node', events) => some (process.after action (Cluster.outcome action result node') events)
  | .crash action effects =>
    match process.entry peers server action with
    | none => none
    | some node =>
      let events := (Cluster.program server action node).2.2.take effects
      some (process.after action (.down (Cluster.storeAfter node.store events)) events)

/-- What a process goes through when all functions its loop runs satisfy `admits`. -/
inductive Run (config : Config) (server : Int) (admits : LoopAction → Prop) : Process → Prop
  | initial : Run config server admits initial
  | step {process process' : Process} {act : Act} :
      Run config server admits process → act.Admitted admits → exec config.peers server process act = some process' →
        Run config server admits process'

/-- Carry out acts that are written down, as far as each of them is possible. -/
def play (peers : List Int) (server : Int) (process : Process) (acts : List Act) : Option Process :=
  acts.foldlM (exec peers server) process

theorem play_run {config : Config} {server : Int} {admits : LoopAction → Prop} {process process' : Process}
    {acts : List Act} (hrun : Run config server admits process) (hacts : ∀ act ∈ acts, act.Admitted admits)
    (h : play config.peers server process acts = some process') : Run config server admits process' := by
  induction acts generalizing process with
  | nil =>
    obtain rfl := Option.some.inj h
    exact hrun
  | cons act acts ih =>
    rw [play, List.foldlM_cons] at h
    obtain ⟨next, hexec, hrest⟩ := Option.bind_eq_some_iff.mp h
    exact ih (hrun.step (hacts act List.mem_cons_self) hexec)
      (fun act hact => hacts act (List.mem_cons_of_mem _ hact)) hrest

/-- Acts that can all be carried out lead to a process that satisfies what a test finds in it. -/
theorem run_of_play {config : Config} {server : Int} {admits : LoopAction → Prop} {acts : List Act}
    {test : Process → Bool} (hacts : ∀ act ∈ acts, act.Admitted admits)
    (h : (play config.peers server initial acts).any test = true) :
    ∃ process, Run config server admits process ∧ test process = true := by
  cases hplay : play config.peers server initial acts with
  | none => simp [hplay] at h
  | some process =>
    rw [hplay] at h
    exact ⟨process, play_run .initial hacts hplay, h⟩

end Process

/-- One session of the loop, from `Start` on: the functions that the loop has run, in any order and whether or not they were
due, and the node after them. A function that throws leaves what it has done. `Stop` sets `stopping_` from another thread. -/
inductive Session [Protobuf] (config : Config) (server : Int) : RaftNode → List Moment → Prop
  | start {store : RocksKVStore} {node : RaftNode} {events : List Event} :
      store.faults = [] →
        Cluster.program server .start (RaftNode.create server config.peers store) = (.ok (), node, events) →
        Session config server node (.call .start :: events.map .effect)
  | run {node node' : RaftNode} {past : List Moment} {action : LoopAction} {result : Except Exn Unit}
      {events : List Event} :
      Session config server node past → action ≠ .start →
        Cluster.program server action (Cluster.prepare server action node) = (result, node', events) →
        Session config server node' (past ++ .call action :: events.map .effect)
  | halt {node : RaftNode} {past : List Moment} :
      Session config server node past → Session config server { node with stopping := true } past

namespace Session

variable [Protobuf] {config : Config} {server : Int}

/-- The node and the past after one more function. -/
def next (server : Int) (state : RaftNode × List Moment) (action : LoopAction) : RaftNode × List Moment :=
  match Cluster.program server action (Cluster.prepare server action state.1) with
  | (_, node, events) => (node, state.2 ++ .call action :: events.map .effect)

end Session

end Nukv
