import Nukv.Proof.Loop

/-!
# The cluster in small steps

`World` is the cluster with the running node seen inside its function: its views are `Local` states. A world
moves by one `Micro` step of one node, by a node dying at any moment, by a node coming up from its store, and
by a connection being made. Every action of the cluster is a sequence of such moves, so what holds in every
reachable world holds in every reachable cluster.
-/

namespace Nukv

open Base

/-- A node right after `LoadState` has read its store, about to apply what is committed. -/
def Local.loaded (n : Int) (peers : List Int) (store : RocksKVStore)
    (state : PersistedRaftState) : Local :=
  ⟨((RaftNode.create n peers store).loaded state).core, true, [], none, none⟩

/-- What is left of a process, or where it is in its loop. -/
inductive View where
  | active (l : Local)
  | down (store : RocksKVStore)

structure World where
  views : Int → View
  history : List (Int × Event)
  opened : List Conn
  accepted : List Conn

def Status.view : Status → View
  | .running node => .active (Local.rest node)
  | .down store => .down store

def Cluster.world (cluster : Cluster) : World :=
  ⟨fun n => (cluster.nodes n).view, cluster.history, cluster.opened, cluster.accepted⟩

namespace World

/-- The node `n` has moved to `view`, leaving an event or none. -/
def moved (w : World) (n : Int) (view : View) (event : Option Event) : World :=
  { w with
    views := Function.update w.views n view
    history := w.history ++ event.toList.map fun e => (n, e) }

/-- What the loop runs may run: a frame was sent to this node, and, if timers fire in the order of their
deadlines, an election starts only when no commit poll is outstanding. -/
def Due (timely : Prop) (w : World) (n : Int) (l : Local) : LoopAction → Prop
  | .receive connection rpc =>
    ⟨connection, connection.otherEnd n, rpc⟩ ∈ packets w.history ∧
      (connection.client = n ∨ connection.server = n)
  | .electionTimeout => timely → l.node.role = .leader ∨ l.node.commitPolls = [] ∧ l.pushed = none
  | _ => True

@[simp] theorem moved_views_self (w : World) (n : Int) (view : View) (event : Option Event) :
    (w.moved n view event).views n = view := Function.update_self ..

theorem moved_views_of_ne (w : World) {n m : Int} (view : View) (event : Option Event) (h : m ≠ n) :
    (w.moved n view event).views m = w.views m := Function.update_of_ne h ..

@[simp] theorem moved_history_none (w : World) (n : Int) (view : View) :
    (w.moved n view none).history = w.history := by simp [moved]

@[simp] theorem moved_history_some (w : World) (n : Int) (view : View) (event : Event) :
    (w.moved n view (some event)).history = w.history ++ [(n, event)] := by simp [moved]

theorem mem_packets {history : List (Int × Event)} {packet : Packet} :
    packet ∈ packets history ↔ ∃ s, (packet.sender, .send packet.connection packet.rpc s) ∈ history := by
  rw [packets, List.mem_filterMap]
  constructor
  · rintro ⟨⟨n, event⟩, hmem, hpacket⟩
    cases event with
    | send c rpc s =>
      obtain rfl := Option.some.inj hpacket
      exact ⟨s, hmem⟩
    | _ => cases hpacket
  · rintro ⟨s, hmem⟩
    exact ⟨_, hmem, rfl⟩

theorem mem_packets_append {history : List (Int × Event)} {n : Int} {event : Event} {packet : Packet} :
    packet ∈ packets (history ++ [(n, event)]) ↔
      packet ∈ packets history ∨ Packet.ofEvent (n, event) = some packet := by
  simp [packets, List.filterMap_append, List.mem_filterMap]

variable [Protobuf]

/-- A move of one node, with its event if it has one. -/
inductive Step (config : Config) (timely : Prop) (w : World) : Int → Option Event → World → Prop
  | start (n : Int) (store : RocksKVStore) (state : PersistedRaftState) :
      w.views n = .down store → n ∈ config.peers → RaftStorage.load store = .ok state →
        Step config timely w n (some (.loadState state))
          (w.moved n (.active (Local.loaded n config.peers store state)) (some (.loadState state)))
  | die (n : Int) (l : Local) :
      w.views n = .active l → Step config timely w n none (w.moved n (.down l.node.store) none)
  | connect (n peer : Int) (serial : Nat) (l : Local) :
      w.views n = .active l → peer ∈ config.peers → n < peer → ⟨n, peer, serial⟩ ∉ w.opened →
        Step config timely w n none
          { w.moved n (.active { l with node := Cluster.prepare n (.connect peer serial) l.node }) none with
            opened := ⟨n, peer, serial⟩ :: w.opened }
  | accept (n : Int) (connection : Conn) (l : Local) :
      w.views n = .active l → connection ∈ w.opened → connection.server = n →
        connection ∉ w.accepted →
        Step config timely w n none
          { w.moved n (.active { l with node := Cluster.prepare n (.accept connection) l.node }) none with
            accepted := connection :: w.accepted }
  | micro (n : Int) (action : LoopAction) (l l' : Local) (event : Option Event) :
      w.views n = .active l → w.Due timely n l action → Micro action l event l' →
        Step config timely w n event (w.moved n (.active l') event)

theorem Step.history {config : Config} {timely : Prop} {w w' : World} {n : Int} {event : Option Event}
    (h : Step config timely w n event w') : w'.history = w.history ++ event.toList.map fun e => (n, e) := by
  cases h <;> rfl

/-- The other nodes stay where they are. -/
theorem Step.views {config : Config} {timely : Prop} {w w' : World} {n m : Int} {event : Option Event}
    (h : Step config timely w n event w') (hm : m ≠ n) : w'.views m = w.views m := by
  cases h <;> exact Function.update_of_ne hm ..

def initial : World := Cluster.initial.world

inductive Reach (config : Config) (timely : Prop) : World → Prop
  | initial : Reach config timely initial
  | step {w w' : World} {n : Int} {event : Option Event} :
      Reach config timely w → Step config timely w n event w' → Reach config timely w'

/-- A run that goes on from a world to another. -/
def Leads (config : Config) (timely : Prop) : World → World → Prop :=
  Relation.ReflTransGen fun w w' => ∃ n event, Step config timely w n event w'

theorem Leads.step {config : Config} {timely : Prop} {w₀ w w' : World} {n : Int} {event : Option Event}
    (h : Leads config timely w₀ w) (hstep : Step config timely w n event w') : Leads config timely w₀ w' :=
  h.tail ⟨n, event, hstep⟩

theorem Reach.leads {config : Config} {timely : Prop} {w₀ w : World} (h : Reach config timely w₀)
    (hleads : Leads config timely w₀ w) : Reach config timely w := by
  induction hleads with
  | refl => exact h
  | tail _ hstep ih =>
    obtain ⟨n, event, hstep⟩ := hstep
    exact ih.step hstep

/-- What every step preserves holds in every reachable world. -/
theorem Reach.invariant {config : Config} {timely : Prop} {I : World → Prop} (hinitial : I World.initial)
    (hstep : ∀ w w' n event, I w → Step config timely w n event w' → I w') {w : World} (h : Reach config timely w) : I w := by
  induction h with
  | initial => exact hinitial
  | step _ hmove ih => exact hstep _ _ _ _ ih hmove

end World

end Nukv
