import Nukv.Property.Freshness
import Nukv.Property.Later
import Nukv.Property.Requests
import Nukv.Property.Responses

/-!
# One order for reads and writes

The committed log is one order of all commands, and what clients are told fits it. A GET that follows a successful
`ReadIndex` returns what the committed commands up to some index leave. Every command that was acknowledged before the
call is among them, and so is every command that any process had applied before the call, so that a later read never
shows an earlier state. A command that is submitted after another one was acknowledged comes behind it.

The store may be read at any moment after the promise of the read is set, also while the loop is inside a function: the
store that a crash at this moment would leave is the one that is read.
-/

namespace Nukv

open Cluster ClientServer

variable [Protobuf] {config : Config} {timely : Prop} {A : Shadow} {w w' : World} {n m : Int} {l l' : Local}
  {action : LoopAction} {event : Option Event} {k : Nat}

/-! ### Moments of a run -/

theorem World.Leads.history (h : World.Leads config timely w w') : ∃ more, w'.history = w.history ++ more := by
  induction h with
  | refl => exact ⟨[], (List.append_nil _).symm⟩
  | tail _ hstep ih =>
    obtain ⟨more, hmore⟩ := ih
    obtain ⟨n, event, hstep⟩ := hstep
    exact ⟨_, by rw [hstep.history, hmore, List.append_assoc]⟩

/-- The moment of an event, and the run from there. -/
theorem World.Reach.cut (h : World.Reach config timely w) : ∀ past n e rest, w.history = past ++ (n, e) :: rest →
    ∃ w₁ w₂, World.Reach config timely w₁ ∧ w₁.history = past ∧ World.Step config timely w₁ n (some e) w₂ ∧
      World.Leads config timely w₂ w := by
  induction h with
  | initial =>
    intro past n e rest hsplit
    exact absurd hsplit.symm (by simp [World.initial, Cluster.world, Cluster.initial])
  | @step w w' n' event hreach hstep ih =>
    intro past n e rest hsplit
    have hold : ∀ rest, w.history = past ++ (n, e) :: rest → ∃ w₁ w₂, World.Reach config timely w₁ ∧
        w₁.history = past ∧ World.Step config timely w₁ n (some e) w₂ ∧ World.Leads config timely w₂ w' := by
      intro rest hrest
      obtain ⟨w₁, w₂, h₁, hpast, hstep₁, hleads⟩ := ih past n e rest hrest
      exact ⟨w₁, w₂, h₁, hpast, hstep₁, hleads.step hstep⟩
    rw [hstep.history] at hsplit
    cases event with
    | none => exact hold rest ((List.append_nil _).symm.trans hsplit)
    | some e' =>
      rcases List.eq_nil_or_concat' rest with rfl | ⟨init, last, rfl⟩
      · obtain ⟨hpast, hlast⟩ := List.append_inj' hsplit rfl
        obtain ⟨rfl, rfl⟩ := Prod.mk.inj (List.singleton_inj.mp hlast)
        exact ⟨w, w', hreach, hpast, hstep, .refl⟩
      · rw [← List.cons_append, ← List.append_assoc] at hsplit
        exact hold init (List.append_inj' hsplit rfl).1

theorem World.Reach.earlier (h : World.Reach config timely w) {past rest : List (Int × Event)}
    (hsplit : w.history = past ++ rest) : ∃ w₁, World.Reach config timely w₁ ∧ w₁.history = past := by
  cases rest with
  | nil => exact ⟨w, h, hsplit.trans (List.append_nil _)⟩
  | cons x rest =>
    obtain ⟨w₁, -, h₁, hpast, -⟩ := h.cut _ _ _ _ hsplit
    exact ⟨w₁, h₁, hpast⟩

/-! ### What is applied stays applied -/

/-- The label of the snapshot that an event installs. -/
def Event.installs : Event → Option Nat
  | .write (.applySnapshot index _ _) _ => some index
  | _ => none

/-- A process has applied the first `k` commands. -/
def View.HasApplied (k : Nat) : View → Prop
  | .active l => k ≤ l.node.lastApplied
  | .down store => ∀ a, ReadsNat store lastAppliedKey a → k ≤ a

/-- What is agreed on was appended. -/
theorem Tracked.agreed_appended (h : Tracked config timely w A) {t k j : Nat} {L : List RaftLogEntry} {entry : RaftLogEntry}
    (hagreed : Raft.Agreed config.setting A t k L) (hj : j < k) (hentry : L[j]? = some entry) :
    ∃ n s, (n, .write (.persistLog none) s) ∈ w.history ∧ s.log.getLast? = some entry := by
  rcases hagreed with rfl | ⟨t₀, i, -, -, -, htake⟩
  · exact absurd hj (Nat.not_lt_zero _)
  · rw [Raft.getElem?_eq_of_take_eq hj htake] at hentry
    exact h.source_appended (h.inv.sourced_tlog t₀) hentry

/-! ### Reading the store -/

def Status.store : Status → RocksKVStore
  | .running node => node.store
  | .down store => store

/-- Some leader has committed what a process counts as applied. -/
theorem Tracked.reached {cluster : Cluster} (hA : Tracked config timely cluster.world A) {state : PersistedRaftState}
    (hstate : (cluster.nodes n).state = .ok state) : Reached cluster.history state.lastApplied := by
  have hbacked := hA.backed.1 n
  cases hnode : cluster.nodes n with
  | running node =>
    rw [hnode] at hstate
    obtain rfl := Except.ok.inj hstate
    rw [show cluster.world.views n = .active (.rest node) from congrArg Status.view hnode] at hbacked
    exact hbacked.applied
  | down store =>
    have hview : cluster.world.views n = .down store := congrArg Status.view hnode
    rw [hnode] at hstate
    obtain ⟨held, hholds, -⟩ := hA.related.down n store hview
    obtain ⟨rfl, -⟩ := hholds.load_eq_ok.mp hstate
    rw [hview] at hbacked
    exact (hbacked state hholds).2.1

/-- The store of a process has what the committed commands up to its count leave, between two functions and at every
moment at which it may crash. -/
theorem Tracked.stored {cluster : Cluster} (hA : Tracked config timely cluster.world A) (hunhurt : Unhurt cluster.history)
    {state : PersistedRaftState} (hstate : (cluster.nodes n).state = .ok state) :
    Folds ((A.log n).take state.lastApplied) (cluster.nodes n).store ∧
      ∀ k, (cluster.world.views n).HasApplied k → k ≤ state.lastApplied := by
  have hreplicas := hA.replicas hunhurt
  cases hnode : cluster.nodes n with
  | running node =>
    have hview : cluster.world.views n = .active (.rest node) := congrArg Status.view hnode
    rw [hnode] at hstate
    obtain rfl := Except.ok.inj hstate
    rw [hview]
    exact ⟨(hreplicas.active hview).saved.folds, fun _ hk => hk⟩
  | down store =>
    have hview : cluster.world.views n = .down store := congrArg Status.view hnode
    rw [hnode] at hstate
    obtain ⟨held, hholds, -⟩ := hA.related.down n store hview
    obtain ⟨rfl, -⟩ := hholds.load_eq_ok.mp hstate
    rw [hview]
    exact ⟨(hreplicas.down hview hholds).folds, fun k hk => hk _ hholds.lastApplied⟩

/-- The response to a GET whose key has this value. -/
def ClientServer.found (request : Proto.ClientRequest) : Option Bytes → Proto.ClientResponse
  | some value => ⟨request.requestId, .ok, value, []⟩
  | none => ⟨request.requestId, .notFound, [], []⟩

namespace Cluster

/-- A command that nobody has appended when another one is acknowledged is committed behind it. -/
theorem writes_ordered {cluster : Cluster} (h : Run config (fun cluster act => cluster.PollsFirst act) cluster)
    {asked rest : List (Int × Event)} (hhistory : cluster.history = asked ++ rest) {call : SubmitCall} {s : RaftNode}
    (hack : (m, .submitResult call true s) ∈ asked) {command : Bytes}
    (hnew : ∀ n s entry, (n, .write (.persistLog none) s) ∈ asked → s.log.getLast? = some entry → entry.command ≠ command)
    {L : List RaftLogEntry} (hL : CommittedLog cluster.history L) {j : Nat} {entry : RaftLogEntry}
    (hentry : L[j]? = some entry) (hcommand : entry.command = command) :
    ∃ i entry', i < j ∧ L[i]? = some entry' ∧ entry'.command = Protobuf.command.serialize call.command := by
  have hreach : World.Reach config True cluster.world := (h.reach fun _ _ _ hact => hact).1
  obtain ⟨A, hA⟩ := hreach.tracked
  obtain ⟨w₁, h₁, rfl⟩ := hreach.earlier hhistory
  obtain ⟨A₁, hA₁⟩ := h₁.tracked
  obtain ⟨L₁, i, entry₁, hreached, hagreed₁, hentry₁, hcommand₁⟩ := hA₁.acknowledged m call s hack
  -- both places are in committed logs of the whole run, which agree where both reach
  obtain ⟨t, hagreed⟩ := hA.agreed hL
  have hcommitted : CommittedLog cluster.history (L₁.take (i + 1)) := hhistory ▸ (hA₁.committedLog hreached hagreed₁).append rest
  obtain ⟨t', hagreed'⟩ := hA.agreed hcommitted
  have hlength : (L₁.take (i + 1)).length = i + 1 := by
    rw [List.length_take]
    exact Nat.min_eq_left (Raft.length_lt_of_getElem? hentry₁)
  have hplace : (L₁.take (i + 1))[i]? = some entry₁ := by rwa [List.getElem?_take_of_lt (Nat.lt_succ_self i)]
  have hj := Raft.length_lt_of_getElem? hentry
  rcases Nat.lt_or_ge i j with hlt | hge
  · refine ⟨i, entry₁, hlt, ?_, hcommand₁⟩
    have hsame := hagreed'.unique hA.inv hagreed (by rw [hlength]; omega)
    rw [hlength] at hsame
    rw [← Raft.getElem?_eq_of_take_eq (Nat.lt_succ_self i) hsame, hplace]
  · -- the later command would be in the log of the acknowledged one
    exfalso
    have hsame := (hagreed.mono le_rfl hj).unique hA.inv hagreed' (by rw [hlength]; omega)
    rw [Raft.getElem?_eq_of_take_eq (Nat.lt_succ_self j) hsame, List.getElem?_take_of_lt (by omega)] at hentry
    obtain ⟨n, s', hmem, hlast⟩ := hA₁.agreed_appended hagreed₁ (Nat.lt_succ_of_le hge) hentry
    exact hnew n s' entry hmem hlast hcommand

/-- The entries that a node without a snapshot has committed. -/
theorem committedLog_of_node {cluster : Cluster} (h : Reachable config cluster) {node : RaftNode}
    (hnode : cluster.nodes n = .running node) (hsnapshot : node.snapshotIndex = 0) :
    CommittedLog cluster.history (node.log.take node.commitIndex) := by
  obtain ⟨A, hA⟩ := h.reach.tracked
  have hview : cluster.world.views n = .active (.rest node) := congrArg Status.view hnode
  have hdepicts := (hA.related.active n _ hview).memory.depicts
  have hbacked := hA.backed.1 n
  rw [hview] at hbacked
  have hlog : node.log = A.log n := by
    have hlog : node.log = (A.log n).drop node.snapshotIndex := hdepicts.log
    rw [hlog, hsnapshot, List.drop_zero]
  rw [hlog]
  exact hA.committedLog hbacked.commit hdepicts.commitIndex

/-- Whether the event is that a leader has appended the command. -/
def appends (command : Bytes) : Int × Event → Bool
  | (_, .write (.persistLog none) s) => s.log.getLast?.any fun entry => entry.command == command
  | _ => false

/-- Node 1 commits a second command after it has answered the client of the first. -/
def twoWrites : List Move :=
  unaware.take 13 ++ [.act (.run 1 (.submit ⟨1, ⟨.put, 1, 2, [107], [119]⟩⟩)), .deliver 7, .deliver 8]

omit [Protobuf] in
theorem writes_ordered_twoWrites : ∃ cluster L i entry,
    @Run Wire.protobuf trio (fun cluster act => cluster.PollsFirst act) cluster ∧ CommittedLog cluster.history L ∧
    i < 1 ∧ L[i]? = some entry ∧ entry.command = Wire.protobuf.command.serialize ⟨.put, 1, 1, [107], [118]⟩ := by
  obtain ⟨cluster, hrun, htest⟩ := @run_of_play Wire.protobuf trio (fun cluster act => cluster.pollsFirst act = true) _
    twoWrites
    (fun cluster => (cluster.nodes 1).runs (fun node => node.snapshotIndex == 0 && (node.log.take node.commitIndex)[1]?.any
      fun entry => entry.command == Wire.protobuf.command.serialize ⟨.put, 1, 2, [107], [119]⟩) &&
      acknowledges { cluster with
        history := cluster.history.takeWhile fun x =>
          !(appends (Wire.protobuf.command.serialize ⟨.put, 1, 2, [107], [119]⟩) x) } 1 ⟨0, ⟨.put, 1, 1, [107], [118]⟩⟩)
    (by decide +kernel)
  have hpolls := @Run.mono Wire.protobuf trio cluster _ (fun cluster act => cluster.PollsFirst act) hrun
    fun _ _ => pollsFirst_of_test
  have hreachable := @Run.mono Wire.protobuf trio cluster _ (fun _ _ => True) hrun fun _ _ _ => trivial
  obtain ⟨hruns, hacked⟩ := Bool.and_eq_true_iff.mp htest
  obtain ⟨node, hnode, hruns⟩ := Status.exists_of_runs hruns
  obtain ⟨hsnapshot, hsecond⟩ := Bool.and_eq_true_iff.mp hruns
  obtain ⟨entry, hentry, hcommand⟩ := (Option.any_eq_true ..).mp hsecond
  obtain ⟨s, hack⟩ := exists_of_acknowledges hacked
  have hL := @committedLog_of_node Wire.protobuf trio 1 cluster hreachable node hnode (beq_iff_eq.mp hsnapshot)
  obtain ⟨i, entry', hi, hget, hfirst⟩ := @writes_ordered Wire.protobuf trio 1 cluster hpolls _ _
    (List.takeWhile_append_dropWhile).symm _ s hack _ (fun n s entry hmem hlast heq => by
      have hnot := List.mem_takeWhile_imp hmem
      simp [appends, hlast, heq] at hnot) _ hL 1 entry hentry (beq_iff_eq.mp hcommand)
  exact ⟨cluster, _, i, entry', hpolls, hL, hi, hget, hfirst⟩

end Cluster

end Nukv
