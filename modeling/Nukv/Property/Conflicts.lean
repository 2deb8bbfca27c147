import Nukv.Model.Shell
import Nukv.Property.Replicas

/-!
# Commands that cannot be applied

`Submit` appends whatever it is given, unless the request has its record. So a command can be committed that no node can
apply: the `get` of the interactive loop, and a second command of a request whose first one is in the log but not applied
yet. From then on `ApplyCommitted` throws on every node.

Nothing else stands in the way. If only `PUT` and `DELETE` are submitted, and no command is appended next to another one of
its request that is not applied, then no two entries of a log are in conflict: those that are applied have their record,
which `Submit` has looked for.
-/

namespace Nukv

open Base

section Orderly

variable [Protobuf] {config : Config} {timely : Prop} {A A' : Shadow} {w w' : World} {n : Int} {l l' : Local}
  {action : LoopAction} {event : Option Event} {store : RocksKVStore} {L : List RaftLogEntry}

/-- The last entry of the log has its request for itself, among those that are not applied. -/
def RaftNode.Unambiguous (s : RaftNode) : Prop :=
  ∀ j < s.lastIndex, s.lastApplied < j → ∀ entry last command command', s.entryAt j = .ok entry →
    s.entryAt s.lastIndex = .ok last → entry.parsed = some command → last.parsed = some command' →
    command'.requestId ≠ 0 → command'.sameRequest command = true → command' = command

/-- What is asked of the appends and of the restarts of a run. -/
structure Orderly (history : List (Int × Event)) : Prop where
  writes : ∀ n s, (n, .write (.persistLog none) s) ∈ history → ∀ last, s.entryAt s.lastIndex = .ok last →
    ∃ command, last.parsed = some command ∧ command.Writes
  unambiguous : ∀ n s, (n, .write (.persistLog none) s) ∈ history → s.Unambiguous
  kept : NothingUndone history

theorem Orderly.of_append {history more : List (Int × Event)} (h : Orderly (history ++ more)) : Orderly history :=
  ⟨fun n s hmem => h.writes n s (List.mem_append_left _ hmem),
    fun n s hmem => h.unambiguous n s (List.mem_append_left _ hmem),
    fun n state hmem => h.kept n state (List.mem_append_left _ hmem)⟩

theorem Orderly.loaded {history : List (Int × Event)} {state : PersistedRaftState} (h : Orderly history)
    (hkept : state.lastApplied ≤ max state.commitIndex state.snapshotIndex) :
    Orderly (history ++ [(n, .loadState state)]) := by
  refine ⟨fun m s hmem => ?_, fun m s hmem => ?_, fun m state' hmem => ?_⟩
  · exact h.writes m s (by simpa using hmem)
  · exact h.unambiguous m s (by simpa using hmem)
  · rcases List.mem_append.mp hmem with hold | hnew
    · exact h.kept m state' hold
    · obtain ⟨rfl, hevent⟩ := Prod.mk.inj (List.mem_singleton.mp hnew)
      obtain rfl := Event.loadState.inj hevent
      exact hkept

/-- A request in a log has its record in a store that the log folds to. -/
theorem Folds.record_ne_none (h : Folds L store) {entry : RaftLogEntry} (hentry : entry ∈ L) {command : Proto.Command}
    (hparse : entry.parsed = some command) (hid : command.requestId ≠ 0) :
    store.get (CommandApplier.requestKey command) ≠ none := by
  obtain ⟨result, hresult, hagrees⟩ := h
  obtain ⟨-, commands, hcommands, hreplayed⟩ := replay_replayed hresult
  have hmem : command ∈ commands := by
    have hsome : some command ∈ commands.map some := hcommands ▸ List.mem_map.mpr ⟨entry, hentry, hparse⟩
    simpa using hsome
  rw [hagrees _ (.inr (CommandApplier.startsWith_requestKey command)), hreplayed.found command hid, ne_eq,
    Option.map_eq_none_iff]
  exact effective_find?_ne_none hmem hid

/-- One more entry. -/
theorem Compatible.append (h : Compatible L) {last : RaftLogEntry} {command : Proto.Command}
    (hparse : last.parsed = some command) (hwrites : command.Writes)
    (hclear : ∀ entry ∈ L, ∀ command', entry.parsed = some command' → command.requestId ≠ 0 →
      command.sameRequest command' = true → command = command') : Compatible (L ++ [last]) := by
  refine ⟨fun entry hentry => ?_, fun entry hentry entry' hentry' c c' hc hc' hid hsame => ?_⟩
  · rcases List.mem_append.mp hentry with hold | hlast
    · exact h.writes entry hold
    · exact ⟨command, List.mem_singleton.mp hlast ▸ hparse, hwrites⟩
  · rcases List.mem_append.mp hentry with hold | hlast
    · rcases List.mem_append.mp hentry' with hold' | hlast'
      · exact h.requests entry hold entry' hold' c c' hc hc' hid hsame
      · obtain rfl := List.mem_singleton.mp hlast'
        obtain rfl := Option.some.inj (hparse.symm.trans hc')
        obtain ⟨hclient, hrequest⟩ := Proto.Command.sameRequest_iff.mp hsame
        exact (hclear entry hold c hc (hrequest ▸ hid)
          (Proto.Command.sameRequest_iff.mpr ⟨hclient.symm, hrequest.symm⟩)).symm
    · obtain rfl := List.mem_singleton.mp hlast
      obtain rfl := Option.some.inj (hparse.symm.trans hc)
      rcases List.mem_append.mp hentry' with hold' | hlast'
      · exact hclear entry' hold' c' hc' hid hsame
      · obtain rfl := List.mem_singleton.mp hlast'
        exact Option.some.inj (hparse.symm.trans hc')

/-- The log of a leader with one more command, which has no record and is alone among those that are not applied. -/
theorem Replica.append_compatible {call : SubmitCall} {s : RaftNode}
    (h : Replica A n l.node.toLogState l.node.toIncomingSnapshot) (hcompatible : Compatible (A.log n))
    (hnew : call.command.requestId ≠ 0 →
      RaftStorage.getAppliedCommand l.node.store call.command.clientId call.command.requestId = none)
    (hs : s.toLogState = (l.node.appended (Protobuf.command.serialize call.command)).toLogState)
    (hshows : s.Shows (A.log n ++ [⟨l.node.currentTerm, Protobuf.command.serialize call.command⟩]))
    (hlast : s.entryAt s.lastIndex = .ok ⟨l.node.currentTerm, Protobuf.command.serialize call.command⟩)
    (hwrites : call.command.Writes) (hunambiguous : s.Unambiguous) :
    Compatible (A.log n ++ [⟨l.node.currentTerm, Protobuf.command.serialize call.command⟩]) := by
  have hparse : RaftLogEntry.parsed ⟨l.node.currentTerm, Protobuf.command.serialize call.command⟩ = some call.command :=
    Protobuf.command.parse_serialize _
  refine hcompatible.append hparse hwrites fun entry hentry command' hparse' hid hsame => ?_
  obtain ⟨j, hj, hget⟩ := List.getElem_of_mem hentry
  have hread : (A.log n)[j]? = some entry := by rw [List.getElem?_eq_getElem hj, hget]
  rcases Nat.lt_or_ge j l.node.lastApplied with hlt | hge
  · -- a command that is applied has its record
    have hmem : entry ∈ (A.log n).take l.node.lastApplied :=
      List.mem_of_getElem? ((List.getElem?_take_of_lt hlt).trans hread)
    obtain ⟨hclient, hrequest⟩ := Proto.Command.sameRequest_iff.mp hsame
    have hrecord := h.saved.folds.record_ne_none hmem hparse' (hrequest ▸ hid)
    unfold CommandApplier.requestKey at hrecord
    rw [hclient, hrequest] at hrecord
    exact absurd (hnew hid) hrecord
  · have happlied : s.lastApplied = l.node.lastApplied := (congrArg LogState.lastApplied hs).trans rfl
    have hsnapshot : s.snapshotIndex = l.node.snapshotIndex := (congrArg LogState.snapshotIndex hs).trans rfl
    have hlength : s.lastIndex = (A.log n).length + 1 := by
      rw [hshows.lastIndex, List.length_append, List.length_singleton]
    have hlow := h.saved.low
    refine hunambiguous (j + 1) (by omega) (by omega) entry _ command' call.command ?_ hlast hparse' hparse hid hsame
    refine hshows.entryAt.mpr ⟨by omega, ?_⟩
    rw [List.getElem?_append_left hj, hread]

/-- An append of `Submit`. -/
theorem Micro.appends {s : RaftNode} (h : Micro action l (some (.write (.persistLog none) s)) l') :
    ∃ call, action = .submit call ∧ l.node.role = .leader ∧
      (call.command.requestId ≠ 0 →
        RaftStorage.getAppliedCommand l.node.store call.command.clientId call.command.requestId = none) ∧
      s.core = l.node.appended (Protobuf.command.serialize call.command) ∧
      l' = { l with
        node := l.node.appended (Protobuf.command.serialize call.command)
        pushed := some ⟨l.node.lastIndex + 1, call⟩ } := by
  rcases h with h | h | h | h | h | h | h | h | h
  case log =>
    cases h with
    | push call s haction hrole hwaiting hnew hstate => exact ⟨call, haction, hrole, hnew, hstate, rfl⟩
  all_goals cases h

theorem RaftNode.entryAt_appended (s : RaftNode) (command : Bytes) :
    (s.appended command).entryAt (s.appended command).lastIndex = .ok ⟨s.currentTerm, command⟩ := by
  have hlog : (s.appended command).log = s.log ++ [⟨s.currentTerm, command⟩] := rfl
  have hlast : (s.appended command).lastIndex = s.snapshotIndex + (s.log.length + 1) := by
    change s.snapshotIndex + (s.log ++ [_]).length = _
    rw [List.length_append, List.length_singleton]
  have hsnapshot : (s.appended command).snapshotIndex = s.snapshotIndex := rfl
  refine RaftNode.entryAt_eq_ok.mpr ⟨by omega, ?_⟩
  rw [hlast, hsnapshot, hlog, Nat.add_sub_cancel_left, Nat.add_sub_cancel]
  simp

/-- What an append leaves in the shadow. -/
theorem Tracked.append_log (h : Tracked config timely w A) (h' : Tracked config timely w' A') (hview : w.views n = .active l)
    (hview' : w'.views n = .active l') {s : RaftNode} (hmicro : Micro action l (some (.write (.persistLog none) s)) l')
    {entry : RaftLogEntry} (hpushed : A'.tlog (A.term n) = A.tlog (A.term n) ++ [entry]) :
    ∃ call, action = .submit call ∧ A.tlog (A.term n) = A.log n ∧
      entry = ⟨l.node.currentTerm, Protobuf.command.serialize call.command⟩ ∧ s.Shows (A.log n ++ [entry]) ∧
      s.entryAt s.lastIndex = .ok entry := by
  obtain ⟨call, haction, hrole, -, hstate, rfl⟩ := hmicro.appends
  have hnode := h.related.active n l hview
  have hnode' := h'.related.active n _ hview'
  have hterm : A.term n = l.node.currentTerm := hnode.memory.depicts.term
  have htlog : A.tlog l.node.currentTerm = A.log n := (hnode.roles.leader hrole).tlog
  rw [hterm, htlog] at hpushed
  obtain ⟨L, htlog', hlog', -⟩ := hnode'.pushed hrole
  obtain ⟨rfl, hentry⟩ := List.append_inj' (hpushed.symm.trans htlog') rfl
  obtain rfl := List.singleton_inj.mp hentry
  have hlog : s.toLogState = (l.node.appended (Protobuf.command.serialize call.command)).toLogState :=
    congrArg (fun t => t.toLogState) hstate
  have hshows : s.Shows (A'.log n) := Memory.shows (hlog ▸ hnode'.memory)
  rw [hlog'] at hshows
  refine ⟨call, haction, hterm ▸ htlog, rfl, hshows, ?_⟩
  have hsnapshot : s.snapshotIndex = l.node.snapshotIndex := (congrArg LogState.snapshotIndex hlog).trans rfl
  have hlow : l.node.snapshotIndex ≤ (A.log n).length := hnode.memory.snapshot_le
  rw [hshows.lastIndex, List.length_append, List.length_singleton]
  refine hshows.entryAt.mpr ⟨hsnapshot ▸ hlow, ?_⟩
  rw [List.getElem?_append_right le_rfl, Nat.sub_self]
  rfl

/-- In an orderly run no log has entries in conflict, and no command is refused. -/
theorem Tracked.orderly (h : Tracked config timely w A) (horderly : Orderly w.history) :
    Unhurt w.history ∧ ∀ t, Compatible (A.tlog t) := by
  refine h.invariant (I := fun w A => Orderly w.history → Unhurt w.history ∧ ∀ t, Compatible (A.tlog t)) ?_ ?_ horderly
  · exact fun _ => ⟨.initial, fun _ => .nil⟩
  · intro w w' A A' n event htracked htracked' hstep hsteps hgrows ih horderly
    obtain ⟨hbefore, hcompatible⟩ := ih (.of_append (hstep.history ▸ horderly))
    have hlogs : ∀ m j, j ≤ (A.log m).length → Compatible ((A.log m).take j) := by
      intro m j hj
      rw [Raft.Sourced.take_eq_tlog (htracked.inv.sourced_log m) hj]
      exact (hcompatible _).initial (List.take_prefix ..)
    refine ⟨hbefore.step htracked hstep horderly.kept fun l hview hlt => hlogs n _ ?_, fun t => ?_⟩
    · exact hlt.trans_le (htracked.related.active n l hview).memory.depicts.commitIndex.le_length
    · -- by induction on the term: a new leader brings a log of earlier terms
      induction t using Nat.strong_induction_on with
      | _ t iht =>
        rcases hgrows t with hsame | hlower | ⟨s, entry, rfl, rfl, hpushed⟩
        · exact hsame ▸ hcompatible t
        · rcases List.eq_nil_or_concat (A'.tlog t) with hnil | ⟨init, last, hlog⟩
          · exact hnil ▸ .nil
          · have htake := Raft.Sourced.take_eq_tlog (htracked'.inv.sourced_tlog t) le_rfl
            rw [List.take_length] at htake
            rw [htake]
            refine (iht _ ?_).initial (List.take_prefix ..)
            rw [hlog, List.concat_eq_append, Raft.lastTerm_append_singleton]
            exact hlower last (by simp [hlog])
        · rcases hstep.event with ⟨_, _, -, -, hload, -⟩ | ⟨action, l, l', hview, hview', -, hmicro⟩
          · cases hload
          · have hmem : (n, .write (.persistLog none) s) ∈ w'.history := by
              rw [hstep.history]
              exact List.mem_append_right _ List.mem_cons_self
            obtain ⟨call, rfl, htlog, rfl, hshows, hlast⟩ := htracked.append_log htracked' hview hview' hmicro hpushed
            obtain ⟨call', hcall, -, hnew, hstate, -⟩ := hmicro.appends
            obtain rfl := LoopAction.submit.inj hcall
            have hs : s.toLogState = (l.node.appended (Protobuf.command.serialize call.command)).toLogState :=
              congrArg (fun t => t.toLogState) hstate
            have hreplica := (htracked.replicas hbefore).active hview
            rw [hpushed, htlog]
            refine hreplica.append_compatible ?_ hnew hs hshows hlast ?_ (horderly.unambiguous n s hmem)
            · exact htlog ▸ hcompatible _
            · obtain ⟨command, hparse, hwrites⟩ := horderly.writes n s hmem _ hlast
              obtain rfl := Option.some.inj ((Protobuf.command.parse_serialize _).symm.trans hparse)
              exact hwrites

/-! ### All that is committed is applied -/

omit [Protobuf] in
/-- Outside `ApplyCommitted` all that is committed is applied. -/
def Local.Applied (l : Local) : Prop := l.applying = false → l.node.commitIndex ≤ l.node.lastApplied

omit [Protobuf] in
theorem Local.Applied.voteSaved (h : l.Applied) (candidate : Int) :
    ({ l with node := l.node.voteSaved candidate } : Local).Applied := h

theorem Local.Applied.step (h : l.Applied) (hstep : Micro action l event l')
    (happlicable : ∀ index, event ≠ some (.refuseApply index)) (hindexed : ∀ x, event ≠ some (.refuseIndex x)) :
    l'.Applied := by
  rcases hstep with hstep | hstep | hstep | hstep | hstep | hstep | hstep | hstep | hstep
  case role =>
    cases hstep with
    | grant => exact h.voteSaved _
    | _ => exact h
  case log =>
    cases hstep with
    | advance | merge | install => exact fun hout => absurd (show true = false from hout) (by simp)
    | _ => exact h
  case apply =>
    cases hstep with
    | enter => exact fun hout => absurd (show true = false from hout) (by simp)
    | catchUp hin | apply _ _ _ _ hin | compact _ hin => exact fun hout => absurd (hin.symm.trans hout) (by simp)
    | leave s happlied => exact fun _ => happlied
    | refuse => exact absurd rfl (happlicable _)
    | abort => exact absurd rfl (hindexed _)
    | _ => exact h
  all_goals cases hstep <;> exact h

theorem Tracked.applied (h : Tracked config timely w A) (happlicable : ∀ index, (n, .refuseApply index) ∉ w.history)
    (hview : w.views n = .active l) : l.Applied := by
  refine h.each (P := fun w _ n l => (∀ index, (n, .refuseApply index) ∉ w.history) → l.Applied) ?_ ?_ ?_ ?_ n l hview
    happlicable
  · exact fun _ _ _ _ _ _ _ _ _ _ _ hout => absurd (show true = false from hout) (by simp)
  · exact fun _ _ _ _ _ _ _ _ hhistory _ _ ih happlicable => ih (hhistory ▸ happlicable)
  · intro w w' A A' n action l l' event htracked htracked' hview _ _ hmicro hhistory _ ih happlicable
    have hmem : ∀ e, event = some e → (n, e) ∈ w'.history := by
      rintro e rfl
      rw [hhistory]
      exact List.mem_append_right _ List.mem_cons_self
    refine (ih fun index hold => happlicable index ?_).step hmicro (fun index he => ?_) fun x he => ?_
    · rw [hhistory]
      exact List.mem_append_left _ hold
    · exact happlicable index (hmem _ he)
    · exact htracked'.labels n happlicable _ (hmem _ he)
  · intro w w' A A' n m l event hm _ _ _ hstep _ ih happlicable
    exact ih fun index hmem => happlicable index (hstep.history ▸ List.mem_append_left _ hmem)

theorem Micro.finishes {s : RaftNode} (h : Micro action l (some (.finishApply s)) l') : s.commitIndex ≤ s.lastApplied := by
  rcases h with h | h | h | h | h | h | h | h | h
  case apply =>
    cases h with
    | leave s happlied _ _ _ hstate =>
      rw [← hstate] at happlied
      exact happlied
  all_goals cases h

/-- What is committed and not applied yet can be applied. -/
theorem Tracked.applies (h : Tracked config timely w A) (horderly : Orderly w.history) (hview : w.views n = .active l) :
    ∃ result, applyAll l.node.commitIndex l.node.store (max l.node.lastApplied l.node.snapshotIndex + 1)
      ((l.node.log.drop (max l.node.lastApplied l.node.snapshotIndex - l.node.snapshotIndex)).take
        (l.node.commitIndex - max l.node.lastApplied l.node.snapshotIndex)) = some result := by
  obtain ⟨hunhurt, hcompatible⟩ := h.orderly horderly
  have hmemory := (h.related.active n l hview).memory
  have hsaved := ((h.replicas hunhurt).active hview).saved
  obtain ⟨before, hbefore, hagrees⟩ := hsaved.folds
  have hlow : l.node.snapshotIndex ≤ l.node.lastApplied := hsaved.low
  rw [max_eq_left hlow]
  rcases Nat.lt_or_ge l.node.lastApplied l.node.commitIndex with hlt | hge
  · have hlog : l.node.log = (A.log n).drop l.node.snapshotIndex := hmemory.depicts.log
    have hlength : l.node.commitIndex ≤ (A.log n).length := hmemory.depicts.commitIndex.le_length
    have hall : Compatible ((A.log n).take l.node.commitIndex) := by
      rw [Raft.Sourced.take_eq_tlog (h.inv.sourced_log n) hlength]
      exact (hcompatible _).initial (List.take_prefix ..)
    obtain ⟨result, hresult⟩ := hall.replay
    -- the committed log is what is applied, followed by what is still to be applied
    have hsplit : (A.log n).take l.node.commitIndex = (A.log n).take l.node.lastApplied ++
        ((A.log n).drop l.node.lastApplied).take (l.node.commitIndex - l.node.lastApplied) := by
      rw [← List.take_add, Nat.add_sub_cancel' hlt.le]
    unfold replay at hbefore hresult
    rw [hsplit, applyAll_append, hbefore, Option.bind_some] at hresult
    obtain ⟨result', hresult', -⟩ := hagrees.applyAll hresult (l.node.lastApplied + 1) l.node.commitIndex
    rw [hlog, List.drop_drop, Nat.add_sub_cancel' hlow]
    exact ⟨result', hresult'⟩
  · rw [Nat.sub_eq_zero_of_le hge, List.take_zero]
    exact ⟨_, rfl⟩

end Orderly

/-- The command that an action submits. -/
def Action.submitted : Action → Option Proto.Command
  | .run _ (.submit call) | .crash _ (.submit call) _ => some call.command
  | _ => none

/-- What an action submits is as `P` asks. -/
def Action.Submits (P : Proto.Command → Prop) (act : Action) : Prop := ∀ command ∈ act.submitted, P command

instance {P : Proto.Command → Prop} [DecidablePred P] : DecidablePred (Action.Submits P) := fun act =>
  inferInstanceAs (Decidable (∀ command ∈ act.submitted, P command))

theorem Action.submitted_of_runs {act : Action} {n : Int} {call : SubmitCall}
    (h : act.runs = some (n, .submit call)) : act.submitted = some call.command := by
  cases act with
  | kill => cases h
  | run m action | crash m action effects =>
    obtain ⟨rfl, rfl⟩ := Prod.mk.inj (Option.some.inj h)
    rfl

namespace Cluster

section Statement

variable [Protobuf] {config : Config} {cluster : Cluster} {n : Int}

theorem Run.mono {ok ok' : Cluster → Action → Prop} (h : Run config ok cluster)
    (hok : ∀ cluster act, ok cluster act → ok' cluster act) : Run config ok' cluster := by
  induction h with
  | initial => exact .initial
  | step _ hact hexec ih => exact ih.step (hok _ _ hact) hexec

/-- The last entry after an append is the command that was submitted. -/
theorem Run.appended {P : Proto.Command → Prop} (h : Run config (fun _ act => act.Submits P) cluster) {s : RaftNode}
    (hmem : (n, .write (.persistLog none) s) ∈ cluster.history) {last : RaftLogEntry}
    (hlast : s.entryAt s.lastIndex = .ok last) : ∃ command, last.parsed = some command ∧ P command := by
  rcases h.origin hmem with ⟨state, hload⟩ | ⟨before, act, action, l, l', hact, hruns, hmicro⟩
  · cases hload
  · obtain ⟨call, rfl, -, -, hstate, -⟩ := hmicro.appends
    refine ⟨call.command, ?_, hact _ (Action.submitted_of_runs hruns)⟩
    have hentry : s.core.entryAt s.core.lastIndex = .ok last := hlast
    rw [hstate] at hentry
    obtain rfl := Except.ok.inj ((l.node.entryAt_appended _).symm.trans hentry)
    exact Protobuf.command.parse_serialize _

/-- A node that is down, and whose store can be read, comes up. -/
theorem start_returns (hreach : World.Reach config False cluster.world) (horderly : Orderly cluster.history)
    {store : RocksKVStore} {state : PersistedRaftState} (hnode : cluster.nodes n = .down store) (hmember : n ∈ config.peers)
    (hload : RaftStorage.load store = .ok state)
    (hkept : state.lastApplied ≤ max state.commitIndex state.snapshotIndex) :
    ∃ cluster' node, exec config.peers cluster (.run n .start) = some cluster' ∧ cluster'.nodes n = .running node := by
  have hview : cluster.world.views n = .down store := congrArg Status.view hnode
  -- the world in which the store has been read
  obtain ⟨A, hA⟩ := (hreach.step (.start n store state hview hmember hload)).tracked
  have horderly' : Orderly (cluster.world.moved n (.active (Local.loaded n config.peers store state))
      (some (.loadState state))).history := by
    rw [World.moved_history_some]
    exact horderly.loaded hkept
  have hview' := cluster.world.moved_views_self n (.active (Local.loaded n config.peers store state))
    (some (.loadState state))
  obtain ⟨result, hresult⟩ := hA.applies horderly' hview'
  obtain ⟨hhigh, hterm⟩ := hA.committed_termed hview'
  have hfaults : store.faults = [] := hreach.wired.down n store hview
  have hreturns : Prog.Returns afterLoad (fun _ _ _ => True) [] ((RaftNode.create n config.peers store).loaded state) :=
    .bind ((returns_applyCommitted hfaults hhigh hterm hresult).post fun _ _ _ _ => .bind (.modify (.modify trivial)))
  obtain ⟨_, node, events, hafter, -⟩ := hreturns.run
  have hrun : program n .start (RaftNode.create n config.peers store) = (.ok (), node, .loadState state :: events) := by
    have hstart : program n .start (RaftNode.create n config.peers store) = _ :=
      startInLoop_ok (s := RaftNode.create n config.peers store) hload rfl rfl rfl
    rw [hstart, hafter]
  have hentry : entry config.peers cluster n .start = some (RaftNode.create n config.peers store) := by
    unfold entry
    rw [hnode]
    exact if_pos ⟨rfl, hmember⟩
  exact ⟨_, node, exec_run (by simp) hentry hrun, after_nodes_self ..⟩

/-- With `PUT` and `DELETE` only, and no command next to another one of its request that is not applied, every committed
command is applied. No call of `ApplyCommitted` throws, what it leaves is all applied, and a node comes up again. -/
theorem commands_applicable
    (h : Run config (fun _ act => act.Submits fun command => FromFrontEnd command ∧ command.type ≠ .get) cluster)
    (hunambiguous : ∀ n s, (n, .write (.persistLog none) s) ∈ cluster.history → s.Unambiguous)
    (hkept : NothingUndone cluster.history) :
    (∀ n index, (n, .refuseApply index) ∉ cluster.history) ∧ (∀ n x, (n, .refuseIndex x) ∉ cluster.history) ∧
    (∀ n s, (n, .finishApply s) ∈ cluster.history → s.commitIndex ≤ s.lastApplied) ∧
    (∀ n node, cluster.nodes n = .running node → node.commitIndex ≤ node.lastApplied) ∧
    ∀ n ∈ config.peers, ∀ store state, cluster.nodes n = .down store → RaftStorage.load store = .ok state →
      state.lastApplied ≤ max state.commitIndex state.snapshotIndex →
      ∃ cluster' node, exec config.peers cluster (.run n .start) = some cluster' ∧ cluster'.nodes n = .running node := by
  have hreach : World.Reach config False cluster.world := (h.reach False.elim).1
  obtain ⟨A, hA⟩ := hreach.tracked
  have horderly : Orderly cluster.history := by
    refine ⟨fun n s hmem last hlast => ?_, hunambiguous, hkept⟩
    obtain ⟨command, hparse, hfront, hget⟩ := h.appended hmem hlast
    obtain ⟨htype | htype | htype, hkey⟩ := hfront.cases
    · exact ⟨command, hparse, .inl htype, hkey⟩
    · exact ⟨command, hparse, .inr htype, hkey⟩
    · exact absurd htype hget
  have happlicable : ∀ n index, (n, .refuseApply index) ∉ cluster.history := (hA.orderly horderly).1.applicable
  refine ⟨happlicable, fun n x hmem => ?_, fun n s hmem => ?_, fun n node hnode => ?_,
    fun n hmember store state hnode hload hkept' => start_returns hreach horderly hnode hmember hload hkept'⟩
  · exact hA.labels n (happlicable n) _ hmem
  · rcases h.origin hmem with ⟨state, hload⟩ | ⟨before, act, action, l, l', -, -, hmicro⟩
    · cases hload
    · exact hmicro.finishes
  · have hview : cluster.world.views n = .active (Local.rest node) := congrArg Status.view hnode
    exact hA.applied (happlicable n) hview rfl

end Statement

/-- Whether two commands are not in conflict. -/
def compatible (command command' : Proto.Command) : Bool :=
  command'.requestId == 0 || !command'.sameRequest command || command' == command

/-- Whether no command of a history is appended next to another one that it is in conflict with. -/
def apart [Protobuf] (history : List (Int × Event)) : Bool :=
  history.all fun
    | (_, .write (.persistLog none) s) =>
      (List.range s.lastIndex).all fun j =>
        match s.entryAt j, s.entryAt s.lastIndex with
        | .ok entry, .ok last => j ≤ s.lastApplied ||
            (entry.parsed.all fun command => last.parsed.all fun command' => compatible command command')
        | _, _ => true
    | _ => true

theorem unambiguous_of_apart [Protobuf] {history : List (Int × Event)} (h : apart history = true) (n : Int) (s : RaftNode)
    (hmem : (n, .write (.persistLog none) s) ∈ history) : s.Unambiguous := by
  intro j hj hnew entry last command command' hentry hlast hparse hparse' hid hsame
  have htest := List.all_eq_true.mp (List.all_eq_true.mp h _ hmem) j (List.mem_range.mpr hj)
  simpa [hentry, hlast, hparse, hparse', compatible, hid, hsame, hnew.not_ge] using htest

/-- Node 1 is elected and a `get` is typed in at it. Node 2 learns that the command is committed, and restarts after it has
asked for votes. -/
def typedGet : List Move :=
  [.act (.run 1 .start), .act (.run 2 .start), .act (.run 1 (.connect 2 0)), .act (.run 2 (.accept ⟨1, 2, 0⟩)),
    .act (.run 1 .electionTimeout), .deliver 1, .deliver 2, .deliver 3, .deliver 4,
    .act (.run 1 (.submit ⟨0, ⟨.get, 0, 0, [107], []⟩⟩)), .deliver 5, .deliver 6,
    .act (.run 1 (.connect 2 1)), .act (.run 2 (.accept ⟨1, 2, 1⟩)), .deliver 7,
    .act (.run 2 .electionTimeout), .act (.kill 2)]

theorem typed_get_fromFrontEnd : FromFrontEnd ⟨.get, 0, 0, [107], []⟩ :=
  .line (ascii "get") (ascii " k") _ (by decide)

/-- Whether node 1 has committed more than it has applied, and node 2, whose store can be read, does not come up. -/
def blocked (cluster : Cluster) : Bool :=
  match cluster.nodes 1, cluster.nodes 2, @exec Wire.protobuf trio.peers cluster (.run 2 .start) with
  | .running node, .down store, some cluster' => node.lastApplied < node.commitIndex &&
      (match @RaftStorage.load Wire.protobuf store with
        | .ok state => state.lastApplied ≤ max state.commitIndex state.snapshotIndex
        | .error _ => false) && (cluster'.nodes 2 matches .down _)
  | _, _, _ => false

theorem typed_get_blocks : ∃ cluster node store state cluster' store',
    @Run Wire.protobuf trio (fun _ act => act.Submits FromFrontEnd) cluster ∧
    (1, .refuseApply 1) ∈ cluster.history ∧ cluster.nodes 1 = .running node ∧ node.lastApplied < node.commitIndex ∧
    cluster.nodes 2 = .down store ∧ @RaftStorage.load Wire.protobuf store = .ok state ∧
    state.lastApplied ≤ max state.commitIndex state.snapshotIndex ∧
    @exec Wire.protobuf trio.peers cluster (.run 2 .start) = some cluster' ∧ cluster'.nodes 2 = .down store' := by
  obtain ⟨cluster, hrun, htest⟩ := @run_of_play Wire.protobuf trio
    (fun _ act => act.Submits (· = ⟨.get, 0, 0, [107], []⟩)) _ typedGet
    (fun cluster => cluster.occurs 1 (Event.refusesApply (· == 1)) && blocked cluster) (by decide +kernel)
  rw [Bool.and_eq_true] at htest
  obtain ⟨hrefused, htest⟩ := htest
  obtain ⟨e, hmem, he⟩ := exists_of_occurs hrefused
  have hfront := @Run.mono Wire.protobuf trio cluster _ (fun _ act => act.Submits FromFrontEnd) hrun
    fun _ _ hact command hcommand => hact command hcommand ▸ typed_get_fromFrontEnd
  unfold blocked at htest
  unfold Event.refusesApply at he
  split at htest
  next node store cluster' hnode hstore hexec =>
    simp only [Bool.and_eq_true, decide_eq_true_eq] at htest
    obtain ⟨⟨hbehind, hload⟩, hdown⟩ := htest
    split at he
    · obtain rfl := beq_iff_eq.mp he
      split at hload
      next state hstate =>
        split at hdown
        next store' hstore' =>
          exact ⟨cluster, node, store, state, cluster', store', hfront, hmem, hnode, hbehind, hstore, hstate,
            of_decide_eq_true hload, hexec, hstore'⟩
        next => cases hdown
      next => cases hload
    · cases he
  next => cases htest

/-- Two requests of one client. -/
def twoPuts : List Proto.ClientRequest := [⟨1, .put, [107], [118], 1⟩, ⟨2, .put, [107], [119], 1⟩]

theorem fromFrontEnd_twoPuts : ∀ command ∈ twoPuts.map (ClientServer.commandOf .put),
    FromFrontEnd command ∧ command.type ≠ .get := by
  have hqueued : ∀ request ∈ twoPuts, .enqueue request ∈ (ClientServer.onPayload request.serialize []).2.2 ∧
      request.operation = .put := by decide +kernel
  intro command hmem
  obtain ⟨request, hrequest, rfl⟩ := List.mem_map.mp hmem
  obtain ⟨henqueued, hoperation⟩ := hqueued request hrequest
  exact ⟨.put request.serialize [] request henqueued hoperation, by simp [ClientServer.commandOf]⟩

/-- Node 1 appends the commands of both requests before it hears of node 2. -/
def pipelined : List Move :=
  [.act (.run 1 .start), .act (.run 2 .start), .act (.run 1 (.connect 2 0)), .act (.run 2 (.accept ⟨1, 2, 0⟩)),
    .act (.run 1 .electionTimeout), .deliver 1, .deliver 2] ++
  twoPuts.map (fun request => .act (.run 1 (.submit ⟨request.requestId.toNat, ClientServer.commandOf .put request⟩))) ++
  [.deliver 3, .deliver 4, .act (.run 1 .heartbeatTimeout), .deliver 5, .deliver 6]

theorem commands_applicable_pipelined : ∃ cluster node,
    @Run Wire.protobuf trio (fun _ act => act.Submits fun command => FromFrontEnd command ∧ command.type ≠ .get) cluster ∧
    cluster.nodes 1 = .running node ∧ node.commitIndex = 2 ∧ node.commitIndex ≤ node.lastApplied ∧
    ∀ n index, (n, .refuseApply index) ∉ cluster.history := by
  obtain ⟨cluster, hrun, htest⟩ := @run_of_play Wire.protobuf trio
    (fun _ act => act.Submits (· ∈ twoPuts.map (ClientServer.commandOf .put))) _ pipelined
    (fun cluster => nothingUndone cluster.history && @apart Wire.protobuf cluster.history &&
      (cluster.nodes 1).runs fun node => node.commitIndex == 2) (by decide +kernel)
  have hfront := @Run.mono Wire.protobuf trio cluster _
    (fun _ act => act.Submits fun command => FromFrontEnd command ∧ command.type ≠ .get) hrun
    fun _ _ hact command hcommand => fromFrontEnd_twoPuts command (hact command hcommand)
  simp only [Bool.and_eq_true] at htest
  obtain ⟨⟨hkept, hapart⟩, hnode⟩ := htest
  obtain ⟨node, hrunning, hnode⟩ := Status.exists_of_runs hnode
  obtain ⟨happlicable, -, -, happlied, -⟩ := @commands_applicable Wire.protobuf trio cluster hfront
    (@unambiguous_of_apart Wire.protobuf _ hapart) (nothingUndone_of_test hkept)
  exact ⟨cluster, node, hfront, hrunning, beq_iff_eq.mp hnode, happlied 1 node hrunning, happlicable⟩

end Cluster

end Nukv
