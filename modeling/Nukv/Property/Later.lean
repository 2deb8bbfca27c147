import Nukv.Property.Consensus

/-!
# What a run never takes back

Two moments of one run. Between them any of the processes may have crashed and come back, and other terms may
have begun. The shadow of the later moment is reached from the shadow of the earlier one by steps of the
protocol, and what such steps keep is read off the two clusters: the log of a leader, the term and the vote of a
process, and the entries it has committed.
-/

namespace Nukv

open Cluster

variable [Protobuf] {config : Config} {timely : Prop} {A : Shadow} {cluster cluster' : Cluster} {n : Int}

namespace Cluster

/-- A run that goes on from a cluster to another. -/
def Later (config : Config) : Cluster → Cluster → Prop :=
  Relation.ReflTransGen fun cluster cluster' => ∃ action, exec config.peers cluster action = some cluster'

theorem Later.reachable (h : Later config cluster cluster') (hrun : Reachable config cluster) :
    Reachable config cluster' := by
  induction h with
  | refl => exact hrun
  | tail _ hexec ih =>
    obtain ⟨action, hexec⟩ := hexec
    exact ih.step trivial hexec

theorem Later.leads (h : Later config cluster cluster') (hrun : Reachable config cluster) :
    World.Leads config False cluster.world cluster'.world := by
  induction h with
  | refl => exact .refl
  | tail hlater hexec ih =>
    obtain ⟨action, hexec⟩ := hexec
    have hreachable := Later.reachable hlater hrun
    exact ih.trans (exec_leads hreachable.reach (fun _ _ => hreachable.calm) False.elim hexec).1

theorem play_later {ok : Cluster → Action → Prop} [∀ cluster action, Decidable (ok cluster action)] {moves : List Move}
    (h : play config.peers ok cluster moves = some cluster') : Later config cluster cluster' := by
  induction moves generalizing cluster with
  | nil =>
    obtain rfl := Option.some.inj h
    exact .refl
  | cons move moves ih =>
    rw [play] at h
    split at h
    · exact absurd h (by simp)
    next action _ =>
      split at h
      · cases hexec : exec config.peers cluster action with
        | none => simp [hexec] at h
        | some next =>
          rw [hexec] at h
          exact (ih h).head ⟨action, hexec⟩
      · exact absurd h (by simp)

/-- Two moments of a run that is written down. -/
theorem later_of_play {moves moves' : List Move} {test : Cluster → Cluster → Bool}
    (h : ((play config.peers (fun _ _ => True) initial moves).any fun cluster =>
      (play config.peers (fun _ _ => True) cluster moves').any (test cluster)) = true) :
    ∃ cluster cluster', Reachable config cluster ∧ Later config cluster cluster' ∧ test cluster cluster' = true := by
  cases hplay : play config.peers (fun _ _ => True) initial moves with
  | none => simp [hplay] at h
  | some cluster =>
    cases hplay' : play config.peers (fun _ _ => True) cluster moves' with
    | none => simp [hplay, hplay'] at h
    | some cluster' =>
      refine ⟨cluster, cluster', play_run .initial hplay, play_later hplay', ?_⟩
      simpa [hplay, hplay'] using h

end Cluster

theorem Tracked.leads {w w' : World} (hA : Tracked config timely w A) (h : World.Leads config timely w w') :
    ∃ A', Tracked config timely w' A' ∧ Raft.Reaches config.setting A A' := by
  induction h with
  | refl => exact ⟨A, hA, .refl⟩
  | tail _ hstep ih =>
    obtain ⟨A₁, hA₁, hreaches⟩ := ih
    obtain ⟨n, event, hstep⟩ := hstep
    obtain ⟨A₂, hsteps, hgrows, hrel, hmicro⟩ := hA₁.related.step hA₁.wired hstep
    exact ⟨A₂, .step hA₁ hstep hsteps hgrows hrel hmicro, hreaches.tail ⟨n, hsteps⟩⟩

/-- Two moments of a run have two shadows, and the protocol leads from the one to the other. -/
theorem Cluster.Later.shadows (h : Later config cluster cluster') (hrun : Reachable config cluster) :
    ∃ A A', Tracked config False cluster.world A ∧ Tracked config False cluster'.world A' ∧
      Raft.Reaches config.setting A A' := by
  obtain ⟨A, hA⟩ := hrun.reach.tracked
  obtain ⟨A', hA', hreaches⟩ := hA.leads (h.leads hrun)
  exact ⟨A, A', hA, hA', hreaches⟩

/-! ### Leaders -/

/-- A leader only appends. Whatever else has happened since a process was leader of a term, when it is leader of
that term its log goes on from what it was then, with entries of that term; it may have lost the beginning to a
snapshot. -/
theorem leader_appendOnly (h : Reachable config cluster) (hlater : Later config cluster cluster') {s s' : RaftNode}
    (hnode : cluster.nodes n = .running s) (hnode' : cluster'.nodes n = .running s') (hrole : s.role = .leader)
    (hrole' : s'.role = .leader) (hterm : s'.currentTerm = s.currentTerm) :
    s.snapshotIndex ≤ s'.snapshotIndex ∧ s.lastIndex ≤ s'.lastIndex ∧
      (∀ i entry, s'.snapshotIndex < i → s.entryAt i = .ok entry → s'.entryAt i = .ok entry) ∧
      ∀ i entry, s.lastIndex < i → s'.entryAt i = .ok entry → entry.term = s.currentTerm := by
  obtain ⟨A, A', hA, hA', hreaches⟩ := hlater.shadows h
  have hsim := hA.related.active n _ (congrArg Status.view hnode)
  have hsim' := hA'.related.active n _ (congrArg Status.view hnode')
  obtain ⟨hleads, htlog, -⟩ := hsim.roles.leader hrole
  obtain ⟨-, htlog', -⟩ := hsim'.roles.leader hrole'
  obtain ⟨R, hR, hown⟩ := hreaches.leader_appends hA.inv hleads
  have hlog : A'.log n = A.log n ++ R := by
    rw [← htlog', ← htlog]
    exact (congrArg A'.tlog hterm).trans hR
  have hshows := hA.shows hnode
  have hshows' := hA'.shows hnode'
  have hbase : s.snapshotIndex ≤ s'.snapshotIndex := by
    have hle := (hreaches.extends hA.inv).base n
    rwa [hsim.memory.depicts.base, hsim'.memory.depicts.base] at hle
  refine ⟨hbase, ?_, ?_, ?_⟩
  · rw [hshows.lastIndex, hshows'.lastIndex, hlog, List.length_append]
    exact Nat.le_add_right _ _
  · rintro (_ | i) entry hi hentry
    · exact absurd hi (Nat.not_lt_zero _)
    · have hget := (hshows.entryAt.mp hentry).2
      refine hshows'.entryAt.mpr ⟨Nat.le_of_lt_succ hi, ?_⟩
      rw [hlog, List.getElem?_append_left (Raft.length_lt_of_getElem? hget), hget]
  · rintro (_ | i) entry hi hentry
    · exact absurd hi (Nat.not_lt_zero _)
    · have hget := (hshows'.entryAt.mp hentry).2
      rw [hshows.lastIndex] at hi
      rw [hlog, List.getElem?_append_right (Nat.le_of_lt_succ hi)] at hget
      exact hown entry (List.mem_of_getElem? hget)

omit [Protobuf] in
theorem leader_appendOnly_handover : ∃ cluster cluster' s s', @Reachable Wire.protobuf trio cluster ∧
    @Later Wire.protobuf trio cluster cluster' ∧ cluster.nodes 1 = .running s ∧ cluster'.nodes 1 = .running s' ∧
    s.lastIndex = 0 ∧ s'.lastIndex = 1 ∧ ∀ entry, s'.entryAt 1 = .ok entry → entry.term = s.currentTerm := by
  obtain ⟨cluster, cluster', hrun, hlater, htest⟩ := @later_of_play Wire.protobuf trio (handover.take 9) (handover.drop 9)
    (fun c c' => (c.nodes 1).runs (fun s => s.role == .leader && s.currentTerm == 1 && s.lastIndex == 0) &&
      (c'.nodes 1).runs (fun s => s.role == .leader && s.currentTerm == 1 && s.lastIndex == 1)) (by decide +kernel)
  obtain ⟨hbefore, hafter⟩ := Bool.and_eq_true_iff.mp htest
  obtain ⟨s, hs, hbefore⟩ := Status.exists_of_runs hbefore
  obtain ⟨s', hs', hafter⟩ := Status.exists_of_runs hafter
  obtain ⟨⟨hrole, hterm⟩, hlast⟩ : (s.role = .leader ∧ s.currentTerm = 1) ∧ s.lastIndex = 0 := by simpa using hbefore
  obtain ⟨⟨hrole', hterm'⟩, hlast'⟩ : (s'.role = .leader ∧ s'.currentTerm = 1) ∧ s'.lastIndex = 1 := by
    simpa using hafter
  obtain ⟨-, -, -, hown⟩ := @leader_appendOnly Wire.protobuf trio cluster cluster' 1 hrun hlater s s' hs hs' hrole hrole'
    (hterm'.trans hterm.symm)
  exact ⟨cluster, cluster', s, s', hrun, hlater, hs, hs', hlast, hlast', fun entry =>
    hown 1 entry (by rw [hlast]; decide)⟩

/-! ### Processes -/

/-- What a process has in its memory, or would read from its store. -/
def Status.state : Status → Except Exn PersistedRaftState
  | .running node => .ok node.toLogState.state
  | .down store => RaftStorage.load store

def Status.holds (status : Status) (test : PersistedRaftState → Bool) : Bool :=
  status.state.toOption.any test

theorem Status.exists_of_holds {status : Status} {test : PersistedRaftState → Bool} (h : status.holds test = true) :
    ∃ state, status.state = .ok state ∧ test state = true := by
  unfold Status.holds at h
  cases hstate : status.state with
  | error e => simp [hstate, Except.toOption] at h
  | ok state =>
    rw [hstate] at h
    exact ⟨state, rfl, h⟩

theorem Tracked.depicts (hA : Tracked config timely cluster.world A) {state : PersistedRaftState}
    (h : (cluster.nodes n).state = .ok state) : Depicts config A n state := by
  cases hnode : cluster.nodes n with
  | running node =>
    rw [hnode] at h
    obtain rfl := Except.ok.inj h
    exact (hA.related.active n _ (congrArg Status.view hnode)).memory.depicts
  | down store =>
    rw [hnode] at h
    obtain ⟨held, hholds, hdepicts⟩ := hA.related.down n store (congrArg Status.view hnode)
    obtain ⟨rfl, -⟩ := hholds.load_eq_ok.mp h
    exact hdepicts

/-- A process never goes back to an earlier term or snapshot, and in one term it does not change its vote, also
when it crashes in between. -/
theorem promises_kept (h : Reachable config cluster) (hlater : Later config cluster cluster')
    {state state' : PersistedRaftState} (hstate : (cluster.nodes n).state = .ok state)
    (hstate' : (cluster'.nodes n).state = .ok state') :
    state.currentTerm ≤ state'.currentTerm ∧ state.snapshotIndex ≤ state'.snapshotIndex ∧
      (state'.currentTerm = state.currentTerm → state.votedFor ≠ -1 → state'.votedFor = state.votedFor) := by
  obtain ⟨A, A', hA, hA', hreaches⟩ := hlater.shadows h
  have hext := hreaches.extends hA.inv
  have hd := hA.depicts hstate
  have hd' := hA'.depicts hstate'
  refine ⟨?_, ?_, fun hterm hvote => ?_⟩
  · rw [← hd.term, ← hd'.term]
    exact hext.term n
  · rw [← hd.base, ← hd'.base]
    exact hext.base n
  · have hvoted := hext.voted _ _ _ (hd.voted hvote)
    rw [← hterm] at hvoted
    have hvote' : state'.votedFor ≠ -1 := fun hnone => hd'.unvoted hnone _ hvoted
    exact hA'.inv.voted_unique _ _ _ _ (hd'.voted hvote') hvoted

omit [Protobuf] in
theorem promises_kept_handover : ∃ cluster cluster' state state', @Reachable Wire.protobuf trio cluster ∧
    @Later Wire.protobuf trio cluster cluster' ∧ @Status.state Wire.protobuf (cluster.nodes 3) = .ok state ∧
    @Status.state Wire.protobuf (cluster'.nodes 3) = .ok state' ∧ state.votedFor = 2 ∧ state'.votedFor = 2 := by
  -- node 3 has voted for node 2 and is killed
  obtain ⟨cluster, cluster', hrun, hlater, htest⟩ := @later_of_play Wire.protobuf trio handover [.act (.kill 3)]
    (fun c c' => @Status.holds Wire.protobuf (c.nodes 3) (fun s => s.currentTerm == 2 && s.votedFor == 2) &&
      @Status.holds Wire.protobuf (c'.nodes 3) (fun s => s.currentTerm == 2)) (by decide +kernel)
  obtain ⟨hbefore, hafter⟩ := Bool.and_eq_true_iff.mp htest
  obtain ⟨state, hstate, hbefore⟩ := @Status.exists_of_holds Wire.protobuf _ _ hbefore
  obtain ⟨state', hstate', hafter⟩ := @Status.exists_of_holds Wire.protobuf _ _ hafter
  obtain ⟨hterm, hvote⟩ : state.currentTerm = 2 ∧ state.votedFor = 2 := by simpa using hbefore
  have hterm' : state'.currentTerm = 2 := by simpa using hafter
  obtain ⟨-, -, hkept⟩ := @promises_kept Wire.protobuf trio cluster cluster' 3 hrun hlater state state' hstate hstate'
  exact ⟨cluster, cluster', state, state', hrun, hlater, hstate, hstate', hvote,
    (hkept (hterm'.trans hterm.symm) (by rw [hvote]; decide)).trans hvote⟩

/-- What a process has once held as committed or as applied it never loses: the entry stays in its log, in memory
and over crashes, until it is in the snapshot. -/
theorem committed_kept (h : Reachable config cluster) (hlater : Later config cluster cluster')
    {state state' : PersistedRaftState} (hstate : (cluster.nodes n).state = .ok state)
    (hstate' : (cluster'.nodes n).state = .ok state') {k : Nat} {entry : RaftLogEntry}
    (hentry : state.log[k]? = some entry)
    (hcommitted : state.snapshotIndex + k + 1 ≤ max state.commitIndex state.lastApplied) :
    state.snapshotIndex + k + 1 ≤ state'.snapshotIndex ∨
      state'.log[state.snapshotIndex + k - state'.snapshotIndex]? = some entry := by
  obtain ⟨A, A', hA, hA', hreaches⟩ := hlater.shadows h
  have hd := hA.depicts hstate
  have hd' := hA'.depicts hstate'
  have hkept := ((hd.commitIndex.max hd.lastApplied).take_reaches hreaches hA.inv).2
  rw [hd.log, List.getElem?_drop] at hentry
  rcases Nat.lt_or_ge (state.snapshotIndex + k) state'.snapshotIndex with hlt | hge
  · exact .inl hlt
  · refine .inr ?_
    rw [hd'.log, List.getElem?_drop, Nat.add_sub_cancel' hge, Raft.getElem?_eq_of_take_eq hcommitted hkept]
    exact hentry

omit [Protobuf] in
theorem committed_kept_handover : ∃ cluster cluster' state state' entry, @Reachable Wire.protobuf trio cluster ∧
    @Later Wire.protobuf trio cluster cluster' ∧ @Status.state Wire.protobuf (cluster.nodes 2) = .ok state ∧
    @Status.state Wire.protobuf (cluster'.nodes 2) = .ok state' ∧ state.log[0]? = some entry ∧
    (1 ≤ state'.snapshotIndex ∨ state'.log[0 - state'.snapshotIndex]? = some entry) := by
  -- node 2 has applied the entry when it becomes a candidate, is elected and dies
  obtain ⟨cluster, cluster', hrun, hlater, htest⟩ := @later_of_play Wire.protobuf trio (handover.take 14)
    (handover.drop 14 ++ [.act (.kill 2)])
    (fun c c' => @Status.holds Wire.protobuf (c.nodes 2) (fun s => s.snapshotIndex == 0 && s.commitIndex == 1 &&
      s.log[0]?.isSome) && @Status.holds Wire.protobuf (c'.nodes 2) (fun _ => true)) (by decide +kernel)
  obtain ⟨hbefore, hafter⟩ := Bool.and_eq_true_iff.mp htest
  obtain ⟨state, hstate, hbefore⟩ := @Status.exists_of_holds Wire.protobuf _ _ hbefore
  obtain ⟨state', hstate', -⟩ := @Status.exists_of_holds Wire.protobuf _ _ hafter
  obtain ⟨hmarks, hsome⟩ := Bool.and_eq_true_iff.mp hbefore
  obtain ⟨hsnapshot, hcommit⟩ : state.snapshotIndex = 0 ∧ state.commitIndex = 1 := by simpa using hmarks
  obtain ⟨entry, hentry⟩ := Option.isSome_iff_exists.mp hsome
  have hkept := @committed_kept Wire.protobuf trio cluster cluster' 2 hrun hlater state state' hstate hstate' 0 entry
    hentry (by rw [hsnapshot, hcommit]; exact le_max_left _ _)
  rw [hsnapshot] at hkept
  exact ⟨cluster, cluster', state, state', entry, hrun, hlater, hstate, hstate', hentry, hkept⟩

/-! ### Votes -/

/-- The process has given its vote of a term: in an answer to the candidate, or as a candidate by asking for
votes. -/
def GivesVote (history : List (Int × Event)) (n : Int) (term : Nat) (candidate : Int) : Prop :=
  ∃ p ∈ packets history, p.sender = n ∧
    ((∃ r, p.rpc.payload = .requestVoteResponse r ∧ r.voteGranted = true ∧ r.term = term ∧
        p.connection.otherEnd n = candidate) ∨
      ∃ r, p.rpc.payload = .requestVote r ∧ r.term = term ∧ n = candidate)

theorem Tracked.givesVote {w : World} (hA : Tracked config timely w A) {term : Nat} {candidate : Int}
    (h : GivesVote w.history n term candidate) : A.voted n term candidate := by
  obtain ⟨p, hp, rfl, hvote⟩ := h
  have hmeans := (hA.related.frames p hp).means
  rcases hvote with ⟨r, hr, hgranted, rfl, rfl⟩ | ⟨r, hr, rfl, rfl⟩
  · rw [hr] at hmeans
    exact hmeans hgranted
  · rw [hr] at hmeans
    obtain ⟨-, L, hstood, -⟩ := hmeans
    exact hA.inv.stood_voted _ _ _ hstood

/-- In one term a process gives its vote to one candidate, over all its crashes. -/
theorem vote_once (h : Reachable config cluster) {term : Nat} {candidate candidate' : Int}
    (hvote : GivesVote cluster.history n term candidate) (hvote' : GivesVote cluster.history n term candidate') :
    candidate = candidate' := by
  obtain ⟨A, hA⟩ := h.reach.tracked
  exact hA.inv.voted_unique _ _ _ _ (hA.givesVote hvote) (hA.givesVote hvote')

/-- Whether a frame asks for votes in a term. -/
def Proto.Payload.asksVotes (term : Nat) : Proto.Payload → Bool
  | .requestVote request => request.term == term
  | _ => false

omit [Protobuf] in
theorem Proto.Payload.eq_of_asksVotes {term : Nat} {payload : Proto.Payload} (h : payload.asksVotes term = true) :
    ∃ request, payload = .requestVote request ∧ request.term = term := by
  cases payload with
  | requestVote request => exact ⟨request, rfl, by simpa [asksVotes] using h⟩
  | _ => cases h

omit [Protobuf] in
theorem vote_once_handover : ∃ cluster, @Reachable Wire.protobuf trio cluster ∧ GivesVote cluster.history 2 2 2 ∧
    ∀ candidate, GivesVote cluster.history 2 2 candidate → 2 = candidate := by
  obtain ⟨cluster, hrun, htest⟩ := @run_of_play Wire.protobuf trio (fun _ _ => True) _ handover
    (fun c => c.occurs 2 (Event.transmits fun _ rpc _ => rpc.payload.asksVotes 2)) (by decide +kernel)
  obtain ⟨event, hmem, hevent⟩ := exists_of_occurs htest
  obtain ⟨connection, rpc, s, rfl, hasks⟩ := Event.exists_of_transmits hevent
  obtain ⟨request, hpayload, hterm⟩ := Proto.Payload.eq_of_asksVotes hasks
  have hvote : GivesVote cluster.history 2 2 2 :=
    ⟨⟨connection, 2, rpc⟩, World.mem_packets.mpr ⟨s, hmem⟩, rfl, .inr ⟨request, hpayload, hterm, rfl⟩⟩
  exact ⟨cluster, hrun, hvote, fun candidate hother =>
    @vote_once Wire.protobuf trio cluster 2 hrun 2 2 candidate hvote hother⟩

end Nukv
