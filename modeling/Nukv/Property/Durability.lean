import Nukv.Proof.Durable
import Nukv.Property.Consensus

/-!
# What a node says and knows is in its store

A node writes before it speaks: whatever a frame claims about the node, its store has when the frame is sent. So a
process that dies right after a frame comes back with a state that does not contradict it. And between two functions
of its loop the store has all that the node remembers: `Load` would return it.
-/

namespace Nukv

open Base

variable [Protobuf] {config : Config} {n : Int} {past : List Moment} {l l' : Local} {action : LoopAction}
  {event : Option Event}

/-! ### Candidates -/

/-- A candidate has voted for itself. -/
def RaftNode.VotedForItself (node : RaftNode) : Prop := node.role = .candidate → node.votedFor = node.serverId

theorem RaftNode.VotedForItself.step (h : l.node.VotedForItself) (hplaced : l.node.Placed config n) (hstep : Micro action l event l') :
    l'.node.VotedForItself := by
  rcases hstep with hstep | hstep | hstep | hstep | hstep | hstep | hstep | hstep | hstep
  case role =>
    cases hstep with
    | adoptTerm => exact fun hrole => absurd (show Role.follower = .candidate from hrole) (by simp)
    | demote => exact fun hrole => absurd (show Role.follower = .candidate from hrole) (by simp)
    | campaign => exact fun _ => rfl
    | grant connection rpc request s _ _ hgrants =>
      intro hrole
      rw [(l.node.voteSaved_kept _).2.1] at hrole
      have hvoted := h hrole
      -- a candidate has a vote, so the vote it grants is the one it has given already
      simp only [NodeM.grantsVote, Bool.and_eq_true, Bool.or_eq_true, beq_iff_eq] at hgrants
      have hserver : l.node.serverId ≠ -1 := by
        have hpositive := config.positive n hplaced.member
        rw [hplaced.serverId]
        omega
      rcases hgrants.1.2 with hnone | hsame
      · exact absurd (hvoted.symm.trans hnone) hserver
      · exact hsame.symm.trans hvoted
    | countVote => exact h
    | elect => exact fun hrole => absurd (show Role.leader = .candidate from hrole) (by simp)
  all_goals cases hstep <;> exact h

theorem Life.votedForItself {admits : LoopAction → Prop} (h : Life config n admits (.active l) past) : l.node.VotedForItself := by
  refine h.each (P := fun _ l => l.node.VotedForItself) ?_ ?_ ?_
  · intro past store state _ _ _ hrole
    exact absurd (show Role.follower = .candidate from hrole) (by simp)
  · intro past l action _ _ _ ih
    obtain ⟨hidentity, hlog, helection, -⟩ := entered_kept n action l.node
    intro hrole
    rw [congrArg ElectionState.role helection] at hrole
    rw [congrArg LogState.votedFor hlog, congrArg Identity.serverId hidentity]
    exact ih hrole
  · exact fun past l l' action event hlife _ _ hstep ih => ih.step hlife.active_placed hstep

/-! ### Frames -/

/-- The store has every index up to `last`, in its snapshot or as an entry. -/
def RocksKVStore.Covers (store : RocksKVStore) (last : Nat) : Prop :=
  ∃ index term data, HoldsSnapshot store index term data ∧
    ∀ i, index < i → i ≤ last → ∃ term command,
      store.get (logKey i) = some (Protobuf.logEntry.serialize ⟨i, term, command⟩)

/-- The store has what the frame claims. An answer is looked at together with the request it answers, which is the
frame that the node is handling. -/
def Justified (past : List Moment) (connection : Conn) (store : RocksKVStore) : Proto.Payload → Prop
  | .unspecified | .identify => True
  | .requestVote request =>
    ReadsNat store currentTermKey request.term ∧ ReadsInt store votedForKey (toInt64 request.candidateId)
  | .requestVoteResponse response =>
    ReadsNat store currentTermKey response.term ∧
      ∃ rpc request, Calling past (.receive connection rpc) ∧ rpc.payload = .requestVote request ∧
        (response.voteGranted = true →
          request.term = response.term ∧ ReadsInt store votedForKey (toInt64 request.candidateId))
  | .appendEntries request =>
    ReadsNat store currentTermKey request.term ∧
      ∀ entry ∈ request.entries, store.get (logKey entry.index) = some (Protobuf.logEntry.serialize entry)
  | .appendEntriesResponse response =>
    ReadsNat store currentTermKey response.term ∧ (response.success = true → store.Covers response.matchIndex)
  | .installSnapshot request =>
    ReadsNat store currentTermKey request.term ∧
      ∃ data, HoldsSnapshot store request.lastIncludedIndex request.lastIncludedTerm data
  | .installSnapshotResponse response =>
    ReadsNat store currentTermKey response.term ∧
      ∃ rpc request, Calling past (.receive connection rpc) ∧ rpc.payload = .installSnapshot request ∧
        (response.success = true → request.done = true →
          ∃ index term data, HoldsSnapshot store index term data ∧ request.lastIncludedIndex ≤ index)
  | .readIndex request => ReadsNat store currentTermKey request.term
  | .readIndexResponse response => ReadsNat store currentTermKey response.term

section Stored

variable {d : LogState} {c a : Nat} {data : Bytes}

theorem LogState.Stores.entry (h : d.Stores c a data) {k : Nat} {entry : RaftLogEntry} (hentry : d.log[k]? = some entry) :
    d.store.get (logKey (d.snapshotIndex + (k + 1))) =
      some (Protobuf.logEntry.serialize ⟨d.snapshotIndex + (k + 1), entry.term, entry.command⟩) := by
  rw [h.log, record_offset, hentry]
  rfl

theorem LogState.Stores.covers {node : RaftNode} (h : node.toLogState.Stores c a data) {last : Nat}
    (hlast : last ≤ node.lastIndex) : node.store.Covers last := by
  refine ⟨node.snapshotIndex, node.snapshotTerm, data, h.snapshot, fun i hlow hhigh => ?_⟩
  have hbound : i - node.snapshotIndex - 1 < node.log.length := by
    unfold RaftNode.lastIndex at hlast
    omega
  have hentry := h.entry (List.getElem?_eq_getElem hbound)
  rw [show node.snapshotIndex + (i - node.snapshotIndex - 1 + 1) = i by omega] at hentry
  exact ⟨_, _, hentry⟩

/-- The entries that an AppendEntries request carries are stored. -/
theorem LogState.Stores.appendRequest {node : RaftNode} (h : node.toLogState.Stores c a data) {peer : Int}
    (hnext : node.snapshotIndex < node.nextIndexOf peer) :
    ∀ entry ∈ (NodeM.appendRequest node peer).entries,
      node.store.get (logKey entry.index) = some (Protobuf.logEntry.serialize entry) := by
  intro entry hentry
  simp only [NodeM.appendRequest, List.mem_mapIdx] at hentry
  obtain ⟨k, hk, rfl⟩ := hentry
  have hfirst : node.snapshotIndex < max 1 (min (node.nextIndexOf peer) (node.lastIndex + 1)) := by
    unfold RaftNode.lastIndex
    omega
  generalize max 1 (min (node.nextIndexOf peer) (node.lastIndex + 1)) = first at hk hfirst ⊢
  have hlog : node.log[first - node.snapshotIndex - 1 + k]? =
      some ((node.log.drop (first - node.snapshotIndex - 1)).take kMaxEntriesPerRpc)[k] := by
    rw [List.getElem_take, List.getElem_drop, List.getElem?_eq_getElem]
  have hstored := h.entry hlog
  rw [show node.snapshotIndex + (first - node.snapshotIndex - 1 + k + 1) = first + k by omega] at hstored
  exact hstored

end Stored

theorem Micro.justified {c a : Nat} {data : Bytes} {connection : Conn} {rpc : Proto.RaftRpc} {s : RaftNode}
    (hplaced : l.node.Placed config n) (hvote : l.node.VotedForItself) (hstores : l.node.toLogState.Stores c a data)
    (hcalling : Calling past action) (hstep : Micro action l (some (.send connection rpc s)) l') :
    Justified past connection s.store rpc.payload := by
  have hstore : ∀ {t : RaftNode}, t.toLogState = l.node.toLogState → t.store = l.node.store := congrArg LogState.store
  rcases hstep with hstep | hstep | hstep | hstep | hstep | hstep | hstep | hstep | hstep
  case send =>
    cases hstep with
    | requestVote peer _ _ hrole _ _ hs =>
      rw [hstore hs]
      refine ⟨hstores.currentTerm, ?_⟩
      have hself : toInt64 (toUint64 l.node.serverId) = l.node.votedFor := by
        rw [hvote hrole, hplaced.serverId]
        exact toInt64_toUint64 (by have := config.positive n hplaced.member; omega) (config.int32 n hplaced.member)
      change ReadsInt _ _ (toInt64 (toUint64 l.node.serverId))
      rw [hself]
      exact hstores.votedFor
    | identify => trivial
    | readIndex _ _ _ _ _ _ _ _ _ _ _ _ hs =>
      rw [hstore hs]
      exact hstores.currentTerm
    | voteResponse _ rpc₀ request granted _ _ _ haction hpayload hgranted _ _ hs =>
      rw [hstore hs]
      refine ⟨hstores.currentTerm, rpc₀, request, haction ▸ hcalling, hpayload, fun htrue => ?_⟩
      obtain ⟨hterm, hvoted⟩ := hgranted htrue
      exact ⟨hterm, hvoted ▸ hstores.votedFor⟩
    | appendResponse _ rpc₀ request success m _ _ _ _ _ haccepts _ _ _ hs =>
      rw [hstore hs]
      exact ⟨hstores.currentTerm, fun htrue => hstores.covers (haccepts htrue).2.2.2.1⟩
    | snapshotResponse _ rpc₀ request success _ _ _ _ haction hpayload hreceives _ _ hs =>
      rw [hstore hs]
      refine ⟨hstores.currentTerm, rpc₀, request, haction ▸ hcalling, hpayload, fun htrue hdone => ?_⟩
      rcases (hreceives htrue).2 with hle | ⟨hmore, -⟩
      · exact ⟨_, _, _, hstores.snapshot, hle⟩
      · exact absurd (hdone.symm.trans hmore) (by simp)
    | readResponse _ _ _ _ _ _ _ _ _ _ _ _ hs =>
      rw [hstore hs]
      exact hstores.currentTerm
  case peer =>
    cases hstep with
    | sendAppend peer _ _ _ _ _ _ hnext hs =>
      rw [hstore hs]
      exact ⟨hstores.currentTerm, hstores.appendRequest hnext⟩
    | sendSnapshot _ _ request _ _ _ _ _ _ _ hchunk hs =>
      obtain ⟨offset, -, rfl⟩ := hchunk
      rw [hstore hs]
      exact ⟨hstores.currentTerm, data, hstores.snapshot⟩
    | resumeSnapshot _ _ _ request _ _ _ _ _ _ _ _ _ _ _ hchunk hs =>
      obtain ⟨offset, -, rfl⟩ := hchunk
      rw [hstore hs]
      exact ⟨hstores.currentTerm, data, hstores.snapshot⟩
  all_goals cases hstep

/-- Whatever a node hands to `SendRpc`, its store justifies it at that moment. -/
theorem persistBeforeSend {process : Process} (h : Process.Run config n Ordered process) :
    ∀ before connection rpc s after, process.past = before ++ .effect (.send connection rpc s) :: after →
      Justified before connection s.store rpc.payload := by
  have hall : ∀ before e after, process.past = before ++ .effect e :: after →
      ∀ connection rpc s, e = .send connection rpc s → Justified before connection s.store rpc.payload := by
    refine h.life.1.effects (fun _ _ _ _ _ _ _ _ hsend => nomatch hsend) ?_
    rintro past l l' action _ hlife hcalling - hstep connection rpc s rfl
    obtain ⟨c, a, data, hstores, -⟩ := hlife.durable (fun _ => id)
    exact hstep.justified hlife.active_placed hlife.votedForItself hstores hcalling
  exact fun before connection rpc s after hpast => hall before _ after hpast connection rpc s rfl

/-- Node 1 takes an entry from node 2, the leader of term 1, and acknowledges it. -/
def following : List Process.Act :=
  [.run .start, .run (.connect 2 0), .run (.receive ⟨1, 2, 0⟩ ⟨1, 2, .appendEntries ⟨1, 2, 0, 0, [⟨1, 1, [0]⟩], 0⟩⟩)]

omit [Protobuf] in
theorem persistBeforeSend_following : ∃ process before id s after, @Process.Run Wire.protobuf trio 1 Ordered process ∧
    process.past = before ++ .effect (.send ⟨1, 2, 0⟩ ⟨id, 1, .appendEntriesResponse ⟨1, true, 1, 1⟩⟩ s) :: after ∧
    ReadsNat s.store currentTermKey 1 ∧ @RocksKVStore.Covers Wire.protobuf s.store 1 := by
  obtain ⟨process, hrun, htest⟩ := @Process.run_of_play Wire.protobuf trio 1 Ordered following
    (fun process => process.past.any (Moment.causes (Event.transmits fun connection rpc _ =>
      connection == ⟨1, 2, 0⟩ && rpc.senderId == 1 && rpc.payload == .appendEntriesResponse ⟨1, true, 1, 1⟩)))
    (by decide +kernel) (by decide +kernel)
  obtain ⟨event, hmem, hevent⟩ := exists_of_causes htest
  obtain ⟨connection, ⟨id, sender, payload⟩, s, rfl, hsent⟩ := Event.exists_of_transmits hevent
  simp only [Bool.and_eq_true, beq_iff_eq] at hsent
  obtain ⟨⟨rfl, rfl⟩, rfl⟩ := hsent
  obtain ⟨before, after, hpast⟩ := List.append_of_mem hmem
  obtain ⟨hterm, hcovers⟩ := @persistBeforeSend Wire.protobuf trio 1 process hrun before _ _ s after hpast
  exact ⟨process, before, id, s, after, hrun, hpast, hterm, hcovers rfl⟩

/-! ### Memory -/

/-- Between two functions the store has the whole memory, if the snapshots that were installed were made by
`SerializeSnapshotState` and no application was refused. -/
theorem Life.holds {node : RaftNode} (h : Life config n Ordered (.active (Local.rest node)) past)
    (hcanonical : ∀ e, .effect e ∈ past → e.InstallsCanonical)
    (happlicable : ∀ index, .effect (.refuseApply index) ∉ past) : Holds node.store node.toLogState.state := by
  obtain ⟨c, a, data, hstores, hdata⟩ := h.durable fun _ => id
  obtain rfl : data = node.snapshotData := hdata hcanonical
  rcases (h.counting (fun _ => id) happlicable).counted with hcounted | ⟨hfalse, -⟩
  · exact ⟨hstores.faults, hstores.currentTerm, hstores.votedFor, .inl hcounted.1, .inl hcounted.2, hstores.snapshot,
      hstores.log, hstores.keys⟩
  · exact absurd (show false = true from hfalse) (by simp)

end Nukv
