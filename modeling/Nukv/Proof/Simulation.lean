import Mathlib.Data.Finset.Lattice.Basic
import Nukv.Raft.Run
import Nukv.Proof.Wiring

/-!
# The protocol state behind a cluster

Every reachable world stands for a state of the abstract protocol, its shadow. This module says what a node,
a store and a frame have to do with the shadow. A node's log is what is left of its log in the shadow behind
the snapshot; commit indexes are agreed; a leader has the log of its term; and a leader's `next_index_` comes
with the knowledge about the peer's log that `Raft.Probed` expresses.
-/

namespace Nukv

/-- The state of the abstract protocol. -/
abbrev Shadow := Raft.State Int RaftLogEntry

namespace Config

variable (config : Config)

/-- More than half of the peers are in the set. -/
def Quorum (Q : Set Int) : Prop :=
  ∃ F : Finset Int, (∀ p ∈ F, p ∈ config.peers ∧ p ∈ Q) ∧ config.peers.length / 2 < F.card

variable {config}

theorem Quorum.meet {Q Q' : Set Int} (h : config.Quorum Q) (h' : config.Quorum Q') : ∃ p, p ∈ Q ∧ p ∈ Q' := by
  obtain ⟨F, hF, hcard⟩ := h
  obtain ⟨F', hF', hcard'⟩ := h'
  have hsub : F ∪ F' ⊆ config.peers.toFinset := by
    intro p hp
    rw [List.mem_toFinset]
    rcases Finset.mem_union.mp hp with hp | hp
    · exact (hF p hp).1
    · exact (hF' p hp).1
  have hunion : (F ∪ F').card ≤ config.peers.length :=
    (Finset.card_le_card hsub).trans (List.toFinset_card_le _)
  have hsum := Finset.card_union_add_card_inter F F'
  obtain ⟨p, hp⟩ : (F ∩ F').Nonempty := by
    rw [← Finset.card_pos]
    omega
  exact ⟨p, (hF p (Finset.mem_of_mem_inter_left hp)).2, (hF' p (Finset.mem_of_mem_inter_right hp)).2⟩

theorem Quorum.mono {Q Q' : Set Int} (h : config.Quorum Q) (hsub : ∀ p ∈ Q, p ∈ Q') : config.Quorum Q' := by
  obtain ⟨F, hF, hcard⟩ := h
  exact ⟨F, fun p hp => ⟨(hF p hp).1, hsub p (hF p hp).2⟩, hcard⟩

/-- The peers that `match_index_` counts, and the leader itself, are a quorum if `match_index_` has no other keys. -/
theorem quorum_replicated {node : RaftNode} {n : Int} {index : Nat} (hpeers : node.peers = config.peers)
    (hmember : n ∈ config.peers) (hkeys : ∀ p m, node.matchIndex.lookup p = some m → p ∈ config.peers ∧ p ≠ n)
    (hcount : node.peers.length / 2 < NodeM.replicated node index) :
    config.Quorum {p | p = n ∨ ∃ m, node.matchIndex.lookup p = some m ∧ index ≤ m} := by
  let reached := (node.matchIndex.entries.filter fun entry => index ≤ entry.2).map Sigma.fst
  have hreached : ∀ p ∈ reached, (p ∈ config.peers ∧ p ≠ n) ∧ ∃ m, node.matchIndex.lookup p = some m ∧ index ≤ m := by
    intro p hp
    obtain ⟨⟨p, m⟩, hentry, rfl⟩ := List.mem_map.mp hp
    obtain ⟨hentry, hle⟩ := List.mem_filter.mp hentry
    rw [decide_eq_true_eq] at hle
    have hlookup : node.matchIndex.lookup p = some m := AList.mem_lookup_iff.mpr hentry
    exact ⟨hkeys p m hlookup, m, hlookup, hle⟩
  have hnodup : reached.Nodup := node.matchIndex.nodupKeys.sublist List.filter_sublist
  have hself : n ∉ reached.toFinset := fun hn => (hreached n (List.mem_toFinset.mp hn)).1.2 rfl
  refine ⟨insert n reached.toFinset, fun p hp => ?_, ?_⟩
  · rcases Finset.mem_insert.mp hp with rfl | hp
    · exact ⟨hmember, .inl rfl⟩
    · obtain ⟨⟨hpeer, -⟩, hm⟩ := hreached p (List.mem_toFinset.mp hp)
      exact ⟨hpeer, .inr hm⟩
  · rw [Finset.card_insert_of_notMem hself, List.toFinset_card_of_nodup hnodup, List.length_map,
      ← List.countP_eq_length_filter, ← hpeers, Nat.add_comm]
    exact hcount

/-- The protocol that the peers run. -/
def setting (config : Config) : Raft.Setting Int RaftLogEntry where
  termOf := RaftLogEntry.term
  Quorum := config.Quorum
  meet _ _ h h' := h.meet h'

end Config

/-! ### Stores and memories -/

/-- The part of the memory that a store can hold. -/
def LogState.state (d : LogState) : PersistedRaftState :=
  ⟨d.currentTerm, d.votedFor, d.commitIndex, d.lastApplied, d.snapshotIndex, d.snapshotTerm, d.snapshotData, d.log⟩

/-- What a node has to show for its role. -/
structure Standing where
  role : Role
  currentTerm : Nat
  snapshotTerm : Nat
  snapshotIndex : Nat
  commitIndex : Nat
  grantedVotes : Finset Int
  matchIndex : AList fun _ : Int => Nat

def RaftNode.standing (node : RaftNode) : Standing :=
  ⟨node.role, node.currentTerm, node.snapshotTerm, node.snapshotIndex, node.commitIndex, node.grantedVotes,
    node.matchIndex⟩

/-- What a node keeps about a peer. -/
structure Toward where
  currentTerm : Nat
  lastIndex : Nat
  snapshotIndex : Nat
  nextIndex : Nat
  requestId : Nat
  inflight : Bool
  connection : Option Conn
  connected : List Conn
  waiting : List Int

def Local.toward (l : Local) (p : Int) : Toward :=
  ⟨l.node.currentTerm, l.node.lastIndex, l.node.snapshotIndex, l.node.nextIndexOf p, l.node.rpcRequestId p,
    l.node.rpcInflight p, l.node.connectionForPeer p, l.node.connected, l.waiting⟩

section Sim

variable [Protobuf] (config : Config) (A : Shadow)

/-- What is kept for a node is what the shadow has for it. -/
structure Depicts (n : Int) (state : PersistedRaftState) : Prop where
  term : A.term n = state.currentTerm
  unvoted : state.votedFor = -1 → ∀ c, ¬ A.voted n state.currentTerm c
  voted : state.votedFor ≠ -1 → A.voted n state.currentTerm state.votedFor
  base : A.base n = state.snapshotIndex
  log : state.log = (A.log n).drop state.snapshotIndex
  snapshotTerm : state.snapshotTerm = Raft.lastTerm RaftLogEntry.term ((A.log n).take state.snapshotIndex)
  snapshotIndex : Raft.Agreed config.setting A (A.term n) state.snapshotIndex (A.log n)
  commitIndex : Raft.Agreed config.setting A (A.term n) state.commitIndex (A.log n)
  lastApplied : Raft.Agreed config.setting A (A.term n) state.lastApplied (A.log n)

/-- What is left of a process that is down. -/
def Stored (n : Int) (store : RocksKVStore) : Prop :=
  ∃ state, Holds store state ∧ Depicts config A n state

/-- The memory of a process and its store. The stored indexes may be behind. -/
structure Memory (n : Int) (d : LogState) : Prop where
  depicts : Depicts config A n d.state
  stored : ∃ c a data,
    Holds d.store { d.state with commitIndex := c, lastApplied := a, snapshotData := data } ∧
    Raft.Agreed config.setting A (A.term n) c (A.log n) ∧ Raft.Agreed config.setting A (A.term n) a (A.log n)

/-! ### Roles -/

structure Candidacy (n : Int) (s : Standing) : Prop where
  stood : A.stood n s.currentTerm (A.log n)
  leads : ¬ A.leads s.currentTerm n
  votes : ∀ p ∈ s.grantedVotes, p ∈ config.peers ∧ A.voted p s.currentTerm n

structure Leadership (n : Int) (s : Standing) : Prop where
  leads : A.leads s.currentTerm n
  tlog : A.tlog s.currentTerm = A.log n
  /-- An entry of the own term is in the snapshot only when the leader has committed it itself. -/
  snapshot : s.snapshotTerm < s.currentTerm ∨ s.snapshotIndex ≤ s.commitIndex
  acked : ∀ p m, s.matchIndex.lookup p = some m → A.acked p s.currentTerm m ∨ m ≤ s.snapshotIndex

structure Roles (n : Int) (s : Standing) : Prop where
  candidate : s.role = .candidate → Candidacy config A n s
  leader : s.role = .leader → Leadership A n s
  keys : ∀ p m, s.matchIndex.lookup p = some m → p ∈ config.peers ∧ p ≠ n

/-! ### What a leader knows about its peers -/

/-- The frames of a replication round. -/
def Proto.Payload.replicates : Proto.Payload → Prop
  | .appendEntries _ | .installSnapshot _ => True
  | _ => False

variable (sent : List Packet)

/-- A frame that carries the id which `n` awaits from a peer. -/
def Awaited (n : Int) (v : Toward) (packet : Packet) : Prop :=
  packet ∈ sent ∧ packet.sender = n ∧ v.connection = some packet.connection ∧
    packet.rpc.requestId = v.requestId ∧ v.requestId ≠ 0

/-- The state of replication to `p` at a leader. -/
structure Replicating (n p : Int) (v : Toward) : Prop where
  low : 1 ≤ v.nextIndex
  high : v.nextIndex ≤ v.lastIndex + 1
  probed : Raft.Probed config.setting A p v.currentTerm v.nextIndex
  append : ∀ packet request, Awaited sent n v packet → packet.rpc.payload = .appendEntries request →
    (v.inflight = true → request.term = v.currentTerm ∧ request.prevLogIndex + 1 = v.nextIndex) ∧
      (v.inflight = false → request.term < v.currentTerm)
  install : ∀ packet request, Awaited sent n v packet → packet.rpc.payload = .installSnapshot request →
    (v.inflight = true → request.term = v.currentTerm ∧ v.nextIndex ≤ v.snapshotIndex) ∧
      (v.inflight = false → request.term < v.currentTerm)
  /-- The awaited id is left over from an earlier term. -/
  stale : v.requestId ≠ 0 → v.inflight = false →
    Raft.Probed config.setting A p v.currentTerm (v.nextIndex - 1) ∧
      (p ∈ v.waiting ∧ v.nextIndex = v.lastIndex + 1 ∨ ∀ c, v.connection = some c → c ∉ v.connected)

/-- The ids a process gives to its requests. -/
structure Numbering (n : Int) (nextRpcId : Nat) (connections : List Conn) : Prop where
  pos : 0 < nextRpcId
  fresh : ∀ packet ∈ sent, packet.sender = n → packet.connection ∈ connections →
    packet.rpc.payload.replicates → packet.rpc.requestId < nextRpcId

structure NodeSim (n : Int) (l : Local) : Prop where
  memory : Memory config A n l.node.toLogState
  roles : Roles config A n l.node.standing
  numbering : Numbering sent n l.node.nextRpcId l.node.connections
  idle : ∀ p, l.node.connectionForPeer p = none → l.node.rpcRequestId p = 0
  replicating : l.node.role = .leader → ∀ p ∈ config.peers, p ≠ n → Replicating config A sent n p (l.toward p)

/-! ### Frames -/

/-- The entries of the leader's log that an AppendEntries request carries. -/
structure Carries (n p : Int) (request : Proto.AppendEntriesRequest) : Prop where
  leads : A.leads request.term n
  bound : request.prevLogIndex + request.entries.length ≤ (A.tlog request.term).length
  entries : request.entries.map storedEntry =
    ((A.tlog request.term).take (request.prevLogIndex + request.entries.length)).drop request.prevLogIndex
  prevTerm : request.prevLogTerm =
    Raft.lastTerm RaftLogEntry.term ((A.tlog request.term).take request.prevLogIndex)
  commit : Raft.CommittedTo config.setting A request.term request.leaderCommit
  probed : Raft.Probed config.setting A p request.term (request.prevLogIndex + 1)
  reach : request.leaderCommit ≤ request.prevLogIndex + request.entries.length ∨ 2 ≤ request.entries.length

/-- The snapshot that an InstallSnapshot request is about. -/
structure Labels (n : Int) (request : Proto.InstallSnapshotRequest) : Prop where
  leads : A.leads request.term n
  bound : request.lastIncludedIndex ≤ (A.tlog request.term).length
  term : request.lastIncludedTerm =
    Raft.lastTerm RaftLogEntry.term ((A.tlog request.term).take request.lastIncludedIndex)
  commit : Raft.CommittedTo config.setting A request.term request.lastIncludedIndex

/-- What a frame from `n` to `p` means. -/
def Means (n p : Int) (connection : Conn) (id : Nat) : Proto.Payload → Prop
  | .requestVote request =>
    toInt64 request.candidateId = n ∧ ∃ L, A.stood n request.term L ∧ request.lastLogIndex = L.length ∧
      request.lastLogTerm = Raft.lastTerm RaftLogEntry.term L
  | .requestVoteResponse response => response.voteGranted = true → A.voted n response.term p
  | .appendEntries request => Carries config A n p request
  | .appendEntriesResponse response =>
    ∃ rpc request, ⟨connection, p, rpc⟩ ∈ sent ∧ rpc.requestId = id ∧ rpc.payload = .appendEntries request ∧
      (response.success = true → request.term = response.term ∧ A.acked n response.term response.matchIndex ∧
        response.matchIndex = request.prevLogIndex + request.entries.length) ∧
      (response.success = false → request.term < response.term ∨ request.term = response.term ∧
        Raft.Probed config.setting A n response.term request.prevLogIndex)
  | .installSnapshot request => Labels config A n request
  | .installSnapshotResponse response =>
    ∃ rpc request, ⟨connection, p, rpc⟩ ∈ sent ∧ rpc.requestId = id ∧ rpc.payload = .installSnapshot request ∧
      (response.success = true → request.term = response.term ∧
        (A.acked n response.term request.lastIncludedIndex ∨
          request.done = false ∧ response.nextOffset = request.offset + request.data.length))
  | .readIndex request => A.leads request.term n
  | .readIndexResponse _ =>
    ∃ rpc request, ⟨connection, p, rpc⟩ ∈ sent ∧ rpc.requestId = id ∧ rpc.payload = .readIndex request
  | _ => True

structure PacketSim (packet : Packet) : Prop where
  id : 0 < packet.rpc.requestId
  means : Means config A sent packet.sender (packet.connection.otherEnd packet.sender) packet.connection
    packet.rpc.requestId packet.rpc.payload

/-- The shadow of a world. -/
structure Related (w : World) : Prop where
  inv : Raft.Inv config.setting A
  active : ∀ n l, w.views n = .active l → NodeSim config A (packets w.history) n l
  down : ∀ n store, w.views n = .down store → Stored config A n store
  frames : ∀ packet ∈ packets w.history, PacketSim config A (packets w.history) packet

end Sim

/-! ### Reading a log through its snapshot -/

/-- The node has the log `L`, of which it has given up the beginning. -/
structure RaftNode.Shows (node : RaftNode) (L : List RaftLogEntry) : Prop where
  bound : node.snapshotIndex ≤ L.length
  log : node.log = L.drop node.snapshotIndex
  snapshotTerm : node.snapshotTerm = Raft.lastTerm RaftLogEntry.term (L.take node.snapshotIndex)

section Reading

variable {config : Config} {A : Shadow} {n : Int} {node : RaftNode}

theorem Depicts.length {state : PersistedRaftState} (h : Depicts config A n state) :
    state.snapshotIndex + state.log.length = (A.log n).length := by
  have hle := h.snapshotIndex.le_length
  rw [h.log, List.length_drop]
  omega

namespace RaftNode.Shows

variable {L : List RaftLogEntry}

theorem lastIndex (h : node.Shows L) : node.lastIndex = L.length := by
  have hle := h.bound
  unfold RaftNode.lastIndex
  rw [h.log, List.length_drop]
  omega

theorem getElem? (h : node.Shows L) (i : Nat) : node.log[i]? = L[node.snapshotIndex + i]? := by
  rw [h.log, List.getElem?_drop]

theorem entryAt (h : node.Shows L) {i : Nat} {entry : RaftLogEntry} :
    node.entryAt (i + 1) = .ok entry ↔ node.snapshotIndex ≤ i ∧ L[i]? = some entry := by
  rw [RaftNode.entryAt_eq_ok, h.getElem?]
  constructor
  · rintro ⟨hlt, hentry⟩
    rw [show node.snapshotIndex + (i + 1 - node.snapshotIndex - 1) = i by omega] at hentry
    exact ⟨by omega, hentry⟩
  · rintro ⟨hle, hentry⟩
    rw [show node.snapshotIndex + (i + 1 - node.snapshotIndex - 1) = i by omega]
    exact ⟨by omega, hentry⟩

theorem termAt (h : node.Shows L) {i : Nat} (hlow : node.snapshotIndex ≤ i) (hhigh : i ≤ node.lastIndex) :
    node.termAt i = Raft.lastTerm RaftLogEntry.term (L.take i) := by
  rcases Nat.eq_or_lt_of_le hlow with rfl | hlt
  · rw [RaftNode.termAt_snapshot]
    exact h.snapshotTerm
  · obtain ⟨k, rfl⟩ : ∃ k, i = node.snapshotIndex + k + 1 := ⟨i - node.snapshotIndex - 1, by omega⟩
    have hk : node.snapshotIndex + k < L.length := by
      have := h.lastIndex
      omega
    have hentry : L[node.snapshotIndex + k]? = some L[node.snapshotIndex + k] := List.getElem?_eq_getElem hk
    rw [RaftNode.termAt_of_entry ((h.getElem? k).trans hentry)]
    exact (Raft.lastTerm_take hentry).symm

theorem lastTerm (h : node.Shows L) : node.lastTerm = Raft.lastTerm RaftLogEntry.term L := by
  unfold RaftNode.lastTerm
  rcases Nat.eq_or_lt_of_le h.bound with heq | hlt
  · rw [h.log, List.drop_eq_nil_of_le heq.ge, h.snapshotTerm, List.take_of_length_le heq.ge]
    rfl
  · have hlast : node.log.getLast? = L.getLast? := by
      rw [h.log, List.getLast?_drop, if_neg (by omega)]
    unfold Raft.lastTerm
    rw [hlast]
    cases hentry : L.getLast? with
    | none => simp_all
    | some entry => rfl

end RaftNode.Shows

namespace Memory

variable [Protobuf]

/-- The log of a node is what the shadow has behind the snapshot. -/
theorem shows (h : Memory config A n node.toLogState) : node.Shows (A.log n) :=
  ⟨h.depicts.snapshotIndex.le_length, h.depicts.log, h.depicts.snapshotTerm⟩

theorem lastIndex (h : Memory config A n node.toLogState) : node.lastIndex = (A.log n).length :=
  h.shows.lastIndex

theorem snapshot_le (h : Memory config A n node.toLogState) : node.snapshotIndex ≤ (A.log n).length :=
  h.depicts.snapshotIndex.le_length

theorem termAt (h : Memory config A n node.toLogState) {i : Nat} (hlow : node.snapshotIndex ≤ i)
    (hhigh : i ≤ node.lastIndex) :
    node.termAt i = Raft.lastTerm RaftLogEntry.term ((A.log n).take i) :=
  h.shows.termAt hlow hhigh

theorem lastTerm (h : Memory config A n node.toLogState) :
    node.lastTerm = Raft.lastTerm RaftLogEntry.term (A.log n) :=
  h.shows.lastTerm

end Memory

end Reading

/-! ### What other nodes do -/

section Frame

variable {config : Config} {A A' : Shadow} {n m : Int} {sent sent' : List Packet}

section Apart

variable (hI : Raft.Inv config.setting A) (hsteps : Raft.Steps config.setting n A A') (hm : m ≠ n)
include hI hsteps hm

theorem Depicts.apart {state : PersistedRaftState} (h : Depicts config A m state) :
    Depicts config A' m state := by
  have hapart := hsteps.apart hI hm
  exact ⟨hapart.term.trans h.term, fun hnone c hc => h.unvoted hnone c ((hapart.voted _ c).mp hc),
    fun hvote => (hapart.voted _ _).mpr (h.voted hvote), hapart.base.trans h.base, hapart.log ▸ h.log,
    hapart.log ▸ h.snapshotTerm, h.snapshotIndex.steps hsteps hI, h.commitIndex.steps hsteps hI,
    h.lastApplied.steps hsteps hI⟩

variable [Protobuf]

theorem Stored.apart {store : RocksKVStore} (h : Stored config A m store) : Stored config A' m store := by
  obtain ⟨state, hholds, hstate⟩ := h
  exact ⟨state, hholds, hstate.apart hI hsteps hm⟩

theorem Memory.apart {d : LogState} (h : Memory config A m d) : Memory config A' m d := by
  obtain ⟨hstate, c, a, data, hholds, hc, ha⟩ := h
  exact ⟨hstate.apart hI hsteps hm, c, a, data, hholds, hc.steps hsteps hI, ha.steps hsteps hI⟩

end Apart

/-- A role stays what it is while the shadow keeps the log and the leaders. -/
theorem Roles.congr {s : Standing} (h : Roles config A m s) (hext : Raft.Extends A A')
    (hlog : A'.log m = A.log m) (hleads : ∀ t, A'.leads t m ↔ A.leads t m)
    (htlog : ∀ t, A.leads t m → A'.tlog t = A.tlog t) : Roles config A' m s := by
  refine ⟨fun hrole => ?_, fun hrole => ?_, h.keys⟩
  · obtain ⟨hstood, hnone, hvotes⟩ := h.candidate hrole
    exact ⟨hlog ▸ hext.stood _ _ _ hstood, fun hl => hnone ((hleads _).mp hl),
      fun p hp => (hvotes p hp).imp_right (hext.voted _ _ _)⟩
  · obtain ⟨hl, hsame, hsnapshot, hacked⟩ := h.leader hrole
    exact ⟨(hleads _).mpr hl, (htlog _ hl).trans (hsame.trans hlog.symm), hsnapshot,
      fun p k hk => (hacked p k hk).imp_left (hext.acked _ _ _)⟩

/-! ### Frames that are added -/

theorem Awaited.mono {v : Toward} {packet : Packet} (h : Awaited sent' n v packet)
    (hsent : ∀ packet ∈ sent', packet.sender = n → packet ∈ sent) : Awaited sent n v packet :=
  ⟨hsent packet h.1 h.2.1, h.2⟩

theorem Numbering.mono {next : Nat} {connections : List Conn} (h : Numbering sent n next connections)
    (hsent : ∀ packet ∈ sent', packet.sender = n → packet ∈ sent) : Numbering sent' n next connections :=
  ⟨h.pos, fun packet hmem hn => h.fresh packet (hsent packet hmem hn) hn⟩

/-- Knowledge about peers stays when the shadow moves and no frame of the leader is added. -/
theorem Replicating.mono {p : Int} {v : Toward} (h : Replicating config A sent n p v)
    (hprobed : ∀ t k, Raft.Probed config.setting A p t k → Raft.Probed config.setting A' p t k)
    (hsent : ∀ packet ∈ sent', packet.sender = n → packet ∈ sent) : Replicating config A' sent' n p v where
  low := h.low
  high := h.high
  probed := hprobed _ _ h.probed
  append packet request hawaited := h.append packet request (hawaited.mono hsent)
  install packet request hawaited := h.install packet request (hawaited.mono hsent)
  stale hid hidle := (h.stale hid hidle).imp_left (hprobed _ _)

variable [Protobuf]

theorem NodeSim.apart (hI : Raft.Inv config.setting A) (hsteps : Raft.Steps config.setting n A A') (hm : m ≠ n)
    (hsent : ∀ packet ∈ sent', packet.sender = m → packet ∈ sent) {l : Local}
    (h : NodeSim config A sent m l) : NodeSim config A' sent' m l where
  memory := h.memory.apart hI hsteps hm
  roles :=
    have hapart := hsteps.apart hI hm
    h.roles.congr (hsteps.extends hI) hapart.log hapart.leads hapart.tlog
  numbering := h.numbering.mono hsent
  idle := h.idle
  replicating hrole p hp hne := (h.replicating hrole p hp hne).mono (fun _ _ hk => hk.steps hsteps hI) hsent

/-! ### Frames that were sent -/

omit [Protobuf] in
theorem Carries.grow (hI : Raft.Inv config.setting A) {a : Int} (hsteps : Raft.Steps config.setting a A A')
    {p : Int} {request : Proto.AppendEntriesRequest} (h : Carries config A n p request) :
    Carries config A' n p request := by
  have hext := hsteps.extends hI
  have htake : ∀ j ≤ (A.tlog request.term).length,
      (A'.tlog request.term).take j = (A.tlog request.term).take j := fun j hj => hext.take_tlog hj
  refine ⟨hext.leads _ _ h.leads, h.bound.trans (hext.tlog _).length_le, ?_, ?_, h.commit.grow hext,
    h.probed.steps hsteps hI, h.reach⟩
  · rw [h.entries, htake _ h.bound]
  · rw [h.prevTerm, htake _ ((Nat.le_add_right _ _).trans h.bound)]

omit [Protobuf] in
theorem Labels.grow (hext : Raft.Extends A A') {request : Proto.InstallSnapshotRequest}
    (h : Labels config A n request) : Labels config A' n request := by
  refine ⟨hext.leads _ _ h.leads, h.bound.trans (hext.tlog _).length_le, ?_, h.commit.grow hext⟩
  rw [h.term, hext.take_tlog h.bound]

omit [Protobuf] in
theorem PacketSim.grow (hI : Raft.Inv config.setting A) {a : Int} (hsteps : Raft.Steps config.setting a A A')
    (hsent : ∀ packet ∈ sent, packet ∈ sent') {packet : Packet} (h : PacketSim config A sent packet) :
    PacketSim config A' sent' packet := by
  have hext := hsteps.extends hI
  obtain ⟨hid, hmeans⟩ := h
  refine ⟨hid, ?_⟩
  cases hpayload : packet.rpc.payload with
  | requestVote request =>
    rw [hpayload] at hmeans
    obtain ⟨hcandidate, L, hstood, hlog⟩ := hmeans
    exact ⟨hcandidate, L, hext.stood _ _ _ hstood, hlog⟩
  | requestVoteResponse response =>
    rw [hpayload] at hmeans
    exact fun hgranted => hext.voted _ _ _ (hmeans hgranted)
  | appendEntries request =>
    rw [hpayload] at hmeans
    exact Carries.grow hI hsteps hmeans
  | appendEntriesResponse response =>
    rw [hpayload] at hmeans
    obtain ⟨rpc, request, hmem, hrpc, hrequest, hsuccess, hfailure⟩ := hmeans
    exact ⟨rpc, request, hsent _ hmem, hrpc, hrequest,
      fun h => (hsuccess h).imp_right (And.imp_left (hext.acked _ _ _)),
      fun h => (hfailure h).imp_right (And.imp_right fun hk => hk.steps hsteps hI)⟩
  | installSnapshot request =>
    rw [hpayload] at hmeans
    exact Labels.grow hext hmeans
  | installSnapshotResponse response =>
    rw [hpayload] at hmeans
    obtain ⟨rpc, request, hmem, hrpc, hrequest, hsuccess⟩ := hmeans
    exact ⟨rpc, request, hsent _ hmem, hrpc, hrequest,
      fun h => (hsuccess h).imp_right (Or.imp_left (hext.acked _ _ _))⟩
  | readIndex request =>
    rw [hpayload] at hmeans
    exact hext.leads _ _ hmeans
  | readIndexResponse response =>
    rw [hpayload] at hmeans
    obtain ⟨rpc, request, hmem, hrest⟩ := hmeans
    exact ⟨rpc, request, hsent _ hmem, hrest⟩
  | _ => trivial

end Frame

/-- One node moved, with the shadow: it is enough to look at the node and at the frame it may have sent. -/
theorem Related.moved [Protobuf] {config : Config} {A A' : Shadow} {w : World} (h : Related config A w) {n : Int}
    (hsteps : Raft.Steps config.setting n A A') {view : View} {event : Option Event} {opened accepted : List Conn}
    (hactive : ∀ l, view = .active l →
      NodeSim config A' (Nukv.packets (w.moved n view event).history) n l)
    (hdown : ∀ store, view = .down store → Stored config A' n store)
    (hsends : ∀ c rpc s, event = some (.send c rpc s) →
      PacketSim config A' (Nukv.packets (w.moved n view event).history) ⟨c, n, rpc⟩) :
    Related config A' { w.moved n view event with opened := opened, accepted := accepted } := by
  have hmono : ∀ packet ∈ Nukv.packets w.history, packet ∈ Nukv.packets (w.moved n view event).history := by
    intro packet hpacket
    simp only [World.moved, Nukv.packets, List.filterMap_append, List.mem_append]
    exact .inl hpacket
  have hnew : ∀ packet ∈ Nukv.packets (w.moved n view event).history, packet ∈ Nukv.packets w.history ∨
      ∃ c rpc s, event = some (.send c rpc s) ∧ packet = ⟨c, n, rpc⟩ := by
    intro packet hpacket
    cases event with
    | none => exact .inl (by simpa using hpacket)
    | some event =>
      rw [World.moved_history_some] at hpacket
      rcases World.mem_packets_append.mp hpacket with hmem | hsent
      · exact .inl hmem
      · cases event with
        | send c rpc s => exact .inr ⟨c, rpc, s, rfl, (Option.some.inj hsent).symm⟩
        | _ => exact absurd hsent (by simp [Packet.ofEvent])
  refine ⟨h.inv.steps hsteps, fun m l hview => ?_, fun m store hview => ?_, fun packet hpacket => ?_⟩
  · by_cases hm : m = n
    · subst hm
      exact hactive l ((w.moved_views_self m view event).symm.trans hview)
    · refine (h.active m l ((w.moved_views_of_ne view event hm).symm.trans hview)).apart h.inv hsteps hm ?_
      intro packet hpacket hsender
      rcases hnew packet hpacket with hold | ⟨c, rpc, s, -, rfl⟩
      · exact hold
      · exact absurd hsender.symm hm
  · by_cases hm : m = n
    · subst hm
      exact hdown store ((w.moved_views_self m view event).symm.trans hview)
    · exact (h.down m store ((w.moved_views_of_ne view event hm).symm.trans hview)).apart h.inv hsteps hm
  · rcases hnew packet hpacket with hold | ⟨c, rpc, s, hevent, rfl⟩
    · exact (h.frames packet hold).grow h.inv hsteps hmono
    · exact hsends c rpc s hevent

end Nukv
