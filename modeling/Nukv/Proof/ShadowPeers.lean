import Nukv.Proof.ShadowLog

/-!
# The shadow and the frames

What a node sends means what the shadow says, and what a leader keeps about its peers stays true when it sends,
when it reads the answers and when connections change. An answer counts only if it carries the id of the last
request on the present connection of the peer; ids on one connection are never used twice.
-/

namespace Nukv

variable [Protobuf] {config : Config} {A A' : Shadow} {w : World} {n : Int} {l l' : Local} {event : Option Event}
  {sent : List Packet}

/-! ### Ids -/

omit [Protobuf] in
theorem Numbering.sends {next next' : Nat} {connections : List Conn} (h : Numbering sent n next connections)
    (hle : next ≤ next') {c : Conn} {rpc : Proto.RaftRpc}
    (hid : rpc.payload.replicates → rpc.requestId < next') :
    Numbering (sent ++ [⟨c, n, rpc⟩]) n next' connections := by
  refine ⟨h.pos.trans_le hle, fun packet hmem hsender hconn hreplicates => ?_⟩
  rcases List.mem_append.mp hmem with hold | hnew
  · exact (h.fresh packet hold hsender hconn hreplicates).trans_le hle
  · obtain rfl := List.mem_singleton.mp hnew
    exact hid hreplicates

omit [Protobuf] in
/-- A frame that is not part of a replication round, or goes to another peer, is not awaited. -/
theorem Replicating.sends {p : Int} {v : Toward} (h : Replicating config A sent n p v) {c : Conn}
    {rpc : Proto.RaftRpc} (hother : rpc.payload.replicates → v.connection ≠ some c) :
    Replicating config A (sent ++ [⟨c, n, rpc⟩]) n p v := by
  have hold : ∀ packet, Awaited (sent ++ [⟨c, n, rpc⟩]) n v packet → packet.rpc.payload.replicates →
      Awaited sent n v packet := by
    rintro packet ⟨hmem, hrest⟩ hreplicates
    rcases List.mem_append.mp hmem with hmem | hnew
    · exact ⟨hmem, hrest⟩
    · obtain rfl := List.mem_singleton.mp hnew
      exact absurd hrest.2.1 (hother hreplicates)
  exact ⟨h.low, h.high, h.probed,
    fun packet request hawaited hrequest =>
      h.append packet request (hold packet hawaited (by rw [hrequest]; trivial)) hrequest,
    fun packet request hawaited hrequest =>
      h.install packet request (hold packet hawaited (by rw [hrequest]; trivial)) hrequest, h.stale⟩

omit [Protobuf] in
/-- Nothing is awaited. -/
theorem Replicating.idle {p : Int} {v : Toward} (hid : v.requestId = 0) (hlow : 1 ≤ v.nextIndex)
    (hhigh : v.nextIndex ≤ v.lastIndex + 1)
    (hprobed : Raft.Probed config.setting A p v.currentTerm v.nextIndex) : Replicating config A sent n p v :=
  ⟨hlow, hhigh, hprobed, fun _ _ hawaited => absurd hid hawaited.2.2.2.2,
    fun _ _ hawaited => absurd hid hawaited.2.2.2.2, fun h => absurd hid h⟩

/-- A frame outside replication changes nothing but the counter. -/
theorem NodeSim.sends (h : NodeSim config A sent n l) {next : Nat} (hle : l.node.nextRpcId ≤ next) {c : Conn}
    {rpc : Proto.RaftRpc} (hplain : ¬ rpc.payload.replicates) :
    NodeSim config A (sent ++ [⟨c, n, rpc⟩]) n { l with node := { l.node with nextRpcId := next } } :=
  ⟨h.memory, h.roles, h.numbering.sends hle fun hr => absurd hr hplain, h.idle,
    fun hrole p hp hne => (h.replicating hrole p hp hne).sends fun hr => absurd hr hplain⟩

omit [Protobuf] in
theorem IdFor.le {requested next id next' : Nat} (h : IdFor requested next id next') : next ≤ next' := by
  rcases h with ⟨-, -, rfl⟩ | ⟨-, -, rfl⟩
  · exact le_rfl
  · exact Nat.le_succ _

omit [Protobuf] in
theorem IdFor.eq {requested next id next' : Nat} (h : IdFor requested next id next') (hpos : 0 < requested) :
    id = requested := by
  rcases h with ⟨-, heq, -⟩ | ⟨hzero, -, -⟩
  · exact heq
  · omega

omit [Protobuf] in
theorem IdFor.pos {requested next id next' : Nat} (h : IdFor requested next id next') (hpos : 0 < next) :
    0 < id := by
  rcases h with ⟨hne, heq, -⟩ | ⟨-, heq, -⟩ <;> omega

/-! ### Reading a frame -/

omit [Protobuf] in
theorem Conn.otherEnd_ne {c : Conn} {n : Int} (hlt : c.client < c.server) : c.otherEnd n ≠ n := by
  unfold Conn.otherEnd
  split
  · next h => omega
  · next h => exact h

omit [Protobuf] in
theorem Conn.otherEnd_otherEnd {c : Conn} {n : Int} (hlt : c.client < c.server)
    (hend : c.client = n ∨ c.server = n) : c.otherEnd (c.otherEnd n) = n := by
  unfold Conn.otherEnd
  split_ifs <;> omega

omit [Protobuf] in
theorem Conn.otherEnd_mem {c : Conn} {n : Int} (hclient : c.client ∈ config.peers)
    (hserver : c.server ∈ config.peers) : c.otherEnd n ∈ config.peers := by
  unfold Conn.otherEnd
  split
  · exact hserver
  · exact hclient

section Received

variable (hrel : Related config A w) (hwired : Wired config w) {c : Conn} {rpc : Proto.RaftRpc}
include hwired

omit [Protobuf] in
/-- The other end of a connection is a peer. -/
theorem Wired.otherEnd {n : Int} (hc : c ∈ w.opened) : c.otherEnd n ∈ config.peers ∧ c.otherEnd n ≠ n := by
  obtain ⟨hclient, hserver, hlt⟩ := hwired.opened c hc
  exact ⟨Conn.otherEnd_mem hclient hserver, Conn.otherEnd_ne hlt⟩

include hrel

/-- A frame that a node gets to see. -/
theorem Related.received (hpacket : ⟨c, c.otherEnd n, rpc⟩ ∈ packets w.history)
    (hend : c.client = n ∨ c.server = n) :
    (c.otherEnd n ∈ config.peers ∧ c.otherEnd n ≠ n) ∧ 0 < rpc.requestId ∧
      Means config A (packets w.history) (c.otherEnd n) n c rpc.requestId rpc.payload := by
  have hopened := (hwired.packets _ hpacket).opened
  obtain ⟨hid, hmeans⟩ := hrel.frames _ hpacket
  rw [Conn.otherEnd_otherEnd (hwired.opened c hopened).2.2 hend] at hmeans
  exact ⟨hwired.otherEnd hopened, hid, hmeans⟩

end Received

/-! ### Answers and other frames -/

section Sends

variable (hrel : Related config A w) (hwired : Wired config w) (hview : w.views n = .active l)
include hrel hview

theorem shadowed_plain {next : Nat} (hle : l.node.nextRpcId ≤ next) {c : Conn} {rpc : Proto.RaftRpc} {s : RaftNode}
    (hplain : ¬ rpc.payload.replicates) (hid : 0 < rpc.requestId)
    (hmeans : Means config A (packets w.history ++ [⟨c, n, rpc⟩]) n (c.otherEnd n) c rpc.requestId rpc.payload) :
    Shadowed config A w n (some (.send c rpc s)) { l with node := { l.node with nextRpcId := next } } :=
  .sends (.refl ..) rfl ((hrel.active n l hview).sends hle hplain) ⟨hid, hmeans⟩

include hwired

theorem shadowed_requestVote {c : Conn} {s : RaftNode} (hrole : l.node.role = .candidate) :
    Shadowed config A w n (some (.send c ⟨l.node.nextRpcId, toUint64 l.node.serverId,
        .requestVote ⟨l.node.currentTerm, toUint64 l.node.serverId, l.node.lastIndex, l.node.lastTerm⟩⟩ s))
      { l with node := { l.node with nextRpcId := l.node.nextRpcId + 1 } } := by
  have hnode := hrel.active n l hview
  have hactive := hwired.active n l hview
  refine shadowed_plain hrel hview (Nat.le_succ _) (fun h => h) hnode.numbering.pos ⟨?_, A.log n,
    (hnode.roles.candidate hrole).stood, hnode.memory.lastIndex, hnode.memory.lastTerm⟩
  have hpos := config.positive n hactive.member
  rw [hactive.serverId]
  exact toInt64_toUint64 (by omega) (config.int32 n hactive.member)

theorem shadowed_voteResponse {c : Conn} {rpc : Proto.RaftRpc} {request : Proto.RequestVoteRequest}
    {granted : Bool} {id next : Nat} {s : RaftNode} (hpacket : ⟨c, c.otherEnd n, rpc⟩ ∈ packets w.history)
    (hend : c.client = n ∨ c.server = n) (hpayload : rpc.payload = .requestVote request)
    (hgranted : granted = true → request.term = l.node.currentTerm ∧
      l.node.votedFor = toInt64 request.candidateId)
    (hid : IdFor rpc.requestId l.node.nextRpcId id next) :
    Shadowed config A w n (some (.send c ⟨id, toUint64 l.node.serverId,
        .requestVoteResponse ⟨l.node.currentTerm, granted, toUint64 l.node.serverId⟩⟩ s))
      { l with node := { l.node with nextRpcId := next } } := by
  have hnode := hrel.active n l hview
  obtain ⟨⟨hpeer, -⟩, -, hmeans⟩ := hrel.received hwired hpacket hend
  rw [hpayload] at hmeans
  refine shadowed_plain hrel hview hid.le (fun h => h) (hid.pos hnode.numbering.pos) fun hgrant => ?_
  have hvote : l.node.votedFor = c.otherEnd n := (hgranted hgrant).2.trans hmeans.1
  have hpos := config.positive _ hpeer
  have hvoted : A.voted n l.node.currentTerm l.node.votedFor :=
    hnode.memory.depicts.voted (by change l.node.votedFor ≠ -1; omega)
  rw [hvote] at hvoted
  exact hvoted

theorem shadowed_snapshotResponse {c : Conn} {rpc : Proto.RaftRpc} {request : Proto.InstallSnapshotRequest}
    {success : Bool} {offset id next : Nat} {s : RaftNode}
    (hpacket : ⟨c, c.otherEnd n, rpc⟩ ∈ packets w.history) (hend : c.client = n ∨ c.server = n)
    (hpayload : rpc.payload = .installSnapshot request)
    (hreceives : success = true → l.node.Receives request offset)
    (hid : IdFor rpc.requestId l.node.nextRpcId id next) :
    Shadowed config A w n (some (.send c ⟨id, toUint64 l.node.serverId,
        .installSnapshotResponse ⟨l.node.currentTerm, success, toUint64 l.node.serverId, offset⟩⟩ s))
      { l with node := { l.node with nextRpcId := next } } := by
  have hnode := hrel.active n l hview
  obtain ⟨-, hpos, hlabels⟩ := hrel.received hwired hpacket hend
  rw [hpayload] at hlabels
  by_cases hhas : success = true ∧ request.lastIncludedIndex ≤ l.node.snapshotIndex
  · -- the snapshot or what follows it is here, and the leader has committed the same
    have hterm : A.term n = request.term := hnode.memory.depicts.term.trans (hreceives hhas.1).1.symm
    have htake := hnode.memory.depicts.snapshotIndex.take_tlog hrel.inv (Labels.leads hlabels) hterm.le
    obtain ⟨hsteps, -, hnode'⟩ := hnode.acknowledge hrel (hterm ▸ Labels.leads hlabels) (hterm ▸ Labels.bound hlabels)
      (hterm ▸ Raft.take_eq_mono hhas.2 htake.symm)
    refine .sends hsteps rfl (hnode'.sends hid.le fun h => h) ⟨hid.pos hnode.numbering.pos, rpc, request,
      List.mem_append_left _ hpacket, (hid.eq hpos).symm, hpayload, fun _ => ⟨(hreceives hhas.1).1, .inl ?_⟩⟩
    exact .inr ⟨rfl, hnode.memory.depicts.term.symm, le_rfl⟩
  · refine shadowed_plain hrel hview hid.le (fun h => h) (hid.pos hnode.numbering.pos)
      ⟨rpc, request, List.mem_append_left _ hpacket, (hid.eq hpos).symm, hpayload, fun hsuccess => ?_⟩
    obtain ⟨hterm, hpart⟩ := hreceives hsuccess
    exact ⟨hterm, .inr (hpart.resolve_left fun hle => hhas ⟨hsuccess, hle⟩)⟩

theorem shadowed_readResponse {c : Conn} {rpc : Proto.RaftRpc} {request : Proto.ReadIndexRequest} {success : Bool}
    {id next : Nat} {s : RaftNode} (hpacket : ⟨c, c.otherEnd n, rpc⟩ ∈ packets w.history)
    (hend : c.client = n ∨ c.server = n) (hpayload : rpc.payload = .readIndex request)
    (hid : IdFor rpc.requestId l.node.nextRpcId id next) :
    Shadowed config A w n (some (.send c ⟨id, toUint64 l.node.serverId,
        .readIndexResponse ⟨l.node.currentTerm, success, toUint64 l.node.serverId⟩⟩ s))
      { l with node := { l.node with nextRpcId := next } } := by
  obtain ⟨-, hpos, -⟩ := hrel.received hwired hpacket hend
  exact shadowed_plain hrel hview hid.le (fun h => h) (hid.pos (hrel.active n l hview).numbering.pos)
    ⟨rpc, request, List.mem_append_left _ hpacket, (hid.eq hpos).symm, hpayload⟩

end Sends

/-! ### Answering AppendEntries -/

section Answers

variable {node : RaftNode} {c : Int} {request : Proto.AppendEntriesRequest} (hI : Raft.Inv config.setting A)
  (hmemory : Memory config A n node.toLogState) (hcarries : Carries config A c n request)
include hI hmemory hcarries

/-- A successful answer is about a log that agrees with the leader's. -/
theorem Memory.take_eq_of_accepts {m : Nat} (haccepts : node.Accepts request m) :
    m ≤ (A.tlog request.term).length ∧ (A.log n).take m = (A.tlog request.term).take m := by
  obtain ⟨hsame, rfl, hlast, hterm⟩ := haccepts
  refine ⟨hcarries.bound, ?_⟩
  rcases Nat.lt_or_ge (request.prevLogIndex + request.entries.length) node.snapshotIndex with hlt | hge
  · -- what is compacted was committed, so the leader has it
    have hagreed := hmemory.depicts.snapshotIndex.take_tlog hI hcarries.leads
      ((hmemory.depicts.term.trans hsame.symm).le)
    exact Raft.take_eq_mono hlt.le hagreed.symm
  · refine hmemory.take_eq_tlog hI hge hlast hcarries.bound ?_
    rw [hterm.resolve_left (by omega), Proto.AppendEntriesRequest.lastTerm]
    rcases List.eq_nil_or_concat request.entries with hnil | ⟨rest, entry, hconcat⟩
    · simpa [hnil] using hcarries.prevTerm
    · have hentry : request.entries[rest.length]? = some entry := by simp [hconcat]
      have hlength : request.entries.length = rest.length + 1 := by simp [hconcat]
      rw [hlength, ← Nat.add_assoc, Raft.lastTerm_take (hcarries.getElem? hentry), hconcat]
      simp [storedEntry]

/-- An unsuccessful answer of the same term tells where the logs part. -/
theorem Memory.probed_of_rejects (hconsecutive : Consecutive request.prevLogIndex request.entries)
    (hrejects : node.Rejects request) :
    request.term < node.currentTerm ∨ request.term = node.currentTerm ∧
      Raft.Probed config.setting A n node.currentTerm request.prevLogIndex := by
  refine hrejects.imp_right fun ⟨hsame, hreason⟩ => ⟨hsame, ?_⟩
  have hterm : A.term n = request.term := hmemory.depicts.term.trans hsame.symm
  have hbase : A.base n = node.snapshotIndex := hmemory.depicts.base
  have hlength := hmemory.lastIndex
  rw [← hsame]
  refine hcarries.probed.fail hterm ?_
  rcases Nat.lt_or_ge request.prevLogIndex node.snapshotIndex with hlow | hlow
  · exact .inl (hbase ▸ hlow)
  rcases Nat.lt_or_ge node.lastIndex request.prevLogIndex with hhigh | hhigh
  · exact .inr (.inl (hlength ▸ hhigh))
  refine .inr (.inr fun htake => ?_)
  rcases hreason with h | h | h | h | ⟨entry, hmem, hbelow, habove, hcommit, hne⟩
  · omega
  · omega
  · exact h (by rw [hmemory.termAt hlow hhigh, htake, hcarries.prevTerm])
  · exact h hconsecutive
  · -- a committed entry of the follower cannot differ from the leader's
    obtain ⟨i, hi, rfl⟩ := List.mem_iff_getElem.mp hmem
    have hentry : request.entries[i]? = some request.entries[i] := List.getElem?_eq_getElem hi
    have hindex := hconsecutive.index hentry
    have hagreed := hmemory.depicts.commitIndex.take_tlog hI hcarries.leads hterm.le
    refine hne ?_
    rw [hmemory.termAt hbelow.le habove, ← Raft.take_eq_mono hcommit hagreed, hindex,
      Raft.lastTerm_take (hcarries.getElem? hentry)]
    rfl

end Answers

theorem shadowed_appendResponse (hrel : Related config A w) (hwired : Wired config w) (hview : w.views n = .active l)
    {c : Conn} {rpc : Proto.RaftRpc} {request : Proto.AppendEntriesRequest} {success : Bool}
    {matchIndex id next : Nat} {s : RaftNode} (hpacket : ⟨c, c.otherEnd n, rpc⟩ ∈ packets w.history)
    (hend : c.client = n ∨ c.server = n) (hpayload : rpc.payload = .appendEntries request)
    (haccepts : success = true → l.node.Accepts request matchIndex)
    (hrejects : success = false → l.node.Rejects request)
    (hid : IdFor rpc.requestId l.node.nextRpcId id next) :
    Shadowed config A w n (some (.send c ⟨id, toUint64 l.node.serverId,
        .appendEntriesResponse ⟨l.node.currentTerm, success, matchIndex, toUint64 l.node.serverId⟩⟩ s))
      { l with node := { l.node with nextRpcId := next } } := by
  have hnode := hrel.active n l hview
  obtain ⟨-, hpos, hcarries⟩ := hrel.received hwired hpacket hend
  have hconsecutive := (hwired.packets _ hpacket).entries request hpayload
  rw [hpayload] at hcarries
  cases success with
  | false =>
    exact shadowed_plain hrel hview hid.le (fun h => h) (hid.pos hnode.numbering.pos)
      ⟨rpc, request, List.mem_append_left _ hpacket, (hid.eq hpos).symm, hpayload, nofun,
        fun _ => hnode.memory.probed_of_rejects hrel.inv hcarries hconsecutive (hrejects rfl)⟩
  | true =>
    obtain ⟨hbound, htake⟩ := hnode.memory.take_eq_of_accepts hrel.inv hcarries (haccepts rfl)
    obtain ⟨hsame, hmatch, -⟩ := haccepts rfl
    have hterm : A.term n = request.term := hnode.memory.depicts.term.trans hsame.symm
    obtain ⟨hsteps, -, hnode'⟩ := hnode.acknowledge hrel (hterm ▸ Carries.leads hcarries) (hterm ▸ hbound)
      (hterm ▸ htake)
    refine .sends hsteps rfl (hnode'.sends hid.le fun h => h) ⟨hid.pos hnode.numbering.pos, rpc, request,
      List.mem_append_left _ hpacket, (hid.eq hpos).symm, hpayload, fun _ => ⟨hsame, ?_, hmatch⟩, nofun⟩
    exact .inr ⟨rfl, hnode.memory.depicts.term.symm, le_rfl⟩

/-! ### Replication rounds -/

omit [Protobuf] in
theorem map_storedEntry_mapIdx (entries : List RaftLogEntry) (next : Nat) :
    (entries.mapIdx fun offset entry => (⟨next + offset, entry.term, entry.command⟩ : Proto.RaftLogEntry)).map
      storedEntry = entries := by
  refine List.ext_getElem? fun i => ?_
  rw [List.getElem?_map, List.getElem?_mapIdx, Option.map_map]
  cases entries[i]? <;> rfl

section Rounds

variable (hrel : Related config A w) (hwired : Wired config w) (hview : w.views n = .active l)
include hrel hwired hview

/-- A replication frame goes out: it is the only one with its id on the connection, and the only one awaited
from the peer. -/
theorem NodeSim.sends_round {peer : Int} {c : Conn} {rpc : Proto.RaftRpc} {waiting : List Int}
    (hconn : l.node.connectionForPeer peer = some c) (hid : rpc.requestId = l.node.nextRpcId)
    (hwaiting : ∀ p, p ≠ peer → p ∈ l.waiting → p ∈ waiting)
    (happend : ∀ request, rpc.payload = .appendEntries request →
      request.term = l.node.currentTerm ∧ request.prevLogIndex + 1 = l.node.nextIndexOf peer)
    (hinstall : ∀ request, rpc.payload = .installSnapshot request →
      request.term = l.node.currentTerm ∧ l.node.nextIndexOf peer ≤ l.node.snapshotIndex) :
    NodeSim config A (packets w.history ++ [⟨c, n, rpc⟩]) n
      { l with node := l.node.awaiting peer, waiting := waiting } := by
  have hnode := hrel.active n l hview
  have hactive := hwired.active n l hview
  obtain ⟨hmem, hother⟩ := hactive.wired peer c hconn
  refine ⟨hnode.memory, hnode.roles, hnode.numbering.sends (Nat.le_succ _) fun _ => by omega, fun p hp => ?_,
    fun hrole p hp hne => ?_⟩
  · have hpne : p ≠ peer := by
      rintro rfl
      exact absurd (hp.symm.trans hconn) (by simp)
    exact (Function.update_of_ne hpne ..).trans (hnode.idle p hp)
  · have hpeer := hnode.replicating hrole p hp hne
    by_cases hpp : p = peer
    · subst hpp
      have hrequest : (l.node.awaiting p).rpcRequestId p = l.node.nextRpcId := Function.update_self ..
      have hbusy : (l.node.awaiting p).rpcInflight p = true := Function.update_self ..
      -- an older frame with the new id would have a smaller id
      have hnew : ∀ packet, Awaited (packets w.history ++ [⟨c, n, rpc⟩]) n
          (Local.toward { l with node := l.node.awaiting p, waiting := waiting } p) packet →
          packet.rpc.payload.replicates → packet.rpc = rpc := by
        rintro packet ⟨hpacket, hsender, hon, hsame, -⟩ hreplicates
        rcases List.mem_append.mp hpacket with hold | hnew
        · obtain rfl : c = packet.connection := Option.some.inj (hconn.symm.trans hon)
          have hlt := hnode.numbering.fresh packet hold hsender hmem hreplicates
          have heq : packet.rpc.requestId = l.node.nextRpcId := hsame.trans hrequest
          omega
        · rw [List.mem_singleton.mp hnew]
      refine ⟨hpeer.low, hpeer.high, hpeer.probed, fun packet request hawaited hpayload => ?_,
        fun packet request hawaited hpayload => ?_, fun _ hidle => absurd (hbusy.symm.trans hidle) (by simp)⟩
      · rw [hnew packet hawaited (by rw [hpayload]; trivial)] at hpayload
        exact ⟨fun _ => happend request hpayload, fun hidle => absurd (hbusy.symm.trans hidle) (by simp)⟩
      · rw [hnew packet hawaited (by rw [hpayload]; trivial)] at hpayload
        exact ⟨fun _ => hinstall request hpayload, fun hidle => absurd (hbusy.symm.trans hidle) (by simp)⟩
    · have hsame : (l.node.awaiting peer).rpcRequestId p = l.node.rpcRequestId p := Function.update_of_ne hpp ..
      have hsame' : (l.node.awaiting peer).rpcInflight p = l.node.rpcInflight p := Function.update_of_ne hpp ..
      have htoward : Local.toward { l with node := l.node.awaiting peer, waiting := waiting } p =
          { l.toward p with waiting := waiting } := by
        unfold Local.toward
        rw [hsame, hsame']
        rfl
      have hkept : Replicating config A (packets w.history) n p { l.toward p with waiting := waiting } :=
        ⟨hpeer.low, hpeer.high, hpeer.probed, hpeer.append, hpeer.install, fun h hidle =>
          (hpeer.stale h hidle).imp_right (Or.imp_left (And.imp_left (hwaiting p hpp)))⟩
      rw [htoward]
      exact hkept.sends fun _ hon => hpp ((hactive.wired p c hon).2.symm.trans hother)

omit hwired in
/-- The request of `SendAppend` carries what follows `next_index_` in the leader's log. -/
theorem carries_appendRequest {peer : Int} (hrole : l.node.role = .leader) (hpeer : peer ∈ config.peers)
    (hne : peer ≠ n) (hnext : l.node.snapshotIndex < l.node.nextIndexOf peer) :
    (NodeM.appendRequest l.node peer).prevLogIndex + 1 = l.node.nextIndexOf peer ∧
      Carries config A n peer (NodeM.appendRequest l.node peer) := by
  have hnode := hrel.active n l hview
  have hmemory := hnode.memory
  have hterm : A.term n = l.node.currentTerm := hmemory.depicts.term
  have hlength := hmemory.lastIndex
  have hcommit : l.node.commitIndex ≤ (A.log n).length := hmemory.depicts.commitIndex.le_length
  obtain ⟨hleads, htlog, -⟩ := hnode.roles.leader hrole
  change A.tlog l.node.currentTerm = A.log n at htlog
  have hpeer := hnode.replicating hrole peer hpeer hne
  have hhigh : l.node.nextIndexOf peer ≤ l.node.lastIndex + 1 := hpeer.high
  have hprobed : Raft.Probed config.setting A peer l.node.currentTerm (l.node.nextIndexOf peer) := hpeer.probed
  obtain ⟨k, hk⟩ : ∃ k, l.node.nextIndexOf peer = k + 1 := ⟨l.node.nextIndexOf peer - 1, by omega⟩
  have hclamp : max 1 (min (l.node.nextIndexOf peer) (l.node.lastIndex + 1)) = k + 1 := by omega
  have hslice : l.node.log.drop (k + 1 - l.node.snapshotIndex - 1) = (A.log n).drop k := by
    rw [show l.node.log = _ from hmemory.depicts.log, List.drop_drop]
    change (A.log n).drop (l.node.snapshotIndex + (k + 1 - l.node.snapshotIndex - 1)) = _
    rw [show l.node.snapshotIndex + (k + 1 - l.node.snapshotIndex - 1) = k by omega]
  unfold NodeM.appendRequest
  dsimp only
  rw [hclamp, hslice, hk]
  rw [hk] at hprobed
  refine ⟨rfl, hleads, ?_, ?_, ?_, hterm ▸ hmemory.depicts.commitIndex.committedTo, hprobed, ?_⟩
  · simp only [List.length_mapIdx, List.length_take, List.length_drop, Nat.add_sub_cancel, htlog]
    omega
  · rw [map_storedEntry_mapIdx]
    simp only [List.length_mapIdx, List.length_take, List.length_drop, Nat.add_sub_cancel, htlog, List.drop_take,
      Nat.add_sub_cancel_left]
    rw [← List.length_drop, ← List.take_take, List.take_of_length_le le_rfl]
  · rw [htlog, Nat.add_sub_cancel]
    exact hmemory.termAt (by omega) (by omega)
  · simp only [List.length_mapIdx, List.length_take, List.length_drop, Nat.add_sub_cancel, kMaxEntriesPerRpc]
    omega

theorem shadowed_sendAppend {peer : Int} {c : Conn} {waiting : List Int} {s : RaftNode} (hrole : l.node.role = .leader)
    (hconn : l.node.connectionForPeer peer = some c) (hwaiting : ∀ p, p ≠ peer → p ∈ l.waiting → p ∈ waiting)
    (hnext : l.node.snapshotIndex < l.node.nextIndexOf peer) :
    Shadowed config A w n (some (.send c ⟨l.node.nextRpcId, toUint64 l.node.serverId,
        .appendEntries (NodeM.appendRequest l.node peer)⟩ s))
      { l with node := l.node.awaiting peer, waiting := waiting } := by
  have hnode := hrel.active n l hview
  have hactive := hwired.active n l hview
  obtain ⟨hmem, rfl⟩ := hactive.wired peer c hconn
  obtain ⟨hpeer, hne⟩ := hwired.otherEnd (n := n) (hactive.opened c hmem).1
  obtain ⟨hprev, hcarries⟩ := carries_appendRequest hrel hview hrole hpeer hne hnext
  refine .sends (.refl ..) rfl (NodeSim.sends_round hrel hwired hview hconn rfl hwaiting (fun request hrequest => ?_) nofun)
    ⟨hnode.numbering.pos, hcarries⟩
  obtain rfl := Proto.Payload.appendEntries.inj hrequest
  exact ⟨rfl, hprev⟩

theorem shadowed_sendSnapshot {peer : Int} {c : Conn} {request : Proto.InstallSnapshotRequest} {waiting : List Int}
    {s : RaftNode} (hrole : l.node.role = .leader) (hconn : l.node.connectionForPeer peer = some c)
    (hwaiting : ∀ p, p ≠ peer → p ∈ l.waiting → p ∈ waiting)
    (hnext : l.node.nextIndexOf peer ≤ l.node.snapshotIndex) (hchunk : l.node.IsChunk request) :
    Shadowed config A w n (some (.send c ⟨l.node.nextRpcId, toUint64 l.node.serverId, .installSnapshot request⟩ s))
      { l with node := l.node.awaiting peer, waiting := waiting } := by
  have hnode := hrel.active n l hview
  obtain ⟨offset, -, rfl⟩ := hchunk
  have hd := hnode.memory.depicts
  have hterm : A.term n = l.node.currentTerm := hd.term
  obtain ⟨hleads, htlog, -⟩ := hnode.roles.leader hrole
  change A.tlog l.node.currentTerm = A.log n at htlog
  refine .sends (.refl ..) rfl (NodeSim.sends_round hrel hwired hview hconn rfl hwaiting nofun fun request hrequest => ?_)
    ⟨hnode.numbering.pos, ⟨hleads, ?_, ?_, ?_⟩⟩
  · obtain rfl := Proto.Payload.installSnapshot.inj hrequest
    exact ⟨rfl, hnext⟩
  · rw [htlog]
    exact hnode.memory.snapshot_le
  · rw [htlog]
    exact hd.snapshotTerm
  · exact hterm ▸ hd.snapshotIndex.committedTo

/-! ### Reading the answers -/

/-- What the leader had asked, given an answer it counts. -/
theorem Related.asked {c : Conn} {rpc : Proto.RaftRpc} {peer : Int} (hrole : l.node.role = .leader)
    (hpacket : ⟨c, c.otherEnd n, rpc⟩ ∈ Nukv.packets w.history) (hend : c.client = n ∨ c.server = n)
    (hconn : l.node.connectionForPeer peer = some c) (hpos : rpc.requestId ≠ 0)
    (hid : rpc.requestId = l.node.rpcRequestId peer) :
    c.otherEnd n = peer ∧ peer ∈ config.peers ∧ peer ≠ n ∧
      Means config A (Nukv.packets w.history) peer n c rpc.requestId rpc.payload ∧
      Replicating config A (Nukv.packets w.history) n peer (l.toward peer) ∧
      ∀ asked, ⟨c, n, asked⟩ ∈ Nukv.packets w.history → asked.requestId = rpc.requestId →
        Awaited (Nukv.packets w.history) n (l.toward peer) ⟨c, n, asked⟩ := by
  have hother := ((hwired.active n l hview).wired peer c hconn).2
  obtain ⟨⟨hpeer, hne⟩, -, hmeans⟩ := hrel.received hwired hpacket hend
  rw [hother] at hpeer hne hmeans
  exact ⟨hother, hpeer, hne, hmeans, (hrel.active n l hview).replicating hrole peer hpeer hne,
    fun asked hasked hsame => ⟨hasked, rfl, hconn, hsame.trans hid, fun h => hpos (hid.trans h)⟩⟩

omit hwired in
/-- The leader has read an answer of `peer` and set its indexes. -/
theorem shadowed_answered {peer : Int} {matchIndex : AList fun _ : Int => Nat} {next : Nat}
    (hrole : l.node.role = .leader) (hpeer : peer ∈ config.peers) (hne : peer ≠ n)
    (hmatch : ∀ p m, matchIndex.lookup p = some m → l.node.matchIndex.lookup p = some m ∨
      p = peer ∧ (A.acked peer l.node.currentTerm m ∨ m ≤ l.node.snapshotIndex))
    (hlow : 1 ≤ next) (hhigh : next ≤ l.node.lastIndex + 1)
    (hprobed : Raft.Probed config.setting A peer l.node.currentTerm next)
    (hquiet : ∀ c rpc s, event ≠ some (.send c rpc s)) :
    Shadowed config A w n event { l with node :=
      { l.node.forgetting (fun p => p == peer) with
        matchIndex := matchIndex
        nextIndex := l.node.nextIndex.insert peer next } } := by
  have hnode := hrel.active n l hview
  obtain ⟨hleads, htlog, hsnapshot, hacked⟩ := hnode.roles.leader hrole
  refine .same hquiet ⟨hnode.memory, ⟨fun h => absurd (hrole.symm.trans h) (by simp),
    fun _ => ⟨hleads, htlog, hsnapshot, fun p m hm => ?_⟩, fun p m hm => ?_⟩, hnode.numbering, fun p hp => ?_,
    fun _ p hp hpn => ?_⟩
  · rcases hmatch p m hm with hold | ⟨rfl, hnew⟩
    · exact hacked p m hold
    · exact hnew
  · rcases hmatch p m hm with hold | ⟨rfl, -⟩
    · exact hnode.roles.keys p m hold
    · exact ⟨hpeer, hne⟩
  · change (if (p == peer) = true then 0 else l.node.rpcRequestId p) = 0
    split
    · rfl
    · exact hnode.idle p hp
  · have htoward : Local.toward { l with node :=
        { l.node.forgetting (fun p => p == peer) with
          matchIndex := matchIndex
          nextIndex := l.node.nextIndex.insert peer next } } p =
        { l.toward p with
          nextIndex := ((l.node.nextIndex.insert peer next).lookup p).getD 0
          requestId := if (p == peer) = true then 0 else l.node.rpcRequestId p
          inflight := if (p == peer) = true then false else l.node.rpcInflight p } := rfl
    rw [htoward]
    by_cases hpp : p = peer
    · subst hpp
      rw [AList.lookup_insert, Option.getD_some, if_pos (beq_self_eq_true p)]
      exact .idle rfl hlow hhigh hprobed
    · rw [AList.lookup_insert_ne hpp, if_neg (by simpa using hpp), if_neg (by simpa using hpp)]
      exact hnode.replicating hrole p hp hpn

/-- A success that the leader counts is an answer to the request that is out, so its index is not below
`next_index_`. -/
theorem Related.acknowledged {c : Conn} {rpc : Proto.RaftRpc} {response : Proto.AppendEntriesResponse} {peer : Int}
    (hpacket : ⟨c, c.otherEnd n, rpc⟩ ∈ Nukv.packets w.history) (hend : c.client = n ∨ c.server = n)
    (hpayload : rpc.payload = .appendEntriesResponse response) (hrole : l.node.role = .leader)
    (hterm : response.term = l.node.currentTerm) (hpos : rpc.requestId ≠ 0)
    (hid : rpc.requestId = l.node.rpcRequestId peer) (hconn : l.node.connectionForPeer peer = some c)
    (hsuccess : response.success = true) :
    A.acked peer l.node.currentTerm response.matchIndex ∧ l.node.nextIndexOf peer ≤ response.matchIndex + 1 ∧
      response.matchIndex ≤ l.node.lastIndex := by
  have hnode := hrel.active n l hview
  obtain ⟨-, -, -, hmeans, hreplicating, hasked⟩ := hrel.asked hwired hview hrole hpacket hend hconn hpos hid
  rw [hpayload] at hmeans
  obtain ⟨asked, request, hmem, hsame, hrequest, hok, -⟩ := hmeans
  obtain ⟨hround, hacked, hmatch⟩ := hok hsuccess
  rw [hterm] at hround hacked
  obtain ⟨hbusy, hidle⟩ := hreplicating.append _ request (hasked asked hmem hsame) hrequest
  refine ⟨hacked, ?_, ?_⟩
  · cases hinflight : l.node.rpcInflight peer with
    | true =>
      have hprev : request.prevLogIndex + 1 = l.node.nextIndexOf peer := (hbusy hinflight).2
      omega
    | false => exact absurd hround (Nat.ne_of_lt (hidle hinflight))
  · rw [hnode.memory.lastIndex, ← (hnode.roles.leader hrole).tlog]
    exact hrel.inv.acked_length _ _ _ hacked

theorem shadowed_ackAppend {c : Conn} {rpc : Proto.RaftRpc} {response : Proto.AppendEntriesResponse} {peer : Int}
    (hpacket : ⟨c, c.otherEnd n, rpc⟩ ∈ packets w.history) (hend : c.client = n ∨ c.server = n)
    (hpayload : rpc.payload = .appendEntriesResponse response) (hrole : l.node.role = .leader)
    (hterm : response.term = l.node.currentTerm) (hpos : rpc.requestId ≠ 0)
    (hid : rpc.requestId = l.node.rpcRequestId peer) (hconn : l.node.connectionForPeer peer = some c)
    (hsuccess : response.success = true) (hquiet : ∀ c rpc s, event ≠ some (.send c rpc s)) :
    Shadowed config A w n event { l with node :=
      { l.node.forgetting (fun p => p == peer) with
        matchIndex := l.node.matchIndex.insert peer (min response.matchIndex l.node.lastIndex)
        nextIndex := l.node.nextIndex.insert peer (min response.matchIndex l.node.lastIndex + 1) } } := by
  have hnode := hrel.active n l hview
  obtain ⟨-, hpeer, hne, -, hreplicating, -⟩ := hrel.asked hwired hview hrole hpacket hend hconn hpos hid
  obtain ⟨hacked, hreach, hle⟩ :=
    hrel.acknowledged hwired hview hpacket hend hpayload hrole hterm hpos hid hconn hsuccess
  rw [Nat.min_eq_left hle]
  refine shadowed_answered hrel hview hrole hpeer hne (fun p m hm => ?_) (Nat.succ_pos _)
    (Nat.succ_le_succ hle) (hreplicating.probed.mono hreach) hquiet
  by_cases hpp : p = peer
  · subst hpp
    rw [AList.lookup_insert] at hm
    obtain rfl := Option.some.inj hm
    exact .inr ⟨rfl, .inl hacked⟩
  · rw [AList.lookup_insert_ne hpp] at hm
    exact .inl hm

theorem shadowed_backOff {c : Conn} {rpc : Proto.RaftRpc} {response : Proto.AppendEntriesResponse} {peer : Int}
    (hpacket : ⟨c, c.otherEnd n, rpc⟩ ∈ packets w.history) (hend : c.client = n ∨ c.server = n)
    (hpayload : rpc.payload = .appendEntriesResponse response) (hrole : l.node.role = .leader)
    (hterm : response.term = l.node.currentTerm) (hpos : rpc.requestId ≠ 0)
    (hid : rpc.requestId = l.node.rpcRequestId peer) (hconn : l.node.connectionForPeer peer = some c)
    (hfailure : response.success = false) (hlow : l.node.snapshotIndex + 1 < l.node.nextIndexOf peer)
    (hquiet : ∀ c rpc s, event ≠ some (.send c rpc s)) :
    Shadowed config A w n event { l with node :=
      { l.node.forgetting (fun p => p == peer) with
        nextIndex := l.node.nextIndex.insert peer (l.node.nextIndexOf peer - 1) } } := by
  obtain ⟨-, hpeer, hne, hmeans, hreplicating, hasked⟩ :=
    hrel.asked hwired hview hrole hpacket hend hconn hpos hid
  rw [hpayload] at hmeans
  obtain ⟨asked, request, hmem, hsame, hrequest, -, hbad⟩ := hmeans
  obtain ⟨hbusy, -⟩ := hreplicating.append _ request (hasked asked hmem hsame) hrequest
  have hhigh : l.node.nextIndexOf peer ≤ l.node.lastIndex + 1 := hreplicating.high
  have hprobed : Raft.Probed config.setting A peer l.node.currentTerm (l.node.nextIndexOf peer - 1) := by
    cases hinflight : l.node.rpcInflight peer with
    | true =>
      obtain ⟨hround, hprev⟩ := hbusy hinflight
      rcases hbad hfailure with hlt | ⟨-, hprobed⟩
      · exact absurd (hterm ▸ hlt) (by rw [hround]; exact lt_irrefl _)
      · rw [hterm] at hprobed
        exact hprobed.mono (Nat.le_sub_one_of_lt hprev.le)
    | false => exact (hreplicating.stale (fun h => hpos (hid.trans h)) hinflight).1
  exact shadowed_answered hrel hview hrole hpeer hne (fun p m hm => .inl hm) (by omega) (by omega) hprobed
    hquiet

theorem shadowed_ackSnapshot {c : Conn} {rpc : Proto.RaftRpc} {response : Proto.InstallSnapshotResponse}
    {peer : Int} (hpacket : ⟨c, c.otherEnd n, rpc⟩ ∈ packets w.history) (hend : c.client = n ∨ c.server = n)
    (hpayload : rpc.payload = .installSnapshotResponse response) (hrole : l.node.role = .leader)
    (hterm : response.term = l.node.currentTerm) (hpos : rpc.requestId ≠ 0)
    (hid : rpc.requestId = l.node.rpcRequestId peer) (hconn : l.node.connectionForPeer peer = some c)
    (hsuccess : response.success = true) (hquiet : ∀ c rpc s, event ≠ some (.send c rpc s)) :
    Shadowed config A w n event { l with node :=
      { l.node.forgetting (fun p => p == peer) with
        matchIndex := l.node.matchIndex.insert peer l.node.snapshotIndex
        nextIndex := l.node.nextIndex.insert peer (l.node.snapshotIndex + 1) } } := by
  obtain ⟨-, hpeer, hne, hmeans, hreplicating, hasked⟩ :=
    hrel.asked hwired hview hrole hpacket hend hconn hpos hid
  rw [hpayload] at hmeans
  obtain ⟨asked, request, hmem, hsame, hrequest, hok⟩ := hmeans
  have hround := (hok hsuccess).1.trans hterm
  obtain ⟨hbusy, hidle⟩ := hreplicating.install _ request (hasked asked hmem hsame) hrequest
  have hreach : l.node.nextIndexOf peer ≤ l.node.snapshotIndex := by
    cases hinflight : l.node.rpcInflight peer with
    | true => exact (hbusy hinflight).2
    | false => exact absurd hround (Nat.ne_of_lt (hidle hinflight))
  refine shadowed_answered hrel hview hrole hpeer hne (fun p m hm => ?_) (Nat.succ_pos _)
    (Nat.succ_le_succ (Nat.le_add_right _ _)) (hreplicating.probed.mono (hreach.trans (Nat.le_succ _))) hquiet
  by_cases hpp : p = peer
  · subst hpp
    rw [AList.lookup_insert] at hm
    exact .inr ⟨rfl, .inr (Option.some.inj hm).ge⟩
  · rw [AList.lookup_insert_ne hpp] at hm
    exact .inl hm

/-- A transfer that goes on after an answer is to a peer behind the snapshot. -/
theorem Related.resumes {c : Conn} {rpc : Proto.RaftRpc} {response : Proto.InstallSnapshotResponse} {peer : Int}
    (hpacket : ⟨c, c.otherEnd n, rpc⟩ ∈ Nukv.packets w.history) (hend : c.client = n ∨ c.server = n)
    (hpayload : rpc.payload = .installSnapshotResponse response) (hrole : l.node.role = .leader)
    (hpos : rpc.requestId ≠ 0) (hid : rpc.requestId = l.node.rpcRequestId peer)
    (hconn : l.node.connectionForPeer peer = some c) (hconnected : c ∈ l.node.connected) (hwaiting : l.waiting = []) :
    l.node.nextIndexOf peer ≤ l.node.snapshotIndex := by
  obtain ⟨-, -, -, hmeans, hreplicating, hasked⟩ := hrel.asked hwired hview hrole hpacket hend hconn hpos hid
  rw [hpayload] at hmeans
  obtain ⟨asked, request, hmem, hsame, hrequest, -⟩ := hmeans
  obtain ⟨hbusy, -⟩ := hreplicating.install _ request (hasked asked hmem hsame) hrequest
  cases hinflight : l.node.rpcInflight peer with
  | true => exact (hbusy hinflight).2
  | false =>
    -- an id from an earlier term is kept only while the peer cannot be reached
    rcases (hreplicating.stale (fun h => hpos (hid.trans h)) hinflight).2 with ⟨hin, -⟩ | hgone
    · rw [show (l.toward peer).waiting = [] from hwaiting] at hin
      exact absurd hin List.not_mem_nil
    · exact absurd hconnected (hgone c hconn)

theorem shadowed_resumeSnapshot {c : Conn} {rpc : Proto.RaftRpc} {response : Proto.InstallSnapshotResponse}
    {request : Proto.InstallSnapshotRequest} {peer : Int} {s : RaftNode}
    (hpacket : ⟨c, c.otherEnd n, rpc⟩ ∈ packets w.history) (hend : c.client = n ∨ c.server = n)
    (hpayload : rpc.payload = .installSnapshotResponse response) (hrole : l.node.role = .leader)
    (hpos : rpc.requestId ≠ 0) (hid : rpc.requestId = l.node.rpcRequestId peer)
    (hconn : l.node.connectionForPeer peer = some c) (hconnected : c ∈ l.node.connected) (hwaiting : l.waiting = [])
    (hchunk : l.node.IsChunk request) :
    Shadowed config A w n (some (.send c ⟨l.node.nextRpcId, toUint64 l.node.serverId, .installSnapshot request⟩ s))
      { l with node := l.node.awaiting peer } := by
  have hreach := hrel.resumes hwired hview hpacket hend hpayload hrole hpos hid hconn hconnected hwaiting
  exact shadowed_sendSnapshot hrel hwired hview hrole hconn (fun _ _ h => h) hreach hchunk

end Rounds

/-! ### Bookkeeping -/

section Bookkeeping

variable (hnode : NodeSim config A (packets w.history) n l)
include hnode

theorem shadowed_forget (affected : Int → Bool) (hquiet : ∀ c rpc s, event ≠ some (.send c rpc s)) :
    Shadowed config A w n event { l with node := l.node.forgetting affected } := by
  refine .same hquiet ⟨hnode.memory, hnode.roles, hnode.numbering, fun p hp => ?_,
    fun hrole p hp hne => ?_⟩
  · change (if affected p then 0 else l.node.rpcRequestId p) = 0
    split
    · rfl
    · exact hnode.idle p hp
  · have hpeer := hnode.replicating hrole p hp hne
    have htoward : Local.toward { l with node := l.node.forgetting affected } p =
        { l.toward p with
          requestId := if affected p then 0 else l.node.rpcRequestId p
          inflight := if affected p then false else l.node.rpcInflight p } := rfl
    rw [htoward]
    by_cases haffected : affected p = true
    · rw [if_pos haffected]
      exact .idle rfl hpeer.low hpeer.high hpeer.probed
    · rw [if_neg haffected, if_neg haffected]
      exact hpeer

theorem shadowed_touch {peer : Int} (hnone : l.node.nextIndex.lookup peer = none)
    (hquiet : ∀ c rpc s, event ≠ some (.send c rpc s)) :
    Shadowed config A w n event
      { l with node := { l.node with nextIndex := l.node.nextIndex.insert peer 0 } } := by
  refine .same hquiet ⟨hnode.memory, hnode.roles, hnode.numbering, hnode.idle,
    fun hrole p hp hne => ?_⟩
  have hpeer := hnode.replicating hrole p hp hne
  have hpp : p ≠ peer := by
    rintro rfl
    have hlow : 1 ≤ (l.node.nextIndex.lookup p).getD 0 := hpeer.low
    rw [hnone] at hlow
    exact absurd hlow (by simp)
  have htoward : Local.toward { l with node := { l.node with nextIndex := l.node.nextIndex.insert peer 0 } } p =
      { l.toward p with nextIndex := ((l.node.nextIndex.insert peer 0).lookup p).getD 0 } := rfl
  rw [htoward, AList.lookup_insert_ne hpp]
  exact hpeer

theorem shadowed_skip {peer : Int}
    (hgone : ∀ c, l.node.connectionForPeer peer = some c → c ∉ l.node.connected)
    (hquiet : ∀ c rpc s, event ≠ some (.send c rpc s)) :
    Shadowed config A w n event { l with waiting := l.waiting.erase peer } := by
  refine .same hquiet ⟨hnode.memory, hnode.roles, hnode.numbering, hnode.idle,
    fun hrole p hp hne => ?_⟩
  have hpeer := hnode.replicating hrole p hp hne
  refine ⟨hpeer.low, hpeer.high, hpeer.probed, hpeer.append, hpeer.install, fun h hidle => ?_⟩
  obtain ⟨hprobed, hstale⟩ := hpeer.stale h hidle
  refine ⟨hprobed, ?_⟩
  by_cases hpp : p = peer
  · subst hpp
    exact .inr hgone
  · exact hstale.imp_left (And.imp_left (List.mem_erase_of_ne hpp).mpr)

/-- A frame that does not fit is no first message of a new leader, so no id is awaited. -/
theorem shadowed_oversize (hwired : Wired config w) (hview : w.views n = .active l) {peer : Int} {c : Conn}
    (hrole : l.node.role = .leader) (hinflight : l.node.rpcInflight peer = false)
    (hconn : l.node.connectionForPeer peer = some c) (hconnected : c ∈ l.node.connected)
    (hentries : (NodeM.appendRequest l.node peer).entries ≠ []) (hquiet : ∀ c rpc s, event ≠ some (.send c rpc s)) :
    Shadowed config A w n event { l with node :=
      { l.node with
        rpcInflight := Function.update l.node.rpcInflight peer true
        nextRpcId := l.node.nextRpcId + 1 } } := by
  have hactive := hwired.active n l hview
  obtain ⟨hmem, hother⟩ := hactive.wired peer c hconn
  obtain ⟨hpeer, hne⟩ := hwired.otherEnd (n := n) (hactive.opened c hmem).1
  rw [hother] at hpeer hne
  have hreplicating := hnode.replicating hrole peer hpeer hne
  have hidle : l.node.rpcRequestId peer = 0 := by
    by_contra hne
    rcases (hreplicating.stale hne hinflight).2 with ⟨-, hnext⟩ | hgone
    · exact hentries (appendRequest_entries_nil hnext)
    · exact hgone c hconn hconnected
  refine .same hquiet ⟨hnode.memory, hnode.roles, ⟨Nat.succ_pos _, fun packet hpacket hsender hon hr =>
    (hnode.numbering.fresh packet hpacket hsender hon hr).trans (Nat.lt_succ_self _)⟩, hnode.idle,
    fun _ p hp hpn => ?_⟩
  have htoward : Local.toward { l with node :=
      { l.node with
        rpcInflight := Function.update l.node.rpcInflight peer true
        nextRpcId := l.node.nextRpcId + 1 } } p =
      { l.toward p with inflight := Function.update l.node.rpcInflight peer true p } := rfl
  rw [htoward]
  by_cases hpp : p = peer
  · subst hpp
    exact .idle hidle hreplicating.low hreplicating.high hreplicating.probed
  · rw [Function.update_of_ne hpp]
    exact hnode.replicating hrole p hp hpn

theorem shadowed_setIndexes {nextIndex matchIndex : AList fun _ : Int => Nat} (hrole : l.node.role ≠ .leader)
    (hkeys : ∀ p m, matchIndex.lookup p = some m → p ∈ config.peers ∧ p ≠ n)
    (hquiet : ∀ c rpc s, event ≠ some (.send c rpc s)) :
    Shadowed config A w n event
      { l with node := { l.node with nextIndex := nextIndex, matchIndex := matchIndex } } := by
  refine .same hquiet ⟨hnode.memory, ⟨fun h => ?_, fun h => absurd h hrole, hkeys⟩, hnode.numbering,
    hnode.idle, fun h => absurd h hrole⟩
  obtain ⟨hstood, hleads, hvotes⟩ := hnode.roles.candidate h
  exact ⟨hstood, hleads, hvotes⟩

/-! ### Connections -/

theorem shadowed_reconnect {outbound inbound : Int → Option Conn}
    (hchange : ∀ peer,
      ({ l.node with outboundConnections := outbound, inboundConnections := inbound } :
        RaftNode).connectionForPeer peer = l.node.connectionForPeer peer ∨
      (l.node.rpcRequestId peer = 0 ∨ l.node.connectionForPeer peer = none))
    (hquiet : ∀ c rpc s, event ≠ some (.send c rpc s)) :
    Shadowed config A w n event { l with node :=
      { l.node with outboundConnections := outbound, inboundConnections := inbound } } := by
  have hidle : ∀ p, ({ l.node with outboundConnections := outbound, inboundConnections := inbound } :
      RaftNode).connectionForPeer p = l.node.connectionForPeer p ∨ l.node.rpcRequestId p = 0 := fun p =>
    (hchange p).imp_right fun h => h.elim id (hnode.idle p)
  refine .same hquiet ⟨hnode.memory, hnode.roles, hnode.numbering, fun p hp => ?_,
    fun hrole p hp hne => ?_⟩
  · exact (hidle p).elim (fun hsame => hnode.idle p (hsame.symm.trans hp)) id
  · have hpeer := hnode.replicating hrole p hp hne
    rcases hidle p with hsame | hzero
    · have htoward : Local.toward { l with node :=
          { l.node with outboundConnections := outbound, inboundConnections := inbound } } p = l.toward p :=
        congrArg (fun connection => { l.toward p with connection := connection }) hsame
      rw [htoward]
      exact hpeer
    · exact .idle hzero hpeer.low hpeer.high hpeer.probed

/-- Connections are given up. -/
theorem shadowed_shutdown {connections connected : List Conn}
    (hconnections : ∀ c ∈ connections, c ∈ l.node.connections) (hconnected : ∀ c ∈ connected, c ∈ l.node.connected)
    (hquiet : ∀ c rpc s, event ≠ some (.send c rpc s)) :
    Shadowed config A w n event
      { l with node := { l.node with connections := connections, connected := connected } } := by
  refine .same hquiet ⟨hnode.memory, hnode.roles, ⟨hnode.numbering.pos, fun packet hpacket hsender hon =>
    hnode.numbering.fresh packet hpacket hsender (hconnections _ hon)⟩, hnode.idle, fun hrole p hp hne => ?_⟩
  have hpeer := hnode.replicating hrole p hp hne
  exact ⟨hpeer.low, hpeer.high, hpeer.probed, hpeer.append, hpeer.install, fun h hidle =>
    (hpeer.stale h hidle).imp_right (Or.imp_right fun hgone c hc hin => hgone c hc (hconnected c hin))⟩

end Bookkeeping

end Nukv
