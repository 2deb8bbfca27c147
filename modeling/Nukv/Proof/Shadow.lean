import Nukv.Proof.Simulation

/-!
# The shadow follows votes and logs

The steps of a node that change its term, its vote or its log, each with the steps of the protocol that the
shadow takes. Accepting entries and installing a snapshot are both `Raft.State.accept`, a successful answer
and an advancing commit index are an acknowledgement without a change.
-/

namespace Nukv

variable [Protobuf] {config : Config} {A A' : Shadow} {w : World} {n : Int} {l l' : Local} {event : Option Event}

/-- How the logs of the terms change: a new leader brings its log, and `Submit` appends an entry. -/
def Grows (A A' : Shadow) (n : Int) (event : Option Event) : Prop :=
  ∀ t, A'.tlog t = A.tlog t ∨ (∀ entry ∈ A'.tlog t, entry.term < t) ∨
    ∃ s entry, event = some (.write (.persistLog none) s) ∧ t = A.term n ∧ A'.tlog t = A.tlog t ++ [entry]

/-- The shadow of `w` can follow the node `n` to `l'`. -/
def Shadowed (config : Config) (A : Shadow) (w : World) (n : Int) (event : Option Event) (l' : Local) : Prop :=
  ∃ A', Raft.Steps config.setting n A A' ∧ Grows A A' n event ∧
    NodeSim config A' (packets (w.moved n (.active l') event).history) n l' ∧
    ∀ c rpc s, event = some (.send c rpc s) →
      PacketSim config A' (packets (w.moved n (.active l') event).history) ⟨c, n, rpc⟩

omit [Protobuf] in
theorem Grows.of_eq (h : A'.tlog = A.tlog) : Grows A A' n event := fun t => .inl (congrFun h t)

theorem Shadowed.quiet (hsteps : Raft.Steps config.setting n A A') (hgrows : Grows A A' n event)
    (hquiet : ∀ c rpc s, event ≠ some (.send c rpc s)) (hnode : NodeSim config A' (packets w.history) n l') :
    Shadowed config A w n event l' := by
  have hsame : packets (w.moved n (.active l') event).history = packets w.history := by
    cases event with
    | none => rw [World.moved_history_none]
    | some event =>
      rw [World.moved_history_some, packets, List.filterMap_append]
      cases event with
      | send c rpc s => exact absurd rfl (hquiet c rpc s)
      | _ => exact List.append_nil _
  refine ⟨A', hsteps, hgrows, ?_, fun c rpc s hevent => absurd hevent (hquiet c rpc s)⟩
  rw [hsame]
  exact hnode

/-- A step that leaves the shadow alone. -/
theorem Shadowed.same (hquiet : ∀ c rpc s, event ≠ some (.send c rpc s))
    (hnode : NodeSim config A (packets w.history) n l') : Shadowed config A w n event l' :=
  .quiet (.refl ..) (.of_eq rfl) hquiet hnode

theorem Shadowed.sends (hsteps : Raft.Steps config.setting n A A') (htlog : A'.tlog = A.tlog) {c : Conn}
    {rpc : Proto.RaftRpc} {s : RaftNode} (hnode : NodeSim config A' (packets w.history ++ [⟨c, n, rpc⟩]) n l')
    (hpacket : PacketSim config A' (packets w.history ++ [⟨c, n, rpc⟩]) ⟨c, n, rpc⟩) :
    Shadowed config A w n (some (.send c rpc s)) l' := by
  have hsame : packets (w.moved n (.active l') (some (.send c rpc s))).history =
      packets w.history ++ [⟨c, n, rpc⟩] := by
    rw [World.moved_history_some, packets, List.filterMap_append]
    rfl
  refine ⟨A', hsteps, .of_eq htlog, ?_, fun c' rpc' s' hevent => ?_⟩
  · rw [hsame]
    exact hnode
  · obtain ⟨rfl, rfl, rfl⟩ := Event.send.inj (Option.some.inj hevent)
    rw [hsame]
    exact hpacket

/-! ### Terms and votes -/

/-- A state is written after the term or the vote changed. -/
theorem Memory.saved {d : LogState} (h : Memory config A n d) (hI : Raft.Inv config.setting A)
    (hsteps : Raft.Steps config.setting n A A') (hlog : A'.log n = A.log n) (hbase : A'.base n = A.base n)
    {t : Nat} {v : Int} (hterm : A'.term n = t)
    (hunvoted : v = -1 → ∀ c, ¬ A'.voted n t c) (hvoted : v ≠ -1 → A'.voted n t v) :
    Memory config A' n
      { d with
        currentTerm := t
        votedFor := v
        store := d.store.written (RaftStorage.persistState t v d.commitIndex d.lastApplied d.snapshotIndex
          d.snapshotTerm) } := by
  obtain ⟨hd, c, a, data, hholds, hc, ha⟩ := h
  have hstate : Depicts config A' n { d.state with currentTerm := t, votedFor := v } :=
    ⟨hterm, hunvoted, hvoted, hbase.trans hd.base, hlog ▸ hd.log, hlog ▸ hd.snapshotTerm, hd.snapshotIndex.steps hsteps hI,
      hd.commitIndex.steps hsteps hI, hd.lastApplied.steps hsteps hI⟩
  exact ⟨hstate, d.commitIndex, d.lastApplied, data,
    hholds.persistState t d.commitIndex d.lastApplied d.snapshotIndex d.snapshotTerm v,
    hd.commitIndex.steps hsteps hI, hd.lastApplied.steps hsteps hI⟩

/-- The shadow moved without touching what a node keeps. -/
theorem Memory.congr {d : LogState} (h : Memory config A n d) (hI : Raft.Inv config.setting A)
    (hsteps : Raft.Steps config.setting n A A') (hterm : A'.term n = A.term n) (hlog : A'.log n = A.log n)
    (hbase : A'.base n = A.base n) (hvoted : ∀ t c, A'.voted n t c ↔ A.voted n t c) : Memory config A' n d := by
  obtain ⟨hd, c, a, data, hholds, hc, ha⟩ := h
  exact ⟨⟨hterm.trans hd.term, fun hnone c hc => hd.unvoted hnone c ((hvoted _ c).mp hc),
    fun hvote => (hvoted _ _).mpr (hd.voted hvote), hbase.trans hd.base, hlog ▸ hd.log, hlog ▸ hd.snapshotTerm,
    hd.snapshotIndex.steps hsteps hI, hd.commitIndex.steps hsteps hI, hd.lastApplied.steps hsteps hI⟩,
    c, a, data, hholds, hc.steps hsteps hI, ha.steps hsteps hI⟩

omit [Protobuf] in
theorem Roles.follower {s : Standing} (hrole : s.role = .follower)
    (hkeys : ∀ p m, s.matchIndex.lookup p = some m → p ∈ config.peers ∧ p ≠ n) : Roles config A n s :=
  ⟨fun h => by simp [hrole] at h, fun h => by simp [hrole] at h, hkeys⟩

section RoleSteps

variable (hrel : Related config A w) (hnode : NodeSim config A (packets w.history) n l)
include hrel hnode

theorem shadowed_adoptTerm {term : Nat} (hlt : l.node.currentTerm < term)
    (hquiet : ∀ c rpc s, event ≠ some (.send c rpc s)) :
    Shadowed config A w n event { l with node := l.node.termAdopted term } := by
  have hterm : A.term n = l.node.currentTerm := hnode.memory.depicts.term
  have hsteps : Raft.Steps config.setting n A (A.bump n term) := .single (.bump n term (hterm ▸ hlt))
  refine .quiet hsteps (.of_eq rfl) hquiet ⟨?_, .follower rfl hnode.roles.keys, hnode.numbering,
    hnode.idle, nofun⟩
  refine hnode.memory.saved hrel.inv hsteps rfl rfl (by simp [Raft.State.bump]) (fun _ c hc => ?_)
    fun h => absurd rfl h
  exact absurd (hrel.inv.voted_le n term c hc) (by omega)

omit hrel in
theorem shadowed_demote (hquiet : ∀ c rpc s, event ≠ some (.send c rpc s)) :
    Shadowed config A w n event { l with node := l.node.steppedDown } :=
  .same hquiet ⟨hnode.memory, .follower rfl hnode.roles.keys, hnode.numbering,
    hnode.idle, nofun⟩

theorem shadowed_campaign (hserver : l.node.serverId = n) (hmember : n ∈ config.peers)
    (hquiet : ∀ c rpc s, event ≠ some (.send c rpc s)) :
    Shadowed config A w n event { l with node := l.node.campaigning } := by
  have hterm : A.term n = l.node.currentTerm := hnode.memory.depicts.term
  have hsteps : Raft.Steps config.setting n A (A.campaign n) := .single (.campaign n)
  have hvoted : (A.campaign n).voted n (l.node.currentTerm + 1) n := .inr ⟨rfl, by rw [hterm], rfl⟩
  have hcandidacy : Candidacy config (A.campaign n) n l.node.campaigning.standing := by
    refine ⟨.inr ⟨rfl, by rw [hterm]; rfl, rfl⟩, fun hl => ?_, fun p hp => ?_⟩
    · -- nobody has led the new term of `n` yet
      obtain ⟨L, hL⟩ := hrel.inv.leads_stood _ _ hl
      have hle : l.node.currentTerm + 1 ≤ A.term n := hrel.inv.stood_le n _ L hL
      omega
    · rw [show p = n from (Finset.mem_singleton.mp hp).trans hserver]
      exact ⟨hmember, hvoted⟩
  refine .quiet hsteps (.of_eq rfl) hquiet ⟨?_, ⟨fun _ => hcandidacy, nofun, hnode.roles.keys⟩, hnode.numbering,
    hnode.idle, nofun⟩
  refine hnode.memory.saved hrel.inv hsteps rfl rfl ?_ (fun hn => ?_) fun _ => ?_
  · simp [Raft.State.campaign, hterm]
  · have := config.positive n hmember
    have hminus : n = -1 := hserver.symm.trans hn
    omega
  · rw [hserver]
    exact hvoted

theorem shadowed_grant {request : Proto.RequestVoteRequest} {c : Int} {L : List RaftLogEntry}
    (hgrants : NodeM.grantsVote l.node request = true) (hcandidate : toInt64 request.candidateId = c)
    (hpeer : c ∈ config.peers) (hstood : A.stood c request.term L) (hindex : request.lastLogIndex = L.length)
    (hlast : request.lastLogTerm = Raft.lastTerm RaftLogEntry.term L)
    (hquiet : ∀ c rpc s, event ≠ some (.send c rpc s)) :
    Shadowed config A w n event { l with node := l.node.voteSaved (toInt64 request.candidateId) } := by
  have hterm : A.term n = l.node.currentTerm := hnode.memory.depicts.term
  have hminus : c ≠ -1 := by
    have := config.positive c hpeer
    omega
  unfold NodeM.grantsVote RaftNode.isCandidateLogUpToDate at hgrants
  simp only [Bool.and_eq_true, Bool.or_eq_true, beq_iff_eq, decide_eq_true_eq] at hgrants
  obtain ⟨⟨hsame, hfree⟩, hup⟩ := hgrants
  rw [hsame] at hstood
  rw [hcandidate] at hfree ⊢
  have hvotes : ∀ c', A.voted n (A.term n) c' → c' = c := by
    intro c' hc'
    rw [hterm] at hc'
    rcases hfree with hnone | heq
    · exact absurd hc' (hnode.memory.depicts.unvoted hnone c')
    · have hvoted : A.voted n l.node.currentTerm l.node.votedFor :=
        hnode.memory.depicts.voted fun h => hminus (heq.symm.trans h)
      exact (hrel.inv.voted_unique n _ _ _ hc' hvoted).trans heq
  have hupToDate : Raft.UpToDate config.setting.termOf L (A.log n) := by
    rw [hnode.memory.lastTerm, hnode.memory.lastIndex, hindex, hlast] at hup
    exact hup
  have hsteps : Raft.Steps config.setting n A (A.grant n c) :=
    .single (.grant n c L hvotes (hterm ▸ hstood) hupToDate)
  have hroles := hnode.roles.congr (hsteps.extends hrel.inv) rfl (fun _ => Iff.rfl) fun _ _ => rfl
  refine .quiet hsteps (.of_eq rfl) hquiet ⟨?_, hroles, hnode.numbering, hnode.idle, fun hrole p hp hne => ?_⟩
  · exact hnode.memory.saved hrel.inv hsteps rfl rfl hterm (fun h => absurd h hminus)
      fun _ => .inr ⟨rfl, hterm.symm, rfl⟩
  · exact (hnode.replicating hrole p hp hne).mono (fun _ _ hk => hk.steps hsteps hrel.inv) fun _ h _ => h

omit hrel in
theorem shadowed_countVote {p : Int} (hrole : l.node.role = .candidate) (hpeer : p ∈ config.peers)
    (hvoted : A.voted p l.node.currentTerm n) (hquiet : ∀ c rpc s, event ≠ some (.send c rpc s)) :
    Shadowed config A w n event
      { l with node := { l.node with grantedVotes := insert p l.node.grantedVotes } } := by
  obtain ⟨hstood, hleads, hvotes⟩ := hnode.roles.candidate hrole
  have hcandidacy : Candidacy config A n
      ({ l.node with grantedVotes := insert p l.node.grantedVotes } : RaftNode).standing :=
    ⟨hstood, hleads, fun q hq => (Finset.mem_insert.mp hq).elim (by rintro rfl; exact ⟨hpeer, hvoted⟩) (hvotes q)⟩
  have hleader : ¬ l.node.role = .leader := by simp [hrole]
  exact .same hquiet ⟨hnode.memory, ⟨fun _ => hcandidacy, fun h => absurd h hleader, hnode.roles.keys⟩,
    hnode.numbering, hnode.idle, fun h => absurd h hleader⟩

/-- A frame of an earlier round was sent in an earlier term. -/
theorem NodeSim.round_lt (hrole : l.node.role = .candidate) {packet : Packet} (hpacket : packet ∈ packets w.history)
    (hsender : packet.sender = n) :
    (∀ request, packet.rpc.payload = .appendEntries request → request.term < l.node.currentTerm) ∧
      ∀ request, packet.rpc.payload = .installSnapshot request → request.term < l.node.currentTerm := by
  have hlt : ∀ t, A.leads t n → t < l.node.currentTerm := by
    intro t hl
    obtain ⟨L, hL⟩ := hrel.inv.leads_stood t n hl
    have hle : t ≤ l.node.currentTerm := (hrel.inv.stood_le n t L hL).trans_eq hnode.memory.depicts.term
    refine Nat.lt_of_le_of_ne hle ?_
    rintro rfl
    exact (hnode.roles.candidate hrole).leads hl
  have hmeans := (hrel.frames packet hpacket).means
  subst hsender
  constructor <;> intro request hrequest <;> rw [hrequest] at hmeans
  · exact hlt _ (Carries.leads hmeans)
  · exact hlt _ (Labels.leads hmeans)

theorem shadowed_elect (hserver : l.node.serverId = n) (hpeers : l.node.peers = config.peers)
    (hrole : l.node.role = .candidate) (hquorum : l.node.quorum ≤ l.node.grantedVotes.card)
    (hquiet : ∀ c rpc s, event ≠ some (.send c rpc s)) :
    Shadowed config A w n event
      { l with node := (NodeM.leaderState l.node).core, waiting := l.node.otherPeers } := by
  have hterm : A.term n = l.node.currentTerm := hnode.memory.depicts.term
  obtain ⟨hstood, hnone, hvotes⟩ := hnode.roles.candidate hrole
  have hother : ∀ p, p ∈ l.node.otherPeers ↔ p ∈ config.peers ∧ p ≠ n := by
    intro p
    simp [RaftNode.otherPeers, hserver, hpeers]
  have hQ : config.setting.Quorum {p | A.voted p (A.term n) n} := by
    refine ⟨l.node.grantedVotes, fun p hp => ⟨(hvotes p hp).1, ?_⟩, ?_⟩
    · exact hterm ▸ (hvotes p hp).2
    · unfold RaftNode.quorum at hquorum
      rw [hpeers] at hquorum
      omega
  have hsteps : Raft.Steps config.setting n A (A.elect n) :=
    .single (.elect n _ hQ (fun _ hp => hp) (hterm ▸ hstood) (hterm ▸ hnone))
  have hleads : (A.elect n).leads l.node.currentTerm n := .inr ⟨hterm.symm, rfl⟩
  have htlog : (A.elect n).tlog l.node.currentTerm = A.log n := by
    rw [← hterm]
    exact Function.update_self ..
  have hkeys : ∀ p m, (NodeM.leaderState l.node).matchIndex.lookup p = some m →
      (p ∈ config.peers ∧ p ≠ n) ∧ m = 0 := by
    intro p m hm
    unfold NodeM.leaderState at hm
    rw [lookup_foldl_insert] at hm
    by_cases hp : p ∈ l.node.otherPeers
    · rw [if_pos hp] at hm
      exact ⟨(hother p).mp hp, (Option.some.inj hm).symm⟩
    · rw [if_neg hp] at hm
      exact absurd ((hother p).mpr (hnode.roles.keys p m hm)) hp
  have hleadership : Leadership (A.elect n) n (NodeM.leaderState l.node).core.standing := by
    refine ⟨hleads, htlog, .inl ?_, fun p m hm => .inr ?_⟩
    · exact hnode.memory.depicts.snapshotTerm.trans_lt (hrel.inv.stood_lastTerm hstood _)
    · rw [(hkeys p m hm).2]
      exact Nat.zero_le _
  have hgrows : Grows A (A.elect n) n event := by
    intro t
    by_cases ht : t = A.term n
    · -- a new leader has no entry of its own term yet
      subst ht
      refine .inr (.inl fun entry hentry => ?_)
      rw [hterm, htlog] at hentry
      exact hterm ▸ hrel.inv.stood_terms n _ _ hstood entry hentry
    · exact .inl (Function.update_of_ne ht ..)
  refine .quiet hsteps hgrows hquiet ⟨?_, ⟨fun h => (by cases h), fun _ => hleadership, fun p m hm => (hkeys p m hm).1⟩, hnode.numbering,
    hnode.idle, fun _ p hp hne => ?_⟩
  · exact hnode.memory.congr hrel.inv hsteps rfl rfl rfl fun _ _ => Iff.rfl
  · have hp' := (hother p).mpr ⟨hp, hne⟩
    have hnext : (NodeM.leaderState l.node).nextIndexOf p = l.node.lastIndex + 1 := by
      unfold NodeM.leaderState RaftNode.nextIndexOf
      rw [lookup_foldl_insert, if_pos hp', Option.getD_some]
    have hidle : (NodeM.leaderState l.node).rpcInflight p = false := if_pos hp'
    have htoward : Local.toward { l with node := (NodeM.leaderState l.node).core, waiting := l.node.otherPeers } p =
        ⟨l.node.currentTerm, l.node.lastIndex, l.node.snapshotIndex, l.node.lastIndex + 1, l.node.rpcRequestId p,
          false, l.node.connectionForPeer p, l.node.connected, l.node.otherPeers⟩ := by
      rw [← hnext]
      exact congrArg (fun inflight => Toward.mk _ _ _ _ _ inflight _ _ _) hidle
    have hlength : ((A.elect n).tlog l.node.currentTerm).length = l.node.lastIndex := by
      rw [htlog, hnode.memory.lastIndex]
    have hround := fun packet (hpacket : packet ∈ packets w.history) => hnode.round_lt hrel hrole hpacket
    rw [htoward]
    exact ⟨Nat.succ_pos _, le_rfl, .of_length hleads (hlength.le.trans (Nat.le_succ _)),
      fun packet request hawaited hrequest => ⟨fun h => (by cases h), fun _ => (hround packet hawaited.1 hawaited.2.1).1 request hrequest⟩,
      fun packet request hawaited hrequest => ⟨fun h => (by cases h), fun _ => (hround packet hawaited.1 hawaited.2.1).2 request hrequest⟩,
      fun _ _ => ⟨.of_length hleads hlength.le, .inl ⟨hp', rfl⟩⟩⟩

end RoleSteps

end Nukv
