import Nukv.Proof.History

/-!
# Linearizable reads

A read is active on a leader from its activation until a quorum has acknowledged it. Its probes carry an id that no
frame carried before, so every acknowledgement that counts was sent after the activation, by a peer that was not in
a later term then. A leader of a later term elected before the activation would have had the vote of one of these
peers. The invariant keeps the terms that all nodes had at the activation.
-/

namespace Nukv

variable [Protobuf] {config : Config} {timely : Prop} {A A' : Shadow} {w w' : World} {n : Int} {l l' : Local}
  {action : LoopAction} {event : Option Event}

/-! ### What a step does to the reads -/

namespace Micro

theorem nextRpcId_le (h : Micro action l event l') : l.node.nextRpcId ≤ l'.node.nextRpcId := by
  have hid : ∀ requested id next, IdFor requested l.node.nextRpcId id next → l.node.nextRpcId ≤ next := by
    rintro requested id next (⟨-, -, rfl⟩ | ⟨-, -, rfl⟩)
    · exact le_rfl
    · exact Nat.le_succ _
  rcases h with h | h | h | h | h | h | h | h | h <;> cases h
  all_goals first
    | exact le_rfl
    | exact Nat.le_succ _
    | exact hid _ _ _ ‹_›

/-- A probe carries the id of the active read. -/
theorem sends_probe {c : Conn} {rpc : Proto.RaftRpc} {s : RaftNode} {request : Proto.ReadIndexRequest}
    (h : Micro action l (some (.send c rpc s)) l') (hrequest : rpc.payload = .readIndex request) :
    ∃ active, l.node.activeReadIndex = some active ∧
      IdFor active.requestId l.node.nextRpcId rpc.requestId l'.node.nextRpcId := by
  rcases h with h | h | h | h | h | h | h | h | h
  case send =>
    cases h with
    | readIndex peer c active id next s hrole hactive hterm hconn hlive hid => exact ⟨active, hactive, hid⟩
    | _ => cases hrequest
  all_goals cases h <;> cases hrequest

/-- The answer to a probe carries the term of its sender. -/
theorem sends_readResponse {c : Conn} {rpc : Proto.RaftRpc} {s : RaftNode} {response : Proto.ReadIndexResponse}
    (h : Micro action l (some (.send c rpc s)) l') (hresponse : rpc.payload = .readIndexResponse response) :
    response.term = l.node.currentTerm := by
  rcases h with h | h | h | h | h | h | h | h | h <;> cases h
  case send.readResponse =>
    obtain rfl := Proto.Payload.readIndexResponse.inj hresponse
    rfl
  all_goals cases hresponse

end Micro

/-! ### The ids of reads -/

/-- The ids that reads wait with are their own, and no probe has carried the id of a read that is not active yet. -/
structure ReadsNumbered (sent : List Packet) (n : Int) (node : RaftNode) : Prop where
  pending : ∀ read ∈ node.pendingReadIndexes, 0 < read.requestId ∧ read.requestId < node.nextRpcId
  nodup : (node.pendingReadIndexes.map PendingReadIndex.requestId).Nodup
  active : ∀ active, node.activeReadIndex = some active → 0 < active.requestId ∧ active.requestId < node.nextRpcId ∧
    ∀ read ∈ node.pendingReadIndexes, read.requestId ≠ active.requestId
  fresh : ∀ packet ∈ sent, packet.sender = n → packet.connection ∈ node.connections →
    ∀ request, packet.rpc.payload = .readIndex request → packet.rpc.requestId < node.nextRpcId ∧
      ∀ read ∈ node.pendingReadIndexes, read.requestId ≠ packet.rpc.requestId

omit [Protobuf] in
/-- Reads that are given up, and ids that are taken by other frames, change nothing. -/
theorem ReadsNumbered.mono {sent : List Packet} {node node' : RaftNode} (h : ReadsNumbered sent n node)
    (hid : node.nextRpcId ≤ node'.nextRpcId) (hconn : ∀ c ∈ node'.connections, c ∈ node.connections)
    (hpending : node'.pendingReadIndexes.Sublist node.pendingReadIndexes)
    (hactive : ∀ active, node'.activeReadIndex = some active → ∃ old, node.activeReadIndex = some old ∧
      old.requestId = active.requestId) : ReadsNumbered sent n node' := by
  refine ⟨fun read hread => ?_, h.nodup.sublist (hpending.map _), fun active hsome => ?_,
    fun packet hpacket hsender hon request hrequest => ?_⟩
  · obtain ⟨hpos, hlt⟩ := h.pending read (hpending.subset hread)
    exact ⟨hpos, by omega⟩
  · obtain ⟨old, hold, hsame⟩ := hactive active hsome
    obtain ⟨hpos, hlt, hne⟩ := h.active old hold
    rw [hsame] at hpos hlt hne
    exact ⟨hpos, by omega, fun read hread => hne read (hpending.subset hread)⟩
  · obtain ⟨hlt, hne⟩ := h.fresh packet hpacket hsender (hconn _ hon) request hrequest
    exact ⟨by omega, fun read hread => hne read (hpending.subset hread)⟩

/-- One step, whatever frame it sends. -/
theorem ReadsNumbered.step {sent : List Packet} (h : ReadsNumbered sent n l.node) (hpos : 0 < l.node.nextRpcId)
    (hstep : Micro action l event l') : ReadsNumbered sent n l'.node := by
  have hid := hstep.nextRpcId_le
  have hconn := fun c => hstep.connections_subset (c := c)
  rcases hstep.reading with hread | ⟨-, -, hsame | ⟨hactive, hpending⟩⟩
  · cases hread with
    | queue result =>
      have hlt : ∀ read ∈ l.node.pendingReadIndexes ++ [⟨l.node.nextRpcId, 0, 0, ∅, result⟩],
          0 < read.requestId ∧ read.requestId < l.node.nextRpcId + 1 := by
        intro read hread
        rcases List.mem_append.mp hread with hold | hnew
        · have := h.pending read hold
          omega
        · obtain rfl := List.mem_singleton.mp hnew
          exact ⟨hpos, Nat.lt_succ_self _⟩
      refine ⟨hlt, ?_, fun active hsome => ?_, fun packet hpacket hsender hon request hrequest => ?_⟩
      · change ((l.node.pendingReadIndexes ++ [_]).map PendingReadIndex.requestId).Nodup
        rw [List.map_append, List.nodup_append]
        refine ⟨h.nodup, List.nodup_singleton _, fun a ha b hb => ?_⟩
        obtain ⟨read, hread, rfl⟩ := List.mem_map.mp ha
        obtain rfl := List.mem_singleton.mp hb
        exact (h.pending read hread).2.ne
      · obtain ⟨hpos', hlt', hne⟩ := h.active active hsome
        refine ⟨hpos', Nat.lt_succ_of_lt hlt', fun read hread => ?_⟩
        rcases List.mem_append.mp hread with hold | hnew
        · exact hne read hold
        · obtain rfl := List.mem_singleton.mp hnew
          exact hlt'.ne'
      · obtain ⟨hlt', hne⟩ := h.fresh packet hpacket hsender hon request hrequest
        refine ⟨Nat.lt_succ_of_lt hlt', fun read hread => ?_⟩
        rcases List.mem_append.mp hread with hold | hnew
        · exact hne read hold
        · obtain rfl := List.mem_singleton.mp hnew
          exact hlt'.ne'
    | activate read rest s _ _ _ hpending =>
      have hmem : ∀ other ∈ rest, other ∈ l.node.pendingReadIndexes := fun other hother => by
        rw [hpending]
        exact List.mem_cons_of_mem _ hother
      have hnodup := h.nodup
      rw [hpending, List.map_cons, List.nodup_cons] at hnodup
      refine ⟨fun other hother => h.pending other (hmem other hother), hnodup.2, fun active hsome => ?_,
        fun packet hpacket hsender hon request hrequest => ?_⟩
      · obtain rfl := Option.some.inj hsome
        obtain ⟨hpos', hlt⟩ := h.pending read (by rw [hpending]; exact List.mem_cons_self)
        refine ⟨hpos', hlt, fun other hother heq => hnodup.1 ?_⟩
        exact List.mem_map.mpr ⟨other, hother, heq⟩
      · obtain ⟨hlt, hne⟩ := h.fresh packet hpacket hsender hon request hrequest
        exact ⟨hlt, fun other hother => hne other (hmem other hother)⟩
    | ack c rpc response active _ _ hactive =>
      refine h.mono hid hconn (.refl _) fun active' hsome => ⟨active, hactive, ?_⟩
      obtain rfl := Option.some.inj hsome
      rfl
    | finish => exact h.mono hid hconn (.refl _) fun _ hsome => nomatch hsome
    | giveUp pending hsub => exact h.mono hid hconn hsub fun _ hsome => nomatch hsome
    | answerTrue => exact h
    | answerFalse => exact h
    | clear => exact h
  · refine h.mono hid hconn ?_ fun active hsome => ⟨active, ?_, rfl⟩
    · rw [congrArg ReadState.pendingReadIndexes hsame]
    · rwa [congrArg ReadState.activeReadIndex hsame] at hsome
  · refine h.mono hid hconn ?_ fun active hsome => ?_
    · rw [hpending]
      exact List.nil_sublist _
    · rw [hactive] at hsome
      exact nomatch hsome

theorem Tracked.readsNumbered (h : Tracked config timely w A) (hview : w.views n = .active l) :
    ReadsNumbered (packets w.history) n l.node := by
  refine h.each (P := fun w _ n l => ReadsNumbered (packets w.history) n l.node) ?_ ?_ ?_ ?_ n l hview
  · intro w w' A n store state _ _ _ _
    exact ⟨fun _ hread => absurd hread List.not_mem_nil, List.nodup_nil, nofun,
      fun _ _ _ hon => absurd hon List.not_mem_nil⟩
  · intro w w' A n l c _ _ hhistory hfresh _ ih
    rw [hhistory]
    refine ⟨ih.pending, ih.nodup, ih.active, fun packet hpacket hsender hon => ?_⟩
    exact ih.fresh packet hpacket hsender ((List.mem_cons.mp hon).resolve_left (hfresh packet hpacket hsender))
  · intro w w' A A' n action l l' event htracked _ hview _ _ hmicro hhistory _ ih
    have hnumbered := ih.step (htracked.related.active n l hview).numbering.pos hmicro
    refine ⟨hnumbered.pending, hnumbered.nodup, hnumbered.active, fun packet hpacket hsender hon request hrequest => ?_⟩
    rw [hhistory] at hpacket
    rcases mem_packets_moved hpacket with hold | ⟨-, s, rfl⟩
    · exact hnumbered.fresh packet hold hsender hon request hrequest
    · -- a new probe carries the id of the active read
      obtain ⟨active, hactive, hid⟩ := hmicro.sends_probe hrequest
      obtain ⟨hpos, hlt, hne⟩ := ih.active active hactive
      rcases hid with ⟨-, hid, -⟩ | ⟨hzero, -⟩
      · rcases hmicro.reading with hread | ⟨-, -, hsame | ⟨-, hnil⟩⟩
        · cases hread
        · rw [congrArg ReadState.pendingReadIndexes hsame, hid]
          exact ⟨hlt.trans_le hmicro.nextRpcId_le, hne⟩
        · rw [hnil, hid]
          exact ⟨hlt.trans_le hmicro.nextRpcId_le, fun _ hread => absurd hread List.not_mem_nil⟩
      · omega
  · intro w w' A A' n m l event hne _ _ _ hstep _ ih
    refine ⟨ih.pending, ih.nodup, ih.active, fun packet hpacket hsender => ?_⟩
    rw [hstep.history] at hpacket
    rcases mem_packets_moved hpacket with hold | ⟨hn, -⟩
    · exact ih.fresh packet hold hsender
    · exact absurd (hsender.symm.trans hn) hne

/-! ### Reads belong to a leader -/

/-- Only a leader has a read under way, and one of its own term. -/
def Local.ReadsLed (l : Local) : Prop :=
  ∀ read, l.node.activeReadIndex = some read ∨ l.answering = some read →
    l.node.role = .leader ∧ read.term = l.node.currentTerm

theorem Local.ReadsLed.step (h : l.ReadsLed) (hstep : Micro action l event l') : l'.ReadsLed := by
  rcases hstep with hstep | hstep | hstep | hstep | hstep | hstep | hstep | hstep | hstep
  case role =>
    intro read hread
    cases hstep with
    | adoptTerm c rpc term s haction hnone =>
      rcases hread with hread | hread
      · exact nomatch hread
      · exact nomatch hnone.symm.trans hread
    | demote c rpc haction hnone =>
      rcases hread with hread | hread
      · exact nomatch hread
      · exact nomatch hnone.symm.trans hread
    | campaign s haction hnone hrole => exact absurd (h read hread).1 hrole
    | grant c rpc request s =>
      obtain ⟨hterm, hrole, -⟩ := l.node.voteSaved_kept (toInt64 request.candidateId)
      obtain ⟨hleader, hsame⟩ := h read hread
      exact ⟨hrole.trans hleader, hsame.trans hterm.symm⟩
    | countVote => exact h read hread
    | elect s hrole => exact absurd ((h read hread).1.symm.trans hrole) (by simp)
  case read =>
    intro read hread
    cases hstep with
    | queue => exact h read hread
    | activate next rest s hnone hrole =>
      rcases hread with hread | hread
      · obtain rfl := Option.some.inj hread
        exact ⟨hrole, rfl⟩
      · exact nomatch hnone.symm.trans hread
    | ack c rpc response active haction hpayload hactive =>
      rcases hread with hread | hread
      · obtain rfl := Option.some.inj hread
        exact h active (.inl hactive)
      · exact h read (.inr hread)
    | finish active hactive =>
      rcases hread with hread | hread
      · exact nomatch hread
      · obtain rfl := Option.some.inj hread
        exact h active (.inl hactive)
    | giveUp pending hsub => exact h read (.inr (hread.resolve_left nofun))
    | answerTrue => exact h read (.inl (hread.resolve_right nofun))
    | answerFalse => exact h read (.inl (hread.resolve_right nofun))
    | clear => exact h read (.inl (hread.resolve_right nofun))
  all_goals cases hstep <;> exact h

theorem Tracked.readsLed (h : Tracked config timely w A) (hview : w.views n = .active l) : l.ReadsLed := by
  refine h.each (P := fun _ _ _ l => l.ReadsLed) ?_ ?_ ?_ ?_ n l hview
  · intro w w' A n store state _ _ _ _ read hread
    exact hread.elim nofun nofun
  · exact fun _ _ _ _ _ _ _ _ _ _ _ ih => ih
  · exact fun _ _ _ _ _ _ _ _ _ _ _ _ _ _ hmicro _ _ ih => ih.step hmicro
  · exact fun _ _ _ _ _ _ _ _ _ _ _ _ _ _ ih => ih

/-! ### Confirming a read -/

/-- The read became the active one of `n` after `past`, and no other has since. -/
def Activated (history : List (Int × Event)) (n : Int) (read : PendingReadIndex) (past : List (Int × Event)) : Prop :=
  ∃ σ since, history = past ++ (n, .activateRead σ) :: since ∧ (∀ s, (n, .activateRead s) ∉ since) ∧
    σ.role = .leader ∧ σ.currentTerm = read.term ∧ σ.commitIndex = read.readIndex ∧
    σ.activeReadIndex.map PendingReadIndex.result = some read.result

/-- No leader before the activation has a greater term than the read. -/
def Confirmed (history : List (Int × Event)) (n : Int) (read : PendingReadIndex) : Prop :=
  ∃ past, Activated history n read past ∧ ∀ m s, (m, .becomeLeader s) ∈ past → s.currentTerm ≤ read.term

/-- An active read, the history before its activation, and the terms of all nodes at that moment. -/
structure Probing (config : Config) (A : Shadow) (w : World) (n : Int) (node : RaftNode) (read : PendingReadIndex)
    (past : List (Int × Event)) (T : Int → Nat) : Prop where
  activated : Activated w.history n read past
  elected : ∀ m s, (m, .becomeLeader s) ∈ past → ∃ Q, config.Quorum Q ∧ ∀ p ∈ Q, s.currentTerm ≤ T p
  reached : ∀ p, T p ≤ A.term p
  acked : ∀ p ∈ read.acknowledgements, p ∈ config.peers ∧ T p ≤ read.term
  answered : ∀ packet ∈ packets w.history, packet.connection.otherEnd packet.sender = n →
    packet.connection ∈ node.connections → ∀ response, packet.rpc.payload = .readIndexResponse response →
    packet.rpc.requestId = read.requestId → T packet.sender ≤ response.term

omit [Protobuf] in
theorem Activated.mono {history more : List (Int × Event)} {read : PendingReadIndex} {past : List (Int × Event)}
    (h : Activated history n read past) (hmore : ∀ s, (n, .activateRead s) ∉ more) :
    Activated (history ++ more) n read past := by
  obtain ⟨σ, since, rfl, hlast, hrest⟩ := h
  refine ⟨σ, since ++ more, by rw [List.append_assoc, List.cons_append], fun s hs => ?_, hrest⟩
  rcases List.mem_append.mp hs with hs | hs
  · exact hlast s hs
  · exact hmore s hs

omit [Protobuf] in
theorem Confirmed.mono {history more : List (Int × Event)} {read : PendingReadIndex} (h : Confirmed history n read)
    (hmore : ∀ s, (n, .activateRead s) ∉ more) : Confirmed (history ++ more) n read := by
  obtain ⟨past, hactivated, hterms⟩ := h
  exact ⟨past, hactivated.mono hmore, hterms⟩

omit [Protobuf] in
/-- A new answer comes from a node that has reached the term it had at the activation. -/
theorem Probing.mono {node node' : RaftNode} {read : PendingReadIndex} {past more : List (Int × Event)} {T : Int → Nat}
    (h : Probing config A w n node read past T) (hext : Raft.Extends A A') (hhistory : w'.history = w.history ++ more)
    (hmore : ∀ s, (n, .activateRead s) ∉ more) (hconn : ∀ c ∈ node'.connections, c ∈ node.connections)
    (hnew : ∀ packet ∈ packets w'.history, packet ∈ packets w.history ∨
      ∀ response, packet.rpc.payload = .readIndexResponse response → response.term = A.term packet.sender) :
    Probing config A' w' n node' read past T := by
  refine ⟨hhistory ▸ h.activated.mono hmore, h.elected, fun p => (h.reached p).trans (hext.term p), h.acked, ?_⟩
  intro packet hpacket hto hon response hresponse hid
  rcases hnew packet hpacket with hold | hterm
  · exact h.answered packet hold hto (hconn _ hon) response hresponse hid
  · exact (hterm response hresponse).symm ▸ h.reached packet.sender

omit [Protobuf] in
/-- The peers that acknowledged the read share a member with every quorum that voted before. -/
theorem Probing.confirmed {node : RaftNode} {read : PendingReadIndex} {past : List (Int × Event)} {T : Int → Nat}
    (h : Probing config A w n node read past T) (hpeers : node.peers = config.peers)
    (hquorum : node.quorum ≤ read.acknowledgements.card) : Confirmed w.history n read := by
  refine ⟨past, h.activated, fun m s hs => ?_⟩
  obtain ⟨Q, hQ, hterms⟩ := h.elected m s hs
  have hacks : config.Quorum {p | p ∈ read.acknowledgements} := by
    refine ⟨read.acknowledgements, fun p hp => ⟨(h.acked p hp).1, hp⟩, ?_⟩
    rw [RaftNode.quorum, hpeers] at hquorum
    exact hquorum
  obtain ⟨p, hp, hack⟩ := hQ.meet hacks
  exact (hterms p hp).trans (h.acked p hack).2

/-- Frames that a step adds: an answer to a probe carries the term of the node that sends it. -/
theorem Micro.answers (htracked : Tracked config timely w A) (hview : w.views n = .active l)
    (hmicro : Micro action l event l') (hhistory : w'.history = w.history ++ event.toList.map fun e => (n, e)) :
    ∀ packet ∈ packets w'.history, packet ∈ packets w.history ∨
      ∀ response, packet.rpc.payload = .readIndexResponse response → response.term = A.term packet.sender := by
  intro packet hpacket
  rw [hhistory] at hpacket
  refine (mem_packets_moved hpacket).imp_right ?_
  rintro ⟨hsender, s, rfl⟩ response hresponse
  rw [hsender, hmicro.sends_readResponse hresponse]
  exact (htracked.related.active n l hview).memory.depicts.term.symm

theorem World.Step.answers (htracked : Tracked config timely w A) (hstep : World.Step config timely w n event w') :
    ∀ packet ∈ packets w'.history, packet ∈ packets w.history ∨
      ∀ response, packet.rpc.payload = .readIndexResponse response → response.term = A.term packet.sender := by
  intro packet hpacket
  cases event with
  | none =>
    rw [hstep.history] at hpacket
    exact .inl ((mem_packets_moved hpacket).resolve_right fun ⟨_, _, h⟩ => nomatch h)
  | some e =>
    rcases hstep.event with ⟨_, _, -, -, rfl, -⟩ | ⟨action, l, l', hview, -, -, hmicro⟩
    · rw [hstep.history] at hpacket
      exact .inl ((mem_packets_moved hpacket).resolve_right fun ⟨_, _, h⟩ => nomatch h)
    · exact hmicro.answers htracked hview hstep.history packet hpacket

/-- No answer to a read that waits is on its way: nobody was asked yet. -/
theorem Tracked.unasked (htracked : Tracked config timely w A) (hview : w.views n = .active l) {read : PendingReadIndex}
    (hread : read ∈ l.node.pendingReadIndexes) {packet : Packet} (hpacket : packet ∈ packets w.history)
    (hto : packet.connection.otherEnd packet.sender = n) (hon : packet.connection ∈ l.node.connections)
    {response : Proto.ReadIndexResponse} (hresponse : packet.rpc.payload = .readIndexResponse response) :
    packet.rpc.requestId ≠ read.requestId := by
  intro hid
  have hmeans := (htracked.related.frames packet hpacket).means
  rw [hresponse, hto] at hmeans
  obtain ⟨rpc, request, hsent, hsame, hrequest⟩ := hmeans
  exact ((htracked.readsNumbered hview).fresh _ hsent rfl hon request hrequest).2 read hread (hid.symm.trans hsame.symm)

/-- A read that has just become active. -/
theorem Tracked.probing (htracked : Tracked config timely w A) (hext : Raft.Extends A A')
    (hview : w.views n = .active l) {read : PendingReadIndex} {rest : List PendingReadIndex} {s : RaftNode}
    (hrole : l.node.role = .leader) (hpending : l.node.pendingReadIndexes = read :: rest)
    (hstate : s.core = l.node.activated read rest) (hhistory : w'.history = w.history ++ [(n, .activateRead s)]) :
    Probing config A' w' n (l.node.activated read rest) { read with
      term := l.node.currentTerm, readIndex := l.node.commitIndex, acknowledgements := {l.node.serverId} }
      w.history A.term := by
  have hactive := htracked.wired.active n l hview
  have hterm : A.term n = l.node.currentTerm := (htracked.related.active n l hview).memory.depicts.term
  constructor
  · refine ⟨s, [], hhistory, fun _ => List.not_mem_nil, ?_, ?_, ?_, ?_⟩
    · exact (congrArg (fun t : RaftNode => t.role) hstate).trans hrole
    · exact (congrArg (fun t : RaftNode => t.currentTerm) hstate).trans rfl
    · exact (congrArg (fun t : RaftNode => t.commitIndex) hstate).trans rfl
    · exact congrArg (Option.map PendingReadIndex.result) ((congrArg (fun t : RaftNode => t.activeReadIndex) hstate).trans rfl)
  · intro m s hs
    obtain ⟨hleads, -⟩ := htracked.events m _ hs
    obtain ⟨Q, hQ, hvoted⟩ := htracked.inv.leads_quorum _ _ hleads
    exact ⟨Q, hQ, fun p hp => htracked.inv.voted_le _ _ _ (hvoted p hp)⟩
  · exact hext.term
  · intro p hp
    obtain rfl : p = n := (Finset.mem_singleton.mp hp).trans hactive.serverId
    exact ⟨hactive.member, hterm.le⟩
  · intro packet hpacket hto hon response hresponse hid
    rw [hhistory, World.mem_packets_append] at hpacket
    have hread : read ∈ l.node.pendingReadIndexes := by
      rw [hpending]
      exact List.mem_cons_self
    exact absurd hid (htracked.unasked hview hread (hpacket.resolve_right nofun) hto hon hresponse)

/-- An acknowledgement that counts comes from a peer that has not passed the term of the read. -/
theorem Probing.ack {active : PendingReadIndex} {past : List (Int × Event)} {T : Int → Nat}
    (h : Probing config A w n l.node active past T) (htracked : Tracked config timely w A)
    (hview : w.views n = .active l) (hactive : l.node.activeReadIndex = some active) {c : Conn} {rpc : Proto.RaftRpc}
    {response : Proto.ReadIndexResponse} (hdue : w.Due timely n l (.receive c rpc))
    (hpayload : rpc.payload = .readIndexResponse response) (hterm : response.term = l.node.currentTerm)
    (hid : rpc.requestId = active.requestId)
    (hconn : l.node.connectionForPeer (toInt32 response.responderId) = some c) :
    Probing config A w n l.node { active with
      acknowledgements := insert (toInt32 response.responderId) active.acknowledgements } past T := by
  obtain ⟨hon, hother⟩ := (htracked.wired.active n l hview).wired _ _ hconn
  obtain ⟨⟨hpeer, -⟩, -⟩ := htracked.related.received htracked.wired hdue.1 hdue.2
  have hopened := (htracked.wired.packets _ hdue.1).opened
  have hback := Conn.otherEnd_otherEnd (htracked.wired.opened c hopened).2.2 hdue.2
  have hle := h.answered _ hdue.1 hback hon response hpayload hid
  rw [hterm, ← (htracked.readsLed hview active (.inl hactive)).2, hother] at hle
  rw [hother] at hpeer
  refine ⟨h.activated, h.elected, h.reached, fun p hp => ?_, h.answered⟩
  rcases Finset.mem_insert.mp hp with rfl | hp
  · exact ⟨hpeer, hle⟩
  · exact h.acked p hp

/-- Every read under way stands as it should. -/
structure ReadsHeld (config : Config) (w : World) (A : Shadow) (n : Int) (l : Local) : Prop where
  active : ∀ read, l.node.activeReadIndex = some read → ∃ past T, Probing config A w n l.node read past T
  answering : ∀ read, l.answering = some read → Confirmed w.history n read

theorem ReadsHeld.step (htracked : Tracked config timely w A) (hext : Raft.Extends A A')
    (hview : w.views n = .active l) (hdue : w.Due timely n l action) (hmicro : Micro action l event l')
    (hhistory : w'.history = w.history ++ event.toList.map fun e => (n, e)) (ih : ReadsHeld config w A n l) :
    ReadsHeld config w' A' n l' := by
  have hconn : ∀ c ∈ l'.node.connections, c ∈ l.node.connections := fun c => hmicro.connections_subset
  have hanswers := hmicro.answers htracked hview hhistory
  have hquiet : (∀ s, event ≠ some (.activateRead s)) → ∀ s, (n, .activateRead s) ∉ event.toList.map fun e => (n, e) := by
    intro hevent s hs
    obtain ⟨e, he, heq⟩ := List.mem_map.mp hs
    exact hevent s ((Option.mem_toList.mp he).trans (congrArg some (Prod.mk.inj heq).2))
  have hactive : (∀ s, event ≠ some (.activateRead s)) → ∀ read past T, Probing config A w n l.node read past T →
      ∃ past T, Probing config A' w' n l'.node read past T := fun hevent read past T h =>
    ⟨past, T, h.mono hext hhistory (hquiet hevent) hconn hanswers⟩
  have hanswering : (∀ s, event ≠ some (.activateRead s)) → ∀ read, Confirmed w.history n read →
      Confirmed w'.history n read := fun hevent read h => hhistory ▸ h.mono (hquiet hevent)
  rcases hmicro.reading with hread | ⟨hevent, hsame, hreads⟩
  · cases hread with
    | activate read rest s hnone hrole hidle hpending hstate =>
      refine ⟨fun active hsome => ?_, fun read hsome => nomatch hnone.symm.trans hsome⟩
      obtain rfl := Option.some.inj hsome
      exact ⟨_, _, htracked.probing hext hview hrole hpending hstate hhistory⟩
    | ack c rpc response active haction hpayload hsome hrole hterm hid hpeer =>
      subst haction
      refine ⟨fun read hread => ?_, fun read hread => hanswering (by simp) read (ih.answering read hread)⟩
      obtain rfl := Option.some.inj hread
      obtain ⟨past, T, hprobing⟩ := ih.active active hsome
      exact hactive (by simp) _ past T (hprobing.ack htracked hview hsome hdue hpayload hterm hid hpeer)
    | finish active hsome hrole hquorum =>
      refine ⟨nofun, fun read hread => hanswering (by simp) read ?_⟩
      obtain rfl := Option.some.inj hread
      obtain ⟨past, T, hprobing⟩ := ih.active active hsome
      exact hprobing.confirmed (htracked.wired.active n l hview).peers hquorum
    | giveUp => exact ⟨nofun, fun read hread => hanswering (by simp) read (ih.answering read hread)⟩
    | queue =>
      refine ⟨fun read hread => ?_, fun read hread => hanswering (by simp) read (ih.answering read hread)⟩
      obtain ⟨past, T, hprobing⟩ := ih.active read hread
      exact hactive (by simp) read past T hprobing
    | _ =>
      refine ⟨fun read hread => ?_, nofun⟩
      obtain ⟨past, T, hprobing⟩ := ih.active read hread
      exact hactive (by simp) read past T hprobing
  · refine ⟨fun read hread => ?_, fun read hread => hanswering hevent read (ih.answering read (hsame ▸ hread))⟩
    rcases hreads with hkept | ⟨hnone, -⟩
    · rw [congrArg ReadState.activeReadIndex hkept] at hread
      obtain ⟨past, T, hprobing⟩ := ih.active read hread
      exact hactive hevent read past T hprobing
    · exact nomatch hnone.symm.trans hread

theorem Tracked.readsHeld (h : Tracked config timely w A) (hview : w.views n = .active l) :
    ReadsHeld config w A n l := by
  refine h.each (P := ReadsHeld config) ?_ ?_ ?_ ?_ n l hview
  · exact fun _ _ _ _ _ _ _ _ _ _ => ⟨nofun, nofun⟩
  · intro w w' A n l c htracked hview hhistory hfresh _ ih
    refine ⟨fun read hread => ?_, fun read hread => hhistory ▸ ih.answering read hread⟩
    obtain ⟨past, T, hactivated, helected, hreached, hacked, hanswered⟩ := ih.active read hread
    refine ⟨past, T, hhistory ▸ hactivated, helected, hreached, hacked, ?_⟩
    intro packet hpacket hto hon response hresponse hid
    rw [hhistory] at hpacket
    refine hanswered packet hpacket hto ((List.mem_cons.mp hon).resolve_left fun hc => ?_) response hresponse hid
    -- an answer on the new connection would have followed a probe on it
    have hmeans := (htracked.related.frames packet hpacket).means
    rw [hresponse, hto] at hmeans
    obtain ⟨rpc, request, hsent, -⟩ := hmeans
    exact hfresh _ hsent rfl hc
  · intro w w' A A' n action l l' event htracked htracked' hview _ hdue hmicro hhistory hsteps ih
    exact ih.step htracked (hsteps.extends htracked.inv) hview hdue hmicro hhistory
  · intro w w' A A' n m l event hne htracked _ _ hstep hsteps ih
    have hmore : ∀ s, (m, .activateRead s) ∉ event.toList.map fun e => (n, e) := by
      intro s hs
      obtain ⟨e, -, heq⟩ := List.mem_map.mp hs
      exact hne (Prod.mk.inj heq).1.symm
    refine ⟨fun read hread => ?_, fun read hread => hstep.history ▸ (ih.answering read hread).mono hmore⟩
    obtain ⟨past, T, hprobing⟩ := ih.active read hread
    exact ⟨past, T, hprobing.mono (hsteps.extends htracked.inv) hstep.history hmore (fun _ h => h) (hstep.answers htracked)⟩

/-- The moment a read becomes the active one. -/
theorem Tracked.activation (h : Tracked config timely w A) {past rest : List (Int × Event)} {σ : RaftNode}
    (hsplit : w.history = past ++ (n, .activateRead σ) :: rest) :
    ∃ w₁ A₁ l read reads, Tracked config timely w₁ A₁ ∧ w₁.history = past ∧ w₁.views n = .active l ∧
      l.node.role = .leader ∧ l.node.pendingReadIndexes = read :: reads ∧ σ.core = l.node.activated read reads := by
  obtain ⟨w₁, A₁, _, _, htracked, hpast, hstep, -⟩ := h.cut _ _ _ _ hsplit
  rcases hstep.event with ⟨_, _, -, -, hload, -⟩ | ⟨action, l, l', hview, -, -, hmicro⟩
  · cases hload
  rcases hmicro with hmicro | hmicro | hmicro | hmicro | hmicro | hmicro | hmicro | hmicro | hmicro
  case read =>
    cases hmicro with
    | activate read reads s _ hrole _ hpending hstate =>
      exact ⟨w₁, A₁, l, read, reads, htracked, hpast, hview, hrole, hpending, hstate⟩
  all_goals cases hmicro

/-- The moment a read is answered with true: the node leads the term of the read, which was confirmed, and it has
applied what it had committed. -/
theorem Tracked.answered (h : Tracked config timely w A) {past rest : List (Int × Event)} {result : Nat} {σ : RaftNode}
    (hsplit : w.history = past ++ (n, .readResult result true σ) :: rest) :
    ∃ w₁ A₁ l read, Tracked config timely w₁ A₁ ∧ w₁.history = past ∧ w₁.views n = .active l ∧
      l.node.role = .leader ∧ l.node.currentTerm = read.term ∧ σ.core = l.node ∧ Confirmed past n read ∧
      read.result = result ∧ read.readIndex ≤ σ.lastApplied := by
  obtain ⟨w₁, A₁, _, _, htracked, rfl, hstep, -⟩ := h.cut _ _ _ _ hsplit
  rcases hstep.event with ⟨_, _, -, -, hload, -⟩ | ⟨action, l, l', hview, -, -, hmicro⟩
  · cases hload
  rcases hmicro with hmicro | hmicro | hmicro | hmicro | hmicro | hmicro | hmicro | hmicro | hmicro
  case read =>
    cases hmicro with
    | answerTrue active s hanswering happlied hstate =>
      obtain ⟨hrole, hterm⟩ := htracked.readsLed hview active (.inr hanswering)
      refine ⟨w₁, A₁, l, active, htracked, rfl, hview, hrole, hterm.symm, hstate,
        (htracked.readsHeld hview).answering active hanswering, rfl, ?_⟩
      exact (happlied hrole hterm.symm).trans_eq (congrArg (fun t : RaftNode => t.lastApplied) hstate).symm
  all_goals cases hmicro

end Nukv
