import Nukv.Proof.Life
import Nukv.Property.Consensus

/-!
# Who counts

`match_index_`, `granted_votes_` and the acknowledgements of reads are indexed by ids from the wire. The only way for
the id of a stranger to get into one of them starts with an IDENTIFY frame: the leader answers it with `SendAppend`,
whoever sent it. If no stranger introduces itself, elections, commits and reads are decided by configured peers.
-/

namespace Nukv

open Base

/-- A frame that introduces its sender comes from a configured peer. -/
def Introduced (config : Config) : LoopAction → Prop
  | .receive _ rpc => rpc.payload = .identify → toInt32 rpc.senderId ∈ config.peers
  | _ => True

instance (config : Config) (action : LoopAction) : Decidable (Introduced config action) := by
  cases action
  case receive connection rpc => exact inferInstanceAs (Decidable (_ = _ → _ ∈ _))
  all_goals exact .isTrue trivial

/-- Somebody who answers for `p` has granted its vote in a term. -/
def Voted (past : List Moment) (term : Nat) (p : Int) : Prop :=
  ∃ connection rpc response, .call (.receive connection rpc) ∈ past ∧ rpc.payload = .requestVoteResponse response ∧
    toInt32 response.responderId = p ∧ response.term = term ∧ response.voteGranted = true

/-- Somebody who answers for `p` has acknowledged a read. -/
def Acknowledged (past : List Moment) (p : Int) : Prop :=
  ∃ connection rpc response, .call (.receive connection rpc) ∈ past ∧ rpc.payload = .readIndexResponse response ∧
    toInt32 response.responderId = p ∧ response.success = true

theorem Voted.mono {past more : List Moment} {term : Nat} {p : Int} (h : Voted past term p) :
    Voted (past ++ more) term p := by
  obtain ⟨c, rpc, response, hcall, h⟩ := h
  exact ⟨c, rpc, response, List.mem_append_left _ hcall, h⟩

theorem Acknowledged.mono {past more : List Moment} {p : Int} (h : Acknowledged past p) :
    Acknowledged (past ++ more) p := by
  obtain ⟨c, rpc, response, hcall, h⟩ := h
  exact ⟨c, rpc, response, List.mem_append_left _ hcall, h⟩

/-- The acknowledgements of a read. -/
def PendingReadIndex.AckedBy (config : Config) (past : List Moment) (n : Int) (read : PendingReadIndex) : Prop :=
  ∀ p ∈ read.acknowledgements, p ∈ config.peers ∧ (p = n ∨ Acknowledged past p)

theorem PendingReadIndex.AckedBy.mono {config : Config} {past more : List Moment} {n : Int} {read : PendingReadIndex}
    (h : read.AckedBy config past n) : read.AckedBy config (past ++ more) n := fun p hp =>
  ⟨(h p hp).1, (h p hp).2.imp_right .mono⟩

variable [Protobuf] {config : Config} {n : Int} {past : List Moment} {l l' : Local} {action : LoopAction}
  {event : Option Event}

/-! ### Keys -/

omit [Protobuf] in
theorem lookup_insert_cases {map : AList fun _ : Int => Nat} {p q : Int} {value : Nat}
    (h : (map.insert p value).lookup q ≠ none) : q = p ∨ map.lookup q ≠ none := by
  by_cases heq : q = p
  · exact .inl heq
  · rw [AList.lookup_insert_ne heq] at h
    exact .inr h

/-- The ids that a node sends to and counts. -/
structure RaftNode.Keyed (config : Config) (n : Int) (node : RaftNode) : Prop where
  /-- No connection is taken for one to the node itself. -/
  own : node.connectionForPeer n = none
  nextIndex : ∀ p, node.nextIndex.lookup p ≠ none → p ∈ config.peers ∧ p ≠ n
  matchIndex : ∀ p, node.matchIndex.lookup p ≠ none → p ∈ config.peers ∧ p ≠ n

/-- A connection becomes the one of another peer. -/
theorem Micro.own (h : Micro action l event l') (hserver : l.node.serverId = n)
    (hown : l.node.connectionForPeer n = none) : l'.node.connectionForPeer n = none := by
  rcases h.connection with hsame | hconn
  · have hidentity := congrArg Identity.serverId h.identity
    unfold RaftNode.connectionForPeer at hown ⊢
    rwa [hidentity, congrArg ConnectionState.outboundConnections hsame,
      congrArg ConnectionState.inboundConnections hsame]
  · cases hconn with
    | reconnect outbound inbound hchange =>
      rcases hchange n with hsame | ⟨-, hoffers⟩
      · exact hsame.trans hown
      · refine Option.eq_none_iff_forall_ne_some.mpr fun c hc => ?_
        exact (hoffers c hc).2.1 hserver.symm
    | shutdown => exact hown
    | close => exact hown

theorem RaftNode.Keyed.step (h : l.node.Keyed config n) (hplaced : l.node.Placed config n)
    (hintroduced : Introduced config action) (hstep : Micro action l event l') : l'.node.Keyed config n := by
  have hown := hstep.own hplaced.serverId h.own
  have hother : ∀ p ∈ l.node.otherPeers, p ∈ config.peers ∧ p ≠ n := fun p hp => by
    rw [mem_otherPeers, hplaced.peers, hplaced.serverId] at hp
    exact hp
  have hfold : ∀ (map : AList fun _ : Int => Nat) (value : Nat), (∀ p, map.lookup p ≠ none → p ∈ config.peers ∧ p ≠ n) →
      ∀ p, (l.node.otherPeers.foldl (fun map peer => map.insert peer value) map).lookup p ≠ none →
        p ∈ config.peers ∧ p ≠ n := by
    intro map value hmap p hp
    rw [lookup_foldl_insert] at hp
    split at hp
    · next hmem => exact hother p hmem
    · exact hmap p hp
  have hinsert : ∀ (map : AList fun _ : Int => Nat) (value : Nat) (q : Int), q ∈ config.peers ∧ q ≠ n →
      (∀ p, map.lookup p ≠ none → p ∈ config.peers ∧ p ≠ n) →
      ∀ p, (map.insert q value).lookup p ≠ none → p ∈ config.peers ∧ p ≠ n := by
    intro map value q hq hmap p hp
    rcases lookup_insert_cases hp with rfl | hp
    · exact hq
    · exact hmap p hp
  rcases hstep with hstep | hstep | hstep | hstep | hstep | hstep | hstep | hstep | hstep
  case role =>
    cases hstep with
    | elect => exact ⟨hown, hfold _ _ h.nextIndex, hfold _ _ h.matchIndex⟩
    | _ => exact ⟨hown, h.nextIndex, h.matchIndex⟩
  case peer =>
    cases hstep with
    | touch peer hnone haddress hconn =>
      refine ⟨hown, hinsert _ _ _ ?_ h.nextIndex, h.matchIndex⟩
      rcases haddress with hmem | ⟨c, rpc, rfl, hidentify, rfl⟩
      · exact hother peer hmem
      · refine ⟨hintroduced hidentify, fun heq => hconn ?_⟩
        rw [heq]
        exact h.own
    | ackAppend c rpc response _ _ _ _ _ _ _ hknown =>
      have hpeer := h.nextIndex _ hknown
      exact ⟨hown, hinsert _ _ _ hpeer h.nextIndex, hinsert _ _ _ hpeer h.matchIndex⟩
    | backOff c rpc response _ _ _ _ _ _ _ _ hlow =>
      exact ⟨hown, hinsert _ _ _ (h.nextIndex _ (lookup_ne_none_of_lt hlow)) h.nextIndex, h.matchIndex⟩
    | ackSnapshot c rpc response s _ _ _ _ _ _ _ hknown =>
      have hpeer := h.nextIndex _ hknown
      exact ⟨hown, hinsert _ _ _ hpeer h.nextIndex, hinsert _ _ _ hpeer h.matchIndex⟩
    | setIndexes => exact ⟨hown, hfold _ _ h.nextIndex, hfold _ _ h.matchIndex⟩
    | _ => exact ⟨hown, h.nextIndex, h.matchIndex⟩
  all_goals cases hstep <;> exact ⟨hown, h.nextIndex, h.matchIndex⟩

/-! ### Votes -/

structure RaftNode.Elected (config : Config) (n : Int) (past : List Moment) (node : RaftNode) : Prop where
  votes : ∀ p ∈ node.grantedVotes, p ∈ config.peers
  granted : node.role = .candidate → ∀ p ∈ node.grantedVotes, p = n ∨ Voted past node.currentTerm p

theorem RaftNode.Elected.step (h : l.node.Elected config n past) (hplaced : l.node.Placed config n)
    (hcall : .call action ∈ past) (hstep : Micro action l event l') : l'.node.Elected config n past := by
  have hsame : l'.node.grantedVotes = l.node.grantedVotes → l'.node.role = l.node.role →
      l'.node.currentTerm = l.node.currentTerm → l'.node.Elected config n past := by
    intro hvotes hrole hterm
    refine ⟨?_, ?_⟩
    · rw [hvotes]
      exact h.votes
    · rw [hvotes, hrole, hterm]
      exact h.granted
  rcases hstep with hstep | hstep | hstep | hstep | hstep | hstep | hstep | hstep | hstep
  case role =>
    cases hstep with
    | adoptTerm => exact ⟨h.votes, fun hrole => absurd (show Role.follower = .candidate from hrole) (by simp)⟩
    | demote => exact ⟨h.votes, fun hrole => absurd (show Role.follower = .candidate from hrole) (by simp)⟩
    | campaign =>
      have hself : ∀ p ∈ ({l.node.serverId} : Finset Int), p = n := fun p hp =>
        (Finset.mem_singleton.mp hp).trans hplaced.serverId
      exact ⟨fun p hp => hself p hp ▸ hplaced.member, fun _ p hp => .inl (hself p hp)⟩
    | grant c rpc request s =>
      obtain ⟨hterm, hrole, -⟩ := l.node.voteSaved_kept (toInt64 request.candidateId)
      exact hsame rfl hrole hterm
    | countVote c rpc response haction hpayload hrole hterm hconn hmember hgranted =>
      subst haction
      rw [mem_otherPeers, hplaced.peers] at hmember
      refine ⟨fun p hp => ?_, fun _ p hp => ?_⟩
      · rcases Finset.mem_insert.mp hp with rfl | hp
        · exact hmember.1
        · exact h.votes p hp
      · rcases Finset.mem_insert.mp hp with rfl | hp
        · exact .inr ⟨c, rpc, response, hcall, hpayload, rfl, hterm, hgranted⟩
        · exact h.granted hrole p hp
    | elect => exact ⟨h.votes, fun hrole => absurd (show Role.leader = .candidate from hrole) (by simp)⟩
  all_goals cases hstep <;> exact hsame rfl rfl rfl

/-! ### Reads -/

structure Local.Acked (config : Config) (n : Int) (past : List Moment) (l : Local) : Prop where
  active : ∀ read, l.node.activeReadIndex = some read → read.AckedBy config past n
  pending : ∀ read ∈ l.node.pendingReadIndexes, read.acknowledgements = ∅
  answering : ∀ read, l.answering = some read →
    read.AckedBy config past n ∧ l.node.quorum ≤ read.acknowledgements.card

theorem Local.Acked.step (h : l.Acked config n past) (hplaced : l.node.Placed config n) (hkeyed : l.node.Keyed config n)
    (hcall : .call action ∈ past) (hstep : Micro action l event l') : l'.Acked config n past := by
  have hquorum : l'.node.quorum = l.node.quorum := by
    unfold RaftNode.quorum
    rw [congrArg Identity.peers hstep.identity]
  rcases hstep.reading with hread | ⟨-, hanswering, hsame | ⟨hnone, hnil⟩⟩
  · cases hread with
    | queue result =>
      refine ⟨h.active, fun read hread => ?_, h.answering⟩
      rcases List.mem_append.mp hread with hold | hnew
      · exact h.pending read hold
      · rw [List.mem_singleton.mp hnew]
    | activate read rest s hnone _ _ hpending =>
      refine ⟨fun active hactive p hp => ?_, fun read hread => h.pending read ?_, fun read hread => ?_⟩
      · obtain rfl := Option.some.inj hactive
        have hself : p = n := (Finset.mem_singleton.mp hp).trans hplaced.serverId
        exact ⟨hself ▸ hplaced.member, .inl hself⟩
      · rw [hpending]
        exact List.mem_cons_of_mem _ hread
      · exact nomatch hnone.symm.trans hread
    | ack c rpc response active haction hpayload hactive hrole hterm hid hconn hknown hsuccess =>
      subst haction
      refine ⟨fun read hread p hp => ?_, h.pending, h.answering⟩
      obtain rfl := Option.some.inj hread
      rcases Finset.mem_insert.mp hp with rfl | hp
      · exact ⟨(hkeyed.nextIndex _ hknown).1, .inr ⟨c, rpc, response, hcall, hpayload, rfl, hsuccess⟩⟩
      · exact h.active active hactive p hp
    | finish active hactive hrole hcard =>
      refine ⟨nofun, h.pending, fun read hread => ?_⟩
      obtain rfl := Option.some.inj hread
      exact ⟨h.active active hactive, hcard⟩
    | giveUp pending hsub => exact ⟨nofun, fun read hread => h.pending read (hsub.subset hread), h.answering⟩
    | answerTrue => exact ⟨h.active, h.pending, nofun⟩
    | answerFalse => exact ⟨h.active, h.pending, nofun⟩
    | clear => exact ⟨h.active, h.pending, nofun⟩
  · refine ⟨?_, ?_, ?_⟩
    · rw [congrArg ReadState.activeReadIndex hsame]
      exact h.active
    · rw [congrArg ReadState.pendingReadIndexes hsame]
      exact h.pending
    · rw [hanswering, hquorum]
      exact h.answering
  · refine ⟨fun read hread => ?_, fun read hread => ?_, ?_⟩
    · exact nomatch hnone.symm.trans hread
    · rw [hnil] at hread
      exact absurd hread List.not_mem_nil
    · rw [hanswering, hquorum]
      exact h.answering

/-! ### A whole run -/

/-- The ids that a process keeps are ids of configured peers. -/
structure Configured (config : Config) (n : Int) (past : List Moment) (l : Local) : Prop where
  keyed : l.node.Keyed config n
  elected : l.node.Elected config n past
  acked : l.Acked config n past

omit [Protobuf] in
theorem Configured.mono {more : List Moment} (h : Configured config n past l) : Configured config n (past ++ more) l :=
  ⟨h.keyed, ⟨h.elected.votes, fun hrole p hp => (h.elected.granted hrole p hp).imp_right .mono⟩,
    fun read hread => (h.acked.active read hread).mono, h.acked.pending,
    fun read hread => ⟨(h.acked.answering read hread).1.mono, (h.acked.answering read hread).2⟩⟩

theorem Life.configured (h : Life config n (Introduced config) (.active l) past) : Configured config n past l := by
  refine h.each (P := fun past l => Configured config n past l) ?_ ?_ ?_
  · intro past store state _ _ _
    exact ⟨⟨if_neg (lt_irrefl _), fun p hp => absurd rfl hp, fun p hp => absurd rfl hp⟩,
      ⟨fun p hp => absurd hp (Finset.notMem_empty p),
        fun hrole => absurd (show Role.follower = .candidate from hrole) (by simp)⟩,
      nofun, fun _ hread => absurd hread List.not_mem_nil, nofun⟩
  · intro past l action _ _ _ ih
    obtain ⟨hidentity, hlog, helection, -, hnext, hmatch, hreads, hconn⟩ := entered_kept n action l.node
    have hmono : Configured config n (past ++ [.call action]) l := ih.mono
    obtain ⟨⟨hown, hnextIndex, hmatchIndex⟩, ⟨hvotes, hgranted⟩, hactive, hpending, hanswering⟩ := hmono
    refine ⟨⟨(hconn n).trans hown, hnext ▸ hnextIndex, hmatch ▸ hmatchIndex⟩, ⟨?_, ?_⟩, ?_, ?_, fun read hread => ?_⟩
    · rw [congrArg ElectionState.grantedVotes helection]
      exact hvotes
    · rw [congrArg ElectionState.grantedVotes helection, congrArg ElectionState.role helection,
        congrArg LogState.currentTerm hlog]
      exact hgranted
    · rw [congrArg ReadState.activeReadIndex hreads]
      exact hactive
    · rw [congrArg ReadState.pendingReadIndexes hreads]
      exact hpending
    · rw [RaftNode.quorum, congrArg Identity.peers hidentity]
      exact hanswering read hread
  · intro past l l' action event hlife hcall hadmits hstep ih
    have hplaced := hlife.active_placed
    exact Configured.mono ⟨ih.keyed.step hplaced hadmits hstep, ih.elected.step hplaced hcall.mem hstep,
      ih.acked.step hplaced ih.keyed hcall.mem hstep⟩

/-- Who has decided an election, a commit or a read, given what had happened before. -/
def DecidedByPeers (config : Config) (n : Int) (past : List Moment) : Event → Prop
  | .becomeLeader s => config.Quorum {p | p = n ∨ Voted past s.currentTerm p}
  | .advanceCommit s => config.Quorum {p | p = n ∨ ∃ m, s.matchIndex.lookup p = some m ∧ s.commitIndex ≤ m}
  | .readResult _ true _ => config.Quorum {p | p = n ∨ Acknowledged past p}
  | _ => True

theorem Configured.decided {e : Event} (h : Configured config n past l) (hplaced : l.node.Placed config n)
    (hstep : Micro action l (some e) l') : DecidedByPeers config n past e := by
  have hquorum : ∀ F : Finset Int, l.node.quorum ≤ F.card → config.peers.length / 2 < F.card := by
    intro F hF
    rw [RaftNode.quorum, hplaced.peers] at hF
    exact hF
  rcases hstep with hstep | hstep | hstep | hstep | hstep | hstep | hstep | hstep | hstep
  case role =>
    cases hstep with
    | elect s hrole hcard hstate =>
      have hterm : s.currentTerm = l.node.currentTerm := (congrArg (fun t : RaftNode => t.currentTerm) hstate).trans rfl
      refine ⟨l.node.grantedVotes, fun p hp => ⟨h.elected.votes p hp, ?_⟩, hquorum _ hcard⟩
      rw [Set.mem_ofPred_eq, hterm]
      exact h.elected.granted hrole p hp
    | _ => trivial
  case log =>
    cases hstep with
    | advance index s hrole hindex hstate =>
      have hmatch : s.matchIndex = l.node.matchIndex := (congrArg (fun t : RaftNode => t.matchIndex) hstate).trans rfl
      have hcommit : s.commitIndex = index := (congrArg (fun t : RaftNode => t.commitIndex) hstate).trans rfl
      change config.Quorum {p | p = n ∨ ∃ m, s.matchIndex.lookup p = some m ∧ s.commitIndex ≤ m}
      rw [hmatch, hcommit]
      refine Config.quorum_replicated hplaced.peers hplaced.member (fun p m hm => h.keyed.matchIndex p ?_)
        (NodeM.commitCandidate_some hindex).2.2.2
      rw [hm]
      exact Option.some_ne_none m
    | _ => trivial
  case read =>
    cases hstep with
    | answerTrue active s hanswering =>
      obtain ⟨hacked, hcard⟩ := h.acked.answering active hanswering
      exact ⟨active.acknowledgements, hacked, hquorum _ hcard⟩
    | _ => trivial
  all_goals cases hstep <;> trivial

/-- As long as only configured peers introduce themselves, no other frame gets an id that is not configured into
`match_index_`, `granted_votes_` or the acknowledgements of a read, and elections, commits and reads are decided by
majorities of the configured peers. -/
theorem onlyPeersCount {process : Process} (h : Process.Run config n (Introduced config) process) :
    (∀ node, process.status = .running node →
      (∀ p, node.matchIndex.lookup p ≠ none ↔ p ∈ config.peers ∧ p ≠ n) ∧ (∀ p ∈ node.grantedVotes, p ∈ config.peers) ∧
      ∀ read, node.activeReadIndex = some read ∨ read ∈ node.pendingReadIndexes →
        ∀ p ∈ read.acknowledgements, p ∈ config.peers) ∧
    ∀ before e after, process.past = before ++ .effect e :: after → DecidedByPeers config n before e := by
  obtain ⟨hlife, hpoised⟩ := h.life
  refine ⟨fun node hnode => ?_, hlife.effects (fun _ _ _ _ _ => trivial) ?_⟩
  · rw [hnode] at hlife
    have hplaced := hlife.active_placed
    obtain ⟨hkeyed, helected, hacked⟩ := hlife.configured
    refine ⟨fun p => ⟨hkeyed.matchIndex p, fun hp => (hpoised node hnode).2 p ?_⟩, helected.votes, ?_⟩
    · rw [RaftNode.mem_otherPeers, show node.peers = config.peers from hplaced.peers,
        show node.serverId = n from hplaced.serverId]
      exact hp
    · rintro read (hread | hread) p hp
      · exact (hacked.active read hread p hp).1
      · rw [hacked.pending read hread] at hp
        exact absurd hp (Finset.notMem_empty p)
  · exact fun past l l' action e hlife _ _ hstep => hlife.configured.decided hlife.active_placed hstep

/-- Node 1 is elected with the vote of node 2 and commits eight commands with it, which it compacts. -/
def compacting : List Process.Act :=
  [.run .start, .run (.connect 2 0), .run .electionTimeout,
    .run (.receive ⟨1, 2, 0⟩ ⟨2, 2, .requestVoteResponse ⟨1, true, 2⟩⟩),
    .run (.receive ⟨1, 2, 0⟩ ⟨3, 2, .appendEntriesResponse ⟨1, true, 0, 2⟩⟩)] ++
  (List.range 8).map (fun i => .run (.submit ⟨i, ⟨.put, 0, 0, [107], [118]⟩⟩)) ++
  [.run (.receive ⟨1, 2, 0⟩ ⟨4, 2, .appendEntriesResponse ⟨1, true, 1, 2⟩⟩),
    .run (.receive ⟨1, 2, 0⟩ ⟨5, 2, .appendEntriesResponse ⟨1, true, 8, 2⟩⟩)]

/-- Then a stranger with id 9 introduces itself, receives the snapshot and acknowledges the next command. -/
def intruding : List Process.Act :=
  [.run (.accept ⟨9, 1, 0⟩), .run (.receive ⟨9, 1, 0⟩ ⟨1, 9, .identify⟩),
    .run (.receive ⟨9, 1, 0⟩ ⟨6, 9, .installSnapshotResponse ⟨1, true, 9, 7⟩⟩),
    .run (.receive ⟨9, 1, 0⟩ ⟨7, 9, .appendEntriesResponse ⟨1, true, 8, 9⟩⟩),
    .run (.submit ⟨8, ⟨.put, 0, 0, [107], [118]⟩⟩), .run (.receive ⟨9, 1, 0⟩ ⟨2, 9, .identify⟩),
    .run (.receive ⟨9, 1, 0⟩ ⟨9, 9, .appendEntriesResponse ⟨1, true, 9, 9⟩⟩)]

/-- Whether the event is that the leader has advanced its commit index to `index`. -/
def commitsAt (index : Nat) : Event → Bool
  | .advanceCommit s => s.commitIndex == index
  | _ => false

omit [Protobuf] in
theorem onlyPeersCount_compacting : ∃ process before s after, @Process.Run Wire.protobuf trio 1 (Introduced trio) process ∧
    process.past = before ++ .effect (.advanceCommit s) :: after ∧ s.commitIndex = 8 ∧
    trio.Quorum {p | p = 1 ∨ ∃ m, s.matchIndex.lookup p = some m ∧ s.commitIndex ≤ m} := by
  obtain ⟨process, hrun, htest⟩ := @Process.run_of_play Wire.protobuf trio 1 (Introduced trio) compacting
    (fun process => process.past.any (Moment.causes (commitsAt 8))) (by decide +kernel) (by decide +kernel)
  obtain ⟨event, hmem, hevent⟩ := exists_of_causes htest
  unfold commitsAt at hevent
  split at hevent
  · next s =>
    obtain ⟨before, after, hpast⟩ := List.append_of_mem hmem
    have hdecided := (@onlyPeersCount Wire.protobuf trio 1 process hrun).2 before _ after hpast
    exact ⟨process, before, s, after, hrun, hpast, beq_iff_eq.mp hevent, hdecided⟩
  · cases hevent

omit [Protobuf] in
/-- A leader commits an entry that no other configured peer has. -/
theorem strangerCounts : ∃ process node, @Process.Run Wire.protobuf trio 1 (fun _ => True) process ∧
    process.status = .running node ∧ (9 : Int) ∉ trio.peers ∧ node.matchIndex.lookup 9 = some 9 ∧
    node.commitIndex = 9 ∧ node.matchIndex.lookup 2 = some 8 ∧ node.matchIndex.lookup 3 = some 0 := by
  obtain ⟨process, hrun, htest⟩ := @Process.run_of_play Wire.protobuf trio 1 (fun _ => True) (compacting ++ intruding)
    (fun process => process.status.runs fun node => node.matchIndex.lookup 9 == some 9 && node.commitIndex == 9 &&
      node.matchIndex.lookup 2 == some 8 && node.matchIndex.lookup 3 == some 0)
    (fun act _ => by cases act <;> trivial) (by decide +kernel)
  obtain ⟨node, hnode, htest⟩ := Status.exists_of_runs htest
  simp only [Bool.and_eq_true, beq_iff_eq] at htest
  obtain ⟨⟨⟨hstranger, hcommit⟩, hsecond⟩, hthird⟩ := htest
  exact ⟨process, node, hrun, hnode, by decide, hstranger, hcommit, hsecond, hthird⟩

end Nukv
