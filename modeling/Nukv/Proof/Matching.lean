import Nukv.Proof.History

/-!
# What a leader believes of its peers

`match_index_` is set in two places. An answer to AppendEntries reports what the peer has acknowledged. An answer
to a chunk of a snapshot only reports how far the transfer has come, and the leader takes it for the snapshot it
has now. It is right to do so when the chunk was one of that snapshot.
-/

namespace Nukv

/-- A chunk, if it is one, of the snapshot at this index. -/
def Proto.Payload.OfSnapshot (index : Nat) : Proto.Payload → Prop
  | .installSnapshot request => request.lastIncludedIndex = index
  | _ => True

instance (index : Nat) (payload : Proto.Payload) : Decidable (payload.OfSnapshot index) := by
  cases payload
  case installSnapshot request => exact inferInstanceAs (Decidable (request.lastIncludedIndex = index))
  all_goals exact .isTrue trivial

/-- A leader that takes the end of a transfer for its own snapshot had sent a chunk of this very snapshot: it has
not taken another one while the last chunk was on its way. -/
def Event.Current (sent : List Packet) (n : Int) : Event → Prop
  | .matchSnapshot c id node =>
    ∀ packet ∈ sent, packet.connection = c ∧ packet.sender = n ∧ packet.rpc.requestId = id →
      packet.rpc.payload.OfSnapshot node.snapshotIndex
  | _ => True

instance (sent : List Packet) (n : Int) (event : Event) : Decidable (event.Current sent n) := by
  cases event
  case matchSnapshot c id node => exact inferInstanceAs (Decidable (∀ packet ∈ sent, _ → _))
  all_goals exact .isTrue trivial

def SnapshotsCurrent (history : List (Int × Event)) : Prop :=
  ∀ event ∈ history, event.2.Current (packets history) event.1

instance (history : List (Int × Event)) : Decidable (SnapshotsCurrent history) :=
  inferInstanceAs (Decidable (∀ event ∈ history, _))

variable [Protobuf] {config : Config} {timely : Prop} {A A' : Shadow} {w w' : World} {n : Int} {l l' : Local}
  {action : LoopAction} {event : Option Event}

omit [Protobuf] in
theorem SnapshotsCurrent.mono {history events : List (Int × Event)} (h : SnapshotsCurrent (history ++ events)) :
    SnapshotsCurrent history := by
  intro event hevent
  have hcurrent := h event (List.mem_append_left _ hevent)
  obtain ⟨n, event⟩ := event
  cases event with
  | matchSnapshot c id node =>
    refine fun packet hpacket => hcurrent packet ?_
    rw [packets, List.filterMap_append]
    exact List.mem_append_left _ hpacket
  | _ => trivial

/-- A leader was elected by this step, or led already in the same term and has at most replaced its snapshot by
one of a greater index. -/
theorem Micro.leader (h : Micro action l event l') (hrole : l'.node.role = .leader) :
    l'.node.currentTerm = l.node.currentTerm ∧ (l.node.role = .candidate ∨ l.node.role = .leader ∧
      (l'.node.snapshotIndex = l.node.snapshotIndex ∧ l'.node.snapshotData = l.node.snapshotData ∨
        l.node.snapshotIndex < l'.node.snapshotIndex)) := by
  rcases h with h | h | h | h | h | h | h | h | h
  case role =>
    cases h with
    | adoptTerm => exact absurd (show Role.follower = .leader from hrole) (by simp)
    | demote => exact absurd (show Role.follower = .leader from hrole) (by simp)
    | campaign => exact absurd (show Role.candidate = .leader from hrole) (by simp)
    | elect s hcandidate => exact ⟨rfl, .inl hcandidate⟩
    | grant c rpc request s =>
      obtain ⟨hterm, hsame, hindex, hdata, -⟩ := l.node.voteSaved_kept (toInt64 request.candidateId)
      exact ⟨hterm, .inr ⟨hsame.symm.trans hrole, .inl ⟨hindex, hdata⟩⟩⟩
    | _ => exact ⟨rfl, .inr ⟨hrole, .inl ⟨rfl, rfl⟩⟩⟩
  case log =>
    cases h with
    | install c rpc request snapshot s haction hpayload hfollower =>
      exact absurd (hfollower.symm.trans hrole) (by simp)
    | _ => exact ⟨rfl, .inr ⟨hrole, .inl ⟨rfl, rfl⟩⟩⟩
  case apply =>
    cases h with
    | compact s hin happlied hlow =>
      refine ⟨rfl, .inr ⟨hrole, .inr ?_⟩⟩
      change l.node.snapshotIndex < l.node.commitIndex
      unfold kSnapshotThreshold at hlow
      omega
    | _ => exact ⟨rfl, .inr ⟨hrole, .inl ⟨rfl, rfl⟩⟩⟩
  all_goals cases h <;> exact ⟨rfl, .inr ⟨hrole, .inl ⟨rfl, rfl⟩⟩⟩

/-- A frame with a chunk is sent by a leader from its snapshot. -/
theorem Micro.sends_chunk {c : Conn} {rpc : Proto.RaftRpc} {s : RaftNode} {request : Proto.InstallSnapshotRequest}
    (h : Micro action l (some (.send c rpc s)) l') (hrequest : rpc.payload = .installSnapshot request) :
    l.node.IsChunk request ∧ l'.node.toLogState = l.node.toLogState := by
  rcases h with h | h | h | h | h | h | h | h | h <;> cases h
  case peer.sendSnapshot | peer.resumeSnapshot =>
    obtain rfl := Proto.Payload.installSnapshot.inj hrequest
    exact ⟨‹_›, rfl⟩
  all_goals cases hrequest

/-- The chunks a leader has sent in its term are of snapshots it had, up to the present one. -/
def Chunked (sent : List Packet) (n : Int) (node : RaftNode) : Prop :=
  node.role = .leader → ∀ packet ∈ sent, packet.sender = n →
    ∀ request, packet.rpc.payload = .installSnapshot request → request.term = node.currentTerm →
      request.lastIncludedIndex ≤ node.snapshotIndex ∧
        (request.lastIncludedIndex = node.snapshotIndex → request.done = false →
          request.offset + request.data.length < node.snapshotData.length)

omit [Protobuf] in
theorem RaftNode.IsChunk.offset_lt {node : RaftNode} {request : Proto.InstallSnapshotRequest}
    (h : node.IsChunk request) (hmore : request.done = false) :
    request.offset + request.data.length < node.snapshotData.length := by
  obtain ⟨offset, hle, rfl⟩ := h
  have hshort := beq_eq_false_iff_ne.mp hmore
  simp only [List.length_take, List.length_drop]
  omega

theorem Tracked.chunked (h : Tracked config timely w A) (hview : w.views n = .active l) :
    Chunked (packets w.history) n l.node := by
  refine h.each (P := fun w _ n l => Chunked (packets w.history) n l.node) ?_ ?_ ?_ ?_ n l hview
  · exact fun _ _ _ _ _ _ _ _ _ _ hrole => nomatch hrole
  · intro w w' A n l c _ _ hhistory _ _ ih
    rw [hhistory]
    exact ih
  · intro w w' A A' n action l l' event htracked htracked' hview hview' hdue hmicro hhistory hsteps ih hrole'
      packet hpacket hsender request hrequest hterm
    obtain ⟨hsame, hbefore⟩ := hmicro.leader hrole'
    rw [hhistory] at hpacket
    rcases mem_packets_moved hpacket with hold | ⟨-, s, rfl⟩
    · rcases hbefore with hcandidate | ⟨hrole, hsnapshot⟩
      · -- no frame of the new term exists yet
        have hlt := ((htracked.related.active n l hview).round_lt htracked.related hcandidate hold hsender).2
          request hrequest
        omega
      · obtain ⟨hle, hdata⟩ := ih hrole packet hold hsender request hrequest (hterm.trans hsame)
        rcases hsnapshot with ⟨hindex, hbytes⟩ | hlt
        · rw [hindex, hbytes]
          exact ⟨hle, hdata⟩
        · exact ⟨by omega, fun heq => by omega⟩
    · obtain ⟨hchunk, hsame⟩ := hmicro.sends_chunk hrequest
      rw [congrArg LogState.snapshotIndex hsame, congrArg LogState.snapshotData hsame]
      refine ⟨?_, fun _ => hchunk.offset_lt⟩
      obtain ⟨offset, -, rfl⟩ := hchunk
      exact le_rfl
  · intro w w' A A' n m l event hne _ _ _ hstep _ ih hrole packet hpacket hsender
    rw [hstep.history] at hpacket
    rcases mem_packets_moved hpacket with hold | ⟨hn, -⟩
    · exact ih hrole packet hold hsender
    · exact absurd (hsender.symm.trans hn) hne

/-- What a leader believes its peers have, they have acknowledged. -/
def Matched (A : Shadow) (node : RaftNode) : Prop :=
  node.role = .leader → ∀ p m, node.matchIndex.lookup p = some m → m = 0 ∨ A.acked p node.currentTerm m

omit [Protobuf] in
theorem Matched.insert {node : RaftNode} {peer : Int} {k : Nat} (h : Matched A node) (hrole : node.role = .leader)
    (hk : A.acked peer node.currentTerm k) :
    ∀ p m, (node.matchIndex.insert peer k).lookup p = some m → m = 0 ∨ A.acked p node.currentTerm m := by
  intro p m hm
  by_cases hp : p = peer
  · subst hp
    rw [AList.lookup_insert] at hm
    obtain rfl := Option.some.inj hm
    exact .inr hk
  · rw [AList.lookup_insert_ne hp] at hm
    exact h hrole p m hm

theorem Tracked.matched (h : Tracked config timely w A) (hcurrent : SnapshotsCurrent w.history)
    (hview : w.views n = .active l) : Matched A l.node := by
  refine h.each (P := fun w A _ l => SnapshotsCurrent w.history → Matched A l.node) ?_ ?_ ?_ ?_ n l hview hcurrent
  · exact fun _ _ _ _ _ _ _ _ _ _ _ hrole => nomatch hrole
  · intro w w' A n l c _ _ hhistory _ _ ih hcurrent
    rw [hhistory] at hcurrent
    exact ih hcurrent
  · intro w w' A A' n action l l' event htracked htracked' hview hview' hdue hmicro hhistory hsteps ih hcurrent
    have hext := hsteps.extends htracked.inv
    have hold : Matched A l.node := ih (hhistory ▸ hcurrent).mono
    have hkept : Matched A' l.node := fun hrole p m hm => (hold hrole p m hm).imp_right (hext.acked _ _ _)
    rcases hmicro with h | h | h | h | h | h | h | h | h
    case role =>
      cases h with
      | adoptTerm => exact fun hrole => absurd (show Role.follower = .leader from hrole) (by simp)
      | demote => exact fun hrole => absurd (show Role.follower = .leader from hrole) (by simp)
      | campaign => exact fun hrole => absurd (show Role.candidate = .leader from hrole) (by simp)
      | elect s hcandidate =>
        intro _ p m hm
        have hkeys := (htracked.related.active n l hview).roles.keys
        have hactive := htracked.wired.active n l hview
        change (l.node.otherPeers.foldl (fun map peer => map.insert peer 0) l.node.matchIndex).lookup p = some m at hm
        rw [lookup_foldl_insert] at hm
        split at hm
        · exact .inl (Option.some.inj hm).symm
        · next hother =>
          obtain ⟨hp, hne⟩ := hkeys p m hm
          exact absurd (by simpa [RaftNode.otherPeers, hactive.serverId, hactive.peers] using ⟨hp, hne⟩) hother
      | grant c rpc request s =>
        obtain ⟨hterm, hsame, -, -, hmatch⟩ := l.node.voteSaved_kept (toInt64 request.candidateId)
        intro hrole p m hm
        rw [hterm]
        exact hkept (hsame.symm.trans hrole) p m (hmatch ▸ hm)
      | _ => exact hkept
    case peer =>
      cases h with
      | ackAppend c rpc response haction hpayload hrole hterm hpos hid hconn hknown hsuccess =>
        subst haction
        obtain ⟨-, -, -, hmeans, -, -⟩ :=
          htracked.related.asked htracked.wired hview hrole hdue.1 hdue.2 hconn hpos hid
        rw [hpayload] at hmeans
        obtain ⟨asked, request, -, -, -, hok, -⟩ := hmeans
        have hacked : A'.acked _ l.node.currentTerm response.matchIndex := hext.acked _ _ _ (hterm ▸ (hok hsuccess).2.1)
        exact fun _ => hkept.insert hrole (htracked'.inv.acked_down _ _ _ _ hacked (Nat.min_le_left _ _))
      | ackSnapshot c rpc response s haction hpayload hrole hterm hpos hid hconn hknown hsuccess hoffset hs =>
        subst haction
        obtain ⟨-, -, -, hmeans, -, -⟩ :=
          htracked.related.asked htracked.wired hview hrole hdue.1 hdue.2 hconn hpos hid
        rw [hpayload] at hmeans
        obtain ⟨asked, request, hmem, hsame, hrequest, hok⟩ := hmeans
        obtain ⟨hround, hanswer⟩ := hok hsuccess
        have hindex : request.lastIncludedIndex = l.node.snapshotIndex := by
          rw [← show s.snapshotIndex = l.node.snapshotIndex from congrArg LogState.snapshotIndex hs]
          rw [hhistory] at hcurrent
          have hlabel := hcurrent (n, .matchSnapshot c rpc.requestId s) (List.mem_append_right _ List.mem_cons_self)
            ⟨c, n, asked⟩ (by rw [packets, List.filterMap_append]; exact List.mem_append_left _ hmem) ⟨rfl, rfl, hsame⟩
          rw [hrequest] at hlabel
          exact hlabel
        rcases hanswer with hacked | ⟨hmore, hnext⟩
        · rw [hindex, hterm] at hacked
          exact fun _ => hkept.insert hrole (hext.acked _ _ _ hacked)
        · -- a transfer that goes on has not reached the end of the snapshot
          have hlt := (htracked.chunked hview hrole _ hmem rfl request hrequest (hround.trans hterm)).2 hindex hmore
          omega
      | setIndexes hrole => exact fun hleads => absurd hleads hrole
      | _ => exact hkept
    all_goals cases h <;> exact hkept
  · intro w w' A A' n m l event _ htracked _ _ hstep hsteps ih hcurrent hrole p k hk
    exact (ih (hstep.history ▸ hcurrent).mono hrole p k hk).imp_right ((hsteps.extends htracked.inv).acked _ _ _)

theorem Tracked.steady (h : Tracked config timely w A) : Raft.Steady A :=
  h.invariant (I := fun _ A => Raft.Steady A) .initial fun _ _ _ _ _ _ htracked _ _ hsteps _ ih =>
    ih.steps htracked.inv hsteps

end Nukv
