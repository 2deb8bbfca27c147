import Nukv.Proof.Matching
import Nukv.Proof.Replay
import Nukv.Property.Labels
import Nukv.Property.Snapshots

/-!
# The source of a transfer

Nodes may have different snapshots with one label, but they do not send them. `SendSnapshot` is for a peer whose
`next_index_` is not above the snapshot. A new leader has every `next_index_` above all it has, and does not move it back
to the snapshot, so it sends only snapshots that it has taken since. It labels them with an entry of its own term: what had
been committed before it was elected is in an earlier snapshot, is too little for one, or cannot be applied.

So the label of a chunk names the leader, and all chunks with one label are of one snapshot.
-/

namespace Nukv

section Taken

variable [Protobuf] {config : Config} {timely : Prop} {A A' : Shadow} {w w' : World} {n : Int} {l l' : Local}
  {action : LoopAction} {event : Option Event} {d d' : LogState}

/-! ### When a snapshot is taken -/

/-- The next command is committed and cannot be applied. -/
def Stuck (A : Shadow) (n : Int) (d : LogState) : Prop :=
  d.lastApplied < d.commitIndex ∧ ∃ entry, (A.log n)[d.lastApplied]? = some entry ∧
    ∀ command, Protobuf.command.parse entry.command = some command → ∀ index commitIndex batch,
      CommandApplier.applyAtomically d.store command index commitIndex ≠ .ok batch

/-- No snapshot is taken with the present commit index. -/
def Undue (A : Shadow) (n : Int) (d : LogState) : Prop :=
  d.commitIndex < d.snapshotIndex + kSnapshotThreshold ∨ Stuck A n d

theorem Undue.congr (h : Undue A n d) (hagrees : d.store.Agrees d'.store) (happlied : d'.lastApplied = d.lastApplied)
    (hcommit : d'.commitIndex = d.commitIndex) (hsnapshot : d'.snapshotIndex = d.snapshotIndex) : Undue A n d' := by
  unfold Undue Stuck at h ⊢
  rw [happlied, hcommit, hsnapshot]
  refine h.imp_right fun ⟨hlt, entry, hentry, hrefused⟩ => ⟨hlt, entry, hentry, fun command hparse index commit batch hok => ?_⟩
  obtain ⟨batch', hbatch', -⟩ := hagrees.symm.applied hok index commit
  exact hrefused command hparse index commit batch' hbatch'

theorem Undue.of_take (h : Undue A n d) (htake : (A'.log n).take d.commitIndex = (A.log n).take d.commitIndex) :
    Undue A' n d := by
  refine h.imp_right fun ⟨hlt, entry, hentry, hrefused⟩ => ⟨hlt, entry, ?_, hrefused⟩
  rwa [Raft.getElem?_eq_of_take_eq hlt htake]

/-- What is known when a snapshot is taken: outside `ApplyCommitted` none is due, and a leader labels one with an entry of
its own term. -/
structure Taking (A : Shadow) (n : Int) (role : Role) (applying : Bool) (d : LogState) : Prop where
  low : d.snapshotIndex ≤ d.lastApplied
  outside : applying = false → Undue A n d
  leader : role = .leader → Undue A n d ∨
    Raft.lastTerm RaftLogEntry.term ((A.log n).take d.commitIndex) = d.currentTerm

theorem Taking.of_take {role : Role} {applying : Bool} (h : Taking A n role applying d)
    (htake : (A'.log n).take d.commitIndex = (A.log n).take d.commitIndex) : Taking A' n role applying d := by
  refine ⟨h.low, fun hout => (h.outside hout).of_take htake, fun hrole => ?_⟩
  rw [htake]
  exact (h.leader hrole).imp_left (·.of_take htake)

/-- What does not concern the commit index and the state machine. -/
theorem Taking.congr {role role' : Role} {applying : Bool} (h : Taking A n role applying d)
    (hagrees : d.store.Agrees d'.store) (happlied : d'.lastApplied = d.lastApplied) (hcommit : d'.commitIndex = d.commitIndex)
    (hsnapshot : d'.snapshotIndex = d.snapshotIndex)
    (hrole : role' = .leader → role = .leader ∧ d'.currentTerm = d.currentTerm ∨ applying = false) :
    Taking A n role' applying d' := by
  have hundue : Undue A n d → Undue A n d' := fun hundue => hundue.congr hagrees happlied hcommit hsnapshot
  refine ⟨hsnapshot ▸ happlied ▸ h.low, fun hout => hundue (h.outside hout), fun hrole' => ?_⟩
  rcases hrole hrole' with ⟨hleader, hterm⟩ | hidle
  · rw [hcommit, hterm]
    exact (h.leader hleader).imp_left hundue
  · exact .inl (hundue (h.outside hidle))

section Step

variable (h : Taking A n l.node.role l.applying l.node.toLogState)
include h

theorem Taking.voteSaved (candidate : Int) : Taking A n (l.node.voteSaved candidate).role l.applying
    (l.node.voteSaved candidate).toLogState :=
  h.congr ({ l.node with votedFor := candidate } : RaftNode).stateSaved_agrees rfl rfl rfl fun hrole => .inl ⟨hrole, rfl⟩

theorem Taking.roleStep (hstep : RoleStep action l event l') :
    Taking A n l'.node.role l'.applying l'.node.toLogState := by
  cases hstep with
  | adoptTerm c rpc term =>
    refine h.congr ?_ rfl rfl rfl fun hrole => absurd (show Role.follower = .leader from hrole) (by simp)
    exact ({ l.node.steppedDown with currentTerm := term, votedFor := -1 } : RaftNode).stateSaved_agrees
  | demote =>
    exact h.congr (.refl _) rfl rfl rfl fun hrole => absurd (show Role.follower = .leader from hrole) (by simp)
  | campaign =>
    refine h.congr ?_ rfl rfl rfl fun hrole => absurd (show Role.candidate = .leader from hrole) (by simp)
    exact ({ l.node with
      role := .candidate
      currentTerm := l.node.currentTerm + 1
      votedFor := l.node.serverId
      grantedVotes := {l.node.serverId} } : RaftNode).stateSaved_agrees
  | grant => exact h.voteSaved _
  | countVote => exact h
  | elect s hrole hquorum hs hidle => exact h.congr (.refl _) rfl rfl rfl fun _ => .inr hidle

theorem Taking.logStep {A₀ : Shadow} (hI : Raft.Inv config.setting A₀) (hnode : NodeSim config A₀ (packets w.history) n l)
    (hnode' : NodeSim config A (packets w'.history) n l') (hstep : LogStep action l event l') :
    Taking A n l'.node.role l'.applying l'.node.toLogState := by
  cases hstep with
  | push call =>
    refine h.congr ?_ rfl rfl rfl fun hrole => .inl ⟨hrole, rfl⟩
    exact ({ l.node with log := _ } : RaftNode).logSaved_agrees
  | advance index s hrole hindex =>
    obtain ⟨-, hlow, hhigh, hterm, -⟩ := hnode.commitCandidate hI hrole hindex
    refine ⟨h.low, nofun, fun _ => .inr ?_⟩
    exact (hnode'.memory.termAt hlow.le hhigh).symm.trans hterm
  | merge c rpc request s haction hpayload hrole =>
    exact ⟨h.low, nofun, fun hleader => absurd (hrole.symm.trans hleader) (by simp)⟩
  | spoil => exact h.congr (.refl _) rfl rfl rfl fun hrole => .inl ⟨hrole, rfl⟩
  | install c rpc request contents s haction hpayload hrole =>
    exact ⟨le_rfl, nofun, fun hleader => absurd (hrole.symm.trans hleader) (by simp)⟩

theorem Taking.applyStep {sent : List Packet} (hnode : NodeSim config A sent n l')
    (hhigh : l.node.commitIndex ≤ l.node.lastIndex)
    (hterm : l.node.snapshotIndex < l.node.commitIndex → l.node.termAt l.node.commitIndex ≠ 0)
    (hstep : ApplyStep l event l') : Taking A n l'.node.role l'.applying l'.node.toLogState := by
  cases hstep with
  | enter => exact ⟨h.low, nofun, h.leader⟩
  | catchUp =>
    have hsame : max l.node.lastApplied l.node.snapshotIndex = l.node.lastApplied := max_eq_left h.low
    exact h.congr (.refl _) hsame rfl rfl fun hrole => .inl ⟨hrole, rfl⟩
  | call => exact h
  | apply entry command batch s hin hlt hentry hparse hbatch =>
    -- a command that is applied was not the obstacle
    have hread := ((Memory.shows hnode.memory).entryAt.mp hentry).2
    have hfree : ¬ Stuck A n l.node.toLogState := by
      rintro ⟨-, entry', hentry', hrefused⟩
      obtain rfl := Option.some.inj (hread.symm.trans hentry')
      exact hrefused command hparse _ _ batch hbatch
    refine ⟨h.low.trans (Nat.le_succ _), fun hout => absurd (hin.symm.trans hout) (by simp), fun hrole => ?_⟩
    exact (h.leader hrole).imp_left fun hundue => .inl (hundue.resolve_right hfree)
  | persist => exact h.congr l.node.stateSaved_agrees rfl rfl rfl fun hrole => .inl ⟨hrole, rfl⟩
  | compact s hin happlied =>
    have hrecent : l.node.commitIndex < l.node.commitIndex + kSnapshotThreshold := Nat.lt_add_of_pos_right (by decide)
    exact ⟨happlied, fun _ => .inl hrecent, fun _ => .inl (.inl hrecent)⟩
  | leave s happlied hfew => exact ⟨h.low, fun _ => .inl hfew, fun _ => .inl (.inl hfew)⟩
  | refuse entry hlt hentry hrefused =>
    have hread := ((Memory.shows hnode.memory).entryAt.mp hentry).2
    have hstuck : Stuck A n l.node.toLogState := by
      refine ⟨hlt, entry, hread, fun command hparse index commit batch hok => ?_⟩
      obtain ⟨x, herror⟩ := hrefused command hparse
      obtain ⟨batch', hbatch', -⟩ := (RocksKVStore.Agrees.refl _).applied hok (l.node.lastApplied + 1) l.node.commitIndex
      cases hbatch'.symm.trans herror
    exact ⟨h.low, fun _ => .inr hstuck, fun _ => .inl (.inr hstuck)⟩
  | abort x hstuck =>
    rcases hstuck with ⟨hlt, x, hentry⟩ | ⟨-, -, hmany, hzero | hshort⟩
    · obtain ⟨entry, -, hok⟩ := RaftNode.exists_entryAt (Nat.lt_succ_of_le h.low) (hhigh.trans' hlt)
      exact nomatch hok.symm.trans hentry
    · exact absurd hzero (hterm (by unfold kSnapshotThreshold at hmany; omega))
    · exact absurd hhigh (Nat.not_le.mpr hshort)

end Step

theorem Tracked.taking (h : Tracked config timely w A) (hview : w.views n = .active l) :
    Taking A n l.node.role l.applying l.node.toLogState := by
  -- what a node has committed stays in its log
  have hkept : ∀ {w A A' n m l}, Tracked config timely w A → w.views m = .active l → Raft.Steps config.setting n A A' →
      Taking A m l.node.role l.applying l.node.toLogState → Taking A' m l.node.role l.applying l.node.toLogState :=
    fun htracked hview hsteps htaking =>
      htaking.of_take ((htracked.related.active _ _ hview).memory.depicts.commitIndex.take_steps hsteps htracked.inv)
  refine h.each (P := fun _ A n l => Taking A n l.node.role l.applying l.node.toLogState) ?_ ?_ ?_ ?_ n l hview
  · intro w w' A n store state htracked hview hload _
    refine ⟨?_, nofun, nofun⟩
    change state.snapshotIndex ≤ min _ (min _ _)
    omega
  · exact fun _ _ _ _ _ _ _ _ _ _ _ ih => ih
  · intro w w' A A' n action l l' event htracked htracked' hview hview' hdue hmicro hhistory hsteps ih
    have hnode := htracked.related.active n l hview
    have hnode' := htracked'.related.active n l' hview'
    have hbefore := hkept htracked hview hsteps ih
    obtain ⟨hhigh, hterm⟩ := htracked.committed_termed hview
    rcases hmicro with h | h | h | h | h | h | h | h | h
    case role => exact hbefore.roleStep h
    case log => exact hbefore.logStep htracked.inv hnode hnode' h
    case apply => exact hbefore.applyStep hnode' hhigh hterm h
    all_goals cases h <;> exact hbefore
  · exact fun w w' A A' n m l event _ htracked _ hview _ hsteps ih => hkept htracked hview hsteps ih

/-! ### Which snapshots are sent -/

/-- A leader that is ahead of a peer by a snapshot has taken the snapshot in its term. -/
def RaftNode.Owns (config : Config) (n : Int) (node : RaftNode) : Prop :=
  node.role = .leader → ∀ p ∈ config.peers, p ≠ n → node.nextIndexOf p ≤ node.snapshotIndex →
    node.snapshotTerm = node.currentTerm

omit [Protobuf] in
theorem RaftNode.Owns.voteSaved {node : RaftNode} (h : node.Owns config n) (candidate : Int) :
    (node.voteSaved candidate).Owns config n := h

omit [Protobuf] in
/-- The next index of one peer has changed. -/
theorem RaftNode.Owns.insert {node node' : RaftNode} (h : node.Owns config n) {peer : Int} {next : Nat}
    (hrole : node'.role = node.role) (hlog : node'.toLogState = node.toLogState)
    (hindex : node'.nextIndex = node.nextIndex.insert peer next)
    (hnext : node.role = .leader → peer ∈ config.peers → peer ≠ n → next ≤ node.snapshotIndex →
      node.nextIndexOf peer ≤ node.snapshotIndex) : node'.Owns config n := by
  intro hleader p hp hne hle
  rw [hrole] at hleader
  rw [congrArg LogState.snapshotTerm hlog, congrArg LogState.currentTerm hlog]
  rw [congrArg LogState.snapshotIndex hlog] at hle
  unfold RaftNode.nextIndexOf at hle
  rw [hindex] at hle
  by_cases hpp : p = peer
  · subst hpp
    rw [AList.lookup_insert] at hle
    exact h hleader p hp hne (hnext hleader hp hne hle)
  · rw [AList.lookup_insert_ne hpp] at hle
    exact h hleader p hp hne hle

section Sent

variable (hrel : Related config A w) (hwired : Wired config w) (hview : w.views n = .active l)
include hrel hwired hview

theorem RaftNode.Owns.peerStep (h : l.node.Owns config n) (hdue : w.Due timely n l action)
    (hstep : PeerStep action l event l') : l'.node.Owns config n := by
  have hnode := hrel.active n l hview
  cases hstep with
  | touch peer hnone =>
    refine h.insert rfl rfl rfl fun hrole hp hne _ => ?_
    have hlow : 1 ≤ (l.node.nextIndex.lookup peer).getD 0 := (hnode.replicating hrole peer hp hne).low
    rw [hnone] at hlow
    exact absurd hlow (by simp)
  | ackAppend c rpc response haction hpayload hrole hterm hpos hid hconn _ hsuccess =>
    subst haction
    obtain ⟨-, hreach, hle⟩ :=
      hrel.acknowledged hwired hview hdue.1 hdue.2 hpayload hrole hterm hpos hid hconn hsuccess
    refine h.insert rfl rfl rfl fun _ _ _ hnext => ?_
    omega
  | backOff c rpc response haction hpayload hrole hterm hpos hid hconn hfailure hlow =>
    refine h.insert rfl rfl rfl fun _ _ _ hnext => ?_
    omega
  | ackSnapshot =>
    refine h.insert rfl rfl rfl fun _ _ _ hnext => ?_
    omega
  | setIndexes hrole => exact fun hleader => absurd hleader hrole
  | _ => exact h

theorem RaftNode.Owns.step (h : l.node.Owns config n) (htaking : Taking A n l.node.role l.applying l.node.toLogState)
    (hdue : w.Due timely n l action) (hstep : Micro action l event l') : l'.node.Owns config n := by
  have hnode := hrel.active n l hview
  have hactive := hwired.active n l hview
  rcases hstep with hstep | hstep | hstep | hstep | hstep | hstep | hstep | hstep | hstep
  case role =>
    cases hstep with
    | adoptTerm | demote => exact fun hrole => absurd (show Role.follower = .leader from hrole) (by simp)
    | campaign => exact fun hrole => absurd (show Role.candidate = .leader from hrole) (by simp)
    | grant => exact h.voteSaved _
    | countVote => exact h
    | elect s hrole =>
      intro _ p hp hne hle
      have hother : p ∈ l.node.otherPeers := by
        rw [RaftNode.mem_otherPeers, hactive.peers, hactive.serverId]
        exact ⟨hp, hne⟩
      change ((l.node.otherPeers.foldl (fun map peer => map.insert peer (l.node.lastIndex + 1)) l.node.nextIndex).lookup
        p).getD 0 ≤ l.node.snapshotIndex at hle
      rw [lookup_foldl_insert, if_pos hother, Option.getD_some] at hle
      unfold RaftNode.lastIndex at hle
      omega
  case log =>
    cases hstep with
    | merge c rpc request s haction hpayload hrole => exact fun hleader => absurd (hrole.symm.trans hleader) (by simp)
    | install c rpc request contents s haction hpayload hrole =>
      exact fun hleader => absurd (hrole.symm.trans hleader) (by simp)
    | _ => exact h
  case apply =>
    cases hstep with
    | compact s hin happlied hmany hne hhigh =>
      -- what is due was committed by this leader
      intro hrole p hp hpn _
      have hown : Raft.lastTerm RaftLogEntry.term ((A.log n).take l.node.commitIndex) = l.node.currentTerm := by
        refine (htaking.leader hrole).resolve_left ?_
        rintro (hfew | ⟨hlt, -⟩)
        · exact absurd hmany (Nat.not_le.mpr hfew)
        · exact absurd happlied (Nat.not_le.mpr hlt)
      refine (hnode.memory.termAt ?_ hhigh).trans hown
      exact (Nat.le_add_right _ _).trans hmany
    | _ => exact h
  case peer => exact h.peerStep hrel hwired hview hdue hstep
  all_goals cases hstep <;> exact h

end Sent

theorem Tracked.owns (h : Tracked config timely w A) (hview : w.views n = .active l) : l.node.Owns config n := by
  refine h.each (P := fun _ _ n l => l.node.Owns config n) ?_ ?_ ?_ ?_ n l hview
  · exact fun _ _ _ _ _ _ _ _ _ _ hrole => absurd (show Role.follower = .leader from hrole) (by simp)
  · exact fun _ _ _ _ _ _ _ _ _ _ _ ih => ih
  · exact fun w w' A A' n action l l' event htracked _ hview _ hdue hmicro _ _ ih =>
      ih.step htracked.related htracked.wired hview (htracked.taking hview) hdue hmicro
  · exact fun _ _ _ _ _ _ _ _ _ _ _ _ _ _ ih => ih

/-- A chunk is of a snapshot that its sender has taken in its term. -/
theorem Tracked.chunk_owned (h : Tracked config timely w A) (hview : w.views n = .active l) (hdue : w.Due timely n l action)
    {c : Conn} {rpc : Proto.RaftRpc} {s : RaftNode} {request : Proto.InstallSnapshotRequest}
    (hstep : Micro action l (some (.send c rpc s)) l') (hrequest : rpc.payload = .installSnapshot request) :
    l.node.role = .leader ∧ l.node.snapshotTerm = l.node.currentTerm ∧ s.toLogState = l.node.toLogState ∧
      l.node.IsChunk request := by
  have howns := h.owns hview
  have hactive := h.wired.active n l hview
  have hpeer : ∀ {peer c}, l.node.connectionForPeer peer = some c → peer ∈ config.peers ∧ peer ≠ n := by
    intro peer c hconn
    obtain ⟨hmem, rfl⟩ := hactive.wired peer c hconn
    exact h.wired.otherEnd (hactive.opened c hmem).1
  rcases hstep with hstep | hstep | hstep | hstep | hstep | hstep | hstep | hstep | hstep
  case peer =>
    cases hstep with
    | sendAppend => cases hrequest
    | sendSnapshot peer _ _ _ hrole _ hconn _ hnext _ hchunk hs =>
      obtain rfl := Proto.Payload.installSnapshot.inj hrequest
      obtain ⟨hp, hne⟩ := hpeer hconn
      exact ⟨hrole, howns hrole peer hp hne hnext, hs, hchunk⟩
    | resumeSnapshot _ answer response _ _ haction hpayload hrole _ hpos hid hconn hlive hwaiting _ hchunk hs =>
      subst haction
      obtain rfl := Proto.Payload.installSnapshot.inj hrequest
      obtain ⟨hp, hne⟩ := hpeer hconn
      have hnext := h.related.resumes h.wired hview hdue.1 hdue.2 hpayload hrole hpos hid hconn hlive hwaiting
      exact ⟨hrole, howns hrole _ hp hne hnext, hs, hchunk⟩
  case send => cases hstep <;> cases hrequest
  all_goals cases hstep

/-- A snapshot that a leader has taken in its term is not the empty one. -/
theorem Tracked.owned_ne_zero (h : Tracked config timely w A) (hview : w.views n = .active l)
    (hrole : l.node.role = .leader) (hown : l.node.snapshotTerm = l.node.currentTerm) : l.node.snapshotIndex ≠ 0 := by
  intro hzero
  have hnode := h.related.active n l hview
  have hlabel : l.node.snapshotTerm = Raft.lastTerm RaftLogEntry.term ((A.log n).take l.node.snapshotIndex) :=
    hnode.memory.depicts.snapshotTerm
  rw [hzero, List.take_zero, hown] at hlabel
  exact absurd (hlabel.symm.trans rfl) (Nat.ne_of_lt (h.inv.term_pos (hnode.roles.leader hrole).leads))

end Taken

/-! ### One snapshot for each label -/

/-- The snapshot that a chunk with this label was taken from. -/
def chunkSource (index term : Nat) : Int × Event → Option Bytes
  | (_, .send _ ⟨_, _, .installSnapshot request⟩ s) =>
    if request.lastIncludedIndex = index ∧ request.lastIncludedTerm = term then some s.snapshotData else none
  | _ => none

/-- The snapshot that was first sent under a label. -/
def sentBytes (history : List (Int × Event)) (index term : Nat) : Bytes :=
  (history.findSome? (chunkSource index term)).getD []

section Sources

variable {history more : List (Int × Event)} {n : Int} {c : Conn} {rpc : Proto.RaftRpc} {s : RaftNode}
  {request : Proto.InstallSnapshotRequest} {index term : Nat}

theorem chunkSource_eq_some {event : Int × Event} {bytes : Bytes} : chunkSource index term event = some bytes ↔
    ∃ c rpc s request, event.2 = .send c rpc s ∧ rpc.payload = .installSnapshot request ∧
      request.lastIncludedIndex = index ∧ request.lastIncludedTerm = term ∧ s.snapshotData = bytes := by
  constructor
  · intro h
    unfold chunkSource at h
    split at h
    · next n c id sender request s =>
      split at h
      · next hlabel => exact ⟨c, _, s, request, rfl, rfl, hlabel.1, hlabel.2, Option.some.inj h⟩
      · cases h
    · cases h
  · obtain ⟨n, event⟩ := event
    rintro ⟨c, ⟨id, sender, payload⟩, s, request, rfl, rfl, rfl, rfl, rfl⟩
    exact if_pos ⟨rfl, rfl⟩

/-- What was sent under a label stays. -/
theorem sentBytes_append (h : history.findSome? (chunkSource index term) ≠ none) :
    sentBytes (history ++ more) index term = sentBytes history index term := by
  obtain ⟨bytes, hbytes⟩ := Option.ne_none_iff_exists'.mp h
  rw [sentBytes, sentBytes, List.findSome?_append, hbytes, Option.some_or]

theorem findSome?_chunkSource_ne_none (hmem : (n, .send c rpc s) ∈ history)
    (hrequest : rpc.payload = .installSnapshot request) :
    history.findSome? (chunkSource request.lastIncludedIndex request.lastIncludedTerm) ≠ none := by
  intro hnone
  have hsource := List.findSome?_eq_none_iff.mp hnone _ hmem
  have hsome : chunkSource request.lastIncludedIndex request.lastIncludedTerm (n, .send c rpc s) = some s.snapshotData :=
    chunkSource_eq_some.mpr ⟨c, rpc, s, request, rfl, hrequest, rfl, rfl, rfl⟩
  exact absurd (hsome.symm.trans hsource) (by simp)

/-- What has been assembled for a label stays a beginning of it. -/
theorem RaftNode.Assembles.append {node : RaftNode} (h : node.Assembles (sentBytes history)) :
    node.Assembles (sentBytes (history ++ more)) := by
  intro hactive
  have hbefore := h hactive
  by_cases hnone : history.findSome? (chunkSource node.incomingSnapshotIndex node.incomingSnapshotTerm) = none
  · rw [sentBytes, hnone, Option.getD_none, List.prefix_nil] at hbefore
    rw [hbefore]
    exact List.nil_prefix
  · rwa [sentBytes_append hnone]

end Sources

section Labels

variable [Protobuf] {config : Config} {timely : Prop} {A : Shadow} {w w' : World} {n : Int} {l l' : Local}
  {action : LoopAction} {event : Option Event}

/-- The chunks that a leader has sent in its term, of the snapshot that it has now, are of the bytes that it has now. -/
def RaftNode.Supplies (history : List (Int × Event)) (n : Int) (node : RaftNode) : Prop :=
  node.role = .leader → ∀ c rpc s request, (n, .send c rpc s) ∈ history → rpc.payload = .installSnapshot request →
    request.term = node.currentTerm → request.lastIncludedIndex ≤ node.snapshotIndex ∧
      (request.lastIncludedIndex = node.snapshotIndex → s.snapshotData = node.snapshotData)

theorem Tracked.supplies (h : Tracked config timely w A) (hview : w.views n = .active l) :
    l.node.Supplies w.history n := by
  refine h.each (P := fun w _ n l => l.node.Supplies w.history n) ?_ ?_ ?_ ?_ n l hview
  · exact fun _ _ _ _ _ _ _ _ _ _ hrole => absurd (show Role.follower = .leader from hrole) (by simp)
  · intro w w' A n l c _ _ hhistory _ _ ih
    rw [hhistory]
    exact ih
  · intro w w' A A' n action l l' event htracked htracked' hview hview' hdue hmicro hhistory hsteps ih hrole' c rpc s
      request hmem hrequest hterm
    obtain ⟨hsame, hbefore⟩ := hmicro.leader hrole'
    rw [hhistory] at hmem
    rcases List.mem_append.mp hmem with hold | hnew
    · rcases hbefore with hcandidate | ⟨hrole, hsnapshot⟩
      · -- no frame of the new term exists yet
        have hpacket : ⟨c, n, rpc⟩ ∈ packets w.history := World.mem_packets.mpr ⟨s, hold⟩
        have hlt := ((htracked.related.active n l hview).round_lt htracked.related hcandidate hpacket rfl).2
          request hrequest
        omega
      · obtain ⟨hle, hdata⟩ := ih hrole c rpc s request hold hrequest (hterm.trans hsame)
        rcases hsnapshot with ⟨hindex, hbytes⟩ | hlt
        · rw [hindex, hbytes]
          exact ⟨hle, hdata⟩
        · exact ⟨by omega, fun heq => by omega⟩
    · obtain ⟨e, he, heq⟩ := List.mem_map.mp hnew
      obtain rfl := (Prod.mk.inj heq).2
      obtain rfl := Option.mem_toList.mp he
      obtain ⟨-, -, hs, offset, -, rfl⟩ := htracked.chunk_owned hview hdue hmicro hrequest
      obtain ⟨-, hlog⟩ := hmicro.sends_chunk hrequest
      rw [congrArg LogState.snapshotIndex hlog, congrArg LogState.snapshotData hlog, congrArg LogState.snapshotData hs]
      exact ⟨le_rfl, fun _ => rfl⟩
  · intro w w' A A' n m l event hne _ _ _ hstep _ ih hrole c rpc s request hmem
    rcases hstep.history_cases hmem with hold | ⟨hm, -⟩
    · exact ih hrole c rpc s request hold
    · exact absurd hm hne

/-- What a chunk that was sent says about its source. -/
structure FromSource (history : List (Int × Event)) (s : RaftNode) (request : Proto.InstallSnapshotRequest) : Prop where
  own : request.lastIncludedTerm = request.term
  bytes : s.snapshotData = sentBytes history request.lastIncludedIndex request.lastIncludedTerm
  built : ∃ sender peer, sender.toLogState = s.toLogState ∧ request = NodeM.snapshotRequest sender peer

/-- All chunks that were sent under one label are of one snapshot. -/
theorem Tracked.fromSource (h : Tracked config timely w A) : ∀ n c rpc s request, (n, .send c rpc s) ∈ w.history →
    rpc.payload = .installSnapshot request → FromSource w.history s request := by
  refine h.invariant (I := fun w _ => ∀ n c rpc s request, (n, .send c rpc s) ∈ w.history →
    rpc.payload = .installSnapshot request → FromSource w.history s request) ?_ ?_
  · exact fun _ _ _ _ _ hmem => absurd hmem (by simp [World.initial, Cluster.world, Cluster.initial])
  · intro w w' A A' m event htracked _ hstep _ _ ih n c rpc s request hmem hrequest
    rcases hstep.history_cases hmem with hold | ⟨rfl, rfl⟩
    · obtain ⟨hown, hbytes, hbuilt⟩ := ih n c rpc s request hold hrequest
      refine ⟨hown, hbytes.trans ?_, hbuilt⟩
      rw [hstep.history, sentBytes_append (findSome?_chunkSource_ne_none hold hrequest)]
    · rcases hstep.event with ⟨_, _, -, -, hload, -⟩ | ⟨action, l, l', hview, -, hdue, hmicro⟩
      · cases hload
      obtain ⟨hrole, hterm, hs, hchunk⟩ := htracked.chunk_owned hview hdue hmicro hrequest
      obtain ⟨sender, hsender, hbuilt⟩ := hchunk.request_eq
      obtain ⟨offset, -, rfl⟩ := hchunk
      refine ⟨hterm, ?_, sender, 0, hsender.trans hs.symm, hbuilt⟩
      dsimp only
      cases hfound : w.history.findSome? (chunkSource l.node.snapshotIndex l.node.snapshotTerm) with
      | none =>
        have hfirst : chunkSource l.node.snapshotIndex l.node.snapshotTerm (n, .send c rpc s) = some s.snapshotData :=
          chunkSource_eq_some.mpr ⟨c, rpc, s, _, rfl, hrequest, rfl, rfl, rfl⟩
        rw [sentBytes, hstep.history, List.findSome?_append, hfound, Option.none_or, Option.toList_some, List.map_singleton,
          List.findSome?_cons, hfirst, Option.getD_some]
      | some bytes =>
        -- an earlier chunk with this label: its sender led the same term, so it was this node
        obtain ⟨⟨n', e⟩, hmem', hsource⟩ := List.exists_of_findSome?_eq_some hfound
        obtain ⟨c', rpc', s', request', rfl, hrequest', hindex', hterm', -⟩ := chunkSource_eq_some.mp hsource
        obtain ⟨hown', hbytes', -⟩ := ih n' c' rpc' s' request' hmem' hrequest'
        have hround : request'.term = l.node.currentTerm := hown'.symm.trans (hterm'.trans hterm)
        have hpacket : ⟨c', n', rpc'⟩ ∈ packets w.history := World.mem_packets.mpr ⟨s', hmem'⟩
        have hmeans := (htracked.related.frames _ hpacket).means
        rw [hrequest'] at hmeans
        have hleads : A.leads l.node.currentTerm n' := hround ▸ hmeans.leads
        obtain rfl := htracked.inv.leads_unique hleads ((htracked.related.active n l hview).roles.leader hrole).leads
        have hdata := (htracked.supplies hview hrole c' rpc' s' request' hmem' hrequest' hround).2 hindex'
        have hne : w.history.findSome? (chunkSource l.node.snapshotIndex l.node.snapshotTerm) ≠ none := by
          rw [hfound]
          exact Option.some_ne_none _
        rw [congrArg LogState.snapshotData hs, ← hdata, hbytes', hindex', hterm', hstep.history, sentBytes_append hne]

/-- The frames that the loop may run on are chunks of the snapshots that were sent under their labels. -/
theorem Tracked.fromSnapshots (h : Tracked config timely w A) (hdue : w.Due timely n l action) :
    FromSnapshots (sentBytes w.history) action := by
  unfold FromSnapshots
  split
  · next c id sender request =>
    obtain ⟨s, hmem⟩ := World.mem_packets.mp hdue.1
    obtain ⟨-, hbytes, sender, peer, hsame, hbuilt⟩ := h.fromSource _ _ _ _ request hmem rfl
    refine ⟨sender, peer, ?_, hbuilt⟩
    obtain ⟨offset, -, hrequest⟩ := isChunk_snapshotRequest sender peer
    rw [hbuilt, hrequest] at hbytes
    exact (congrArg LogState.snapshotData hsame).trans hbytes
  · trivial

/-- What a node has assembled is a beginning of the one snapshot that was sent under the label. -/
theorem Tracked.assembles (h : Tracked config timely w A) (hview : w.views n = .active l) :
    l.node.Assembles (sentBytes w.history) := by
  refine h.each (P := fun w _ _ l => l.node.Assembles (sentBytes w.history)) ?_ ?_ ?_ ?_ n l hview
  · exact fun _ _ _ _ _ _ _ _ _ _ hactive => absurd (show false = true from hactive) (by simp)
  · intro w w' A n l c _ _ hhistory _ _ ih
    rw [hhistory]
    exact ih
  · intro w w' A A' n action l l' event htracked _ _ _ hdue hmicro hhistory _ ih
    rw [hhistory]
    exact (ih.step hmicro (htracked.fromSnapshots hdue)).append
  · intro w w' A A' n m l event _ _ _ _ hstep _ ih
    rw [hstep.history]
    exact ih.append

/-- A snapshot that is installed was sent in the present term. -/
theorem Tracked.installed_sent (h : Tracked config timely w A) (hview : w.views n = .active l)
    (hdue : w.Due timely n l action) {index term : Nat} {data : Bytes} {s : RaftNode}
    (hstep : Micro action l (some (.write (.applySnapshot index term data) s)) l') :
    ∃ m c rpc sent request, (m, .send c rpc sent) ∈ w.history ∧ rpc.payload = .installSnapshot request ∧
      request.term = l.node.currentTerm ∧ request.lastIncludedIndex = index ∧ sent.snapshotData = data := by
  obtain ⟨hdata, -⟩ := hstep.installed (h.assembles hview) (h.fromSnapshots hdue)
  rcases hstep with hstep | hstep | hstep | hstep | hstep | hstep | hstep | hstep | hstep
  case log =>
    cases hstep with
    | install c rpc request contents s haction hpayload hrole hterm hindex hlabel =>
      subst haction
      obtain ⟨sent, hmem⟩ := World.mem_packets.mp hdue.1
      have hbytes := (h.fromSource _ _ _ _ request hmem hpayload).bytes
      rw [hindex, hlabel, ← hdata] at hbytes
      exact ⟨_, c, rpc, sent, request, hmem, hpayload, hterm, hindex, hbytes⟩
  all_goals cases hstep

end Labels

end Nukv
