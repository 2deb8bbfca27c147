import Nukv.Proof.Lineage

/-!
# Committed logs

Every index that a node takes for committed, or for applied, or has a snapshot of, was committed by some leader: an
`AdvanceCommit` of the run has reached it. So the first entries of a node, up to such an index, are a beginning of the
log that a leader has committed.
-/

namespace Nukv

/-- Some leader has committed the index. -/
def Reached (history : List (Int × Event)) (k : Nat) : Prop :=
  k = 0 ∨ ∃ m s, (m, .advanceCommit s) ∈ history ∧ k ≤ s.commitIndex

theorem Reached.mono {history : List (Int × Event)} {k k' : Nat} (h : Reached history k') (hle : k ≤ k') :
    Reached history k := by
  rcases h with rfl | ⟨m, s, hmem, hk⟩
  · exact .inl (Nat.le_zero.mp hle)
  · exact .inr ⟨m, s, hmem, hle.trans hk⟩

theorem Reached.max {history : List (Int × Event)} {k k' : Nat} (h : Reached history k) (h' : Reached history k') :
    Reached history (max k k') := by
  rcases max_choice k k' with hmax | hmax
  · rwa [hmax]
  · rwa [hmax]

theorem Reached.append {history : List (Int × Event)} {k : Nat} (h : Reached history k) (more : List (Int × Event)) :
    Reached (history ++ more) k := by
  rcases h with rfl | ⟨m, s, hmem, hk⟩
  · exact .inl rfl
  · exact .inr ⟨m, s, List.mem_append_left _ hmem, hk⟩

/-- The first entries of a log that a leader has committed. -/
def CommittedLog (history : List (Int × Event)) (L : List RaftLogEntry) : Prop :=
  L = [] ∨ ∃ m s C, (m, .advanceCommit s) ∈ history ∧ Lineage history s.commitIndex s.currentTerm C ∧ L <+: C

theorem Lineage.append_history {history : List (Int × Event)} {index term : Nat} {L : List RaftLogEntry}
    (h : Lineage history index term L) (more : List (Int × Event)) : Lineage (history ++ more) index term L := by
  induction h with
  | empty => exact .empty
  | append _ hmem hlast hterm hentry ih => exact .append ih (List.mem_append_left _ hmem) hlast hterm hentry

theorem CommittedLog.append {history : List (Int × Event)} {L : List RaftLogEntry} (h : CommittedLog history L)
    (more : List (Int × Event)) : CommittedLog (history ++ more) L := by
  rcases h with rfl | ⟨m, s, C, hmem, hlineage, hprefix⟩
  · exact .inl rfl
  · exact .inr ⟨m, s, C, List.mem_append_left _ hmem, hlineage.append_history more, hprefix⟩

/-- The stored commit index and the stored index of the last command that was applied. -/
def Counts (P : Nat → Prop) (store : RocksKVStore) : Prop :=
  ∀ k, ReadsNat store commitIndexKey k ∨ ReadsNat store lastAppliedKey k → P k

/-- The indexes of a node, in its memory and in its store. -/
structure Backed (P : Nat → Prop) (d : LogState) : Prop where
  commit : P d.commitIndex
  applied : P d.lastApplied
  snapshot : P d.snapshotIndex
  counts : Counts P d.store

/-- The indexes that a frame tells of. -/
def Proto.Payload.Tells (P : Nat → Prop) : Proto.Payload → Prop
  | .appendEntries request => P request.leaderCommit
  | .installSnapshot request => P request.lastIncludedIndex
  | _ => True

theorem Proto.Payload.Tells.imp {P Q : Nat → Prop} (hPQ : ∀ k, P k → Q k) {payload : Proto.Payload}
    (h : payload.Tells P) : payload.Tells Q := by
  cases payload with
  | appendEntries | installSnapshot => exact hPQ _ h
  | _ => trivial

theorem Backed.imp {P Q : Nat → Prop} (hPQ : ∀ k, P k → Q k) {d : LogState} (h : Backed P d) : Backed Q d :=
  ⟨hPQ _ h.commit, hPQ _ h.applied, hPQ _ h.snapshot, fun k hk => hPQ k (h.counts k hk)⟩

section Steps

variable [Protobuf] {P : Nat → Prop} {action : LoopAction} {l l' : Local} {event : Option Event}

omit [Protobuf] in
/-- A write that stores the two indexes as they are. -/
theorem Counts.of_counted {node : RaftNode} (h : node.Counted) (hcommit : P node.commitIndex)
    (happlied : P node.lastApplied) : Counts P node.store := by
  rintro k (hk | hk)
  · rwa [hk.unique (.inl h.1)]
  · rwa [hk.unique (.inl h.2)]

theorem Counts.logSaved (node : RaftNode) (h : Counts P node.store) : Counts P node.logSaved.store := by
  have hkept : ∀ key, startsWith logPath key = false → node.logSaved.store.get key = node.store.get key := fun key hkey =>
    Holds.get_persistLog hkey _ _
  intro k hk
  unfold ReadsNat at hk
  rw [hkept _ (by decide), hkept _ (by decide)] at hk
  exact h k hk

omit [Protobuf] in
theorem Backed.stateSaved (node : RaftNode) (hcommit : P node.commitIndex) (happlied : P node.lastApplied)
    (hsnapshot : P node.snapshotIndex) : Backed P node.stateSaved.toLogState :=
  ⟨hcommit, happlied, hsnapshot, .of_counted node.stateSaved_counted hcommit happlied⟩

omit [Protobuf] in
theorem Backed.voteSaved {node : RaftNode} (h : Backed P node.toLogState) (candidate : Int) :
    Backed P (node.voteSaved candidate).toLogState :=
  Backed.stateSaved { node with votedFor := candidate } h.commit h.applied h.snapshot

/-- One step keeps the indexes, if it was told and committed nothing else. -/
theorem Backed.step (h : Backed P l.node.toLogState) (hdown : ∀ k k', k ≤ k' → P k' → P k)
    (htold : ∀ c rpc, action = .receive c rpc → rpc.payload.Tells P)
    (hadvance : ∀ s, event = some (.advanceCommit s) → P s.commitIndex) (hstep : Micro action l event l') :
    Backed P l'.node.toLogState := by
  rcases hstep with hstep | hstep | hstep | hstep | hstep | hstep | hstep | hstep | hstep
  case role =>
    cases hstep with
    | adoptTerm c rpc term =>
      exact Backed.stateSaved { l.node.steppedDown with currentTerm := term, votedFor := -1 } h.commit
        h.applied h.snapshot
    | campaign =>
      exact Backed.stateSaved { l.node with
        role := .candidate
        currentTerm := l.node.currentTerm + 1
        votedFor := l.node.serverId
        grantedVotes := {l.node.serverId} } h.commit h.applied h.snapshot
    | grant => exact h.voteSaved _
    | _ => exact h
  case log =>
    cases hstep with
    | push => exact ⟨h.commit, h.applied, h.snapshot, Counts.logSaved ({ l.node with log := _ } : RaftNode) h.counts⟩
    | advance index s _ _ hstate =>
      have hcommit : s.commitIndex = index := (congrArg (fun t : RaftNode => t.commitIndex) hstate).trans rfl
      exact ⟨hcommit ▸ hadvance s rfl, h.applied, h.snapshot, h.counts⟩
    | merge c rpc request s haction hpayload =>
      have hcommit : P request.leaderCommit := by
        have htells := htold c rpc haction
        rwa [hpayload] at htells
      exact ⟨hdown _ _ (Nat.min_le_left ..) hcommit, h.applied, h.snapshot,
        Counts.logSaved ({ l.node with log := _ } : RaftNode) h.counts⟩
    | spoil => exact ⟨h.commit, h.applied, h.snapshot, h.counts⟩
    | install c rpc request contents s haction hpayload _ _ hindex _ _ _ _ _ hparse =>
      have hincoming : P l.node.incomingSnapshotIndex := by
        have htells := htold c rpc haction
        rw [hpayload] at htells
        exact hindex ▸ htells
      have hcommit : P (max l.node.commitIndex l.node.incomingSnapshotIndex) := by
        rcases max_choice l.node.commitIndex l.node.incomingSnapshotIndex with hmax | hmax
        · rw [hmax]
          exact h.commit
        · rw [hmax]
          exact hincoming
      exact ⟨hcommit, hincoming, hincoming,
        .of_counted (l.node.installed_counted (.of_parse hparse)) hcommit hincoming⟩
  case apply =>
    cases hstep with
    | catchUp =>
      refine ⟨h.commit, ?_, h.snapshot, h.counts⟩
      change P (max l.node.lastApplied l.node.snapshotIndex)
      rcases max_choice l.node.lastApplied l.node.snapshotIndex with hmax | hmax
      · rw [hmax]
        exact h.applied
      · rw [hmax]
        exact h.snapshot
    | apply entry command batch s _ hlt _ _ hbatch =>
      have happlied : P (l.node.lastApplied + 1) := hdown _ _ hlt h.commit
      exact ⟨h.commit, happlied, h.snapshot, .of_counted (RaftNode.entryApplied_counted hbatch) h.commit happlied⟩
    | persist => exact .stateSaved _ h.commit h.applied h.snapshot
    | compact => exact ⟨h.commit, h.applied, h.commit, .of_counted l.node.compacted_counted h.commit h.applied⟩
    | _ => exact h
  all_goals cases hstep <;> exact h

/-- The frames of a node tell of its own indexes. -/
theorem Backed.tells (h : Backed P l.node.toLogState) {c : Conn} {rpc : Proto.RaftRpc} {s : RaftNode}
    (hstep : Micro action l (some (.send c rpc s)) l') : rpc.payload.Tells P := by
  rcases hstep with hstep | hstep | hstep | hstep | hstep | hstep | hstep | hstep | hstep <;> cases hstep
  case peer.sendAppend => exact h.commit
  case peer.sendSnapshot | peer.resumeSnapshot =>
    obtain ⟨offset, -, rfl⟩ := ‹l.node.IsChunk _›
    exact h.snapshot
  all_goals trivial

end Steps

section Runs

variable [Protobuf] {config : Config} {timely : Prop} {A : Shadow} {w w' : World} {n : Int} {l : Local}
  {event : Option Event}

def View.Backed (P : Nat → Prop) : View → Prop
  | .active l => Nukv.Backed P l.node.toLogState
  | .down store => ∀ state, Holds store state → P state.commitIndex ∧ P state.lastApplied ∧ P state.snapshotIndex

theorem View.Backed.imp {P Q : Nat → Prop} (hPQ : ∀ k, P k → Q k) {view : View} (h : view.Backed P) : view.Backed Q := by
  cases view with
  | active l => exact Nukv.Backed.imp hPQ h
  | down store =>
    intro state hholds
    obtain ⟨hcommit, happlied, hsnapshot⟩ := h state hholds
    exact ⟨hPQ _ hcommit, hPQ _ happlied, hPQ _ hsnapshot⟩

/-- One step of one node. -/
theorem World.Step.backed (hstep : World.Step config timely w n event w') (hrel : Related config A w)
    (hviews : ∀ n, (w.views n).Backed (Reached w.history))
    (hframes : ∀ packet ∈ packets w.history, packet.rpc.payload.Tells (Reached w.history)) :
    (w'.views n).Backed (Reached w'.history) ∧
      ∀ c rpc s, event = some (.send c rpc s) → rpc.payload.Tells (Reached w'.history) := by
  have hgrow : ∀ k, Reached w.history k → Reached w'.history k := fun k hk => hstep.history ▸ hk.append _
  have hown : (w.views n).Backed (Reached w'.history) := (hviews n).imp hgrow
  have hevent : ∀ e, event = some e → (n, e) ∈ w'.history := by
    rintro e rfl
    rw [hstep.history]
    exact List.mem_append_right _ List.mem_cons_self
  cases hstep with
  | start store state hview hmember hload =>
    refine ⟨?_, by simp⟩
    rw [hview] at hown
    rw [World.moved_views_self]
    obtain ⟨held, hholds, -⟩ := hrel.down n store hview
    obtain ⟨rfl, -⟩ := hholds.load_eq_ok.mp hload
    obtain ⟨hcommit, happlied, hsnapshot⟩ := hown state hholds
    have hmax : Reached _ (max state.commitIndex state.snapshotIndex) := hcommit.max hsnapshot
    refine ⟨hmax.mono (Nat.min_le_left ..), (happlied.max hsnapshot).mono (Nat.min_le_left ..), hsnapshot, ?_⟩
    rintro k (hk | hk)
    · rwa [hk.unique hholds.commitIndex]
    · rwa [hk.unique hholds.lastApplied]
  | die l hview =>
    refine ⟨?_, by simp⟩
    rw [hview] at hown
    rw [World.moved_views_self]
    intro state hholds
    obtain ⟨-, c, a, data, hheld, -⟩ := (hrel.active n l hview).memory
    refine ⟨hown.counts _ (.inl hholds.commitIndex), hown.counts _ (.inr hholds.lastApplied), ?_⟩
    rw [hholds.snapshot.index_eq hheld.snapshot]
    exact hown.snapshot
  | connect peer serial l hview =>
    refine ⟨?_, by simp⟩
    rw [hview] at hown
    change View.Backed _ ((w.moved n _ none).views n)
    rw [World.moved_views_self]
    exact hown
  | accept connection l hview =>
    refine ⟨?_, by simp⟩
    rw [hview] at hown
    change View.Backed _ ((w.moved n _ none).views n)
    rw [World.moved_views_self]
    exact hown
  | micro action l l' _ hview hdue hmicro =>
    rw [hview] at hown
    rw [World.moved_views_self]
    refine ⟨Nukv.Backed.step hown (fun k k' hle hk => hk.mono hle) ?_ ?_ hmicro, ?_⟩
    · rintro c rpc rfl
      exact (hframes _ hdue.1).imp hgrow
    · intro s hs
      exact .inr ⟨n, s, hevent _ hs, le_rfl⟩
    · rintro c rpc s rfl
      exact Nukv.Backed.tells hown hmicro

theorem Tracked.backed (h : Tracked config timely w A) : (∀ n, (w.views n).Backed (Reached w.history)) ∧
    ∀ packet ∈ packets w.history, packet.rpc.payload.Tells (Reached w.history) := by
  refine h.invariant (I := fun w _ => (∀ n, (w.views n).Backed (Reached w.history)) ∧
    ∀ packet ∈ packets w.history, packet.rpc.payload.Tells (Reached w.history)) ?_ ?_
  · refine ⟨fun n state hholds => ?_, fun packet hpacket => ?_⟩
    · rw [hholds.commitIndex.unique Holds.empty.commitIndex, hholds.lastApplied.unique Holds.empty.lastApplied,
        hholds.snapshot.index_eq Holds.empty.snapshot]
      exact ⟨.inl rfl, .inl rfl, .inl rfl⟩
    · exact absurd hpacket (by simp [World.initial, Cluster.world, Cluster.initial, packets])
  · rintro w w' A A' n event htracked htracked' hstep - - ⟨hviews, hframes⟩
    have hgrow : ∀ k, Reached w.history k → Reached w'.history k := fun k hk => hstep.history ▸ hk.append _
    have hown := hstep.backed htracked.related hviews hframes
    refine ⟨fun m => ?_, fun packet hpacket => ?_⟩
    · by_cases hm : m = n
      · exact hm ▸ hown.1
      · rw [hstep.views hm]
        exact (hviews m).imp hgrow
    · rw [hstep.history] at hpacket
      rcases mem_packets_moved hpacket with hpacket | ⟨-, s, hevent⟩
      · exact (hframes packet hpacket).imp hgrow
      · exact hown.2 _ _ _ hevent

/-- The entries up to an index that was reached and agreed on are committed. -/
theorem Tracked.committedLog (h : Tracked config timely w A) {k t : Nat} {L : List RaftLogEntry}
    (hreached : Reached w.history k) (hagreed : Raft.Agreed config.setting A t k L) :
    CommittedLog w.history (L.take k) := by
  rcases hreached with rfl | ⟨m, s, hmem, hk⟩
  · exact .inl rfl
  · obtain ⟨-, C, hC, hshows, hagreed', hterm⟩ := h.events m _ hmem
    have hlineage := h.lineage_take (Raft.Sourced.initial (h.inv.sourced_tlog _) hC) hagreed'.le_length
    rw [hterm] at hlineage
    refine .inr ⟨m, s, _, hmem, hlineage, ?_⟩
    rw [hagreed.unique h.inv hagreed' hk]
    exact List.take_prefix_take_left hk

/-- A committed log is agreed on. -/
theorem Tracked.agreed (h : Tracked config timely w A) {L : List RaftLogEntry} (hL : CommittedLog w.history L) :
    ∃ t, Raft.Agreed config.setting A t L.length L := by
  rcases hL with rfl | ⟨m, s, C, hmem, hlineage, hprefix⟩
  · exact ⟨0, .zero ..⟩
  · obtain ⟨-, D, hD, -, hagreed, -⟩ := h.events m _ hmem
    obtain ⟨hC, hlength⟩ := h.lineage_eq hlineage
    have hsame : C = D.take s.commitIndex := by
      obtain ⟨R, hR⟩ := hD
      rw [hC, ← hR, List.take_append_of_le_length hagreed.le_length]
    have hle : L.length ≤ s.commitIndex := hlength ▸ hprefix.length_le
    refine ⟨s.currentTerm, (hagreed.mono le_rfl hle).congr ?_⟩
    calc L.take L.length = L := List.take_length
      _ = C.take L.length := List.prefix_iff_eq_take.mp hprefix
      _ = D.take L.length := by rw [hsame, List.take_take, Nat.min_eq_left hle]

/-- There is one committed log of each length. -/
theorem Tracked.committedLog_unique (h : Tracked config timely w A) {L L' : List RaftLogEntry}
    (hL : CommittedLog w.history L) (hL' : CommittedLog w.history L') (hlength : L.length = L'.length) : L = L' := by
  obtain ⟨t, hagreed⟩ := h.agreed hL
  obtain ⟨t', hagreed'⟩ := h.agreed hL'
  have htake := hagreed.unique h.inv hagreed' hlength.le
  rwa [List.take_length, hlength, List.take_length] at htake

end Runs

end Nukv
