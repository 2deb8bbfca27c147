import Nukv.Property.Conflicts
import Nukv.Property.Frames
import Nukv.Property.Progress
import Nukv.Property.Transfers

/-!
# Acknowledged writes

`Submit` returns true in two ways. A commit poll sees that the commit index has reached the index of the entry: as long
as polls run before an election can start, the node has led its term all the time since it appended the entry, so the
entry is still there. Or the request has its record in the store: a record was left by a committed command, or came with a
snapshot whose records were, since a snapshot that is installed is one that was taken.
-/

namespace Nukv

/-! ### The snapshot in the store -/

namespace RaftNode

variable [Protobuf] {node : RaftNode}

omit [Protobuf] in
theorem stateSaved_data (node : RaftNode) : node.stateSaved.store.get snapshotDataKey = node.store.get snapshotDataKey := by
  change (node.store.written _).get _ = _
  rw [RocksKVStore.get_written, RaftStorage.persistState, (RaftStorage.lastPut_stateEntries_snapshot ..).2,
    Option.none_or, if_neg List.not_mem_nil]

theorem logSaved_data (node : RaftNode) : node.logSaved.store.get snapshotDataKey = node.store.get snapshotDataKey :=
  Holds.get_persistLog (by decide) _ _

theorem entryApplied_data {command : Proto.Command} {index commit : Nat} {batch : WriteBatch}
    (h : CommandApplier.applyAtomically node.store command index commit = .ok batch) :
    (node.entryApplied batch).store.get snapshotDataKey = node.store.get snapshotDataKey := by
  have hne : commitIndexKey ≠ snapshotDataKey ∧ lastAppliedKey ≠ snapshotDataKey := by decide
  refine (CommandApplier.get_reserved h (by decide) (by decide)).trans ?_
  simp [CommandApplier.progressEntries, lastPut, hne]

theorem compacted_data (node : RaftNode) : node.compacted.store.get snapshotDataKey = some node.captured := by
  refine RaftStorage.get_persistSnapshot (by decide) ?_
  rw [lastPut_append, (RaftStorage.lastPut_snapshotEntries ..).2, Option.some_or]

theorem installed_data {contents : SnapshotContents} (h : contents.WellFormed) :
    (node.installed contents).store.get snapshotDataKey =
      some (serializeSnapshotState contents.entries contents.appliedRequests) := by
  refine RaftStorage.get_applySnapshot h (by decide) ?_
  rw [lastPut_append, (RaftStorage.lastPut_snapshotEntries ..).2, Option.some_or]

end RaftNode

/-! ### Where the records come from -/

/-- Every dedup record of the snapshot satisfies `P`. -/
def Vouches [Protobuf] (P : Bytes → Prop) (data : Bytes) : Prop :=
  ∀ contents, parseSnapshotState data = .ok contents → ∀ pair ∈ contents.appliedRequests, P pair.2

/-- Every dedup record in the store, and in the snapshot that the store has, satisfies `P`. -/
structure Attributed [Protobuf] (P : Bytes → Prop) (store : RocksKVStore) : Prop where
  records : ∀ key value, store.get (clientPath ++ key) = some value → P value
  data : ∀ data, store.get snapshotDataKey = some data → Vouches P data

section Records

variable [Protobuf] {P Q : Bytes → Prop} {store store' : RocksKVStore} {data : Bytes} {action : LoopAction}
  {l l' : Local} {event : Option Event}

theorem Vouches.imp (hPQ : ∀ value, P value → Q value) (h : Vouches P data) : Vouches Q data :=
  fun contents hparse pair hpair => hPQ _ (h contents hparse pair hpair)

theorem Attributed.imp (hPQ : ∀ value, P value → Q value) (h : Attributed P store) : Attributed Q store :=
  ⟨fun key value hget => hPQ _ (h.records key value hget), fun data hget => (h.data data hget).imp hPQ⟩

theorem Attributed.congr (h : Attributed P store) (hagrees : store.Agrees store')
    (hdata : store'.get snapshotDataKey = store.get snapshotDataKey) : Attributed P store' := by
  refine ⟨fun key value hget => h.records key value ?_, fun data hget => h.data data (hdata ▸ hget)⟩
  rwa [← hagrees _ (.inr (startsWith_append _ _))]

theorem Attributed.stateSaved (node : RaftNode) (h : Attributed P node.store) : Attributed P node.stateSaved.store :=
  h.congr node.stateSaved_agrees node.stateSaved_data

theorem Attributed.logSaved (node : RaftNode) (h : Attributed P node.store) : Attributed P node.logSaved.store :=
  h.congr node.logSaved_agrees node.logSaved_data

/-- The records after a command was applied: its own one, and the older ones. -/
theorem CommandApplier.get_record {command : Proto.Command} {index commit : Nat} {batch : WriteBatch}
    (h : applyAtomically store command index commit = .ok batch) (key : Bytes) :
    (store.written batch).get (clientPath ++ key) =
      if command.requestId ≠ 0 ∧ clientPath ++ key = requestKey command then some (Protobuf.command.serialize command)
      else store.get (clientPath ++ key) := by
  have hclient : startsWith clientPath (clientPath ++ key) = true := startsWith_append _ _
  obtain ⟨hkey, ⟨-, hsame, rfl⟩ | ⟨-, hfresh⟩⟩ := applyAtomically_cases h
  · rw [RocksKVStore.get_written, lastPut_progressEntries (.inr hclient), Option.none_or, if_neg List.not_mem_nil]
    split
    · next hown => rw [hown.2, hsame]
    · rfl
  · have hne : command.key ≠ clientPath ++ key := by
      intro heq
      rw [heq, isReserved_of_clientPath hclient] at hkey
      cases hkey
    rcases hfresh with ⟨-, rfl⟩ | ⟨-, rfl⟩
    · rw [RocksKVStore.get_written, lastPut_append, lastPut_append, lastPut_progressEntries (.inr hclient),
        lastPut_recordEntries]
      split <;> simp [lastPut, hne]
    · rw [RocksKVStore.get_written, lastPut_append, lastPut_progressEntries (.inr hclient), lastPut_recordEntries]
      split <;> simp [hne.symm]

theorem Attributed.entryApplied {node : RaftNode} {command : Proto.Command} {index commit : Nat} {batch : WriteBatch}
    (h : Attributed P node.store) (hbatch : CommandApplier.applyAtomically node.store command index commit = .ok batch)
    (hcommand : P (Protobuf.command.serialize command)) : Attributed P (node.entryApplied batch).store := by
  refine ⟨fun key value hget => ?_, fun data hget => h.data data ((RaftNode.entryApplied_data hbatch).symm.trans hget)⟩
  have hrecord := (CommandApplier.get_record hbatch key).symm.trans hget
  split at hrecord
  · exact Option.some.inj hrecord ▸ hcommand
  · exact h.records key value hrecord

/-- A snapshot has the records of the store that it is taken of. -/
theorem Attributed.captured {node : RaftNode} (h : Attributed P node.store) : Vouches P node.captured := by
  intro contents hparse pair hpair
  obtain rfl := parseSnapshotState_serialize hparse
  exact h.records _ _ (mem_getAppliedRequests.mp hpair)

/-- What a node knows of the commands of its records, in its store and in the snapshot that it holds. -/
structure Attributes (P : Bytes → Prop) (d : LogState) : Prop where
  store : Attributed P d.store
  data : d.snapshotIndex ≠ 0 → Vouches P d.snapshotData

theorem Attributes.imp {d : LogState} (hPQ : ∀ value, P value → Q value) (h : Attributes P d) : Attributes Q d :=
  ⟨h.store.imp hPQ, fun hne => (h.data hne).imp hPQ⟩

theorem Attributes.stateSaved (node : RaftNode) (hstore : Attributed P node.store)
    (hdata : node.snapshotIndex ≠ 0 → Vouches P node.snapshotData) : Attributes P node.stateSaved.toLogState :=
  ⟨hstore.stateSaved, hdata⟩

theorem Attributes.voteSaved {node : RaftNode} (h : Attributes P node.toLogState) (candidate : Int) :
    Attributes P (node.voteSaved candidate).toLogState :=
  Attributes.stateSaved { node with votedFor := candidate } h.store h.data

theorem Attributes.compacted {node : RaftNode} (h : Attributes P node.toLogState) :
    Attributes P node.compacted.toLogState := by
  refine ⟨⟨fun key value hget => h.store.records key value ?_, fun data hget => ?_⟩, fun _ => h.store.captured⟩
  · rwa [← node.compacted_agrees _ (.inr (startsWith_append _ _))]
  · obtain rfl := Option.some.inj (node.compacted_data.symm.trans hget)
    exact h.store.captured

theorem Attributes.installed {node : RaftNode} {contents : SnapshotContents}
    (hparse : parseSnapshotState node.incomingSnapshotData = .ok contents) (hvouches : Vouches P node.incomingSnapshotData) :
    Attributes P (node.installed contents).toLogState := by
  have hwell := SnapshotContents.WellFormed.of_parse hparse
  have hrecords := hvouches contents hparse
  refine ⟨⟨fun key value hget => ?_, fun data hget => ?_⟩, fun _ => hvouches⟩
  · exact hrecords _ ((RaftStorage.get_applySnapshot_request hwell).mp hget)
  · -- the store has the contents serialized again
    obtain rfl := Option.some.inj ((RaftNode.installed_data hwell).symm.trans hget)
    intro contents' hparse' pair hpair
    obtain rfl := parseSnapshotState_serialize hparse'
    exact hrecords pair hpair

/-- One step, if the commands that are applied and the snapshots that are installed satisfy `P`. -/
theorem Attributes.step (h : Attributes P l.node.toLogState)
    (happly : ∀ entry command, l.node.lastApplied < l.node.commitIndex →
      l.node.entryAt (l.node.lastApplied + 1) = .ok entry → Protobuf.command.parse entry.command = some command →
      P (Protobuf.command.serialize command))
    (hinstall : ∀ index term data s, event = some (.write (.applySnapshot index term data) s) → Vouches P data)
    (hstep : Micro action l event l') : Attributes P l'.node.toLogState := by
  rcases hstep with hstep | hstep | hstep | hstep | hstep | hstep | hstep | hstep | hstep
  case role =>
    cases hstep with
    | adoptTerm c rpc term =>
      exact Attributes.stateSaved { l.node.steppedDown with currentTerm := term, votedFor := -1 } h.store h.data
    | campaign =>
      exact Attributes.stateSaved { l.node with
        role := .candidate
        currentTerm := l.node.currentTerm + 1
        votedFor := l.node.serverId
        grantedVotes := {l.node.serverId} } h.store h.data
    | grant => exact h.voteSaved _
    | _ => exact h
  case log =>
    cases hstep with
    | push => exact ⟨Attributed.logSaved ({ l.node with log := _ } : RaftNode) h.store, h.data⟩
    | merge => exact ⟨Attributed.logSaved ({ l.node with log := _ } : RaftNode) h.store, h.data⟩
    | install c rpc request contents s _ _ _ _ _ _ _ _ _ _ hparse =>
      exact .installed hparse (hinstall _ _ _ s rfl)
    | advance | spoil => exact ⟨h.store, h.data⟩
  case apply =>
    cases hstep with
    | apply entry command batch s _ hlt hentry hparse hbatch =>
      exact ⟨h.store.entryApplied hbatch (happly entry command hlt hentry hparse), h.data⟩
    | persist => exact .stateSaved _ h.store h.data
    | compact => exact h.compacted
    | _ => exact ⟨h.store, h.data⟩
  all_goals cases hstep <;> exact h

end Records

section Placed

variable [Protobuf] {config : Config} {timely : Prop} {A A' : Shadow} {w w' : World} {n : Int} {l l' : Local}
  {action : LoopAction} {event : Option Event} {history : List (Int × Event)} {t t' : Nat} {command : Bytes}

/-- The command is an entry of a log that was committed in the term or before. -/
def Placed (config : Config) (A : Shadow) (history : List (Int × Event)) (t : Nat) (command : Bytes) : Prop :=
  ∃ L i entry, Reached history (i + 1) ∧ Raft.Agreed config.setting A t (i + 1) L ∧ L[i]? = some entry ∧
    entry.command = command

omit [Protobuf] in
theorem Placed.mono (h : Placed config A history t command) (ht : t ≤ t') : Placed config A history t' command := by
  obtain ⟨L, i, entry, hreached, hagreed, hentry, hcommand⟩ := h
  exact ⟨L, i, entry, hreached, hagreed.mono ht le_rfl, hentry, hcommand⟩

omit [Protobuf] in
theorem Placed.grow (h : Placed config A history t command) (hext : Raft.Extends A A') (more : List (Int × Event)) :
    Placed config A' (history ++ more) t command := by
  obtain ⟨L, i, entry, hreached, hagreed, hentry, hcommand⟩ := h
  exact ⟨L, i, entry, hreached.append more, hagreed.grow hext, hentry, hcommand⟩

/-- An entry up to the commit index. -/
theorem Tracked.placed (h : Tracked config timely w A) (hview : w.views n = .active l) {i : Nat} {entry : RaftLogEntry}
    (hi : i < l.node.commitIndex) (hentry : (A.log n)[i]? = some entry) :
    Placed config A w.history l.node.currentTerm entry.command := by
  have hdepicts := (h.related.active n l hview).memory.depicts
  have hbacked := h.backed.1 n
  rw [hview] at hbacked
  have hterm : A.term n = l.node.currentTerm := hdepicts.term
  refine ⟨A.log n, i, entry, hbacked.commit.mono hi, ?_, hentry, rfl⟩
  exact hterm ▸ hdepicts.commitIndex.mono le_rfl hi

/-- What is appended is a serialized command. -/
theorem Tracked.append_serialized (h : Tracked config timely w A) {s : RaftNode} {entry : RaftLogEntry}
    (hmem : (n, .write (.persistLog none) s) ∈ w.history) (hlast : s.log.getLast? = some entry) :
    ∃ command, entry.command = Protobuf.command.serialize command := by
  refine h.invariant (I := fun w _ => ∀ n s entry, (n, .write (.persistLog none) s) ∈ w.history →
    s.log.getLast? = some entry → ∃ command, entry.command = Protobuf.command.serialize command) ?_ ?_ n s entry hmem hlast
  · exact fun _ _ _ hmem => absurd hmem List.not_mem_nil
  · intro w w' A A' m event htracked _ hstep _ _ ih n s entry hmem hlast
    rcases hstep.history_cases hmem with hold | ⟨rfl, rfl⟩
    · exact ih n s entry hold hlast
    · rcases hstep.event with ⟨_, _, -, -, hload, -⟩ | ⟨action, l, l', -, -, -, hmicro⟩
      · cases hload
      · obtain ⟨call, -, -, -, hstate, -⟩ := hmicro.appends
        have hlog : s.log = l.node.log ++ [⟨l.node.currentTerm, Protobuf.command.serialize call.command⟩] :=
          (congrArg (fun t : RaftNode => t.log) hstate).trans rfl
        rw [hlog, List.getLast?_concat] at hlast
        exact ⟨call.command, by rw [← Option.some.inj hlast]⟩

/-- The command of an entry is what the entry has. -/
theorem Tracked.serialize_eq (h : Tracked config timely w A) {k : Nat} {entry : RaftLogEntry} {command : Proto.Command}
    (hentry : (A.log n)[k]? = some entry) (hparse : Protobuf.command.parse entry.command = some command) :
    Protobuf.command.serialize command = entry.command := by
  obtain ⟨m, s, hmem, hlast⟩ := h.entry_appended hentry
  obtain ⟨command', hcommand⟩ := h.append_serialized hmem hlast
  rw [hcommand, Protobuf.command.parse_serialize] at hparse
  rw [hcommand, Option.some.inj hparse]

/-! ### The records are of committed commands -/

def View.Attributes (P : Bytes → Prop) : View → Prop
  | .active l => Nukv.Attributes P l.node.toLogState
  | .down store => Attributed P store

theorem View.Attributes.imp {P Q : Bytes → Prop} (hPQ : ∀ value, P value → Q value) {view : View}
    (h : view.Attributes P) : view.Attributes Q := by
  cases view with
  | active l => exact Nukv.Attributes.imp hPQ h
  | down store => exact Attributed.imp hPQ h

/-- The records that the nodes have, and those that were sent. -/
structure Attribution (config : Config) (w : World) (A : Shadow) : Prop where
  views : ∀ n, (w.views n).Attributes (Placed config A w.history (A.term n))
  chunks : ∀ n c rpc s request, (n, .send c rpc s) ∈ w.history → rpc.payload = .installSnapshot request →
    Vouches (Placed config A w.history request.term) s.snapshotData

/-- One step of one node: what it applies is committed, and what it installs was sent. -/
theorem Attribution.step (h : Attribution config w A) (htracked : Tracked config timely w A)
    (htracked' : Tracked config timely w' A') (hstep : World.Step config timely w n event w')
    (hgrow : ∀ value, Placed config A w.history (A.term n) value → Placed config A' w'.history (A'.term n) value) :
    (w'.views n).Attributes (Placed config A' w'.history (A'.term n)) := by
  have hown := (h.views n).imp hgrow
  cases hstep with
  | start store state hview hmember hload =>
    rw [hview] at hown
    rw [World.moved_views_self]
    refine ⟨hown, fun hne => ?_⟩
    obtain ⟨held, hholds, -⟩ := htracked.related.down n store hview
    obtain ⟨rfl, -⟩ := hholds.load_eq_ok.mp hload
    rcases hholds.snapshot with ⟨-, -, hindex, -⟩ | ⟨-, hdata, -⟩
    · exact absurd hindex hne
    · exact hown.data _ hdata
  | die l hview =>
    rw [hview] at hown
    rw [World.moved_views_self]
    exact hown.store
  | connect peer serial l hview =>
    rw [hview] at hown
    change View.Attributes _ ((w.moved n _ none).views n)
    rw [World.moved_views_self]
    exact hown
  | accept connection l hview =>
    rw [hview] at hown
    change View.Attributes _ ((w.moved n _ none).views n)
    rw [World.moved_views_self]
    exact hown
  | micro action l l' _ hview hdue hmicro =>
    rw [hview] at hown
    rw [World.moved_views_self]
    refine Nukv.Attributes.step hown (fun entry command hlt hentry hparse => hgrow _ ?_) ?_ hmicro
    · have hmemory := (htracked.related.active n l hview).memory
      have hread := ((Memory.shows hmemory).entryAt.mp hentry).2
      rw [htracked.serialize_eq hread hparse, show A.term n = l.node.currentTerm from hmemory.depicts.term]
      exact htracked.placed hview hlt hread
    · rintro index term data s rfl
      obtain ⟨m, c, rpc, sent, request, hmem, hpayload, hterm, -, rfl⟩ := htracked.installed_sent hview hdue hmicro
      have hchunk := h.chunks m c rpc sent request hmem hpayload
      rw [hterm, ← show A.term n = l.node.currentTerm from (htracked.related.active n l hview).memory.depicts.term] at hchunk
      exact hchunk.imp hgrow

theorem Tracked.attribution (h : Tracked config timely w A) : Attribution config w A := by
  refine h.invariant (I := fun w A => Attribution config w A) ?_ ?_
  · have hnone : ∀ key value, RocksKVStore.empty.get key ≠ some value := fun key value => by
      simp [RocksKVStore.empty, RocksKVStore.get]
    have hempty : Attributed (Placed config Raft.State.initial World.initial.history 0) RocksKVStore.empty :=
      ⟨fun _ _ hget => absurd hget (hnone _ _), fun _ hget => absurd hget (hnone _ _)⟩
    exact ⟨fun _ => hempty, fun _ _ _ _ _ hmem => absurd hmem List.not_mem_nil⟩
  · intro w w' A A' n event htracked htracked' hstep hsteps _ ih
    have hext := hsteps.extends htracked.inv
    have hgrow : ∀ t t', t ≤ t' → ∀ value, Placed config A w.history t value → Placed config A' w'.history t' value :=
      fun t t' ht value hvalue => hstep.history ▸ (hvalue.mono ht).grow hext _
    refine ⟨fun m => ?_, fun m c rpc s request hmem hrequest => ?_⟩
    · by_cases hm : m = n
      · exact hm ▸ ih.step htracked htracked' hstep (hgrow _ _ (hext.term n))
      · rw [hstep.views hm]
        exact (ih.views m).imp (hgrow _ _ (hext.term m))
    · rcases hstep.history_cases hmem with hold | ⟨rfl, rfl⟩
      · exact (ih.chunks m c rpc s request hold hrequest).imp (hgrow _ _ le_rfl)
      · rcases hstep.event with ⟨_, _, -, -, hload, -⟩ | ⟨action, l, l', hview, -, hdue, hmicro⟩
        · cases hload
        obtain ⟨hrole, hown, hs, offset, -, rfl⟩ := htracked.chunk_owned hview hdue hmicro hrequest
        have hterm : A.term m = l.node.currentTerm := (htracked.related.active m l hview).memory.depicts.term
        have hpresent := ih.views m
        rw [hview] at hpresent
        rw [congrArg LogState.snapshotData hs]
        exact (hpresent.data (htracked.owned_ne_zero hview hrole hown)).imp (hgrow _ _ hterm.le)

/-! ### The polls -/

/-- A leader has the entries that are polled for, and a candidate waits for none. -/
structure Polled (A : Shadow) (n : Int) (role : Role) (polls : List CommitPoll) (pushed : Option CommitPoll) : Prop where
  leader : role = .leader → ∀ poll, poll ∈ polls ∨ pushed = some poll → 1 ≤ poll.target ∧
    ∃ entry, (A.log n)[poll.target - 1]? = some entry ∧ entry.command = Protobuf.command.serialize poll.result.command
  candidate : role = .candidate → polls = [] ∧ pushed = none

/-- No poll is new. -/
theorem Polled.sub {role : Role} {polls polls' : List CommitPoll} {pushed pushed' : Option CommitPoll}
    (h : Polled A n role polls pushed) (hlog : role = .leader → A.log n <+: A'.log n)
    (hsub : ∀ poll, poll ∈ polls' ∨ pushed' = some poll → poll ∈ polls ∨ pushed = some poll) :
    Polled A' n role polls' pushed' := by
  refine ⟨fun hrole poll hpoll => ?_, fun hrole => ?_⟩
  · obtain ⟨hpos, entry, hentry, hcommand⟩ := h.leader hrole poll (hsub poll hpoll)
    obtain ⟨more, hmore⟩ := hlog hrole
    refine ⟨hpos, entry, ?_, hcommand⟩
    rw [← hmore, List.getElem?_append_left (List.getElem?_eq_some_iff.mp hentry).1]
    exact hentry
  · obtain ⟨rfl, rfl⟩ := h.candidate hrole
    have hnone : ∀ poll, ¬ (poll ∈ polls' ∨ pushed' = some poll) := fun poll hpoll => by simpa using hsub poll hpoll
    exact ⟨List.eq_nil_iff_forall_not_mem.mpr fun poll hpoll => hnone poll (.inl hpoll),
      Option.eq_none_iff_forall_ne_some.mpr fun poll hpoll => hnone poll (.inr hpoll)⟩

theorem Polled.voteSaved {node : RaftNode} {pushed : Option CommitPoll} (h : Polled A n node.role node.commitPolls pushed)
    (hlog : node.role = .leader → A.log n <+: A'.log n) (candidate : Int) :
    Polled A' n (node.voteSaved candidate).role (node.voteSaved candidate).commitPolls pushed :=
  h.sub hlog fun _ hpoll => hpoll

theorem Polled.step {sent : List Packet} (h : Polled A n l.node.role l.node.commitPolls l.pushed)
    (hdue : w.Due True n l action) (hnode' : NodeSim config A' sent n l')
    (hlog : l.node.role = .leader → l'.node.role = .leader → A.log n <+: A'.log n) (hstep : Micro action l event l') :
    Polled A' n l'.node.role l'.node.commitPolls l'.pushed := by
  have hvacuous : ∀ polls pushed, Polled A' n .follower polls pushed := fun _ _ => ⟨nofun, nofun⟩
  rcases hstep with hstep | hstep | hstep | hstep | hstep | hstep | hstep | hstep | hstep
  case role =>
    cases hstep with
    | adoptTerm | demote => exact hvacuous _ _
    | campaign s haction hanswering hrole =>
      subst haction
      exact ⟨nofun, fun _ => (hdue trivial).resolve_left hrole⟩
    | grant => exact h.voteSaved (fun hrole => hlog hrole hrole) _
    | countVote => exact h.sub (fun hrole => hlog hrole hrole) fun _ hpoll => hpoll
    | elect s hrole =>
      obtain ⟨hpolls, hpushed⟩ := h.candidate hrole
      refine ⟨fun _ poll hpoll => ?_, nofun⟩
      change poll ∈ l.node.commitPolls ∨ l.pushed = some poll at hpoll
      simp [hpolls, hpushed] at hpoll
  case log =>
    cases hstep with
    | push call s haction hrole =>
      refine ⟨fun _ poll hpoll => ?_, fun hcandidate => absurd (hrole.symm.trans hcandidate) (by simp)⟩
      rcases hpoll with hold | hnew
      · exact (h.sub (fun hrole => hlog hrole hrole) fun _ hpoll => hpoll).leader hrole poll (.inl hold)
      · obtain rfl := Option.some.inj hnew
        obtain ⟨L, -, hlog', hlength⟩ := hnode'.pushed hrole
        refine ⟨Nat.le_add_left .., ⟨l.node.currentTerm, Protobuf.command.serialize call.command⟩, ?_, rfl⟩
        rw [hlog', Nat.add_sub_cancel, ← hlength, List.getElem?_append_right le_rfl, Nat.sub_self]
        rfl
    | _ => exact h.sub (fun hrole => hlog hrole hrole) fun _ hpoll => hpoll
  case submit =>
    cases hstep with
    | take poll hpoll =>
      refine h.sub (fun hrole => hlog hrole hrole) ?_
      rintro other (hold | hnew)
      · exact .inl (List.mem_of_mem_erase hold)
      · exact .inl (Option.some.inj hnew ▸ hpoll)
    | wait poll hpushed =>
      refine h.sub (fun hrole => hlog hrole hrole) ?_
      rintro other (hold | hnew)
      · rcases List.mem_append.mp hold with hold | hlast
        · exact .inl hold
        · exact .inr (List.mem_singleton.mp hlast ▸ hpushed)
      · cases hnew
    | repeated => exact h.sub (fun hrole => hlog hrole hrole) fun _ hpoll => hpoll
    | committed | refused | clear =>
      exact h.sub (fun hrole => hlog hrole hrole) fun _ hpoll => hpoll.imp_right (nomatch ·)
  all_goals cases hstep <;> exact h.sub (fun hrole => hlog hrole hrole) fun _ hpoll => hpoll

theorem Tracked.polled (h : Tracked config True w A) (hview : w.views n = .active l) :
    Polled A n l.node.role l.node.commitPolls l.pushed := by
  -- a leader has the log of its term, which only grows
  have hgrows : ∀ {w w' A A' n m l l'}, Tracked config True w A → Tracked config True w' A' → w.views m = .active l →
      w'.views m = .active l' → Raft.Steps config.setting n A A' → l.node.role = .leader → l'.node.role = .leader →
      l'.node.currentTerm = l.node.currentTerm → A.log m <+: A'.log m := by
    intro w w' A A' n m l l' htracked htracked' hview hview' hsteps hrole hrole' hterm
    rw [← ((htracked.related.active m l hview).roles.leader hrole).tlog,
      ← ((htracked'.related.active m l' hview').roles.leader hrole').tlog]
    change A.tlog l.node.currentTerm <+: A'.tlog l'.node.currentTerm
    rw [hterm]
    exact (hsteps.extends htracked.inv).tlog _
  refine h.each (P := fun _ A n l => Polled A n l.node.role l.node.commitPolls l.pushed) ?_ ?_ ?_ ?_ n l hview
  · exact fun _ _ _ _ _ _ _ _ _ _ => ⟨nofun, nofun⟩
  · exact fun _ _ _ _ _ _ _ _ _ _ _ ih => ih
  · intro w w' A A' n action l l' event htracked htracked' hview hview' hdue hmicro _ hsteps ih
    refine ih.step hdue (htracked'.related.active n l' hview') (fun hrole hrole' => ?_) hmicro
    exact hgrows htracked htracked' hview hview' hsteps hrole hrole' (hmicro.leader hrole').1
  · intro w w' A A' n m l event hne htracked htracked' hview hstep hsteps ih
    exact ih.sub (fun hrole => hgrows htracked htracked' hview ((hstep.views hne).trans hview) hsteps hrole hrole rfl)
      fun _ hpoll => hpoll

/-! ### Answers -/

/-- What `Submit` has answered with true is committed in the term of the answer or before. -/
theorem Tracked.acknowledged (h : Tracked config True w A) : ∀ n call s, (n, .submitResult call true s) ∈ w.history →
    Placed config A w.history s.currentTerm (Protobuf.command.serialize call.command) := by
  refine h.invariant (I := fun w A => ∀ n call s, (n, .submitResult call true s) ∈ w.history →
    Placed config A w.history s.currentTerm (Protobuf.command.serialize call.command)) ?_ ?_
  · exact fun _ _ _ hmem => absurd hmem List.not_mem_nil
  · intro w w' A A' m event htracked htracked' hstep hsteps _ ih n call s hmem
    rw [hstep.history]
    have hext := hsteps.extends htracked.inv
    rcases hstep.history_cases hmem with hold | ⟨rfl, rfl⟩
    · exact (ih n call s hold).grow hext _
    · refine Placed.grow ?_ hext _
      rcases hstep.event with ⟨_, _, -, -, hload, -⟩ | ⟨action, l, l', hview, -, -, hmicro⟩
      · cases hload
      have hdepicts := (htracked.related.active n l hview).memory.depicts
      rcases hmicro with hmicro | hmicro | hmicro | hmicro | hmicro | hmicro | hmicro | hmicro | hmicro
      case submit =>
        cases hmicro with
        | committed poll s hpushed hrole htarget hstate =>
          have hterm : s.currentTerm = l.node.currentTerm := (congrArg (fun t : RaftNode => t.currentTerm) hstate).trans rfl
          obtain ⟨hpos, entry, hentry, hcommand⟩ := (htracked.polled hview).leader hrole poll (.inr hpushed)
          rw [hterm, ← hcommand]
          exact htracked.placed hview (by omega) hentry
        | repeated call s haction hrole hid hrecord hstate =>
          have hterm : s.currentTerm = l.node.currentTerm := (congrArg (fun t : RaftNode => t.currentTerm) hstate).trans rfl
          have hviews := htracked.attribution.views n
          rw [hview] at hviews
          rw [hterm, ← show A.term n = l.node.currentTerm from hdepicts.term]
          refine hviews.store.records (decimal call.command.clientId ++ ascii "/" ++ decimal call.command.requestId) _ ?_
          unfold RaftStorage.getAppliedCommand appliedRequestKey at hrecord
          rwa [← List.append_assoc, ← List.append_assoc]
      all_goals cases hmicro

end Placed

namespace Cluster

/-- A command that `Submit` has answered with true has its index: it was committed there, and every leader of the term of
the answer or of a later one has it there, in its log or in its snapshot. -/
theorem acknowledged_kept [Protobuf] {config : Config} {cluster : Cluster}
    (h : Run config (fun cluster act => cluster.PollsFirst act) cluster) {n : Int} {call : SubmitCall} {s : RaftNode}
    (hack : (n, .submitResult call true s) ∈ cluster.history) :
    ∃ L i entry, CommittedLog cluster.history L ∧ L[i]? = some entry ∧
      entry.command = Protobuf.command.serialize call.command ∧
      ∀ later, Run config (fun cluster act => cluster.PollsFirst act) later → cluster.history <+: later.history →
        ∀ m node, later.nodes m = .running node → node.role = .leader → s.currentTerm ≤ node.currentTerm →
          node.entryAt (i + 1) = .ok entry ∨ i + 1 ≤ node.snapshotIndex ∧
            ∃ L', Lineage later.history node.snapshotIndex node.snapshotTerm L' ∧ L'[i]? = some entry := by
  classical
  have htracked : ∀ {cluster}, Run config (fun cluster act => cluster.PollsFirst act) cluster →
      ∃ A, Tracked config True cluster.world A := fun hrun => (hrun.reach fun _ _ _ hact => hact).1.tracked
  obtain ⟨A, hA⟩ := htracked h
  -- the first place of the command in the committed logs
  have hplace : ∃ i : Nat, ∃ (L : List RaftLogEntry) (entry : RaftLogEntry), CommittedLog cluster.history L ∧
      L[i]? = some entry ∧ entry.command = Protobuf.command.serialize call.command := by
    obtain ⟨L, i, entry, hreached, hagreed, hentry, hcommand⟩ := hA.acknowledged n call s hack
    exact ⟨i, _, entry, hA.committedLog hreached hagreed, by rwa [List.getElem?_take_of_lt (Nat.lt_succ_self i)], hcommand⟩
  obtain ⟨L, entry, hL, hentry, hcommand⟩ := Nat.find_spec hplace
  have hfirst := fun {i'} => Nat.find_min hplace (m := i')
  generalize Nat.find hplace = i at hentry hfirst
  refine ⟨L, i, entry, hL, hentry, hcommand, fun later hlater hhistory m node hnode hrole hterm => ?_⟩
  obtain ⟨more, hmore⟩ := hhistory
  obtain ⟨B, hB⟩ := htracked hlater
  have hview : later.world.views m = .active (Local.rest node) := congrArg Status.view hnode
  have hsim := hB.related.active m _ hview
  have hi : i + 1 ≤ L.length := (List.getElem?_eq_some_iff.mp hentry).1
  obtain ⟨t, hagreed⟩ := hB.agreed (hmore ▸ hL.append more : CommittedLog later.history L)
  -- it was acknowledged because of this place, or of a later one
  have hack' : (n, .submitResult call true s) ∈ later.history := hmore ▸ List.mem_append_left more hack
  obtain ⟨L', i', entry', hreached', hagreed', hentry', hcommand'⟩ := hB.acknowledged n call s hack'
  have hle : i ≤ i' := by
    by_contra hlt
    have htake := hagreed'.unique hB.inv hagreed (by omega)
    refine hfirst (Nat.lt_of_not_le hlt) ⟨L, entry', hL, ?_, hcommand'⟩
    rw [← Raft.getElem?_eq_of_take_eq (Nat.lt_succ_self i') htake]
    exact hentry'
  have hagreed'' := hagreed'.mono le_rfl (Nat.succ_le_succ hle)
  have hsame : (B.log m).take (i + 1) = L.take (i + 1) := by
    have hleader := hsim.roles.leader hrole
    rw [← hleader.tlog]
    exact (hagreed''.take_tlog hB.inv hleader.leads hterm).trans (hagreed''.unique hB.inv hagreed hi)
  have hread : (B.log m)[i]? = some entry := by
    rw [Raft.getElem?_eq_of_take_eq (Nat.lt_succ_self i) hsame]
    exact hentry
  rcases Nat.lt_or_ge i node.snapshotIndex with hlt | hge
  · refine .inr ⟨hlt, (B.log m).take node.snapshotIndex, ?_, by rwa [List.getElem?_take_of_lt hlt]⟩
    rw [show node.snapshotTerm = _ from hsim.memory.depicts.snapshotTerm]
    exact hB.lineage_take (hB.inv.sourced_log m) hsim.memory.snapshot_le
  · exact .inl ((Memory.shows hsim.memory).entryAt.mpr ⟨hge, hread⟩)

/-- Whether polls run before an election, for a test. -/
def pollsFirst (cluster : Cluster) : Action → Bool
  | .run server .electionTimeout | .crash server .electionTimeout _ =>
    match cluster.nodes server with
    | .running node => node.role == .leader || node.commitPolls.isEmpty
    | .down _ => true
  | _ => true

theorem pollsFirst_of_test {cluster : Cluster} {act : Action} (h : cluster.pollsFirst act = true) :
    cluster.PollsFirst act := by
  unfold PollsFirst
  split
  · intro node hnode
    simpa [pollsFirst, hnode] using h
  · intro node hnode
    simpa [pollsFirst, hnode] using h
  · trivial

/-- Whether the event is the acknowledgement of a write, in a term. -/
def acknowledgesIn (term : Nat) : Event → Bool
  | .submitResult _ true s => s.currentTerm == term
  | _ => false

/-- Node 1 has acknowledged a command, and node 2 leads the next term. -/
theorem acknowledged_kept_unaware : ∃ cluster call s node,
    @Run Wire.protobuf trio (fun cluster act => cluster.PollsFirst act) cluster ∧
    (1, .submitResult call true s) ∈ cluster.history ∧ cluster.nodes 2 = .running node ∧ node.role = .leader ∧
    s.currentTerm < node.currentTerm ∧ ∃ i entry, entry.command = Wire.protobuf.command.serialize call.command ∧
      node.entryAt (i + 1) = .ok entry := by
  obtain ⟨cluster, hrun, htest⟩ := @run_of_play Wire.protobuf trio (fun cluster act => cluster.pollsFirst act = true) _
    unaware
    (fun cluster => cluster.occurs 1 (acknowledgesIn 1) && (cluster.nodes 2).runs fun node =>
      node.role == .leader && node.currentTerm == 2 && node.snapshotIndex == 0) (by decide +kernel)
  have hpolls := @Run.mono Wire.protobuf trio cluster _ (fun cluster act => cluster.PollsFirst act) hrun
    fun _ _ => pollsFirst_of_test
  rw [Bool.and_eq_true] at htest
  obtain ⟨hacked, htest⟩ := htest
  obtain ⟨e, hmem, he⟩ := exists_of_occurs hacked
  obtain ⟨call, s, rfl, hterm⟩ : ∃ call s, e = .submitResult call true s ∧ s.currentTerm = 1 := by
    unfold acknowledgesIn at he
    split at he
    next call s => exact ⟨call, s, rfl, beq_iff_eq.mp he⟩
    next => cases he
  obtain ⟨node, hnode, htest⟩ := Status.exists_of_runs htest
  simp only [Bool.and_eq_true, beq_iff_eq] at htest
  obtain ⟨⟨hrole, hlater⟩, hsnapshot⟩ := htest
  obtain ⟨L, i, entry, -, -, hcommand, hkept⟩ := @acknowledged_kept Wire.protobuf trio cluster hpolls 1 call s hmem
  have hlt : s.currentTerm < node.currentTerm := by omega
  refine ⟨cluster, call, s, node, hpolls, hmem, hnode, hrole, hlt, i, entry, hcommand, ?_⟩
  exact (hkept cluster hpolls (List.prefix_refl _) 2 node hnode hrole hlt.le).resolve_right fun hcovered => by
    have := hcovered.1
    omega

end Cluster

end Nukv
