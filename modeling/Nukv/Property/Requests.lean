import Nukv.Property.Acknowledged

/-!
# Requests and their records

Every request that a node has applied has its record in the store, whatever snapshots were installed and however often
the node has come up again. So `Submit` refuses a second command of a request that is applied. It does not look at the
log: a second command can be appended while the first one waits, and both are acknowledged as soon as they are committed.

That is the only way. If no command is appended next to another one of its request that is not applied, then all commands
of one request that are ever acknowledged are the same.
-/

namespace Nukv

section Records

variable [Protobuf] {config : Config} {A A' : Shadow} {i k k' : Nat} {entry : RaftLogEntry} {R R' : Bytes → Prop}
  {store store' : RocksKVStore} {data : Bytes}

/-- The entry at the index is committed. -/
def Fixed (config : Config) (A : Shadow) (i : Nat) (entry : RaftLogEntry) : Prop :=
  ∃ t L, Raft.Agreed config.setting A t (i + 1) L ∧ L[i]? = some entry

omit [Protobuf] in
theorem Fixed.getElem? (h : Fixed config A i entry) (hI : Raft.Inv config.setting A) {t : Nat} {L : List RaftLogEntry}
    (hagreed : Raft.Agreed config.setting A t k L) (hi : i < k) : L[i]? = some entry := by
  obtain ⟨t', L', hagreed', hentry⟩ := h
  rw [← Raft.getElem?_eq_of_take_eq (Nat.lt_succ_self i) (hagreed'.unique hI hagreed hi)]
  exact hentry

/-- Each of the first commands that is a request has its record. -/
def Covers (config : Config) (A : Shadow) (k : Nat) (R : Bytes → Prop) : Prop :=
  ∀ i < k, ∃ entry, Fixed config A i entry ∧ ∀ command, entry.parsed = some command → command.requestId ≠ 0 →
    ∃ key, clientPath ++ key = CommandApplier.requestKey command ∧ R key

theorem Covers.imp (h : Covers config A k R) (hR : ∀ key, R key → R' key) : Covers config A k R' := by
  intro i hi
  obtain ⟨entry, hfixed, hrecord⟩ := h i hi
  refine ⟨entry, hfixed, fun command hparse hid => ?_⟩
  obtain ⟨key, hkey, hholds⟩ := hrecord command hparse hid
  exact ⟨key, hkey, hR key hholds⟩

theorem Covers.mono (h : Covers config A k R) (hle : k' ≤ k) : Covers config A k' R :=
  fun i hi => h i (hi.trans_le hle)

theorem Covers.grow (h : Covers config A k R) (hext : Raft.Extends A A') : Covers config A' k R := by
  intro i hi
  obtain ⟨entry, ⟨t, L, hagreed, hentry⟩, hrecord⟩ := h i hi
  exact ⟨entry, ⟨t, L, hagreed.grow hext, hentry⟩, hrecord⟩

theorem Covers.zero : Covers config A 0 R := fun _ hi => absurd hi (Nat.not_lt_zero _)

/-- The store has a record under the key. -/
def RocksKVStore.Records (store : RocksKVStore) (key : Bytes) : Prop := ∃ value, store.get (clientPath ++ key) = some value

/-- The snapshot has the records of the first commands. -/
def CoversData (config : Config) (A : Shadow) (k : Nat) (data : Bytes) : Prop :=
  ∀ contents, parseSnapshotState data = .ok contents →
    Covers config A k fun key => ∃ value, (key, value) ∈ contents.appliedRequests

theorem CoversData.grow (h : CoversData config A k data) (hext : Raft.Extends A A') : CoversData config A' k data :=
  fun contents hparse => (h contents hparse).grow hext

omit [Protobuf] in
theorem RocksKVStore.Agrees.records (h : store.Agrees store') (key : Bytes) (hrecord : store.Records key) :
    store'.Records key := by
  obtain ⟨value, hget⟩ := hrecord
  exact ⟨value, (h _ (.inr (startsWith_append _ _))).trans hget⟩

/-- A snapshot has the records of the store that it is taken of. -/
theorem Covers.captured {node : RaftNode} (h : Covers config A k node.store.Records) : CoversData config A k node.captured := by
  intro contents hparse
  obtain rfl := parseSnapshotState_serialize hparse
  refine h.imp fun key hrecord => ?_
  obtain ⟨value, hget⟩ := hrecord
  exact ⟨value, mem_getAppliedRequests.mpr hget⟩

/-- One more command is applied. -/
theorem Covers.entryApplied {node : RaftNode} {command : Proto.Command} {index commit : Nat} {batch : WriteBatch}
    (h : Covers config A k node.store.Records) (hfixed : Fixed config A k entry) (hparse : entry.parsed = some command)
    (hbatch : CommandApplier.applyAtomically node.store command index commit = .ok batch) :
    Covers config A (k + 1) (node.entryApplied batch).store.Records := by
  have hget := CommandApplier.get_record hbatch
  intro i hi
  rcases Nat.lt_succ_iff_lt_or_eq.mp hi with hlt | rfl
  · refine h.imp (fun key hrecord => ?_) i hlt
    obtain ⟨value, hvalue⟩ := hrecord
    change ∃ value, (node.store.written batch).get _ = _
    rw [hget]
    split
    · exact ⟨_, rfl⟩
    · exact ⟨value, hvalue⟩
  · refine ⟨entry, hfixed, fun command' hparse' hid => ?_⟩
    obtain rfl := Option.some.inj (hparse.symm.trans hparse')
    have hkey : clientPath ++ (decimal command.clientId ++ ascii "/" ++ decimal command.requestId) =
        CommandApplier.requestKey command := by
      rw [← List.append_assoc, ← List.append_assoc]
      rfl
    exact ⟨_, hkey, _, (hget _).trans (if_pos ⟨hid, hkey⟩)⟩

/-- What a node has of the records of the commands that it has applied, in its store and in the snapshot that it holds. -/
structure Remembers (config : Config) (A : Shadow) (d : LogState) : Prop where
  applied : Covers config A d.lastApplied d.store.Records
  stored : ∀ k, ReadsNat d.store lastAppliedKey k → Covers config A k d.store.Records
  data : d.snapshotIndex ≠ 0 → CoversData config A d.snapshotIndex d.snapshotData
  storedData : ∀ data, d.store.get snapshotDataKey = some data → CoversData config A d.snapshotIndex data

theorem Remembers.grow {d : LogState} (h : Remembers config A d) (hext : Raft.Extends A A') : Remembers config A' d :=
  ⟨h.applied.grow hext, fun k hk => (h.stored k hk).grow hext, fun hne => (h.data hne).grow hext,
    fun data hdata => (h.storedData data hdata).grow hext⟩

/-- A write that stores the counters as they are and keeps the records. -/
theorem Remembers.stateSaved (node : RaftNode) (happlied : Covers config A node.lastApplied node.store.Records)
    (hdata : node.snapshotIndex ≠ 0 → CoversData config A node.snapshotIndex node.snapshotData)
    (hstored : ∀ data, node.store.get snapshotDataKey = some data → CoversData config A node.snapshotIndex data) :
    Remembers config A node.stateSaved.toLogState := by
  have hrecords : Covers config A node.lastApplied node.stateSaved.store.Records :=
    happlied.imp node.stateSaved_agrees.records
  refine ⟨hrecords, fun k hk => ?_, hdata, fun data hget => hstored data (node.stateSaved_data.symm.trans hget)⟩
  rw [hk.unique (.inl node.stateSaved_counted.2)]
  exact hrecords

theorem Remembers.voteSaved {node : RaftNode} (h : Remembers config A node.toLogState) (candidate : Int) :
    Remembers config A (node.voteSaved candidate).toLogState :=
  Remembers.stateSaved { node with votedFor := candidate } h.applied h.data h.storedData

/-- A write that touches the log only. -/
theorem Remembers.logSaved (node : RaftNode) (happlied : Covers config A node.lastApplied node.store.Records)
    (hcounted : ∀ k, ReadsNat node.store lastAppliedKey k → Covers config A k node.store.Records)
    (hdata : node.snapshotIndex ≠ 0 → CoversData config A node.snapshotIndex node.snapshotData)
    (hstored : ∀ data, node.store.get snapshotDataKey = some data → CoversData config A node.snapshotIndex data) :
    Remembers config A node.logSaved.toLogState := by
  have hkept : node.logSaved.store.get lastAppliedKey = node.store.get lastAppliedKey :=
    Holds.get_persistLog (by decide) _ _
  refine ⟨happlied.imp node.logSaved_agrees.records, fun k hk => ?_, hdata,
    fun data hget => hstored data (node.logSaved_data.symm.trans hget)⟩
  unfold ReadsNat at hk
  rw [hkept] at hk
  exact (hcounted k hk).imp node.logSaved_agrees.records

theorem Remembers.compacted {node : RaftNode} (h : Remembers config A node.toLogState)
    (happlied : node.commitIndex ≤ node.lastApplied) : Remembers config A node.compacted.toLogState := by
  have hrecords : Covers config A node.lastApplied node.compacted.store.Records :=
    h.applied.imp node.compacted_agrees.records
  have hcaptured : CoversData config A node.commitIndex node.captured := (h.applied.mono happlied).captured
  refine ⟨hrecords, fun k hk => ?_, fun _ => hcaptured, fun data hget => ?_⟩
  · rw [hk.unique (.inl node.compacted_counted.2)]
    exact hrecords
  · obtain rfl := Option.some.inj (node.compacted_data.symm.trans hget)
    exact hcaptured

theorem Remembers.installed {node : RaftNode} {contents : SnapshotContents}
    (hparse : parseSnapshotState node.incomingSnapshotData = .ok contents)
    (hcovers : CoversData config A node.incomingSnapshotIndex node.incomingSnapshotData) :
    Remembers config A (node.installed contents).toLogState := by
  have hwell := SnapshotContents.WellFormed.of_parse hparse
  have hrecords : Covers config A node.incomingSnapshotIndex (node.installed contents).store.Records := by
    refine (hcovers contents hparse).imp fun key hrecord => ?_
    obtain ⟨value, hvalue⟩ := hrecord
    exact ⟨value, (RaftStorage.get_applySnapshot_request hwell).mpr hvalue⟩
  refine ⟨hrecords, fun k hk => ?_, fun _ => hcovers, fun data hget => ?_⟩
  · rw [hk.unique (.inl (node.installed_counted hwell).2)]
    exact hrecords
  · -- the store has the contents serialized again
    obtain rfl := Option.some.inj ((RaftNode.installed_data hwell).symm.trans hget)
    intro contents' hparse'
    obtain rfl := parseSnapshotState_serialize hparse'
    exact hcovers contents hparse

end Records

section Runs

variable [Protobuf] {config : Config} {timely : Prop} {A A' : Shadow} {w w' : World} {n : Int} {l l' : Local}
  {action : LoopAction} {event : Option Event}

/-- One step, if the commands that are applied are committed and the snapshots that are installed have their records. -/
theorem Remembers.step (h : Remembers config A l.node.toLogState) (hlow : l.node.snapshotIndex ≤ l.node.lastApplied)
    (happly : ∀ entry, l.node.lastApplied < l.node.commitIndex → l.node.entryAt (l.node.lastApplied + 1) = .ok entry →
      Fixed config A l.node.lastApplied entry)
    (hinstall : ∀ index term data s, event = some (.write (.applySnapshot index term data) s) →
      CoversData config A index data)
    (hstep : Micro action l event l') : Remembers config A l'.node.toLogState := by
  obtain ⟨happlied, hstored, hdata, hstoredData⟩ := id h
  rcases hstep with hstep | hstep | hstep | hstep | hstep | hstep | hstep | hstep | hstep
  case role =>
    cases hstep with
    | adoptTerm c rpc term =>
      exact Remembers.stateSaved { l.node.steppedDown with currentTerm := term, votedFor := -1 } happlied hdata hstoredData
    | campaign =>
      exact Remembers.stateSaved { l.node with
        role := .candidate
        currentTerm := l.node.currentTerm + 1
        votedFor := l.node.serverId
        grantedVotes := {l.node.serverId} } happlied hdata hstoredData
    | grant => exact h.voteSaved _
    | _ => exact h
  case log =>
    cases hstep with
    | push => exact Remembers.logSaved ({ l.node with log := _ } : RaftNode) happlied hstored hdata hstoredData
    | merge c rpc request =>
      obtain ⟨happlied', hstored', hdata', hstoredData'⟩ := Remembers.logSaved ({ l.node with
        log := (NodeM.mergeEntries l.node request.prevLogIndex request.entries).log } : RaftNode) happlied hstored hdata
        hstoredData
      exact ⟨happlied', hstored', hdata', hstoredData'⟩
    | install c rpc request contents s _ _ _ _ _ _ _ _ _ _ hparse => exact .installed hparse (hinstall _ _ _ s rfl)
    | advance | spoil => exact ⟨happlied, hstored, hdata, hstoredData⟩
  case apply =>
    cases hstep with
    | catchUp =>
      refine ⟨?_, hstored, hdata, hstoredData⟩
      change Covers config A (max l.node.lastApplied l.node.snapshotIndex) _
      rw [max_eq_left hlow]
      exact happlied
    | apply entry command batch s _ hlt hentry hparse hbatch =>
      have hrecords := happlied.entryApplied (happly entry hlt hentry) hparse hbatch
      refine ⟨hrecords, fun k hk => ?_, hdata, fun data hget => ?_⟩
      · rw [hk.unique (.inl (RaftNode.entryApplied_counted hbatch).2)]
        exact hrecords
      · exact hstoredData data ((RaftNode.entryApplied_data hbatch).symm.trans hget)
    | persist => exact .stateSaved _ happlied hdata hstoredData
    | compact s hin hdone => exact h.compacted hdone
    | _ => exact h
  all_goals cases hstep <;> exact h

def View.Remembers (config : Config) (A : Shadow) : View → Prop
  | .active l => Nukv.Remembers config A l.node.toLogState
  | .down store => ∀ state, Holds store state → Covers config A state.lastApplied store.Records ∧
      Covers config A state.snapshotIndex store.Records ∧
      (state.snapshotIndex ≠ 0 → CoversData config A state.snapshotIndex state.snapshotData)

theorem View.Remembers.grow {view : View} (h : view.Remembers config A) (hext : Raft.Extends A A') :
    view.Remembers config A' := by
  cases view with
  | active l => exact Nukv.Remembers.grow h hext
  | down store =>
    intro state hholds
    obtain ⟨happlied, hsnapshot, hdata⟩ := h state hholds
    exact ⟨happlied.grow hext, hsnapshot.grow hext, fun hne => (hdata hne).grow hext⟩

/-- The records that the nodes have, and those that were sent. -/
structure Remembrance (config : Config) (w : World) (A : Shadow) : Prop where
  views : ∀ n, (w.views n).Remembers config A
  chunks : ∀ n c rpc s request, (n, .send c rpc s) ∈ w.history → rpc.payload = .installSnapshot request →
    CoversData config A request.lastIncludedIndex s.snapshotData

theorem Remembrance.step (h : Remembrance config w A) (htracked : Tracked config timely w A)
    (hstep : World.Step config timely w n event w') (hext : Raft.Extends A A') : (w'.views n).Remembers config A' := by
  have hown := h.views n
  cases hstep with
  | start store state hview hmember hload =>
    rw [hview] at hown
    rw [World.moved_views_self]
    obtain ⟨held, hholds, -⟩ := htracked.related.down n store hview
    obtain ⟨rfl, -⟩ := hholds.load_eq_ok.mp hload
    obtain ⟨happlied, hsnapshot, hdata⟩ := hown state hholds
    refine Nukv.Remembers.grow ⟨?_, fun k hk => ?_, hdata, fun data hget => ?_⟩ hext
    · -- what is loaded as applied was applied or is in the snapshot
      have hmax : Covers config A (max state.lastApplied state.snapshotIndex) store.Records := by
        rcases max_choice state.lastApplied state.snapshotIndex with hmax | hmax
        · rwa [hmax]
        · rwa [hmax]
      exact hmax.mono (Nat.min_le_left ..)
    · rwa [hk.unique hholds.lastApplied]
    · rcases hholds.snapshot with ⟨-, hnone, -⟩ | ⟨-, hsome, hindex, -⟩
      · exact nomatch hnone.symm.trans hget
      · obtain rfl := Option.some.inj (hsome.symm.trans hget)
        exact hdata hindex
  | die l hview =>
    rw [hview] at hown
    rw [World.moved_views_self]
    suffices hdown : View.Remembers config A (.down l.node.store) from hdown.grow hext
    intro state hholds
    obtain ⟨-, c, a, data, hheld, -⟩ := (htracked.related.active n l hview).memory
    have hindex : state.snapshotIndex = l.node.snapshotIndex := hholds.snapshot.index_eq hheld.snapshot
    refine ⟨hown.stored _ hholds.lastApplied, ?_, fun hne => ?_⟩
    · exact hown.applied.mono (hindex ▸ (htracked.taking hview).low)
    · rcases hholds.snapshot with ⟨-, -, hzero, -⟩ | ⟨-, hdata, -⟩
      · exact absurd hzero hne
      · exact hindex ▸ hown.storedData _ hdata
  | connect peer serial l hview =>
    rw [hview] at hown
    change View.Remembers _ _ ((w.moved n _ none).views n)
    rw [World.moved_views_self]
    exact hown.grow hext
  | accept connection l hview =>
    rw [hview] at hown
    change View.Remembers _ _ ((w.moved n _ none).views n)
    rw [World.moved_views_self]
    exact hown.grow hext
  | micro action l l' _ hview hdue hmicro =>
    rw [hview] at hown
    rw [World.moved_views_self]
    refine Nukv.Remembers.grow (Nukv.Remembers.step hown (htracked.taking hview).low ?_ ?_ hmicro) hext
    · intro entry hlt hentry
      have hmemory := (htracked.related.active n l hview).memory
      exact ⟨_, _, hmemory.depicts.commitIndex.mono le_rfl hlt, ((Memory.shows hmemory).entryAt.mp hentry).2⟩
    · rintro index term data s rfl
      obtain ⟨m, c, rpc, sent, request, hmem, hpayload, -, rfl, rfl⟩ := htracked.installed_sent hview hdue hmicro
      exact h.chunks m c rpc sent request hmem hpayload

/-- What a node has applied has its records. -/
theorem Tracked.remembrance (h : Tracked config timely w A) : Remembrance config w A := by
  refine h.invariant (I := fun w A => Remembrance config w A) ?_ ?_
  · refine ⟨fun n state hholds => ?_, fun _ _ _ _ _ hmem => absurd hmem List.not_mem_nil⟩
    rw [hholds.lastApplied.unique Holds.empty.lastApplied, hholds.snapshot.index_eq Holds.empty.snapshot]
    exact ⟨.zero, .zero, fun hne => absurd rfl hne⟩
  · intro w w' A A' n event htracked htracked' hstep hsteps _ ih
    have hext := hsteps.extends htracked.inv
    refine ⟨fun m => ?_, fun m c rpc s request hmem hrequest => ?_⟩
    · by_cases hm : m = n
      · exact hm ▸ ih.step htracked hstep hext
      · rw [hstep.views hm]
        exact (ih.views m).grow hext
    · rcases hstep.history_cases hmem with hold | ⟨rfl, rfl⟩
      · exact (ih.chunks m c rpc s request hold hrequest).grow hext
      · rcases hstep.event with ⟨_, _, -, -, hload, -⟩ | ⟨action, l, l', hview, -, hdue, hmicro⟩
        · cases hload
        obtain ⟨hrole, hown, hs, offset, -, rfl⟩ := htracked.chunk_owned hview hdue hmicro hrequest
        have hpresent := ih.views m
        rw [hview] at hpresent
        rw [congrArg LogState.snapshotData hs]
        exact (hpresent.data (htracked.owned_ne_zero hview hrole hown)).grow hext

/-! ### One command for each request -/

/-- No two commands of one request, unless they are the same. -/
def Univocal (L : List RaftLogEntry) : Prop :=
  L.Pairwise fun earlier later => ∀ command command', earlier.parsed = some command → later.parsed = some command' →
    command'.requestId ≠ 0 → command'.sameRequest command = true → command' = command

/-- A leader appends a command that has no record and is alone among those that are not applied. -/
theorem Tracked.append_univocal (h : Tracked config timely w A) (hview : w.views n = .active l) {call : SubmitCall}
    {s : RaftNode} (huni : Univocal (A.log n))
    (hnew : call.command.requestId ≠ 0 →
      RaftStorage.getAppliedCommand l.node.store call.command.clientId call.command.requestId = none)
    (hs : s.toLogState = (l.node.appended (Protobuf.command.serialize call.command)).toLogState)
    (hshows : s.Shows (A.log n ++ [⟨l.node.currentTerm, Protobuf.command.serialize call.command⟩]))
    (hlast : s.entryAt s.lastIndex = .ok ⟨l.node.currentTerm, Protobuf.command.serialize call.command⟩)
    (hunambiguous : s.Unambiguous) :
    Univocal (A.log n ++ [⟨l.node.currentTerm, Protobuf.command.serialize call.command⟩]) := by
  refine List.pairwise_append.mpr ⟨huni, List.pairwise_singleton .., fun earlier hearlier later hlater => ?_⟩
  obtain rfl := List.mem_singleton.mp hlater
  intro command command' hparse hparse' hid hsame
  obtain ⟨j, hj, hget⟩ := List.getElem_of_mem hearlier
  have hread : (A.log n)[j]? = some earlier := by rw [List.getElem?_eq_getElem hj, hget]
  rcases Nat.lt_or_ge j l.node.lastApplied with hlt | hge
  · -- a request that is applied has its record
    have hremembers := h.remembrance.views n
    rw [hview] at hremembers
    obtain ⟨entry, hfixed, hrecord⟩ := hremembers.applied j hlt
    have hdepicts := (h.related.active n l hview).memory.depicts
    obtain rfl := Option.some.inj ((hfixed.getElem? h.inv hdepicts.lastApplied hlt).symm.trans hread)
    obtain rfl := Option.some.inj ((Protobuf.command.parse_serialize _).symm.trans hparse')
    obtain ⟨hclient, hrequest⟩ := Proto.Command.sameRequest_iff.mp hsame
    obtain ⟨key, hkey, value, hvalue⟩ := hrecord command hparse (hrequest ▸ hid)
    unfold CommandApplier.requestKey at hkey
    rw [hkey, hclient, hrequest] at hvalue
    exact nomatch (hnew hid).symm.trans hvalue
  · have happlied : s.lastApplied = l.node.lastApplied := (congrArg LogState.lastApplied hs).trans rfl
    have hsnapshot : s.snapshotIndex = l.node.snapshotIndex := (congrArg LogState.snapshotIndex hs).trans rfl
    have hlength : s.lastIndex = (A.log n).length + 1 := by
      rw [hshows.lastIndex, List.length_append, List.length_singleton]
    have hlow := (h.taking hview).low
    refine hunambiguous (j + 1) (by omega) (by omega) earlier _ command command' ?_ hlast hparse hparse' hid hsame
    refine hshows.entryAt.mpr ⟨?_, ?_⟩
    · rw [hsnapshot]
      exact hlow.trans hge
    · rw [List.getElem?_append_left hj, hread]

theorem Tracked.univocal (h : Tracked config timely w A)
    (hunambiguous : ∀ n s, (n, .write (.persistLog none) s) ∈ w.history → s.Unambiguous) : ∀ t, Univocal (A.tlog t) := by
  refine h.invariant (I := fun w A => (∀ n s, (n, .write (.persistLog none) s) ∈ w.history → s.Unambiguous) →
    ∀ t, Univocal (A.tlog t)) ?_ ?_ hunambiguous
  · exact fun _ _ => .nil
  · intro w w' A A' n event htracked htracked' hstep _ hgrows ih hunambiguous t
    have hbefore : ∀ t, Univocal (A.tlog t) := ih fun m s hmem =>
      hunambiguous m s (hstep.history ▸ List.mem_append_left _ hmem)
    -- by induction on the term: a new leader brings a log of earlier terms
    induction t using Nat.strong_induction_on with
    | _ t iht =>
      rcases hgrows t with hsame | hlower | ⟨s, entry, rfl, rfl, hpushed⟩
      · exact hsame ▸ hbefore t
      · rcases List.eq_nil_or_concat (A'.tlog t) with hnil | ⟨init, last, hlog⟩
        · exact hnil ▸ .nil
        · have htake := Raft.Sourced.take_eq_tlog (htracked'.inv.sourced_tlog t) le_rfl
          rw [List.take_length] at htake
          rw [htake]
          refine (iht _ ?_).sublist (List.take_sublist ..)
          rw [hlog, List.concat_eq_append, Raft.lastTerm_append_singleton]
          exact hlower last (by simp [hlog])
      · rcases hstep.event with ⟨_, _, -, -, hload, -⟩ | ⟨action, l, l', hview, hview', -, hmicro⟩
        · cases hload
        · have hmem : (n, .write (.persistLog none) s) ∈ w'.history := by
            rw [hstep.history]
            exact List.mem_append_right _ List.mem_cons_self
          obtain ⟨call, rfl, htlog, rfl, hshows, hlast⟩ := htracked.append_log htracked' hview hview' hmicro hpushed
          obtain ⟨call', hcall, -, hnew, hstate, -⟩ := hmicro.appends
          obtain rfl := LoopAction.submit.inj hcall
          have hs : s.toLogState = (l.node.appended (Protobuf.command.serialize call.command)).toLogState :=
            congrArg (fun t => t.toLogState) hstate
          rw [hpushed, htlog]
          exact htracked.append_univocal hview (htlog ▸ hbefore _) hnew hs hshows hlast (hunambiguous n s hmem)

/-- Two commands of one request that are committed. -/
theorem Fixed.command_eq {i i' : Nat} {entry entry' : RaftLogEntry} {command command' : Proto.Command}
    (h : Fixed config A i entry) (h' : Fixed config A i' entry') (hI : Raft.Inv config.setting A)
    (huni : ∀ t, Univocal (A.tlog t)) (hle : i ≤ i') (hparse : entry.parsed = some command)
    (hparse' : entry'.parsed = some command') (hid : command'.requestId ≠ 0)
    (hsame : command'.sameRequest command = true) : command' = command := by
  obtain ⟨t, L, hagreed, hentry'⟩ := h'
  have hentry : L[i]? = some entry := h.getElem? hI hagreed (Nat.lt_succ_of_le hle)
  rcases Nat.eq_or_lt_of_le hle with rfl | hlt
  · obtain rfl := Option.some.inj (hentry.symm.trans hentry')
    exact Option.some.inj (hparse'.symm.trans hparse)
  · have htake : Univocal (L.take (i' + 1)) := by
      rcases hagreed with hzero | ⟨t₀, j, -, -, -, htake⟩
      · exact absurd hzero (Nat.succ_ne_zero i')
      · rw [htake]
        exact (huni t₀).sublist (List.take_sublist ..)
    rw [← List.getElem?_take_of_lt (hlt.trans (Nat.lt_succ_self i'))] at hentry
    rw [← List.getElem?_take_of_lt (Nat.lt_succ_self i')] at hentry'
    obtain ⟨hi, rfl⟩ := List.getElem?_eq_some_iff.mp hentry
    obtain ⟨hi', rfl⟩ := List.getElem?_eq_some_iff.mp hentry'
    exact List.pairwise_iff_getElem.mp htake i i' hi hi' hlt command command' hparse hparse' hid hsame

end Runs

namespace Cluster

/-- With no command next to another one of its request that is not applied, all commands of a request that are acknowledged
are the same. -/
theorem acknowledged_univocal [Protobuf] {config : Config} {cluster : Cluster}
    (h : Run config (fun cluster act => cluster.PollsFirst act) cluster)
    (hunambiguous : ∀ n s, (n, .write (.persistLog none) s) ∈ cluster.history → s.Unambiguous) {n m : Int}
    {call call' : SubmitCall} {s s' : RaftNode} (hack : (n, .submitResult call true s) ∈ cluster.history)
    (hack' : (m, .submitResult call' true s') ∈ cluster.history) (hid : call.command.requestId ≠ 0)
    (hsame : call.command.sameRequest call'.command = true) : call.command = call'.command := by
  have hreach : World.Reach config True cluster.world := (h.reach fun _ _ _ hact => hact).1
  obtain ⟨A, hA⟩ := hreach.tracked
  have hplaced : ∀ {n call s}, (n, .submitResult call true s) ∈ cluster.history →
      ∃ i entry, Fixed config A i entry ∧ entry.parsed = some call.command := by
    intro n call s hmem
    obtain ⟨L, i, entry, -, hagreed, hentry, hcommand⟩ := hA.acknowledged n call s hmem
    refine ⟨i, entry, ⟨_, L, hagreed, hentry⟩, ?_⟩
    rw [RaftLogEntry.parsed, hcommand]
    exact Protobuf.command.parse_serialize _
  obtain ⟨i, entry, hfixed, hparse⟩ := hplaced hack
  obtain ⟨i', entry', hfixed', hparse'⟩ := hplaced hack'
  have huni := hA.univocal hunambiguous
  obtain ⟨hclient, hrequest⟩ := Proto.Command.sameRequest_iff.mp hsame
  rcases Nat.le_total i i' with hle | hle
  · refine (hfixed.command_eq hfixed' hA.inv huni hle hparse hparse' (hrequest ▸ hid) ?_).symm
    exact Proto.Command.sameRequest_iff.mpr ⟨hclient.symm, hrequest.symm⟩
  · exact hfixed'.command_eq hfixed hA.inv huni hle hparse' hparse hid hsame

/-- Whether a call of `Submit` was answered with true. -/
def acknowledges (cluster : Cluster) (server : Int) (call : SubmitCall) : Bool :=
  cluster.occurs server fun | .submitResult call' true _ => call' == call | _ => false

theorem exists_of_acknowledges {cluster : Cluster} {server : Int} {call : SubmitCall}
    (h : cluster.acknowledges server call = true) : ∃ s, (server, .submitResult call true s) ∈ cluster.history := by
  obtain ⟨e, hmem, he⟩ := exists_of_occurs h
  split at he
  next call' s => exact ⟨s, beq_iff_eq.mp he ▸ hmem⟩
  next => cases he

/-- Node 1 has two commands of one request in its log before it hears of node 2, and polls for both. -/
def contradictory : List Move :=
  [.act (.run 1 .start), .act (.run 2 .start), .act (.run 1 (.connect 2 0)), .act (.run 2 (.accept ⟨1, 2, 0⟩)),
    .act (.run 1 .electionTimeout), .deliver 1, .deliver 2,
    .act (.run 1 (.submit ⟨0, ⟨.put, 1, 1, [107], [118]⟩⟩)), .act (.run 1 (.submit ⟨1, ⟨.put, 1, 1, [107], [119]⟩⟩)),
    .deliver 3, .deliver 4, .act (.run 1 .heartbeatTimeout), .deliver 5, .deliver 6,
    .act (.run 1 (.commitPoll ⟨1, ⟨0, ⟨.put, 1, 1, [107], [118]⟩⟩⟩)),
    .act (.run 1 (.commitPoll ⟨2, ⟨1, ⟨.put, 1, 1, [107], [119]⟩⟩⟩))]

/-- Both are acknowledged. -/
theorem acknowledged_contradictory : ∃ cluster call call' s s',
    @Run Wire.protobuf trio (fun cluster act => cluster.PollsFirst act) cluster ∧
    (1, .submitResult call true s) ∈ cluster.history ∧ (1, .submitResult call' true s') ∈ cluster.history ∧
    call.command.requestId ≠ 0 ∧ call.command.sameRequest call'.command = true ∧
    Wire.protobuf.command.serialize call.command ≠ Wire.protobuf.command.serialize call'.command := by
  obtain ⟨cluster, hrun, htest⟩ := @run_of_play Wire.protobuf trio (fun cluster act => cluster.pollsFirst act = true) _
    contradictory
    (fun cluster => cluster.acknowledges 1 ⟨0, ⟨.put, 1, 1, [107], [118]⟩⟩ &&
      cluster.acknowledges 1 ⟨1, ⟨.put, 1, 1, [107], [119]⟩⟩) (by decide +kernel)
  rw [Bool.and_eq_true] at htest
  obtain ⟨s, hmem⟩ := exists_of_acknowledges htest.1
  obtain ⟨s', hmem'⟩ := exists_of_acknowledges htest.2
  have hpolls := @Run.mono Wire.protobuf trio cluster _ (fun cluster act => cluster.PollsFirst act) hrun
    fun _ _ => pollsFirst_of_test
  exact ⟨cluster, _, _, s, s', hpolls, hmem, hmem', by decide, by decide, by decide +kernel⟩

/-- A request that is sent again after it was applied is acknowledged again. -/
theorem acknowledged_univocal_unaware : ∃ cluster call call' s s',
    @Run Wire.protobuf trio (fun cluster act => cluster.PollsFirst act) cluster ∧
    (1, .submitResult call true s) ∈ cluster.history ∧ (1, .submitResult call' true s') ∈ cluster.history ∧
    call ≠ call' ∧ call.command = call'.command := by
  obtain ⟨cluster, hrun, htest⟩ := @run_of_play Wire.protobuf trio (fun cluster act => cluster.pollsFirst act = true) _
    (unaware.take 13 ++ [.act (.run 1 (.submit ⟨1, ⟨.put, 1, 1, [107], [118]⟩⟩))])
    (fun cluster => @apart Wire.protobuf cluster.history && (cluster.acknowledges 1 ⟨0, ⟨.put, 1, 1, [107], [118]⟩⟩ &&
      cluster.acknowledges 1 ⟨1, ⟨.put, 1, 1, [107], [118]⟩⟩)) (by decide +kernel)
  simp only [Bool.and_eq_true] at htest
  obtain ⟨hapart, hacked, hacked'⟩ := htest
  obtain ⟨s, hmem⟩ := exists_of_acknowledges hacked
  obtain ⟨s', hmem'⟩ := exists_of_acknowledges hacked'
  have hpolls := @Run.mono Wire.protobuf trio cluster _ (fun cluster act => cluster.PollsFirst act) hrun
    fun _ _ => pollsFirst_of_test
  refine ⟨cluster, _, _, s, s', hpolls, hmem, hmem', by decide, ?_⟩
  exact @acknowledged_univocal Wire.protobuf trio cluster hpolls (@unambiguous_of_apart Wire.protobuf _ hapart) 1 1 _ _ s s'
    hmem hmem' (by decide) (by decide)

end Cluster

end Nukv
