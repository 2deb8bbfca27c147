import Nukv.Proof.History
import Nukv.Proof.Refine
import Nukv.Property.Replication

/-!
# A snapshot is labelled with what it contains

`CreateSnapshotIfNeeded` labels the snapshot with `commit_index_` and fills it with what has been applied. A new leader
may lower `commit_index_` below `last_applied_`, so the two are not the same in general. They are when a snapshot is
taken: outside `ApplyCommitted` both are less than eight ahead of the last snapshot, so a commit index that is eight
ahead has been reached by applying up to it.
-/

namespace Nukv

/-- Neither commitment nor application has gone as far since the snapshot as it takes for another one. -/
def RaftNode.Recent (node : RaftNode) : Prop :=
  node.commitIndex < node.snapshotIndex + kSnapshotThreshold ∧
    node.lastApplied < node.snapshotIndex + kSnapshotThreshold

/-- What is true of the three indexes inside a function. -/
structure Local.Labelled (l : Local) : Prop where
  low : l.node.snapshotIndex ≤ l.node.lastApplied
  outside : l.applying = false → l.node.Recent
  inside : l.applying = true → l.node.lastApplied ≤ l.node.commitIndex ∨
    l.node.lastApplied < l.node.snapshotIndex + kSnapshotThreshold

/-- What an event says about a snapshot that is taken, and about the end of `ApplyCommitted`. It does not end because of an
index. -/
def Event.Labels : Event → Prop
  | .write (.persistSnapshot index _ _) s => index = s.commitIndex ∧ s.commitIndex = s.lastApplied
  | .finishApply s => s.Recent
  | .refuseIndex _ => False
  | _ => True

section Runs

variable [Protobuf] {config : Config} {timely : Prop} {A : Shadow} {w : World} {n : Int} {l l' : Local}
  {action : LoopAction} {event : Option Event}

omit [Protobuf] in
/-- What does not concern the three indexes. -/
theorem Local.Labelled.congr (h : l.Labelled) (hsnapshot : l'.node.snapshotIndex = l.node.snapshotIndex)
    (hcommit : l'.node.commitIndex = l.node.commitIndex) (happlied : l'.node.lastApplied = l.node.lastApplied)
    (hsame : l'.applying = l.applying) : l'.Labelled := by
  obtain ⟨hlow, houtside, hinside⟩ := h
  unfold RaftNode.Recent at houtside
  rw [← hsame, ← hsnapshot, ← hcommit, ← happlied] at *
  exact ⟨hlow, houtside, hinside⟩

omit [Protobuf] in
theorem Local.Labelled.voteSaved (h : l.Labelled) (candidate : Int) :
    ({ l with node := l.node.voteSaved candidate } : Local).Labelled := h.congr rfl rfl rfl rfl

omit [Protobuf] in
/-- In any case no more has been applied than was committed, or than is recent. -/
theorem Local.Labelled.applied (h : l.Labelled) : l.node.lastApplied ≤ l.node.commitIndex ∨
    l.node.lastApplied < l.node.snapshotIndex + kSnapshotThreshold := by
  cases happlying : l.applying with
  | false => exact .inr (h.outside happlying).2
  | true => exact h.inside happlying

theorem LogStep.labelled (hstep : LogStep action l event l') (h : l.Labelled) :
    l'.Labelled ∧ ∀ e, event = some e → e.Labels := by
  cases hstep with
  | push => exact ⟨h.congr rfl rfl rfl rfl, by rintro _ ⟨⟩; trivial⟩
  | advance index s _ _ _ hout =>
    exact ⟨⟨h.low, nofun, fun _ => .inr (h.outside hout).2⟩, by rintro _ ⟨⟩; trivial⟩
  | merge _ _ request s _ _ _ _ _ _ _ hout =>
    exact ⟨⟨h.low, nofun, fun _ => .inr (h.outside hout).2⟩, by rintro _ ⟨⟩; trivial⟩
  | spoil => exact ⟨h.congr rfl rfl rfl rfl, fun _ he => nomatch he⟩
  | install =>
    exact ⟨⟨le_rfl, nofun, fun _ => .inl (le_max_right _ _)⟩, by rintro _ ⟨⟩; trivial⟩

theorem ApplyStep.labelled (hstep : ApplyStep l event l') (h : l.Labelled)
    (hhigh : l.node.commitIndex ≤ l.node.lastIndex)
    (hterm : l.node.snapshotIndex < l.node.commitIndex → l.node.termAt l.node.commitIndex ≠ 0)
    (happlicable : ∀ index, event ≠ some (.refuseApply index)) : l'.Labelled ∧ ∀ e, event = some e → e.Labels := by
  have hlow := h.low
  cases hstep with
  | enter => exact ⟨⟨h.low, nofun, fun _ => h.applied⟩, fun _ he => nomatch he⟩
  | catchUp => exact ⟨h.congr rfl rfl (max_eq_left h.low) rfl, fun _ he => nomatch he⟩
  | call => exact ⟨h, by rintro _ ⟨⟩; trivial⟩
  | apply _ _ _ _ hin hlt =>
    exact ⟨⟨hlow.trans (Nat.le_succ _), fun hout => absurd (hin.symm.trans hout) nofun, fun _ => .inl hlt⟩,
      by rintro _ ⟨⟩; trivial⟩
  | persist => exact ⟨h.congr rfl rfl rfl rfl, by rintro _ ⟨⟩; trivial⟩
  | compact s hin happlied hmany _ _ _ hcommit hlast =>
    -- so far ahead of the snapshot only the commands up to the commit index have been applied
    have hequal : l.node.commitIndex = l.node.lastApplied := by
      rcases h.inside hin with hle | hlt <;> omega
    refine ⟨⟨happlied, fun hout => absurd (hin.symm.trans hout) nofun, fun _ => .inl hequal.ge⟩, ?_⟩
    rintro _ ⟨⟩
    exact ⟨hcommit.symm, by rw [hcommit, hlast, hequal]⟩
  | leave s happlied hfew _ hin hs =>
    have hrecent : l.node.Recent := by
      refine ⟨hfew, ?_⟩
      rcases h.inside hin with hle | hlt <;> omega
    refine ⟨⟨hlow, fun _ => hrecent, nofun⟩, ?_⟩
    rintro _ ⟨⟩
    rw [← hs] at hrecent
    exact hrecent
  | refuse => exact absurd rfl (happlicable _)
  | abort x hstuck =>
    rcases hstuck with ⟨hlt, x, hentry⟩ | ⟨-, -, hmany, hzero | hshort⟩
    · obtain ⟨entry, -, hok⟩ := RaftNode.exists_entryAt (Nat.lt_succ_of_le hlow) (hhigh.trans' hlt)
      exact nomatch hok.symm.trans hentry
    · exact absurd hzero (hterm (by unfold kSnapshotThreshold at hmany; omega))
    · exact absurd hhigh (Nat.not_le.mpr hshort)

/-- One step. Nothing is refused, the committed entries are in the log, and they have terms. -/
theorem Local.Labelled.step (h : l.Labelled) (hstep : Micro action l event l')
    (hhigh : l.node.commitIndex ≤ l.node.lastIndex)
    (hterm : l.node.snapshotIndex < l.node.commitIndex → l.node.termAt l.node.commitIndex ≠ 0)
    (happlicable : ∀ index, event ≠ some (.refuseApply index)) :
    l'.Labelled ∧ ∀ e, event = some e → e.Labels := by
  rcases hstep with hstep | hstep | hstep | hstep | hstep | hstep | hstep | hstep | hstep
  case log => exact hstep.labelled h
  case apply => exact hstep.labelled h hhigh hterm happlicable
  case role =>
    cases hstep with
    | grant => exact ⟨h.voteSaved _, by rintro _ ⟨⟩; trivial⟩
    | _ => exact ⟨h.congr rfl rfl rfl rfl, by rintro _ ⟨⟩ <;> trivial⟩
  all_goals cases hstep <;> exact ⟨h.congr rfl rfl rfl rfl, by rintro _ ⟨⟩ <;> trivial⟩

/-! ### Along a run -/

/-- What is committed is in the log and has a term. -/
theorem Tracked.committed_termed (h : Tracked config timely w A) (hview : w.views n = .active l) :
    l.node.commitIndex ≤ l.node.lastIndex ∧
      (l.node.snapshotIndex < l.node.commitIndex → l.node.termAt l.node.commitIndex ≠ 0) := by
  have hmemory := (h.related.active n l hview).memory
  have hhigh : l.node.commitIndex ≤ l.node.lastIndex := by
    rw [Memory.lastIndex hmemory]
    exact hmemory.depicts.commitIndex.le_length
  refine ⟨hhigh, fun hlt => ?_⟩
  obtain ⟨entry, -, hentry⟩ := RaftNode.exists_entryAt hlt hhigh
  rw [RaftNode.termAt_of_entryAt hentry]
  rw [← Nat.sub_add_cancel (Nat.one_le_of_lt hlt), (Memory.shows hmemory).entryAt] at hentry
  exact (h.inv.sourced_pos (h.inv.sourced_log n) hentry.2).ne'

theorem Tracked.labelled (h : Tracked config timely w A) (happlicable : ∀ index, (n, .refuseApply index) ∉ w.history)
    (hview : w.views n = .active l) : l.Labelled := by
  refine h.each (P := fun w _ n l => (∀ index, (n, .refuseApply index) ∉ w.history) → l.Labelled) ?_ ?_ ?_ ?_ n l hview
    happlicable
  · intro w w' A n store state _ _ _ _ _
    -- `LoadState` reads no more as applied than as committed, and both are in the log
    refine ⟨?_, nofun, fun _ => .inl (Nat.min_le_right ..)⟩
    change state.snapshotIndex ≤ min (max state.lastApplied state.snapshotIndex)
      (min (max state.commitIndex state.snapshotIndex) (state.snapshotIndex + state.log.length))
    omega
  · intro w w' A n l c _ _ hhistory _ _ ih happlicable
    exact (ih (hhistory ▸ happlicable)).congr rfl rfl rfl rfl
  · intro w w' A A' n action l l' event htracked _ hview _ _ hmicro hhistory _ ih happlicable
    rw [hhistory] at happlicable
    obtain ⟨hhigh, hterm⟩ := htracked.committed_termed hview
    refine ((ih fun index hmem => happlicable index (List.mem_append_left _ hmem)).step hmicro hhigh hterm ?_).1
    rintro index rfl
    exact happlicable index (List.mem_append_right _ (by simp))
  · intro w w' A A' n m l event hm _ _ _ hstep _ ih happlicable
    exact ih fun index hmem => happlicable index (hstep.history ▸ List.mem_append_left _ hmem)

theorem Tracked.labels (h : Tracked config timely w A) :
    ∀ n, (∀ index, (n, .refuseApply index) ∉ w.history) → ∀ e, (n, e) ∈ w.history → e.Labels := by
  refine h.invariant (I := fun w _ => ∀ n, (∀ index, (n, .refuseApply index) ∉ w.history) →
    ∀ e, (n, e) ∈ w.history → e.Labels) (fun n _ e he => ?_) ?_
  · exact absurd he (by simp [World.initial, Cluster.world, Cluster.initial])
  · intro w w' A A' m event htracked _ hstep _ _ ih n happlicable e he
    have hbefore : ∀ index, (n, .refuseApply index) ∉ w.history := fun index hmem =>
      happlicable index (hstep.history ▸ List.mem_append_left _ hmem)
    rcases hstep.history_cases he with hold | ⟨rfl, rfl⟩
    · exact ih n hbefore e hold
    · rcases hstep.event with ⟨store, state, -, -, rfl, -⟩ | ⟨action, l, l', hview, -, -, hmicro⟩
      · trivial
      · obtain ⟨hhigh, hterm⟩ := htracked.committed_termed hview
        refine ((htracked.labelled hbefore hview).step hmicro hhigh hterm ?_).2 e rfl
        rintro index ⟨⟩
        exact happlicable index he

end Runs

namespace Cluster

section Statement

variable [Protobuf] {config : Config} {cluster : Cluster}

/-- While no committed command is refused, a node takes every snapshot with `commit_index_` equal to `last_applied_`, and
labels it with it; and whenever `ApplyCommitted` has come to its end, both indexes are less than eight ahead of the last
snapshot. They stay so until it is called again. -/
theorem snapshot_labelled (h : Reachable config cluster) {n : Int}
    (happlicable : ∀ index, (n, .refuseApply index) ∉ cluster.history) :
    (∀ index term data s, (n, .write (.persistSnapshot index term data) s) ∈ cluster.history →
      index = s.commitIndex ∧ s.commitIndex = s.lastApplied) ∧
    (∀ s, (n, .finishApply s) ∈ cluster.history → s.Recent) ∧
    ∀ node, cluster.nodes n = .running node → node.Recent := by
  obtain ⟨A, hA⟩ := h.reach.tracked
  have hlabels := hA.labels n happlicable
  refine ⟨fun index term data s hmem => hlabels _ hmem, fun s hmem => hlabels _ hmem, fun node hnode => ?_⟩
  have hview : cluster.world.views n = .active (.rest node) := congrArg Status.view hnode
  exact (hA.labelled happlicable hview).outside rfl

/-- Whether the event is that a snapshot of an index was saved. -/
def savesSnapshot (index : Nat) : Event → Bool
  | .write (.persistSnapshot index' _ _) _ => index' == index
  | _ => false

omit [Protobuf] in
/-- Node 1 takes a snapshot of eight commands. -/
theorem snapshot_labelled_eightPuts : ∃ cluster term data s, @Reachable Wire.protobuf trio cluster ∧
    (∀ index, (1, .refuseApply index) ∉ cluster.history) ∧
    (1, .write (.persistSnapshot 8 term data) s) ∈ cluster.history ∧ s.commitIndex = 8 ∧ s.lastApplied = 8 := by
  obtain ⟨cluster, hrun, htest⟩ := @run_of_play Wire.protobuf trio (fun _ _ => True) _ catchUp
    (fun cluster => !cluster.occurs 1 (Event.refusesApply fun _ => true) && cluster.occurs 1 (savesSnapshot 8)) (by decide +kernel)
  simp only [Bool.and_eq_true, Bool.not_eq_true'] at htest
  obtain ⟨hrefused, htest⟩ := htest
  have happlicable : ∀ index, (1, .refuseApply index) ∉ cluster.history := fun _ =>
    not_mem_of_not_occurs hrefused rfl
  obtain ⟨event, hmem, hevent⟩ := exists_of_occurs htest
  unfold savesSnapshot at hevent
  split at hevent
  next index term data s =>
    obtain rfl := beq_iff_eq.mp hevent
    obtain ⟨hcommit, hlast⟩ :=
      (@snapshot_labelled Wire.protobuf trio cluster hrun 1 happlicable).1 8 term data s hmem
    exact ⟨cluster, term, data, s, hrun, happlicable, hmem, hcommit.symm, (hcommit.trans hlast).symm⟩
  next => cases hevent

end Statement

end Cluster

end Nukv
