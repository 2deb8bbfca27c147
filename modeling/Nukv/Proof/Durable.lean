import Nukv.Proof.Life

/-!
# What a process has in its store

The store of a running process holds its term, its vote, its log and its snapshot at every moment: no small step
changes one of them in memory alone. The two indexes `commit_index_` and `last_applied_` may be ahead in memory
while `ApplyCommitted` runs.
-/

namespace Nukv

open Base

variable [Protobuf] {config : Config} {n : Int} {admits : LoopAction → Prop} {view : View} {past : List Moment}
  {l l' : Local} {action : LoopAction} {event : Option Event}

/-- The AppendEntries requests that arrive carry consecutive entries. -/
def Ordered : LoopAction → Prop
  | .receive _ ⟨_, _, .appendEntries request⟩ => Consecutive request.prevLogIndex request.entries
  | _ => True

omit [Protobuf] in
instance (action : LoopAction) : Decidable (Ordered action) := by
  rcases action with _ | _ | _ | _ | _ | _ | _ | _ | _ | _ | ⟨_, ⟨_, _, _ | _ | _ | request | _⟩⟩ | _ | _
  case receive.appendEntries => exact inferInstanceAs (Decidable (Consecutive request.prevLogIndex request.entries))
  all_goals exact .isTrue trivial

/-- Bytes that `SerializeSnapshotState` makes. -/
def Canonical (data : Bytes) : Prop := ∃ entries requests, data = serializeSnapshotState entries requests

/-- A snapshot that is installed was made by `SerializeSnapshotState`. -/
def Event.InstallsCanonical : Event → Prop
  | .write (.applySnapshot _ _ data) _ => Canonical data
  | _ => True

/-- The store has what the memory has, with these two indexes and this snapshot data. -/
def LogState.Stores (d : LogState) (c a : Nat) (data : Bytes) : Prop :=
  Holds d.store ⟨d.currentTerm, d.votedFor, c, a, d.snapshotIndex, d.snapshotTerm, data, d.log⟩

theorem RaftNode.stateSaved_stores (node : RaftNode) {term c a : Nat} {vote : Int} {data : Bytes}
    (h : Holds node.store ⟨term, vote, c, a, node.snapshotIndex, node.snapshotTerm, data, node.log⟩) :
    node.stateSaved.toLogState.Stores node.commitIndex node.lastApplied data :=
  Holds.persistState h ..

theorem RaftNode.voteSaved_stores (node : RaftNode) (candidate : Int) {c a : Nat} {data : Bytes}
    (h : node.toLogState.Stores c a data) :
    (node.voteSaved candidate).toLogState.Stores node.commitIndex node.lastApplied data :=
  RaftNode.stateSaved_stores _ h

/-- One step: what it changes in memory it has written. -/
theorem Micro.stores {c a : Nat} {data : Bytes} (hstep : Micro action l event l') (hordered : Ordered action)
    (h : l.node.toLogState.Stores c a data) :
    ∃ c' a' data', l'.node.toLogState.Stores c' a' data' ∧
      (data = l.node.snapshotData → (∀ e, event = some e → e.InstallsCanonical) → data' = l'.node.snapshotData) := by
  rcases hstep with hstep | hstep | hstep | hstep | hstep | hstep | hstep | hstep | hstep
  case role =>
    cases hstep with
    | adoptTerm => exact ⟨_, _, data, RaftNode.stateSaved_stores _ h, fun heq _ => heq⟩
    | campaign => exact ⟨_, _, data, RaftNode.stateSaved_stores _ h, fun heq _ => heq⟩
    | grant connection rpc request =>
      refine ⟨_, _, data, l.node.voteSaved_stores _ h, fun heq _ => ?_⟩
      rw [(l.node.voteSaved_kept (toInt64 request.candidateId)).2.2.2.1]
      exact heq
    | _ => exact ⟨c, a, data, h, fun heq _ => heq⟩
  case log =>
    cases hstep with
    | push => exact ⟨c, a, data, Holds.persistLog h _, fun heq _ => heq⟩
    | advance => exact ⟨c, a, data, h, fun heq _ => heq⟩
    | merge => exact ⟨c, a, data, Holds.persistLog h _, fun heq _ => heq⟩
    | spoil connection rpc request log haction hpayload hgap =>
      obtain ⟨id, sender, payload⟩ := rpc
      subst haction hpayload
      exact absurd hordered hgap
    | install connection rpc request snapshot s _ _ _ _ _ _ hnew _ _ _ hparse _ hterm =>
      refine ⟨_, _, _, RaftNode.installed_holds h hnew hterm hparse, fun _ hcanonical => ?_⟩
      obtain ⟨entries, requests, hdata⟩ : Canonical l.node.incomingSnapshotData := hcanonical _ rfl
      rw [hdata] at hparse
      obtain rfl := parseSnapshotState_serialize hparse
      exact hdata.symm
  case apply =>
    cases hstep with
    | apply entry command batch s _ _ _ _ hbatch => exact ⟨_, _, data, Holds.applyAtomically h hbatch, fun heq _ => heq⟩
    | persist => exact ⟨_, _, data, Holds.persistState h .., fun heq _ => heq⟩
    | compact s _ _ hlow hterm => exact ⟨_, _, _, RaftNode.compacted_holds h hlow hterm, fun _ _ => rfl⟩
    | _ => exact ⟨c, a, data, h, fun heq _ => heq⟩
  all_goals cases hstep <;> exact ⟨c, a, data, h, fun heq _ => heq⟩

/-- The store stands for some state; if the process is running, for its own. -/
def View.Durable (past : List Moment) : View → Prop
  | .active l => ∃ c a data, l.node.toLogState.Stores c a data ∧
      ((∀ e, .effect e ∈ past → e.InstallsCanonical) → data = l.node.snapshotData)
  | .down store => ∃ state, Holds store state

theorem Life.durable (hordered : ∀ action, admits action → Ordered action) (h : Life config n admits view past) :
    view.Durable past := by
  induction h with
  | initial => exact ⟨_, .empty⟩
  | fail _ ih => exact ih
  | start state _ _ _ hload ih =>
    obtain ⟨held, hholds⟩ := ih
    obtain ⟨rfl, -⟩ := hholds.load_eq_ok.mp hload
    exact ⟨_, _, _, hholds, fun _ => rfl⟩
  | die _ ih =>
    obtain ⟨c, a, data, hstores, -⟩ := ih
    exact ⟨_, hstores⟩
  | @call l past action _ _ _ ih =>
    obtain ⟨c, a, data, hstores, hdata⟩ := ih
    obtain ⟨-, hlog, -⟩ := entered_kept n action l.node
    refine ⟨c, a, data, hlog ▸ hstores, fun hcanonical => ?_⟩
    rw [congrArg LogState.snapshotData hlog]
    exact hdata fun e he => hcanonical e (List.mem_append_left _ he)
  | @micro l l' past action event _ _ hadmits hstep ih =>
    obtain ⟨c, a, data, hstores, hdata⟩ := ih
    obtain ⟨c', a', data', hstores', hdata'⟩ := hstep.stores (hordered action hadmits) hstores
    refine ⟨c', a', data', hstores', fun hcanonical => hdata' (hdata fun e he => ?_) fun e he => ?_⟩
    · exact hcanonical e (List.mem_append_left _ he)
    · exact hcanonical e (List.mem_append_right _ (by simp [he]))

/-! ### The two indexes -/

/-- The store has the two indexes of the memory, or `ApplyCommitted` is going to write them: then the entries it has
to apply are in the log. -/
structure Local.Counting (l : Local) : Prop where
  low : l.node.snapshotIndex ≤ l.node.lastApplied
  counted : l.node.Counted ∨ l.applying = true ∧ l.node.commitIndex ≤ l.node.lastIndex

omit [Protobuf] in
theorem Local.Counting.voteSaved (h : l.Counting) (candidate : Int) :
    ({ l with node := l.node.voteSaved candidate } : Local).Counting :=
  ⟨h.low, .inl (RaftNode.stateSaved_counted _)⟩

/-- One step. An application that is refused leaves the function with an index that is not stored. -/
theorem Local.Counting.step (h : l.Counting) (hstep : Micro action l event l') (hordered : Ordered action)
    (happlicable : ∀ index, event ≠ some (.refuseApply index)) : l'.Counting := by
  rcases hstep with hstep | hstep | hstep | hstep | hstep | hstep | hstep | hstep | hstep
  case role =>
    cases hstep with
    | adoptTerm => exact ⟨h.low, .inl (RaftNode.stateSaved_counted _)⟩
    | campaign => exact ⟨h.low, .inl (RaftNode.stateSaved_counted _)⟩
    | grant => exact h.voteSaved _
    | _ => exact ⟨h.low, h.counted⟩
  case log =>
    cases hstep with
    | push call =>
      refine ⟨h.low, h.counted.imp RaftNode.logSaved_counted (And.imp_right fun hle => hle.trans ?_)⟩
      simp [RaftNode.lastIndex, RaftNode.appended, RaftNode.logSaved]
    | advance index s _ hindex => exact ⟨h.low, .inr ⟨rfl, (NodeM.commitCandidate_some hindex).2.1⟩⟩
    | merge => exact ⟨h.low, .inr ⟨rfl, Nat.min_le_right ..⟩⟩
    | spoil connection rpc request log haction hpayload hgap =>
      obtain ⟨id, sender, payload⟩ := rpc
      subst haction hpayload
      exact absurd hordered hgap
    | install _ _ _ snapshot _ _ _ _ _ _ _ _ _ _ _ hparse =>
      exact ⟨le_rfl, .inl (RaftNode.installed_counted (.of_parse hparse))⟩
  case apply =>
    cases hstep with
    | enter => exact ⟨h.low, h.counted.imp_right fun hwait => ⟨rfl, hwait.2⟩⟩
    | catchUp =>
      rw [max_eq_left h.low]
      exact h
    | call => exact h
    | apply _ _ _ _ _ _ _ _ hbatch => exact ⟨h.low.trans (Nat.le_succ _), .inl (RaftNode.entryApplied_counted hbatch)⟩
    | persist => exact ⟨h.low, .inl (RaftNode.stateSaved_counted _)⟩
    | compact _ _ hle => exact ⟨hle, .inl (RaftNode.compacted_counted _)⟩
    | leave _ _ _ hcounted => exact ⟨h.low, .inl hcounted⟩
    | refuse => exact absurd rfl (happlicable _)
    | abort x hstuck =>
      refine ⟨h.low, .inl ?_⟩
      rcases hstuck with ⟨hlt, x, hentry⟩ | ⟨-, hcounted, -⟩
      · rcases h.counted with hcounted | ⟨-, hle⟩
        · exact hcounted
        · -- the next entry is in the log
          obtain ⟨entry, -, hok⟩ := RaftNode.exists_entryAt (Nat.lt_succ_of_le h.low) (Nat.succ_le_of_lt hlt |>.trans hle)
          cases hok.symm.trans hentry
      · exact hcounted
  all_goals cases hstep <;> exact ⟨h.low, h.counted⟩

theorem Life.counting (hordered : ∀ action, admits action → Ordered action) (h : Life config n admits (.active l) past)
    (happlicable : ∀ index, .effect (.refuseApply index) ∉ past) : l.Counting := by
  refine h.each (P := fun past l => (∀ index, .effect (.refuseApply index) ∉ past) → l.Counting) ?_ ?_ ?_ happlicable
  · intro past store state _ _ _ _
    refine ⟨?_, .inr ⟨rfl, Nat.min_le_right ..⟩⟩
    change state.snapshotIndex ≤ min (max state.lastApplied state.snapshotIndex)
      (min (max state.commitIndex state.snapshotIndex) (state.snapshotIndex + state.log.length))
    omega
  · intro past l action _ _ _ ih happlicable
    obtain ⟨-, hlog, -⟩ := entered_kept n action l.node
    obtain ⟨hlow, hcounted⟩ := ih fun index hmem => happlicable index (List.mem_append_left _ hmem)
    exact ⟨by rwa [congrArg LogState.snapshotIndex hlog, congrArg LogState.lastApplied hlog], by
      rwa [RaftNode.Counted, RaftNode.lastIndex, hlog]⟩
  · intro past l l' action event _ _ hadmits hstep ih happlicable
    refine (ih fun index hmem => happlicable index (List.mem_append_left _ hmem)).step hstep (hordered action hadmits) ?_
    rintro index rfl
    exact happlicable index (List.mem_append_right _ (by simp))

/-! ### The vote -/

/-- The vote fits an `int64`. -/
def RaftNode.VoteFits (node : RaftNode) : Prop := -2 ^ 63 ≤ node.votedFor ∧ node.votedFor < 2 ^ 63

theorem RaftNode.VoteFits.step (h : l.node.VoteFits) (hplaced : l.node.Placed config n) (hstep : Micro action l event l') :
    l'.node.VoteFits := by
  rcases hstep with hstep | hstep | hstep | hstep | hstep | hstep | hstep | hstep | hstep
  case role =>
    cases hstep with
    | adoptTerm => exact show -2 ^ 63 ≤ (-1 : Int) ∧ (-1 : Int) < 2 ^ 63 by decide
    | campaign =>
      have hlow := config.positive n hplaced.member
      have hhigh := config.int32 n hplaced.member
      change -2 ^ 63 ≤ l.node.serverId ∧ l.node.serverId < 2 ^ 63
      rw [hplaced.serverId]
      omega
    | grant _ _ request => exact toInt64_fits request.candidateId
    | _ => exact h
  all_goals cases hstep <;> exact h

end Nukv
