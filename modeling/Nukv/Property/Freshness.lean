import Nukv.Property.Progress
import Nukv.Property.Reads

/-!
# Fresh reads

The index that a read has to wait for is the commit index of the leader at the moment the read becomes active. What a
leader has committed itself is below it, because a commit index does not go down while its node leads. What earlier
leaders have committed is in the log of the leader, but a new leader does not know yet that it is committed: a read that
becomes active before the leader has committed an entry of its own term may be answered from a state that lacks writes
which clients were told of. When all entries behind the commit index are of the leader's own term, no such write is
missed.
-/

namespace Nukv

open Cluster

/-- No entry of an earlier term is behind the commit index. -/
def RaftNode.KnowsCommitted (node : RaftNode) : Prop :=
  node.commitIndex = node.lastIndex ∨ node.termAt (node.commitIndex + 1) = node.currentTerm

instance (node : RaftNode) : Decidable node.KnowsCommitted := inferInstanceAs (Decidable (_ ∨ _))

/-- The leader that an event shows: it raises its commit index, or answers a submission with true. -/
def Event.leading : Event → Option RaftNode
  | .advanceCommit s => some s
  | .submitResult _ true s => some s
  | _ => none

/-- An index with a term is one of the log. -/
theorem RaftNode.Shows.entry_of_termAt {node : RaftNode} {L : List RaftLogEntry} (h : node.Shows L) {i : Nat}
    (hne : node.termAt i ≠ 0) : ∃ entry, 0 < i ∧ L[i - 1]? = some entry ∧ entry.term = node.termAt i := by
  have hrange : node.snapshotIndex ≤ i ∧ i ≤ node.lastIndex := by
    have hterm := hne
    unfold RaftNode.termAt at hterm
    split at hterm
    next heq => exact ⟨heq.ge, heq ▸ Nat.le_add_right _ _⟩
    next =>
      split at hterm
      next => exact absurd rfl hterm
      next entry hentry =>
        obtain ⟨hlt, hget⟩ := RaftNode.entryAt_eq_ok.mp hentry
        have := Raft.length_lt_of_getElem? hget
        exact ⟨hlt.le, by unfold RaftNode.lastIndex; omega⟩
  rw [h.termAt hrange.1 hrange.2] at hne ⊢
  cases i with
  | zero => exact absurd rfl hne
  | succ k =>
    have hk : k < L.length := h.lastIndex ▸ hrange.2
    have hentry : L[k]? = some L[k] := List.getElem?_eq_getElem hk
    exact ⟨L[k], Nat.succ_pos k, hentry, (Raft.lastTerm_take hentry).symm⟩

theorem RaftNode.voteSaved_progress (node : RaftNode) (candidate : Int) :
    (node.voteSaved candidate).commitIndex = node.commitIndex ∧
      (node.voteSaved candidate).lastApplied = node.lastApplied := ⟨rfl, rfl⟩

section Runs

variable [Protobuf] {config : Config} {timely : Prop} {A : Shadow} {w : World} {n : Int} {l l' : Local}
  {action : LoopAction} {event : Option Event}

/-! ### What a step does to a leader -/

/-- A leader was elected in this step, or goes on with its term. -/
theorem Micro.leads (h : Micro action l event l') (hrole : l'.node.role = .leader) :
    l'.node.currentTerm = l.node.currentTerm ∧
      (l.node.role = .candidate ∧ (∃ s, event = some (.becomeLeader s) ∧ s.currentTerm = l'.node.currentTerm) ∨
        l.node.role = .leader ∧ l.node.commitIndex ≤ l'.node.commitIndex ∧ l.node.lastApplied ≤ l'.node.lastApplied) := by
  rcases h with h | h | h | h | h | h | h | h | h
  case role =>
    cases h with
    | adoptTerm => cases hrole
    | demote => cases hrole
    | campaign => cases hrole
    | grant c rpc request s =>
      obtain ⟨hterm, hsame, -⟩ := l.node.voteSaved_kept (toInt64 request.candidateId)
      obtain ⟨hcommit, happlied⟩ := l.node.voteSaved_progress (toInt64 request.candidateId)
      exact ⟨hterm, .inr ⟨hsame.symm.trans hrole, hcommit.ge, happlied.ge⟩⟩
    | countVote => exact ⟨rfl, .inr ⟨hrole, le_rfl, le_rfl⟩⟩
    | elect s hcandidate hquorum hstate =>
      exact ⟨rfl, .inl ⟨hcandidate, s, rfl, (congrArg (fun t : RaftNode => t.currentTerm) hstate).trans rfl⟩⟩
  case log =>
    cases h with
    | push => exact ⟨rfl, .inr ⟨hrole, le_rfl, le_rfl⟩⟩
    | advance index s _ hindex => exact ⟨rfl, .inr ⟨hrole, (NodeM.commitCandidate_some hindex).1.le, le_rfl⟩⟩
    | merge _ _ _ _ _ _ hfollower => cases hfollower.symm.trans hrole
    | spoil => exact ⟨rfl, .inr ⟨hrole, le_rfl, le_rfl⟩⟩
    | install _ _ _ _ _ _ _ hfollower => cases hfollower.symm.trans hrole
  case apply =>
    cases h with
    | catchUp => exact ⟨rfl, .inr ⟨hrole, le_rfl, le_max_left _ _⟩⟩
    | apply => exact ⟨rfl, .inr ⟨hrole, le_rfl, Nat.le_succ _⟩⟩
    | _ => exact ⟨rfl, .inr ⟨hrole, le_rfl, le_rfl⟩⟩
  all_goals cases h <;> exact ⟨rfl, .inr ⟨hrole, le_rfl, le_rfl⟩⟩

/-- The node in such an event is the leader after the step. -/
theorem Micro.leading {e : Event} {s : RaftNode} (h : Micro action l (some e) l') (hs : e.leading = some s) :
    l'.node.role = .leader ∧ s.core = l'.node := by
  rcases h with h | h | h | h | h | h | h | h | h
  case log =>
    cases h with
    | advance index s' hrole hindex hstate =>
      obtain rfl := Option.some.inj hs
      exact ⟨hrole, hstate⟩
    | _ => cases hs
  case submit =>
    cases h with
    | committed poll s' hpushed hrole htarget hstate =>
      obtain rfl := Option.some.inj hs
      exact ⟨hrole, hstate⟩
    | repeated call s' haction hrole hid hrecord hstate =>
      obtain rfl := Option.some.inj hs
      exact ⟨hrole, hstate⟩
    | refused => cases hs
  all_goals cases h <;> cases hs

/-! ### Along a run -/

theorem Tracked.elected (h : Tracked config timely w A) (hview : w.views n = .active l)
    (hrole : l.node.role = .leader) :
    ∃ s, (n, .becomeLeader s) ∈ w.history ∧ s.currentTerm = l.node.currentTerm := by
  refine h.each (P := fun w _ n l => l.node.role = .leader →
    ∃ s, (n, .becomeLeader s) ∈ w.history ∧ s.currentTerm = l.node.currentTerm) ?_ ?_ ?_ ?_ n l hview hrole
  · intro w w' A n store state _ _ _ _ hrole
    cases hrole
  · intro w w' A n l c _ _ hhistory _ _ ih hrole
    exact hhistory ▸ ih hrole
  · intro w w' A A' n action l l' event _ _ _ _ _ hmicro hhistory _ ih hrole
    obtain ⟨hterm, ⟨-, s, rfl, hs⟩ | ⟨hled, -⟩⟩ := hmicro.leads hrole
    · exact ⟨s, hhistory ▸ List.mem_append_right _ List.mem_cons_self, hs⟩
    · obtain ⟨s, hmem, hs⟩ := ih hled
      exact ⟨s, hhistory ▸ List.mem_append_left _ hmem, hs.trans hterm.symm⟩
  · intro w w' A A' n m l event _ _ _ _ hstep _ ih hrole
    obtain ⟨s, hmem, hs⟩ := ih hrole
    exact ⟨s, hstep.history ▸ List.mem_append_left _ hmem, hs⟩

/-- What such an event shows to be committed was committed by a leader of its term or an earlier one. -/
theorem Tracked.leading (h : Tracked config timely w A) {m : Int} {e : Event} {s : RaftNode}
    (hmem : (m, e) ∈ w.history) (hs : e.leading = some s) :
    A.leads s.currentTerm m ∧ (∃ t, (m, .becomeLeader t) ∈ w.history ∧ t.currentTerm = s.currentTerm) ∧
      Raft.CommittedTo config.setting A s.currentTerm (max s.commitIndex s.lastApplied) := by
  obtain ⟨past, rest, hsplit⟩ := List.append_of_mem hmem
  obtain ⟨w₁, A₁, w₂, A₂, h₁, rfl, hstep, h₂, -, hext⟩ := h.cut _ _ _ _ hsplit
  rcases hstep.event with ⟨_, _, -, -, rfl, -⟩ | ⟨action, l, l', -, hview', -, hmicro⟩
  · cases hs
  obtain ⟨hrole, hstate⟩ := hmicro.leading hs
  have hterm : s.currentTerm = l'.node.currentTerm := (congrArg (fun t : RaftNode => t.currentTerm) hstate).trans rfl
  have hcommit : s.commitIndex = l'.node.commitIndex := (congrArg (fun t : RaftNode => t.commitIndex) hstate).trans rfl
  have happlied : s.lastApplied = l'.node.lastApplied := (congrArg (fun t : RaftNode => t.lastApplied) hstate).trans rfl
  have hnode := h₂.related.active m l' hview'
  have hdepicts := hnode.memory.depicts
  have hown : A₂.term m = l'.node.currentTerm := hdepicts.term
  refine ⟨hterm ▸ hext.leads _ _ (hnode.roles.leader hrole).leads, ?_, ?_⟩
  · obtain ⟨t, ht, htt⟩ := h₂.elected hview' hrole
    refine ⟨t, ?_, htt.trans hterm.symm⟩
    rw [hstep.history] at ht
    rw [hsplit]
    rcases List.mem_append.mp ht with ht | ht
    · exact List.mem_append_left _ ht
    · exact List.mem_append_right _ (List.mem_cons.mpr (.inl (List.mem_singleton.mp ht)))
  · rw [hterm, hcommit, happlied, ← hown]
    exact (hdepicts.commitIndex.max hdepicts.lastApplied).committedTo.grow hext

/-- While it leads, a node has committed and applied what it has shown in its term. -/
theorem Tracked.leading_le (h : Tracked config timely w A) (hview : w.views n = .active l)
    (hrole : l.node.role = .leader) {e : Event} {s : RaftNode} (hmem : (n, e) ∈ w.history) (hs : e.leading = some s)
    (hterm : s.currentTerm = l.node.currentTerm) :
    s.commitIndex ≤ l.node.commitIndex ∧ s.lastApplied ≤ l.node.lastApplied := by
  refine h.each (P := fun w _ n l => l.node.role = .leader → ∀ e s, (n, e) ∈ w.history → e.leading = some s →
    s.currentTerm = l.node.currentTerm → s.commitIndex ≤ l.node.commitIndex ∧ s.lastApplied ≤ l.node.lastApplied)
    ?_ ?_ ?_ ?_ n l hview hrole e s hmem hs hterm
  · intro w w' A n store state _ _ _ _ hrole
    cases hrole
  · intro w w' A n l c _ _ hhistory _ _ ih hrole e s hmem
    exact ih hrole e s (hhistory ▸ hmem)
  · intro w w' A A' n action l l' event htracked _ hview _ _ hmicro hhistory _ ih hrole e s hmem hs hterm
    rw [hhistory] at hmem
    rcases List.mem_append.mp hmem with hold | hnew
    · obtain ⟨hsame, ⟨hcandidate, -⟩ | ⟨hled, hcommit, happlied⟩⟩ := hmicro.leads hrole
      · -- a candidate has not led its term before
        have hnode := htracked.related.active n l hview
        have hleads := (htracked.leading hold hs).1
        rw [hterm, hsame] at hleads
        exact absurd hleads (hnode.roles.candidate hcandidate).leads
      · obtain ⟨hle, hle'⟩ := ih hled e s hold hs (hterm.trans hsame)
        exact ⟨hle.trans hcommit, hle'.trans happlied⟩
    · obtain ⟨e', he', heq⟩ := List.mem_map.mp hnew
      obtain rfl : e' = e := (Prod.mk.inj heq).2
      obtain rfl : event = some e' := Option.mem_toList.mp he'
      obtain ⟨-, hstate⟩ := hmicro.leading hs
      exact ⟨(congrArg (fun t : RaftNode => t.commitIndex) hstate).le, (congrArg (fun t : RaftNode => t.lastApplied) hstate).le⟩
  · intro w w' A A' n m l event hne _ _ _ hstep _ ih hrole e s hmem
    rcases hstep.history_cases hmem with hold | ⟨rfl, -⟩
    · exact ih hrole e s hold
    · exact absurd rfl hne

/-- A read that waits was asked for. -/
theorem Tracked.readsQueued (h : Tracked config timely w A) (hview : w.views n = .active l) :
    ∀ read ∈ l.node.pendingReadIndexes, ∃ id, (n, .queueRead read.result id) ∈ w.history := by
  refine h.each (P := fun w _ n l =>
    ∀ read ∈ l.node.pendingReadIndexes, ∃ id, (n, .queueRead read.result id) ∈ w.history) ?_ ?_ ?_ ?_ n l hview
  · intro w w' A n store state _ _ _ _ read hread
    cases hread
  · intro w w' A n l c _ _ hhistory _ _ ih
    exact hhistory ▸ ih
  · intro w w' A A' n action l l' event _ _ _ _ _ hmicro hhistory _ ih read hread
    have hkept : read ∈ l.node.pendingReadIndexes → ∃ id, (n, .queueRead read.result id) ∈ w'.history := by
      intro hold
      obtain ⟨id, hid⟩ := ih read hold
      exact ⟨id, hhistory ▸ List.mem_append_left _ hid⟩
    rcases hmicro.reading with hstep | ⟨-, -, hsame | ⟨-, hnil⟩⟩
    · cases hstep with
      | queue result =>
        rcases List.mem_append.mp hread with hold | hnew
        · exact hkept hold
        · obtain rfl := List.mem_singleton.mp hnew
          exact ⟨_, hhistory ▸ List.mem_append_right _ List.mem_cons_self⟩
      | activate next rest s _ _ _ hpending => exact hkept (hpending ▸ List.mem_cons_of_mem _ hread)
      | giveUp pending hsub => exact hkept (hsub.subset hread)
      | _ => exact hkept hread
    · exact hkept (congrArg ReadState.pendingReadIndexes hsame ▸ hread)
    · rw [hnil] at hread
      cases hread
  · intro w w' A A' n m l event _ _ _ _ hstep _ ih read hread
    obtain ⟨id, hid⟩ := ih read hread
    exact ⟨id, hstep.history ▸ List.mem_append_left _ hid⟩

/-! ### Reads -/

/-- What leaders of earlier terms have committed is below the commit index of a leader whose other entries are all of
its own term. -/
theorem NodeSim.committed_le {sent : List Packet} (h : NodeSim config A sent n l) (hI : Raft.Inv config.setting A)
    (hrole : l.node.role = .leader) (hcurrent : l.node.KnowsCommitted) {t j : Nat} (hlt : t < l.node.currentTerm)
    (hcommitted : Raft.Committed config.setting A t j) : j ≤ l.node.commitIndex := by
  by_contra hbehind
  have hleader := h.roles.leader hrole
  have hshows : l.node.Shows (A.log n) := h.memory.shows
  have htake : (A.log n).take j = (A.tlog t).take j := by
    rw [← show A.tlog l.node.currentTerm = A.log n from hleader.tlog]
    exact hI.leader_completeness hcommitted hleader.leads hlt.le
  obtain ⟨entry, hentry, hterm⟩ := hcommitted.1.entry htake
  have hlength := Raft.length_lt_of_getElem? hentry
  rcases hcurrent with hall | hown
  · have := hshows.lastIndex
    omega
  · have hne : l.node.termAt (l.node.commitIndex + 1) ≠ 0 := by
      have := hI.term_pos hleader.leads
      rw [hown]
      exact this.ne'
    obtain ⟨entry', -, hentry', hterm'⟩ := hshows.entry_of_termAt hne
    have hsorted := hI.terms_sorted (hI.sourced_log n) (show l.node.commitIndex ≤ j - 1 by omega) hentry' hentry
    rw [hterm] at hsorted
    exact absurd (hsorted.trans_lt hlt) (by rw [← hown, ← hterm']; exact lt_irrefl _)

/-- The activation of a read that was answered with true comes after the call, if no earlier call had its promise. -/
theorem Tracked.activated_after (h : Tracked config timely w A) {asked between before since : List (Int × Event)}
    {result id : Nat} {σ : RaftNode} (hhistory : w.history = asked ++ (n, .queueRead result id) :: between)
    (hnew : ∀ id, (n, .queueRead result id) ∉ asked) (hsplit : w.history = before ++ (n, .activateRead σ) :: since)
    (hresult : σ.activeReadIndex.map PendingReadIndex.result = some result) :
    (∀ x ∈ asked, x ∈ before) ∧ (n, .activateRead σ) ∈ between := by
  obtain ⟨w₁, A₁, l, read, reads, h₁, rfl, hview, -, hpending, hstate⟩ := h.activation hsplit
  have hread : read.result = result := by
    have hactive : σ.core.activeReadIndex = _ := congrArg (fun t : RaftNode => t.activeReadIndex) hstate
    rw [show σ.activeReadIndex = _ from hactive] at hresult
    exact Option.some.inj hresult
  obtain ⟨id', hid⟩ := h₁.readsQueued hview read (hpending ▸ List.mem_cons_self)
  rw [hread] at hid
  rw [hhistory] at hsplit
  rcases List.append_eq_append_iff.mp hsplit with ⟨more, hbefore, hmore⟩ | ⟨more, rfl, hmore⟩
  · cases more with
    | nil => cases (List.cons.inj hmore).1
    | cons first more =>
      obtain ⟨rfl, rfl⟩ := List.cons.inj hmore
      exact ⟨fun x hx => hbefore ▸ List.mem_append_left _ hx, List.mem_append_right _ List.mem_cons_self⟩
  · exact absurd (List.mem_append_left _ hid) (hnew id')

/-- What was committed before a call of `ReadIndex` is applied when the call is answered with true. -/
theorem Tracked.fresh (h : Tracked config timely w A) {asked between rest : List (Int × Event)} {result id : Nat}
    {σ' : RaftNode} (hhistory : w.history =
      asked ++ (n, .queueRead result id) :: between ++ (n, .readResult result true σ') :: rest)
    (hnew : ∀ id, (n, .queueRead result id) ∉ asked) (hcurrent : ∀ σ, (n, .activateRead σ) ∈ between → σ.KnowsCommitted)
    {m : Int} {e : Event} {s : RaftNode} (hmem : (m, e) ∈ asked) (hs : e.leading = some s) :
    max s.commitIndex s.lastApplied ≤ σ'.lastApplied := by
  obtain ⟨w₂, A₂, l₂, read, h₂, hpast₂, hview₂, hrole₂, hterm₂, hstate₂, ⟨before, ⟨σ, since, hpast, -, -, hterm, hindex,
    hresult⟩, hterms⟩, rfl, happlied⟩ := h.answered hhistory
  obtain ⟨hasked, hin⟩ := h₂.activated_after hpast₂ hnew (hpast₂.trans hpast) hresult
  obtain ⟨w₁, A₁, l₁, next, reads, h₁, rfl, hview₁, hrole₁, -, hstate₁⟩ := h₂.activation (hpast₂.trans hpast)
  -- the leader at the activation has the state that the event shows
  have hcurrent₁ : l₁.node.KnowsCommitted := by
    have hσ : σ.core.KnowsCommitted := hcurrent σ hin
    rw [hstate₁] at hσ
    exact hσ
  have hterm₁ : l₁.node.currentTerm = read.term :=
    (congrArg (fun t : RaftNode => t.currentTerm) hstate₁).symm.trans hterm
  have hcommit₁ : l₁.node.commitIndex = read.readIndex :=
    (congrArg (fun t : RaftNode => t.commitIndex) hstate₁).symm.trans hindex
  obtain ⟨hleads, ⟨t, ht, htt⟩, hcommitted⟩ := h₁.leading (hasked _ hmem) hs
  have hle : s.currentTerm ≤ read.term := htt ▸ hterms m t ht
  have hearlier : ∀ t j, t < read.term → Raft.Committed config.setting A₁ t j → j ≤ σ'.lastApplied := by
    intro t j hlt hj
    have hnode := h₁.related.active n l₁ hview₁
    have hbelow := hnode.committed_le h₁.inv hrole₁ hcurrent₁ (hterm₁ ▸ hlt) hj
    exact (hbelow.trans hcommit₁.le).trans happlied
  rcases hcommitted with hzero | ⟨t₀, j, ht₀, hj, hcom⟩
  · exact hzero ▸ Nat.zero_le _
  rcases Nat.lt_or_eq_of_le (ht₀.trans hle) with hlt | rfl
  · exact hj.trans (hearlier t₀ j hlt hcom)
  · -- the leader of the read itself has shown it
    have hsame : s.currentTerm = read.term := le_antisymm hle ht₀
    obtain rfl : m = n := by
      rw [hsame, ← hterm₁] at hleads
      exact h₁.inv.leads_unique hleads ((h₁.related.active n l₁ hview₁).roles.leader hrole₁).leads
    have hold : (m, e) ∈ w₂.history := by
      rw [hpast₂]
      exact List.mem_append_left _ hmem
    have hcommit := (h₁.leading_le hview₁ hrole₁ (hasked _ hmem) hs (hsame.trans hterm₁.symm)).1
    have happlied' := (h₂.leading_le hview₂ hrole₂ hold hs (hsame.trans hterm₂.symm)).2
    have hshown : l₂.node.lastApplied = σ'.lastApplied := (congrArg (fun t : RaftNode => t.lastApplied) hstate₂).symm
    refine max_le (hcommit.trans (hcommit₁.le.trans happlied)) (hshown ▸ happlied')

/-- A write that was acknowledged, or known to be committed by a leader, before a call of `ReadIndex` is applied on the
node that answers the call with true, if at the activation of the read no entry of an earlier term is behind the commit
index. The promise of the call is its own. -/
theorem readIndex_fresh {cluster : Cluster} (h : Reachable config cluster) {asked between rest : List (Int × Event)}
    {result id : Nat} {σ' : RaftNode} (hhistory : cluster.history =
      asked ++ (n, .queueRead result id) :: between ++ (n, .readResult result true σ') :: rest)
    (hnew : ∀ id, (n, .queueRead result id) ∉ asked)
    (hcurrent : ∀ σ, (n, .activateRead σ) ∈ between →
      σ.commitIndex = σ.lastIndex ∨ σ.termAt (σ.commitIndex + 1) = σ.currentTerm)
    {m : Int} {call : SubmitCall} {s : RaftNode} {i : Nat}
    (hshown : (m, .submitResult call true s) ∈ asked ∨ (m, .advanceCommit s) ∈ asked)
    (hi : i ≤ max s.commitIndex s.lastApplied) : i ≤ σ'.lastApplied := by
  obtain ⟨A, hA⟩ := h.reach.tracked
  rcases hshown with hmem | hmem
  · exact hi.trans (hA.fresh hhistory hnew hcurrent hmem rfl)
  · exact hi.trans (hA.fresh hhistory hnew hcurrent hmem rfl)

end Runs

/-! ### Two reads -/

/-- The call of `ReadIndex` with a promise. -/
def asksFor (n : Int) (result : Nat) : Int × Event → Bool
  | (m, .queueRead r _) => m == n && r == result
  | _ => false

/-- A history in which a submission at node 1 is answered with true, then `n` is asked for a read, and answers with
true. The read is known by its promise. -/
def readsAfterWrite (n : Int) (result : Nat) (answer : RaftNode → Bool) (history : List (Int × Event)) : Bool :=
  (history.takeWhile fun x => !asksFor n result x).any (fun
    | (1, .submitResult _ true s) => s.commitIndex == 1
    | _ => false) &&
  (history.dropWhile fun x => !asksFor n result x).tail.any fun
    | (m, .readResult r true s) => m == n && r == result && answer s
    | _ => false

theorem exists_of_readsAfterWrite {n : Int} {result : Nat} {answer : RaftNode → Bool} {history : List (Int × Event)}
    (h : readsAfterWrite n result answer history = true) :
    ∃ asked between rest id call s σ',
      history = asked ++ (n, .queueRead result id) :: between ++ (n, .readResult result true σ') :: rest ∧
      (∀ id, (n, .queueRead result id) ∉ asked) ∧ (1, .submitResult call true s) ∈ asked ∧ s.commitIndex = 1 ∧
      answer σ' = true := by
  simp only [readsAfterWrite, Bool.and_eq_true, List.any_eq_true] at h
  obtain ⟨⟨⟨m, e⟩, hmem, htest⟩, ⟨m', e'⟩, hmem', htest'⟩ := h
  obtain ⟨call, s, rfl, rfl, hcommit⟩ : ∃ call s, m = 1 ∧ e = .submitResult call true s ∧ s.commitIndex = 1 := by
    split at htest
    next heq =>
      obtain ⟨rfl, rfl⟩ := Prod.mk.inj heq
      exact ⟨_, _, rfl, rfl, by simpa using htest⟩
    next => cases htest
  obtain ⟨σ', rfl, rfl, hanswer⟩ : ∃ σ', m' = n ∧ e' = .readResult result true σ' ∧ answer σ' = true := by
    split at htest'
    next heq =>
      obtain ⟨rfl, rfl⟩ := Prod.mk.inj heq
      simp only [Bool.and_eq_true, beq_iff_eq] at htest'
      obtain ⟨⟨rfl, rfl⟩, hanswer⟩ := htest'
      exact ⟨_, rfl, rfl, hanswer⟩
    next => cases htest'
  have hsplit := List.takeWhile_append_dropWhile (p := fun x => !asksFor m' result x) (l := history)
  have hhead := List.head?_dropWhile_not (fun x => !asksFor m' result x) history
  cases hlater : history.dropWhile fun x => !asksFor m' result x with
  | nil =>
    rw [hlater] at hmem'
    cases hmem'
  | cons first later =>
    rw [hlater] at hmem' hhead hsplit
    obtain ⟨id, rfl⟩ : ∃ id, first = (m', .queueRead result id) := by
      have hasks : asksFor m' result first = true := by simpa using hhead
      unfold asksFor at hasks
      split at hasks
      next k r id =>
        simp only [Bool.and_eq_true, beq_iff_eq] at hasks
        obtain ⟨rfl, rfl⟩ := hasks
        exact ⟨id, rfl⟩
      next => cases hasks
    obtain ⟨between, rest, rfl⟩ := List.append_of_mem hmem'
    refine ⟨_, between, rest, id, call, s, σ', ?_, fun id' hid' => ?_, hmem, hcommit, hanswer⟩
    · rw [List.append_assoc, List.cons_append]
      exact hsplit.symm
    · have := List.mem_takeWhile_imp hid'
      simp [asksFor] at this

/-- Node 1 commits a command with node 2, answers its client and serves a read. -/
def acknowledged : List Move :=
  unaware.take 13 ++ [.act (.run 1 (.readIndex 7)), .deliver 7, .deliver 8]

/-- Node 2, which does not know yet that the command is committed, serves a read when it is elected. -/
def outdated : List Move :=
  unaware ++ [.act (.run 2 (.readIndex 7)), .deliver 14, .deliver 15]

/-- Whether the event is that a read is started by a leader that may not know what is committed. -/
def startsBehind : Event → Bool
  | .activateRead σ => !decide σ.KnowsCommitted
  | _ => false

theorem readIndex_fresh_acknowledged : ∃ cluster asked between rest id call s σ', @Reachable Wire.protobuf trio cluster ∧
    cluster.history = asked ++ (1, .queueRead 7 id) :: between ++ (1, .readResult 7 true σ') :: rest ∧
    (1, .submitResult call true s) ∈ asked ∧ s.commitIndex = 1 ∧ 1 ≤ σ'.lastApplied := by
  obtain ⟨cluster, hrun, htest⟩ := @run_of_play Wire.protobuf trio (fun _ _ => True) _ acknowledged
    (fun cluster => readsAfterWrite 1 7 (fun _ => true) cluster.history &&
      !cluster.occurs 1 startsBehind) (by decide +kernel)
  simp only [Bool.and_eq_true, Bool.not_eq_true'] at htest
  obtain ⟨asked, between, rest, id, call, s, σ', hhistory, hnew, hmem, hcommit, -⟩ := exists_of_readsAfterWrite htest.1
  refine ⟨cluster, asked, between, rest, id, call, s, σ', hrun, hhistory, hmem, hcommit, ?_⟩
  refine @readIndex_fresh Wire.protobuf trio 1 cluster hrun asked between rest 7 id σ' hhistory hnew ?_ 1 call s 1
    (.inl hmem) (by rw [hcommit]; exact le_max_left _ _)
  intro σ hσ
  have hactivated : (1, .activateRead σ) ∈ cluster.history := by
    rw [hhistory]
    exact List.mem_append_left _ (List.mem_append_right _ (List.mem_cons_of_mem _ hσ))
  by_contra hbehind
  have hnot : decide σ.KnowsCommitted = false := decide_eq_false hbehind
  exact not_mem_of_not_occurs htest.2 (by simpa [startsBehind] using hnot) hactivated

theorem readIndex_outdated : ∃ cluster asked between rest id call s σ', @Reachable Wire.protobuf trio cluster ∧
    cluster.history = asked ++ (2, .queueRead 7 id) :: between ++ (2, .readResult 7 true σ') :: rest ∧
    (∀ id, (2, .queueRead 7 id) ∉ asked) ∧ (1, .submitResult call true s) ∈ asked ∧ s.commitIndex = 1 ∧
    σ'.lastApplied = 0 := by
  obtain ⟨cluster, hrun, htest⟩ := @run_of_play Wire.protobuf trio (fun _ _ => True) _ outdated
    (fun cluster => readsAfterWrite 2 7 (fun σ => σ.lastApplied == 0) cluster.history) (by decide +kernel)
  obtain ⟨asked, between, rest, id, call, s, σ', hhistory, hnew, hmem, hcommit, hanswer⟩ :=
    exists_of_readsAfterWrite htest
  exact ⟨cluster, asked, between, rest, id, call, s, σ', hrun, hhistory, hnew, hmem, hcommit, by simpa using hanswer⟩

end Nukv
