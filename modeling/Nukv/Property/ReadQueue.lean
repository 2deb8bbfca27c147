import Nukv.Model.Process
import Nukv.Proof.Aside
import Nukv.Property.Consensus

/-!
# The queue of reads

`StartNextReadIndex`, `FinishReadIndex` and `FailPendingReadIndexes` pass the reads of a leader from the queue to the active
slot and out of it, and are called from handlers, timers, `StepDown` and `StopInLoop`. The books of a read are kept by its
promise: it is handed in by a call of `ReadIndex`, then it is held by the node, in the queue or the slot, and then it has
been set (`Booked`). Between two functions the slot is filled whenever the queue is, by a read of the current term of a
leader (`Disciplined`). Inside `FinishReadIndex` one promise is neither held nor set: it is lost if `ApplyCommitted` throws.
-/

namespace Nukv

open Base

/-! ### Books -/

/-- The promise that an event sets. -/
def Event.settled : Event → Option Nat
  | .readResult result _ _ => some result
  | _ => none

/-- The read that an event puts into the queue. -/
def Event.queued : Event → Option Nat
  | .queueRead _ requestId => some requestId
  | _ => none

/-- The read that an event makes active. -/
def Event.activated : Event → Option Nat
  | .activateRead node => node.activeReadIndex.map PendingReadIndex.requestId
  | _ => none

def readResults (es : List Event) : List Nat := es.filterMap Event.settled

def queuedReads (es : List Event) : List Nat := es.filterMap Event.queued

def activatedReads (es : List Event) : List Nat := es.filterMap Event.activated

/-- The promises of the active read and of those in the queue. -/
def ReadState.promises (reads : ReadState) : List Nat :=
  (reads.activeReadIndex.toList ++ reads.pendingReadIndexes).map PendingReadIndex.result

/-- No call of `ApplyCommitted` has thrown on a store that does not fail. -/
def Unrefused (es : List Event) : Prop := (∀ index, .refuseApply index ∉ es) ∧ ∀ x, .refuseIndex x ∉ es

theorem Unrefused.of_append {es es' : List Event} (h : Unrefused (es ++ es')) : Unrefused es :=
  ⟨fun index hmem => h.1 index (List.mem_append_left _ hmem), fun x hmem => h.2 x (List.mem_append_left _ hmem)⟩

/-- The promises handed in by `calls` have been set, or are the ones in `taken`, or are held; and the reads leave the queue
in its order. -/
structure Booked (calls taken : List Nat) (es : List Event) (reads : ReadState) (nextRpcId : Nat) : Prop where
  promises : (readResults es ++ taken ++ reads.promises).Perm calls
  order : (activatedReads es ++ reads.pendingReadIndexes.map PendingReadIndex.requestId).Sublist (queuedReads es)
  increasing : (queuedReads es).Pairwise (· < ·)
  numbered : ∀ requestId ∈ queuedReads es, requestId < nextRpcId

/-- The active read is one of a leader, in its term. -/
def RaftNode.Led (s : RaftNode) : Prop :=
  ∀ read, s.activeReadIndex = some read → s.role = .leader ∧ read.term = s.currentTerm

/-- The books while the slot may be empty and the queue not. -/
def Opened (calls : List Nat) (es : List Event) (s : RaftNode) : Prop :=
  Booked calls [] es s.toReadState s.nextRpcId ∧ s.Led

def Disciplined (calls : List Nat) (es : List Event) (s : RaftNode) : Prop :=
  Opened calls es s ∧ (s.pendingReadIndexes ≠ [] → s.activeReadIndex ≠ none)

section Books

variable {calls taken : List Nat} {es : List Event} {reads : ReadState} {next : Nat}

theorem filterMap_concat {α β : Type} (f : α → Option β) (xs : List α) (x : α) :
    (xs ++ [x]).filterMap f = xs.filterMap f ++ (f x).toList := by
  rw [List.filterMap_append]
  cases hx : f x <;> simp [hx]

theorem readResults_concat (es : List Event) (e : Event) :
    readResults (es ++ [e]) = readResults es ++ e.settled.toList := filterMap_concat ..

theorem queuedReads_concat (es : List Event) (e : Event) :
    queuedReads (es ++ [e]) = queuedReads es ++ e.queued.toList := filterMap_concat ..

theorem activatedReads_concat (es : List Event) (e : Event) :
    activatedReads (es ++ [e]) = activatedReads es ++ e.activated.toList := filterMap_concat ..

theorem Booked.mono {next' : Nat} (h : Booked calls taken es reads next) (hle : next ≤ next') :
    Booked calls taken es reads next' :=
  { h with numbered := fun id hmem => (h.numbered id hmem).trans_le hle }

/-- Events that are not about reads are not in the books. -/
theorem Booked.silent {more : List Event} (h : Booked calls taken es reads next) (hmore : ∀ e ∈ more, e.ofReads = false) :
    Booked calls taken (es ++ more) reads next := by
  have hnone : ∀ f : Event → Option Nat, (∀ e, e.ofReads = false → f e = none) →
      (es ++ more).filterMap f = es.filterMap f := by
    intro f hf
    rw [List.filterMap_append, List.filterMap_eq_nil_iff.mpr fun e he => hf e (hmore e he), List.append_nil]
  have hresults : readResults (es ++ more) = readResults es := hnone _ fun e he => by cases e <;> first | rfl | cases he
  have hqueued : queuedReads (es ++ more) = queuedReads es := hnone _ fun e he => by cases e <;> first | rfl | cases he
  have hactivated : activatedReads (es ++ more) = activatedReads es :=
    hnone _ fun e he => by cases e <;> first | rfl | cases he
  exact ⟨hresults ▸ h.promises, by rw [hqueued, hactivated]; exact h.order, hqueued ▸ h.increasing,
    hqueued ▸ h.numbered⟩

/-- A promise is set. -/
theorem Booked.settle {result : Nat} (h : Booked calls (result :: taken) es reads next) (value : Bool) (node : RaftNode) :
    Booked calls taken (es ++ [.readResult result value node]) reads next := by
  have hqueued : queuedReads (es ++ [.readResult result value node]) = queuedReads es :=
    (queuedReads_concat ..).trans (List.append_nil _)
  have hactivated : activatedReads (es ++ [.readResult result value node]) = activatedReads es :=
    (activatedReads_concat ..).trans (List.append_nil _)
  refine ⟨?_, by rw [hqueued, hactivated]; exact h.order, hqueued ▸ h.increasing, hqueued ▸ h.numbered⟩
  rw [readResults_concat]
  exact List.append_cons .. ▸ h.promises

/-- A promise that was never held is handed in. -/
theorem Booked.handIn (h : Booked calls taken es reads next) (result : Nat) :
    Booked (calls ++ [result]) (result :: taken) es reads next := by
  refine ⟨?_, h.order, h.increasing, h.numbered⟩
  rw [List.append_assoc, List.cons_append]
  refine List.perm_middle.trans (.trans ?_ (List.perm_append_singleton result calls).symm)
  exact List.append_assoc .. ▸ h.promises.cons result

/-- The active read leaves its slot. -/
theorem Booked.takeActive {read : PendingReadIndex} (h : Booked calls taken es reads next)
    (hactive : reads.activeReadIndex = some read) :
    Booked calls (read.result :: taken) es { reads with activeReadIndex := none } next := by
  refine ⟨.trans ?_ h.promises, h.order, h.increasing, h.numbered⟩
  unfold ReadState.promises
  rw [hactive, List.append_assoc, List.append_assoc]
  exact List.Perm.append_left _ List.perm_middle.symm

/-- The first read of the queue leaves it. -/
theorem Booked.takePending {read : PendingReadIndex} {rest : List PendingReadIndex} (h : Booked calls taken es reads next)
    (hactive : reads.activeReadIndex = none) (hpending : reads.pendingReadIndexes = read :: rest) :
    Booked calls (read.result :: taken) es { reads with pendingReadIndexes := rest } next := by
  refine ⟨.trans ?_ h.promises, .trans ?_ h.order, h.increasing, h.numbered⟩
  · unfold ReadState.promises
    rw [hactive, hpending, List.append_assoc, List.append_assoc]
    exact List.Perm.append_left _ List.perm_middle.symm
  · rw [hpending]
    exact List.Sublist.append_left (List.sublist_cons_self _ _) _

/-- A read is queued under the next id. -/
theorem Booked.enqueue (h : Booked calls [] es reads next) (result : Nat) :
    Booked (calls ++ [result]) [] (es ++ [.queueRead result next])
      { reads with pendingReadIndexes := reads.pendingReadIndexes ++ [⟨next, 0, 0, ∅, result⟩] } (next + 1) := by
  refine ⟨?_, ?_, ?_, ?_⟩
  · rw [readResults_concat]
    simpa [ReadState.promises, Event.settled] using h.promises.append_right [result]
  · rw [queuedReads_concat, activatedReads_concat]
    simpa [Event.activated, Event.queued] using h.order.append (List.Sublist.refl [next])
  · rw [queuedReads_concat]
    refine List.pairwise_append.mpr ⟨h.increasing, List.pairwise_singleton .., fun id hid id' hid' => ?_⟩
    exact List.mem_singleton.mp hid' ▸ h.numbered id hid
  · rw [queuedReads_concat]
    intro id hid
    rcases List.mem_append.mp hid with hold | hnew
    · exact Nat.lt_succ_of_lt (h.numbered id hold)
    · exact List.mem_singleton.mp hnew ▸ Nat.lt_succ_self _

/-- The first read of the queue becomes the active one. -/
theorem Booked.activate {read active : PendingReadIndex} {rest : List PendingReadIndex} {node : RaftNode}
    (h : Booked calls [] es reads next) (hactive : reads.activeReadIndex = none)
    (hpending : reads.pendingReadIndexes = read :: rest) (hid : active.requestId = read.requestId)
    (hresult : active.result = read.result) (hnode : node.activeReadIndex = some active) :
    Booked calls [] (es ++ [.activateRead node]) ⟨rest, some active⟩ next := by
  have hqueued : queuedReads (es ++ [.activateRead node]) = queuedReads es :=
    (queuedReads_concat ..).trans (List.append_nil _)
  refine ⟨?_, ?_, hqueued ▸ h.increasing, hqueued ▸ h.numbered⟩
  · rw [readResults_concat]
    simpa [ReadState.promises, Event.settled, hactive, hpending, hresult] using h.promises
  · rw [hqueued, activatedReads_concat]
    simpa [Event.activated, hnode, hid, hpending] using h.order

/-- An acknowledgement of the active read. -/
theorem Booked.acknowledge {read : PendingReadIndex} (h : Booked calls taken es reads next)
    (hactive : reads.activeReadIndex = some read) (acknowledgements : Finset Int) :
    Booked calls taken es
      { reads with activeReadIndex := some { read with acknowledgements := acknowledgements } } next := by
  refine ⟨?_, h.order, h.increasing, h.numbered⟩
  have hpromises := h.promises
  unfold ReadState.promises at hpromises ⊢
  rwa [hactive] at hpromises

end Books

/-! ### Functions -/

/-- What is known of a node whose store does not fail, as long as no call of `ApplyCommitted` throws. -/
def Sound (P : List Event → RaftNode → Prop) (es : List Event) (s : RaftNode) : Prop :=
  s.store.faults = [] ∧ (Unrefused es → P es s)

section Functions

open NodeM Prog

variable {calls taken : List Nat} {es : List Event} {s : RaftNode} {P : List Event → RaftNode → Prop}

theorem Sound.imp {P' : List Event → RaftNode → Prop} (h : Sound P es s) (himp : P es s → P' es s) : Sound P' es s :=
  ⟨h.1, fun hfine => himp (h.2 hfine)⟩

/-- The functions that leave the reads alone keep what does not depend on anything else. -/
theorem Sound.aside {es' : List Event} {s' : RaftNode} (h : Sound P es s) (haside : Aside es s es' s')
    (hclosed : P es s → P es' s') : Sound P es' s' := by
  obtain ⟨-, -, -, -, hfaults, more, rfl, -⟩ := haside
  exact ⟨hfaults h.1, fun hfine => hclosed (h.2 hfine.of_append)⟩

theorem Booked.aside {es' : List Event} {s' : RaftNode} (h : Booked calls taken es s.toReadState s.nextRpcId)
    (haside : Aside es s es' s') : Booked calls taken es' s'.toReadState s'.nextRpcId := by
  obtain ⟨hreads, -, -, hid, -, more, rfl, hmore⟩ := haside
  exact hreads ▸ (h.silent hmore).mono hid

theorem Opened.aside {es' : List Event} {s' : RaftNode} (h : Opened calls es s) (haside : Aside es s es' s') :
    Opened calls es' s' := by
  refine ⟨h.1.aside haside, fun read hread => ?_⟩
  obtain ⟨hreads, hrole, hterm, -⟩ := haside
  rw [hrole, hterm]
  exact h.2 read (congrArg ReadState.activeReadIndex hreads ▸ hread)

theorem Disciplined.aside {es' : List Event} {s' : RaftNode} (h : Disciplined calls es s) (haside : Aside es s es' s') :
    Disciplined calls es' s' := by
  refine ⟨h.1.aside haside, fun hpending => ?_⟩
  obtain ⟨hreads, -⟩ := haside
  rw [congrArg ReadState.pendingReadIndexes hreads] at hpending
  exact congrArg ReadState.activeReadIndex hreads ▸ h.2 hpending

theorem keeps_of_aside {α : Type} {m : NodeM α} (h : ∀ {es₀ s₀}, Keeps (Aside es₀ s₀) m) :
    Keeps (Sound (Disciplined calls)) m := fun es s hs =>
  (h es s (.refl es s)).weaken (fun _ _ _ haside => hs.aside haside fun hd => hd.aside haside)
    fun _ _ haside => hs.aside haside fun hd => hd.aside haside

/-- Without reads the role and the term do not matter. -/
theorem Booked.disciplined (h : Booked calls [] es s.toReadState s.nextRpcId) (hactive : s.activeReadIndex = none)
    (hpending : s.pendingReadIndexes = []) : Disciplined calls es s :=
  ⟨⟨h, fun _ hread => nomatch hactive.symm.trans hread⟩, fun hne => absurd hpending hne⟩

/-! #### Failing what waits -/

/-- The books of a node, whatever its role and term. -/
def Kept (calls taken : List Nat) : List Event → RaftNode → Prop :=
  Sound fun es s => Booked calls taken es s.toReadState s.nextRpcId

theorem ends_failActiveReadIndex {E : List Event → RaftNode → Prop} (h : Kept calls [] es s) :
    Ends failActiveReadIndex (fun _ es' s' => Kept calls [] es' s' ∧ s'.activeReadIndex = none) E es s := by
  refine .get ?_
  cases hactive : s.activeReadIndex with
  | none => exact .ret ⟨h, hactive⟩
  | some active =>
    refine .bind (.emitState rfl (.modify ⟨⟨h.1, fun hfine => ?_⟩, rfl⟩))
    exact ((h.2 hfine.of_append).takeActive hactive).settle _ _

theorem ends_failPendingReadIndexes {E : List Event → RaftNode → Prop} (h : Kept calls [] es s) :
    Ends failPendingReadIndexes (fun _ es' s' => Sound (Disciplined calls) es' s' ∧ s'.activeReadIndex = none ∧
      s'.pendingReadIndexes = []) E es s := by
  have htimer : Kept calls [] es { s with readIndexTimer := none } := h
  refine .bind (.modify (.bind ((ends_failActiveReadIndex htimer).post ?_)))
  rintro _ es' s' ⟨hs, hnone⟩
  -- the loop is over the queue as it was, and takes each read from its front
  refine .get ((Follows.forEach (I := fun rest es s => Kept calls [] es s ∧ s.activeReadIndex = none ∧
    s.pendingReadIndexes = rest) ⟨hs, hnone, rfl⟩ ?_).post ?_)
  · rintro read rest es s ⟨hs, hnone, hpending⟩
    refine .bind (.emitState rfl (.modify ⟨⟨hs.1, fun hfine => ?_⟩, hnone, ?_⟩))
    · have htaken := ((hs.2 hfine.of_append).takePending hnone hpending).settle false s
      rwa [show rest = s.pendingReadIndexes.tail by rw [hpending, List.tail_cons]] at htaken
    · exact congrArg List.tail hpending
  · rintro _ es s ⟨hs, hnone, hpending⟩
    exact ⟨hs.imp fun hb => hb.disciplined hnone hpending, hnone, hpending⟩

/-- The slot and the queue are emptied before anybody can look at the new role and term, for the write does not fail. -/
theorem keeps_stepDown_reads (term : Nat) : Keeps (Sound (Disciplined calls)) (stepDown term) := by
  intro es s h
  have hrest : ∀ es s, Kept calls [] es s → Ends (do
      Prog.modify fun node =>
        { node with
          heartbeatTimer := if node.role = .leader then false else node.heartbeatTimer
          role := .follower
          leader := false }
      failPendingReadIndexes
      resetElectionTimer) (fun _ => Sound (Disciplined calls)) (Sound (Disciplined calls)) es s := by
    intro es s hs
    refine .bind (.modify (.bind (Follows.post (ends_failPendingReadIndexes ?_) fun _ _ _ hs' => .modify hs'.1)))
    exact hs
  refine .get (.bind (.when (fun _ => ?_) fun _ => hrest es s (h.imp fun hd => hd.1.1)))
  refine .bind (.modify (.get (follows_writeAtomically h.1 rfl (hrest _ _ ⟨rfl, fun hfine => ?_⟩))))
  exact (h.2 hfine.of_append).1.1.silent (by simp [Event.ofReads])

/-! #### What makes `ApplyCommitted` throw -/

variable [Protobuf]

omit [Protobuf] in
theorem not_unrefused_apply (es : List Event) (logIndex : Nat) : ¬ Unrefused (es ++ [.refuseApply logIndex]) := fun h =>
  h.1 logIndex (List.mem_append_right _ (List.mem_singleton_self _))

omit [Protobuf] in
theorem not_unrefused_index (es : List Event) (x : Exn) : ¬ Unrefused (es ++ [.refuseIndex x]) := fun h =>
  h.2 x (List.mem_append_right _ (List.mem_singleton_self _))

theorem ends_applyEntries_refused (remaining : Nat) (hfaults : s.store.faults = []) :
    Ends (applyEntries remaining) (fun _ _ s' => s'.store.faults = []) (fun es' _ => ¬ Unrefused es') es s := by
  induction remaining generalizing es s with
  | zero => exact .ret hfaults
  | succ remaining ih =>
    refine .get ?_
    rcases s.entryAt (s.lastApplied + 1) with x | entry
    · exact .bind (.emit rfl (.throw (not_unrefused_index _ _)))
    dsimp only
    cases Protobuf.command.parse entry.command with
    | none => exact .bind (.emit rfl (.throw (not_unrefused_apply _ _)))
    | some command =>
      refine .bind (.emit rfl (.bind (.get ?_)))
      cases CommandApplier.applyAtomically s.store command (s.lastApplied + 1) s.commitIndex with
      | error x => exact .bind (.emit rfl (.throw (not_unrefused_apply _ _)))
      | ok batch => exact follows_writeAtomically hfaults rfl (.bind (.modify (ih rfl)))

theorem ends_createSnapshotIfNeeded_refused (hfaults : s.store.faults = []) :
    Ends createSnapshotIfNeeded (fun _ _ _ => True) (fun es' _ => ¬ Unrefused es') es s := by
  refine .get (.ite (fun _ => .ret trivial) fun _ => .bind (.modify (.bind (.attempt (.get ?_)))))
  refine .bind (.when (fun _ => ?_) fun _ => .bind (.when (fun _ => ?_) fun _ => ?_))
  · exact .bind (.emit rfl (.throw fun x => .bind (.modify (.throw (not_unrefused_index _ _)))))
  · exact .bind (.emit rfl (.throw fun x => .bind (.modify (.throw (not_unrefused_index _ _)))))
  · exact .bind (follows_writeAtomically hfaults rfl (.modify (.modify trivial)))

/-- On a store that does not fail, only a command or an index does. -/
theorem ends_applyCommitted_refused (hfaults : s.store.faults = []) :
    Ends applyCommitted (fun _ _ _ => True) (fun es' _ => ¬ Unrefused es') es s := by
  refine .bind (.modify (.get (.bind (Follows.post (ends_applyEntries_refused _ ?_) fun _ es s hfaults => ?_))))
  · exact hfaults
  · refine .bind (.get (follows_writeAtomically hfaults rfl (.bind ?_)))
    exact (ends_createSnapshotIfNeeded_refused rfl).post fun _ _ _ _ => .emitState rfl trivial

/-! #### Finishing a read and starting the next -/

/-- The promise that is taken is set, unless `ApplyCommitted` throws. -/
theorem ends_answerRead {active : PendingReadIndex} {success : Bool} (h : Kept calls [active.result] es s) :
    Ends (answerRead active success)
      (fun _ es' s' => Kept calls [] es' s' ∧ s'.toReadState = s.toReadState) (Sound (Disciplined calls)) es s := by
  refine .get (.ite (fun _ => .bind ?_) fun _ => .emitState rfl ⟨⟨h.1, fun hfine => ?_⟩, rfl⟩)
  · refine ((aside_applyCommitted es s (.refl es s)).and (ends_applyCommitted_refused h.1)).weaken ?_ ?_
    · rintro _ es' s' ⟨haside, -⟩
      have hkept : Kept calls [active.result] es' s' := Sound.aside h haside fun hb => hb.aside haside
      refine .get (.emitState rfl ⟨⟨hkept.1, fun hfine => ?_⟩, haside.1⟩)
      exact (hkept.2 hfine.of_append).settle _ _
    · rintro es' s' ⟨haside, hrefused⟩
      exact ⟨haside.2.2.2.2.1 h.1, fun hfine => absurd hfine hrefused⟩
  · exact (h.2 hfine.of_append).settle _ _

/-- `FinishReadIndex` when a read is active, the queue being shorter than `bound`. -/
theorem ends_finishReadIndexThen {startNext : NodeM Unit} {success : Bool} {active : PendingReadIndex} {bound : Nat}
    (hnext : ∀ es s, Sound (Opened calls) es s → s.pendingReadIndexes.length < bound →
      Ends startNext (fun _ => Sound (Disciplined calls)) (Sound (Disciplined calls)) es s)
    (h : Kept calls [] es s) (hactive : s.activeReadIndex = some active) (hbound : s.pendingReadIndexes.length < bound) :
    Ends (finishReadIndexThen startNext success) (fun _ => Sound (Disciplined calls)) (Sound (Disciplined calls)) es s := by
  refine .get ?_
  rw [hactive]
  have htaken : Kept calls [active.result] es { s with readIndexTimer := none, activeReadIndex := none } :=
    ⟨h.1, fun hfine => (h.2 hfine).takeActive hactive⟩
  refine .bind (.modify (.bind ((ends_answerRead htaken).post ?_)))
  rintro _ es' s' ⟨hkept, hreads⟩
  refine hnext es' s' (hkept.imp fun hb => ⟨hb, fun read hread => ?_⟩) ?_
  · exact nomatch (congrArg ReadState.activeReadIndex hreads).symm.trans hread
  · rw [congrArg ReadState.pendingReadIndexes hreads]
    exact hbound

theorem ends_startNextReadIndexBounded (fuel : Nat) (h : Sound (Opened calls) es s)
    (hfuel : s.pendingReadIndexes.length < fuel) :
    Ends (startNextReadIndexBounded fuel) (fun _ => Sound (Disciplined calls)) (Sound (Disciplined calls)) es s := by
  induction fuel generalizing es s with
  | zero => exact absurd hfuel (Nat.not_lt_zero _)
  | succ fuel ih =>
    refine .get (.ite (fun hstop => .ret (h.imp fun hopened => ⟨hopened, fun hne => ?_⟩)) fun hgo =>
      .ite (fun _ => ?_) fun hleads => ?_)
    · exact Option.isSome_iff_ne_none.mp (hstop.resolve_right hne)
    · exact (ends_failPendingReadIndexes (h.imp And.left)).post fun _ _ _ hs => hs.1
    have hactive : s.activeReadIndex = none := by
      rw [← Option.not_isSome_iff_eq_none]
      exact fun hsome => hgo (.inl hsome)
    obtain ⟨read, rest, hpending⟩ := List.exists_cons_of_ne_nil fun hnil => hgo (.inr hnil)
    -- the read becomes active in the term of the leader
    obtain ⟨active, hid, hresult, hterm, hactivated⟩ : ∃ active : PendingReadIndex, active.requestId = read.requestId ∧
        active.result = read.result ∧ active.term = s.currentTerm ∧
        activateNext s = { s with pendingReadIndexes := rest, activeReadIndex := some active } := by
      unfold activateNext
      rw [hpending]
      exact ⟨{ read with term := s.currentTerm, readIndex := s.commitIndex, acknowledgements := {s.serverId} },
        rfl, rfl, rfl, rfl⟩
    have hrole : s.role = .leader := by
      by_contra hno
      exact hleads (.inl hno)
    refine .bind (.modify (.bind (.emitState rfl ?_)))
    rw [hactivated]
    have hopened : Sound (Opened calls)
        (es ++ [.activateRead { s with pendingReadIndexes := rest, activeReadIndex := some active }])
        { s with pendingReadIndexes := rest, activeReadIndex := some active } := by
      refine ⟨h.1, fun hfine => ⟨(h.2 hfine.of_append).1.activate hactive hpending hid hresult rfl, fun read hread => ?_⟩⟩
      obtain rfl := Option.some.inj hread
      exact ⟨hrole, hterm⟩
    refine .ite (fun _ => ?_) fun _ => ?_
    · refine ends_finishReadIndexThen (fun es s => ih) (hopened.imp And.left) rfl ?_
      rw [hpending] at hfuel
      exact Nat.lt_of_succ_lt_succ hfuel
    · refine .bind ((keeps_of_aside aside_sendReadIndexProbes _ _ ?_).post fun _ es' s' hs => .modify hs)
      exact hopened.imp fun hopened => ⟨hopened, fun _ => nofun⟩

theorem ends_startNextReadIndex (h : Sound (Opened calls) es s) :
    Ends startNextReadIndex (fun _ => Sound (Disciplined calls)) (Sound (Disciplined calls)) es s :=
  .get (ends_startNextReadIndexBounded _ h (Nat.lt_succ_self _))

theorem keeps_finishReadIndex_reads (success : Bool) : Keeps (Sound (Disciplined calls)) (finishReadIndex success) := by
  intro es s h
  cases hactive : s.activeReadIndex with
  | none =>
    refine .get ?_
    rw [hactive]
    exact .ret h
  | some active =>
    exact ends_finishReadIndexThen (fun _ _ hs _ => ends_startNextReadIndex hs) (h.imp fun hd => hd.1.1) hactive
      (Nat.lt_succ_self _)

theorem keeps_handleReadIndexResponse_reads (connection : Conn) (response : Proto.ReadIndexResponse) (requestId : Nat) :
    Keeps (Sound (Disciplined calls)) (handleReadIndexResponse connection response requestId) := by
  intro es s h
  refine .get (.ite (fun _ => keeps_stepDown_reads _ es s h) fun _ => ?_)
  cases hactive : s.activeReadIndex with
  | none => exact .ret h
  | some active =>
    refine .ite (fun _ => .ret h) fun _ => ?_
    have hacknowledged : ∀ acknowledgements : Finset Int, Sound (Disciplined calls) es
        { s with activeReadIndex := some { active with acknowledgements := acknowledgements } } := by
      intro acknowledgements
      refine ⟨h.1, fun hfine => ⟨⟨(h.2 hfine).1.1.acknowledge hactive _, fun read hread => ?_⟩, fun _ => nofun⟩⟩
      obtain rfl := Option.some.inj hread
      exact (h.2 hfine).1.2 active hactive
    exact .bind (.modify (.when (fun _ => keeps_finishReadIndex_reads true _ _ (hacknowledged _)) fun _ =>
      hacknowledged _))

/-- A call of `ReadIndex`: its promise is set at once, or the read is queued. -/
theorem ends_readIndex (result : Nat) (h : Sound (Disciplined calls) es s) :
    Ends (readIndex result) (fun _ => Sound (Disciplined (calls ++ [result]))) (Sound (Disciplined (calls ++ [result])))
      es s := by
  refine .get (.ite (fun _ => .emitState rfl ⟨h.1, fun hfine => ?_⟩) fun _ => ?_)
  · obtain ⟨⟨hbooked, hled⟩, hwaiting⟩ := h.2 hfine.of_append
    exact ⟨⟨(hbooked.handIn result).settle _ _, hled⟩, hwaiting⟩
  · refine .bind (.modify (.bind (.emit rfl (ends_startNextReadIndex ⟨h.1, fun hfine => ?_⟩))))
    obtain ⟨⟨hbooked, hled⟩, -⟩ := h.2 hfine.of_append
    exact ⟨hbooked.enqueue result, hled⟩

/-! #### Roles -/

/-- A node without reads. -/
def Quiet (calls : List Nat) : List Event → RaftNode → Prop := Sound fun es s =>
  Booked calls [] es s.toReadState s.nextRpcId ∧ s.activeReadIndex = none ∧ s.pendingReadIndexes = []

omit [Protobuf] in
theorem Quiet.disciplined (h : Quiet calls es s) : Sound (Disciplined calls) es s :=
  h.imp fun hquiet => hquiet.1.disciplined hquiet.2.1 hquiet.2.2

omit [Protobuf] in
/-- Only a leader has reads. -/
theorem Quiet.of_role (h : Sound (Disciplined calls) es s) (hrole : s.role ≠ .leader) : Quiet calls es s := by
  refine h.imp fun hd => ?_
  have hactive : s.activeReadIndex = none := by
    by_contra hne
    obtain ⟨read, hread⟩ := Option.ne_none_iff_exists'.mp hne
    exact hrole (hd.1.2 read hread).1
  refine ⟨hd.1.1, hactive, ?_⟩
  by_contra hne
  exact hd.2 hne hactive

omit [Protobuf] in
theorem Quiet.aside {es' : List Event} {s' : RaftNode} (h : Quiet calls es s) (haside : Aside es s es' s') :
    Quiet calls es' s' := by
  refine Sound.aside h haside fun hquiet => ⟨hquiet.1.aside haside, ?_, ?_⟩
  · exact (congrArg ReadState.activeReadIndex haside.1).trans hquiet.2.1
  · exact (congrArg ReadState.pendingReadIndexes haside.1).trans hquiet.2.2

omit [Protobuf] in
theorem keeps_quiet_of_aside {α : Type} {m : NodeM α} (h : ∀ {es₀ s₀}, Keeps (Aside es₀ s₀) m) :
    Keeps (Quiet calls) m := fun es s hs =>
  (h es s (.refl es s)).weaken (fun _ _ _ => hs.aside) fun _ _ => hs.aside

theorem keeps_becomeLeader_reads : Keeps (Quiet calls) becomeLeader :=
  .bind (.modify fun _ _ h => h) fun _ => .bind (.emitState fun _ _ h => h.aside ((Aside.refl _ _).emit rfl)) fun _ =>
    keeps_quiet_of_aside aside_sendHeartbeats

theorem keeps_becomeCandidate_reads : Keeps (Quiet calls) becomeCandidate :=
  .bind (.modify fun _ _ h => h) fun _ => .bind (keeps_quiet_of_aside aside_persistState) fun _ =>
    .bind (.modify fun _ _ h => h) fun _ =>
      .bind (.get fun _ => .forEach fun _ => keeps_quiet_of_aside (aside_sendRequestVoteToPeer _)) fun _ =>
        .get fun _ => .when keeps_becomeLeader_reads

omit [Protobuf] in
/-- What a node without reads does is done by any node that is not a leader. -/
theorem Keeps.of_quiet {α : Type} {m : NodeM α} (h : Keeps (Quiet calls) m) (hs : Sound (Disciplined calls) es s)
    (hrole : s.role ≠ .leader) : Ends m (fun _ => Sound (Disciplined calls)) (Sound (Disciplined calls)) es s :=
  (h es s (.of_role hs hrole)).weaken (fun _ _ _ hs => hs.disciplined) fun _ _ hs => hs.disciplined

/-! #### Handlers -/

omit [Protobuf] in
theorem keeps_followLeader_reads (term : Nat) : Keeps (Sound (Disciplined calls)) (followLeader term) :=
  .get fun _ => .bind (.when (keeps_stepDown_reads _)) fun _ => .modify fun _ _ h => h

theorem keeps_handleRequestVoteResponse_reads (connection : Conn) (response : Proto.RequestVoteResponse)
    (requestId : Nat) : Keeps (Sound (Disciplined calls)) (handleRequestVoteResponse connection response requestId) := by
  intro es s h
  refine .get (.ite (fun _ => keeps_stepDown_reads _ es s h) fun _ => .ite (fun _ => .ret h) fun hcounts => ?_)
  have hrole : s.role ≠ .leader := by
    intro hleader
    exact hcounts (.inl (by rw [hleader]; exact nofun))
  exact .bind (.modify (.when (fun _ => Keeps.of_quiet keeps_becomeLeader_reads h hrole) fun _ => h))

omit [Protobuf] in
theorem Sound.voted (h : Sound (Disciplined calls) es s) (candidate : Int) :
    Sound (Disciplined calls) es { s with votedFor := candidate } := h

theorem keeps_dispatch_reads (connection : Conn) (rpc : Proto.RaftRpc) :
    Keeps (Sound (Disciplined calls)) (dispatch connection rpc) := by
  have hsend : ∀ payload id, Keeps (Sound (Disciplined calls)) (do let _ ← sendRpc (some connection) payload id) :=
    fun _ _ => .bind (keeps_of_aside (aside_sendRpc _ _ _)) fun _ => .ret
  unfold dispatch
  split
  · exact .get fun _ => .when (keeps_of_aside (aside_sendAppend _))
  · exact .get fun _ => .bind (.when (keeps_stepDown_reads _)) fun _ => .get fun _ => .bind (.when
      (.bind (.modify fun _ _ h => h.voted _) fun _ => .bind (keeps_of_aside aside_persistState) fun _ =>
        keeps_of_aside aside_resetElectionTimer)) fun _ => hsend _ _
  · exact keeps_handleRequestVoteResponse_reads _ _ _
  · exact .get fun _ => .ite (hsend _ _) (.bind (keeps_followLeader_reads _) fun _ =>
      .bind (keeps_of_aside (aside_acceptEntries _)) fun _ => .get fun _ => hsend _ _)
  · exact .get fun _ => .ite (keeps_stepDown_reads _) (.ite .ret (.bind (keeps_of_aside (aside_resetPeerRpcState _ _))
      fun _ => .ite (.bind (.modify fun _ _ h => h) fun _ => .bind (keeps_of_aside aside_tryAdvanceCommit) fun _ =>
        .get fun _ => .when (keeps_of_aside (aside_sendAppend _))) (.bind (keeps_of_aside (aside_touchNextIndex _))
          fun _ => .bind (.when (.modify fun _ _ h => h)) fun _ => keeps_of_aside (aside_sendAppend _))))
  · exact .get fun _ => .ite (hsend _ _) (.bind (keeps_followLeader_reads _) fun _ =>
      .bind (keeps_of_aside (aside_acceptSnapshot _)) fun _ => .get fun _ => hsend _ _)
  · exact .get fun _ => .ite (keeps_stepDown_reads _) (.ite .ret (.bind (keeps_of_aside (aside_resetPeerRpcState _ _))
      fun _ => .ite (keeps_of_aside (aside_resumeSnapshot _ _)) (.ite (keeps_of_aside (aside_resumeSnapshot _ _))
        (.ite (keeps_of_aside (aside_resumeSnapshot _ _)) (.bind (.modify fun _ _ h => h) fun _ =>
          .bind (keeps_of_aside (.emitState fun _ _ h => h.emit rfl)) fun _ => keeps_of_aside (aside_sendAppend _))))))
  · exact .get fun _ => .ite (hsend _ _) (.bind (keeps_followLeader_reads _) fun _ => .get fun _ => hsend _ _)
  · exact keeps_handleReadIndexResponse_reads _ _ _
  · exact keeps_of_aside (aside_shutdown _)

/-- Every function but the one that hands a promise in. -/
theorem keeps_program_reads (server : Int) {action : LoopAction} (hstart : action ≠ .start)
    (hread : ∀ result, action ≠ .readIndex result) :
    Keeps (Sound (Disciplined calls)) (Cluster.program server action) := by
  cases action with
  | start => exact absurd rfl hstart
  | stop =>
    intro es s h
    refine .bind (.modify (.bind (.modify (.bind (Follows.post (ends_failPendingReadIndexes ?_) fun _ es' s' hs' =>
      .modify hs'.1)))))
    exact ⟨h.1, fun hfine => (h.2 hfine).1.1⟩
  | electionTimeout =>
    intro es s h
    exact .bind (.modify (.get (.when (fun hdue => Keeps.of_quiet keeps_becomeCandidate_reads h hdue.1) fun _ => h)))
  | heartbeatTimeout => exact .bind (.modify fun _ _ h => h) fun _ => keeps_of_aside aside_sendHeartbeats
  | rpcTimeout timeout => exact keeps_of_aside (aside_rpcTimeout timeout)
  | readTimeout requestId =>
    exact .bind (.modify fun _ _ h => h) fun _ => .get fun _ => .when (keeps_finishReadIndex_reads false)
  | commitPoll poll => exact .bind (.modify fun _ _ h => h) fun _ => keeps_of_aside (aside_waitForCommit poll)
  | connect peer serial => exact keeps_of_aside (aside_onPeerConnected peer _)
  | accept connection => exact .ret
  | disconnect connection =>
    exact .ite (keeps_of_aside (aside_onPeerDisconnected _ _)) (keeps_of_aside (aside_handleConnection connection))
  | receive connection rpc =>
    exact .attempt (.bind (keeps_of_aside (aside_registerSender connection rpc.senderId)) fun _ =>
      .when (keeps_dispatch_reads connection rpc)) fun _ => keeps_of_aside (aside_shutdown connection)
  | submit call => exact keeps_of_aside (aside_submit call)
  | readIndex result => exact absurd rfl (hread result)

theorem keeps_startInLoop_reads : Keeps (Quiet calls) startInLoop :=
  .bind (.modify fun _ _ h => h) fun _ => .bind (.get fun _ => .bind .ofExcept fun _ =>
    .bind (.emit fun _ _ h => h.aside ((Aside.refl _ _).emit rfl)) fun _ => .bind (.modify fun _ _ h => h) fun _ =>
      keeps_quiet_of_aside aside_applyCommitted) fun _ => .bind (.modify fun _ _ h => h) fun _ => .modify fun _ _ h => h

end Functions

/-! ### Sessions -/

/-- The effects of a session. -/
def effects (past : List Moment) : List Event :=
  past.filterMap fun
    | .effect event => some event
    | .call _ => none

/-- The promises that calls of `ReadIndex` have handed in. -/
def readCalls (past : List Moment) : List Nat :=
  past.filterMap fun
    | .call (.readIndex result) => some result
    | _ => none

section Statement

variable [Protobuf] {config : Config} {server : Int} {node : RaftNode} {past : List Moment}

omit [Protobuf] in
theorem effects_after (past : List Moment) (action : LoopAction) (events : List Event) :
    effects (past ++ .call action :: events.map .effect) = effects past ++ events := by
  simp [effects, List.filterMap_map]

omit [Protobuf] in
theorem readCalls_after (past : List Moment) (action : LoopAction) (events : List Event) :
    readCalls (past ++ .call action :: events.map .effect) = readCalls past ++ readCalls [.call action] := by
  rw [List.append_cons, readCalls, List.filterMap_append, List.filterMap_append, List.filterMap_map]
  simp [readCalls]

omit [Protobuf] in
/-- The same holds where a program has ended, however it has. -/
theorem run_of_ends {α : Type} {m : NodeM α} {P : List Event → RaftNode → Prop} {es events : List Event} {s s' : RaftNode}
    {result : Except Exn α} (h : Prog.Ends m (fun _ => P) P es s) (hrun : m s = (result, s', events)) :
    P (es ++ events) s' := by
  have hend := h.run
  rw [hrun] at hend
  cases result <;> exact hend

theorem Session.disciplined (h : Session config server node past) :
    Sound (Disciplined (readCalls past)) (effects past) node := by
  induction h with
  | @start store node events hfaults hrun =>
    have hquiet : Quiet [] [] (RaftNode.create server config.peers store) :=
      ⟨hfaults, fun _ => ⟨⟨.refl _, .slnil, .nil, by simp [queuedReads]⟩, rfl, rfl⟩⟩
    have hstarted := run_of_ends (keeps_startInLoop_reads _ _ hquiet) hrun
    rw [← List.nil_append (Moment.call .start :: events.map Moment.effect), effects_after, readCalls_after]
    exact hstarted.disciplined
  | @run node node' past action result events _ hstart hrun ih =>
    have hprepared : Sound (Disciplined (readCalls past)) (effects past) (Cluster.prepare server action node) := by
      cases action <;> exact ih
    rw [effects_after, readCalls_after]
    by_cases hread : ∃ promise, action = .readIndex promise
    · obtain ⟨promise, rfl⟩ := hread
      exact run_of_ends (ends_readIndex promise hprepared) hrun
    · have hnone : readCalls [.call action] = [] := by
        cases action <;> first | rfl | exact absurd ⟨_, rfl⟩ hread
      rw [hnone, List.append_nil]
      refine run_of_ends (keeps_program_reads server hstart (fun promise heq => hread ⟨promise, heq⟩) _ _ hprepared) hrun
  | halt _ ih => exact ih

/-- Whether the moment is not an entry that cannot be applied. -/
def Moment.accepted : Moment → Bool
  | .effect (.refuseApply _) => false
  | .effect (.refuseIndex _) => false
  | _ => true

end Statement

end Nukv
