import Nukv.Proof.Ending

/-!
# Applying a log, as a fold

`applyAll` is what `ApplyCommitted` computes: the commands of a list of entries applied to a store one after the
other, up to the first that is refused. Two stores that agree on the user entries and on the records of requests refuse
the same commands and agree again after each of them, so it does not matter to the state machine where the fold was
interrupted by a snapshot. `ApplyCommitted` returns, and leaves the result of the fold, when none of the commands is
refused.
-/

namespace Nukv

open Base

variable [Protobuf]

/-! ### The fold -/

/-- The store after the entries from `index` on have been applied, if none is refused. -/
def applyAll (commitIndex : Nat) (store : RocksKVStore) (index : Nat) : List RaftLogEntry → Option RocksKVStore
  | [] => some store
  | entry :: rest =>
    match Protobuf.command.parse entry.command with
    | none => none
    | some command =>
      match CommandApplier.applyAtomically store command index commitIndex with
      | .error _ => none
      | .ok batch => applyAll commitIndex (store.written batch) (index + 1) rest

/-- The entries from `index` on can be applied to the store, one after the other. -/
def applicable (commitIndex : Nat) (store : RocksKVStore) (index : Nat) : List RaftLogEntry → Bool
  | [] => true
  | entry :: rest =>
    match Protobuf.command.parse entry.command with
    | none => false
    | some command =>
      match CommandApplier.applyAtomically store command index commitIndex with
      | .error _ => false
      | .ok batch => applicable commitIndex (store.written batch) (index + 1) rest

variable {commitIndex index : Nat} {store store' : RocksKVStore} {entries : List RaftLogEntry}

theorem applicable_eq : applicable commitIndex store index entries = (applyAll commitIndex store index entries).isSome := by
  induction entries generalizing store index with
  | nil => rfl
  | cons entry rest ih =>
    unfold applicable applyAll
    split
    · rfl
    · split
      · rfl
      · exact ih

theorem applyAll_cons_eq_some {entry : RaftLogEntry} :
    applyAll commitIndex store index (entry :: entries) = some store' ↔ ∃ command batch,
      Protobuf.command.parse entry.command = some command ∧
      CommandApplier.applyAtomically store command index commitIndex = .ok batch ∧
      applyAll commitIndex (store.written batch) (index + 1) entries = some store' := by
  rw [applyAll]
  cases Protobuf.command.parse entry.command with
  | none => simp
  | some command =>
    dsimp only
    cases hbatch : CommandApplier.applyAtomically store command index commitIndex with
    | error x => simp [hbatch]
    | ok batch => simp [hbatch]

theorem applyAll_append (more : List RaftLogEntry) : applyAll commitIndex store index (entries ++ more) =
    (applyAll commitIndex store index entries).bind fun store =>
      applyAll commitIndex store (index + entries.length) more := by
  induction entries generalizing store index with
  | nil => rfl
  | cons entry rest ih =>
    rw [List.cons_append, applyAll, applyAll]
    split
    · rfl
    · split
      · rfl
      · rw [ih, List.length_cons, Nat.add_right_comm, Nat.add_assoc]

/-- The stores have the same user entries and the same records of requests. -/
def RocksKVStore.Agrees (store store' : RocksKVStore) : Prop :=
  ∀ key, RocksKVStore.isReserved key = false ∨ startsWith clientPath key = true → store'.get key = store.get key

namespace RocksKVStore.Agrees

omit [Protobuf] in
theorem refl (store : RocksKVStore) : store.Agrees store := fun _ _ => rfl

omit [Protobuf] in
theorem trans {store'' : RocksKVStore} (h : store.Agrees store') (h' : store'.Agrees store'') : store.Agrees store'' :=
  fun key hkey => (h' key hkey).trans (h key hkey)

omit [Protobuf] in
theorem symm (h : store.Agrees store') : store'.Agrees store := fun key hkey => (h key hkey).symm

omit [Protobuf] in
theorem facing (h : store.Agrees store') (faults : List Bool) : store.Agrees (store'.facing faults) := h

omit [Protobuf] in
/-- A key of the state machine is none of the counters and none of the log. -/
theorem of_get (h : ∀ key ∉ fixedKeys, startsWith logPath key = false → store'.get key = store.get key) :
    store.Agrees store' := by
  intro key hkey
  refine h key (fun hfixed => ?_) (Bool.eq_false_iff.mpr fun hlog => ?_)
  · rcases hkey with hfree | hclient
    · exact absurd (hfree.symm.trans (isReserved_of_fixedKeys key hfixed)) (by simp)
    · exact absurd (hclient.symm.trans (not_clientPath_of_fixedKeys key hfixed)) (by simp)
  · rcases hkey with hfree | hclient
    · exact absurd (hfree.symm.trans (isReserved_of_logPath hlog)) (by simp)
    · exact absurd (hlog.symm.trans (not_logPath_of_clientPath hclient)) (by simp)

/-- The same command, with other counters. -/
theorem applied {command : Proto.Command} {batch : WriteBatch} (h : store.Agrees store')
    (hbatch : CommandApplier.applyAtomically store command index commitIndex = .ok batch) (index' commitIndex' : Nat) :
    ∃ batch', CommandApplier.applyAtomically store' command index' commitIndex' = .ok batch' ∧
      (store.written batch).Agrees (store'.written batch') := by
  have hrecord := h _ (.inr (CommandApplier.startsWith_requestKey command))
  obtain ⟨rest, deletes, rfl, hbatch'⟩ : ∃ rest deletes,
      batch = ⟨CommandApplier.progressEntries index commitIndex ++ rest, deletes⟩ ∧
      CommandApplier.applyAtomically store' command index' commitIndex' =
        .ok ⟨CommandApplier.progressEntries index' commitIndex' ++ rest, deletes⟩ := by
    have hnone : command.requestId = 0 ∨ store.get (CommandApplier.requestKey command) = none →
        (if command.requestId ≠ 0 then store'.get (CommandApplier.requestKey command) else none) = none := by
      rintro (hzero | hnone)
      · rw [if_neg (by simpa using hzero)]
      · rw [hrecord, hnone, ite_self]
    obtain ⟨hkey, ⟨hid, hsame, rfl⟩ | ⟨hfree, ⟨htype, rfl⟩ | ⟨htype, rfl⟩⟩⟩ := CommandApplier.applyAtomically_cases hbatch
    · refine ⟨[], [], by simp, ?_⟩
      simp [CommandApplier.applyAtomically, hkey, hid, hrecord, hsame]
    · refine ⟨_, _, by rw [List.append_assoc], ?_⟩
      simp [CommandApplier.applyAtomically, hkey, htype, hnone hfree]
    · refine ⟨_, _, rfl, ?_⟩
      simp [CommandApplier.applyAtomically, hkey, htype, hnone hfree]
  refine ⟨_, hbatch', fun key hkey => ?_⟩
  rw [RocksKVStore.get_written, RocksKVStore.get_written, lastPut_append, lastPut_append,
    CommandApplier.lastPut_progressEntries hkey, CommandApplier.lastPut_progressEntries hkey, h key hkey]

/-- The fold over the same entries. -/
theorem applyAll {result : RocksKVStore} (h : store.Agrees store')
    (hresult : Nukv.applyAll commitIndex store index entries = some result) (index' commitIndex' : Nat) :
    ∃ result', Nukv.applyAll commitIndex' store' index' entries = some result' ∧ result.Agrees result' := by
  induction entries generalizing store store' index index' with
  | nil =>
    obtain rfl := Option.some.inj hresult
    exact ⟨store', rfl, h⟩
  | cons entry rest ih =>
    obtain ⟨command, batch, hparse, hbatch, hrest⟩ := applyAll_cons_eq_some.mp hresult
    obtain ⟨batch', hbatch', hnext⟩ := h.applied hbatch index' commitIndex'
    obtain ⟨result', hresult', hagrees⟩ := ih hnext hrest (index' + 1)
    exact ⟨result', applyAll_cons_eq_some.mpr ⟨command, batch', hparse, hbatch', hresult'⟩, hagrees⟩

/-- The same commands can be applied. -/
theorem applicable (h : store.Agrees store') :
    Nukv.applicable commitIndex store' index entries = Nukv.applicable commitIndex store index entries := by
  have hforth : ∀ {store store' : RocksKVStore}, store.Agrees store' →
      Nukv.applicable commitIndex store index entries = true → Nukv.applicable commitIndex store' index entries = true := by
    intro store store' h hsome
    rw [applicable_eq, Option.isSome_iff_exists] at hsome ⊢
    obtain ⟨result, hresult⟩ := hsome
    obtain ⟨result', hresult', -⟩ := h.applyAll hresult index commitIndex
    exact ⟨result', hresult'⟩
  exact Bool.eq_iff_iff.mpr ⟨hforth h.symm, hforth h⟩

end RocksKVStore.Agrees

/-! ### Writes that the state machine does not see -/

omit [Protobuf] in
theorem RaftNode.stateSaved_agrees (s : RaftNode) : s.store.Agrees s.stateSaved.store := by
  refine .of_get fun key hfixed _ => ?_
  change (s.store.written _).get key = s.store.get key
  rw [RocksKVStore.get_written, RaftStorage.persistState, RaftStorage.lastPut_stateEntries_of_not_mem hfixed,
    Option.none_or, if_neg List.not_mem_nil]

theorem RaftNode.logSaved_agrees (s : RaftNode) : s.store.Agrees s.logSaved.store :=
  .of_get fun _ _ hlog => Holds.get_persistLog hlog _ _

theorem RaftNode.compacted_agrees (s : RaftNode) : s.store.Agrees s.compacted.store := by
  refine .of_get fun key hfixed hlog => ?_
  change (s.store.written _).get key = s.store.get key
  rw [RocksKVStore.get_written, RaftStorage.persistSnapshot, lastPut_append, RaftStorage.lastPut_fixed hfixed,
    Option.or_none, RaftStorage.lastPut_logEntries_of_not_logPath hlog, Option.none_or, if_neg]
  intro hmem
  exact absurd (hlog.symm.trans (RaftStorage.startsWith_of_mem_obsoleteLogKeys hmem)) (by simp)

/-! ### The functions -/

variable {s : RaftNode} {es : List Event}

theorem returns_applyEntries (remaining : Nat) (hfaults : s.store.faults = []) (hlow : s.snapshotIndex ≤ s.lastApplied)
    (hhigh : remaining ≠ 0 → s.lastApplied + remaining ≤ s.lastIndex)
    (happly : applyAll s.commitIndex s.store (s.lastApplied + 1)
      ((s.log.drop (s.lastApplied - s.snapshotIndex)).take remaining) = some store) :
    Prog.Returns (NodeM.applyEntries remaining) (fun _ es' s' => sentPayloads es' = sentPayloads es ∧
      store.faults = [] ∧ s' = { s with store := store, lastApplied := s.lastApplied + remaining }) es s := by
  induction remaining generalizing s es with
  | zero =>
    rw [List.take_zero] at happly
    obtain rfl := Option.some.inj happly
    exact .ret ⟨rfl, hfaults, rfl⟩
  | succ remaining ih =>
    have hend := hhigh (Nat.succ_ne_zero _)
    have hlength : s.lastApplied - s.snapshotIndex < s.log.length := by
      unfold RaftNode.lastIndex at hend
      omega
    -- the next entry is the head of those still to be applied
    rw [List.drop_eq_getElem_cons hlength, List.take_succ_cons] at happly
    obtain ⟨command, batch, hparse, hbatch, hrest⟩ := applyAll_cons_eq_some.mp happly
    have hentry : s.entryAt (s.lastApplied + 1) = .ok s.log[s.lastApplied - s.snapshotIndex] := by
      refine RaftNode.entryAt_eq_ok.mpr ⟨by omega, ?_⟩
      rw [show s.lastApplied + 1 - s.snapshotIndex - 1 = s.lastApplied - s.snapshotIndex by omega]
      exact List.getElem?_eq_getElem hlength
    refine .get ?_
    rw [hentry]
    dsimp only
    rw [hparse]
    refine .bind (.emit rfl (.bind (.get ?_)))
    rw [hbatch]
    refine follows_writeAtomically hfaults rfl (.bind (.modify ((ih rfl (Nat.le_succ_of_le hlow) (fun _ => ?_) ?_).post ?_)))
    · change s.lastApplied + 1 + remaining ≤ s.lastIndex
      omega
    · rw [show s.lastApplied - s.snapshotIndex + 1 = s.lastApplied + 1 - s.snapshotIndex by omega] at hrest
      exact hrest
    · rintro _ es' s' ⟨hsent, hempty, rfl⟩
      refine ⟨hsent.trans ((sentPayloads_concat rfl).trans (sentPayloads_concat rfl)), hempty, ?_⟩
      rw [show s.lastApplied + (remaining + 1) = s.lastApplied + 1 + remaining by omega]

/-- `ApplyCommitted` leaves the result of the fold, also when it then throws because an entry of term zero cannot be
the last one of a snapshot. -/
theorem ends_applyCommitted_applied (hfaults : s.store.faults = []) (hhigh : s.commitIndex ≤ s.lastIndex)
    (happly : applyAll s.commitIndex s.store (max s.lastApplied s.snapshotIndex + 1)
      ((s.log.drop (max s.lastApplied s.snapshotIndex - s.snapshotIndex)).take
        (s.commitIndex - max s.lastApplied s.snapshotIndex)) = some store) :
    Prog.Ends NodeM.applyCommitted
      (fun _ es' s' => sentPayloads es' = sentPayloads es ∧ s.CaughtUp s' ∧ store.Agrees s'.store)
      (fun es' s' => sentPayloads es' = sentPayloads es ∧ s.snapshotIndex < s.commitIndex ∧
        s.termAt s.commitIndex = 0 ∧ s.Progressed s' ∧
        s'.lastApplied = max (max s.lastApplied s.snapshotIndex) s.commitIndex ∧ store.Agrees s'.store) es s := by
  have hmax : max s.lastApplied s.snapshotIndex + (s.commitIndex - max s.lastApplied s.snapshotIndex) =
      max (max s.lastApplied s.snapshotIndex) s.commitIndex := by omega
  refine .bind (.modify (.get (.bind ((returns_applyEntries
    (s := { s with lastApplied := max s.lastApplied s.snapshotIndex })
    (s.commitIndex - max s.lastApplied s.snapshotIndex) hfaults (le_max_right _ _) (fun hne => ?_) happly).weaken ?_
    fun _ _ => False.elim))))
  · change max s.lastApplied s.snapshotIndex + _ ≤ s.lastIndex
    omega
  rintro _ es₁ s₁ ⟨hsent₁, hempty, rfl⟩
  generalize hmid : ({ s with
      store := store
      lastApplied := max s.lastApplied s.snapshotIndex + (s.commitIndex - max s.lastApplied s.snapshotIndex) } :
      RaftNode) = mid
  have hprogress : s.Progressed mid := hmid ▸ RaftNode.Progressed.applied ⟨.refl s, rfl, rfl⟩ _ _ _
  have happlied : mid.lastApplied = max (max s.lastApplied s.snapshotIndex) s.commitIndex := hmid ▸ hmax
  have htimers : mid.toTimerState = s.toTimerState := hmid ▸ rfl
  have hstore : mid.store = store := hmid ▸ rfl
  have hterms : ∀ m, mid.termAt m = s.termAt m := hmid ▸ fun _ => rfl
  have hsaved : s.Progressed mid.stateSaved := hprogress.applied _ _ _
  have hagrees : store.Agrees mid.stateSaved.store := hstore ▸ mid.stateSaved_agrees
  refine .bind (follows_persistState (hstore ▸ hempty) rfl (.bind (ends_createSnapshotIfNeeded.weaken ?_ ?_)))
  · rintro _ es₂ s₂ ⟨hsent₂, hend⟩
    refine .emitState rfl ⟨(sentPayloads_concat rfl).trans (hsent₂.trans ((sentPayloads_concat rfl).trans hsent₁)),
      .of_applied hsaved happlied htimers (fun _ => rfl) hend, ?_⟩
    rcases hend with ⟨-, rfl⟩ | ⟨-, -, -, faults, -, rfl⟩
    · exact hagrees
    · exact (hagrees.trans mid.stateSaved.compacted_agrees).facing faults
  · rintro es₂ s₂ ⟨hsent₂, hmany, hreason, faults, rfl⟩
    have hlow : s.snapshotIndex < s.commitIndex := by
      rw [← hprogress.snapshotIndex, ← hprogress.commitIndex]
      exact not_le.mp fun hle => hmany (.inr (.inl hle))
    refine ⟨hsent₂.trans ((sentPayloads_concat rfl).trans hsent₁), hlow, ?_, hsaved.applied _ _ _, happlied,
      hagrees.facing faults⟩
    rcases hreason rfl with hlast | hzero
    · exact absurd hlast (not_lt.mpr ((hprogress.commitIndex.trans_le hhigh).trans hprogress.lastIndex.ge))
    · rw [← hterms, ← hprogress.commitIndex]
      exact hzero

theorem returns_applyCommitted (hfaults : s.store.faults = []) (hhigh : s.commitIndex ≤ s.lastIndex)
    (hterm : s.snapshotIndex < s.commitIndex → s.termAt s.commitIndex ≠ 0)
    (happly : applyAll s.commitIndex s.store (max s.lastApplied s.snapshotIndex + 1)
      ((s.log.drop (max s.lastApplied s.snapshotIndex - s.snapshotIndex)).take
        (s.commitIndex - max s.lastApplied s.snapshotIndex)) = some store) :
    Prog.Returns NodeM.applyCommitted
      (fun _ es' s' => sentPayloads es' = sentPayloads es ∧ s.CaughtUp s' ∧ store.Agrees s'.store) es s :=
  (ends_applyCommitted_applied hfaults hhigh happly).weaken (fun _ _ _ h => h) fun _ _ h => hterm h.2.1 h.2.2.1

end Nukv
