import Nukv.Model.Handlers
import Nukv.Proof.Storage

/-!
# The replicated state machine

`CommandApplier` run on a sequence of commands. A command takes effect once: the ones that carry no request id all
do, of the others the first one of each request. The step lemma says what one call does to the store, by the cases
of `ApplyAtomically`; the run lemma follows a sequence up to the first exception.
-/

namespace Nukv

/-! ### The commands that take effect -/

/-- The commands are of one request of one client. -/
def Proto.Command.sameRequest (c d : Proto.Command) : Bool := d.clientId == c.clientId && d.requestId == c.requestId

theorem Proto.Command.sameRequest_iff {c d : Proto.Command} :
    c.sameRequest d = true ↔ d.clientId = c.clientId ∧ d.requestId = c.requestId := by
  simp [Proto.Command.sameRequest]

/-- What a command does to the user entries. -/
def Proto.Command.effect (command : Proto.Command) (entries : Bytes → Option Bytes) : Bytes → Option Bytes :=
  match command.type with
  | .put => Function.update entries command.key (some command.value)
  | .delete => Function.update entries command.key none
  | _ => entries

/-- An effect reads no other key than the one it is asked about. -/
theorem Proto.Command.effect_congr (command : Proto.Command) {entries entries' : Bytes → Option Bytes} {key : Bytes}
    (h : entries key = entries' key) : command.effect entries key = command.effect entries' key := by
  unfold Proto.Command.effect
  cases command.type <;> simp only [Function.update_apply, h]

theorem Proto.Command.effect_of_ne {command : Proto.Command} {entries : Bytes → Option Bytes} {key : Bytes}
    (h : key ≠ command.key) : command.effect entries key = entries key := by
  unfold Proto.Command.effect
  cases command.type <;> simp only [Function.update_of_ne h]

/-- One more command: it is kept unless it repeats a request. -/
def keepFirst (kept : List Proto.Command) (command : Proto.Command) : List Proto.Command :=
  if command.requestId ≠ 0 ∧ kept.any command.sameRequest = true then kept else kept ++ [command]

/-- Every command without a request id, and the first one of each request. -/
def effective (commands : List Proto.Command) : List Proto.Command := commands.foldl keepFirst []

/-- The user entries that the commands leave. -/
def userEntries (commands : List Proto.Command) : Bytes → Option Bytes :=
  (effective commands).foldl (fun entries command => command.effect entries) fun _ => none

section Effective

variable {commands : List Proto.Command} {command : Proto.Command}

theorem effective_append (commands : List Proto.Command) (command : Proto.Command) :
    effective (commands ++ [command]) = keepFirst (effective commands) command := by
  unfold effective
  rw [List.foldl_append, List.foldl_cons, List.foldl_nil]

theorem effective_repeated (hid : command.requestId ≠ 0)
    (h : (effective commands).find? command.sameRequest ≠ none) :
    effective (commands ++ [command]) = effective commands := by
  rw [effective_append, keepFirst, if_pos]
  refine ⟨hid, ?_⟩
  rw [ne_eq, List.find?_eq_none] at h
  simpa using h

theorem effective_fresh (h : command.requestId = 0 ∨ (effective commands).find? command.sameRequest = none) :
    effective (commands ++ [command]) = effective commands ++ [command] := by
  rw [effective_append, keepFirst, if_neg]
  rintro ⟨hid, hany⟩
  have hnone := List.find?_eq_none.mp (h.resolve_left hid)
  obtain ⟨d, hd, hsame⟩ := List.any_eq_true.mp hany
  exact hnone d hd hsame

theorem userEntries_fresh (h : command.requestId = 0 ∨ (effective commands).find? command.sameRequest = none) :
    userEntries (commands ++ [command]) = command.effect (userEntries commands) := by
  unfold userEntries
  rw [effective_fresh h, List.foldl_append, List.foldl_cons, List.foldl_nil]

theorem userEntries_repeated (hid : command.requestId ≠ 0)
    (h : (effective commands).find? command.sameRequest ≠ none) :
    userEntries (commands ++ [command]) = userEntries commands := by
  unfold userEntries
  rw [effective_repeated hid h]

theorem effective_subset (commands : List Proto.Command) : effective commands ⊆ commands := by
  induction commands using List.reverseRecOn with
  | nil => exact List.Subset.refl _
  | append_singleton commands last ih =>
    rw [effective_append, keepFirst]
    split
    · exact List.subset_append_of_subset_left _ ih
    · exact List.append_subset.mpr ⟨List.subset_append_of_subset_left _ ih, List.subset_append_right _ _⟩

/-- Of every request some command takes effect. -/
theorem effective_find?_ne_none (hmem : command ∈ commands) (hid : command.requestId ≠ 0) :
    (effective commands).find? command.sameRequest ≠ none := by
  induction commands using List.reverseRecOn with
  | nil => exact absurd hmem List.not_mem_nil
  | append_singleton commands last ih =>
    by_cases hfresh : last.requestId = 0 ∨ (effective commands).find? last.sameRequest = none
    · rw [effective_fresh hfresh, List.find?_append]
      rcases List.mem_append.mp hmem with hold | hlast
      · obtain ⟨first, hfirst⟩ := Option.ne_none_iff_exists'.mp (ih hold)
        simp [hfirst]
      · obtain rfl := List.mem_singleton.mp hlast
        rw [hfresh.resolve_left hid]
        simp [Proto.Command.sameRequest]
    · rw [not_or] at hfresh
      rw [effective_repeated hfresh.1 hfresh.2]
      rcases List.mem_append.mp hmem with hold | hlast
      · exact ih hold
      · exact List.mem_singleton.mp hlast ▸ hfresh.2

/-- No two commands that take effect are of one request. -/
theorem effective_find? (hmem : command ∈ effective commands) (hid : command.requestId ≠ 0) :
    (effective commands).find? command.sameRequest = some command := by
  induction commands using List.reverseRecOn with
  | nil => simp [effective] at hmem
  | append_singleton commands last ih =>
    by_cases hfresh : last.requestId = 0 ∨ (effective commands).find? last.sameRequest = none
    · rw [effective_fresh hfresh] at hmem ⊢
      rcases List.mem_append.mp hmem with hold | hlast
      · rw [List.find?_append, ih hold, Option.some_or]
      · obtain rfl := List.mem_singleton.mp hlast
        rw [List.find?_append, hfresh.resolve_left hid, Option.none_or]
        simp [Proto.Command.sameRequest]
    · rw [not_or] at hfresh
      rw [effective_repeated hfresh.1 hfresh.2] at hmem ⊢
      exact ih hmem

end Effective

/-! ### The keys of the records -/

/-- Different requests have different records. -/
theorem appliedRequestKey_injective {clientId requestId clientId' requestId' : Nat}
    (h : appliedRequestKey clientId requestId = appliedRequestKey clientId' requestId') :
    clientId = clientId' ∧ requestId = requestId' := by
  have hslash : ∀ n, (47 : UInt8) ∉ decimal n := by
    intro n hmem
    exact absurd (isDigit_of_mem_decimal hmem) (by decide)
  have htext : ∀ n m, decimal n ++ ascii "/" ++ decimal m = decimal n ++ 47 :: decimal m := by
    intro n m
    rw [List.append_assoc]
    rfl
  -- the client id is the text before the first slash
  have hclient : ∀ n m, (decimal n ++ 47 :: decimal m).takeWhile (fun b => b != 47) = decimal n := by
    intro n m
    rw [List.takeWhile_append_of_pos, List.takeWhile_cons]
    · simp
    · intro b hb
      have hne : b ≠ 47 := fun heq => hslash n (heq ▸ hb)
      simpa using hne
  unfold appliedRequestKey at h
  rw [List.append_assoc, List.append_assoc, List.append_assoc, List.append_assoc] at h
  have hrest := List.append_cancel_left h
  rw [← List.append_assoc, ← List.append_assoc, htext, htext] at hrest
  have hfirst := congrArg (List.takeWhile fun b => b != 47) hrest
  rw [hclient, hclient] at hfirst
  rw [hfirst] at hrest
  have hlast := List.append_cancel_left hrest
  exact ⟨decimal_injective hfirst, decimal_injective (List.cons.inj hlast).2⟩

section Applier

variable [Protobuf]

namespace CommandApplier

/-- `ApplyAtomically` with its write: the exception of either, and the store it leaves. -/
def perform (store : RocksKVStore) (command : Proto.Command) (logIndex commitIndex : Nat) :
    Except Exn Unit × RocksKVStore :=
  match applyAtomically store command logIndex commitIndex with
  | .error x => (.error x, store)
  | .ok batch => store.writeAtomically batch

/-- The commands after `index`, each with the commit index of its call, up to the first exception: the last index
applied and the store. -/
def performAll (store : RocksKVStore) (index : Nat) : List (Proto.Command × Nat) → Nat × RocksKVStore
  | [] => (index, store)
  | (command, commitIndex) :: rest =>
    match perform store command (index + 1) commitIndex with
    | (.error _, store) => (index, store)
    | (.ok (), store) => performAll store (index + 1) rest

variable {store store' : RocksKVStore} {command : Proto.Command} {logIndex commitIndex : Nat}

/-- A call that throws leaves the contents of the store. -/
theorem perform_error {x : Exn} (h : perform store command logIndex commitIndex = (.error x, store')) :
    store'.data = store.data := by
  unfold perform at h
  split at h
  · rw [← (Prod.mk.inj h).2]
  · unfold RocksKVStore.writeAtomically at h
    split at h
    · rw [← (Prod.mk.inj h).2]
    · exact absurd (Prod.mk.inj h).1 (by simp)
    · exact absurd (Prod.mk.inj h).1 (by simp)

/-- A call that returns has written its batch. -/
theorem perform_ok (h : perform store command logIndex commitIndex = (.ok (), store')) :
    ∃ batch, applyAtomically store command logIndex commitIndex = .ok batch ∧
      ∀ key, store'.get key = (lastPut key batch.puts).or (if key ∈ batch.deletes then none else store.get key) := by
  unfold perform at h
  split at h
  · exact absurd (Prod.mk.inj h).1 (by simp)
  · next batch hbatch =>
    refine ⟨batch, hbatch, fun key => ?_⟩
    have hdata : store'.data = batch.applyTo store.data := by
      unfold RocksKVStore.writeAtomically at h
      split at h
      · exact absurd (Prod.mk.inj h).1 (by simp)
      · rw [← (Prod.mk.inj h).2]
      · rw [← (Prod.mk.inj h).2]
    rw [RocksKVStore.get, hdata]
    exact batch.getElem?_applyTo store.data key

theorem lastPut_recordEntries (command : Proto.Command) (key : Bytes) :
    lastPut key (recordEntries command) = if command.requestId ≠ 0 ∧ key = requestKey command then
      some (Protobuf.command.serialize command) else none := by
  unfold recordEntries
  by_cases hid : command.requestId = 0
  · simp [hid, lastPut]
  · simp [hid, lastPut, eq_comm]

/-- A call leaves the reserved keys alone, the progress counters and the records of requests apart. -/
theorem get_perform_reserved (h : perform store command logIndex commitIndex = (.ok (), store')) {key : Bytes}
    (hreserved : RocksKVStore.isReserved key = true) (hclient : startsWith clientPath key = false) :
    store'.get key = (lastPut key (progressEntries logIndex commitIndex)).or (store.get key) := by
  obtain ⟨batch, hbatch, hget⟩ := perform_ok h
  rw [hget, ← RocksKVStore.get_written]
  exact get_reserved hbatch hreserved hclient

/-- A call for a request that has its record leaves everything but the progress counters. -/
theorem get_perform_repeated (h : perform store command logIndex commitIndex = (.ok (), store'))
    (hid : command.requestId ≠ 0) {value : Bytes} (hrecord : store.get (requestKey command) = some value) (key : Bytes)
    (hkey : RocksKVStore.isReserved key = false ∨ startsWith clientPath key = true) :
    value = Protobuf.command.serialize command ∧ store'.get key = store.get key := by
  obtain ⟨batch, hbatch, hget⟩ := perform_ok h
  obtain ⟨-, ⟨-, hsame, rfl⟩ | ⟨hfree, -⟩⟩ := applyAtomically_cases hbatch
  · refine ⟨Option.some.inj (hrecord.symm.trans hsame), ?_⟩
    rw [hget, lastPut_progressEntries hkey, Option.none_or, if_neg List.not_mem_nil]
  · exact absurd ((hfree.resolve_left hid).symm.trans hrecord) (by simp)

/-- A call for a new request, or for none: the command has its effect on the user entries and leaves its record. -/
theorem get_perform_fresh (h : perform store command logIndex commitIndex = (.ok (), store'))
    (hfree : command.requestId = 0 ∨ store.get (requestKey command) = none) (key : Bytes) :
    (RocksKVStore.isReserved key = false → store'.get key = command.effect store.get key) ∧
      (startsWith clientPath key = true →
        store'.get key = if command.requestId ≠ 0 ∧ key = requestKey command then
          some (Protobuf.command.serialize command) else store.get key) := by
  have hne : RocksKVStore.isReserved key = false → ¬ (command.requestId ≠ 0 ∧ key = requestKey command) := by
    rintro huser ⟨-, rfl⟩
    exact absurd (huser.symm.trans (isReserved_of_clientPath (startsWith_requestKey command))) (by simp)
  obtain ⟨batch, hbatch, hget⟩ := perform_ok h
  obtain ⟨hkey, ⟨hid, hrecord, -⟩ | ⟨-, ⟨htype, rfl⟩ | ⟨htype, rfl⟩⟩⟩ := applyAtomically_cases hbatch
  · exact absurd ((hfree.resolve_left hid).symm.trans hrecord) (by simp)
  · constructor
    · intro huser
      rw [hget, lastPut_append, lastPut_append, lastPut_progressEntries (.inl huser), lastPut_recordEntries,
        if_neg (hne huser), Proto.Command.effect, htype]
      by_cases heq : key = command.key
      · simp [lastPut, heq]
      · simp [lastPut, heq, Ne.symm heq]
    · intro hclient
      have hother : command.key ≠ key := by
        rintro rfl
        exact absurd (hkey.symm.trans (isReserved_of_clientPath hclient)) (by simp)
      rw [hget, lastPut_append, lastPut_append, lastPut_progressEntries (.inr hclient), lastPut_recordEntries]
      split <;> simp [lastPut, hother]
  · constructor
    · intro huser
      rw [hget, lastPut_append, lastPut_progressEntries (.inl huser), lastPut_recordEntries, if_neg (hne huser),
        Proto.Command.effect, htype]
      by_cases heq : key = command.key
      · simp [heq]
      · simp [heq]
    · intro hclient
      have hother : key ≠ command.key := by
        rintro rfl
        exact absurd (hkey.symm.trans (isReserved_of_clientPath hclient)) (by simp)
      rw [hget, lastPut_append, lastPut_progressEntries (.inr hclient), lastPut_recordEntries]
      split <;> simp [hother]

end CommandApplier

/-! ### Sequences of commands -/

/-- What the store has after the commands: the user entries and the records of those that took effect, and the
number of commands as the last index applied. -/
structure Replayed (commands : List Proto.Command) (store : RocksKVStore) : Prop where
  user : ∀ key, RocksKVStore.isReserved key = false → store.get key = userEntries commands key
  keys : ∀ command ∈ effective commands, RocksKVStore.isReserved command.key = false
  free : ∀ key, RocksKVStore.isReserved key = true → userEntries commands key = none
  found : ∀ command, command.requestId ≠ 0 → store.get (CommandApplier.requestKey command) =
    ((effective commands).find? command.sameRequest).map Protobuf.command.serialize
  record : ∀ key value, startsWith clientPath key = true → store.get key = some value →
    ∃ command ∈ effective commands, command.requestId ≠ 0 ∧ key = CommandApplier.requestKey command
  lastApplied : store.get lastAppliedKey = if commands.length = 0 then none else some (decimal commands.length)
  others : ∀ key, RocksKVStore.isReserved key = true → startsWith clientPath key = false →
    key ≠ lastAppliedKey → key ≠ commitIndexKey → store.get key = none

theorem Replayed.empty (faults : List Bool) : Replayed [] ⟨∅, faults⟩ := by
  have hnone : ∀ key, (⟨∅, faults⟩ : RocksKVStore).get key = none := fun key => by simp [RocksKVStore.get]
  refine ⟨fun key _ => hnone key, fun _ hmem => absurd hmem List.not_mem_nil, fun _ _ => rfl, fun command _ => hnone _, fun key value _ hget => ?_, hnone _,
    fun key _ _ _ _ => hnone key⟩
  rw [hnone] at hget
  exact absurd hget (by simp)

/-- The contents decide. -/
theorem Replayed.congr {commands : List Proto.Command} {store store' : RocksKVStore} (h : Replayed commands store)
    (hdata : store'.data = store.data) : Replayed commands store' := by
  have hget : store'.get = store.get := by
    funext key
    rw [RocksKVStore.get, hdata]
    rfl
  refine ⟨?_, h.keys, h.free, ?_, ?_, ?_, ?_⟩ <;> rw [hget]
  exacts [h.user, h.found, h.record, h.lastApplied, h.others]

theorem Replayed.step {commands : List Proto.Command} {store store' : RocksKVStore} {command : Proto.Command}
    {commitIndex : Nat} (h : Replayed commands store)
    (hrun : CommandApplier.perform store command (commands.length + 1) commitIndex = (.ok (), store')) :
    Replayed (commands ++ [command]) store' := by
  obtain ⟨batch, hbatch, -⟩ := CommandApplier.perform_ok hrun
  have hkey : RocksKVStore.isReserved command.key = false := (CommandApplier.applyAtomically_cases hbatch).1
  have hlast : store'.get lastAppliedKey = some (decimal (commands ++ [command]).length) := by
    rw [CommandApplier.get_perform_reserved hrun (by decide) (by decide), List.length_append, List.length_singleton]
    simp [CommandApplier.progressEntries, lastPut]
  have hothers : ∀ key, RocksKVStore.isReserved key = true → startsWith clientPath key = false →
      key ≠ lastAppliedKey → key ≠ commitIndexKey → store'.get key = none := by
    intro key hreserved hclient hne hne'
    rw [CommandApplier.get_perform_reserved hrun hreserved hclient, h.others key hreserved hclient hne hne', Option.or_none]
    simp [CommandApplier.progressEntries, lastPut, Ne.symm hne, Ne.symm hne']
  by_cases hfresh : command.requestId = 0 ∨ (effective commands).find? command.sameRequest = none
  · -- the command takes effect and, for a request, leaves its record
    have hfree : command.requestId = 0 ∨ store.get (CommandApplier.requestKey command) = none := by
      by_cases hid : command.requestId = 0
      · exact .inl hid
      · rw [h.found command hid, hfresh.resolve_left hid]
        exact .inr rfl
    have hget := CommandApplier.get_perform_fresh hrun hfree
    refine ⟨fun key huser => ?_, fun d hd => ?_, fun key hreserved => ?_, fun d hd => ?_, fun key value hclient hvalue => ?_,
      ?_, hothers⟩
    · rw [(hget key).1 huser, userEntries_fresh hfresh]
      exact command.effect_congr (h.user key huser)
    · rw [effective_fresh hfresh] at hd
      rcases List.mem_append.mp hd with hd | hd
      · exact h.keys d hd
      · rw [List.mem_singleton.mp hd]
        exact hkey
    · rw [userEntries_fresh hfresh, Proto.Command.effect_of_ne, h.free key hreserved]
      rintro rfl
      exact absurd (hkey.symm.trans hreserved) (by simp)
    · rw [(hget _).2 (CommandApplier.startsWith_requestKey d), effective_fresh hfresh, List.find?_append,
        h.found d hd]
      by_cases hsame : d.sameRequest command = true
      · have heq : d.clientId = command.clientId ∧ d.requestId = command.requestId :=
          (Proto.Command.sameRequest_iff.mp hsame).imp Eq.symm Eq.symm
        have hkeys : CommandApplier.requestKey d = CommandApplier.requestKey command := by
          unfold CommandApplier.requestKey
          rw [heq.1, heq.2]
        have hnone : (effective commands).find? d.sameRequest = none := by
          have hfun : d.sameRequest = command.sameRequest := by
            funext e
            unfold Proto.Command.sameRequest
            rw [heq.1, heq.2]
          rw [hfun]
          exact hfresh.resolve_left (heq.2 ▸ hd)
        rw [if_pos ⟨heq.2 ▸ hd, hkeys⟩, hnone, Option.none_or]
        simp [hsame]
      · have hkeys : ¬ (command.requestId ≠ 0 ∧ CommandApplier.requestKey d = CommandApplier.requestKey command) := by
          rintro ⟨-, heq⟩
          obtain ⟨hc, hr⟩ := appliedRequestKey_injective heq
          exact hsame (by simp [Proto.Command.sameRequest, hc, hr])
        rw [if_neg hkeys]
        simp [hsame]
    · rw [(hget key).2 hclient] at hvalue
      rw [effective_fresh hfresh]
      split at hvalue
      · next hown => exact ⟨command, by simp, hown⟩
      · obtain ⟨d, hd, hrest⟩ := h.record key value hclient hvalue
        exact ⟨d, List.mem_append_left _ hd, hrest⟩
    · rw [hlast, if_neg (by simp)]
  · -- the request has its record already
    rw [not_or] at hfresh
    obtain ⟨hid, hfound⟩ := hfresh
    obtain ⟨first, hfirst⟩ := Option.ne_none_iff_exists'.mp hfound
    have hrecord : store.get (CommandApplier.requestKey command) = some (Protobuf.command.serialize first) := by
      rw [h.found command hid, hfirst]
      rfl
    have hget := fun key hkey => (CommandApplier.get_perform_repeated hrun hid hrecord key hkey).2
    refine ⟨fun key huser => ?_, ?_, fun key hreserved => ?_, fun d hd => ?_, fun key value hclient hvalue => ?_, ?_,
      hothers⟩
    · rw [hget key (.inl huser), userEntries_repeated hid hfound]
      exact h.user key huser
    · rw [effective_repeated hid hfound]
      exact h.keys
    · rw [userEntries_repeated hid hfound]
      exact h.free key hreserved
    · rw [hget _ (.inr (CommandApplier.startsWith_requestKey d)), effective_repeated hid hfound]
      exact h.found d hd
    · rw [hget key (.inr hclient)] at hvalue
      rw [effective_repeated hid hfound]
      exact h.record key value hclient hvalue
    · rw [hlast, if_neg (by simp)]

/-- A sequence of commands, up to the first one that throws. -/
theorem Replayed.run {commands : List Proto.Command} {store : RocksKVStore} (h : Replayed commands store)
    (calls : List (Proto.Command × Nat)) :
    ∃ done ≤ calls.length, (CommandApplier.performAll store commands.length calls).1 = commands.length + done ∧
      Replayed (commands ++ (calls.take done).map Prod.fst)
        (CommandApplier.performAll store commands.length calls).2 := by
  induction calls generalizing commands store with
  | nil => exact ⟨0, le_rfl, rfl, by simpa [CommandApplier.performAll] using h⟩
  | cons call rest ih =>
    obtain ⟨command, commitIndex⟩ := call
    rw [CommandApplier.performAll]
    rcases hrun : CommandApplier.perform store command (commands.length + 1) commitIndex with ⟨x | _, store'⟩
    · exact ⟨0, Nat.zero_le _, rfl, by simpa using h.congr (CommandApplier.perform_error hrun)⟩
    · obtain ⟨done, hdone, hindex, hreplayed⟩ := ih (h.step hrun)
      have hlength : (commands ++ [command]).length = commands.length + 1 := by simp
      rw [hlength] at hindex hreplayed
      refine ⟨done + 1, by simpa using hdone, ?_, ?_⟩
      · rw [← Nat.add_assoc, Nat.add_right_comm]
        exact hindex
      · simpa using hreplayed

/-! ### The shortcut of `Submit` -/

/-- Applying a command whose request has its record. -/
theorem CommandApplier.applyAtomically_record {store : RocksKVStore} {command : Proto.Command}
    (hid : command.requestId ≠ 0) {applied : Bytes} (hrecord : store.get (requestKey command) = some applied)
    (hkey : RocksKVStore.isReserved command.key = false) (logIndex commitIndex : Nat) :
    applyAtomically store command logIndex commitIndex =
      if applied ≠ Protobuf.command.serialize command then
        .error (.invalidArgument "client request id was reused with a different command")
      else .ok ⟨progressEntries logIndex commitIndex, []⟩ := by
  unfold applyAtomically
  rw [hkey, if_pos hid, hrecord]
  rfl

/-- A leader answers a submission whose request has its record at once. -/
theorem submit_record {node : RaftNode} {call : SubmitCall} (hrole : node.role = .leader)
    (hstopping : node.stopping = false) (hid : call.command.requestId ≠ 0) {applied : Bytes}
    (hrecord : RaftStorage.getAppliedCommand node.store call.command.clientId call.command.requestId = some applied) :
    NodeM.submit call node =
      (.ok (), node, [.submitResult call (applied == Protobuf.command.serialize call.command) node]) := by
  have hfalse : ¬ (node.role ≠ .leader ∨ node.stopping = true) := by simp [hrole, hstopping]
  unfold NodeM.submit NodeM.submitInLoop Base.Prog.attempt
  rw [Base.Prog.get_bind, if_neg hfalse, if_pos hid, hrecord]
  rfl

/-- With the records of a sequence of commands, the shortcut and the applier decide alike. -/
theorem Replayed.shortcut {commands : List Proto.Command} {store : RocksKVStore} (h : Replayed commands store)
    {command : Proto.Command} (hid : command.requestId ≠ 0) {applied : Bytes}
    (hrecord : store.get (CommandApplier.requestKey command) = some applied) (logIndex commitIndex : Nat) :
    applied = Protobuf.command.serialize command ∧
        CommandApplier.applyAtomically store command logIndex commitIndex =
          .ok ⟨CommandApplier.progressEntries logIndex commitIndex, []⟩ ∨
      applied ≠ Protobuf.command.serialize command ∧
        ∃ x, CommandApplier.applyAtomically store command logIndex commitIndex = .error x := by
  by_cases hsame : applied = Protobuf.command.serialize command
  · -- the record is that of the first command of the request, which is this one
    have hfound := h.found command hid
    rw [hrecord] at hfound
    obtain ⟨first, hfirst, hserialized⟩ := Option.map_eq_some_iff.mp hfound.symm
    obtain rfl := Protobuf.command.serialize_injective (hserialized.trans hsame)
    have hkey := h.keys first (List.mem_of_find?_eq_some hfirst)
    refine .inl ⟨hsame, ?_⟩
    rw [CommandApplier.applyAtomically_record hid hrecord hkey, if_neg (not_not.mpr hsame)]
  · refine .inr ⟨hsame, ?_⟩
    cases hkey : RocksKVStore.isReserved command.key with
    | true =>
      refine ⟨.invalidArgument "keys beginning with __raft/ are reserved", ?_⟩
      rw [CommandApplier.applyAtomically, if_pos hkey]
    | false => exact ⟨_, by rw [CommandApplier.applyAtomically_record hid hrecord hkey, if_pos hsame]⟩

/-- Exactly-once application. Commands applied one after the other to an empty store, up to the first exception:
the user entries are those of the commands that take effect, each request has the record of its first command under
a key of its own, the last index applied is stored, and no other reserved key is touched. A call that throws changes
nothing. For a request with a record, `Submit` answers as applying the command again would end. -/
theorem applier_exactlyOnce (calls : List (Proto.Command × Nat)) (faults : List Bool) :
    ∃ done ≤ calls.length, ∃ store, CommandApplier.performAll ⟨∅, faults⟩ 0 calls = (done, store) ∧
      (∀ key value, (key, value) ∈ store.getAllUserEntries ↔
        userEntries ((calls.take done).map Prod.fst) key = some value) ∧
      (∀ key value, (key, value) ∈ store.getAllPrefixedEntries clientPath ↔
        ∃ command ∈ effective ((calls.take done).map Prod.fst), command.requestId ≠ 0 ∧
          key = CommandApplier.requestKey command ∧ value = Protobuf.command.serialize command) ∧
      (∀ command ∈ effective ((calls.take done).map Prod.fst), command.requestId ≠ 0 →
        RaftStorage.getAppliedCommand store command.clientId command.requestId =
          some (Protobuf.command.serialize command)) ∧
      (∀ c d : Proto.Command, CommandApplier.requestKey c = CommandApplier.requestKey d →
        c.clientId = d.clientId ∧ c.requestId = d.requestId) ∧
      store.get lastAppliedKey = (if done = 0 then none else some (decimal done)) ∧
      (∀ key, RocksKVStore.isReserved key = true → startsWith clientPath key = false → key ≠ lastAppliedKey →
        key ≠ commitIndexKey → store.get key = none) ∧
      (∀ before command logIndex commitIndex x after,
        CommandApplier.perform before command logIndex commitIndex = (.error x, after) → after.data = before.data) ∧
      ∀ (node : RaftNode) (call : SubmitCall) (logIndex commitIndex : Nat), node.store.data = store.data →
        node.store.faults = [] → node.role = .leader → node.stopping = false → call.command.requestId ≠ 0 →
        (RaftStorage.getAppliedCommand node.store call.command.clientId call.command.requestId).isSome = true →
        ∃ value, NodeM.submit call node = (.ok (), node, [.submitResult call value node]) ∧
          (value = true ↔ ∃ after,
            CommandApplier.perform node.store call.command logIndex commitIndex = (.ok (), after) ∧
              ∀ entry, entry ∈ after.getAllUserEntries ↔ entry ∈ node.store.getAllUserEntries) ∧
          (value = false ↔ ∃ x after,
            CommandApplier.perform node.store call.command logIndex commitIndex = (.error x, after)) := by
  obtain ⟨done, hdone, hindex, hreplayed⟩ := (Replayed.empty faults).run calls
  rw [List.nil_append] at hreplayed
  rw [List.length_nil, Nat.zero_add] at hindex
  rw [List.length_nil] at hreplayed
  refine ⟨done, hdone, _, Prod.ext hindex rfl, fun key value => ?_, fun key value => ?_, fun command hmem hid => ?_,
    fun c d heq => appliedRequestKey_injective heq, ?_, hreplayed.others,
    fun _ _ _ _ _ _ => CommandApplier.perform_error, fun node call logIndex commitIndex hdata hfaults hrole hstopping hid
      hsome => ?_⟩
  · rw [RocksKVStore.mem_getAllUserEntries]
    cases hreserved : RocksKVStore.isReserved key with
    | true =>
      rw [hreplayed.free key hreserved]
      simp
    | false =>
      rw [hreplayed.user key hreserved]
      simp
  · rw [RocksKVStore.mem_getAllPrefixedEntries]
    constructor
    · rintro ⟨hget, hclient⟩
      obtain ⟨command, hmem, hid, rfl⟩ := hreplayed.record key value hclient hget
      rw [hreplayed.found command hid, effective_find? hmem hid] at hget
      exact ⟨command, hmem, hid, rfl, (Option.some.inj hget).symm⟩
    · rintro ⟨command, hmem, hid, rfl, rfl⟩
      rw [hreplayed.found command hid, effective_find? hmem hid]
      exact ⟨rfl, CommandApplier.startsWith_requestKey command⟩
  · have hfound := hreplayed.found command hid
    rw [effective_find? hmem hid] at hfound
    exact hfound
  · rw [hreplayed.lastApplied, List.length_map, List.length_take, Nat.min_eq_left hdone]
  · obtain ⟨applied, happlied⟩ := Option.isSome_iff_exists.mp hsome
    refine ⟨_, submit_record hrole hstopping hid happlied, ?_⟩
    have hwrite := fun batch => RocksKVStore.writeAtomically_eq hfaults batch
    rcases (hreplayed.congr hdata).shortcut hid happlied logIndex commitIndex with ⟨hsame, hok⟩ | ⟨hne, x, herror⟩
    · have hperform : CommandApplier.perform node.store call.command logIndex commitIndex =
          (.ok (), node.store.written ⟨CommandApplier.progressEntries logIndex commitIndex, []⟩) := by
        rw [CommandApplier.perform, hok]
        exact hwrite _
      rw [hperform, hsame]
      refine ⟨⟨fun _ => ⟨_, rfl, fun ⟨key, value⟩ => ?_⟩, fun _ => by simp⟩, by simp⟩
      rw [RocksKVStore.mem_getAllUserEntries, RocksKVStore.mem_getAllUserEntries]
      refine and_congr_left fun huser => ?_
      rw [RocksKVStore.get_written, CommandApplier.lastPut_progressEntries (.inl huser), Option.none_or,
        if_neg List.not_mem_nil]
    · have hperform : CommandApplier.perform node.store call.command logIndex commitIndex = (.error x, node.store) := by
        rw [CommandApplier.perform, herror]
      rw [hperform]
      simp [hne]

end Applier

end Nukv
