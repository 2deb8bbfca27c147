import Nukv.Proof.Replay
import Nukv.Property.StateMachine

/-!
# Logs that can be applied

The entries of a log can be applied one after the other, to the empty store, if each of them writes or deletes a user key
and no two of them carry one request with different commands. What they leave is the function of their commands that
`Replayed` describes. A store that the log folds to has it too.
-/

namespace Nukv

open Base

variable [Protobuf]

/-- The command of an entry. -/
def RaftLogEntry.parsed (entry : RaftLogEntry) : Option Proto.Command := Protobuf.command.parse entry.command

omit [Protobuf] in
/-- A command that writes or deletes a user key. -/
def Proto.Command.Writes (command : Proto.Command) : Prop :=
  (command.type = .put ∨ command.type = .delete) ∧ RocksKVStore.isReserved command.key = false

instance (command : Proto.Command) : Decidable command.Writes := inferInstanceAs (Decidable (_ ∧ _))

/-- Commands that can be applied in one log. -/
structure Compatible (L : List RaftLogEntry) : Prop where
  writes : ∀ entry ∈ L, ∃ command, entry.parsed = some command ∧ command.Writes
  requests : ∀ entry ∈ L, ∀ entry' ∈ L, ∀ command command', entry.parsed = some command → entry'.parsed = some command' →
    command.requestId ≠ 0 → command.sameRequest command' = true → command = command'

instance (L : List RaftLogEntry) : Decidable (Compatible L) :=
  decidable_of_iff ((∀ entry ∈ L, ∃ command ∈ entry.parsed, command.Writes) ∧ ∀ entry ∈ L, ∀ entry' ∈ L,
      ∀ command ∈ entry.parsed, ∀ command' ∈ entry'.parsed,
        command.requestId ≠ 0 → command.sameRequest command' = true → command = command')
    ⟨fun h => ⟨h.1, fun entry he entry' he' c c' hc hc' => h.2 entry he entry' he' c hc c' hc'⟩,
      fun h => ⟨h.writes, fun entry he entry' he' c hc c' hc' => h.requests entry he entry' he' c c' hc hc'⟩⟩

variable {L L' : List RaftLogEntry} {store result : RocksKVStore}

theorem Compatible.nil : Compatible [] :=
  ⟨fun _ hmem => absurd hmem List.not_mem_nil, fun _ hmem => absurd hmem List.not_mem_nil⟩

theorem Compatible.initial (h : Compatible L) (hL : L' <+: L) : Compatible L' :=
  ⟨fun entry hentry => h.writes entry (hL.subset hentry),
    fun entry hentry entry' hentry' => h.requests entry (hL.subset hentry) entry' (hL.subset hentry')⟩

/-- A command that writes is refused only for a record of another command. -/
theorem CommandApplier.applyAtomically_writes {command : Proto.Command} (hwrites : command.Writes)
    (hrecord : command.requestId ≠ 0 → ∀ value, store.get (requestKey command) = some value →
      value = Protobuf.command.serialize command) (logIndex commitIndex : Nat) :
    ∃ batch, applyAtomically store command logIndex commitIndex = .ok batch := by
  obtain ⟨htype, hfree⟩ := hwrites
  unfold applyAtomically
  rw [hfree, if_neg (by simp)]
  by_cases hid : command.requestId = 0
  · rw [if_neg (by simpa using hid)]
    rcases htype with htype | htype <;> simp [htype]
  · rw [if_pos hid]
    cases hget : store.get (requestKey command) with
    | none => rcases htype with htype | htype <;> simp [htype]
    | some value => simp [hrecord hid value hget]

/-- One more entry of a replay. -/
theorem replay_append_eq_some {entry : RaftLogEntry} : replay (L ++ [entry]) = some result ↔
    ∃ before command batch, replay L = some before ∧ entry.parsed = some command ∧
      CommandApplier.applyAtomically before command (1 + L.length) 0 = .ok batch ∧ before.written batch = result := by
  unfold replay
  rw [applyAll_append, Option.bind_eq_some_iff]
  constructor
  · rintro ⟨before, hbefore, hlast⟩
    obtain ⟨command, batch, hparse, hbatch, hresult⟩ := applyAll_cons_eq_some.mp hlast
    exact ⟨before, command, batch, hbefore, hparse, hbatch, Option.some.inj hresult⟩
  · rintro ⟨before, command, batch, hbefore, hparse, hbatch, hresult⟩
    exact ⟨before, hbefore, applyAll_cons_eq_some.mpr ⟨command, batch, hparse, hbatch, congrArg some hresult⟩⟩

/-- What a replay leaves, by the commands of the log. -/
theorem replay_replayed (h : replay L = some result) :
    result.faults = [] ∧ ∃ commands, L.map RaftLogEntry.parsed = commands.map some ∧ Replayed commands result := by
  induction L using List.reverseRecOn generalizing result with
  | nil =>
    obtain rfl := Option.some.inj h
    exact ⟨rfl, [], rfl, .empty []⟩
  | append_singleton L entry ih =>
    obtain ⟨before, command, batch, hbefore, hparse, hbatch, rfl⟩ := replay_append_eq_some.mp h
    obtain ⟨hfaults, commands, hcommands, hreplayed⟩ := ih hbefore
    have hlength : commands.length = L.length := by
      have := congrArg List.length hcommands
      simpa using this.symm
    refine ⟨rfl, commands ++ [command], by rw [List.map_append, List.map_append, hcommands]; simp [hparse], ?_⟩
    have hperform : CommandApplier.perform before command (commands.length + 1) 0 = (.ok (), before.written batch) := by
      unfold CommandApplier.perform
      rw [hlength, Nat.add_comm, hbatch]
      exact RocksKVStore.writeAtomically_eq hfaults batch
    exact hreplayed.step hperform

/-- Compatible commands can be applied. -/
theorem Compatible.replay (h : Compatible L) : ∃ result, replay L = some result := by
  induction L using List.reverseRecOn with
  | nil => exact ⟨_, rfl⟩
  | append_singleton L entry ih =>
    obtain ⟨before, hbefore⟩ := ih (h.initial (List.prefix_append ..))
    obtain ⟨-, commands, hcommands, hreplayed⟩ := replay_replayed hbefore
    obtain ⟨command, hparse, hwrites⟩ := h.writes entry (by simp)
    have hrecord : command.requestId ≠ 0 → ∀ value, before.get (CommandApplier.requestKey command) = some value →
        value = Protobuf.command.serialize command := by
      intro hid value hvalue
      rw [hreplayed.found command hid] at hvalue
      obtain ⟨first, hfirst, rfl⟩ := Option.map_eq_some_iff.mp hvalue
      have hmem : some first ∈ L.map RaftLogEntry.parsed := by
        rw [hcommands]
        exact List.mem_map_of_mem (effective_subset _ (List.mem_of_find?_eq_some hfirst))
      obtain ⟨entry', hentry', hparse'⟩ := List.mem_map.mp hmem
      have hsame := h.requests entry (by simp) entry' (List.mem_append_left _ hentry') command first hparse hparse' hid
        (List.find?_some hfirst)
      rw [hsame]
    obtain ⟨batch, hbatch⟩ := CommandApplier.applyAtomically_writes hwrites hrecord (1 + L.length) 0
    exact ⟨_, replay_append_eq_some.mpr ⟨before, command, batch, hbefore, hparse, hbatch, rfl⟩⟩

/-- What a store that the log folds to has. -/
theorem Folds.contents (h : Folds L store) : ∃ commands, L.map RaftLogEntry.parsed = commands.map some ∧
    (∀ key, RocksKVStore.isReserved key = false → store.get key = userEntries commands key) ∧
    ∀ key value, startsWith clientPath key = true → (store.get key = some value ↔ ∃ command ∈ effective commands,
      command.requestId ≠ 0 ∧ key = CommandApplier.requestKey command ∧ value = Protobuf.command.serialize command) := by
  obtain ⟨result, hresult, hagrees⟩ := h
  obtain ⟨-, commands, hcommands, hreplayed⟩ := replay_replayed hresult
  refine ⟨commands, hcommands, fun key huser => ?_, fun key value hclient => ?_⟩
  · rw [hagrees key (.inl huser), hreplayed.user key huser]
  · rw [hagrees key (.inr hclient)]
    constructor
    · intro hvalue
      obtain ⟨command, hmem, hid, rfl⟩ := hreplayed.record key value hclient hvalue
      refine ⟨command, hmem, hid, rfl, ?_⟩
      rw [hreplayed.found command hid, effective_find? hmem hid] at hvalue
      exact (Option.some.inj hvalue).symm
    · rintro ⟨command, hmem, hid, rfl, rfl⟩
      rw [hreplayed.found command hid, effective_find? hmem hid]
      rfl

end Nukv
