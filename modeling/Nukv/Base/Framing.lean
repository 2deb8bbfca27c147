import Mathlib.Data.List.Basic

/-!
# Cutting a stream into items

A reader keeps what has arrived in a buffer and takes complete items from its front. `Splitter` is one attempt to take
an item: it makes the buffer shorter, and what arrives later does not change it. These two laws are all it takes for
the items of a stream to be the same however the stream is cut into reads (`Splits.append`), and for every buffer to be
taken apart in finitely many turns (`exists_splits`).
-/

namespace Nukv.Base

structure Splitter (α β : Type) where
  next : List α → Option (β × List α)
  shrinks : ∀ {buffer item rest}, next buffer = some (item, rest) → rest.length < buffer.length
  stable : ∀ {buffer item rest}, next buffer = some (item, rest) →
    ∀ more, next (buffer ++ more) = some (item, rest ++ more)

namespace Splitter

variable {α β : Type} (S : Splitter α β)

/-- The items at the front of the buffer, as many as there are, and what is left. -/
inductive Splits : List α → List β → List α → Prop
  | stop {buffer : List α} : S.next buffer = none → Splits buffer [] buffer
  | take {buffer rest last : List α} {item : β} {items : List β} :
      S.next buffer = some (item, rest) → Splits rest items last → Splits buffer (item :: items) last

theorem exists_splits (buffer : List α) : ∃ items rest, S.Splits buffer items rest := by
  induction hn : buffer.length using Nat.strongRecOn generalizing buffer with
  | ind n ih =>
    subst hn
    cases hnext : S.next buffer with
    | none => exact ⟨[], buffer, .stop hnext⟩
    | some taken =>
      obtain ⟨item, rest⟩ := taken
      obtain ⟨items, last, hsplits⟩ := ih _ (S.shrinks hnext) rest rfl
      exact ⟨item :: items, last, .take hnext hsplits⟩

namespace Splits

variable {S} {buffer rest rest' more : List α} {items items' : List β}

theorem next_rest (h : S.Splits buffer items rest) : S.next rest = none := by
  induction h with
  | stop hnext => exact hnext
  | take _ _ ih => exact ih

theorem unique (h : S.Splits buffer items rest) (h' : S.Splits buffer items' rest') :
    items = items' ∧ rest = rest' := by
  induction h generalizing items' with
  | stop hnext =>
    cases h' with
    | stop => exact ⟨rfl, rfl⟩
    | take hnext' => exact nomatch hnext.symm.trans hnext'
  | take hnext _ ih =>
    cases h' with
    | stop hnext' => exact nomatch hnext'.symm.trans hnext
    | take hnext' hsplits' =>
      obtain ⟨rfl, rfl⟩ := Prod.mk.inj (Option.some.inj (hnext.symm.trans hnext'))
      obtain ⟨rfl, rfl⟩ := ih hsplits'
      exact ⟨rfl, rfl⟩

/-- More arrives: the items that were taken stay, and the rest is taken apart with what has arrived. -/
theorem append (h : S.Splits buffer items rest) (h' : S.Splits (rest ++ more) items' rest') :
    S.Splits (buffer ++ more) (items ++ items') rest' := by
  induction h with
  | stop => exact h'
  | take hnext _ ih => exact .take (S.stable hnext more) (ih h')

/-- Items that were written one after the other are taken one by one. -/
theorem of_encoded {encode : β → List α} (hencode : ∀ item ∈ items, ∀ more, S.next (encode item ++ more) = some (item, more))
    (hrest : S.next rest = none) : S.Splits ((items.map encode).flatten ++ rest) items rest := by
  induction items with
  | nil => exact .stop hrest
  | cons item items ih =>
    rw [List.map_cons, List.flatten_cons, List.append_assoc]
    exact .take (hencode item List.mem_cons_self _) (ih fun i hi => hencode i (List.mem_cons_of_mem _ hi))

end Splits

/-- Items with a header of `k` symbols that says how many symbols follow it, up to a limit. A larger header stops the
reader for good. -/
def lengthPrefixed (k : Nat) (size : List α → Nat) (hk : 0 < k)
    (hsize : ∀ buffer more, k ≤ buffer.length → size (buffer ++ more) = size buffer) (limit : Nat) :
    Splitter α (List α) where
  next buffer :=
    if buffer.length < k ∨ limit < size buffer ∨ buffer.length < k + size buffer then none
    else some ((buffer.drop k).take (size buffer), buffer.drop (k + size buffer))
  shrinks {buffer item rest} h := by
    split at h
    · cases h
    · obtain ⟨-, rfl⟩ := Prod.mk.inj (Option.some.inj h)
      rw [List.length_drop]
      omega
  stable {buffer item rest} h more := by
    split at h
    · cases h
    · next hcomplete =>
      obtain ⟨rfl, rfl⟩ := Prod.mk.inj (Option.some.inj h)
      rw [not_or, not_or, Nat.not_lt, Nat.not_lt, Nat.not_lt] at hcomplete
      obtain ⟨hheader, hlimit, hbody⟩ := hcomplete
      rw [hsize buffer more hheader, if_neg (by rw [List.length_append]; omega), List.drop_append_of_le_length hheader,
        List.take_append_of_le_length (by rw [List.length_drop]; omega), List.drop_append_of_le_length hbody]

end Splitter

end Nukv.Base
