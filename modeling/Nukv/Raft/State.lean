import Mathlib.Data.List.Basic
import Mathlib.Data.List.Infix
import Mathlib.Data.Set.Basic
import Mathlib.Logic.Function.Basic

/-!
# Raft, abstractly

The protocol without messages, over any type of nodes and of log entries. The state keeps what can never
be taken back as predicates that only grow: who voted for whom, with which log a node stood for election,
who leads a term, and which index of a leader's log a node has acknowledged. A node's log is the whole log;
`base` marks how much of its beginning the node has given up.

A node's log changes in two ways: the leader of a term appends to it, and any node of that term accepts a
beginning of the leader's log. Replication by entries and by snapshots are both the second step.
-/

namespace Raft

/-- The parameters of the protocol. -/
structure Setting (N E : Type) where
  termOf : E → Nat
  Quorum : Set N → Prop
  meet : ∀ Q Q', Quorum Q → Quorum Q' → ∃ n, n ∈ Q ∧ n ∈ Q'

structure State (N E : Type) where
  term : N → Nat
  log : N → List E
  base : N → Nat
  /-- `voted p t c`: in term `t` the node `p` voted for `c`. -/
  voted : N → Nat → N → Prop
  /-- `stood n t L`: the node `n` stood in term `t` with the log `L`. -/
  stood : N → Nat → List E → Prop
  leads : Nat → N → Prop
  /-- The log of the leader of a term. -/
  tlog : Nat → List E
  /-- `acked p t j`: while in term `t`, the log of `p` agreed with the leader's up to `j`. -/
  acked : N → Nat → Nat → Prop

variable {N E : Type}

def State.initial : State N E where
  term := fun _ => 0
  log := fun _ => []
  base := fun _ => 0
  voted := fun _ _ _ => False
  stood := fun _ _ _ => False
  leads := fun _ _ => False
  tlog := fun _ => []
  acked := fun _ _ _ => False

section Logs

variable (termOf : E → Nat)

def lastTerm (L : List E) : Nat := (L.getLast?.map termOf).getD 0

/-- A candidate's log `L` is at least as good as `L'`. -/
def UpToDate (L L' : List E) : Prop :=
  lastTerm termOf L' < lastTerm termOf L ∨ lastTerm termOf L = lastTerm termOf L' ∧ L'.length ≤ L.length

end Logs

open Classical in
/-- The log after accepting the first `m` entries of `T`: unchanged if it has them, else exactly them. -/
noncomputable def adopt (m : Nat) (T L : List E) : List E := if L.take m = T.take m then L else T.take m

section Steps

variable [DecidableEq N]

namespace State

def campaign (s : State N E) (n : N) : State N E :=
  { s with
    term := Function.update s.term n (s.term n + 1)
    voted := fun p t c => s.voted p t c ∨ p = n ∧ t = s.term n + 1 ∧ c = n
    stood := fun c t L => s.stood c t L ∨ c = n ∧ t = s.term n + 1 ∧ L = s.log n }

def bump (s : State N E) (n : N) (t : Nat) : State N E :=
  { s with term := Function.update s.term n t }

def grant (s : State N E) (p c : N) : State N E :=
  { s with voted := fun p' t c' => s.voted p' t c' ∨ p' = p ∧ t = s.term p ∧ c' = c }

def elect (s : State N E) (n : N) : State N E :=
  { s with
    leads := fun t n' => s.leads t n' ∨ t = s.term n ∧ n' = n
    tlog := Function.update s.tlog (s.term n) (s.log n) }

def append (s : State N E) (n : N) (e : E) : State N E :=
  { s with
    log := Function.update s.log n (s.log n ++ [e])
    tlog := Function.update s.tlog (s.term n) (s.log n ++ [e]) }

noncomputable def accept (s : State N E) (p : N) (m : Nat) : State N E :=
  { s with
    log := Function.update s.log p (adopt m (s.tlog (s.term p)) (s.log p))
    acked := fun p' t j => s.acked p' t j ∨ p' = p ∧ t = s.term p ∧ j ≤ m }

def compact (s : State N E) (n : N) (b : Nat) : State N E :=
  { s with base := Function.update s.base n b }

end State

/-- The steps of the protocol, each taken by one node. -/
inductive Step (S : Setting N E) (s : State N E) : N → State N E → Prop
  | campaign (n : N) : Step S s n (s.campaign n)
  | bump (n : N) (t : Nat) : s.term n < t → Step S s n (s.bump n t)
  | grant (p c : N) (L : List E) :
      (∀ c', s.voted p (s.term p) c' → c' = c) → s.stood c (s.term p) L →
        UpToDate S.termOf L (s.log p) → Step S s p (s.grant p c)
  | elect (n : N) (Q : Set N) :
      S.Quorum Q → (∀ p ∈ Q, s.voted p (s.term n) n) → s.stood n (s.term n) (s.log n) →
        ¬ s.leads (s.term n) n → Step S s n (s.elect n)
  | append (n : N) (e : E) :
      s.leads (s.term n) n → s.tlog (s.term n) = s.log n → S.termOf e = s.term n →
        Step S s n (s.append n e)
  | accept (p n : N) (m : Nat) :
      s.leads (s.term p) n → m ≤ (s.tlog (s.term p)).length → Step S s p (s.accept p m)
  | compact (n : N) (b : Nat) : s.base n ≤ b → Step S s n (s.compact n b)

end Steps

/-! ### Invariants -/

section Invariants

variable (S : Setting N E) (s : State N E)

/-- The entry at position `j` of the log of a term belongs to the term itself. -/
def Own (t j : Nat) : Prop := ∃ e, (s.tlog t)[j - 1]? = some e ∧ S.termOf e = t ∧ 1 ≤ j

/-- No quorum can any more acknowledge index `j` of term `t`. -/
def Dead (t j : Nat) : Prop := ∃ Q, S.Quorum Q ∧ ∀ p ∈ Q, t < s.term p ∧ ¬ s.acked p t j

/-- Every entry, with all that comes before it, stems from the leader of its term. -/
def Sourced (L : List E) : Prop :=
  ∀ j e, L[j]? = some e → (∃ n, s.leads (S.termOf e) n) ∧ L.take (j + 1) = (s.tlog (S.termOf e)).take (j + 1)

structure Inv : Prop where
  voted_le : ∀ p t c, s.voted p t c → t ≤ s.term p
  voted_unique : ∀ p t c c', s.voted p t c → s.voted p t c' → c = c'
  voted_stood : ∀ p t c, s.voted p t c → ∃ L, s.stood c t L
  stood_le : ∀ n t L, s.stood n t L → t ≤ s.term n
  stood_unique : ∀ n t L L', s.stood n t L → s.stood n t L' → L = L'
  stood_voted : ∀ n t L, s.stood n t L → s.voted n t n
  leads_quorum : ∀ t n, s.leads t n → ∃ Q, S.Quorum Q ∧ ∀ p ∈ Q, s.voted p t n
  leads_stood : ∀ t n, s.leads t n → ∃ L, s.stood n t L
  tlog_nil : ∀ t, (∀ n, ¬ s.leads t n) → s.tlog t = []
  /-- A leader's log is the one it stood with, followed by entries of its term. -/
  stood_tlog : ∀ n t L, s.stood n t L → s.leads t n → ∃ R, s.tlog t = L ++ R ∧ ∀ e ∈ R, S.termOf e = t
  sourced_log : ∀ n, Sourced S s (s.log n)
  sourced_tlog : ∀ t, Sourced S s (s.tlog t)
  sourced_stood : ∀ n t L, s.stood n t L → Sourced S s L
  log_terms : ∀ n, ∀ e ∈ s.log n, S.termOf e ≤ s.term n
  tlog_terms : ∀ t, ∀ e ∈ s.tlog t, S.termOf e ≤ t
  stood_terms : ∀ n t L, s.stood n t L → ∀ e ∈ L, S.termOf e < t
  stood_pos : ∀ n t L, s.stood n t L → 0 < t
  acked_le : ∀ p t j, s.acked p t j → t ≤ s.term p
  acked_length : ∀ p t j, s.acked p t j → j ≤ (s.tlog t).length
  acked_down : ∀ p t j i, s.acked p t j → i ≤ j → s.acked p t i
  /-- Later leaders have what may still be committed. -/
  later_leader : ∀ t n t₀ j, s.leads t n → t₀ < t → Own S s t₀ j →
    (s.tlog t).take j = (s.tlog t₀).take j ∨ Dead S s t₀ j
  /-- A node keeps what it acknowledged. -/
  kept : ∀ p t₀ j, s.acked p t₀ j → Own S s t₀ j →
    (s.log p).take j = (s.tlog t₀).take j ∨ Dead S s t₀ j
  /-- A vote goes to a candidate that has what the voter acknowledged. -/
  vote_fresh : ∀ p t c L t₀ j, s.voted p t c → s.stood c t L → t₀ < t → s.acked p t₀ j → Own S s t₀ j →
    L.take j = (s.tlog t₀).take j ∨ Dead S s t₀ j

end Invariants

end Raft
