import Mathlib.Logic.Relation
import Nukv.Raft.Commit

/-!
# Several steps of one node

A step of an implementation is often several steps of the protocol at once, all taken by one node. What a
step keeps, a sequence of steps keeps.
-/

namespace Raft

variable {N E : Type} {S : Setting N E} {s s' s'' : State N E}

/-! ### Reading terms off logs -/

theorem lastTerm_take {termOf : E → Nat} {L : List E} {j : Nat} {e : E} (h : L[j]? = some e) :
    lastTerm termOf (L.take (j + 1)) = termOf e := by
  have hj := length_lt_of_getElem? h
  refine lastTerm_eq ?_
  rw [List.length_take, Nat.min_eq_left hj, Nat.succ_sub_one, List.getElem?_take_of_lt (Nat.lt_succ_self j), h]

theorem lastTerm_append_singleton (termOf : E → Nat) (L : List E) (e : E) :
    lastTerm termOf (L ++ [e]) = termOf e := by
  simp [lastTerm]

/-- A beginning of a log whose entries stem from their leaders. -/
theorem Sourced.initial {L T : List E} (hT : Sourced S s T) (hL : L <+: T) : Sourced S s L := by
  intro j e he
  obtain ⟨R, rfl⟩ := hL
  have hj : j < L.length := length_lt_of_getElem? he
  obtain ⟨hleads, htake⟩ := hT j e (by rw [List.getElem?_append_left hj, he])
  rw [List.take_append_of_le_length hj] at htake
  exact ⟨hleads, htake⟩

/-- A beginning of a sourced log is one of the log of the term it ends with. -/
theorem Sourced.take_eq_tlog {L : List E} (hL : Sourced S s L) {j : Nat} (hj : j ≤ L.length) :
    L.take j = (s.tlog (lastTerm S.termOf (L.take j))).take j := by
  cases j with
  | zero => rw [List.take_zero, List.take_zero]
  | succ k =>
    have hentry : L[k]? = some L[k] := List.getElem?_eq_getElem hj
    rw [lastTerm_take hentry]
    exact (hL k _ hentry).2

/-- Two sourced logs that end a beginning of the same length with the same term agree on it. -/
theorem Sourced.take_eq_of_lastTerm {L T : List E} (hL : Sourced S s L) (hT : Sourced S s T) {j : Nat}
    (hj : j ≤ L.length) (hj' : j ≤ T.length)
    (hterm : lastTerm S.termOf (L.take j) = lastTerm S.termOf (T.take j)) : L.take j = T.take j := by
  cases j with
  | zero => rw [List.take_zero, List.take_zero]
  | succ j =>
    have he : L[j]? = some L[j] := List.getElem?_eq_getElem hj
    have he' : T[j]? = some T[j] := List.getElem?_eq_getElem hj'
    rw [lastTerm_take he, lastTerm_take he'] at hterm
    exact hL.take_eq hT he he' hterm

theorem Inv.lastTerm_le (hI : Inv S s) (n : N) (j : Nat) :
    lastTerm S.termOf ((s.log n).take j) ≤ s.term n := by
  unfold lastTerm
  cases h : ((s.log n).take j).getLast? with
  | none => exact Nat.zero_le _
  | some e => exact hI.log_terms n e (List.mem_of_mem_take (List.mem_of_getLast? h))

theorem Inv.stood_lastTerm (hI : Inv S s) {n : N} {t : Nat} {L : List E} (h : s.stood n t L) (j : Nat) :
    lastTerm S.termOf (L.take j) < t := by
  unfold lastTerm
  cases hlast : (L.take j).getLast? with
  | none => exact hI.stood_pos n t L h
  | some e => exact hI.stood_terms n t L h e (List.mem_of_mem_take (List.mem_of_getLast? hlast))

/-! ### Agreement -/

theorem Agreed.max {t c c' : Nat} {L : List E} (h : Agreed S s t c L) (h' : Agreed S s t c' L) :
    Agreed S s t (max c c') L := by
  rcases Nat.le_total c c' with hle | hle
  · rwa [Nat.max_eq_right hle]
  · rwa [Nat.max_eq_left hle]

/-- A later leader stood for election with what is agreed. -/
theorem Agreed.take_stood (hI : Inv S s) {t t' c : Nat} {n : N} {L L' : List E} (h : Agreed S s t c L)
    (hstood : s.stood n t' L') (hl : s.leads t' n) (ht : t < t') : L'.take c = L.take c := by
  rw [← h.take_tlog hI hl ht.le]
  rcases h with rfl | ⟨t₀, j, ht₀, hj, hcom, -⟩
  · rw [List.take_zero, List.take_zero]
  · obtain ⟨R, hR, hterms⟩ := hI.stood_tlog n t' L' hstood hl
    have hlength : j ≤ L'.length := by
      by_contra hcon
      -- the committed entry would be one that the later leader has appended itself
      obtain ⟨e, he, hte⟩ := hcom.1.entry (hI.leader_completeness hcom hl (ht₀.trans ht.le))
      rw [hR, List.getElem?_append_right (by omega)] at he
      have := hterms e (List.mem_of_getElem? he)
      omega
    rw [hR, List.take_append_of_le_length (hj.trans hlength)]

theorem Apart.refl (s : State N E) (m : N) : Apart s s m :=
  ⟨rfl, rfl, rfl, fun _ _ => Iff.rfl, fun _ => Iff.rfl, fun _ _ => rfl⟩

theorem Apart.trans {m : N} (h : Apart s s' m) (h' : Apart s' s'' m) : Apart s s'' m where
  term := h'.term.trans h.term
  log := h'.log.trans h.log
  base := h'.base.trans h.base
  voted t c := (h'.voted t c).trans (h.voted t c)
  leads t := (h'.leads t).trans (h.leads t)
  tlog t hl := (h'.tlog t ((h.leads t).mpr hl)).trans (h.tlog t hl)

section Steps

variable [DecidableEq N]

/-- The node `n` takes any number of steps. -/
def Steps (S : Setting N E) (n : N) : State N E → State N E → Prop :=
  Relation.ReflTransGen fun s s' => Step S s n s'

variable {n : N}

theorem Steps.refl (S : Setting N E) (n : N) (s : State N E) : Steps S n s s := Relation.ReflTransGen.refl

theorem Steps.single (h : Step S s n s') : Steps S n s s' := Relation.ReflTransGen.single h

theorem Steps.tail (h : Steps S n s s') (h' : Step S s' n s'') : Steps S n s s'' :=
  Relation.ReflTransGen.tail h h'

theorem Steps.trans (h : Steps S n s s') (h' : Steps S n s' s'') : Steps S n s s'' :=
  Relation.ReflTransGen.trans h h'

theorem Inv.steps (hI : Inv S s) (h : Steps S n s s') : Inv S s' := by
  induction h with
  | refl => exact hI
  | tail _ hstep ih => exact ih.step hstep

theorem Steps.extends (h : Steps S n s s') (hI : Inv S s) : Extends s s' := by
  induction h with
  | refl => exact Extends.refl s
  | tail hsteps hstep ih => exact ih.trans (hstep.extends (hI.steps hsteps))

theorem Steps.apart (h : Steps S n s s') (hI : Inv S s) {m : N} (hm : m ≠ n) : Apart s s' m := by
  induction h with
  | refl => exact Apart.refl s m
  | tail hsteps hstep ih => exact ih.trans (hstep.apart (hI.steps hsteps) hm)

theorem Agreed.steps (h : Steps S n s s') (hI : Inv S s) {m : N} {c : Nat}
    (ha : Agreed S s (s.term m) c (s.log m)) : Agreed S s' (s'.term m) c (s'.log m) := by
  induction h with
  | refl => exact ha
  | tail hsteps hstep ih => exact ih.step (hI.steps hsteps) hstep

/-- What a node has agreed to stays in its log. -/
theorem Agreed.take_steps (h : Steps S n s s') (hI : Inv S s) {m : N} {c : Nat}
    (ha : Agreed S s (s.term m) c (s.log m)) : (s'.log m).take c = (s.log m).take c :=
  (ha.steps h hI).unique (hI.steps h) (ha.grow (h.extends hI)) le_rfl

theorem Probed.steps (h : Steps S n s s') (hI : Inv S s) {p : N} {t k : Nat} (hp : Probed S s p t k) :
    Probed S s' p t k := by
  induction h with
  | refl => exact hp
  | tail hsteps hstep ih => exact ih.step (hI.steps hsteps) hstep

/-- Any nodes take any number of steps. -/
def Reaches (S : Setting N E) : State N E → State N E → Prop :=
  Relation.ReflTransGen fun s s' => ∃ n, Steps S n s s'

theorem Inv.reaches (hI : Inv S s) (h : Reaches S s s') : Inv S s' := by
  induction h with
  | refl => exact hI
  | tail _ hsteps ih =>
    obtain ⟨n, hsteps⟩ := hsteps
    exact ih.steps hsteps

theorem Reaches.extends (h : Reaches S s s') (hI : Inv S s) : Extends s s' := by
  induction h with
  | refl => exact Extends.refl s
  | tail hreaches hsteps ih =>
    obtain ⟨n, hsteps⟩ := hsteps
    exact ih.trans (hsteps.extends (hI.reaches hreaches))

theorem Agreed.take_reaches (h : Reaches S s s') (hI : Inv S s) {m : N} {c : Nat}
    (ha : Agreed S s (s.term m) c (s.log m)) :
    Agreed S s' (s'.term m) c (s'.log m) ∧ (s'.log m).take c = (s.log m).take c := by
  induction h with
  | refl => exact ⟨ha, rfl⟩
  | tail hreaches hsteps ih =>
    obtain ⟨n, hsteps⟩ := hsteps
    have hI' := hI.reaches hreaches
    exact ⟨ih.1.steps hsteps hI', (ih.1.take_steps hsteps hI').trans ih.2⟩

/-- A leader only ever adds entries of its own term to its log. -/
theorem Reaches.leader_appends (h : Reaches S s s') (hI : Inv S s) {t : Nat} {n : N} (hl : s.leads t n) :
    ∃ R, s'.tlog t = s.tlog t ++ R ∧ ∀ e ∈ R, S.termOf e = t := by
  have hext := h.extends hI
  obtain ⟨L, hstood⟩ := hI.leads_stood t n hl
  obtain ⟨R₀, hR₀, -⟩ := hI.stood_tlog n t L hstood hl
  obtain ⟨R', hR', hterms⟩ := (hI.reaches h).stood_tlog n t L (hext.stood n t L hstood) (hext.leads t n hl)
  obtain ⟨R, hR⟩ := hext.tlog t
  refine ⟨R, hR.symm, fun e he => hterms e ?_⟩
  have hsplit : L ++ (R₀ ++ R) = L ++ R' := by rw [← List.append_assoc, ← hR₀, hR, hR']
  rw [← List.append_cancel_left hsplit]
  exact List.mem_append_right _ he

/-! ### What is acknowledged is there -/

/-- What a node has acknowledged in its present term it has. -/
def Steady (s : State N E) : Prop :=
  ∀ p j, s.acked p (s.term p) j → (s.log p).take j = (s.tlog (s.term p)).take j

omit [DecidableEq N] in
theorem Steady.initial : Steady (State.initial : State N E) := fun _ _ h => h.elim

theorem Steady.step (hI : Inv S s) (hs : Steady s) (h : Step S s n s') : Steady s' := by
  intro p j hacked
  have hext := h.extends hI
  have hold : s.acked p (s'.term p) j → (s'.log p).take j = (s'.tlog (s'.term p)).take j := by
    intro hacked
    have hterm : s'.term p = s.term p := Nat.le_antisymm (hI.acked_le _ _ _ hacked) (hext.term p)
    rw [hterm] at hacked ⊢
    have hlength := hI.acked_length _ _ _ hacked
    have htake := hs p j hacked
    rw [hext.take_tlog hlength]
    rcases h.log_cases p with hsame | ⟨e, happend⟩ | ⟨m, c, -, hadopt⟩
    · rw [hsame, htake]
    · rw [happend, List.take_append_of_le_length (length_le_of_take_eq htake.symm hlength), htake]
    · rw [hadopt]
      exact take_adopt_of_take_eq htake
  cases h with
  | accept c m hl hm =>
    rcases hacked with hacked | ⟨rfl, -, hj⟩
    · exact hold hacked
    · have hlog : (s.accept p m).log p = adopt m (s.tlog (s.term p)) (s.log p) := Function.update_self ..
      rw [hlog]
      exact take_adopt j hj
  | _ => exact hold hacked

theorem Steady.steps (hI : Inv S s) (hs : Steady s) (h : Steps S n s s') : Steady s' := by
  induction h with
  | refl => exact hs
  | tail hsteps hstep ih => exact ih.step (hI.steps hsteps) hstep

end Steps

end Raft
