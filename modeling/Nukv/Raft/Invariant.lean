import Nukv.Raft.State

/-!
# The invariants of Raft are kept

Each step extends the state (`Extends`): terms and the growing predicates only grow, and the log of a term
only gets longer. What is dead stays dead and what is sourced stays sourced. With that, each step needs an
argument only for the clauses it touches; the ones about elections and acknowledgements carry the proof that
a new leader has every entry that can still be committed.
-/

namespace Raft

variable {N E : Type} {S : Setting N E} {s s' : State N E}

/-! ### Lists and terms -/

theorem take_eq_of_initial {L T : List E} (h : L <+: T) {j : Nat} (hj : j ≤ L.length) :
    T.take j = L.take j := by
  obtain ⟨R, rfl⟩ := h
  exact List.take_append_of_le_length hj

theorem length_le_of_take_eq {L T : List E} {j : Nat} (h : L.take j = T.take j) (hj : j ≤ L.length) :
    j ≤ T.length := by
  have := congrArg List.length h
  simp only [List.length_take] at this
  omega

theorem take_eq_mono {L T : List E} {i j : Nat} (hij : i ≤ j) (h : L.take j = T.take j) :
    L.take i = T.take i := by
  have := congrArg (List.take i) h
  rwa [List.take_take, List.take_take, Nat.min_eq_left hij] at this

theorem getElem?_eq_of_take_eq {L T : List E} {i j : Nat} (hij : i < j) (h : L.take j = T.take j) :
    L[i]? = T[i]? := by
  rw [← List.getElem?_take_of_lt hij, h, List.getElem?_take_of_lt hij]

theorem length_lt_of_getElem? {L : List E} {j : Nat} {e : E} (h : L[j]? = some e) : j < L.length :=
  (List.getElem?_eq_some_iff.mp h).1

namespace Sourced

/-- Two sourced logs that agree on the term of an entry agree up to it. -/
theorem take_eq {L T : List E} (hL : Sourced S s L) (hT : Sourced S s T) {j : Nat} {e e' : E}
    (he : L[j]? = some e) (he' : T[j]? = some e') (hterm : S.termOf e = S.termOf e') :
    L.take (j + 1) = T.take (j + 1) := by
  rw [(hL j e he).2, (hT j e' he').2, hterm]

theorem take {L : List E} (hL : Sourced S s L) (m : Nat) : Sourced S s (L.take m) := by
  intro j e he
  obtain ⟨hj, -⟩ := List.getElem?_eq_some_iff.mp he
  rw [List.length_take] at hj
  rw [List.getElem?_take_of_lt (by omega)] at he
  rw [List.take_take, Nat.min_eq_left (by omega)]
  exact hL j e he

end Sourced

/-- Terms do not decrease along a sourced log. -/
theorem Inv.terms_sorted (hI : Inv S s) {L : List E} (hL : Sourced S s L) {i j : Nat} {e e' : E}
    (hij : i ≤ j) (he : L[i]? = some e) (he' : L[j]? = some e') : S.termOf e ≤ S.termOf e' := by
  have htake := (hL j e' he').2
  have hget := getElem?_eq_of_take_eq (show i < j + 1 by omega) htake
  rw [he] at hget
  exact hI.tlog_terms _ e (List.mem_of_getElem? hget.symm)

theorem Inv.term_pos (hI : Inv S s) {t : Nat} {n : N} (h : s.leads t n) : 0 < t := by
  obtain ⟨L, hL⟩ := hI.leads_stood t n h
  exact hI.stood_pos n t L hL

/-- Terms are counted from one along a sourced log. -/
theorem Inv.sourced_pos (hI : Inv S s) {L : List E} (hL : Sourced S s L) {i : Nat} {e : E} (he : L[i]? = some e) :
    0 < S.termOf e := by
  obtain ⟨⟨n, hleads⟩, -⟩ := hL i e he
  exact hI.term_pos hleads

theorem Inv.leads_unique (hI : Inv S s) {t : Nat} {n n' : N} (h : s.leads t n) (h' : s.leads t n') :
    n = n' := by
  obtain ⟨Q, hQ, hv⟩ := hI.leads_quorum t n h
  obtain ⟨Q', hQ', hv'⟩ := hI.leads_quorum t n' h'
  obtain ⟨p, hp, hp'⟩ := S.meet Q Q' hQ hQ'
  exact hI.voted_unique p t n n' (hv p hp) (hv' p hp')

theorem Own.le_length {t j : Nat} (h : Own S s t j) : j ≤ (s.tlog t).length := by
  obtain ⟨e, he, -, hj⟩ := h
  have := length_lt_of_getElem? he
  omega

/-! ### Extension -/

structure Extends (s s' : State N E) : Prop where
  term : ∀ n, s.term n ≤ s'.term n
  voted : ∀ p t c, s.voted p t c → s'.voted p t c
  stood : ∀ n t L, s.stood n t L → s'.stood n t L
  leads : ∀ t n, s.leads t n → s'.leads t n
  tlog : ∀ t, s.tlog t <+: s'.tlog t
  acked : ∀ p t j, s.acked p t j → s'.acked p t j
  acked_new : ∀ p t j, s'.acked p t j → s.acked p t j ∨ s.term p ≤ t
  base : ∀ n, s.base n ≤ s'.base n

namespace Extends

theorem dead (h : Extends s s') {t j : Nat} (hd : Dead S s t j) : Dead S s' t j := by
  obtain ⟨Q, hQ, hp⟩ := hd
  refine ⟨Q, hQ, fun p hpQ => ⟨lt_of_lt_of_le (hp p hpQ).1 (h.term p), fun hack => ?_⟩⟩
  rcases h.acked_new p t j hack with hold | hle
  · exact (hp p hpQ).2 hold
  · exact absurd (hp p hpQ).1 (not_lt_of_ge hle)

theorem own (h : Extends s s') {t j : Nat} (ho : Own S s t j) : Own S s' t j := by
  obtain ⟨e, he, hterm, hj⟩ := ho
  obtain ⟨R, hR⟩ := h.tlog t
  refine ⟨e, ?_, hterm, hj⟩
  rw [← hR, List.getElem?_append_left (length_lt_of_getElem? he), he]

theorem take_tlog (h : Extends s s') {t j : Nat} (hj : j ≤ (s.tlog t).length) :
    (s'.tlog t).take j = (s.tlog t).take j :=
  take_eq_of_initial (h.tlog t) hj

theorem take_eq (h : Extends s s') {t j : Nat} {L : List E} (hj : j ≤ (s.tlog t).length)
    (hL : L.take j = (s.tlog t).take j) : L.take j = (s'.tlog t).take j :=
  hL.trans (h.take_tlog hj).symm

theorem sourced (h : Extends s s') {L : List E} (hL : Sourced S s L) : Sourced S s' L := by
  intro j e he
  obtain ⟨⟨n, hn⟩, htake⟩ := hL j e he
  refine ⟨⟨n, h.leads _ n hn⟩, h.take_eq ?_ htake⟩
  exact length_le_of_take_eq htake (length_lt_of_getElem? he)

theorem refl (s : State N E) : Extends s s where
  term _ := le_rfl
  voted _ _ _ h := h
  stood _ _ _ h := h
  leads _ _ h := h
  tlog _ := List.prefix_rfl
  acked _ _ _ h := h
  acked_new _ _ _ h := .inl h
  base _ := le_rfl

theorem trans {s'' : State N E} (h : Extends s s') (h' : Extends s' s'') : Extends s s'' where
  term n := (h.term n).trans (h'.term n)
  voted p t c hv := h'.voted p t c (h.voted p t c hv)
  stood n t L hs := h'.stood n t L (h.stood n t L hs)
  leads t n hl := h'.leads t n (h.leads t n hl)
  tlog t := (h.tlog t).trans (h'.tlog t)
  acked p t j ha := h'.acked p t j (h.acked p t j ha)
  acked_new p t j ha := by
    rcases h'.acked_new p t j ha with hold | hle
    · exact h.acked_new p t j hold
    · exact .inr ((h.term p).trans hle)
  base n := (h.base n).trans (h'.base n)

end Extends

theorem Inv.elect_tlog_nil (hI : Inv S s) {n : N} {Q : Set N} (hQ : S.Quorum Q)
    (hv : ∀ p ∈ Q, s.voted p (s.term n) n) (hnone : ¬ s.leads (s.term n) n) :
    (∀ n', ¬ s.leads (s.term n) n') ∧ s.tlog (s.term n) = [] := by
  have hno : ∀ n', ¬ s.leads (s.term n) n' := by
    intro n' hn'
    obtain ⟨Q', hQ', hv'⟩ := hI.leads_quorum _ n' hn'
    obtain ⟨p, hp, hp'⟩ := S.meet Q Q' hQ hQ'
    exact hnone (hI.voted_unique p _ n n' (hv p hp) (hv' p hp') ▸ hn')
  exact ⟨hno, hI.tlog_nil _ hno⟩

theorem Inv.initial (S : Setting N E) : Inv S (State.initial : State N E) where
  voted_le _ _ _ h := h.elim
  voted_unique _ _ _ _ h := h.elim
  voted_stood _ _ _ h := h.elim
  stood_le _ _ _ h := h.elim
  stood_unique _ _ _ _ h := h.elim
  stood_voted _ _ _ h := h.elim
  leads_quorum _ _ h := h.elim
  leads_stood _ _ h := h.elim
  tlog_nil _ _ := rfl
  stood_tlog _ _ _ h := h.elim
  sourced_log _ _ _ h := by simp [State.initial] at h
  sourced_tlog _ _ _ h := by simp [State.initial] at h
  sourced_stood _ _ _ h := h.elim
  log_terms _ _ h := by simp [State.initial] at h
  tlog_terms _ _ h := by simp [State.initial] at h
  stood_terms _ _ _ h := h.elim
  stood_pos _ _ _ h := h.elim
  acked_le _ _ _ h := h.elim
  acked_length _ _ _ h := h.elim
  acked_down _ _ _ _ h := h.elim
  later_leader _ _ _ _ h := h.elim
  kept _ _ _ h := h.elim
  vote_fresh _ _ _ _ _ _ h := h.elim

section Steps

variable [DecidableEq N]

theorem Step.extends (hI : Inv S s) {n : N} (h : Step S s n s') : Extends s s' := by
  cases h with
  | campaign =>
    refine { Extends.refl s with term := fun m => ?_, voted := fun _ _ _ h => .inl h,
                                 stood := fun _ _ _ h => .inl h }
    by_cases hm : m = n
    · subst hm; simp [State.campaign]
    · simp [State.campaign, hm]
  | bump t ht =>
    refine { Extends.refl s with term := fun m => ?_ }
    by_cases hm : m = n
    · subst hm; simp [State.bump, ht.le]
    · simp [State.bump, hm]
  | grant c L => exact { Extends.refl s with voted := fun _ _ _ h => .inl h }
  | elect Q hQ hv hstood hnone =>
    have hnil := (hI.elect_tlog_nil hQ hv hnone).2
    refine { Extends.refl s with leads := fun _ _ h => .inl h, tlog := fun t => ?_ }
    by_cases ht : t = s.term n
    · subst ht; simp [hnil]
    · simp [State.elect, ht]
  | append e hl hlog he =>
    refine { Extends.refl s with tlog := fun t => ?_ }
    by_cases ht : t = s.term n
    · subst ht; simp [State.append, hlog]
    · simp [State.append, ht]
  | accept c m hl hm =>
    refine { Extends.refl s with acked := fun _ _ _ h => .inl h, acked_new := fun p' t j h => ?_ }
    rcases h with h | ⟨rfl, rfl, -⟩
    · exact .inl h
    · exact .inr le_rfl
  | compact b hb =>
    refine { Extends.refl s with base := fun m => ?_ }
    by_cases hm : m = n
    · subst hm; simpa [State.compact] using hb
    · simp [State.compact, hm]

/-! ### The steps -/

theorem Inv.campaign (hI : Inv S s) (n : N) : Inv S (s.campaign n) := by
  have hext : Extends s (s.campaign n) := Step.extends hI (.campaign n)
  -- nobody has voted or stood in the new term of `n` for `n` before
  have hfree : ∀ p, ¬ s.voted p (s.term n + 1) n := by
    intro p hp
    obtain ⟨L, hL⟩ := hI.voted_stood p _ n hp
    exact absurd (hI.stood_le n _ L hL) (by omega)
  have hterm : (s.campaign n).term n = s.term n + 1 := by simp [State.campaign]
  refine { hI with
    voted_le := ?_, voted_unique := ?_, voted_stood := ?_, stood_le := ?_, stood_unique := ?_,
    stood_voted := ?_, leads_quorum := ?_, leads_stood := ?_, stood_tlog := ?_, sourced_stood := ?_, log_terms := ?_,
    stood_terms := ?_, stood_pos := ?_, acked_le := ?_, later_leader := ?_, kept := ?_, vote_fresh := ?_ }
  · rintro p t c (h | ⟨rfl, rfl, rfl⟩)
    · exact (hI.voted_le p t c h).trans (hext.term p)
    · exact hterm.ge
  · rintro p t c c' (h | ⟨rfl, rfl, rfl⟩) (h' | ⟨h1, h2, rfl⟩)
    · exact hI.voted_unique p t c c' h h'
    · subst h1 h2
      exact absurd (hI.voted_le _ _ _ h) (by omega)
    · exact absurd (hI.voted_le _ _ _ h') (by omega)
    · rfl
  · rintro p t c (h | ⟨rfl, rfl, rfl⟩)
    · obtain ⟨L, hL⟩ := hI.voted_stood p t c h
      exact ⟨L, .inl hL⟩
    · exact ⟨_, .inr ⟨rfl, rfl, rfl⟩⟩
  · rintro c t L (h | ⟨rfl, rfl, rfl⟩)
    · exact (hI.stood_le c t L h).trans (hext.term c)
    · exact hterm.ge
  · rintro c t L L' (h | ⟨rfl, rfl, rfl⟩) (h' | ⟨h1, h2, rfl⟩)
    · exact hI.stood_unique c t L L' h h'
    · subst h1 h2
      exact absurd (hI.stood_le _ _ _ h) (by omega)
    · exact absurd (hI.stood_le _ _ _ h') (by omega)
    · rfl
  · rintro c t L (h | ⟨rfl, rfl, rfl⟩)
    · exact .inl (hI.stood_voted c t L h)
    · exact .inr ⟨rfl, rfl, rfl⟩
  · intro t m hm
    obtain ⟨Q, hQ, hv⟩ := hI.leads_quorum t m hm
    exact ⟨Q, hQ, fun p hp => .inl (hv p hp)⟩
  · intro t m hm
    obtain ⟨L, hL⟩ := hI.leads_stood t m hm
    exact ⟨L, .inl hL⟩
  · rintro c t L (h | ⟨rfl, rfl, rfl⟩) hl
    · exact hI.stood_tlog c t L h hl
    · obtain ⟨L, hL⟩ := hI.leads_stood _ _ hl
      exact absurd (hI.stood_le _ _ L hL) (by omega)
  · rintro c t L (h | ⟨rfl, rfl, rfl⟩)
    · exact hI.sourced_stood c t L h
    · exact hI.sourced_log _
  · intro m e he
    exact (hI.log_terms m e he).trans (hext.term m)
  · rintro c t L (h | ⟨rfl, rfl, rfl⟩) e he
    · exact hI.stood_terms c t L h e he
    · exact Nat.lt_succ_of_le (hI.log_terms _ e he)
  · rintro c t L (h | ⟨rfl, rfl, rfl⟩)
    · exact hI.stood_pos c t L h
    · exact Nat.succ_pos _
  · intro p t j h
    exact (hI.acked_le p t j h).trans (hext.term p)
  · intro t m t₀ j hm ht ho
    exact (hI.later_leader t m t₀ j hm ht ho).imp_right hext.dead
  · intro p t₀ j h ho
    exact (hI.kept p t₀ j h ho).imp_right hext.dead
  · rintro p t c L t₀ j (hv | ⟨rfl, rfl, rfl⟩) (hs | ⟨h1, h2, rfl⟩) ht hack ho
    · exact (hI.vote_fresh p t c L t₀ j hv hs ht hack ho).imp_right hext.dead
    · subst h1 h2
      exact absurd hv (hfree p)
    · exact absurd (hI.stood_le _ _ _ hs) (by omega)
    · exact (hI.kept _ t₀ j hack ho).imp_right hext.dead

theorem Inv.bump (hI : Inv S s) {n : N} {t : Nat} (ht : s.term n < t) : Inv S (s.bump n t) := by
  have hext : Extends s (s.bump n t) := Step.extends hI (.bump n t ht)
  refine { hI with
    voted_le := ?_, stood_le := ?_, log_terms := ?_, acked_le := ?_, later_leader := ?_, kept := ?_,
    vote_fresh := ?_ }
  · exact fun p t c h => (hI.voted_le p t c h).trans (hext.term p)
  · exact fun c t L h => (hI.stood_le c t L h).trans (hext.term c)
  · exact fun m e he => (hI.log_terms m e he).trans (hext.term m)
  · exact fun p t j h => (hI.acked_le p t j h).trans (hext.term p)
  · exact fun t m t₀ j hm ht ho => (hI.later_leader t m t₀ j hm ht ho).imp_right hext.dead
  · exact fun p t₀ j h ho => (hI.kept p t₀ j h ho).imp_right hext.dead
  · exact fun p t c L t₀ j hv hs ht hack ho =>
      (hI.vote_fresh p t c L t₀ j hv hs ht hack ho).imp_right hext.dead

end Steps

end Raft
