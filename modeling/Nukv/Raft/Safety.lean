import Nukv.Raft.Invariant

/-!
# Elections, replication and leader completeness

The remaining steps keep the invariants, so they hold in every run of the protocol; and an index of a
leader's own term that a quorum has acknowledged is in the log of every later leader.
-/

namespace Raft

variable {N E : Type} {S : Setting N E} {s s' : State N E}

/-! ### Votes -/

theorem lastTerm_eq {termOf : E → Nat} {L : List E} {e : E} (h : L[L.length - 1]? = some e) :
    lastTerm termOf L = termOf e := by
  unfold lastTerm
  rw [List.getLast?_eq_getElem?, h]
  rfl

/-- A log that contains an entry has a last entry. -/
theorem exists_last {L : List E} {j : Nat} (h : j < L.length) : ∃ e, L[L.length - 1]? = some e :=
  ⟨_, List.getElem?_eq_getElem (by omega)⟩

/-- The entry at an index of the leader's own term, in a log that agrees with the leader's up to it. -/
theorem Own.entry {t j : Nat} (h : Own S s t j) {L : List E} (hL : L.take j = (s.tlog t).take j) :
    ∃ e, L[j - 1]? = some e ∧ S.termOf e = t := by
  obtain ⟨e, he, hterm, hj⟩ := h
  exact ⟨e, by rw [getElem?_eq_of_take_eq (show j - 1 < j by omega) hL, he], hterm⟩

/-- The up-to-date check carries what may be committed from the voter to the candidate. -/
theorem Inv.upToDate_take (hI : Inv S s) {L V : List E} {t₀ j : Nat} (hL : Sourced S s L)
    (hV : Sourced S s V) (hup : UpToDate S.termOf L V) (ho : Own S s t₀ j)
    (hkept : V.take j = (s.tlog t₀).take j) :
    L.take j = (s.tlog t₀).take j ∨ Dead S s t₀ j := by
  obtain ⟨e, he, hterm⟩ := ho.entry hkept
  have hj : 1 ≤ j := by obtain ⟨-, -, -, h⟩ := ho; exact h
  have hjV : j - 1 < V.length := length_lt_of_getElem? he
  obtain ⟨v, hv⟩ := exists_last hjV
  have hv0 : t₀ ≤ S.termOf v := hterm ▸ hI.terms_sorted hV (by omega) he hv
  have hlastV : lastTerm S.termOf V = S.termOf v := lastTerm_eq hv
  -- the candidate's last term is at least the voter's, so its log is not empty
  have hle : S.termOf v ≤ lastTerm S.termOf L := by
    rw [← hlastV]
    rcases hup with h | ⟨h, -⟩ <;> omega
  have hpos : 0 < t₀ := hterm ▸ hI.sourced_pos hV he
  have hne : 0 < L.length := by
    rcases Nat.eq_zero_or_pos L.length with h | h
    · rw [List.length_eq_zero_iff.mp h] at hle
      simp only [lastTerm, List.getLast?_nil, Option.map_none, Option.getD_none] at hle
      omega
    · exact h
  obtain ⟨l, hl⟩ := exists_last hne
  have hlastL : lastTerm S.termOf L = S.termOf l := lastTerm_eq hl
  have hsrc := (hL _ l hl).2
  obtain ⟨⟨n, hn⟩, -⟩ := hL _ l hl
  rw [Nat.sub_add_cancel hne] at hsrc
  rcases Nat.lt_or_ge t₀ (S.termOf l) with hlt | hge
  · -- a later leader's log: it agrees already, and the last entry lies past `j`
    rcases hI.later_leader _ n t₀ j hn hlt ho with hagree | hdead
    · obtain ⟨e', he', hterm'⟩ := ho.entry hagree
      have hlen : j ≤ L.length := by
        by_contra hcon
        have hl' : (s.tlog (S.termOf l))[L.length - 1]? = some l := by
          rw [← getElem?_eq_of_take_eq (show L.length - 1 < L.length by omega) hsrc, hl]
        have := hI.terms_sorted (hI.sourced_tlog _) (by omega) hl' he'
        omega
      exact .inl ((take_eq_mono hlen hsrc).trans hagree)
    · exact .inr hdead
  · -- the same leader's log: the candidate's is at least as long
    have hEq : S.termOf l = t₀ := by omega
    rw [hEq] at hsrc
    have hlen : V.length ≤ L.length := by
      rcases hup with h | ⟨-, h⟩
      · omega
      · exact h
    exact .inl (take_eq_mono (by omega) hsrc)

theorem Inv.grant (hI : Inv S s) {p c : N} {L : List E}
    (hfree : ∀ c', s.voted p (s.term p) c' → c' = c) (hstood : s.stood c (s.term p) L)
    (hup : UpToDate S.termOf L (s.log p)) : Inv S (s.grant p c) := by
  refine { hI with
    voted_le := ?_, voted_unique := ?_, voted_stood := ?_, stood_voted := ?_, leads_quorum := ?_,
    vote_fresh := ?_ }
  · rintro p' t c' (h | ⟨rfl, rfl, rfl⟩)
    · exact hI.voted_le p' t c' h
    · exact le_rfl
  · rintro p' t c₁ c₂ (h | ⟨h1, h2, h3⟩) (h' | ⟨h1', h2', h3'⟩)
    · exact hI.voted_unique p' t c₁ c₂ h h'
    · subst h1' h2' h3'
      exact hfree c₁ h
    · subst h1 h2 h3
      exact (hfree c₂ h').symm
    · rw [h3, h3']
  · rintro p' t c' (h | ⟨rfl, rfl, rfl⟩)
    · exact hI.voted_stood p' t c' h
    · exact ⟨L, hstood⟩
  · exact fun c' t L' h => .inl (hI.stood_voted c' t L' h)
  · intro t m hm
    obtain ⟨Q, hQ, hv⟩ := hI.leads_quorum t m hm
    exact ⟨Q, hQ, fun p hp => .inl (hv p hp)⟩
  · rintro p' t c' L' t₀ j (hv | ⟨rfl, rfl, rfl⟩) hs ht hack ho
    · exact hI.vote_fresh p' t c' L' t₀ j hv hs ht hack ho
    · obtain rfl := hI.stood_unique _ _ _ _ hstood hs
      rcases hI.kept _ t₀ j hack ho with hkept | hdead
      · exact hI.upToDate_take (hI.sourced_stood _ _ _ hs) (hI.sourced_log _) hup ho hkept
      · exact .inr hdead

section Steps

variable [DecidableEq N]

theorem Inv.elect (hI : Inv S s) {n : N} {Q : Set N} (hQ : S.Quorum Q)
    (hv : ∀ p ∈ Q, s.voted p (s.term n) n) (hstood : s.stood n (s.term n) (s.log n))
    (hnone : ¬ s.leads (s.term n) n) : Inv S (s.elect n) := by
  have hext : Extends s (s.elect n) := Step.extends hI (.elect n Q hQ hv hstood hnone)
  obtain ⟨hno, hnil⟩ := hI.elect_tlog_nil hQ hv hnone
  have htlog : (s.elect n).tlog (s.term n) = s.log n := by simp [State.elect]
  have htlog' : ∀ t, t ≠ s.term n → (s.elect n).tlog t = s.tlog t := fun t ht => by
    simp [State.elect, ht]
  have hterms : ∀ e ∈ s.log n, S.termOf e < s.term n := hI.stood_terms n _ _ hstood
  -- the new leader has no entry of its own term yet
  have hown : ∀ t₀ j, Own S (s.elect n) t₀ j → t₀ ≠ s.term n ∧ Own S s t₀ j := by
    rintro t₀ j ⟨e, he, hte, hj⟩
    have hne : t₀ ≠ s.term n := by
      rintro rfl
      rw [htlog] at he
      exact absurd hte (hterms e (List.mem_of_getElem? he)).ne
    exact ⟨hne, e, by rw [← htlog' t₀ hne, he], hte, hj⟩
  refine { hI with
    leads_quorum := ?_, leads_stood := ?_, tlog_nil := ?_, stood_tlog := ?_, sourced_log := ?_, sourced_tlog := ?_,
    sourced_stood := ?_, tlog_terms := ?_, acked_length := ?_, later_leader := ?_,
    kept := ?_, vote_fresh := ?_ }
  · rintro t m (hm | ⟨rfl, rfl⟩)
    · exact hI.leads_quorum t m hm
    · exact ⟨Q, hQ, hv⟩
  · rintro t m (hm | ⟨rfl, rfl⟩)
    · exact hI.leads_stood t m hm
    · exact ⟨_, hstood⟩
  · intro t ht
    have hne : t ≠ s.term n := fun h => ht n (.inr ⟨h, rfl⟩)
    rw [htlog' t hne]
    exact hI.tlog_nil t fun m hm => ht m (.inl hm)
  · rintro m t L hL (hl | ⟨rfl, rfl⟩)
    · rw [htlog' t fun h => hno m (h ▸ hl)]
      exact hI.stood_tlog m t L hL hl
    · obtain rfl := hI.stood_unique _ _ _ _ hL hstood
      exact ⟨[], by rw [htlog, List.append_nil], by simp⟩
  · exact fun m => hext.sourced (hI.sourced_log m)
  · intro t
    by_cases ht : t = s.term n
    · rw [ht, htlog]
      exact hext.sourced (hI.sourced_log n)
    · rw [htlog' t ht]
      exact hext.sourced (hI.sourced_tlog t)
  · exact fun m t L h => hext.sourced (hI.sourced_stood m t L h)
  · intro t e he
    by_cases ht : t = s.term n
    · rw [ht, htlog] at he
      exact ht ▸ (hterms e he).le
    · rw [htlog' t ht] at he
      exact hI.tlog_terms t e he
  · exact fun p t j h => (hI.acked_length p t j h).trans (hext.tlog t).length_le
  · rintro t m t₀ j hm ht ho
    obtain ⟨hne, ho'⟩ := hown t₀ j ho
    rw [htlog' t₀ hne]
    rcases hm with hm | ⟨rfl, rfl⟩
    · have ht' : t ≠ s.term n := fun h => hno m (h ▸ hm)
      rw [htlog' t ht']
      exact (hI.later_leader t m t₀ j hm ht ho').imp_right hext.dead
    · rw [htlog]
      by_cases hex : ∃ p ∈ Q, s.acked p t₀ j
      · obtain ⟨p, hp, hack⟩ := hex
        exact (hI.vote_fresh p _ _ _ t₀ j (hv p hp) hstood ht hack ho').imp_right hext.dead
      · refine .inr (hext.dead ⟨Q, hQ, fun p hp => ⟨?_, fun hack => hex ⟨p, hp, hack⟩⟩⟩)
        exact lt_of_lt_of_le ht (hI.voted_le p _ _ (hv p hp))
  · intro p t₀ j hack ho
    obtain ⟨hne, ho'⟩ := hown t₀ j ho
    rw [htlog' t₀ hne]
    exact (hI.kept p t₀ j hack ho').imp_right hext.dead
  · intro p t c L t₀ j hv' hs ht hack ho
    obtain ⟨hne, ho'⟩ := hown t₀ j ho
    rw [htlog' t₀ hne]
    exact (hI.vote_fresh p t c L t₀ j hv' hs ht hack ho').imp_right hext.dead

/-! ### Replication -/

theorem Inv.append (hI : Inv S s) {n : N} {e : E} (hl : s.leads (s.term n) n)
    (hlog : s.tlog (s.term n) = s.log n) (he : S.termOf e = s.term n) : Inv S (s.append n e) := by
  have hext : Extends s (s.append n e) := Step.extends hI (.append n e hl hlog he)
  have htlog : (s.append n e).tlog (s.term n) = s.log n ++ [e] := by simp [State.append]
  have htlog' : ∀ t, t ≠ s.term n → (s.append n e).tlog t = s.tlog t := fun t ht => by
    simp [State.append, ht]
  have hlogn : (s.append n e).log n = s.log n ++ [e] := by simp [State.append]
  have hlog' : ∀ m, m ≠ n → (s.append n e).log m = s.log m := fun m hm => by simp [State.append, hm]
  have hnew : Sourced S (s.append n e) (s.log n ++ [e]) := by
    intro j e' he'
    by_cases hj : j < (s.log n).length
    · rw [List.getElem?_append_left hj] at he'
      obtain ⟨hlead, htake⟩ := hext.sourced (hI.sourced_log n) j e' he'
      exact ⟨hlead, by rw [List.take_append_of_le_length (by omega)]; exact htake⟩
    · have hlast := length_lt_of_getElem? he'
      rw [List.length_append, List.length_singleton] at hlast
      obtain rfl : j = (s.log n).length := by omega
      rw [List.getElem?_append_right le_rfl, Nat.sub_self, List.getElem?_cons_zero] at he'
      obtain rfl := Option.some.inj he'
      exact ⟨⟨n, he ▸ hl⟩, by rw [he, htlog]⟩
  -- the only new index of the term is the last one, and nobody has acknowledged it
  have hown : ∀ t₀ j, Own S (s.append n e) t₀ j →
      Own S s t₀ j ∨ t₀ = s.term n ∧ j = (s.log n).length + 1 := by
    rintro t₀ j ⟨e', he', hte, hj⟩
    by_cases ht : t₀ = s.term n
    · rw [ht, htlog] at he'
      have hlt := length_lt_of_getElem? he'
      rw [List.length_append, List.length_singleton] at hlt
      by_cases hj' : j - 1 < (s.log n).length
      · rw [List.getElem?_append_left hj'] at he'
        exact .inl ⟨e', by rw [ht, hlog, he'], hte, hj⟩
      · exact .inr ⟨ht, by omega⟩
    · rw [htlog' t₀ ht] at he'
      exact .inl ⟨e', he', hte, hj⟩
  have hlast : ∀ p, ¬ s.acked p (s.term n) ((s.log n).length + 1) := by
    intro p hp
    have := hI.acked_length p _ _ hp
    rw [hlog] at this
    omega
  refine { hI with
    tlog_nil := ?_, stood_tlog := ?_, sourced_log := ?_, sourced_tlog := ?_, sourced_stood := ?_, log_terms := ?_,
    tlog_terms := ?_, acked_length := ?_, later_leader := ?_, kept := ?_, vote_fresh := ?_ }
  · intro t ht
    by_cases hne : t = s.term n
    · exact absurd hl (hne ▸ ht n)
    · rw [htlog' t hne]
      exact hI.tlog_nil t ht
  · intro m t L hL hlead
    obtain ⟨R, hR, hterms⟩ := hI.stood_tlog m t L hL hlead
    by_cases ht : t = s.term n
    · subst ht
      refine ⟨R ++ [e], by rw [htlog, ← hlog, hR, List.append_assoc], fun e' he' => ?_⟩
      rcases List.mem_append.mp he' with h | h
      · exact hterms e' h
      · exact List.mem_singleton.mp h ▸ he
    · rw [htlog' t ht]
      exact ⟨R, hR, hterms⟩
  · intro m
    by_cases hm : m = n
    · rw [hm, hlogn]; exact hnew
    · rw [hlog' m hm]; exact hext.sourced (hI.sourced_log m)
  · intro t
    by_cases ht : t = s.term n
    · rw [ht, htlog]; exact hnew
    · rw [htlog' t ht]; exact hext.sourced (hI.sourced_tlog t)
  · exact fun m t L h => hext.sourced (hI.sourced_stood m t L h)
  · intro m e' he'
    by_cases hm : m = n
    · rw [hm, hlogn, List.mem_append, List.mem_singleton] at he'
      rcases he' with h | rfl
      · exact hm ▸ hI.log_terms n e' h
      · exact hm ▸ he.le
    · rw [hlog' m hm] at he'
      exact hI.log_terms m e' he'
  · intro t e' he'
    by_cases ht : t = s.term n
    · rw [ht, htlog, List.mem_append, List.mem_singleton] at he'
      rcases he' with h | rfl
      · exact ht ▸ hI.log_terms n e' h
      · exact ht ▸ he.le
    · rw [htlog' t ht] at he'
      exact hI.tlog_terms t e' he'
  · exact fun p t j h => (hI.acked_length p t j h).trans (hext.tlog t).length_le
  · intro t m t₀ j hm ht ho
    rcases hown t₀ j ho with ho' | ⟨rfl, rfl⟩
    · refine (hI.later_leader t m t₀ j hm ht ho').imp (fun h => ?_) hext.dead
      have hj := length_le_of_take_eq h.symm ho'.le_length
      rw [hext.take_tlog hj, hext.take_tlog ho'.le_length, h]
    · obtain ⟨Q, hQ, hv⟩ := hI.leads_quorum t m hm
      refine .inr (hext.dead ⟨Q, hQ, fun p hp => ⟨?_, hlast p⟩⟩)
      exact lt_of_lt_of_le ht (hI.voted_le p _ _ (hv p hp))
  · intro p t₀ j hack ho
    rcases hown t₀ j ho with ho' | ⟨rfl, rfl⟩
    · refine (hI.kept p t₀ j hack ho').imp (fun h => ?_) hext.dead
      rw [hext.take_tlog ho'.le_length, ← h]
      by_cases hp : p = n
      · rw [hp] at h ⊢
        rw [hlogn, List.take_append_of_le_length (length_le_of_take_eq h.symm ho'.le_length)]
      · rw [hlog' p hp]
    · exact absurd hack (hlast p)
  · intro p t c L t₀ j hv hs ht hack ho
    rcases hown t₀ j ho with ho' | ⟨rfl, rfl⟩
    · exact (hI.vote_fresh p t c L t₀ j hv hs ht hack ho').imp (hext.take_eq ho'.le_length) hext.dead
    · exact absurd hack (hlast p)

end Steps

theorem take_adopt {m : Nat} {T L : List E} (j : Nat) (hj : j ≤ m) :
    (adopt m T L).take j = T.take j := by
  unfold adopt
  split
  · next h => exact take_eq_mono hj h
  · rw [List.take_take, Nat.min_eq_left hj]

/-- What a log shares with the leader's is not touched by accepting entries of the leader. -/
theorem take_adopt_of_take_eq {m j : Nat} {T L : List E} (h : L.take j = T.take j) :
    (adopt m T L).take j = T.take j := by
  rcases Nat.le_total j m with hj | hj
  · exact take_adopt j hj
  · unfold adopt
    rw [if_pos (take_eq_mono hj h)]
    exact h

section Steps

variable [DecidableEq N]

theorem Inv.accept (hI : Inv S s) {p n : N} {m : Nat} (hl : s.leads (s.term p) n)
    (hm : m ≤ (s.tlog (s.term p)).length) : Inv S (s.accept p m) := by
  have hext : Extends s (s.accept p m) := Step.extends hI (.accept p n m hl hm)
  have hlogp : (s.accept p m).log p = adopt m (s.tlog (s.term p)) (s.log p) := by simp [State.accept]
  have hlog' : ∀ q, q ≠ p → (s.accept p m).log q = s.log q := fun q hq => by simp [State.accept, hq]
  have hmem : ∀ e ∈ adopt m (s.tlog (s.term p)) (s.log p),
      e ∈ s.log p ∨ e ∈ s.tlog (s.term p) := by
    intro e he
    unfold adopt at he
    split at he
    · exact .inl he
    · exact .inr (List.mem_of_mem_take he)
  refine { hI with
    sourced_log := ?_, sourced_tlog := ?_, sourced_stood := ?_, log_terms := ?_, acked_le := ?_,
    acked_length := ?_, acked_down := ?_, later_leader := ?_, kept := ?_, vote_fresh := ?_ }
  · intro q
    by_cases hq : q = p
    · rw [hq, hlogp]
      unfold adopt
      split
      · exact hext.sourced (hI.sourced_log p)
      · exact (hext.sourced (hI.sourced_tlog _)).take m
    · rw [hlog' q hq]
      exact hext.sourced (hI.sourced_log q)
  · exact fun t => hext.sourced (hI.sourced_tlog t)
  · exact fun c t L h => hext.sourced (hI.sourced_stood c t L h)
  · intro q e he
    by_cases hq : q = p
    · subst hq
      rw [hlogp] at he
      rcases hmem e he with h | h
      · exact hI.log_terms q e h
      · exact hI.tlog_terms _ e h
    · rw [hlog' q hq] at he
      exact hI.log_terms q e he
  · rintro q t j (h | ⟨rfl, rfl, -⟩)
    · exact hI.acked_le q t j h
    · exact le_rfl
  · rintro q t j (h | ⟨rfl, rfl, hj⟩)
    · exact hI.acked_length q t j h
    · exact hj.trans hm
  · rintro q t j i (h | ⟨rfl, rfl, hj⟩) hi
    · exact .inl (hI.acked_down q t j i h hi)
    · exact .inr ⟨rfl, rfl, hi.trans hj⟩
  · exact fun t c t₀ j hc ht ho => (hI.later_leader t c t₀ j hc ht ho).imp_right hext.dead
  · rintro q t₀ j (hack | ⟨rfl, rfl, hj⟩) ho
    · rcases hI.kept q t₀ j hack ho with h | h
      · by_cases hq : q = p
        · subst hq
          rw [hlogp]
          -- the leader of the present term has the index too, so accepting from it keeps it
          rcases Nat.lt_or_eq_of_le (hI.acked_le q t₀ j hack) with hlt | rfl
          · refine (hI.later_leader _ n t₀ j hl hlt ho).imp (fun hagree => ?_) hext.dead
            exact (take_adopt_of_take_eq (h.trans hagree.symm)).trans hagree
          · exact .inl (take_adopt_of_take_eq h)
        · rw [hlog' q hq]
          exact .inl h
      · exact .inr (hext.dead h)
    · rw [hlogp]
      exact .inl (take_adopt j hj)
  · rintro q t c L t₀ j hv hs ht (hack | ⟨rfl, rfl, hj⟩) ho
    · exact (hI.vote_fresh q t c L t₀ j hv hs ht hack ho).imp_right hext.dead
    · exact absurd (hI.voted_le _ t c hv) (by omega)

theorem Inv.step (hI : Inv S s) {n : N} (h : Step S s n s') : Inv S s' := by
  cases h with
  | campaign => exact hI.campaign n
  | bump t ht => exact hI.bump ht
  | grant c L hfree hstood hup => exact hI.grant hfree hstood hup
  | elect Q hQ hv hstood hnone => exact hI.elect hQ hv hstood hnone
  | append e hl hlog he => exact hI.append hl hlog he
  | accept c m hl hm => exact hI.accept hl hm
  | compact b hb => exact { hI with }

end Steps

/-! ### Leader completeness -/

/-- An index of the leader's own term that a quorum has acknowledged. -/
def Committed (S : Setting N E) (s : State N E) (t j : Nat) : Prop :=
  Own S s t j ∧ ∃ Q, S.Quorum Q ∧ ∀ p ∈ Q, s.acked p t j

theorem Committed.not_dead {t j : Nat} (h : Committed S s t j) : ¬ Dead S s t j := by
  rintro ⟨Q, hQ, hdead⟩
  obtain ⟨-, Q', hQ', hack⟩ := h
  obtain ⟨p, hp, hp'⟩ := S.meet Q Q' hQ hQ'
  exact (hdead p hp).2 (hack p hp')

theorem Committed.grow (hext : Extends s s') {t j : Nat} (h : Committed S s t j) :
    Committed S s' t j := by
  obtain ⟨ho, Q, hQ, hack⟩ := h
  exact ⟨hext.own ho, Q, hQ, fun p hp => hext.acked p t j (hack p hp)⟩

/-- The log of every leader from the committing term on has the committed index. -/
theorem Inv.leader_completeness (hI : Inv S s) {t₀ j t : Nat} {n : N} (hc : Committed S s t₀ j)
    (hl : s.leads t n) (ht : t₀ ≤ t) : (s.tlog t).take j = (s.tlog t₀).take j := by
  rcases Nat.lt_or_eq_of_le ht with hlt | rfl
  · exact (hI.later_leader t n t₀ j hl hlt hc.1).resolve_right hc.not_dead
  · rfl

end Raft
