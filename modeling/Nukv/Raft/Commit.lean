import Nukv.Raft.Safety

/-!
# What a node may take for committed

`Agreed t c L` says that the first `c` entries of `L` are committed, by a leader of term `t` or earlier. Any
two lists agree on what is agreed in both, and a node that has agreed entries keeps them whatever it accepts
later.

A follower that learns from its leader that `c` entries are committed has to know that its own first `c`
entries are the leader's. `Probed p t k` is the knowledge behind a leader that finds the common part by going
back one index at a time: the log of `p` is a beginning of the leader's, or it parts from it at `k` at the
latest (or inside what `p` has compacted).
-/

namespace Raft

variable {N E : Type} {S : Setting N E} {s s' : State N E}

/-- Some leader of term at most `t` has committed at least `c` entries. -/
def CommittedTo (S : Setting N E) (s : State N E) (t c : Nat) : Prop :=
  c = 0 ∨ ∃ t₀ j, t₀ ≤ t ∧ c ≤ j ∧ Committed S s t₀ j

def Agreed (S : Setting N E) (s : State N E) (t c : Nat) (L : List E) : Prop :=
  c = 0 ∨ ∃ t₀ j, t₀ ≤ t ∧ c ≤ j ∧ Committed S s t₀ j ∧ L.take c = (s.tlog t₀).take c

theorem CommittedTo.mono {t t' c c' : Nat} (h : CommittedTo S s t c) (ht : t ≤ t') (hc : c' ≤ c) :
    CommittedTo S s t' c' := by
  rcases h with rfl | ⟨t₀, j, ht₀, hj, hcom⟩
  · exact .inl (Nat.le_zero.mp hc)
  · exact .inr ⟨t₀, j, ht₀.trans ht, hc.trans hj, hcom⟩

theorem CommittedTo.grow (hext : Extends s s') {t c : Nat} (h : CommittedTo S s t c) :
    CommittedTo S s' t c := by
  rcases h with rfl | ⟨t₀, j, ht₀, hj, hcom⟩
  · exact .inl rfl
  · exact .inr ⟨t₀, j, ht₀, hj, hcom.grow hext⟩

theorem CommittedTo.max {t c c' : Nat} (h : CommittedTo S s t c) (h' : CommittedTo S s t c') :
    CommittedTo S s t (max c c') := by
  rcases Nat.le_total c c' with hle | hle
  · rwa [Nat.max_eq_right hle]
  · rwa [Nat.max_eq_left hle]

theorem Committed.le_length {t j : Nat} (h : Committed S s t j) : j ≤ (s.tlog t).length :=
  h.1.le_length

theorem Committed.leads (hI : Inv S s) {t j : Nat} (h : Committed S s t j) : ∃ n, s.leads t n := by
  obtain ⟨⟨e, he, rfl, -⟩, -⟩ := h
  exact (hI.sourced_tlog _ _ e he).1

namespace Agreed

theorem zero (S : Setting N E) (s : State N E) (t : Nat) (L : List E) : Agreed S s t 0 L := .inl rfl

theorem mono {t t' c c' : Nat} {L : List E} (h : Agreed S s t c L) (ht : t ≤ t') (hc : c' ≤ c) :
    Agreed S s t' c' L := by
  rcases h with rfl | ⟨t₀, j, ht₀, hj, hcom, htake⟩
  · exact .inl (Nat.le_zero.mp hc)
  · exact .inr ⟨t₀, j, ht₀.trans ht, hc.trans hj, hcom, take_eq_mono hc htake⟩

theorem committedTo {t c : Nat} {L : List E} (h : Agreed S s t c L) : CommittedTo S s t c := by
  rcases h with rfl | ⟨t₀, j, ht₀, hj, hcom, -⟩
  · exact .inl rfl
  · exact .inr ⟨t₀, j, ht₀, hj, hcom⟩

theorem le_length {t c : Nat} {L : List E} (h : Agreed S s t c L) : c ≤ L.length := by
  rcases h with rfl | ⟨t₀, j, -, hj, hcom, htake⟩
  · exact Nat.zero_le _
  · exact length_le_of_take_eq htake.symm (hj.trans hcom.le_length)

theorem congr {t c : Nat} {L L' : List E} (h : Agreed S s t c L) (hL : L'.take c = L.take c) :
    Agreed S s t c L' := by
  rcases h with rfl | ⟨t₀, j, ht₀, hj, hcom, htake⟩
  · exact .inl rfl
  · exact .inr ⟨t₀, j, ht₀, hj, hcom, hL.trans htake⟩

theorem grow (hext : Extends s s') {t c : Nat} {L : List E} (h : Agreed S s t c L) :
    Agreed S s' t c L := by
  rcases h with rfl | ⟨t₀, j, ht₀, hj, hcom, htake⟩
  · exact .inl rfl
  · exact .inr ⟨t₀, j, ht₀, hj, hcom.grow hext, hext.take_eq (hj.trans hcom.le_length) htake⟩

/-- The log of a later leader has what is agreed. -/
theorem take_tlog (hI : Inv S s) {t c t' : Nat} {n : N} {L : List E} (h : Agreed S s t c L)
    (hl : s.leads t' n) (ht : t ≤ t') : (s.tlog t').take c = L.take c := by
  rcases h with rfl | ⟨t₀, j, ht₀, hj, hcom, htake⟩
  · rw [List.take_zero, List.take_zero]
  · rw [htake]
    exact take_eq_mono hj (hI.leader_completeness hcom hl (ht₀.trans ht))

/-- What is agreed is the same everywhere. -/
theorem unique (hI : Inv S s) {t t' c c' : Nat} {L L' : List E} (h : Agreed S s t c L)
    (h' : Agreed S s t' c' L') (hc : c ≤ c') : L.take c = L'.take c := by
  rcases h with rfl | ⟨t₀, j, -, hj, hcom, htake⟩
  · rw [List.take_zero, List.take_zero]
  · rcases h' with rfl | ⟨t₁, j', -, hj', hcom', htake'⟩
    · obtain rfl := Nat.le_zero.mp hc
      rw [List.take_zero, List.take_zero]
    · rw [htake, take_eq_mono hc htake']
      obtain ⟨n, hn⟩ := hcom.leads hI
      obtain ⟨n', hn'⟩ := hcom'.leads hI
      rcases Nat.le_total t₀ t₁ with hle | hle
      · exact (take_eq_mono hj (hI.leader_completeness hcom hn' hle)).symm
      · exact take_eq_mono (hc.trans hj') (hI.leader_completeness hcom' hn hle)

/-- A beginning of the leader's log that some leader up to it has committed. -/
theorem of_tlog (hI : Inv S s) {t c : Nat} {n : N} {L : List E} (hl : s.leads t n)
    (hc : CommittedTo S s t c) (hL : L.take c = (s.tlog t).take c) : Agreed S s t c L := by
  rcases hc with rfl | ⟨t₀, j, ht₀, hj, hcom⟩
  · exact .inl rfl
  · refine .inr ⟨t₀, j, ht₀, hj, hcom, hL.trans ?_⟩
    exact take_eq_mono hj (hI.leader_completeness hcom hl ht₀)

end Agreed

section Steps

variable [DecidableEq N]

/-- A step leaves a node's log alone, appends to it, or has it adopt the leader's. -/
theorem Step.log_cases {a : N} (h : Step S s a s') (n : N) :
    s'.log n = s.log n ∨ (∃ e, s'.log n = s.log n ++ [e]) ∨
      ∃ m c, s.leads (s.term n) c ∧ s'.log n = adopt m (s.tlog (s.term n)) (s.log n) := by
  cases h with
  | append e =>
    by_cases hn : n = a
    · subst hn; exact .inr (.inl ⟨e, by simp [State.append]⟩)
    · exact .inl (by simp [State.append, hn])
  | accept c m hl =>
    by_cases hn : n = a
    · subst hn; exact .inr (.inr ⟨m, c, hl, by simp [State.accept]⟩)
    · exact .inl (by simp [State.accept, hn])
  | _ => exact .inl rfl

/-- What a step leaves alone for a node `m` that does not take it. -/
structure Apart (s s' : State N E) (m : N) : Prop where
  term : s'.term m = s.term m
  log : s'.log m = s.log m
  base : s'.base m = s.base m
  voted : ∀ t c, s'.voted m t c ↔ s.voted m t c
  leads : ∀ t, s'.leads t m ↔ s.leads t m
  tlog : ∀ t, s.leads t m → s'.tlog t = s.tlog t

theorem Step.apart (hI : Inv S s) {n m : N} (h : Step S s n s') (hm : m ≠ n) : Apart s s' m := by
  cases h with
  | campaign =>
    refine ⟨by simp [State.campaign, hm], rfl, rfl, fun t c => ?_, fun _ => Iff.rfl, fun _ _ => rfl⟩
    simp [State.campaign, hm]
  | bump t ht =>
    exact ⟨by simp [State.bump, hm], rfl, rfl, fun _ _ => Iff.rfl, fun _ => Iff.rfl, fun _ _ => rfl⟩
  | grant c L =>
    exact ⟨rfl, rfl, rfl, fun t c' => by simp [State.grant, hm], fun _ => Iff.rfl, fun _ _ => rfl⟩
  | elect Q hQ hv hstood hnone =>
    refine ⟨rfl, rfl, rfl, fun _ _ => Iff.rfl, fun t => by simp [State.elect, hm], fun t ht => ?_⟩
    have hne : t ≠ s.term n := by
      rintro rfl
      exact (hI.elect_tlog_nil hQ hv hnone).1 m ht
    simp [State.elect, hne]
  | append e hl hlog he =>
    refine ⟨rfl, by simp [State.append, hm], rfl, fun _ _ => Iff.rfl, fun _ => Iff.rfl, fun t ht => ?_⟩
    have hne : t ≠ s.term n := by
      rintro rfl
      exact hm (hI.leads_unique ht hl)
    simp [State.append, hne]
  | accept c k hl hk =>
    exact ⟨rfl, by simp [State.accept, hm], rfl, fun _ _ => Iff.rfl, fun _ => Iff.rfl, fun _ _ => rfl⟩
  | compact b hb =>
    exact ⟨rfl, rfl, by simp [State.compact, hm], fun _ _ => Iff.rfl, fun _ => Iff.rfl, fun _ _ => rfl⟩

/-- A node keeps its agreed entries. -/
theorem Agreed.step (hI : Inv S s) {a : N} (hstep : Step S s a s') {n : N} {c : Nat}
    (h : Agreed S s (s.term n) c (s.log n)) : Agreed S s' (s'.term n) c (s'.log n) := by
  have hext := hstep.extends hI
  have h' := (h.grow hext).mono (hext.term n) le_rfl
  refine h'.congr ?_
  rcases hstep.log_cases n with heq | ⟨e, heq⟩ | ⟨m, c', hl, heq⟩
  · rw [heq]
  · rw [heq, List.take_append_of_le_length h.le_length]
  · have hagree := h.take_tlog hI hl le_rfl
    rw [heq, take_adopt_of_take_eq hagree.symm, hagree]

end Steps

/-! ### Probing for the common part -/

/-- The leader of `t` knows that the log of `p` is a beginning of its own or parts from it by `k`. -/
def Probed (S : Setting N E) (s : State N E) (p : N) (t k : Nat) : Prop :=
  (∃ n, s.leads t n) ∧
    (t < s.term p ∨
      s.term p < t ∧ (∀ e ∈ (s.tlog t).drop k, S.termOf e = t) ∨
      s.term p = t ∧ (s.log p <+: s.tlog t ∨
        ∀ i ≤ (s.log p).length, (s.log p).take i = (s.tlog t).take i → i ≤ max k (s.base p)))

namespace Probed

theorem mono {p : N} {t k k' : Nat} (h : Probed S s p t k) (hk : k ≤ k') : Probed S s p t k' := by
  obtain ⟨hl, h⟩ := h
  refine ⟨hl, ?_⟩
  rcases h with h | ⟨hlt, h⟩ | ⟨heq, h | h⟩
  · exact .inl h
  · refine .inr (.inl ⟨hlt, fun e he => h e ?_⟩)
    rw [← Nat.add_sub_cancel' hk, ← List.drop_drop] at he
    exact List.mem_of_mem_drop he
  · exact .inr (.inr ⟨heq, .inl h⟩)
  · refine .inr (.inr ⟨heq, .inr fun i hi htake => ?_⟩)
    have := h i hi htake
    omega

theorem of_length {p n : N} {t k : Nat} (hl : s.leads t n) (hk : (s.tlog t).length ≤ k) :
    Probed S s p t k := by
  refine ⟨⟨n, hl⟩, ?_⟩
  rcases Nat.lt_trichotomy (s.term p) t with h | h | h
  · exact .inr (.inl ⟨h, fun e he => by simp [List.drop_eq_nil_of_le hk] at he⟩)
  · refine .inr (.inr ⟨h, .inr fun i hi htake => ?_⟩)
    have := length_le_of_take_eq htake hi
    omega
  · exact .inl h

/-- A probe at index `q` that fails moves the bound down. -/
theorem fail {p : N} {t q : Nat} (h : Probed S s p t (q + 1)) (ht : s.term p = t)
    (hfail : q < s.base p ∨ (s.log p).length < q ∨ (s.log p).take q ≠ (s.tlog t).take q) :
    Probed S s p t q := by
  obtain ⟨hl, h⟩ := h
  refine ⟨hl, ?_⟩
  rcases h with h | ⟨hlt, -⟩ | ⟨heq, h | h⟩
  · omega
  · omega
  · exact .inr (.inr ⟨heq, .inl h⟩)
  · refine .inr (.inr ⟨heq, .inr fun i hi htake => ?_⟩)
    have := h i hi htake
    rcases Nat.lt_or_ge i q with hiq | hiq
    · omega
    · rcases hfail with hb | hlen | hne
      · omega
      · omega
      · exact absurd (take_eq_mono hiq htake) hne

/-- A follower whose log agrees with the leader's up to `m`, by a probe at `q`, agrees with it as far as the
leader's commit index reaches, if that is at most `m` or the probe brought more than one entry. -/
theorem take_eq {p : N} {t q m c : Nat} (h : Probed S s p t (q + 1)) (ht : s.term p = t)
    (hbase : s.base p ≤ q) (hm : m ≤ (s.log p).length) (hagree : (s.log p).take m = (s.tlog t).take m)
    (hmore : c ≤ m ∨ q + 1 < m) (hc : c ≤ (s.log p).length) : (s.log p).take c = (s.tlog t).take c := by
  obtain ⟨-, h | ⟨hlt, -⟩ | ⟨-, h | h⟩⟩ := h
  · omega
  · omega
  · exact (take_eq_of_initial h hc).symm
  · have := h m hm hagree
    refine take_eq_mono ?_ hagree
    rcases hmore with hle | hlt
    · exact hle
    · omega

/-- Before `p` reaches term `t`, its log holds no entry of that term. -/
theorem enter (hI : Inv S s) {p : N} {t k i : Nat} (hlt : s.term p < t)
    (h : ∀ e ∈ (s.tlog t).drop k, S.termOf e = t) (hi : i ≤ (s.log p).length)
    (htake : (s.log p).take i = (s.tlog t).take i) : i ≤ k := by
  by_contra hcon
  have hget := getElem?_eq_of_take_eq (show i - 1 < i by omega) htake
  obtain ⟨e, he⟩ : ∃ e, (s.log p)[i - 1]? = some e := ⟨_, List.getElem?_eq_getElem (by omega)⟩
  have hle := hI.log_terms p e (List.mem_of_getElem? he)
  rw [he] at hget
  have hmem : e ∈ (s.tlog t).drop k := by
    refine List.mem_of_getElem? (show ((s.tlog t).drop k)[i - 1 - k]? = some e from ?_)
    rw [List.getElem?_drop, Nat.add_sub_cancel' (by omega), hget]
  have := h e hmem
  omega

/-- When only terms move, knowledge about the common part stays. -/
theorem of_term {p : N} {t k : Nat} (hI : Inv S s) (h : Probed S s p t k)
    (hterm : ∀ n, s.term n ≤ s'.term n) (hleads : ∀ t n, s.leads t n → s'.leads t n)
    (htlog : s'.tlog t = s.tlog t) (hlog : s'.log p = s.log p) (hbase : s.base p ≤ s'.base p) :
    Probed S s' p t k := by
  obtain ⟨⟨n, hl⟩, h⟩ := h
  have hp := hterm p
  refine ⟨⟨n, hleads t n hl⟩, ?_⟩
  rw [htlog, hlog]
  rcases Nat.lt_trichotomy (s'.term p) t with ht' | ht' | ht'
  · rcases h with h | ⟨-, h⟩ | ⟨heq, -⟩
    · omega
    · exact .inr (.inl ⟨ht', h⟩)
    · omega
  · refine .inr (.inr ⟨ht', ?_⟩)
    rcases h with h | ⟨hlt, h⟩ | ⟨-, h | h⟩
    · omega
    · refine .inr fun i hi htake => ?_
      have := enter hI hlt h hi htake
      omega
    · exact .inl h
    · refine .inr fun i hi htake => ?_
      have := h i hi htake
      omega
  · exact .inl ht'

section Steps

variable [DecidableEq N]

theorem append (hI : Inv S s) {p n : N} {t k : Nat} {e : E} (h : Probed S s p t k)
    (hl : s.leads (s.term n) n) (hlog : s.tlog (s.term n) = s.log n) (he : S.termOf e = s.term n) :
    Probed S (s.append n e) p t k := by
  have hext : Extends s (s.append n e) := Step.extends hI (.append n e hl hlog he)
  by_cases ht : t = s.term n
  · subst ht
    have htlog : (s.append n e).tlog (s.term n) = s.log n ++ [e] := by simp [State.append]
    by_cases hp : p = n
    · subst hp
      refine ⟨⟨p, hl⟩, .inr (.inr ⟨rfl, .inl ?_⟩)⟩
      rw [htlog]
      simp [State.append]
    · have hlogp : (s.append n e).log p = s.log p := by simp [State.append, hp]
      refine ⟨⟨n, hl⟩, ?_⟩
      rw [hlogp]
      rcases h.2 with h | ⟨hlt, h⟩ | ⟨heq, h | h⟩
      · exact .inl h
      · refine .inr (.inl ⟨hlt, fun e' he' => ?_⟩)
        rw [htlog, ← hlog, List.drop_append, List.mem_append] at he'
        rcases he' with h' | h'
        · exact h e' h'
        · obtain rfl := List.mem_singleton.mp (List.mem_of_mem_drop h')
          exact he
      · exact .inr (.inr ⟨heq, .inl (h.trans (hext.tlog _))⟩)
      · refine .inr (.inr ⟨heq, .inr fun i hi htake => ?_⟩)
        rcases Nat.lt_or_ge (s.tlog (s.term n)).length i with hlen | hlen
        · -- the follower would hold an entry of the term that the leader has only now appended
          have hi' := length_le_of_take_eq htake hi
          rw [htlog, List.length_append, ← hlog, List.length_singleton] at hi'
          have hget := getElem?_eq_of_take_eq (show i - 1 < i by omega) htake
          rw [htlog, ← hlog, List.getElem?_append_right (by omega),
            show i - 1 - (s.tlog (s.term n)).length = 0 by omega, List.getElem?_cons_zero] at hget
          have hsrc := (hI.sourced_log p _ e hget).2
          rw [he] at hsrc
          have := length_le_of_take_eq hsrc (by omega)
          omega
        · rw [hext.take_tlog hlen] at htake
          exact h i hi htake
  · have htlog : (s.append n e).tlog t = s.tlog t := by simp [State.append, ht]
    by_cases hp : p = n
    · subst hp
      obtain ⟨hl', h⟩ := h
      refine ⟨hl', ?_⟩
      rcases h with h | ⟨hlt, h⟩ | ⟨heq, -⟩
      · exact .inl h
      · exact .inr (.inl ⟨hlt, by rw [htlog]; exact h⟩)
      · exact absurd heq.symm ht
    · exact of_term hI h (fun _ => le_rfl) (fun _ _ h => h) htlog (by simp [State.append, hp]) le_rfl

theorem accept (hI : Inv S s) {p p' : N} {t k m : Nat} (h : Probed S s p t k) :
    Probed S (s.accept p' m) p t k := by
  by_cases hp : p = p'
  · subst hp
    obtain ⟨hl, h⟩ := h
    refine ⟨hl, ?_⟩
    rcases h with h | ⟨hlt, h⟩ | ⟨heq, h⟩
    · exact .inl h
    · exact .inr (.inl ⟨hlt, h⟩)
    · refine .inr (.inr ⟨heq, ?_⟩)
      have hlogp : (s.accept p m).log p = adopt m (s.tlog (s.term p)) (s.log p) := by
        simp [State.accept]
      subst heq
      unfold adopt at hlogp
      split at hlogp
      · rw [hlogp]; exact h
      · rw [hlogp]; exact .inl (List.take_prefix _ _)
  · exact of_term hI h (fun _ => le_rfl) (fun _ _ h => h) rfl (by simp [State.accept, hp]) le_rfl

/-- Knowledge about the common part is never lost. -/
theorem step (hI : Inv S s) {n : N} (hstep : Step S s n s') {p : N} {t k : Nat} (h : Probed S s p t k) :
    Probed S s' p t k := by
  have hext := hstep.extends hI
  cases hstep with
  | campaign => exact of_term hI h hext.term hext.leads rfl rfl le_rfl
  | bump t ht => exact of_term hI h hext.term hext.leads rfl rfl le_rfl
  | grant c L => exact of_term hI h hext.term hext.leads rfl rfl le_rfl
  | elect Q hQ hv hstood hnone =>
    -- the term has a leader already, so it is not the one that gets a leader now
    have hne : t ≠ s.term n := by
      rintro rfl
      obtain ⟨n', hn'⟩ := h.1
      exact (hI.elect_tlog_nil hQ hv hnone).1 n' hn'
    exact of_term hI h hext.term hext.leads (by simp [State.elect, hne]) rfl le_rfl
  | append e hl hlog he => exact append hI h hl hlog he
  | accept c m hl hm => exact accept hI h
  | compact b hb => exact of_term hI h hext.term hext.leads rfl rfl (hext.base p)

end Steps

end Probed

end Raft
