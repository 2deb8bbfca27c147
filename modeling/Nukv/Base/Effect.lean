import Mathlib.Data.List.Basic
import Mathlib.Logic.Relation

/-!
# Programs with state, exceptions and a trace of effects

`Prog σ ε χ α` is a deterministic computation over a state `σ` that may throw a `χ` and that leaves
behind the list of effects it performed, in order. A thrown exception keeps the state and the effects
reached so far, as in a language whose exceptions do not roll memory back.

A long computation is analysed through the small steps it is made of. `Chain R` closes a step
relation `R : σ → Option ε → σ → Prop` (at most one effect a step) under composition, and `Follows`
says of a program that it follows such a chain and ends where `Q` holds or, when it throws, where `E`
does. Because a step has at most one effect, cutting the list of effects
anywhere leaves a chain again (`Chain.take`): this is what makes the relation usable for programs that
may be killed between two effects. Partial correctness (`Ends`) is the instance whose steps record the effects and
nothing else, and total correctness (`Returns`) is the one whose `E` never holds besides. `Keeps` is for what a whole
family of programs leaves true.
-/

namespace Nukv.Base

def Prog (σ ε χ α : Type) : Type := σ → Except χ α × σ × List ε

namespace Prog

variable {σ ε χ α β γ : Type}

def ret (a : α) : Prog σ ε χ α := fun s => (.ok a, s, [])

def andThen (m : Prog σ ε χ α) (f : α → Prog σ ε χ β) : Prog σ ε χ β := fun s =>
  match m s with
  | (.ok a, s', es) => ((f a s').1, (f a s').2.1, es ++ (f a s').2.2)
  | (.error x, s', es) => (.error x, s', es)

instance : Monad (Prog σ ε χ) where
  pure := ret
  bind := andThen

def get : Prog σ ε χ σ := fun s => (.ok s, s, [])

def modify (f : σ → σ) : Prog σ ε χ Unit := fun s => (.ok (), f s, [])

def emit (e : ε) : Prog σ ε χ Unit := fun s => (.ok (), s, [e])

/-- Record an effect that depends on the current state. -/
def emitState (f : σ → ε) : Prog σ ε χ Unit := fun s => (.ok (), s, [f s])

def throw (x : χ) : Prog σ ε χ α := fun s => (.error x, s, [])

/-- `try m catch x => handler x`. -/
def attempt (m : Prog σ ε χ α) (handler : χ → Prog σ ε χ α) : Prog σ ε χ α := fun s =>
  match m s with
  | (.ok a, s', es) => (.ok a, s', es)
  | (.error x, s', es) => ((handler x s').1, (handler x s').2.1, es ++ (handler x s').2.2)

/-- A fallible value, thrown when it is an error. -/
def ofExcept : Except χ α → Prog σ ε χ α
  | .ok a => ret a
  | .error x => throw x

/-- `m` under a condition, and nothing otherwise. -/
def when (c : Prop) [Decidable c] (m : Prog σ ε χ Unit) : Prog σ ε χ Unit := if c then m else ret ()

def forEach (xs : List β) (f : β → Prog σ ε χ Unit) : Prog σ ε χ Unit :=
  match xs with
  | [] => ret ()
  | x :: xs => andThen (f x) fun _ => forEach xs f

@[simp] theorem pure_run (a : α) (s : σ) : (pure a : Prog σ ε χ α) s = (.ok a, s, []) := rfl
@[simp] theorem ret_run (a : α) (s : σ) : (ret a : Prog σ ε χ α) s = (.ok a, s, []) := rfl
@[simp] theorem get_run (s : σ) : (get : Prog σ ε χ σ) s = (.ok s, s, []) := rfl
@[simp] theorem modify_run (f : σ → σ) (s : σ) :
    (modify f : Prog σ ε χ Unit) s = (.ok (), f s, []) := rfl
@[simp] theorem emit_run (e : ε) (s : σ) : (emit e : Prog σ ε χ Unit) s = (.ok (), s, [e]) := rfl
@[simp] theorem emitState_run (f : σ → ε) (s : σ) :
    (emitState f : Prog σ ε χ Unit) s = (.ok (), s, [f s]) := rfl
@[simp] theorem throw_run (x : χ) (s : σ) : (throw x : Prog σ ε χ α) s = (.error x, s, []) := rfl

theorem bind_eq (m : Prog σ ε χ α) (f : α → Prog σ ε χ β) : m >>= f = andThen m f := rfl

theorem andThen_ok {m : Prog σ ε χ α} {f : α → Prog σ ε χ β} {s s' : σ} {a : α} {es : List ε}
    (h : m s = (.ok a, s', es)) :
    andThen m f s = ((f a s').1, (f a s').2.1, es ++ (f a s').2.2) := by
  unfold andThen; rw [h]

theorem andThen_error {m : Prog σ ε χ α} {f : α → Prog σ ε χ β} {s s' : σ} {x : χ} {es : List ε}
    (h : m s = (.error x, s', es)) : andThen m f s = (.error x, s', es) := by
  unfold andThen; rw [h]

theorem bind_assoc (m : Prog σ ε χ α) (f : α → Prog σ ε χ β) (g : β → Prog σ ε χ γ) :
    m >>= f >>= g = m >>= fun a => f a >>= g := by
  funext s
  simp only [bind_eq, andThen]
  rcases m s with ⟨_ | a, s', es⟩
  · rfl
  · rcases hf : f a s' with ⟨_ | b, s'', es'⟩
    · simp [hf]
    · simp [hf, List.append_assoc]

@[simp] theorem get_bind (f : σ → Prog σ ε χ β) (s : σ) : (get >>= f) s = f s s := by
  simp [bind_eq, andThen]

@[simp] theorem modify_bind (g : σ → σ) (f : Unit → Prog σ ε χ β) (s : σ) :
    (modify g >>= f) s = f () (g s) := by
  simp [bind_eq, andThen]

@[simp] theorem pure_bind (a : α) (f : α → Prog σ ε χ β) (s : σ) :
    ((pure a : Prog σ ε χ α) >>= f) s = f a s := by
  simp [bind_eq, andThen]

@[simp] theorem throw_bind (x : χ) (f : α → Prog σ ε χ β) (s : σ) :
    ((throw x : Prog σ ε χ α) >>= f) s = (.error x, s, []) := by
  simp [bind_eq, andThen]

theorem forEach_append (xs ys : List β) (f : β → Prog σ ε χ Unit) :
    forEach (xs ++ ys) f = forEach xs f >>= fun _ => forEach ys f := by
  induction xs with
  | nil =>
    funext s
    exact (pure_bind () (fun _ => forEach ys f) s).symm
  | cons x xs ih =>
    rw [List.cons_append, forEach, forEach, ← bind_eq, ← bind_eq, bind_assoc, ih]

/-! ### Chains of small steps -/

/-- Finitely many `R` steps, with their effects in order. -/
inductive Chain (R : σ → Option ε → σ → Prop) : σ → List ε → σ → Prop
  | nil (s : σ) : Chain R s [] s
  | cons {s s' s'' : σ} {o : Option ε} {es : List ε} :
      R s o s' → Chain R s' es s'' → Chain R s (o.toList ++ es) s''

namespace Chain

variable {R : σ → Option ε → σ → Prop} {s s' s'' : σ} {es es' : List ε}

theorem silent (h : R s none s') : Chain R s [] s' := by
  simpa using Chain.cons h (Chain.nil s')

theorem single {e : ε} (h : R s (some e) s') : Chain R s [e] s' := by
  simpa using Chain.cons h (Chain.nil s')

theorem append (h : Chain R s es s') (h' : Chain R s' es' s'') : Chain R s (es ++ es') s'' := by
  induction h with
  | nil => simpa using h'
  | cons hstep _ ih =>
    rw [List.append_assoc]
    exact Chain.cons hstep (ih h')

theorem mono {R' : σ → Option ε → σ → Prop} (hR : ∀ a o b, R a o b → R' a o b)
    (h : Chain R s es s') : Chain R' s es s' := by
  induction h with
  | nil => exact Chain.nil _
  | cons hstep _ ih => exact Chain.cons (hR _ _ _ hstep) ih

/-- Stopping after any number of effects leaves a chain: no step is torn apart. -/
theorem take (h : Chain R s es s') (k : Nat) : ∃ t, Chain R s (es.take k) t := by
  induction h generalizing k with
  | nil => exact ⟨_, by simpa using Chain.nil _⟩
  | @cons s s' s'' o es hstep _ ih =>
    cases o with
    | none =>
      obtain ⟨t, ht⟩ := ih k
      exact ⟨t, by simpa using Chain.cons hstep ht⟩
    | some e =>
      cases k with
      | zero => exact ⟨s, by simpa using Chain.nil s⟩
      | succ k =>
        obtain ⟨t, ht⟩ := ih k
        exact ⟨t, by simpa using Chain.cons hstep ht⟩

/-- Every effect of a chain is the effect of a step. -/
theorem exists_step (h : Chain R s es s') {e : ε} (he : e ∈ es) : ∃ t t', R t (some e) t' := by
  induction h with
  | nil => exact absurd he List.not_mem_nil
  | @cons s s' s'' o es hstep _ ih =>
    rcases List.mem_append.mp he with hown | hrest
    · obtain rfl := Option.mem_toList.mp hown
      exact ⟨s, s', hstep⟩
    · exact ih hrest

/-- What every step preserves, a chain preserves. -/
theorem invariant {I : σ → Prop} (hstep : ∀ a o b, R a o b → I a → I b) (h : Chain R s es s')
    (hs : I s) : I s' := by
  induction h with
  | nil => exact hs
  | cons hR _ ih => exact ih (hstep _ _ _ hR hs)

end Chain

/-! ### Following a program -/

section Following

variable {L : Type}

/-- The program follows the steps of `R`. The small-step system has states of its own: it stands in `l` when
the program starts in `s`, and ends where `Q` holds when the program returns and where `E` holds when it
throws. The two need not agree all the time, so a step may stand for several statements, and `L` may hold
more than the program's state. -/
def Follows (R : L → Option ε → L → Prop) (m : Prog σ ε χ α) (Q : α → L → σ → Prop) (E : L → σ → Prop)
    (l : L) (s : σ) : Prop :=
  ∃ l', Chain R l (m s).2.2 l' ∧
    match (m s).1 with
    | .ok a => Q a l' (m s).2.1
    | .error _ => E l' (m s).2.1

namespace Follows

variable {R : L → Option ε → L → Prop} {m : Prog σ ε χ α} {Q Q' : α → L → σ → Prop}
  {E E' : L → σ → Prop} {l l' : L} {s : σ}

theorem weaken (h : Follows R m Q' E' l s) (hQ : ∀ a l s, Q' a l s → Q a l s)
    (hE : ∀ l s, E' l s → E l s) : Follows R m Q E l s := by
  obtain ⟨l', hchain, hpost⟩ := h
  refine ⟨l', hchain, ?_⟩
  split
  · next a ha => rw [ha] at hpost; exact hQ _ _ _ hpost
  · next x hx => rw [hx] at hpost; exact hE _ _ hpost

theorem post (h : Follows R m Q' E l s) (hQ : ∀ a l s, Q' a l s → Q a l s) : Follows R m Q E l s :=
  h.weaken hQ fun _ _ hE => hE

theorem ret {a : α} (h : Q a l s) : Follows R (Prog.ret a : Prog σ ε χ α) Q E l s :=
  ⟨l, Chain.nil l, h⟩

theorem throw {x : χ} (h : E l s) : Follows R (Prog.throw x : Prog σ ε χ α) Q E l s :=
  ⟨l, Chain.nil l, h⟩

theorem modify {f : σ → σ} {Q : Unit → L → σ → Prop} (h : Q () l (f s)) :
    Follows R (Prog.modify f : Prog σ ε χ Unit) Q E l s :=
  ⟨l, Chain.nil l, h⟩

theorem emit {e : ε} {Q : Unit → L → σ → Prop} (hR : R l (some e) l') (h : Q () l' s) :
    Follows R (Prog.emit e : Prog σ ε χ Unit) Q E l s :=
  ⟨l', Chain.single hR, h⟩

theorem emitState {f : σ → ε} {Q : Unit → L → σ → Prop} (hR : R l (some (f s)) l') (h : Q () l' s) :
    Follows R (Prog.emitState f : Prog σ ε χ Unit) Q E l s :=
  ⟨l', Chain.single hR, h⟩

/-- Steps without effects may be taken before the program starts. -/
theorem advance (hchain : Chain R l [] l') (h : Follows R m Q E l' s) : Follows R m Q E l s := by
  obtain ⟨l'', hchain', hpost⟩ := h
  exact ⟨l'', by simpa using hchain.append hchain', hpost⟩

theorem step (hR : R l none l') (h : Follows R m Q E l' s) : Follows R m Q E l s :=
  h.advance (Chain.silent hR)

theorem bind {f : α → Prog σ ε χ β} {Q : β → L → σ → Prop}
    (h : Follows R m (fun a => Follows R (f a) Q E) E l s) : Follows R (m >>= f) Q E l s := by
  obtain ⟨l', hchain, hpost⟩ := h
  unfold Follows
  rw [bind_eq]
  unfold andThen
  rcases hrun : m s with ⟨_ | a, s', es⟩
  · rw [hrun] at hchain hpost
    exact ⟨l', hchain, hpost⟩
  · rw [hrun] at hchain hpost
    obtain ⟨l'', hchain', hpost'⟩ := hpost
    exact ⟨l'', hchain.append hchain', hpost'⟩

theorem get {f : σ → Prog σ ε χ α} (h : Follows R (f s) Q E l s) : Follows R (Prog.get >>= f) Q E l s := by
  unfold Follows
  rw [get_bind]
  exact h

theorem ofExcept {r : Except χ α} (hok : ∀ a, r = .ok a → Q a l s)
    (herror : ∀ x, r = .error x → Follows R (Prog.throw x : Prog σ ε χ α) Q E l s) :
    Follows R (Prog.ofExcept r : Prog σ ε χ α) Q E l s := by
  cases r with
  | ok a => exact ret (hok a rfl)
  | error x => exact herror x rfl

theorem attempt {handler : χ → Prog σ ε χ α}
    (h : Follows R m Q (fun l s => ∀ x, Follows R (handler x) Q E l s) l s) :
    Follows R (Prog.attempt m handler) Q E l s := by
  obtain ⟨l', hchain, hpost⟩ := h
  unfold Follows Prog.attempt
  rcases hrun : m s with ⟨x | a, s', es⟩
  · rw [hrun] at hchain hpost
    obtain ⟨l'', hchain', hpost'⟩ := hpost x
    exact ⟨l'', hchain.append hchain', hpost'⟩
  · rw [hrun] at hchain hpost
    exact ⟨l', hchain, hpost⟩

/-- What every step preserves holds where the program returns. -/
theorem invariant {I : L → Prop} (h : Follows R m Q E l s) (hstep : ∀ a o b, R a o b → I a → I b) (hl : I l) :
    Follows R m (fun a l' s' => Q a l' s' ∧ I l') E l s := by
  obtain ⟨l', hchain, hpost⟩ := h
  refine ⟨l', hchain, ?_⟩
  split at hpost
  · exact ⟨hpost, hchain.invariant hstep hl⟩
  · exact hpost

/-- A loop: the invariant is indexed by the elements still to be visited. -/
theorem forEach {f : β → Prog σ ε χ Unit} {I : List β → L → σ → Prop} {xs : List β} (hs : I xs l s)
    (h : ∀ x rest l s, I (x :: rest) l s → Follows R (f x) (fun _ => I rest) E l s) :
    Follows R (Prog.forEach xs f) (fun _ => I []) E l s := by
  induction xs generalizing l s with
  | nil => exact ret hs
  | cons x xs ih => exact bind ((h x xs l s hs).post fun _ l s hs => ih hs)

theorem ite {c : Prop} [Decidable c] {m' : Prog σ ε χ α}
    (ht : c → Follows R m Q E l s) (hf : ¬ c → Follows R m' Q E l s) :
    Follows R (if c then m else m') Q E l s := by
  split
  · next hc => exact ht hc
  · next hc => exact hf hc

theorem when {c : Prop} [Decidable c] {m : Prog σ ε χ Unit} {Q : Unit → L → σ → Prop}
    (ht : c → Follows R m Q E l s) (hf : ¬ c → Q () l s) : Follows R (Prog.when c m) Q E l s :=
  ite ht fun hc => ret (hf hc)

end Follows

end Following

/-! ### Programs that return -/

section Returning

variable {m : Prog σ ε χ α} {Q : α → List ε → σ → Prop} {es : List ε} {s : σ}

/-- The small-step system that records the effects and does nothing else. -/
def Recorded (es : List ε) (o : Option ε) (es' : List ε) : Prop := es' = es ++ o.toList

theorem Chain.recorded {es es' es'' : List ε} (h : Chain Recorded es es' es'') : es'' = es ++ es' := by
  induction h with
  | nil => simp
  | cons hstep _ ih => rw [ih, hstep, List.append_assoc]

theorem Chain.record (es es' : List ε) : Chain Recorded es es' (es ++ es') := by
  induction es' generalizing es with
  | nil => simpa using Chain.nil es
  | cons e es' ih =>
    rw [List.append_cons]
    exact Chain.cons (o := some e) rfl (ih (es ++ [e]))

/-- How a program ends: `Q` holds of the effects up to its end when it returns, `E` when it throws. -/
def Ends (m : Prog σ ε χ α) (Q : α → List ε → σ → Prop) (E : List ε → σ → Prop) : List ε → σ → Prop :=
  Follows Recorded m Q E

theorem Ends.run {E : List ε → σ → Prop} (h : Ends m Q E es s) :
    match m s with
    | (.ok a, s', es') => Q a (es ++ es') s'
    | (.error _, s', es') => E (es ++ es') s' := by
  obtain ⟨l', hchain, hpost⟩ := h
  rcases hrun : m s with ⟨_ | a, s', es'⟩
  all_goals
    rw [hrun] at hchain hpost
    obtain rfl := hchain.recorded
    exact hpost

/-- A run that is known. -/
theorem Ends.of_run {E : List ε → σ → Prop} {a : α} {s' : σ} {es' : List ε} (hrun : m s = (.ok a, s', es'))
    (h : Q a (es ++ es') s') : Ends m Q E es s := by
  unfold Ends Follows
  rw [hrun]
  exact ⟨es ++ es', .record es es', h⟩

/-- What is known of the end in two ways. -/
theorem Ends.and {Q' : α → List ε → σ → Prop} {E E' : List ε → σ → Prop} (h : Ends m Q E es s) (h' : Ends m Q' E' es s) :
    Ends m (fun a es' s' => Q a es' s' ∧ Q' a es' s') (fun es' s' => E es' s' ∧ E' es' s') es s := by
  obtain ⟨l, hchain, hpost⟩ := h
  obtain ⟨l', hchain', hpost'⟩ := h'
  obtain rfl : l = l' := hchain.recorded.trans hchain'.recorded.symm
  refine ⟨l, hchain, ?_⟩
  cases hresult : (m s).1 with
  | ok a =>
    rw [hresult] at hpost hpost'
    exact ⟨hpost, hpost'⟩
  | error x =>
    rw [hresult] at hpost hpost'
    exact ⟨hpost, hpost'⟩

/-- Total correctness: the program does not throw, and `Q` holds of the effects up to its end. -/
def Returns (m : Prog σ ε χ α) (Q : α → List ε → σ → Prop) : List ε → σ → Prop :=
  Follows Recorded m Q fun _ _ => False

theorem Returns.run (h : Returns m Q es s) : ∃ a s' es', m s = (.ok a, s', es') ∧ Q a (es ++ es') s' := by
  obtain ⟨l', hchain, hpost⟩ := h
  rcases hrun : m s with ⟨_ | a, s', es'⟩
  · rw [hrun] at hpost
    exact hpost.elim
  · rw [hrun] at hchain hpost
    obtain rfl := hchain.recorded
    exact ⟨a, s', es', rfl, hpost⟩

/-- A program that returns ends in every way it is known to end. -/
theorem Returns.and_ends {Q' : α → List ε → σ → Prop} {E : List ε → σ → Prop} (h : Returns m Q es s)
    (h' : Ends m Q' E es s) : Returns m (fun a es' s' => Q a es' s' ∧ Q' a es' s') es s := by
  obtain ⟨a, s', es', hrun, hpost⟩ := h.run
  have hpost' := h'.run
  rw [hrun] at hpost'
  exact Ends.of_run hrun ⟨hpost, hpost'⟩

/-- Effects are only added. -/
theorem Returns.grows (h : Returns m Q es s) : Returns m (fun a es' s' => Q a es' s' ∧ es <+: es') es s := by
  obtain ⟨l', hchain, hpost⟩ := h
  refine ⟨l', hchain, ?_⟩
  split at hpost
  · exact ⟨hpost, _, hchain.recorded.symm⟩
  · exact hpost

end Returning

/-! ### Programs that keep an invariant -/

section Keeping

variable {J : List ε → σ → Prop} {m : Prog σ ε χ α}

/-- What holds of the effects and the state where the program starts holds where it ends, whether it returns or
throws. -/
def Keeps (J : List ε → σ → Prop) (m : Prog σ ε χ α) : Prop := ∀ es s, J es s → Ends m (fun _ => J) J es s

namespace Keeps

theorem ret {a : α} : Keeps J (Prog.ret a : Prog σ ε χ α) := fun _ _ h => Follows.ret h

theorem throw {x : χ} : Keeps J (Prog.throw x : Prog σ ε χ α) := fun _ _ h => Follows.throw h

theorem modify {f : σ → σ} (h : ∀ es s, J es s → J es (f s)) : Keeps J (Prog.modify f : Prog σ ε χ Unit) :=
  fun es s hs => Follows.modify (h es s hs)

theorem emit {e : ε} (h : ∀ es s, J es s → J (es ++ [e]) s) : Keeps J (Prog.emit e : Prog σ ε χ Unit) :=
  fun es s hs => Follows.emit rfl (h es s hs)

theorem emitState {f : σ → ε} (h : ∀ es s, J es s → J (es ++ [f s]) s) :
    Keeps J (Prog.emitState f : Prog σ ε χ Unit) :=
  fun es s hs => Follows.emitState rfl (h es s hs)

theorem bind {f : α → Prog σ ε χ β} (hm : Keeps J m) (hf : ∀ a, Keeps J (f a)) : Keeps J (m >>= f) :=
  fun es s hs => Follows.bind ((hm es s hs).post fun a es s hs => hf a es s hs)

theorem get {f : σ → Prog σ ε χ α} (h : ∀ s, Keeps J (f s)) : Keeps J (Prog.get >>= f) :=
  fun es s hs => Follows.get (h s es s hs)

theorem ofExcept {r : Except χ α} : Keeps J (Prog.ofExcept r : Prog σ ε χ α) :=
  fun _ _ hs => Follows.ofExcept (fun _ _ => hs) fun _ _ => Follows.throw hs

theorem ite {c : Prop} [Decidable c] {m' : Prog σ ε χ α} (ht : Keeps J m) (hf : Keeps J m') :
    Keeps J (if c then m else m') :=
  fun es s hs => Follows.ite (fun _ => ht es s hs) fun _ => hf es s hs

theorem when {c : Prop} [Decidable c] {m : Prog σ ε χ Unit} (h : Keeps J m) : Keeps J (Prog.when c m) :=
  ite h ret

theorem attempt {handler : χ → Prog σ ε χ α} (hm : Keeps J m) (hhandler : ∀ x, Keeps J (handler x)) :
    Keeps J (Prog.attempt m handler) :=
  fun es s hs => Follows.attempt ((hm es s hs).weaken (fun _ _ _ hs => hs) fun es s hs x => hhandler x es s hs)

theorem forEach {xs : List β} {f : β → Prog σ ε χ Unit} (h : ∀ x, Keeps J (f x)) : Keeps J (Prog.forEach xs f) :=
  fun _ _ hs => Follows.forEach (I := fun _ => J) hs fun x _ es s hs => h x es s hs

end Keeps

end Keeping

end Prog

end Nukv.Base
