import Mathlib

/-!
# A pool of workers behind a queue

Producers push tasks to a queue under a mutex and call `notify_one` after they have released it; workers wait on a
condition variable until there is a task or the pool is stopped. Every section under the mutex is one step. A notification
is a step of its own, and it reaches only a worker that is asleep at that moment; a worker may also wake up for no reason.

A task that is accepted is in the queue, with one worker, or done. While a worker sleeps, there are no more tasks in the
queue than notifications and workers on their way to it. After the pool was stopped, the workers run what is left and
exit, in a number of steps that is known beforehand.
-/

namespace Nukv.Base

/-- Where a worker is. -/
inductive Worker (T : Type) where
  /-- On its way to the mutex. -/
  | checking
  /-- Asleep on the condition variable. -/
  | waiting
  | running (task : T)
  | exited
  deriving DecidableEq, Repr

structure Pool (T : Type) where
  workers : List (Worker T)
  queue : List T
  stopping : Bool
  /-- Calls of `notify_one` that are still to come. -/
  signals : Nat
  /-- The call of `notify_all` is still to come. -/
  broadcast : Bool
  deriving Repr

/-- What becomes of a task. -/
inductive PoolEvent (T : Type) where
  | accept (task : T)
  | take (task : T)
  | finish (task : T)
  deriving DecidableEq, Repr

namespace Worker

variable {T : Type}

def task? : Worker T → Option T
  | running task => some task
  | _ => none

def isChecking : Worker T → Bool
  | checking => true
  | _ => false

/-- What `notify_all` does to a worker. -/
def notified : Worker T → Worker T
  | waiting => checking
  | worker => worker

/-- The steps that a worker has before it, without those for tasks in the queue. -/
def rank : Worker T → Nat
  | checking | waiting => 1
  | running _ => 2
  | exited => 0

end Worker

namespace Pool

variable {T : Type}

/-- A pool whose workers have just been started. -/
def start (workers : Nat) : Pool T := ⟨List.replicate workers .checking, [], false, 0, false⟩

def running (pool : Pool T) : List T := pool.workers.filterMap Worker.task?

def checking (pool : Pool T) : Nat := pool.workers.countP Worker.isChecking

/-- Push a task, unless the pool is stopped. -/
def enqueue (pool : Pool T) (task : T) : Pool T :=
  if pool.stopping then pool
  else { pool with queue := pool.queue ++ [task], signals := pool.signals + 1 }

/-- What a worker does under the mutex: it waits, exits or takes the first task. -/
def enter (pool : Pool T) : Worker T × List T :=
  match pool.queue with
  | [] => (if pool.stopping then .exited else .waiting, [])
  | task :: rest => (.running task, rest)

def stop (pool : Pool T) : Pool T := { pool with stopping := true, broadcast := true }

/-- The worker between `before` and `after` is now `worker`. -/
def replace (pool : Pool T) (before : List (Worker T)) (worker : Worker T) (after : List (Worker T)) : Pool T :=
  { pool with workers := before ++ worker :: after }

/-- A step of a worker. -/
inductive Work (pool : Pool T) : Option (PoolEvent T) → Pool T → Prop
  | sleep (before after : List (Worker T)) :
      pool.workers = before ++ .checking :: after → pool.enter = (.waiting, pool.queue) →
        Work pool none (pool.replace before .waiting after)
  | exit (before after : List (Worker T)) :
      pool.workers = before ++ .checking :: after → pool.enter = (.exited, pool.queue) →
        Work pool none (pool.replace before .exited after)
  | take (before after : List (Worker T)) (task : T) (rest : List T) :
      pool.workers = before ++ .checking :: after → pool.enter = (.running task, rest) →
        Work pool (some (.take task)) { pool.replace before (.running task) after with queue := rest }
  | finish (before after : List (Worker T)) (task : T) :
      pool.workers = before ++ .running task :: after →
        Work pool (some (.finish task)) (pool.replace before .checking after)

/-- A step of a producer, of the condition variable, of whoever stops the pool, or of a worker. -/
inductive Step (pool : Pool T) : Option (PoolEvent T) → Pool T → Prop
  | enqueue (task : T) : pool.stopping = false → Step pool (some (.accept task)) (pool.enqueue task)
  | notifyOne (before after : List (Worker T)) :
      0 < pool.signals → pool.workers = before ++ .waiting :: after →
        Step pool none { pool.replace before .checking after with signals := pool.signals - 1 }
  | notifyNobody :
      0 < pool.signals → .waiting ∉ pool.workers → Step pool none { pool with signals := pool.signals - 1 }
  | wake (before after : List (Worker T)) :
      pool.workers = before ++ .waiting :: after → Step pool none (pool.replace before .checking after)
  | stop : pool.stopping = false → Step pool none pool.stop
  | notifyAll : pool.broadcast = true →
      Step pool none { pool with workers := pool.workers.map Worker.notified, broadcast := false }
  | work {event : Option (PoolEvent T)} {pool' : Pool T} : Work pool event pool' → Step pool event pool'

/-- A run of a pool, with what became of its tasks, oldest first. -/
inductive Run (workers : Nat) : List (PoolEvent T) → Pool T → Prop
  | start : Run workers [] (Pool.start workers)
  | step {events : List (PoolEvent T)} {pool pool' : Pool T} {event : Option (PoolEvent T)} :
      Run workers events pool → Step pool event pool' → Run workers (events ++ event.toList) pool'

end Pool

/-! ### The tasks of a run -/

section Events

variable {T : Type}

namespace PoolEvent

def accepted? : PoolEvent T → Option T
  | accept task => some task
  | _ => none

def taken? : PoolEvent T → Option T
  | take task => some task
  | _ => none

def finished? : PoolEvent T → Option T
  | finish task => some task
  | _ => none

end PoolEvent

def accepted (events : List (PoolEvent T)) : List T := events.filterMap PoolEvent.accepted?

def taken (events : List (PoolEvent T)) : List T := events.filterMap PoolEvent.taken?

def finished (events : List (PoolEvent T)) : List T := events.filterMap PoolEvent.finished?

end Events

namespace Pool

variable {T : Type} {pool pool' : Pool T} {workers : Nat} {events : List (PoolEvent T)} {event : Option (PoolEvent T)}

theorem enter_running {task : T} {rest : List T} (h : pool.enter = (.running task, rest)) : pool.queue = task :: rest := by
  unfold enter at h
  split at h
  · split at h <;> cases h
  · next first queue hqueue =>
    obtain ⟨hfirst, rfl⟩ := Prod.mk.inj h
    rw [hqueue, Worker.running.inj hfirst]

theorem enter_waiting (h : pool.enter = (.waiting, pool.queue)) : pool.queue = [] ∧ pool.stopping = false := by
  unfold enter at h
  split at h
  · next hqueue =>
    refine ⟨hqueue, ?_⟩
    cases hstopping : pool.stopping with
    | true => simp [hstopping] at h
    | false => rfl
  · cases h

theorem enter_exited (h : pool.enter = (.exited, pool.queue)) : pool.queue = [] ∧ pool.stopping = true := by
  unfold enter at h
  split at h
  · next hqueue =>
    refine ⟨hqueue, ?_⟩
    cases hstopping : pool.stopping with
    | true => rfl
    | false => simp [hstopping] at h
  · cases h

/-- Tasks are taken in the order in which they are accepted, each once. -/
theorem Run.accepted_eq (h : Run workers events pool) : accepted events = taken events ++ pool.queue := by
  induction h with
  | start => rfl
  | @step events pool pool' event _ hstep ih =>
    unfold accepted taken at ih ⊢
    rw [List.filterMap_append, List.filterMap_append, ih]
    cases hstep with
    | enqueue task hstopping => simp [Pool.enqueue, hstopping, PoolEvent.accepted?, PoolEvent.taken?]
    | work hwork =>
      cases hwork with
      | take before after task rest _ henter =>
        simp [enter_running henter, PoolEvent.accepted?, PoolEvent.taken?]
      | _ => simp [replace, List.filterMap_cons, PoolEvent.accepted?, PoolEvent.taken?]
    | _ => simp [replace, Pool.stop]

/-- A task that was taken is with one worker or done. -/
theorem Run.taken_perm (h : Run workers events pool) : (taken events).Perm (finished events ++ pool.running) := by
  induction h with
  | start => simp [taken, finished, running, Pool.start, Worker.task?]
  | @step events pool pool' event _ hstep ih =>
    unfold taken finished at ih ⊢
    rw [List.filterMap_append, List.filterMap_append]
    have hsame : ∀ {event : Option (PoolEvent T)} {pool' : Pool T}, event.toList.filterMap PoolEvent.taken? = [] →
        event.toList.filterMap PoolEvent.finished? = [] → pool'.running = pool.running →
        (events.filterMap PoolEvent.taken? ++ event.toList.filterMap PoolEvent.taken?).Perm
          (events.filterMap PoolEvent.finished? ++ event.toList.filterMap PoolEvent.finished? ++ pool'.running) := by
      intro event pool' htaken hfinished hrunning
      rw [htaken, hfinished, hrunning, List.append_nil, List.append_nil]
      exact ih
    cases hstep with
    | enqueue task hstopping => exact hsame rfl rfl (by simp [Pool.enqueue, hstopping, running])
    | notifyOne before after _ hworkers => exact hsame rfl rfl (by simp [replace, running, hworkers, List.filterMap_cons, Worker.task?])
    | notifyNobody => exact hsame rfl rfl rfl
    | wake before after hworkers => exact hsame rfl rfl (by simp [replace, running, hworkers, List.filterMap_cons, Worker.task?])
    | stop => exact hsame rfl rfl rfl
    | notifyAll =>
      refine hsame rfl rfl ?_
      unfold running
      rw [List.filterMap_map]
      refine List.filterMap_congr fun worker _ => ?_
      cases worker <;> rfl
    | work hwork =>
      cases hwork with
      | sleep before after hworkers => exact hsame rfl rfl (by simp [replace, running, hworkers, List.filterMap_cons, Worker.task?])
      | exit before after hworkers => exact hsame rfl rfl (by simp [replace, running, hworkers, List.filterMap_cons, Worker.task?])
      | take before after task rest hworkers =>
        have hrunning : pool.running = before.filterMap Worker.task? ++ after.filterMap Worker.task? := by
          simp [running, hworkers, List.filterMap_cons, Worker.task?]
        simp only [Option.toList_some, List.filterMap_cons, PoolEvent.taken?, PoolEvent.finished?, List.filterMap_nil,
          List.append_nil, running, replace, List.filterMap_append, Worker.task?]
        rw [hrunning] at ih
        refine (ih.append_right [task]).trans ?_
        rw [List.append_assoc, List.append_assoc]
        refine List.Perm.append_left _ (List.Perm.append_left _ ?_)
        exact List.perm_append_singleton task _
      | finish before after task hworkers =>
        have hrunning : pool.running = before.filterMap Worker.task? ++ task :: after.filterMap Worker.task? := by
          simp [running, hworkers, Worker.task?]
        simp only [Option.toList_some, List.filterMap_cons, PoolEvent.taken?, PoolEvent.finished?, List.filterMap_nil,
          List.append_nil, running, replace, List.filterMap_append, Worker.task?]
        rw [hrunning] at ih
        refine ih.trans ?_
        rw [List.append_assoc]
        refine List.Perm.append_left _ ?_
        exact List.perm_middle

/-! ### Notifications -/

/-- While a worker sleeps, every task in the queue has a notification or a worker on its way. After the pool was stopped and
the sleeping workers were notified, none sleeps again. -/
structure Awake (pool : Pool T) : Prop where
  notified : .waiting ∈ pool.workers → pool.queue.length ≤ pool.signals + pool.checking
  stopped : pool.stopping = true → pool.broadcast = false → .waiting ∉ pool.workers
  exited : .exited ∈ pool.workers → pool.stopping = true ∧ pool.queue = []

section Replace

variable {before after : List (Worker T)} {old worker : Worker T} (hworkers : pool.workers = before ++ old :: after)
include hworkers

/-- The other workers are where they were. -/
theorem mem_of_mem_replace {other : Worker T} (hne : other ≠ worker) (h : other ∈ (pool.replace before worker after).workers) :
    other ∈ pool.workers := by
  have hother : other ∈ before ∨ other ∈ after := by simpa [replace, hne] using h
  rw [hworkers, List.mem_append, List.mem_cons]
  exact hother.imp_right .inr

theorem checking_replace (worker : Worker T) : (pool.replace before worker after).checking + (if old.isChecking then 1 else 0) =
    pool.checking + (if worker.isChecking then 1 else 0) := by
  simp only [checking, replace, hworkers, List.countP_append, List.countP_cons]
  omega

end Replace

theorem Work.awake (h : Work pool event pool') (hawake : pool.Awake) : pool'.Awake := by
  cases h with
  | sleep before after hworkers henter =>
    obtain ⟨hqueue, hstopping⟩ := enter_waiting henter
    refine ⟨fun _ => by simp [replace, hqueue], fun hstopped => ?_,
      fun h => hawake.exited (mem_of_mem_replace hworkers (by simp) h)⟩
    exact absurd (hstopping.symm.trans hstopped) Bool.noConfusion
  | exit before after hworkers henter =>
    obtain ⟨hqueue, hstopping⟩ := enter_exited henter
    exact ⟨fun _ => by simp [replace, hqueue],
      fun hstopped hbroadcast h => hawake.stopped hstopped hbroadcast (mem_of_mem_replace hworkers (by simp) h),
      fun _ => ⟨hstopping, hqueue⟩⟩
  | take before after task rest hworkers henter =>
    have hqueue := enter_running henter
    refine ⟨fun h => ?_,
      fun hstopped hbroadcast h => hawake.stopped hstopped hbroadcast (mem_of_mem_replace hworkers (by simp) h), fun h => ?_⟩
    · -- one task fewer and one worker fewer on its way
      have hnotified := hawake.notified (mem_of_mem_replace hworkers (by simp) h)
      have hchecking := checking_replace hworkers (.running task)
      rw [hqueue, List.length_cons] at hnotified
      simp only [Worker.isChecking, if_true, Bool.false_eq_true, if_false] at hchecking
      simp only [checking, replace] at hchecking hnotified ⊢
      omega
    · have hempty := (hawake.exited (mem_of_mem_replace hworkers (by simp) h)).2
      rw [hqueue] at hempty
      cases hempty
  | finish before after task hworkers =>
    refine ⟨fun h => ?_,
      fun hstopped hbroadcast h => hawake.stopped hstopped hbroadcast (mem_of_mem_replace hworkers (by simp) h),
      fun h => hawake.exited (mem_of_mem_replace hworkers (by simp) h)⟩
    have hnotified := hawake.notified (mem_of_mem_replace hworkers (by simp) h)
    have hchecking := checking_replace hworkers .checking
    simp only [Worker.isChecking, if_true, Bool.false_eq_true, if_false] at hchecking
    exact hnotified.trans (by simp only [replace] at hchecking ⊢; omega)

/-- A worker that wakes up makes up for one notification. -/
theorem Awake.woken (hawake : pool.Awake) {before after : List (Worker T)} {signals : Nat}
    (hworkers : pool.workers = before ++ .waiting :: after) (hsignals : pool.signals ≤ signals + 1) :
    Awake { pool.replace before .checking after with signals := signals } := by
  have hmem : .waiting ∈ pool.workers := by simp [hworkers]
  refine ⟨fun _ => ?_, fun hstopped hbroadcast _ => hawake.stopped hstopped hbroadcast hmem,
    fun h => hawake.exited (mem_of_mem_replace hworkers (by simp) h)⟩
  have hnotified := hawake.notified hmem
  have hchecking := checking_replace hworkers .checking
  simp only [Worker.isChecking, if_true, Bool.false_eq_true, if_false] at hchecking
  simp only [checking, replace] at hchecking hnotified ⊢
  omega

theorem Step.awake (h : Step pool event pool') (hawake : pool.Awake) : pool'.Awake := by
  cases h with
  | enqueue task hstopping =>
    have hpool : pool.enqueue task = { pool with queue := pool.queue ++ [task], signals := pool.signals + 1 } := by
      simp [Pool.enqueue, hstopping]
    rw [hpool]
    refine ⟨fun h => ?_, fun hstopped => ?_, fun hexited => ?_⟩
    · have := hawake.notified h
      simp only [List.length_append, List.length_singleton, checking] at this ⊢
      omega
    · exact absurd (hstopped.symm.trans hstopping) Bool.noConfusion
    · exact absurd ((hawake.exited hexited).1.symm.trans hstopping) Bool.noConfusion
  | notifyOne before after hsignals hworkers => exact hawake.woken hworkers (by omega)
  | notifyNobody _ hnobody =>
    exact ⟨fun h => absurd h hnobody, fun _ _ => hnobody, hawake.exited⟩
  | wake before after hworkers => exact hawake.woken hworkers (Nat.le_succ _)
  | stop =>
    refine ⟨hawake.notified, fun _ hbroadcast => ?_, fun hexited => ⟨rfl, (hawake.exited hexited).2⟩⟩
    cases hbroadcast
  | notifyAll =>
    have hnobody : Worker.waiting ∉ pool.workers.map Worker.notified := by
      intro h
      obtain ⟨worker, _, hnotified⟩ := List.mem_map.mp h
      cases worker <;> cases hnotified
    refine ⟨fun h => absurd h hnobody, fun _ _ => hnobody, fun hexited => ?_⟩
    obtain ⟨worker, hworker, hnotified⟩ := List.mem_map.mp hexited
    cases worker with
    | exited => exact hawake.exited hworker
    | _ => cases hnotified
  | work hwork => exact hwork.awake hawake

theorem Run.awake (h : Run workers events pool) : pool.Awake := by
  induction h with
  | start =>
    have hchecking : ∀ worker ∈ (Pool.start workers : Pool T).workers, worker = .checking :=
      fun worker hworker => List.eq_of_mem_replicate hworker
    exact ⟨fun h => absurd (hchecking _ h) (by simp), fun _ _ h => absurd (hchecking _ h) (by simp),
      fun h => absurd (hchecking _ h) (by simp)⟩
  | step _ hstep ih => exact hstep.awake ih

/-! ### A pool that was stopped -/

theorem Step.stopping (h : Step pool event pool') (hstopping : pool.stopping = true) : pool'.stopping = true := by
  cases h with
  | enqueue task hopen => exact absurd (hstopping.symm.trans hopen) Bool.noConfusion
  | stop => rfl
  | work hwork => cases hwork <;> exact hstopping
  | _ => exact hstopping

/-- The pool was stopped and no worker sleeps. -/
def Closed (pool : Pool T) : Prop := pool.stopping = true ∧ .waiting ∉ pool.workers

/-- The steps that the workers of a closed pool have before them: for a task to take, run it and come back. -/
def rank (pool : Pool T) : Nat := 2 * pool.queue.length + (pool.workers.map Worker.rank).sum

theorem Work.closed (h : Work pool event pool') (hclosed : pool.Closed) : pool'.Closed := by
  obtain ⟨hstopping, hnobody⟩ := hclosed
  cases h with
  | sleep before after _ henter => exact absurd ((enter_waiting henter).2.symm.trans hstopping) Bool.noConfusion
  | exit before after hworkers _ => exact ⟨hstopping, fun h => hnobody (mem_of_mem_replace hworkers (by simp) h)⟩
  | take before after task rest hworkers _ =>
    exact ⟨hstopping, fun h => hnobody (mem_of_mem_replace hworkers (by simp) h)⟩
  | finish before after task hworkers => exact ⟨hstopping, fun h => hnobody (mem_of_mem_replace hworkers (by simp) h)⟩

/-- Every step of a worker brings a closed pool nearer to its end. -/
theorem Work.rank_lt (h : Work pool event pool') (hclosed : pool.Closed) : pool'.rank < pool.rank := by
  cases h with
  | sleep before after _ henter => exact absurd ((enter_waiting henter).2.symm.trans hclosed.1) Bool.noConfusion
  | exit before after hworkers _ => simp [rank, replace, hworkers, Worker.rank]
  | take before after task rest hworkers henter =>
    simp only [rank, replace, hworkers, enter_running henter, List.length_cons, List.map_append, List.map_cons,
      List.sum_append, List.sum_cons, Worker.rank]
    omega
  | finish before after task hworkers => simp [rank, replace, hworkers, Worker.rank]

theorem Step.closed (h : Step pool event pool') (hclosed : pool.Closed) : pool'.Closed := by
  cases h with
  | enqueue task hstopping => exact absurd (hclosed.1.symm.trans hstopping) Bool.noConfusion
  | notifyOne before after _ hworkers => exact absurd (by simp [hworkers]) hclosed.2
  | notifyNobody => exact hclosed
  | wake before after hworkers => exact absurd (by simp [hworkers]) hclosed.2
  | stop hstopping => exact absurd (hclosed.1.symm.trans hstopping) Bool.noConfusion
  | notifyAll =>
    refine ⟨hclosed.1, fun h => ?_⟩
    obtain ⟨worker, _, hnotified⟩ := List.mem_map.mp h
    cases worker <;> cases hnotified
  | work hwork => exact hwork.closed hclosed

theorem Step.rank_le (h : Step pool event pool') (hclosed : pool.Closed) : pool'.rank ≤ pool.rank := by
  cases h with
  | enqueue task hstopping => exact absurd (hclosed.1.symm.trans hstopping) Bool.noConfusion
  | notifyOne before after _ hworkers => exact absurd (by simp [hworkers]) hclosed.2
  | notifyNobody => exact Nat.le_refl _
  | wake before after hworkers => exact absurd (by simp [hworkers]) hclosed.2
  | stop hstopping => exact absurd (hclosed.1.symm.trans hstopping) Bool.noConfusion
  | notifyAll =>
    have hmap : pool.workers.map (Worker.rank ∘ Worker.notified) = pool.workers.map Worker.rank :=
      List.map_congr_left fun worker _ => by cases worker <;> rfl
    simp [rank, hmap]
  | work hwork => exact Nat.le_of_lt (hwork.rank_lt hclosed)

/-- As long as a worker of a closed pool has not exited, a worker can go on. -/
theorem Closed.exists_work (hclosed : pool.Closed) (hbusy : ∃ worker ∈ pool.workers, worker ≠ .exited) :
    ∃ event pool', Work pool event pool' := by
  obtain ⟨worker, hworker, hexited⟩ := hbusy
  obtain ⟨before, after, hworkers⟩ := List.append_of_mem hworker
  cases worker with
  | checking =>
    cases hqueue : pool.queue with
    | nil => exact ⟨_, _, .exit before after hworkers (by simp [enter, hqueue, hclosed.1])⟩
    | cons task rest => exact ⟨_, _, .take before after task rest hworkers (by simp [enter, hqueue])⟩
  | waiting => exact absurd hworker hclosed.2
  | running task => exact ⟨_, _, .finish before after task hworkers⟩
  | exited => exact absurd rfl hexited

theorem rank_le (pool : Pool T) : pool.rank ≤ 2 * pool.queue.length + 2 * pool.workers.length := by
  have hsum : ∀ workers : List (Worker T), (workers.map Worker.rank).sum ≤ 2 * workers.length := by
    intro workers
    induction workers with
    | nil => exact Nat.le_refl _
    | cons worker workers ih =>
      have hrank : worker.rank ≤ 2 := by cases worker <;> simp [Worker.rank]
      simp only [List.map_cons, List.sum_cons, List.length_cons]
      omega
  exact Nat.add_le_add_left (hsum pool.workers) _

theorem Step.length_workers (h : Step pool event pool') : pool'.workers.length = pool.workers.length := by
  cases h with
  | enqueue task hstopping => simp [Pool.enqueue, hstopping]
  | notifyOne before after _ hworkers => simp [replace, hworkers]
  | wake before after hworkers => simp [replace, hworkers]
  | notifyNobody => rfl
  | stop => rfl
  | notifyAll => simp
  | work hwork =>
    cases hwork with
    | sleep before after hworkers => simp [replace, hworkers]
    | exit before after hworkers => simp [replace, hworkers]
    | take before after task rest hworkers => simp [replace, hworkers]
    | finish before after task hworkers => simp [replace, hworkers]

theorem Run.length_workers (h : Run workers events pool) : pool.workers.length = workers := by
  induction h with
  | start => simp [Pool.start]
  | step _ hstep ih => rw [hstep.length_workers, ih]

/-- Once all workers have exited, every accepted task is done. -/
theorem Run.drained (h : Run workers events pool) (hworkers : 0 < workers)
    (hexited : ∀ worker ∈ pool.workers, worker = .exited) :
    pool.queue = [] ∧ (accepted events).Perm (finished events) := by
  have hqueue : pool.queue = [] := by
    obtain ⟨worker, hworker⟩ := List.exists_mem_of_length_pos (h.length_workers.symm ▸ hworkers)
    exact (h.awake.exited (hexited worker hworker ▸ hworker)).2
  have hrunning : pool.running = [] := by
    refine List.filterMap_eq_nil_iff.mpr fun worker hworker => ?_
    rw [hexited worker hworker]
    rfl
  refine ⟨hqueue, ?_⟩
  have hperm := h.taken_perm
  rw [hrunning, List.append_nil] at hperm
  rw [h.accepted_eq, hqueue, List.append_nil]
  exact hperm

end Pool

end Nukv.Base
