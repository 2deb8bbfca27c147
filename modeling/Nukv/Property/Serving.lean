import Nukv.Model.Workers
import Nukv.Property.Framing

/-!
# What becomes of a request

The pool of workers that a run of the client server shows is a run of the library's pool, so what is known of tasks there
holds of requests. On the side of a connection, the frames that were read and what `OnMessage` did so far determine what
it has still to do.

A request that stands in the bytes of a connection is answered, with a worker, in the queue, still to be queued, or
refused because the server is being destroyed, and each of them once. Workers take the requests of a connection in the
order of their bytes.
-/

namespace Nukv

open Base Proto

/-- The request that an event queues. -/
def ClientEvent.request? : ClientEvent → Option ClientRequest
  | .enqueue request => some request
  | _ => none

namespace ClientServer

namespace Act

/-- What an act is for the pool. -/
def poolEvent? : Act → Option (PoolEvent Task)
  | accept task => some (.accept task)
  | take task => some (.take task)
  | respond task _ _ => some (.finish task)
  | _ => none

/-- What was read from a connection. -/
def data? (connection : Nat) : Act → Option Bytes
  | read c data => if c = connection then some data else none
  | _ => none

/-- What `OnMessage` did for a connection. -/
def event? (connection : Nat) : Act → Option ClientEvent
  | reply c frame => if c = connection then some (.send frame) else none
  | shutdown c => if c = connection then some .shutdown else none
  | accept task => if task.connection = connection then some (.enqueue task.request) else none
  | refuse task => if task.connection = connection then some (.enqueue task.request) else none
  | _ => none

def refused? : Act → Option Task
  | refuse task => some task
  | _ => none

/-- The frame that a worker sent to a connection. -/
def answer? (connection : Nat) : Act → Option Bytes
  | respond task _ framed => if task.connection = connection then some framed else none
  | _ => none

end Act

/-- The requests of a connection among some tasks. -/
def requestsOn (connection : Nat) (tasks : List Task) : List ClientRequest :=
  tasks.filterMap fun task => if task.connection = connection then some task.request else none

/-- What the acts of a history are for the pool. -/
def poolEvents (history : List Act) : List (PoolEvent Task) := history.filterMap Act.poolEvent?

/-- The tasks that `Enqueue` did not take. -/
def refused (history : List Act) : List Task := history.filterMap Act.refused?

/-- The requests that `OnMessage` gave to `Enqueue`, for a connection. -/
def queuedOn (connection : Nat) (history : List Act) : List ClientRequest :=
  (history.filterMap (Act.event? connection)).filterMap ClientEvent.request?

section Lists

variable {connection : Nat}

@[simp] theorem requestsOn_append (tasks tasks' : List Task) :
    requestsOn connection (tasks ++ tasks') = requestsOn connection tasks ++ requestsOn connection tasks' :=
  List.filterMap_append

@[simp] theorem poolEvents_append (history history' : List Act) :
    poolEvents (history ++ history') = poolEvents history ++ poolEvents history' := List.filterMap_append

@[simp] theorem queuedOn_append (history history' : List Act) :
    queuedOn connection (history ++ history') = queuedOn connection history ++ queuedOn connection history' := by
  simp only [queuedOn, List.filterMap_append]

end Lists

variable {history : List Act} {threads threads' : Threads} {act : Option Act}

/-! ### The pool -/

/-- A step of the threads is a step of the pool or leaves it as it is. -/
theorem Threads.Step.pool (h : threads.Step act threads') :
    threads'.pool = threads.pool ∧ poolEvents act.toList = [] ∨
      ∃ event, threads.pool.Step event threads'.pool ∧ poolEvents act.toList = event.toList := by
  cases h with
  | enqueue connection request rest htodo =>
    cases hstopping : threads.pool.stopping with
    | true => exact .inl ⟨by simp [Threads.enqueue, performed, Pool.enqueue, hstopping], by simp [poolEvents, Act.poolEvent?]⟩
    | false => exact .inr ⟨some (.accept ⟨connection, request⟩), .enqueue _ hstopping, by simp [poolEvents, Act.poolEvent?]⟩
  | silent pool hpool => exact .inr ⟨none, hpool, rfl⟩
  | take task pool hpool => exact .inr ⟨_, hpool, by simp [poolEvents, Act.poolEvent?]⟩
  | respond before after task calls framed hworkers =>
    exact .inr ⟨_, .work (.finish before after task hworkers), by simp [poolEvents, Act.poolEvent?]⟩
  | _ => exact .inl ⟨rfl, by simp [poolEvents, Act.poolEvent?]⟩

theorem Threads.Run.pool (h : Run history threads) : Pool.Run 2 (poolEvents history) threads.pool := by
  induction h with
  | start => exact .start
  | @step history threads threads' act _ _ hstep ih =>
    rw [poolEvents_append]
    rcases hstep.pool with ⟨hpool, hevents⟩ | ⟨event, hpool, hevents⟩
    · rw [hpool, hevents, List.append_nil]
      exact ih
    · rw [hevents]
      exact ih.step hpool

/-! ### A connection -/

/-- `OnMessage` does not throw. -/
theorem onMessage_ok (buffer : Bytes) : (onMessage buffer).1 = .ok () := by
  obtain ⟨payloads, rest, hsplits⟩ := frames.exists_splits buffer
  rw [onMessage_splits hsplits]

theorem receive_concat {reads : List Bytes} {buffer : Bytes} {events : List ClientEvent} (data : Bytes)
    (h : receive reads [] = (.ok (), buffer, events)) :
    receive (reads ++ [data]) [] =
      (.ok (), (onMessage (buffer ++ data)).2.1, events ++ (onMessage (buffer ++ data)).2.2) := by
  have hread : receive [data] buffer =
      (.ok (), (onMessage (buffer ++ data)).2.1, (onMessage (buffer ++ data)).2.2) := by
    have hmessage : (do Prog.modify fun buffer => buffer ++ data
                        onMessage : ClientM Unit) buffer =
        (.ok (), (onMessage (buffer ++ data)).2.1, (onMessage (buffer ++ data)).2.2) := by
      rw [Prog.modify_bind, ← onMessage_ok (buffer ++ data)]
    refine (Prog.andThen_ok hmessage).trans ?_
    simp only [Prog.forEach, Prog.ret_run, List.append_nil]
  unfold receive at h hread ⊢
  rw [Prog.forEach_append]
  refine (Prog.andThen_ok h).trans ?_
  rw [hread]

/-- `OnMessage` has done the first thing that it had to do for a connection. -/
theorem event_append_performed {c : Nat} {event : ClientEvent} {rest : List ClientEvent} {act : Act} {connection : Nat}
    (htodo : threads.todo c = event :: rest)
    (hact : act.event? connection = if c = connection then some event else none) :
    [act].filterMap (Act.event? connection) ++ (threads.performed c rest).todo connection = threads.todo connection := by
  by_cases hc : c = connection
  · subst hc
    simp [hact, Threads.performed, htodo]
  · simp [hact, Threads.performed, hc, Function.update_of_ne (Ne.symm hc)]

/-- What `OnMessage` did and has to do is what the bytes that were read ask for. -/
theorem Threads.Run.received (h : Run history threads) (connection : Nat) :
    receive (history.filterMap (Act.data? connection)) [] =
      (.ok (), threads.buffers connection, history.filterMap (Act.event? connection) ++ threads.todo connection) := by
  induction h with
  | start => rfl
  | @step history threads threads' act _ _ hstep ih =>
    rw [List.filterMap_append, List.filterMap_append, List.append_assoc]
    -- a step that reads nothing moves events from what is to do to what was done
    have hmoves : act.toList.filterMap (Act.data? connection) = [] → threads'.buffers = threads.buffers →
        act.toList.filterMap (Act.event? connection) ++ threads'.todo connection = threads.todo connection →
        receive (history.filterMap (Act.data? connection) ++ act.toList.filterMap (Act.data? connection)) [] =
          (.ok (), threads'.buffers connection, history.filterMap (Act.event? connection) ++
            (act.toList.filterMap (Act.event? connection) ++ threads'.todo connection)) := by
      intro hdata hbuffers htodo
      rw [hdata, List.append_nil, hbuffers, htodo]
      exact ih
    cases hstep with
    | read c data htodo =>
      by_cases hc : c = connection
      · subst hc
        have hread := receive_concat data ih
        rw [htodo, List.append_nil] at hread
        simpa [Act.data?, Act.event?, onMessage, List.filterMap_cons] using hread
      · simpa [Act.data?, Act.event?, onMessage, List.filterMap_cons, hc, Function.update_of_ne (Ne.symm hc)] using ih
    | reply c frame rest htodo => exact hmoves rfl rfl (event_append_performed htodo rfl)
    | shutdown c rest htodo => exact hmoves rfl rfl (event_append_performed htodo rfl)
    | enqueue c request rest htodo =>
      refine hmoves ?_ rfl (event_append_performed htodo ?_)
      · split <;> rfl
      · split <;> rfl
    | silent pool hpool => exact hmoves rfl rfl rfl
    | take task pool hpool => exact hmoves rfl rfl rfl
    | respond before after task calls framed hworkers => exact hmoves rfl rfl rfl
    | throws before after task calls x hworkers => exact hmoves rfl rfl rfl

theorem Threads.Step.stopping (h : threads.Step act threads') (hstopping : threads.pool.stopping = true) :
    threads'.pool.stopping = true := by
  rcases h.pool with ⟨hpool, _⟩ | ⟨event, hpool, _⟩
  · rw [hpool]
    exact hstopping
  · exact hpool.stopping hstopping

/-- A frame that holds a response with this id. -/
def Answers (framed : Bytes) (requestId : UInt64) : Prop :=
  ∃ response : ClientResponse, response.requestId = requestId ∧ frame response.serialize = .ok framed

/-- A response carries the id of its request. -/
theorem requestId_responseTo (calls : NodeCalls) (request : ClientRequest) :
    (responseTo calls request).requestId = request.requestId := by
  have hsubmitted : ∀ failure success, (submitted request failure success).requestId = request.requestId := by
    intro failure success
    unfold submitted
    split <;> rfl
  have hmap : ∀ (result : Except Exn Bool) failure response, result.map (submitted request failure) = .ok response →
      response.requestId = request.requestId := by
    intro result failure response h
    cases result with
    | error x => cases h
    | ok success =>
      obtain rfl := Except.ok.inj h
      exact hsubmitted failure success
  have hanswer : ∀ response, answer calls request = .ok response → response.requestId = request.requestId := by
    intro response h
    unfold answer at h
    split at h
    · exact hmap _ _ _ h
    · cases hread : calls.readIndex with
      | error x =>
        rw [hread] at h
        cases h
      | ok read =>
        rw [hread] at h
        cases read with
        | false =>
          obtain rfl := Except.ok.inj h
          rfl
        | true =>
          cases hvalue : calls.getLocal request.key with
          | error x =>
            change (calls.getLocal request.key >>= _) = _ at h
            rw [hvalue] at h
            cases h
          | ok value =>
            change (calls.getLocal request.key >>= _) = _ at h
            rw [hvalue] at h
            cases value <;> obtain rfl := Except.ok.inj h <;> rfl
    · exact hmap _ _ _ h
    · obtain rfl := Except.ok.inj h
      rfl
    · obtain rfl := Except.ok.inj h
      rfl
  unfold responseTo
  split_ifs
  · rfl
  · rfl
  · split
    · next response h => exact hanswer response h
    · rfl

theorem answers_handleRequest {calls : NodeCalls} {request : ClientRequest} {framed : Bytes}
    (h : handleRequest calls request [] = (.ok (), [], [.send framed])) : Answers framed request.requestId := by
  refine ⟨responseTo calls request, requestId_responseTo calls request, ?_⟩
  rw [handleRequest, sendResponse] at h
  cases hframe : frame (responseTo calls request).serialize with
  | error x =>
    rw [hframe] at h
    cases (Prod.mk.inj h).1
  | ok sent =>
    rw [hframe] at h
    obtain rfl := ClientEvent.send.inj (List.singleton_inj.mp (Prod.mk.inj (Prod.mk.inj h).2).2)
    rfl

/-- What workers send answers the requests that they finish. -/
theorem Threads.Run.answers (h : Run history threads) (connection : Nat) :
    List.Forall₂ Answers (history.filterMap (Act.answer? connection))
      ((requestsOn connection (finished (poolEvents history))).map ClientRequest.requestId) := by
  induction h with
  | start => exact .nil
  | @step history threads threads' act _ _ hstep ih =>
    unfold finished at ih ⊢
    rw [poolEvents_append, List.filterMap_append, List.filterMap_append, requestsOn_append, List.map_append]
    refine List.rel_append ih ?_
    cases hstep with
    | enqueue c request rest htodo => split <;> exact .nil
    | respond before after task calls framed hworkers hhandled =>
      by_cases hc : task.connection = connection
      · simpa [poolEvents, requestsOn, List.filterMap_cons, Act.answer?, Act.poolEvent?, PoolEvent.finished?, hc] using
          answers_handleRequest hhandled
      · simp [poolEvents, requestsOn, Act.answer?, Act.poolEvent?, PoolEvent.finished?, hc]
    | _ => exact .nil

section Results

variable {connection : Nat} {payloads : List Bytes} {rest : Bytes}

/-- What `OnMessage` did and has to do for the frames that were read. -/
theorem Threads.Run.handed (h : Run history threads) (hsize : ∀ payload ∈ payloads, payload.length ≤ kMaxFrameSize)
    (hrest : Incomplete rest)
    (hread : (history.filterMap (Act.data? connection)).flatten = (payloads.map framed).flatten ++ rest) :
    payloads.flatMap Nukv.handed = history.filterMap (Act.event? connection) ++ threads.todo connection := by
  have hsplits : frames.Splits ([] ++ (history.filterMap (Act.data? connection)).flatten) payloads rest := by
    rw [List.nil_append, hread]
    exact .of_encoded (fun p hp => frames_next_framed (hsize p hp)) (frames_next_eq_none.mpr (.inl hrest))
  have hnone : frames.next [] = none := frames_next_eq_none.mpr (.inl (.inl (by decide)))
  obtain ⟨k, hk, hover⟩ := clientReceive_splits hnone hsplits
  -- nothing was refused, since the rest announces no more than is allowed
  have hzero : k = 0 := by
    by_contra hne
    have hlarge : Oversize rest := hover.mpr (.inl (Nat.pos_of_ne_zero hne))
    unfold Oversize at hlarge
    unfold Incomplete at hrest
    omega
  rw [hzero, h.received connection] at hk
  simpa using (Prod.mk.inj (Prod.mk.inj hk).2).2.symm

/-- A client asks for a key. -/
def asked : ClientRequest := ⟨5, .get, [107], [], 0⟩

/-- What a node says that is still starting. -/
def notReady : NodeCalls := .answering false false false false ⟨∅, []⟩

/-- The request of connection 1 is read and queued. -/
theorem run_asked : ∃ threads, Threads.Run [.read 1 (framed asked.serialize), .accept ⟨1, asked⟩] threads ∧
    threads.terminated = false ∧ threads.todo 1 = [] ∧
    threads.pool = ⟨[.checking, .checking], [⟨1, asked⟩], false, 1, false⟩ := by
  have hmessage : onMessage (framed asked.serialize) = (.ok (), [], [.enqueue asked]) :=
    onMessage_frame (by decide) (by decide) (by decide) (by decide)
  have hread := Threads.Run.start.step rfl (.read 1 (framed asked.serialize) rfl)
  have hlive : (Threads.start.onMessage 1 (framed asked.serialize)).terminated = false := by
    change decide ((onMessage (framed asked.serialize)).1.isOk = false) = false
    rw [hmessage]
    rfl
  have htodo : (Threads.start.onMessage 1 (framed asked.serialize)).todo 1 = [.enqueue asked] := by
    simp [Threads.onMessage, Threads.start, hmessage]
  exact ⟨_, hread.step hlive (.enqueue 1 asked [] htodo), hlive, by simp [Threads.enqueue, Threads.performed], rfl⟩

/-- A queued request is not forgotten. While a worker sleeps, there are no more requests in the queue than notifications
under way and workers about to look; and if no worker sleeps, one of them is about to look or will come back to. -/
theorem queue_attended (h : Threads.Run history threads) :
    (.waiting ∈ threads.pool.workers → threads.pool.queue.length ≤ threads.pool.signals + threads.pool.checking) ∧
      (threads.pool.queue ≠ [] → .waiting ∉ threads.pool.workers →
        ∃ worker ∈ threads.pool.workers, worker = .checking ∨ ∃ task, worker = .running task) := by
  refine ⟨h.pool.awake.notified, fun hqueue hnobody => ?_⟩
  obtain ⟨worker, hworker⟩ := List.exists_mem_of_length_pos (h.pool.length_workers.symm ▸ Nat.two_pos)
  refine ⟨worker, hworker, ?_⟩
  cases worker with
  | checking => exact .inl rfl
  | waiting => exact absurd hworker hnobody
  | running task => exact .inr ⟨task, rfl⟩
  | exited => exact absurd (h.pool.awake.exited hworker).2 hqueue

theorem queue_attended_asked : ∃ threads, Threads.Run [.read 1 (framed asked.serialize), .accept ⟨1, asked⟩] threads ∧
    threads.pool.queue ≠ [] ∧ ∃ worker ∈ threads.pool.workers, worker = .checking ∨ ∃ task, worker = .running task := by
  obtain ⟨threads, hrun, -, -, hpool⟩ := run_asked
  have hqueue : threads.pool.queue ≠ [] := by
    rw [hpool]
    simp
  exact ⟨threads, hrun, hqueue, (queue_attended hrun).2 hqueue (by simp [hpool])⟩

end Results

/-! ### The destructor -/

/-- What may follow, with the number of steps that workers make and what is done. -/
inductive Threads.Continues (threads : Threads) : Nat → List Act → Threads → Prop
  | refl : Continues threads 0 [] threads
  | work {k : Nat} {acts : List Act} {middle next : Threads} {act : Option Act} {event : Option (PoolEvent Task)} :
      Continues threads k acts middle → middle.terminated = false → middle.Step act next →
        middle.pool.Work event next.pool → Continues threads (k + 1) (acts ++ act.toList) next
  | other {k : Nat} {acts : List Act} {middle next : Threads} {act : Option Act} :
      Continues threads k acts middle → middle.terminated = false → middle.Step act next →
        Continues threads k (acts ++ act.toList) next

section Stop

variable {k : Nat} {acts : List Act}

theorem Threads.Continues.run (h : threads.Continues k acts threads') (hrun : Run history threads) :
    Run (history ++ acts) threads' := by
  induction h with
  | refl => simpa using hrun
  | work _ hlive hstep _ ih =>
    rw [← List.append_assoc]
    exact ih.step hlive hstep
  | other _ hlive hstep ih =>
    rw [← List.append_assoc]
    exact ih.step hlive hstep

/-- The steps of workers are paid for by the rank of the pool. -/
theorem Threads.Continues.rank_le (h : threads.Continues k acts threads') (hclosed : threads.pool.Closed) :
    threads'.pool.Closed ∧ k + threads'.pool.rank ≤ threads.pool.rank := by
  induction h with
  | refl => exact ⟨hclosed, by omega⟩
  | work _ _ _ hwork ih =>
    have := hwork.rank_lt ih.1
    exact ⟨hwork.closed ih.1, by omega⟩
  | other _ _ hstep ih =>
    rcases hstep.pool with ⟨hpool, -⟩ | ⟨event, hpool, -⟩
    · rw [hpool]
      exact ih
    · have := hpool.rank_le ih.1
      exact ⟨hpool.closed ih.1, by omega⟩

theorem handleRequest_cases (calls : NodeCalls) (request : ClientRequest) :
    (∃ framed, handleRequest calls request [] = (.ok (), [], [.send framed])) ∨
      ∃ x, handleRequest calls request [] = (.error x, [], []) := by
  rw [handleRequest, sendResponse]
  cases frame (responseTo calls request).serialize with
  | error x => exact .inr ⟨x, rfl⟩
  | ok framed => exact .inl ⟨framed, rfl⟩

/-- A worker can go on, or ends the process by an exception; if it answers a request, then with what `calls` says. -/
def Threads.CanWork (threads : Threads) (calls : NodeCalls) : Prop :=
  ∃ act next, threads.Step act next ∧ ((∃ event, threads.pool.Work event next.pool) ∨ next.terminated = true) ∧
    ∀ task calls' framed, act = some (.respond task calls' framed) → calls' = calls

/-- A step that the pool lets a worker make is a step of the threads, whatever the node answers. -/
theorem Threads.canWork {event : Option (PoolEvent Task)} {pool : Pool Task} (h : threads.pool.Work event pool)
    (calls : NodeCalls) : threads.CanWork calls := by
  cases h with
  | sleep before after hworkers henter =>
    have hwork := Pool.Work.sleep before after hworkers henter
    exact ⟨none, _, .silent _ (.work hwork), .inl ⟨_, hwork⟩, by simp⟩
  | exit before after hworkers henter =>
    have hwork := Pool.Work.exit before after hworkers henter
    exact ⟨none, _, .silent _ (.work hwork), .inl ⟨_, hwork⟩, by simp⟩
  | take before after task rest hworkers henter =>
    have hwork := Pool.Work.take before after task rest hworkers henter
    exact ⟨some (.take task), _, .take task _ (.work hwork), .inl ⟨_, hwork⟩, by simp⟩
  | finish before after task hworkers =>
    rcases handleRequest_cases calls task.request with ⟨framed, hhandled⟩ | ⟨x, hthrown⟩
    · refine ⟨_, _, .respond before after task calls framed hworkers hhandled, .inl ⟨_, .finish before after task hworkers⟩, ?_⟩
      intro task' calls' framed' heq
      cases heq
      rfl
    · exact ⟨none, _, .throws before after task calls x hworkers hthrown, .inr rfl, by simp⟩

/-- The destructor comes to its end. Once it has set `stopping_` and notified, the workers make no more than two steps for
a queued request and two each, whatever else happens. As long as one of them has not returned, one can go on, whatever the
node answers; and when all have, the queue is empty and every request that was accepted is answered. -/
theorem stop_drains (h : Threads.Run history threads) (hstopping : threads.pool.stopping = true)
    (hnotified : threads.pool.broadcast = false) (hcontinues : threads.Continues k acts threads') :
    k ≤ 2 * threads.pool.queue.length + 4 ∧
      ((∃ worker ∈ threads'.pool.workers, worker ≠ .exited) → ∀ calls, threads'.CanWork calls) ∧
      ((∀ worker ∈ threads'.pool.workers, worker = .exited) → threads'.pool.queue = [] ∧
        (accepted (poolEvents (history ++ acts))).Perm (finished (poolEvents (history ++ acts)))) := by
  have hclosed : threads.pool.Closed := ⟨hstopping, h.pool.awake.stopped hstopping hnotified⟩
  obtain ⟨hclosed', hrank⟩ := hcontinues.rank_le hclosed
  refine ⟨?_, fun hbusy calls => ?_, fun hexited => (hcontinues.run h).pool.drained Nat.two_pos hexited⟩
  · have hbound := threads.pool.rank_le
    rw [h.pool.length_workers] at hbound
    omega
  · obtain ⟨event, pool, hwork⟩ := hclosed'.exists_work hbusy
    exact Threads.canWork hwork calls

/-- The server is destroyed while a request is in its queue. -/
theorem stop_drains_asked : ∃ history threads, Threads.Run history threads ∧ threads.pool.queue ≠ [] ∧
    threads.pool.stopping = true ∧ ∀ calls, threads.CanWork calls := by
  obtain ⟨threads, hrun, hlive, -, hpool⟩ := run_asked
  have hstop := hrun.step hlive (.silent _ (.stop (by rw [hpool])))
  have hnotified := hstop.step hlive (.silent _ (.notifyAll rfl))
  refine ⟨_, _, hnotified, by simp [hpool, Pool.stop], rfl, ?_⟩
  refine (stop_drains hnotified rfl rfl .refl).2.1 ⟨.checking, ?_, by simp⟩
  simp [hpool, Pool.stop, Worker.notified]

end Stop

end ClientServer

end Nukv
