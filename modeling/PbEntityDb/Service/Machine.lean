import PbEntityDb.Library.HandOff
import PbEntityDb.Library.Runs
import PbEntityDb.Service.Command

/-!
The threads of the service, one step after the other.

`Step` has one constructor for each thing that a thread does between two
accesses to what the threads share: the callers of `CDbService`, the consumers
in `CPbStubExecQueue::Run`, the thread in `CDbService::Shutdown` and the threads
in `CCamelConcurrentQueue::RunOnce`. A run of `service` is an interleaving.

Both queues are `HandOff.Queue`s. The logs of a `State` and of its `Consumer`s
are not in the program; they only record what happened.
-/

namespace PbEntityDb.Service

open HandOff (Queue)
open Function (update)

variable {Msg : Type}

/-! ### The state -/

/-- The number of consumers that `CDbService::CDbService` starts. -/
def consumerNum (poolSize : ℤ) : ℕ := (min 4 (max 1 poolSize)).toNat

/-- Where a thread is that calls `Add*` or `Synchronize*`. -/
inductive Caller (Msg : Type) where
  | idle
  /-- `_done` was not set; the command is about to be put into the queue -/
  | checked (cmd : Cmd Msg)
  /-- `prms->get_future().get()`, for the command with this number -/
  | waiting (id : ℕ)

/-- Where a consumer is in `Run`. -/
inductive Pc (Msg : Type) where
  /-- `stub->Open` -/
  | opening
  /-- `while (!_done)` -/
  | test
  /-- `wait_dequeue_timed` -/
  | dequeue
  /-- the `switch` -/
  | found (id : ℕ) (cmd : Cmd Msg)
  /-- the loop in the stub's function, with the response it has written so far -/
  | handling (id : ℕ) (cmd : Cmd Msg) (response : Response)
  /-- the stub's function came back -/
  | respond (id : ℕ) (cmd : Cmd Msg) (response : Response)
  /-- `if (_close)` in `CCamelConcurrentQueue::Add` -/
  | posting (id : ℕ) (cmd : Cmd Msg) (onResponse : Callback) (response : Response)
  /-- `enqueue` in `CCamelConcurrentQueue::Add` -/
  | pushing (id : ℕ) (cmd : Cmd Msg) (onResponse : Callback) (response : Response)
  /-- `if (cmd._dispose_cb)` -/
  | dispose (id : ℕ) (cmd : Cmd Msg)
  | exited

/-- The command in the hands of a consumer. -/
def Pc.job : Pc Msg → List (ℕ × Cmd Msg)
  | found id cmd | handling id cmd _ | respond id cmd _ | posting id cmd _ _ | pushing id cmd _ _
  | dispose id cmd => [(id, cmd)]
  | opening | test | dequeue | exited => []

lemma Pc.mem_job_of_dispose {pc : Pc Msg} {id : ℕ} {cmd : Cmd Msg} (h : pc = .dispose id cmd) :
    (id, cmd) ∈ pc.job := by
  simp [h, job]

lemma Pc.eq_of_mem_job {pc : Pc Msg} {x y : ℕ × Cmd Msg} (hx : x ∈ pc.job) (hy : y ∈ pc.job) :
    x = y := by
  cases pc <;> simp_all [job]

/-- An entry of the trunk queue: the number of the command, the function of the
user and the response bound to it. -/
abbrev Posted := ℕ × Callback × Response

/-- A consumer and what it has done so far. -/
structure Consumer (Msg : Type) where
  pc : Pc Msg
  /-- what it got from the queue -/
  taken : List (ℕ × Cmd Msg) := []
  /-- the commands with whose handlers it began -/
  entered : List ℕ := []
  /-- the commands whose handlers came back, with the responses -/
  handled : List (ℕ × Response) := []
  /-- what it put into the trunk queue -/
  posted : List Posted := []
  /-- the commands whose `_dispose_cb` it called -/
  disposed : List ℕ := []
  /-- the commands with which it is through -/
  finished : List (ℕ × Cmd Msg) := []

/-- Where the thread in `CDbService::Shutdown` is. -/
inductive Shutdown where
  | idle
  /-- in `Finish`, after `_done = true` -/
  | finishing
  /-- `Finish` has returned -/
  | joined
  /-- `_trunkQueue->Close()` has returned -/
  | closed
  deriving DecidableEq, Repr

/-- Where a thread is in `RunOnce`. -/
inductive Frame (n : ℕ) where
  /-- `!_close` -/
  | test
  /-- `try_dequeue` -/
  | dequeue
  /-- `workCb()`, pushed by consumer `c` -/
  | found (c : Fin n) (workCb : Posted)
  /-- inside the function of the user -/
  | calling
  deriving DecidableEq, Repr

/-- The service with `n` consumers. -/
structure State (n : ℕ) (Msg : Type) where
  caller : Thread → Caller Msg
  /-- `prms` of the call that a thread is in -/
  promise : Thread → Bool
  /-- what the call that a thread is in got for `vResult` or `strResponse` -/
  result : Thread → Option Response
  /-- `_done` -/
  done : Bool
  /-- `CPbStubExecQueue::_callbacks`; the number of a command is its place in the
  log of all puts -/
  queue : Queue Thread (Fin n) (ℕ × Cmd Msg)
  consumer : Fin n → Consumer Msg
  /-- each execution of the statement of a command by the database, in order -/
  executed : List (Fin n × ℕ × Response)
  shutdown : Shutdown
  /-- `CCamelConcurrentQueue::_callbacks` -/
  trunk : Queue (Fin n) Thread Posted
  /-- `_close` -/
  close : Bool
  /-- the calls of `RunOnce` that a thread is in, the innermost first -/
  frames : Thread → List (Frame n)
  /-- the functions of the user that were called, with the thread that called them -/
  invoked : List (Thread × Fin n × Posted)

/-- The service after `CDbService::CDbService`, which starts the consumers. -/
def State.init (n : ℕ) (Msg : Type) : State n Msg where
  caller := fun _ => .idle
  promise := fun _ => false
  result := fun _ => none
  done := false
  queue := .empty
  consumer := fun _ => ⟨.opening, [], [], [], [], [], []⟩
  executed := []
  shutdown := .idle
  trunk := .empty
  close := false
  frames := fun _ => []
  invoked := []

/-! ### The steps -/

/-- How a round of the loop in a function of the stub ends. It has written the
response so far in any case. -/
inductive Attempt where
  /-- `false`, and the database has executed nothing -/
  | failed
  /-- `false`, although the database has executed the statement -/
  | lost
  /-- `true` -/
  | succeeded
  deriving DecidableEq, Repr

/-- What a thread does. -/
inductive Act (n : ℕ) (Msg : Type) where
  | call (t : Thread) (call : Call Msg)
  | enqueue (t : Thread) (success : Bool)
  | wake (t : Thread)
  | opened (c : Fin n)
  | test (c : Fin n)
  | timeout (c : Fin n)
  | take (c : Fin n) (t : Thread)
  | handle (c : Fin n)
  | attempt (c : Fin n) (a : Attempt) (response : Response)
  | respond (c : Fin n)
  | post (c : Fin n)
  | push (c : Fin n) (success : Bool)
  | dispose (c : Fin n)
  | shutdown
  | join
  | close
  | runOnce (t : Thread)
  | iterate (t : Thread)
  | tryDequeue (t : Thread) (c : Option (Fin n))
  | invoke (t : Thread)
  | callbackReturn (t : Thread)

namespace State

variable {n : ℕ} (s : State n Msg)

/-- Consumer `c` goes on as `w`. -/
def set (c : Fin n) (w : Consumer Msg) : State n Msg := { s with consumer := update s.consumer c w }

/-- Thread `t` calls `RunOnce` or goes on in it. -/
def setFrames (t : Thread) (fs : List (Frame n)) : State n Msg :=
  { s with frames := update s.frames t fs }

end State

/-- One step of one thread. -/
inductive Step (pb : Protobuf Msg) {n : ℕ} : State n Msg → Act n Msg → State n Msg → Prop
  /-- `if (_done)`: the call returns `false` -/
  | refuse {s : State n Msg} {t : Thread} {call : Call Msg}
      (hidle : s.caller t = .idle) (hdone : s.done = true) : Step pb s (.call t call) s
  | check {s : State n Msg} {t : Thread} {call : Call Msg} {cmd : Cmd Msg}
      (hidle : s.caller t = .idle) (hdone : s.done = false) (hcmd : call.cmd pb t = .ok cmd) :
      Step pb s (.call t call)
        { s with
          caller := update s.caller t (.checked cmd)
          promise := update s.promise t false
          result := update s.result t none }
  /-- `_callbacks.enqueue` failed: the call returns `false` -/
  | enqueueFailed {s : State n Msg} {t : Thread} {cmd : Cmd Msg}
      (hchecked : s.caller t = .checked cmd) :
      Step pb s (.enqueue t false) { s with caller := update s.caller t .idle }
  /-- the command is in the queue; `Add*` returns `true`, `Synchronize*` waits -/
  | enqueue {s : State n Msg} {t : Thread} {cmd : Cmd Msg}
      (hchecked : s.caller t = .checked cmd) :
      Step pb s (.enqueue t true)
        { s with
          caller := update s.caller t
            (if cmd.sync then .waiting s.queue.accepted.length else .idle)
          queue := s.queue.put t (s.queue.accepted.length, cmd) }
  /-- the promise is set: `Synchronize*` returns `true` -/
  | wake {s : State n Msg} {t : Thread} {id : ℕ}
      (hwaiting : s.caller t = .waiting id) (hset : s.promise t = true) :
      Step pb s (.wake t)
        { s with caller := update s.caller t .idle }
  /-- `Protobuf2DbEngine::Open` gets its connection; as long as the database refuses it, the
  loop asks again, whatever `_done` is -/
  | opened {s : State n Msg} {c : Fin n} (hpc : (s.consumer c).pc = .opening) :
      Step pb s (.opened c) (s.set c { s.consumer c with pc := .test })
  /-- `while (!_done)`; behind the loop comes `stub->Close()` -/
  | test {s : State n Msg} {c : Fin n} (hpc : (s.consumer c).pc = .test) :
      Step pb s (.test c)
        (s.set c { s.consumer c with pc := if s.done then .exited else .dequeue })
  | timeout {s : State n Msg} {c : Fin n} (hpc : (s.consumer c).pc = .dequeue) :
      Step pb s (.timeout c) (s.set c { s.consumer c with pc := .test })
  /-- the consumer gets the first command of thread `t` -/
  | take {s : State n Msg} {c : Fin n} {t : Thread} {id : ℕ} {cmd : Cmd Msg}
      {rest : List (ℕ × Cmd Msg)} (hpc : (s.consumer c).pc = .dequeue)
      (hhead : s.queue.queued t = (id, cmd) :: rest) :
      Step pb s (.take c t)
        { s.set c { s.consumer c with
            pc := .found id cmd, taken := (s.consumer c).taken ++ [(id, cmd)] } with
          queue := s.queue.take c t (id, cmd) rest }
  /-- the `switch`: the function of the stub has a message to run -/
  | handle {s : State n Msg} {c : Fin n} {id : ℕ} {cmd : Cmd Msg}
      (hpc : (s.consumer c).pc = .found id cmd) (hentity : (cmd.entity pb).isSome) :
      Step pb s (.handle c)
        (s.set c { s.consumer c with
          pc := .handling id cmd cmd.noResponse, entered := (s.consumer c).entered ++ [id] })
  /-- the `switch`: the function of the stub cannot read its string and comes back at once -/
  | skip {s : State n Msg} {c : Fin n} {id : ℕ} {cmd : Cmd Msg}
      (hpc : (s.consumer c).pc = .found id cmd) (hentity : cmd.entity pb = none) :
      Step pb s (.handle c)
        (s.set c { s.consumer c with
          pc := .respond id cmd cmd.noResponse, entered := (s.consumer c).entered ++ [id] })
  | failed {s : State n Msg} {c : Fin n} {id : ℕ} {cmd : Cmd Msg} {r r' : Response}
      (hpc : (s.consumer c).pc = .handling id cmd r) :
      Step pb s (.attempt c .failed r') (s.set c { s.consumer c with pc := .handling id cmd r' })
  | lost {s : State n Msg} {c : Fin n} {id : ℕ} {cmd : Cmd Msg} {r r' : Response}
      (hpc : (s.consumer c).pc = .handling id cmd r) :
      Step pb s (.attempt c .lost r')
        { s.set c { s.consumer c with pc := .handling id cmd r' } with
          executed := s.executed ++ [(c, id, r')] }
  | succeeded {s : State n Msg} {c : Fin n} {id : ℕ} {cmd : Cmd Msg} {r r' : Response}
      (hpc : (s.consumer c).pc = .handling id cmd r) :
      Step pb s (.attempt c .succeeded r')
        { s.set c { s.consumer c with pc := .respond id cmd r' } with
          executed := s.executed ++ [(c, id, r')] }
  /-- there is no function to call, or it has none of the user to post -/
  | respondNone {s : State n Msg} {c : Fin n} {id : ℕ} {cmd : Cmd Msg} {r : Response}
      (hpc : (s.consumer c).pc = .respond id cmd r)
      (hcb : cmd.respondCb = none ∨ cmd.respondCb = some (.post none)) :
      Step pb s (.respond c)
        (s.set c { s.consumer c with
          pc := .dispose id cmd, handled := (s.consumer c).handled ++ [(id, r)] })
  /-- `vResult = std::move(result_list)` -/
  | respondAssign {s : State n Msg} {c : Fin n} {id : ℕ} {cmd : Cmd Msg} {r : Response}
      {t : Thread} (hpc : (s.consumer c).pc = .respond id cmd r)
      (hcb : cmd.respondCb = some (.assign t)) :
      Step pb s (.respond c)
        { s.set c { s.consumer c with
            pc := .dispose id cmd, handled := (s.consumer c).handled ++ [(id, r)] } with
          result := update s.result t (some r) }
  /-- `_trunkQueue->Add(std::move(onResponse), std::move(vResponse))` -/
  | respondPost {s : State n Msg} {c : Fin n} {id : ℕ} {cmd : Cmd Msg} {r : Response}
      {onResponse : Callback} (hpc : (s.consumer c).pc = .respond id cmd r)
      (hcb : cmd.respondCb = some (.post (some onResponse))) :
      Step pb s (.respond c)
        (s.set c { s.consumer c with
          pc := .posting id cmd onResponse r, handled := (s.consumer c).handled ++ [(id, r)] })
  | post {s : State n Msg} {c : Fin n} {id : ℕ} {cmd : Cmd Msg} {onResponse : Callback}
      {r : Response} (hpc : (s.consumer c).pc = .posting id cmd onResponse r) :
      Step pb s (.post c)
        (s.set c { s.consumer c with
          pc := if s.close then .dispose id cmd else .pushing id cmd onResponse r })
  | pushFailed {s : State n Msg} {c : Fin n} {id : ℕ} {cmd : Cmd Msg} {onResponse : Callback}
      {r : Response} (hpc : (s.consumer c).pc = .pushing id cmd onResponse r) :
      Step pb s (.push c false) (s.set c { s.consumer c with pc := .dispose id cmd })
  | push {s : State n Msg} {c : Fin n} {id : ℕ} {cmd : Cmd Msg} {onResponse : Callback}
      {r : Response} (hpc : (s.consumer c).pc = .pushing id cmd onResponse r) :
      Step pb s (.push c true)
        { s.set c { s.consumer c with
            pc := .dispose id cmd, posted := (s.consumer c).posted ++ [(id, onResponse, r)] } with
          trunk := s.trunk.put c (id, onResponse, r) }
  | disposeNone {s : State n Msg} {c : Fin n} {id : ℕ} {cmd : Cmd Msg}
      (hpc : (s.consumer c).pc = .dispose id cmd) (hcb : cmd.disposeCb = none) :
      Step pb s (.dispose c)
        (s.set c { s.consumer c with
          pc := .test, finished := (s.consumer c).finished ++ [(id, cmd)] })
  /-- `prms->set_value()` -/
  | dispose {s : State n Msg} {c : Fin n} {id : ℕ} {cmd : Cmd Msg} {t : Thread}
      (hpc : (s.consumer c).pc = .dispose id cmd) (hcb : cmd.disposeCb = some t) :
      Step pb s (.dispose c)
        { s.set c { s.consumer c with
            pc := .test, disposed := (s.consumer c).disposed ++ [id]
            finished := (s.consumer c).finished ++ [(id, cmd)] } with
          promise := update s.promise t true }
  /-- `_execQueue->Finish()` sets `_done` -/
  | shutdown {s : State n Msg} (hidle : s.shutdown = .idle) :
      Step pb s .shutdown { s with done := true, shutdown := .finishing }
  /-- all threads are joined and `Finish` returns -/
  | join {s : State n Msg} (hfinishing : s.shutdown = .finishing)
      (hexited : ∀ c, (s.consumer c).pc = .exited) :
      Step pb s .join { s with shutdown := .joined }
  | close {s : State n Msg} (hjoined : s.shutdown = .joined) :
      Step pb s .close { s with close := true, shutdown := .closed }
  /-- a thread calls `RunOnce`, perhaps from inside a function of the user -/
  | runOnce {s : State n Msg} {t : Thread}
      (hframes : s.frames t = [] ∨ (s.frames t).head? = some .calling) :
      Step pb s (.runOnce t) (s.setFrames t (.test :: s.frames t))
  | iterate {s : State n Msg} {t : Thread} {fs : List (Frame n)}
      (hframes : s.frames t = .test :: fs) :
      Step pb s (.iterate t) (s.setFrames t (if s.close then fs else .dequeue :: fs))
  | dequeueNone {s : State n Msg} {t : Thread} {fs : List (Frame n)}
      (hframes : s.frames t = .dequeue :: fs) :
      Step pb s (.tryDequeue t none) (s.setFrames t fs)
  | dequeue {s : State n Msg} {t : Thread} {fs : List (Frame n)} {c : Fin n} {x : Posted}
      {rest : List Posted} (hframes : s.frames t = .dequeue :: fs)
      (hhead : s.trunk.queued c = x :: rest) :
      Step pb s (.tryDequeue t (some c))
        { s.setFrames t (.found c x :: fs) with trunk := s.trunk.take t c x rest }
  | invoke {s : State n Msg} {t : Thread} {fs : List (Frame n)} {c : Fin n} {x : Posted}
      (hframes : s.frames t = .found c x :: fs) :
      Step pb s (.invoke t)
        { s.setFrames t (.calling :: fs) with invoked := s.invoked ++ [(t, c, x)] }
  | callbackReturn {s : State n Msg} {t : Thread} {fs : List (Frame n)}
      (hframes : s.frames t = .calling :: fs) :
      Step pb s (.callbackReturn t) (s.setFrames t (.test :: fs))

/-- The service that `CDbService::CDbService` sets up, with `n` consumers. -/
def service (pb : Protobuf Msg) (n : ℕ) : Runs.Machine (State n Msg) (Act n Msg) where
  start := .init n Msg
  step := Step pb

end PbEntityDb.Service
