import Talon.Handler.State

/-! One task as `AddTask`, the event loop and `WaitForCompletion` share it, at the
grain of single accesses to `task_state_`, `detach_`, `done_state_` with its mutex and
condition variable, and the result in the buffer. Other tasks appear as user code that
the event loop runs. -/
namespace Talon.Waiting
open Interleaving Talon.Handler

structure IOResult where
  ioRet : Int
  eventFd : Int
  iodone : Bool
  errMsg : String
  deriving DecidableEq

/-- A completion to come. One of the SQEs that a submission prepares for its operation, its
failure or its timeout carries the number of the submission; a cancel request's and that of
an unprepared SQE carry none. -/
structure Cqe where
  flag : EventFlag
  submission : Option Nat
  deriving DecidableEq

/-- What concerns other threads: a CAS of `AddTask` that succeeds, a refused SQE, a completion
found on a live task and acted on, the plain `detach_.store(true)` of a success, its last
`MarkDetachedAndComplete`, a `delete`, the exchange and the notification of `Signal`, the load
of `detach_` in `WaitForCompletion`, and the plain stores to `state_` in `Wait`. -/
inductive Access where
  | gates
  | refuses (flag : EventFlag)
  | finds
  | acts (cqe : Cqe) (cancelled : Bool)
  | detaches
  | finishes
  | deletes
  | signals
  | notifies
  | reads
  | stores
  deriving DecidableEq

/-- How far `Signal` has come since the last `Reset`: its exchange, its passage through the
mutex, its notification or, if nobody is to be notified, its exchange alone. -/
inductive Stage where
  | idle
  | exchanged
  | flushed
  | freed
  deriving DecidableEq

/-- The task, the mutex and the waiters in the condition variable of its `done_state_`, and the
completions to come. The rest is history: the number of the last submission, whether it is in the
ring and none of its completions has been acted on, and the result of the one that was; who is
writing to the task; the result of the task's last completion, whether its `AddTask` has
cleared `detach_`, the result that was in the buffer when `detach_` was set, whether the
task was marked complete; the waiters about to block, how far `Signal` has come, who is
inside a `WaitForCompletion` that found the task detached, what the calls returned, each with its
timeout and the result of the last submission's completion, and the accesses. -/
structure Shared where
  task : Task
  mutex : Option Thread := none
  blocked : List Thread := []
  cqes : List Cqe := []
  submission : Nat := 0
  outstanding : Bool := false
  dispatched : Option Int := none
  holder : Option Thread := none
  completion : Option Int := none
  cleared : Bool := false
  outcome : Option Int := none
  marked : Bool := false
  parking : List Thread := []
  stage : Stage := .idle
  waiting : List Thread := []
  results : List (Int × IOResult × Option Int) := []
  accesses : List (Thread × Access) := []

/-- What user code does next. -/
inductive Action where
  | stop
  | addTask
  | cancel
  | configure (config : Task)
  | setRepeatForever (value : Bool)
  | wait (timeoutMs : Int)

/-- The environment's part: whether `io_uring_get_sqe` finds an SQE, what flag an
unprepared one completes with, if it is this task's, whether `max_inflight_ops`
leaves a slot, which completion comes next and with which result, how a blocked waiter
leaves, whom a notification frees, and the next action. -/
structure Choice where
  sqe : Bool := true
  stale : Option EventFlag := none
  slot : Bool := true
  entry : Nat := 0
  res : Int := 0
  wake : Task.DoneState.Wake := .notified
  target : Nat := 0
  action : Action := .stop

instance : Inhabited Choice := ⟨{}⟩

inductive Procedure where
  | addTask
  | handleFailedTask
  | resubmitBlocked
  | cvWait
  | cvWaitFor
  | runEventLoop
  | user

abbrev Code := Prog Shared Choice Procedure Bool

namespace Shared

def set (s : Shared) (f : Task → Task) : Shared := { s with task := f s.task }

def access (s : Shared) (i : Thread) (a : Access) : Shared := { s with accesses := (i, a) :: s.accesses }

/-- The CAS in `TryTransitionToSubmitted` succeeded. -/
def gate (s : Shared) (i : Thread) : Shared :=
  { s.set fun task => { task with taskState := .kSubmitted } with
    holder := some i, submission := s.submission + 1, outstanding := false, dispatched := none
    cleared := false, outcome := none, marked := false }.access i .gates

/-- The backpressure gate puts the task back to ready. -/
def reject (s : Shared) : Shared :=
  { s.set fun task => { task with taskState := .kReady } with holder := none }

/-- `MarkDetachedAndComplete(false)` -/
def clear (s : Shared) : Shared :=
  { s.set fun task => { task with detach := false } with cleared := true, completion := none }

/-- `detach_.store(false)` by a refused `AddTask` and by `SetRepeatForever`. -/
def undetach (s : Shared) : Shared := s.set fun task => { task with detach := false }

/-- `done_state_.Reset()` -/
def reset (s : Shared) : Shared :=
  { s.set fun task => { task with doneState := .kIdle } with stage := .idle }

/-- The SQE that will complete submission `k` is in the ring. -/
def queue (s : Shared) (flag : EventFlag) (k : Nat) : Shared :=
  { s with cqes := s.cqes ++ [⟨flag, some k⟩], holder := none, outstanding := true, cleared := false }

/-- `DispatchCqe` finds the task submitted or ready. -/
def find (s : Shared) (i : Thread) : Shared := { s with holder := some i }.access i .finds

/-- A completion has been acted on. It ends the last submission if it is one of its own. -/
def complete (s : Shared) (cqe : Cqe) (res : Int) : Shared :=
  { s with
    outstanding := s.outstanding && decide (cqe.submission ≠ some s.submission)
    dispatched := if cqe.submission = some s.submission then some res else s.dispatched }

/-- `DispatchCqe` has read `is_cancel_`. A timeout and a cancelled task end without
their result being stored; a cancel request ends nothing. -/
def act (s : Shared) (i : Thread) (cqe : Cqe) (res : Int) : Shared :=
  let acted :=
    if s.task.isCancel ∨ cqe.flag = .kTimeout then { s.complete cqe res with completion := some res }
    else if cqe.flag = .kCancel then { s with holder := none }
    else s.complete cqe res
  acted.access i (.acts cqe s.task.isCancel)

def setResult (s : Shared) (res : Int) : Shared :=
  s.set fun task => { task with
    buffer := { task.buffer with bytesTransferred := res, activeFileDescriptor := task.fd } }

/-- A completion's result is stored. -/
def deliver (s : Shared) (res : Int) : Shared := { s.setResult res with completion := some res }

/-- `state_.exchange(kSignaled)`. Only a waiter that it finds is notified. -/
def signal (s : Shared) (i : Thread) : Shared :=
  { s.set fun task => { task with doneState := .kSignaled } with
    stage := if s.task.doneState = Task.DoneState.Flag.kWaiting then .exchanged else .freed }.access i .signals

/-- The end of the `lock_guard` in `Signal`. -/
def flush (s : Shared) : Shared := { s with mutex := none, stage := .flushed }

/-- The second half of `MarkDetachedAndComplete(true)`. -/
def mark (s : Shared) : Shared :=
  { s.set fun task => { task with detach := true } with
    cleared := false, outcome := some s.task.buffer.bytesTransferred, marked := true }

/-- `SetTaskState`. Only where a success goes on to `detach_` does its thread still
write to the task. -/
def settle (s : Shared) (state : TaskState) (goesOn : Bool) : Shared :=
  { s.set fun task => { task with taskState := state } with holder := if goesOn then s.holder else none }

/-- The plain `detach_.store(true)`. -/
def detach (s : Shared) (i : Thread) : Shared :=
  { s.set fun task => { task with detach := true } with
    cleared := false, outcome := some s.task.buffer.bytesTransferred }.access i .detaches

def release (s : Shared) : Shared := { s with holder := none }

end Shared

def loadTask : Code Task := .load (·.task)

def storeTask (f : Task → Task) : Code Unit := .store (·.set f)

def setDebugStr (text : String) : Code Unit := storeTask fun task => { task with debugStr := text }

/-! `DoneState` -/

def lock (i : Thread) : Code Unit := .await (·.mutex.isNone) fun s => { s with mutex := some i }

def unlock : Code Unit := .store fun s => { s with mutex := none }

def notifyOne (i : Thread) : Code Unit :=
  .atomic (fun c s => some ({ s with
      blocked := s.blocked.eraseIdx (c.target % s.blocked.length), stage := .freed }.access i .notifies))
    fun _ _ => ()

def signal (i : Thread) : Code Unit := do
  let prev : Task.DoneState.Flag ← .exchange (·.task.doneState) (·.signal i)
  if prev = .kWaiting then
    lock i
    .store (·.flush)
    notifyOne i

/-- The plain stores of `Wait`. -/
def storeState (i : Thread) (state : Task.DoneState.Flag) : Code Unit :=
  .store fun s => (s.set fun task => { task with doneState := state }).access i .stores

/-- The predicate of a wait: where it fails the waiter goes on to block. -/
def predicate (i : Thread) : Code Task.DoneState.Flag :=
  .exchange (·.task.doneState) fun s =>
    if s.task.doneState = .kSignaled then s else { s with parking := i :: s.parking }

/-- Release the mutex and block, in one step. -/
def block (i : Thread) : Code Unit :=
  .store fun s => { s with mutex := none, blocked := i :: s.blocked, parking := s.parking.erase i }

/-- Leave the condition variable: after a notification, or spuriously, or by the timeout. -/
def wake (i : Thread) : Code Bool :=
  .atomic (fun c s =>
      if c.wake = .notified ∧ i ∈ s.blocked then none else some { s with blocked := s.blocked.erase i })
    fun c _ => decide (c.wake = .timeout)

/-- A wait without deadline has no timeout to leave by. -/
def wakeUntimed (i : Thread) : Code Unit :=
  .atomic (fun c s =>
      if c.wake = .notified ∧ i ∈ s.blocked ∨ c.wake = .timeout then none
      else some { s with blocked := s.blocked.erase i })
    fun _ _ => ()

/-- `Wait` once it holds the mutex. -/
def waitLocked (i : Thread) (timeoutMs : Int) : Code Bool := do
  storeState i .kWaiting
  if timeoutMs < 0 then
    let _ ← .enter .cvWait
    return true
  else
    let ready ← .enter .cvWaitFor
    if ready then return true
    else
      storeState i .kIdle
      return false

def wait (i : Thread) (timeoutMs : Int) : Code Bool := do
  let task ← loadTask
  if task.doneState = .kSignaled then return true
  else if timeoutMs = 0 then
    let task ← loadTask
    return task.doneState = .kSignaled
  else
    lock i
    let task ← loadTask
    if task.doneState = .kSignaled then
      unlock
      return true
    else
      let ready ← waitLocked i timeoutMs
      unlock
      return ready

def markDetachedAndComplete (i : Thread) : Code Unit := do
  signal i
  .store (·.mark)

def setTaskState (state : TaskState) : Code Unit := .store (·.settle state false)

def deleteTask (i : Thread) : Code Unit :=
  .store fun s => (s.set fun task => { task with alive := false }).access i .deletes

def executeCompletionHandler : Code Unit := do
  let _ ← .enter .user

def queueSqe (i : Thread) (flag : EventFlag) (k : Nat) : Code Bool :=
  .atomic (fun c s => some (if c.sqe then s.queue flag k else s.access i (.refuses flag))) fun c _ => c.sqe

/-- An SQE beside the one that completes the submission. -/
def queueExtraSqe (cqe : Choice → Option Cqe) : Code Bool :=
  .atomic (fun c s => some (if c.sqe then { s with cqes := s.cqes ++ (cqe c).toList } else s))
    fun c _ => c.sqe

def finishSqe (k : Nat) : Code Unit := do
  storeTask fun task => { task with userData := some 0 }
  let task ← loadTask
  if 0 < task.timeoutMs then
    let _ ← queueExtraSqe fun _ => some ⟨.kTimeout, some k⟩

def queueFailedTask (i : Thread) (k : Nat) : Code Unit := do
  let sqe ← queueSqe i .kError k
  if sqe then pure ()
  else
    let _ ← .enter .handleFailedTask

/-- What follows an SQE that was left unprepared. -/
def failUnprepared (i : Thread) (k : Nat) (taskType : TaskType) : Code Unit := do
  .store (·.setResult (-EINVAL))
  queueFailedTask i k
  if taskType = .kConnect then finishSqe k

def submitTask (i : Thread) (k : Nat) : Code Unit := do
  let task ← loadTask
  if task.supported then
    let sqe ← queueSqe i .kNone k
    if sqe then finishSqe k else queueFailedTask i k
  else
    let sqe ← queueExtraSqe fun c => c.stale.map fun flag => ⟨flag, none⟩
    if sqe then failUnprepared i k task.taskType else queueFailedTask i k

/-- Returns the number of the new submission. -/
def tryTransitionToSubmitted (i : Thread) : Code (Option Nat) := do
  let task ← loadTask
  if task.taskState = .kSubmitted then return none
  else
    .exchange (fun s => if s.task.taskState = task.taskState then some (s.submission + 1) else none)
      (fun s => if s.task.taskState = task.taskState then s.gate i else s)

def addBusy : Code Bool := do
  setDebugStr "failed: already executing"
  .store (·.undetach)
  return false

def resetTryCount : Code Unit := do
  let task ← loadTask
  if 0 < task.maxRetryCount then storeTask fun task => { task with tryCount := 0 }

/-- The part of `AddTask` after the slot has been reserved. -/
def submitReserved (i : Thread) (k : Nat) : Code Unit := do
  .store (·.clear)
  storeTask fun task => { task with isCancel := false }
  resetTryCount
  .store (·.reset)
  submitTask i k

def addGated (i : Thread) (k : Nat) : Code Bool := do
  let gate ← .choose
  if gate.slot then
    submitReserved i k
    return true
  else
    .store (·.reject)
    return false

def addTask (i : Thread) : Code Bool := do
  match ← tryTransitionToSubmitted i with
  | none => addBusy
  | some k => addGated i k

def handleTimeoutTask (i : Thread) : Code Unit := do
  let task ← loadTask
  if TaskState.Live task.taskState then
    setDebugStr "timed out"
    markDetachedAndComplete i
    setTaskState .kTimeout
    deleteTask i

def handleErrorEvent (res : Int) : Code Unit := do
  .store (·.deliver res)
  let _ ← .enter .handleFailedTask

def handleCancelEvent : Code Unit := do
  storeTask fun task => { task with isCancel := true }
  setDebugStr "cancelled"

/-- `AddTask` of the successor may run its handler. -/
def submitNext : Code Unit := do
  let task ← loadTask
  if task.next.isSome then
    storeTask fun task => { task with next := none }
    let _ ← .enter .user

def closeFd : Code Unit := do
  let task ← loadTask
  if 0 < task.fd then storeTask fun task => { task with fd := -1 }

def finishClosed (i : Thread) : Code Unit := do
  closeFd
  markDetachedAndComplete i
  setTaskState .kSuccess
  deleteTask i

/-- The second test of `repeat_forever_` after a completion with `res == 0`. A task
that repeats is done with; so is one that was detached, as nothing else follows. -/
def repeatOrDetach (i : Thread) : Code Unit := do
  let again ← .exchange (·.task.repeatForever)
    fun s => if s.task.repeatForever ∧ s.holder = some i then s.release else s
  if again then
    let _ ← .enter .addTask
  else .store fun s => (s.detach i).release

def finishEmpty (i : Thread) : Code Unit := do
  let task ← loadTask
  if ¬ task.repeatForever ∧ task.next = none then finishClosed i
  else
    .store (·.settle .kSuccess (!task.repeatForever))
    repeatOrDetach i
    submitNext

/-- `if (!tp->RepeatForever() && !tp->NextTask()) tp->MarkDetachedAndComplete(true);` -/
def finishLast (i : Thread) : Code Unit := do
  let last ← .exchange (fun s => !s.task.repeatForever && s.task.next.isNone)
    fun s =>
      if !s.task.repeatForever && s.task.next.isNone then s.access i .finishes
      else if s.holder = some i then s.release else s
  if last then
    signal i
    .store (·.mark.release)

def addOrDetach (i : Thread) (repeatForever : Bool) : Code Unit :=
  if repeatForever then do
    let _ ← .enter .addTask
  else .store (·.detach i)

def finishTransfer (i : Thread) : Code Unit := do
  let task ← loadTask
  .store (·.settle .kSuccess (!task.repeatForever))
  addOrDetach i task.repeatForever
  submitNext
  finishLast i

def handleNormalEvent (i : Thread) (res : Int) : Code Unit := do
  .store (·.deliver res)
  if res < 0 then
    if res = -EAGAIN then
      let _ ← .enter .resubmitBlocked
    else if res = -ECANCELED then
      let task ← loadTask
      if 0 < task.timeoutMs then handleTimeoutTask i
      else
        setDebugStr "cancelled by kernel"
        markDetachedAndComplete i
        setTaskState .kCanceled
        deleteTask i
    else
      let _ ← .enter .handleFailedTask
  else
    executeCompletionHandler
    if res = 0 then finishEmpty i else finishTransfer i

def handleEvent (i : Thread) (flag : EventFlag) (res : Int) : Code Unit :=
  match flag with
  | .kNone => handleNormalEvent i res
  | .kTimeout => handleTimeoutTask i
  | .kError => handleErrorEvent res
  | .kCancel => if 0 ≤ res then handleCancelEvent else pure ()
  | .kMask => handleErrorEvent res

def actOnCqe (i : Thread) (cqe : Cqe) (res : Int) : Code Unit := do
  let cancelled ← .exchange (·.task.isCancel) (·.act i cqe res)
  if cancelled then
    markDetachedAndComplete i
    setTaskState .kCanceled
    deleteTask i
  else handleEvent i cqe.flag res

def dispatchCqe (i : Thread) (cqe : Cqe) (res : Int) : Code Unit := do
  let live ← .exchange (fun s => decide (TaskState.Live s.task.taskState))
    fun s => if TaskState.Live s.task.taskState then s.find i else s
  if live then actOnCqe i cqe res

def waitForCompletion (i : Thread) (timeoutMs : Int) : Code IOResult := do
  let task ← .exchange (·.task) fun s =>
    { s with waiting := if s.task.detach then i :: s.waiting else s.waiting }.access i .reads
  if ¬ task.detach then
    return ⟨-1, task.buffer.activeFileDescriptor, false, "task not detached from execute queue yet"⟩
  else
    let ready ← wait i timeoutMs
    if ready then
      let done ← loadTask
      return ⟨done.buffer.bytesTransferred, task.buffer.activeFileDescriptor, true, "IO result consumed"⟩
    else if 0 < timeoutMs then
      return ⟨-1, task.buffer.activeFileDescriptor, true,
        "WaitForCompletion: timeout after " ++ toString timeoutMs ++ "ms"⟩
    else
      return ⟨-1, task.buffer.activeFileDescriptor, true, "WaitForCompletion: not yet ready (timeout=0)"⟩

/-- `AsyncTask::Cancel` of a task that has been submitted before. -/
def cancel : Code Unit := do
  let task ← loadTask
  let _ ← queueExtraSqe fun _ => task.userData.map fun _ => ⟨.kCancel, none⟩

def setRepeatForever (value : Bool) : Code Unit := do
  if value then
    .store (·.undetach)
    storeTask fun task => { task with timeoutMs := 0, repeatForever := true }
  else storeTask fun task => { task with repeatForever := false }

def perform (i : Thread) : Action → Code Unit
  | .stop => pure ()
  | .addTask => do let _ ← .enter .addTask
  | .cancel => cancel
  | .configure config => storeTask fun task => { task with
      taskType := config.taskType, next := config.next, timeoutMs := config.timeoutMs
      maxRetryCount := config.maxRetryCount, debugStr := config.debugStr }
  | .setRepeatForever value => setRepeatForever value
  | .wait timeoutMs => do
      let result ← waitForCompletion i timeoutMs
      .store fun s => { s with
        results := (timeoutMs, result, s.dispatched) :: s.results, waiting := s.waiting.filter (· ≠ i) }

def Action.isStop : Action → Bool
  | .stop => true
  | _ => false

/-- The event loop takes one of the task's completions, or does something else. -/
def takeCqe : Code (Option (Cqe × Int)) :=
  .atomic (fun c s => some { s with cqes := s.cqes.eraseIdx c.entry })
    fun c s => (s.cqes[c.entry]?).map fun cqe => (cqe, c.res)

def code (i : Thread) : Procedure → Code Bool
  | .addTask => addTask i
  | .handleFailedTask => do
      let before ← .exchange (·.task.tryCount) (·.set fun task => { task with tryCount := task.tryCount + 1 })
      let task ← loadTask
      if before + 1 < task.maxRetryCount then
        setTaskState .kReady
        let _ ← .enter .addTask
        return true
      else
        executeCompletionHandler
        setDebugStr ("failed after " ++ toString (before + 1) ++ " retries")
        storeTask fun task => { task with tryCount := 0 }
        markDetachedAndComplete i
        setTaskState .kFailed
        deleteTask i
        return false
  | .resubmitBlocked => do
      let added ← .enter .addTask
      if added then return true else .enter .resubmitBlocked
  | .cvWait => do
      let state ← predicate i
      if state = .kSignaled then return true
      else
        block i
        wakeUntimed i
        lock i
        .enter .cvWait
  | .cvWaitFor => do
      let state ← predicate i
      if state = .kSignaled then return true
      else
        block i
        let timedOut ← wake i
        lock i
        if timedOut then
          let task ← loadTask
          return task.doneState = .kSignaled
        else .enter .cvWaitFor
  | .runEventLoop => do
      let next ← takeCqe
      match next with
      | some (cqe, res) => do
          dispatchCqe i cqe res
          .enter .runEventLoop
      | none => do
          let _ ← .enter .user
          .enter .runEventLoop
  | .user => do
      let choice ← .choose
      if choice.action.isStop then return true
      else
        perform i choice.action
        .enter .user

/-- The event loop and any number of clients. -/
def start (config : Task) : Pool Thread Shared Choice Procedure Bool where
  shared := { task :=
    { buffer := config.buffer, fd := config.fd, taskType := config.taskType, next := config.next,
      timeoutMs := config.timeoutMs, maxRetryCount := config.maxRetryCount,
      repeatForever := config.repeatForever } }
  thread
    | .loop => do let _ ← .enter .runEventLoop
    | .client _ => do let _ ← .enter .user

end Talon.Waiting
