import Talon.Handler.State

/-! The functions of async_io_handler.hpp and `AsyncTask::Cancel` as programs of
atomic steps. Filling an SQE is one step; completion handlers and client threads
are arbitrary code over the public interface. -/
namespace Talon.Handler
open Interleaving Talon.Task

/-- What a completion handler or a client thread may do next. -/
inductive Action where
  | stop
  | addTask (task : Option Addr)
  | cancel (task : Addr) (specialUserData : Option (Addr × EventFlag))
  | create (task : Addr) (config : Task)
  | configure (task : Addr) (config : Task)
  | setNextTask (task : Addr) (next : Option Addr)
  | flush
  | requestShutdown

/-- The environment's part in a step: whether `io_uring_get_sqe` finds a free
SQE, whether a weak CAS fails spuriously, which ring entry completes and with
which result, what user code does next, and what an unprepared SQE holds. -/
structure Choice where
  sqe : Bool := true
  spurious : Bool := false
  entry : Nat := 0
  res : Int := 0
  action : Action := .stop
  stale : Entry := default

instance : Inhabited Choice := ⟨{}⟩

inductive Procedure where
  | addTask (task : Option Addr)
  | reserveSlot (task : Addr) (submission : Nat) (cur : Int)
  | handleFailedTask (task : Addr) (cause : Option Nat)
  | deleteTask (task : Addr) (inherited : Bool) (cause : Option Nat)
  | resubmitBlocked (task : Addr)
  | dispatchCqe (entry : Entry) (res : Int)
  | runEventLoop
  | user

abbrev Code := Prog State Choice Procedure Bool

def loadTask (a : Addr) : Code Task := .load (·.task a)

def storeTask (a : Addr) (f : Task → Task) : Code Unit := .store (·.setTask a f)

def setDebugStr (a : Addr) (text : String) : Code Unit :=
  storeTask a fun task => { task with debugStr := text }

def storeDetach (a : Addr) (detach : Bool) : Code Unit :=
  storeTask a fun task => { task with detach := detach }

/-- `done_state_.Signal()` -/
def signalDone (a : Addr) : Code Unit :=
  storeTask a fun task => { task with doneState := .kSignaled }

def markDetachedAndComplete (a : Addr) (detach : Bool) : Code Unit :=
  if detach then do
    signalDone a
    storeDetach a true
  else storeDetach a false

/-- `SetBytesTransferred(res)` and `SetActiveFileDescriptor(fd_)` -/
def setResult (a : Addr) (res : Int) : Code Unit :=
  storeTask a fun task => { task with
    buffer := { task.buffer with bytesTransferred := res, activeFileDescriptor := task.fd } }

def setTaskState (i : Thread) (a : Addr) (state : TaskState) (cause : Option Nat) (dooms : Bool) :
    Code Unit :=
  .store (·.settle i a state cause dooms)

def deleteTask (a : Addr) (cause : Option Nat) : Code Unit := do
  let _ ← .enter (.deleteTask a false cause)

/-- The handler sees the buffer and then runs whatever its author wrote. -/
def executeCompletionHandler (a : Addr) : Code Unit := do
  .store fun s => s.record (.handled a (s.current a) (s.task a).buffer.bytesTransferred)
  let _ ← .enter .user

/-- `io_uring_submit` -/
def autoFlush : Code Unit := .store (·.submit)

/-- `io_uring_get_sqe` and, if it succeeds, the fill of the SQE that completes
submission `k`. -/
def queueSqe (a : Addr) (flag : EventFlag) (k : Nat) : Code Bool :=
  .atomic (fun c s => some (if c.sqe then s.queue a flag k else s.refuse)) fun c _ => c.sqe

def queueExtraSqe (entry : Choice → State → Entry) (event : Event) : Code Bool :=
  .atomic (fun c s => some (if c.sqe then s.queueExtra (entry c s) event else s.refuse))
    fun c _ => c.sqe

/-- The link timeout of `SubmitTask`. Without an SQE the operation runs untimed. -/
def linkTimeout (a : Addr) (k : Nat) : Code Unit := do
  let task ← loadTask a
  if 0 < task.timeoutMs then
    let _ ← queueExtraSqe (fun _ _ => ⟨a, .kTimeout, k⟩) (.linked a k)

def queueFailedTask (a : Addr) (k : Nat) : Code Unit := do
  let sqe ← queueSqe a .kError k
  if sqe then autoFlush
  else
    let _ ← .enter (.handleFailedTask a none)

/-- The part of `SubmitTask` after the SQE has been prepared. -/
def finishSqe (a : Addr) (k : Nat) : Code Unit := do
  storeTask a fun task => { task with userData := some a }
  linkTimeout a k

/-- An unsupported task and a connect task without a usable address leave their
SQE unprepared; only the latter goes on to the end of `SubmitTask`. -/
def submitTask (a : Addr) (k : Nat) : Code Unit := do
  let task ← loadTask a
  if task.supported then
    let sqe ← queueSqe a .kNone k
    if sqe then finishSqe a k
    else queueFailedTask a k
  else
    let sqe ← queueExtraSqe (fun c _ => c.stale) .unprepared
    if sqe then
      setResult a (-EINVAL)
      queueFailedTask a k
      if task.taskType = .kConnect then finishSqe a k else pure ()
    else queueFailedTask a k

/-- Returns the number of the new submission. -/
def tryTransitionToSubmitted (i : Thread) (a : Addr) : Code (Option Nat) := do
  let task ← loadTask a
  if task.taskState = .kSubmitted then return none
  else
    .exchange
      (fun s => if (s.task a).taskState = task.taskState then some s.submissions else none)
      (fun s => if (s.task a).taskState = task.taskState then s.gate i a else s)

/-- The backpressure gate of `AddTask`. -/
def reserveInflight (i : Thread) (a : Addr) (k : Nat) : Code Bool := do
  let max ← .load (·.maxInflightOps)
  if 0 < max then
    let cur ← .exchange (·.inflight) (·.see a)
    .enter (.reserveSlot a k cur)
  else
    .store (·.reserve i a k)
    return true

/-- `compare_exchange_weak` on `inflight_count_`, with the value it saw. -/
def casInflight (i : Thread) (a : Addr) (k : Nat) (cur : Int) : Code (Bool × Int) :=
  .atomic
    (fun c s => some (if s.inflight = cur ∧ ¬ c.spurious then s.reserve i a k else s.see a))
    fun c s => (decide (s.inflight = cur ∧ ¬ c.spurious), s.inflight)

/-- `if (task->RepeatWhenFailed()) task->try_count_.store(0)` -/
def resetTryCount (a : Addr) : Code Unit := do
  let task ← loadTask a
  if 0 < task.maxRetryCount then storeTask a fun task => { task with tryCount := 0 }

/-- The part of `AddTask` after the slot has been reserved. -/
def submitReserved (a : Addr) (k : Nat) : Code Unit := do
  markDetachedAndComplete a false
  storeTask a fun task => { task with isCancel := false }
  resetTryCount a
  storeTask a fun task => { task with doneState := .kIdle }
  submitTask a k
  autoFlush

/-- `AddTask` on a task that the gate does not let through. -/
def addBusy (a : Addr) : Code Bool := do
  setDebugStr a "failed: already executing"
  storeDetach a false
  return false

/-- The part of `AddTask` after the gate. -/
def addGated (i : Thread) (a : Addr) (k : Nat) : Code Bool := do
  let slotReserved ← reserveInflight i a k
  if slotReserved then
    submitReserved a k
    return true
  else
    .store (·.reject a)
    return false

def addTask (i : Thread) (a : Addr) : Code Bool := do
  match ← tryTransitionToSubmitted i a with
  | none => addBusy a
  | some k => addGated i a k

def handleTimeoutTask (a : Addr) (k : Nat) : Code Unit := do
  let task ← loadTask a
  if TaskState.Live task.taskState then
    setDebugStr a "timed out"
    markDetachedAndComplete a true
    setTaskState .loop a .kTimeout (some k) true
    deleteTask a (some k)

def handleErrorEvent (a : Addr) (k : Nat) (res : Int) : Code Unit := do
  setResult a res
  let _ ← .enter (.handleFailedTask a (some k))

def handleCancelEvent (a : Addr) : Code Unit := do
  storeTask a fun task => { task with isCancel := true }
  setDebugStr a "cancelled"

/-- `if (tp->NextTask()) AddTask(tp->ReleaseNextTask())` -/
def submitNext (a : Addr) : Code Unit := do
  let task ← loadTask a
  if task.next.isSome then
    let next ← .exchange (fun s => (s.task a).next) (·.setTask a fun task => { task with next := none })
    let _ ← .enter (.addTask next)

/-- `if (tp->RepeatForever()) AddTask(tp); else tp->detach_.store(true)` -/
def repeatOrDetach (a : Addr) (repeatForever : Bool) : Code Unit :=
  if repeatForever then do
    let _ ← .enter (.addTask (some a))
  else storeDetach a true

/-- `if (tp->fd_ > 0) { close(tp->fd_); tp->fd_ = -1; }` -/
def closeFd (a : Addr) : Code Unit := do
  let task ← loadTask a
  if 0 < task.fd then
    .store (·.record (.closed task.fd))
    storeTask a fun task => { task with fd := -1 }

/-- `HandleNormalEvent` after the handler of a completion with `res == 0`. -/
def finishEmpty (a : Addr) (k : Nat) : Code Unit := do
  let task ← loadTask a
  if ¬ task.repeatForever ∧ task.next = none then
    closeFd a
    markDetachedAndComplete a true
    setTaskState .loop a .kSuccess (some k) true
    deleteTask a (some k)
  else
    setTaskState .loop a .kSuccess (some k) false
    let task ← loadTask a
    repeatOrDetach a task.repeatForever
    submitNext a

/-- `HandleNormalEvent` after the handler of a completion with `res > 0`. -/
def finishTransfer (a : Addr) (k : Nat) : Code Unit := do
  let task ← loadTask a
  setTaskState .loop a .kSuccess (some k) false
  repeatOrDetach a task.repeatForever
  submitNext a
  let task ← loadTask a
  if ¬ task.repeatForever ∧ task.next = none then markDetachedAndComplete a true

/-- What `HandleNormalEvent` does once the completion handler has returned. -/
def finishSuccess (a : Addr) (k : Nat) (res : Int) : Code Unit :=
  if res = 0 then finishEmpty a k else finishTransfer a k

def handleNormalEvent (a : Addr) (k : Nat) (res : Int) : Code Unit := do
  setResult a res
  if res < 0 then
    if res = -EAGAIN then
      let _ ← .enter (.resubmitBlocked a)
    else if res = -ECANCELED then
      let task ← loadTask a
      if 0 < task.timeoutMs then handleTimeoutTask a k
      else
        setDebugStr a "cancelled by kernel"
        markDetachedAndComplete a true
        setTaskState .loop a .kCanceled (some k) true
        deleteTask a (some k)
    else
      let _ ← .enter (.handleFailedTask a (some k))
  else
    executeCompletionHandler a
    finishSuccess a k res

/-- The `switch` of `DispatchCqe` -/
def handleEvent (e : Entry) (res : Int) : Code Unit :=
  match e.flag with
  | .kNone => handleNormalEvent e.task e.submission res
  | .kTimeout => handleTimeoutTask e.task e.submission
  | .kError => handleErrorEvent e.task e.submission res
  | .kCancel => if 0 ≤ res then handleCancelEvent e.task else pure ()
  | .kMask => handleErrorEvent e.task e.submission res

/-- `DispatchCqe` between its first test and its decrement. -/
def actOnCqe (e : Entry) (res : Int) : Code Unit := do
  let task ← loadTask e.task
  if task.isCancel then
    markDetachedAndComplete e.task true
    setTaskState .loop e.task .kCanceled (some e.submission) true
    deleteTask e.task (some e.submission)
  else handleEvent e res

/-- Both paths that act end in the same decrement. -/
def dispatchCqe (e : Entry) (res : Int) : Code Unit := do
  let found ← .exchange
    (fun s => ((s.task e.task).taskState, s.liveSubmission e.task)) (·.find e)
  if TaskState.Live found.1 then
    actOnCqe e res
    .store (·.release e.submission found.2)

/-- `io_uring_peek_cqe`, `io_uring_wait_cqe` and `io_uring_cqe_seen` -/
def takeCqe : Code (Entry × Int) :=
  .atomic (fun c s => (s.ring[c.entry]?).map s.take)
    fun c s => ((s.ring[c.entry]?).getD default, c.res)

/-- The `user_data` of a cancel request: the target's address and the union of
its event bits with the cancel bit. The null pointer reaches no task. -/
def cancelEntry (s : State) (a : Addr) (special : Option (Addr × EventFlag)) : Option Entry :=
  match special with
  | some (target, flag) =>
      let cancelFlag := if flag = .kNone ∨ flag = .kCancel then .kCancel else .kMask
      some ⟨target, cancelFlag, (s.current target).getD s.submissions⟩
  | none => (s.task a).userData.map fun target =>
      ⟨target, .kCancel, (s.current target).getD s.submissions⟩

/-- `AsyncTask::Cancel` -/
def cancel (a : Addr) (special : Option (Addr × EventFlag)) : Code Unit := do
  let sqe ← .atomic
    (fun c s => some (if c.sqe then
        match cancelEntry s a special with
        | some e => s.queueExtra e (.requested e.task)
        | none => s
      else s.refuse))
    fun c _ => c.sqe
  if sqe then autoFlush

/-- `CreateTaskWithHandler`: the pool hands out storage that holds no task. -/
def createTask (a : Addr) (config : Task) : Code Unit :=
  .atomic (fun _ s => if (s.task a).alive then none else some (s.create a config)) fun _ _ => ()

/-- `SetNextTask`: `next_.reset(next)` stores the new chain and deletes the old one. -/
def setNextTask (a : Addr) (next : Option Addr) : Code Unit := do
  let replaced ← .exchange (fun s => (s.task a).next) (·.setTask a fun task => { task with next := next })
  match replaced with
  | some old => do let _ ← .enter (.deleteTask old true none)
  | none => pure ()

def perform : Action → Code Unit
  | .stop => pure ()
  | .addTask p => do let _ ← .enter (.addTask p)
  | .cancel a special => cancel a special
  | .create a config => createTask a config
  | .configure a config => .store (·.configure a config)
  | .setNextTask a next => setNextTask a next
  | .flush => autoFlush
  | .requestShutdown => .store fun s => { s with shutdownRequested := true }

/-- The destructor of `next_` -/
def deleteNext (a : Addr) (cause : Option Nat) : Code Unit := do
  let task ← loadTask a
  match task.next with
  | some next => do let _ ← .enter (.deleteTask next true cause)
  | none => pure ()

def Action.isStop : Action → Bool
  | .stop => true
  | _ => false

def code (i : Thread) : Procedure → Code Bool
  | .addTask none => return false
  | .addTask (some a) => addTask i a
  | .reserveSlot a k cur => do
      let max ← .load (·.maxInflightOps)
      if cur < max then
        let seen ← casInflight i a k cur
        if seen.1 then return true
        else .enter (.reserveSlot a k seen.2)
      else return false
  | .handleFailedTask a cause => do
      let before ← .exchange (fun s => (s.task a).tryCount)
        (·.setTask a fun task => { task with tryCount := task.tryCount + 1 })
      let task ← loadTask a
      if before + 1 < task.maxRetryCount then
        setTaskState i a .kReady cause false
        let _ ← .enter (.addTask (some a))
        return true
      else
        executeCompletionHandler a
        setDebugStr a ("failed after " ++ toString (before + 1) ++ " retries")
        storeTask a fun task => { task with tryCount := 0 }
        markDetachedAndComplete a true
        setTaskState i a .kFailed cause true
        deleteTask a cause
        return false
  | .deleteTask a inherited cause => do
      -- The chain is destroyed before the storage is given back.
      deleteNext a cause
      .store (·.destroy i a inherited cause)
      return true
  | .resubmitBlocked a => do
      let added ← .enter (.addTask (some a))
      if added then return true else .enter (.resubmitBlocked a)
  | .dispatchCqe e res => do
      dispatchCqe e res
      return true
  | .runEventLoop => do
      let shutdown ← .load (·.shutdownRequested)
      if shutdown then return true
      else
        let cqe ← takeCqe
        let _ ← .enter (.dispatchCqe cqe.1 cqe.2)
        .enter .runEventLoop
  | .user => do
      let choice ← .choose
      if choice.action.isStop then return true
      else
        perform choice.action
        .enter .user

/-- The event loop and any number of client threads, before any task exists. -/
def start (maxInflightOps : Int) : Pool Thread State Choice Procedure Bool where
  shared := { maxInflightOps := maxInflightOps, task := fun _ => { alive := false } }
  thread
    | .loop => do let _ ← .enter .runEventLoop
    | .client _ => do let _ ← .enter .user

end Talon.Handler
