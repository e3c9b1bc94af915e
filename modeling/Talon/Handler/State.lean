import Talon.Constants
import Talon.Interleaving.Logic
import Talon.Task.DoneState

/-! The state an `IOHandler` shares between its client threads and its event
loop: the task objects, the in-flight counter and the rings. A ring entry is one
filled SQE from the moment it is queued until its completion is dispatched. The
history fields record which submission is which; no step of the program reads
them. -/
namespace Talon.Handler
open Talon.Task

/-- The address of a task object. -/
abbrev Addr := Nat

/-- Threads that touch the handler: the event loop and any number of clients. -/
inductive Thread where
  | loop
  | client (id : Nat)
  deriving DecidableEq

/-- The fields of `KernelBuf` that the handler reads or writes, with the first
bytes seen as a `sockaddr_in` (port and address in host order). -/
structure KernelBuf where
  size : Nat := 2048
  sinFamily : Nat := 0
  sinPort : Nat := 0
  sinAddr : Nat := 0
  bytesTransferred : Int := 0
  activeFileDescriptor : Int := 0

/-- `AsyncTask`. A deleted object keeps its last contents until its storage is
used again. -/
structure Task where
  taskState : TaskState := .kReady
  detach : Bool := false
  doneState : DoneState.Flag := .kIdle
  buffer : KernelBuf := {}
  userData : Option Addr := none
  fd : Int := -1
  taskType : TaskType := .kNone
  next : Option Addr := none
  isCancel : Bool := false
  tryCount : Int := 0
  timeoutMs : Int := 0
  maxRetryCount : Int := -1
  repeatForever : Bool := false
  debugStr : String := ""
  alive : Bool := true

/-- `ValidateConnectTask` -/
def Task.validateConnectTask (task : Task) : Bool :=
  decide (0 < task.fd) && decide (sockaddrInSize ≤ task.buffer.size) &&
    decide (task.buffer.sinFamily = AF_INET) && decide (task.buffer.sinPort ≠ 0) &&
    decide (task.buffer.sinAddr ≠ 0)

/-- `SubmitTask` prepares an operation for these; it fails all others. -/
def Task.supported (task : Task) : Bool :=
  match task.taskType with
  | .kRead | .kWrite | .kAccept => true
  | .kConnect => task.validateConnectTask
  | _ => false

inductive Opcode where
  | IORING_OP_READ
  | IORING_OP_WRITE
  deriving DecidableEq

/-- What `io_uring_prep_read` and `io_uring_prep_write` put into an SQE, apart from the
address of the buffer and the offset. -/
structure Request where
  opcode : Opcode
  fd : Int
  len : BitVec 32
  deriving DecidableEq

/-- `static_cast<unsigned>(task->buffer_->size)` -/
def Task.prepare (task : Task) (opcode : Opcode) : Request :=
  ⟨opcode, task.fd, BitVec.ofNat 32 task.buffer.size⟩

def Task.request (task : Task) : Option Request :=
  match task.taskType with
  | .kRead => some (task.prepare .IORING_OP_READ)
  | .kWrite => some (task.prepare .IORING_OP_WRITE)
  | _ => none

/-- One SQE of submission `submission` of the task at `task`. -/
structure Entry where
  task : Addr
  flag : EventFlag
  submission : Nat
  deriving DecidableEq, Inhabited

/-- Who may move a task on. Passing the CAS gate takes the task, reserving a
slot makes it owned, queueing its SQE hands it to the ring, and finding its
completion hands it to the event loop. -/
inductive Phase where
  | free
  | gated (thread : Thread)
  | owned (thread : Thread)
  | queued
  deriving DecidableEq

inductive Event where
  | gated (task : Addr) (submission : Nat)
  | created (task : Addr)
  | queued (task : Addr) (flag : EventFlag) (submission : Nat)
  | linked (task : Addr) (submission : Nat)
  | requested (task : Addr)
  | unprepared
  | found (entry : Entry) (state : TaskState)
  | handled (task : Addr) (submission : Option Nat) (bytesTransferred : Int)
  | closed (fd : Int)
  | settled (task : Addr) (state : TaskState) (cause target : Option Nat)
  | destroyed (task : Addr) (inherited : Bool) (cause target : Option Nat)
  | decremented (cause : Nat) (target : Option Nat)
  deriving DecidableEq

/-- A task that `thread` is about to delete, and the submission that ended with the
state it has stored. -/
structure Doom where
  thread : Thread
  task : Addr
  submission : Option Nat
  deriving DecidableEq

/-- The handler's members, the SQEs not yet handed over (`sq`) and those the
kernel has (`ring`), then history: the completion the event loop has taken off
the ring, the phase and the latest submission of each task, the submission being
dispatched, the tasks a thread is about to delete, what each submission asked of the
kernel, what the latest reservation for each task last read of `inflight_count_`, counters
of submissions and of refused SQEs, the submissions that reserved and gave back a slot, and
what happened so far. -/
structure State where
  maxInflightOps : Int := 0
  inflight : Int := 0
  shutdownRequested : Bool := false
  task : Addr → Task := fun _ => {}
  sq : List Entry := []
  ring : List Entry := []
  taken : Option Entry := none
  phase : Addr → Phase := fun _ => .free
  current : Addr → Option Nat := fun _ => none
  active : Option (Addr × Nat) := none
  doomed : List Doom := []
  asked : Nat → Option Request := fun _ => none
  seen : Addr → Option Int := fun _ => none
  submissions : Nat := 0
  refused : Nat := 0
  reserved : List Nat := []
  released : List Nat := []
  log : List Event := []

/-- The states in which `DispatchCqe` acts on a completion. -/
def TaskState.Live (state : TaskState) : Prop := state = .kSubmitted ∨ state = .kReady

instance (state : TaskState) : Decidable (TaskState.Live state) :=
  inferInstanceAs (Decidable (_ ∨ _))

namespace State

def setTask (s : State) (a : Addr) (f : Task → Task) : State :=
  { s with task := Function.update s.task a (f (s.task a)) }

def record (s : State) (event : Event) : State := { s with log := event :: s.log }

/-- Entries whose completion has not reached the task yet. -/
def outstanding (s : State) : List Entry := s.taken.toList ++ s.ring ++ s.sq

/-- Slots in use: reserved, and not yet given back by a dispatch. -/
def live (s : State) : List Nat := s.reserved.filter (· ∉ s.released)

/-- The submission that the task is in the middle of. -/
def liveSubmission (s : State) (a : Addr) : Option Nat :=
  if s.phase a = .free then none else s.current a

/-- The CAS in `TryTransitionToSubmitted` succeeded. -/
def gate (s : State) (i : Thread) (a : Addr) : State :=
  { s.setTask a fun task => { task with taskState := .kSubmitted } with
    phase := Function.update s.phase a (.gated i)
    current := Function.update s.current a (some s.submissions)
    submissions := s.submissions + 1
    log := .gated a s.submissions :: s.log }

/-- A reservation for the task at `a` reads `inflight_count_`. -/
def see (s : State) (a : Addr) : State := { s with seen := Function.update s.seen a (some s.inflight) }

/-- `inflight_count_` was read and went up by one for submission `k`. -/
def reserve (s : State) (i : Thread) (a : Addr) (k : Nat) : State :=
  { s with
    seen := Function.update s.seen a (some s.inflight)
    inflight := s.inflight + 1
    phase := Function.update s.phase a (.owned i)
    reserved := k :: s.reserved }

/-- The backpressure gate puts the task back to ready. -/
def reject (s : State) (a : Addr) : State :=
  { s.setTask a fun task => { task with taskState := .kReady } with
    phase := Function.update s.phase a .free }

/-- The SQE that will complete the submission is in the ring. -/
def queue (s : State) (a : Addr) (flag : EventFlag) (k : Nat) : State :=
  { s with
    sq := s.sq ++ [⟨a, flag, k⟩]
    phase := Function.update s.phase a .queued
    asked := if flag = .kNone then Function.update s.asked k (s.task a).request else s.asked
    log := .queued a flag k :: s.log }

/-- A further SQE: a link timeout, a cancel request or an unprepared one. -/
def queueExtra (s : State) (e : Entry) (event : Event) : State :=
  { s with sq := s.sq ++ [e], log := event :: s.log }

/-- `io_uring_get_sqe` returned null. -/
def refuse (s : State) : State := { s with refused := s.refused + 1 }

/-- `io_uring_submit` hands over all queued SQEs. -/
def submit (s : State) : State := { s with ring := s.ring ++ s.sq, sq := [] }

/-- The event loop takes a completion off the ring. -/
def take (s : State) (e : Entry) : State := { s with ring := s.ring.erase e, taken := some e }

/-- `DispatchCqe` reads the task state. -/
def find (s : State) (e : Entry) : State :=
  let state := (s.task e.task).taskState
  { s with
    taken := none
    phase := if state = .kSubmitted then Function.update s.phase e.task (.owned .loop) else s.phase
    active := if TaskState.Live state then some (e.task, e.submission) else s.active
    log := .found e state :: s.log }

/-- `SetTaskState` by the thread that owns the task. `cause` is the submission
whose completion is being dispatched, `dooms` whether `DeleteTask` follows. -/
def settle (s : State) (i : Thread) (a : Addr) (state : TaskState) (cause : Option Nat)
    (dooms : Bool) : State :=
  { s.setTask a fun task => { task with taskState := state } with
    phase := Function.update s.phase a .free
    doomed := if dooms then ⟨i, a, s.liveSubmission a⟩ :: s.doomed else s.doomed
    log := .settled a state cause (s.liveSubmission a) :: s.log }

/-- The decrement of `DispatchCqe`. `target` is the submission that the dispatch
found the task in. -/
def release (s : State) (k : Nat) (target : Option Nat) : State :=
  { s with
    inflight := s.inflight - 1
    released := k :: s.released
    active := none
    log := .decremented k target :: s.log }

/-- `new AsyncTask` in storage that holds no task, with the configuration its
creator gives it. -/
def create (s : State) (a : Addr) (config : Task) : State :=
  { s with
    task := Function.update s.task a
      { buffer := config.buffer, fd := config.fd, taskType := config.taskType, next := config.next,
        timeoutMs := config.timeoutMs, maxRetryCount := config.maxRetryCount,
        repeatForever := config.repeatForever }
    current := Function.update s.current a none
    log := .created a :: s.log }

/-- The public setters of `AsyncTask`, but for `SetNextTask`. -/
def configure (s : State) (a : Addr) (config : Task) : State :=
  s.setTask a fun task =>
    { task with
      detach := config.detach, buffer := config.buffer, taskType := config.taskType
      timeoutMs := config.timeoutMs, maxRetryCount := config.maxRetryCount
      repeatForever := config.repeatForever, debugStr := config.debugStr }

/-- `delete` of one task object, `inherited` when its predecessor owned it. What it hits is
the submission that the object is in the middle of, or the one that its final state ended. -/
def destroy (s : State) (i : Thread) (a : Addr) (inherited : Bool) (cause : Option Nat) : State :=
  { s.setTask a fun task => { task with alive := false } with
    doomed := if inherited then s.doomed else s.doomed.eraseP fun d => d.thread = i ∧ d.task = a
    log := .destroyed a inherited cause (if inherited then s.liveSubmission a else s.current a) :: s.log }

end State
end Talon.Handler
