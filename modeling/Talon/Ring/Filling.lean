import Talon.Handler.State
import Talon.Ring.Submission

/-! One thread's use of the submission ring by `AddTask`, for tasks of every type
and with every buffer, at the grain of `io_uring_get_sqe`, single writes to an
SQE and `io_uring_submit`. Each SQE is marked with the call that obtained it. -/
namespace Talon.Ring.Filling
open Interleaving Talon.Handler Talon.Ring.Submission

/-- What a prep function writes. -/
inductive Opcode where
  | read
  | write
  | accept
  | connect
  | linkTimeout (timeoutMs : Int)
  | timeout
  | asyncCancel
  deriving DecidableEq, Inhabited

def Opcode.isLinkTimeout : Opcode → Bool
  | .linkTimeout _ => true
  | _ => false

/-- One SQE. The last three fields are history: the call of `AddTask` or `Cancel`
that obtained it, and whether that call has prepared it and set its
`user_data`. -/
structure Sqe where
  opcode : Opcode
  userData : Word Addr
  link : Bool
  call : Nat
  prepared : Bool
  named : Bool
  deriving DecidableEq

instance : Inhabited Sqe := ⟨⟨default, .null, false, 0, false, false⟩⟩

/-- The size of the ring, the SQEs obtained so far, and those the kernel has, as
they were when it got them. -/
structure Shared where
  entries : Nat
  ring : List Sqe
  handed : List Sqe
  calls : Nat

/-- What user code does next. -/
inductive Action where
  | stop
  | addTask (a : Addr) (task : Task)
  | cancel (a : Addr)
  | flush

/-- The environment's part: what is left in a free SQE, whether the gates of
`AddTask` let the task pass, and the next action. -/
structure Choice where
  stale : Sqe := default
  accepted : Bool := true
  action : Action := .stop

instance : Inhabited Choice := ⟨{}⟩

inductive Procedure where
  | client

abbrev Code := Prog Shared Choice Procedure Unit

namespace Shared

/-- There is no free SQE. -/
def Full (s : Shared) : Prop := s.entries ≤ s.ring.length - s.handed.length

instance (s : Shared) : Decidable s.Full := inferInstanceAs (Decidable (_ ≤ _))

def setSqe (s : Shared) (k : Nat) (f : Sqe → Sqe) : Shared := { s with ring := s.ring.modify k f }

/-- `io_uring_get_sqe` does not clear the SQE. -/
def obtain (s : Shared) (call : Nat) (stale : Sqe) : Shared :=
  { s with ring := s.ring ++ [{ stale with call := call, prepared := false, named := false }] }

def begin (s : Shared) : Shared := { s with calls := s.calls + 1 }

/-- `io_uring_submit`: the kernel takes every SQE obtained so far, as it is, and
the ring is free again. -/
def submit (s : Shared) : Shared := { s with handed := s.handed ++ s.ring.drop s.handed.length }

end Shared

def getSqe (call : Nat) : Code (Option Nat) :=
  .atomic (fun c s => some (if s.Full then s else s.obtain call c.stale))
    fun _ s => if s.Full then none else some s.ring.length

/-- A prep function also clears the flags. -/
def prep (k : Nat) (opcode : Opcode) : Code Unit :=
  .store (·.setSqe k fun sqe => { sqe with opcode := opcode, link := false, prepared := true })

/-- `sqe->user_data = word` -/
def setUserData (k : Nat) (word : Word Addr) : Code Unit :=
  .store (·.setSqe k fun sqe => { sqe with userData := word, named := true })

/-- `sqe->flags |= IOSQE_IO_LINK`, or `sqe->flags &= ~IOSQE_IO_LINK` -/
def setLink (k : Nat) (link : Bool) : Code Unit := .store (·.setSqe k fun sqe => { sqe with link := link })

def submit : Code Unit := .store (·.submit)

/-- Without an SQE `HandleFailedTask` runs at once: a retry or a completion handler
calls what it likes. -/
def queueFailedTask (call : Nat) (a : Addr) : Code Unit := do
  match ← getSqe call with
  | none => .enter .client
  | some k => do
      prep k .timeout
      setUserData k (.error a)
      submit

def handleConnect (call : Nat) (a : Addr) (task : Task) (k : Nat) : Code Unit :=
  if task.validateConnectTask then prep k .connect else queueFailedTask call a

/-- `SubmitTask` after the `switch` -/
def finishSqe (call : Nat) (a : Addr) (task : Task) (k : Nat) : Code Unit := do
  setUserData k (.task a)
  if 0 < task.timeoutMs then do
    setLink k true
    match ← getSqe call with
    | some m => do
        prep m (.linkTimeout task.timeoutMs)
        setUserData m (.timeout a)
    | none => setLink k false
  else pure ()

def submitTask (call : Nat) (a : Addr) (task : Task) : Code Unit := do
  match ← getSqe call with
  | none => queueFailedTask call a
  | some k =>
      match task.taskType with
      | .kRead => do
          prep k .read
          finishSqe call a task k
      | .kWrite => do
          prep k .write
          finishSqe call a task k
      | .kAccept => do
          prep k .accept
          finishSqe call a task k
      | .kConnect => do
          handleConnect call a task k
          finishSqe call a task k
      | _ => queueFailedTask call a

/-- The part of `AddTask` after its gates. -/
def addTask (a : Addr) (task : Task) : Code Unit := do
  let call ← .exchange (·.calls) (·.begin)
  submitTask call a task
  submit

/-- `AsyncTask::Cancel` -/
def cancel (a : Addr) : Code Unit := do
  let call ← .exchange (·.calls) (·.begin)
  match ← getSqe call with
  | none => pure ()
  | some k => do
      prep k .asyncCancel
      setUserData k (.cancel (.task a))
      submit

def perform : Action → Code Unit
  | .stop => pure ()
  | .addTask a task => do
      let gate ← .choose
      if gate.accepted then addTask a task else pure ()
  | .cancel a => cancel a
  | .flush => submit

/-- Any sequence of calls. -/
def code : Procedure → Code Unit
  | .client => do
      match (← .choose).action with
      | .stop => pure ()
      | action => do
          perform action
          .enter .client

def start (entries : Nat) : Shared := ⟨entries, [], [], 0⟩

/-- One of the task's own words. -/
def Names (a : Addr) (word : Word Addr) : Prop := word = .task a ∨ word = .timeout a ∨ word = .error a

/-- What the kernel got from a call. -/
structure Obeys (call : Nat) (a : Addr) (t : Shared) : Prop where
  ready : ∀ sqe ∈ t.handed, sqe.call = call → sqe.prepared = true ∧ sqe.named = true ∧ Names a sqe.userData
  /-- An SQE is not written again. -/
  unwritten : ∀ (k : Nat) (sqe : Sqe), t.handed[k]? = some sqe → sqe.call = call → t.ring[k]? = some sqe
  single : (t.handed.filter fun sqe => decide (sqe.call = call ∧ sqe.userData = .task a)).length ≤ 1
  /-- Before a link timeout there is the linked operation, -/
  timed : ∀ (k : Nat) (timeout : Sqe), t.handed[k]? = some timeout → timeout.call = call →
    timeout.opcode.isLinkTimeout = true → ∃ (j : Nat) (sqe : Sqe), k = j + 1 ∧ t.handed[j]? = some sqe ∧
      sqe.call = call ∧ sqe.userData = .task a ∧ sqe.link = true
  /-- and after a linked operation its timeout. -/
  linked : ∀ (k : Nat) (sqe : Sqe), t.handed[k]? = some sqe → sqe.call = call → sqe.link = true →
    ∃ timeout : Sqe, t.handed[k + 1]? = some timeout ∧ timeout.call = call ∧ timeout.opcode.isLinkTimeout = true

end Talon.Ring.Filling
