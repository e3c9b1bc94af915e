import Talon.Interleaving.Program

/-! The submission ring as the callers of `AddTask`, `Cancel`, `RequestShutdown` and
`Flush` share it, at the grain of `io_uring_get_sqe`, single writes to an SQE and
`io_uring_submit`. There is no lock: a submit hands over every SQE obtained so
far, by whichever call and however far that call has filled it. -/
namespace Talon.Ring.Submission
open Interleaving

/-- The operations that need no check of their arguments. -/
inductive Operation where
  | read
  | write
  | accept
  deriving DecidableEq

/-- A `user_data` word: a task pointer with the event bits of its SQE. -/
inductive Word (T : Type) where
  | null
  | task (t : T)
  | timeout (t : T)
  | error (t : T)
  | cancel (target : Word T)
  deriving DecidableEq

/-- What a prep function writes. -/
inductive Opcode (T : Type) where
  | operation (operation : Operation) (t : T)
  | linkTimeout (timeoutMs : Int)
  | timeout
  | asyncCancel (target : Word T)
  | nop
  deriving DecidableEq

/-- One SQE. The last three fields are history: whether the call that obtained it
has prepared it, has set its `user_data`, and has made its last write to it. -/
structure Sqe (T : Type) where
  opcode : Opcode T
  userData : Word T
  link : Bool
  prepared : Bool
  named : Bool
  final : Bool
  deriving DecidableEq

/-- What a task brings to `SubmitTask`. -/
structure Request (T : Type) where
  task : T
  operation : Operation
  timeoutMs : Int

/-- Where a thread is between an `io_uring_get_sqe` and its last write to the SQE:
it fills SQE `k`; it fills SQE `k` of a timed task and has yet to obtain the
timeout's; it fills SQE `k` as the timeout of task `t`. -/
inductive Stage (T : Type) where
  | idle
  | filling (k : Nat)
  | linking (k : Nat)
  | timing (k : Nat) (t : T)

/-- What concerns all threads, where it succeeds. -/
inductive Access where
  | getSqe
  | submit

/-- The SQEs obtained so far, in ring order. The rest is history: those the kernel
has, as they were when it got them, the threads' stages, and the accesses. -/
structure Shared (ι T : Type) where
  ring : List (Sqe T)
  handed : List (Sqe T)
  stage : ι → Stage T
  accesses : List (ι × Access)

/-- What a thread does next. -/
inductive Action (T : Type) where
  | stop
  | addTask (request : Request T)
  | cancel (target : Word T)
  | requestShutdown
  | flush

/-- The environment's part: whether `io_uring_get_sqe` finds a free SQE and what
is left in it, whether `io_uring_submit` succeeds and the gates of `AddTask` let
the task pass, and the next action. -/
structure Choice (T : Type) where
  sqe : Bool
  stale : Sqe T
  accepted : Bool
  action : Action T

inductive Procedure where
  | client

abbrev Code (ι T : Type) := Prog (Shared ι T) (Choice T) Procedure Unit

variable {ι T : Type} [DecidableEq ι]

def Shared.access (i : ι) (a : Access) (s : Shared ι T) : Shared ι T :=
  { s with accesses := s.accesses ++ [(i, a)] }

def Shared.setStage (i : ι) (stage : Stage T) (s : Shared ι T) : Shared ι T :=
  { s with stage := Function.update s.stage i stage }

def Shared.setSqe (k : Nat) (f : Sqe T → Sqe T) (s : Shared ι T) : Shared ι T :=
  { s with ring := s.ring.modify k f }

/-- `io_uring_get_sqe` does not clear the SQE. -/
def Shared.obtain (i : ι) (stale : Sqe T) (stage : Stage T) (s : Shared ι T) : Shared ι T :=
  ({ s with ring := s.ring ++ [{ stale with prepared := false, named := false, final := false }] }.setStage
    i stage).access i .getSqe

/-- The first SQE of a call. -/
def getSqe (self : ι) (timed : Bool) : Code ι T (Option Nat) :=
  .atomic
    (fun c s => some (if c.sqe
      then s.obtain self c.stale (if timed then .linking s.ring.length else .filling s.ring.length)
      else s))
    (fun c s => if c.sqe then some s.ring.length else none)

/-- The SQE for the timeout of SQE `k`. With it, `k` is as it will be. -/
def getTimeoutSqe (self : ι) (k : Nat) (t : T) : Code ι T (Option Nat) :=
  .atomic
    (fun c s => some (if c.sqe
      then (s.setSqe k fun sqe => { sqe with final := true }).obtain self c.stale (.timing s.ring.length t)
      else s))
    (fun c s => if c.sqe then some s.ring.length else none)

/-- A prep function also clears the flags. -/
def prep (k : Nat) (opcode : Opcode T) : Code ι T Unit :=
  .store (·.setSqe k fun sqe => { sqe with opcode := opcode, link := false, prepared := true })

/-- `sqe->user_data = word`, when more writes follow. -/
def setUserData (k : Nat) (word : Word T) : Code ι T Unit :=
  .store (·.setSqe k fun sqe => { sqe with userData := word, named := true })

/-- `sqe->user_data = word` as the last write. -/
def finishUserData (self : ι) (k : Nat) (word : Word T) : Code ι T Unit :=
  .store fun s => (s.setSqe k fun sqe =>
    { sqe with userData := word, named := true, final := true }).setStage self .idle

/-- `sqe->flags |= IOSQE_IO_LINK` -/
def setLink (k : Nat) : Code ι T Unit := .store (·.setSqe k fun sqe => { sqe with link := true })

/-- `sqe->flags &= ~IOSQE_IO_LINK` -/
def clearLink (self : ι) (k : Nat) : Code ι T Unit :=
  .store fun s => (s.setSqe k fun sqe => { sqe with link := false, final := true }).setStage self .idle

/-- `io_uring_submit`: the kernel takes every SQE obtained so far, as it is. -/
def submit (self : ι) : Code ι T Unit :=
  .atomic
    (fun c s => some (if c.accepted
      then { s with handed := s.handed ++ s.ring.drop s.handed.length }.access self .submit
      else s))
    (fun _ _ => ())

/-- An SQE that one call prepares, names and submits. -/
def fill (self : ι) (k : Nat) (opcode : Opcode T) (word : Word T) : Code ι T Unit := do
  prep k opcode
  finishUserData self k word
  submit self

/-- Without an SQE the failure is handled at once: a retry or a completion handler
calls what it likes. -/
def queueFailedTask (self : ι) (t : T) : Code ι T Unit := do
  match ← getSqe self false with
  | none => .enter .client
  | some k => fill self k .timeout (.error t)

def submitTask (self : ι) (r : Request T) : Code ι T Unit := do
  match ← getSqe self (0 < r.timeoutMs) with
  | none => queueFailedTask self r.task
  | some k => do
      prep k (.operation r.operation r.task)
      if 0 < r.timeoutMs then do
        setUserData k (.task r.task)
        setLink k
        match ← getTimeoutSqe self k r.task with
        | some m => do
            prep m (.linkTimeout r.timeoutMs)
            finishUserData self m (.timeout r.task)
        | none => clearLink self k
      else
        finishUserData self k (.task r.task)

/-- `AddTask`, whose gates may refuse the task. -/
def addTask (self : ι) (r : Request T) : Code ι T Unit := do
  let gate ← .choose
  if gate.accepted then do
    submitTask self r
    submit self
  else
    pure ()

def cancel (self : ι) (target : Word T) : Code ι T Unit := do
  match ← getSqe self false with
  | none => pure ()
  | some k => fill self k (.asyncCancel target) (.cancel target)

def requestShutdown (self : ι) : Code ι T Unit := do
  match ← getSqe self false with
  | none => pure ()
  | some k => fill self k .nop .null

def perform (self : ι) : Action T → Code ι T Unit
  | .stop => pure ()
  | .addTask r => addTask self r
  | .cancel target => cancel self target
  | .requestShutdown => requestShutdown self
  | .flush => submit self

/-- Any sequence of calls. -/
def code (self : ι) : Procedure → Code ι T Unit
  | .client => do
      match (← .choose).action with
      | .stop => pure ()
      | action => do
          perform self action
          .enter .client

def start : Pool ι (Shared ι T) (Choice T) Procedure Unit :=
  ⟨⟨[], [], fun _ => .idle, []⟩, fun _ => .enter .client⟩

/-- No submit while another call is filling an SQE, and no SQE obtained while
another call is still to obtain the one for its timeout. -/
def Serialized (s t : Shared ι T) : Prop :=
  ∀ i access, t.accesses = s.accesses ++ [(i, access)] → ∀ j, j ≠ i →
    match access with
    | .submit => s.stage j = .idle
    | .getSqe => ∀ k, s.stage j ≠ .linking k

/-- What the kernel gets: SQEs that are ready, each linked operation right before
the timeout of its task. -/
structure WellFormed (handed : List (Sqe T)) : Prop where
  ready : ∀ sqe ∈ handed, sqe.prepared = true ∧ sqe.named = true ∧ sqe.final = true
  linked : ∀ k sqe, handed[k]? = some sqe → sqe.link = true →
    ∃ t timeoutMs timeout, sqe.userData = .task t ∧ handed[k + 1]? = some timeout ∧
      timeout.opcode = .linkTimeout timeoutMs ∧ timeout.userData = .timeout t

end Talon.Ring.Submission
