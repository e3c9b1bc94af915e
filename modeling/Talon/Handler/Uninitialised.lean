import Talon.Handler.Rejection

/-! An `IOHandler` whose `io_uring_queue_init` has failed. The functions of liburing work
on memory that only a successful initialisation maps, so nothing can be said of what
they do to such a ring: a run ends with the first of them. -/
namespace Talon.Handler.Uninitialised
open Interleaving

inductive RingCall where
  | getSqe
  | submit
  | queueExit
  deriving DecidableEq

/-- The tasks and the members of the handler. `active` says that it is the one in
`active_instance_`. The event loop was never started, and `uring_` points to a ring that
was never set up. -/
structure Members where
  handler : State
  initError : String
  active : Bool := false
  signalsInstalled : Bool := false
  joinable : Bool := false

/-- A call on the ring that was never set up, and the state in which it was made. -/
structure Touch where
  call : RingCall
  state : Members

def getSqe (s : Members) : Except Touch Bool := .error ⟨.getSqe, s⟩

def submit (s : Members) : Except Touch Unit := .error ⟨.submit, s⟩

def queueExit (s : Members) : Except Touch Unit := .error ⟨.queueExit, s⟩

/-- `IOHandler(config)` after `io_uring_queue_init` has returned the negative `ret`. -/
def construct (strerror : Int → String) (handler : State) (ret : Int) : Members where
  handler := handler
  initError := "io_uring_queue_init: " ++ strerror (-ret)

/-- `Initialized()` -/
def initialized (s : Members) : Bool := s.initError.isEmpty

def flush (s : Members) : Except Touch Members := do
  submit s
  return s

def requestShutdown (s : Members) : Except Touch Members := do
  let requested := { s with handler := { s.handler with shutdownRequested := true } }
  let sqe ← getSqe requested
  if sqe then submit requested
  return requested

def onSignal (s : Members) : Except Touch Members :=
  if s.active then requestShutdown s else return s

def join (s : Members) : Members := if s.joinable then { s with joinable := false } else s

def uninstallSignalHandlers (s : Members) : Members :=
  if s.signalsInstalled then { s with active := false, signalsInstalled := false } else s

/-- `SubmitTask` asks for an SQE before it does anything else. -/
def submitTask (s : Members) : Except Touch Members := do
  let _ ← getSqe s
  return s

/-- The limit of the backpressure gate leaves a slot. -/
def room (s : State) : Bool := decide (0 < s.maxInflightOps → s.inflight < s.maxInflightOps)

/-- `AddTask`, called by thread `i`. -/
def addTask (i : Thread) (s : Members) : Option Addr → Except Touch (Bool × Members)
  | none => return (false, s)
  | some a =>
      if (s.handler.task a).taskState = .kSubmitted then
        return (false, { s with handler := s.handler.setTask a fun task =>
          { task with debugStr := "failed: already executing", detach := false } })
      else do
        let gated := s.handler.gate i a
        if room gated then
          let reserved := gated.reserve i a s.handler.submissions
          let submitted ← submitTask { s with handler := reserved.setTask a Task.readied }
          submit submitted
          return (true, submitted)
        else return (false, { s with handler := (gated.see a).reject a })

/-- `~IOHandler()`. The pointer to the ring is never null. -/
def destruct (s : Members) : Except Touch Members := do
  let requested ← requestShutdown (uninstallSignalHandlers s)
  let joined := join requested
  queueExit joined
  return joined

inductive Operation where
  | addTask (i : Thread) (task : Option Addr)
  | flush
  | requestShutdown
  | onSignal
  | join

def perform (s : Members) : Operation → Except Touch Members
  | .addTask i p => (addTask i s p).map Prod.snd
  | .flush => flush s
  | .requestShutdown => requestShutdown s
  | .onSignal => onSignal s
  | .join => return join s

/-- The handler is used and then destroyed. -/
def lifetime (ops : List Operation) (s : Members) : Except Touch Members := do
  let used ← ops.foldlM perform s
  destruct used

/-- The handler knows that it has no ring. -/
structure Respects (ops : List Operation) (s : Members) : Prop where
  untouched : ∃ t, lifetime ops s = .ok t
  rejects : ∀ earlier i p later t, ops = earlier ++ .addTask i p :: later → earlier.foldlM perform s = .ok t →
    ∃ u, addTask i t p = .ok (false, u) ∧ u.handler.task = t.handler.task ∧ u.handler.inflight = t.handler.inflight
  unreleased : ∀ touch, lifetime ops s = .error touch → touch.call ≠ .queueExit

variable {i : Thread} {a : Addr} {s : Members}

theorem room_gate {s : State} : room (s.gate i a) = true ↔ s.Room := decide_eq_true_iff

/-- `AddTask` returns exactly where the handler's model lets it return false, and
otherwise reaches for an SQE. -/
theorem addTask_returns_iff {p : Option Addr} {r : Bool} {u : Members} :
    addTask i s p = .ok (r, u) ↔ r = false ∧ ∃ t, Runs (code i) (code i (.addTask p)) s.handler false t ∧
      u = { s with handler := t } := by
  have returned : ∀ {t : State}, (Except.ok (false, { s with handler := t }) : Except Touch (Bool × Members)) =
      .ok (r, u) ↔ r = false ∧ u = { s with handler := t } := by
    intro t
    simp only [Except.ok.injEq, Prod.mk.injEq, eq_comm]
  cases p with
  | none =>
    have runs : ∀ t, Runs (code i) (code i (.addTask none)) s.handler false t ↔ t = s.handler := by
      intro t
      simp [code]
    simp only [runs, exists_eq_left]
    exact returned
  | some a =>
    simp only [code]
    by_cases busy : (s.handler.task a).taskState = .kSubmitted
    · simp only [addTask, if_pos busy, runs_addTask_busy busy, true_and, exists_eq_left]
      exact returned
    · simp only [addTask, if_neg busy, runs_addTask_false busy]
      by_cases room : s.handler.Room
      · rw [if_pos (room_gate.mpr room)]
        refine iff_of_false (fun returns => ?_) ?_
        · contradiction
        · rintro ⟨-, t, ⟨full, -⟩, -⟩
          exact full room
      · rw [if_neg (mt room_gate.mp room)]
        simp only [room, not_false_eq_true, true_and, exists_eq_left]
        exact returned

/-- The handler's first words on a system without io_uring. -/
theorem unused_touches : ¬ ∀ (ops : List Operation) (strerror : Int → String) (handler : State) (ret : Int), ret < 0 →
    Respects ops (construct strerror handler ret) := by
  intro always
  have ended := (always [] (fun _ => "Function not implemented") {} (-38) (by decide)).untouched
  obtain ⟨t, impossible⟩ := ended
  contradiction

/-- Whatever is done with the handler, its destructor asks the ring for an SQE if nothing
else has touched the ring before. -/
theorem never_respected (ops : List Operation) (s : Members) : ¬ Respects ops s := by
  rintro ⟨⟨t, ended⟩, -, -⟩
  unfold lifetime at ended
  cases used : ops.foldlM perform s with
  | error touch =>
    rw [used] at ended
    contradiction
  | ok u =>
    rw [used] at ended
    contradiction

end Talon.Handler.Uninitialised
