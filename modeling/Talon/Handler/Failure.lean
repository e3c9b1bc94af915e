import Talon.Handler.Retry

/-! Submissions that fail: what `AddTask` does when the ring has no SQE left, and
which error the completion handler of a failed task gets to see. -/
namespace Talon.Handler
open Interleaving

/-! ### A full ring -/

/-- The ring took no SQE: `io_uring_get_sqe` returned null every time. -/
def Starved (s t : State) : Prop := t.ring ++ t.sq = s.ring ++ s.sq

/-- The failure was answered once, and its slot is free again. -/
structure FailsCleanly (a : Addr) (s t : State) : Prop where
  answered : t.tally (Event.answers a) = s.tally (Event.answers a) + 1
  released : t.inflight = s.inflight

/-- `AddTask` returns, and the failure was dealt with. -/
def HandlesFullRing (i : Thread) (a : Addr) (s : State) : Prop :=
  ∃ r t, Runs (code i) (addTask i a) s r t ∧ Starved s t ∧ FailsCleanly a s t

section FullRing
variable {i : Thread} {a : Addr} {s t : State}

/-- Only a dispatch makes the counter smaller. -/
theorem floor_frame (floor : Int) : FrameOf false i (fun s => floor ≤ s.inflight) fun _ _ => True where
  step holds _ moved quiet := by
    have silent := (quiet.resolve_left nofun).released
    cases moved with
    | reserve =>
      simp only [State.reserve]
      omega
    | release => simp [State.release] at silent
    | _ => exact holds
  keep _ _ _ _ := trivial
  gain _ _ := trivial

/-- A task that got through both gates keeps its slot when `AddTask` returns. -/
theorem accepted_keeps_slot (idle : (s.task a).taskState ≠ .kSubmitted)
    (run : Runs (code i) (addTask i a) s true t) : s.inflight + 1 ≤ t.inflight := by
  obtain ⟨-, reserved⟩ := (runs_addTask_true idle).mp run
  have frames : FramesOf false i _ _ [a] (submitReserved a s.submissions) :=
    frames_submitReserved (floor_frame (s.inflight + 1)) (List.mem_singleton.mpr rfl)
  exact (frames.sound (frame_verified (floor_frame _)) reserved ⟨Int.le_refl _, fun _ _ => trivial⟩).1

/-- A call that returns false does not call the handler. -/
theorem rejected_unanswered (run : Runs (code i) (addTask i a) s false t) :
    t.tally (Event.answers a) = s.tally (Event.answers a) := by
  by_cases busy : (s.task a).taskState = .kSubmitted
  · obtain ⟨-, rfl⟩ := (runs_addTask_busy busy).mp run
    rfl
  · rw [runs_addTask_idle busy, addGated, runs_bind] at run
    obtain ⟨swapped, later, reserved, rest⟩ := run
    obtain ⟨-, rfl, rfl⟩ | ⟨-, rfl, rfl⟩ := runs_reserveInflight.mp reserved
    · obtain ⟨u, last, -, returned⟩ := runs_bind.mp rest
      simp at returned
    · simp only [Bool.false_eq_true, if_false, runs_store_bind, runs_pure, true_and] at rest
      subst rest
      rfl

/-- Either the task is turned away and nobody is told, or it keeps its slot. -/
theorem not_failsCleanly {r : Bool} (run : Runs (code i) (addTask i a) s r t) : ¬ FailsCleanly a s t := by
  intro clean
  cases r with
  | false =>
    have unanswered := rejected_unanswered run
    have answered := clean.answered
    omega
  | true =>
    by_cases busy : (s.task a).taskState = .kSubmitted
    · obtain ⟨impossible, -⟩ := (runs_addTask_busy busy).mp run
      contradiction
    · have kept := accepted_keeps_slot busy run
      have released := clean.released
      omega

/-- A failure for want of an SQE is never dealt with. -/
theorem full_ring_mishandled (i : Thread) (a : Addr) (s : State) : ¬ HandlesFullRing i a s := by
  rintro ⟨r, t, run, -, clean⟩
  exact not_failsCleanly run clean

/-- A ring without a free SQE. -/
abbrev fullRing : Inhabited Choice := ⟨{ sqe := false }⟩

/-- What `AddTask` leaves when there is no SQE. -/
def State.addStarved (s : State) : Option (Bool × State) :=
  @Prog.eval _ _ _ _ fullRing (code (.client 0)) 64 _ (addTask (.client 0) 1) s

/-- The handler has been called for a read that was never submitted, and its slot
is still taken. -/
theorem starved_read_keeps_slot :
    (∃ t, Runs (code (.client 0)) (addTask (.client 0) 1) (single (retrying 1)) true t ∧
      Starved (single (retrying 1)) t ∧ t.tally (Event.answers 1) = 1 ∧ t.inflight = 1) ∧
    ¬ ∀ (i : Thread) (a : Addr) (s : State), HandlesFullRing i a s := by
  have executed : (single (retrying 1)).addStarved.map
      (fun x => (x.1, x.2.ring ++ x.2.sq, x.2.tally (Event.answers 1), x.2.inflight)) = some (true, [], 1, 1) := by
    decide +kernel
  obtain ⟨⟨r, t⟩, evaluated, outcome⟩ := Option.map_eq_some_iff.mp executed
  simp only [Prod.mk.injEq] at outcome
  obtain ⟨rfl, starved, answered, inflight⟩ := outcome
  refine ⟨⟨t, @runs_of_eval _ _ _ _ fullRing _ _ _ _ _ _ _ evaluated, starved, answered, inflight⟩, fun claimed => ?_⟩
  obtain ⟨r, t, run, -, clean⟩ := claimed (.client 0) 1 (single (retrying 1))
  exact not_failsCleanly run clean

end FullRing

/-! ### The error that the handler sees -/

/-- Why a submission failed. -/
inductive Cause where
  | io (res : Int)
  | invalid
  | noSqe

/-- The number is the failure's own. -/
def Cause.Names (bytes : Int) : Cause → Prop
  | .io res => bytes = res
  | .invalid => bytes = -EINVAL
  | .noSqe => True

/-- `SubmitTask` gives up in state `m`, and calls `QueueFailedTask` in `m'`. -/
inductive Abandons (a : Addr) (m : State) : Cause → State → Prop where
  | noSqe : Abandons a m .noSqe m.refuse
  | invalid (unsupported : (m.task a).supported = false) :
      Abandons a m .invalid ((m.queueExtra e .unprepared).deliver a (-EINVAL))

/-- What `QueueFailedTask` comes to: a completion is on its way, or
`HandleFailedTask` is called at once. -/
inductive Reports (i : Thread) (a : Addr) (k : Nat) : Bool → State → State → Prop where
  | queued : Reports i a k true m (m.queue a .kError k).submit
  | inline (run : Runs (code i) (code i (.handleFailedTask a none)) m.refuse r t) : Reports i a k false m t

/-- `AddTask` accepts the task and cannot submit it. -/
structure Rejects (i : Thread) (a : Addr) (cause : Cause) (queued : Bool) (s t : State) : Prop where
  idle : (s.task a).taskState ≠ .kSubmitted
  room : s.Room
  tries : 0 ≤ (s.task a).tryCount
  rejected : ∃ m told last, Abandons a (s.readied i a) cause m ∧ Reports i a s.submissions queued m told ∧
    (last = told ∨ Runs (code i) (finishSqe a s.submissions) told () last) ∧ t = last.submit

/-- A task without retries fails for good, and with its submission: by its
operation's completion, by the completion that `QueueFailedTask` queued, or within
`AddTask`. `told` is the result of the completion. -/
inductive FinallyFails (i : Thread) (a : Addr) : Cause → Option Int → State → State → Prop where
  | operation (accepts : Accepts i a s accepted) (sqes : accepted.refused < s.refused + 2)
      (apart : Elsewhere a s.submissions accepted before)
      (failure : res < 0 ∧ res ≠ -EAGAIN ∧ res ≠ -ECANCELED)
      (run : Dispatches ⟨a, .kNone, s.submissions⟩ res before t) : FinallyFails i a (.io res) (some res) s t
  | completion (rejects : Rejects i a cause true s accepted) (apart : Elsewhere a s.submissions accepted before)
      (run : Dispatches ⟨a, .kError, s.submissions⟩ res before t) : FinallyFails i a cause (some res) s t
  | inline (rejects : Rejects i a cause false s t) : FinallyFails i a cause none s t

/-- The handler is called once, and sees the failure's own code. -/
def Informed (a : Addr) (cause : Cause) (s t : State) : Prop :=
  ∃ bytes, t.calls a s.submissions = bytes :: s.calls a s.submissions ∧ bytes < 0 ∧ cause.Names bytes

/-- An I/O error comes through. An invalid task's code survives only if no
completion overwrites it, or one that happens to carry the same; a missing SQE is
told by a completion, or by whatever error the buffer held before. -/
def Cause.Survives (previous : Int) : Cause → Option Int → Prop
  | .io _, _ => True
  | .invalid, some res => res = -EINVAL
  | .invalid, none => True
  | .noSqe, some res => res < 0
  | .noSqe, none => previous < 0

variable {i : Thread} {a : Addr} {k : Nat} {res : Int} {cause : Cause} {queued : Bool} {s t m : State} {u : Unit}

/-- Every accepted submission has its operation in the ring, or gives up. -/
theorem submitTask_cases (run : Runs (code i) (submitTask a k) m u t) :
    ((m.task a).supported = true ∧ Runs (code i) (finishSqe a k) (m.queue a .kNone k) () t) ∨
    ∃ cause queued m' told, Abandons a m cause m' ∧ Reports i a k queued m' told ∧
      (t = told ∨ Runs (code i) (finishSqe a k) told () t) := by
  have reports : ∀ {m' w : State}, Runs (code i) (queueFailedTask a k) m' () w →
      ∃ queued, Reports i a k queued m' w := by
    intro m' w queues
    simp only [queueFailedTask, queueSqe, runs_atomic_bind, Option.some.injEq] at queues
    obtain ⟨c, later, rfl, queues⟩ := queues
    cases sqe : c.sqe with
    | true =>
      simp only [sqe, if_true, autoFlush, runs_store] at queues
      exact ⟨true, queues ▸ .queued⟩
    | false =>
      simp only [sqe, Bool.false_eq_true, if_false, runs_enter_bind, runs_pure] at queues
      obtain ⟨r, later, failed, -, rfl⟩ := queues
      exact ⟨false, .inline failed⟩
  simp only [submitTask, loadTask, runs_load_bind] at run
  split at run
  · next supported =>
    simp only [queueSqe, runs_atomic_bind, Option.some.injEq] at run
    obtain ⟨c, later, rfl, run⟩ := run
    cases sqe : c.sqe with
    | true =>
      simp only [sqe, if_true] at run
      exact Or.inl ⟨supported, run⟩
    | false =>
      simp only [sqe, Bool.false_eq_true, if_false] at run
      obtain ⟨queued, told⟩ := reports run
      exact Or.inr ⟨.noSqe, queued, _, t, .noSqe, told, Or.inl rfl⟩
  · next unsupported =>
    simp only [queueExtraSqe, runs_atomic_bind, Option.some.injEq] at run
    obtain ⟨c, later, rfl, run⟩ := run
    cases sqe : c.sqe with
    | true =>
      simp only [sqe, if_true, setResult, storeTask, runs_store_bind] at run
      obtain ⟨w, queues, rest⟩ := runs_unit_bind.mp run
      obtain ⟨queued, told⟩ := reports queues
      refine Or.inr ⟨.invalid, queued, _, w, .invalid (by simpa using unsupported), told, ?_⟩
      split at rest
      · exact Or.inr rest
      · exact Or.inl (runs_pure.mp rest).2
    | false =>
      simp only [sqe, Bool.false_eq_true, if_false] at run
      obtain ⟨queued, told⟩ := reports run
      exact Or.inr ⟨.noSqe, queued, _, t, .noSqe, told, Or.inl rfl⟩

/-- `AddTask` submits the operation of a task that it accepts, or rejects the task
in one of the ways above. -/
theorem addTask_cases (idle : (s.task a).taskState ≠ .kSubmitted) (tries : 0 ≤ (s.task a).tryCount)
    (run : Runs (code i) (addTask i a) s true t) :
    (∃ last, ((s.readied i a).task a).supported = true ∧
      Runs (code i) (finishSqe a s.submissions) ((s.readied i a).queue a .kNone s.submissions) () last ∧
      t = last.submit) ∨ ∃ cause queued, Rejects i a cause queued s t := by
  obtain ⟨room, reserved⟩ := (runs_addTask_true idle).mp run
  obtain ⟨last, submits, rfl⟩ := runs_submitReserved_readies.mp reserved
  obtain ⟨supported, finished⟩ | ⟨cause, queued, m, told, gives, reports, ended⟩ := submitTask_cases submits
  · exact Or.inl ⟨last, supported, finished, rfl⟩
  · exact Or.inr ⟨cause, queued, idle, room, tries, m, told, last, gives, reports, ended, rfl⟩

theorem Submitted.deliver {cancelled : Bool} (submitted : Submitted cancelled s m a) (res : Int) :
    Submitted cancelled s (m.deliver a res) a := by
  refine ⟨?_, ?_, ?_, ?_, ?_, submitted.current, submitted.fresh, submitted.calls, submitted.endings⟩ <;>
    rw [State.deliver, setTask_task_self]
  · exact submitted.state
  · exact submitted.marked
  · exact submitted.tries
  · exact submitted.retries
  · exact submitted.timeout

theorem Abandons.submitted {middle : State} (gives : Abandons a middle cause m)
    (submitted : Submitted false s middle a) : Submitted false s m a := by
  cases gives with
  | noSqe => exact submitted.of_eq ⟨_, _, _, rfl⟩ rfl (Nat.le_refl _) rfl rfl
  | @invalid e unsupported =>
    have queued : Submitted false s (middle.queueExtra e .unprepared) a :=
      submitted.of_eq ⟨_, _, _, rfl⟩ rfl (Nat.le_refl _) rfl rfl
    exact queued.deliver (-EINVAL)

/-- What the buffer holds when `SubmitTask` gives up. -/
def Cause.recorded (previous : Int) : Cause → Int
  | .invalid => -EINVAL
  | _ => previous

theorem Abandons.recorded {middle : State} (gives : Abandons a middle cause m) :
    (m.task a).buffer.bytesTransferred = cause.recorded (middle.task a).buffer.bytesTransferred := by
  cases gives with
  | noSqe => rfl
  | invalid unsupported =>
    rw [State.deliver, setTask_task_self]
    rfl

/-- With a completion on its way the task is in its submission. -/
theorem Rejects.submitted (rejects : Rejects i a cause true s t) : Submitted false s t a := by
  obtain ⟨m, told, last, gives, reports, ended, rfl⟩ := rejects.rejected
  have submitted := gives.submitted (submitted_readied (i := i) rejects.tries)
  cases reports with
  | queued =>
    have queued : Submitted false s (m.queue a .kError s.submissions).submit a :=
      submitted.of_eq ⟨_, _, _, rfl⟩ rfl (Nat.le_refl _) rfl rfl
    have finished : Submitted false s last a := by
      rcases ended with rfl | run
      · exact queued
      · exact (queued.finishSqe run).1
    exact finished.of_eq ⟨_, _, _, rfl⟩ rfl (Nat.le_refl _) rfl rfl

/-- Otherwise the handler has seen what the buffer held. -/
theorem Rejects.calls (rejects : Rejects i a cause false s t) (retries : (s.task a).maxRetryCount ≤ 1) :
    t.calls a s.submissions =
      cause.recorded (s.task a).buffer.bytesTransferred :: s.calls a s.submissions := by
  obtain ⟨m, told, last, gives, reports, ended, rfl⟩ := rejects.rejected
  have submitted := gives.submitted (submitted_readied (i := i) rejects.tries)
  have previous : ((s.readied i a).task a).buffer = (s.task a).buffer := by
    simp [State.readied, State.gate, State.reserve, Task.readied]
  cases reports with
  | inline run =>
    have exhausted := submitted.exhausted retries
    obtain ⟨fresh, called⟩ := calls_handleFailedTask (k := s.submissions) (by exact submitted.current)
      (by exact submitted.fresh) (by exact exhausted) run
    have recorded : (m.refuse.task a).buffer.bytesTransferred = _ := gives.recorded
    rw [recorded, previous, show m.refuse.calls a s.submissions = _ from submitted.calls] at called
    change last.calls a s.submissions = _
    rcases ended with rfl | run
    · exact called
    · have kept := calls_of_frames (a := a) [] fresh (by simp) (frames_finishSqe (calls_frame _)) run
      exact kept.2.trans called

theorem informed_iff_of_calls {bytes : Int} (calls : t.calls a s.submissions = bytes :: s.calls a s.submissions) :
    Informed a cause s t ↔ bytes < 0 ∧ cause.Names bytes := by
  constructor
  · rintro ⟨other, seen, told⟩
    cases (List.cons.inj (calls.symm.trans seen)).1
    exact told
  · exact fun told => ⟨bytes, calls, told⟩

/-- The handler of a task that has failed for good sees the failure's own code
exactly if that survives the way to the handler. -/
theorem informed_iff_survives {told : Option Int} (fails : FinallyFails i a cause told s t)
    (retries : (s.task a).maxRetryCount ≤ 1) :
    Informed a cause s t ↔ cause.Survives (s.task a).buffer.bytesTransferred told := by
  cases fails with
  | @operation _ accepted res before _ accepts sqes apart failure run =>
    have submitted := (accepts.submitted sqes).elsewhere apart
    obtain ⟨-, calls⟩ := submitted.dispatches_operation retries (Or.inr ⟨rfl, failure.2.1⟩) run
    rw [if_neg fun canceled => failure.2.2 canceled.2] at calls
    rw [informed_iff_of_calls calls]
    exact iff_of_true ⟨failure.1, rfl⟩ trivial
  | completion rejects apart run =>
    have submitted := rejects.submitted.elsewhere apart
    obtain ⟨-, calls⟩ := submitted.dispatches_operation retries (Or.inl rfl) run
    rw [if_neg fun canceled => nomatch canceled.1] at calls
    rw [informed_iff_of_calls calls]
    obtain ⟨m, told, last, gives, -⟩ := rejects.rejected
    cases gives with
    | noSqe => exact and_iff_left trivial
    | invalid =>
      refine and_iff_right_of_imp fun (named : _ = -EINVAL) => ?_
      rw [named]
      decide
  | inline rejects =>
    rw [informed_iff_of_calls (rejects.calls retries)]
    obtain ⟨m, told, last, gives, -⟩ := rejects.rejected
    cases gives with
    | noSqe => exact and_iff_left trivial
    | invalid =>
      have negative : (-EINVAL : Int) < 0 := by decide
      exact iff_of_true ⟨negative, rfl⟩ trivial

theorem failed_read_informed :
    Informed 1 (.io (-5)) (single (retrying 1)) (((single (retrying 1)).accept (.client 0) 1).failAttempt 0) := by
  have fails : FinallyFails (.client 0) 1 (.io (-5)) (some (-5)) (single (retrying 1))
      (((single (retrying 1)).accept (.client 0) 1).failAttempt 0) :=
    .operation (accepts_single rfl) (by decide +kernel) (.refl 1 _ _) (by decide)
      (dispatches_dispatch (by decide +kernel))
  exact (informed_iff_survives fails (by decide)).mpr trivial

/-- A task whose type `SubmitTask` does not know. -/
def unknownTask : Task := { fd := 3, maxRetryCount := 1 }

/-- Its failure is in the ring, as a timeout of no length. -/
def unknownRejected : State :=
  ((((single unknownTask).readied (.client 0) 1).queueExtra default .unprepared).deliver 1 (-EINVAL)
    |>.queue 1 .kError 0).submit.submit

theorem rejects_unknown : Rejects (.client 0) 1 .invalid true (single unknownTask) unknownRejected := by
  refine ⟨by decide, fun limited => absurd limited (Int.lt_irrefl 0), by decide, ?_⟩
  exact ⟨_, _, _, .invalid (by decide), .queued, Or.inl rfl, rfl⟩

/-- The timeout's own result takes the place of the error. -/
theorem unknown_task_misinformed :
    ¬ ∀ (i : Thread) (a : Addr) (cause : Cause) (told : Option Int) (s t : State), FinallyFails i a cause told s t →
      (s.task a).maxRetryCount ≤ 1 → Informed a cause s t := by
  intro claimed
  have fails : FinallyFails (.client 0) 1 .invalid (some (-ETIME)) (single unknownTask)
      (unknownRejected.dispatch ⟨1, .kError, 0⟩ (-ETIME)) :=
    .completion rejects_unknown (.refl 1 _ _) (dispatches_dispatch (by decide +kernel))
  obtain ⟨bytes, calls, -, named⟩ := claimed _ _ _ _ _ _ fails (by decide)
  have seen : (unknownRejected.dispatch ⟨1, .kError, 0⟩ (-ETIME)).calls 1 0 = [-ETIME] := by decide +kernel
  cases (List.cons.inj (calls.symm.trans seen)).1
  have same : (-ETIME : Int) = -EINVAL := named
  exact absurd same (by decide)

end Talon.Handler
