import Talon.Handler.Completion

/-! The outcome of a submission from its `AddTask` to the last of its
completions. -/
namespace Talon.Handler
open Interleaving

/-- `AddTask` accepts a supported task that is not in a submission. -/
structure Accepts (i : Thread) (a : Addr) (s t : State) : Prop where
  idle : (s.task a).taskState ≠ .kSubmitted
  supported : (s.task a).supported
  tries : 0 ≤ (s.task a).tryCount
  run : Runs (code i) (addTask i a) s true t

/-- The order in which the completions of one submission are dispatched. A
submission whose SQEs were all refused has none; `flag` tells the operation's
completion from that of its failure. -/
inductive Order where
  | unqueued
  | alone (flag : EventFlag) (res : Int)
  | opFirst (flag : EventFlag) (res timeoutRes : Int)
  | timeoutFirst (flag : EventFlag) (res timeoutRes : Int)
  deriving DecidableEq

inductive Completes (a : Addr) (k : Nat) : Order → State → State → Prop where
  | unqueued (apart : Elsewhere a k s t) : Completes a k .unqueued s t
  | alone (apart : Elsewhere a k s before) (op : Dispatches ⟨a, flag, k⟩ res before t) :
      Completes a k (.alone flag res) s t
  | opFirst (apart : Elsewhere a k s before) (op : Dispatches ⟨a, flag, k⟩ res before between)
      (waits : Elsewhere a k between later) (timeout : Dispatches ⟨a, .kTimeout, k⟩ timeoutRes later t) :
      Completes a k (.opFirst flag res timeoutRes) s t
  | timeoutFirst (apart : Elsewhere a k s before)
      (timeout : Dispatches ⟨a, .kTimeout, k⟩ timeoutRes before between)
      (waits : Elsewhere a k between later) (op : Dispatches ⟨a, flag, k⟩ res later t) :
      Completes a k (.timeoutFirst flag res timeoutRes) s t

/-- The operation's own completion, with a result other than `-EAGAIN`. -/
def Order.Operation : Order → Prop
  | .unqueued => True
  | .alone flag res | .opFirst flag res _ | .timeoutFirst flag res _ =>
      flag = .kError ∨ flag = .kNone ∧ res ≠ -EAGAIN

/-- The timeout is not dispatched first, and the kernel has not cancelled the
operation. -/
def Order.Answered : Order → Prop
  | .unqueued => True
  | .alone flag res | .opFirst flag res _ => ¬ (flag = .kNone ∧ res = -ECANCELED)
  | .timeoutFirst _ _ _ => False

instance : DecidablePred Order.Operation
  | .unqueued => inferInstanceAs (Decidable True)
  | .alone flag res | .opFirst flag res _ | .timeoutFirst flag res _ =>
      inferInstanceAs (Decidable (flag = .kError ∨ flag = .kNone ∧ res ≠ -EAGAIN))

instance : DecidablePred Order.Answered
  | .unqueued => inferInstanceAs (Decidable True)
  | .alone flag res | .opFirst flag res _ =>
      inferInstanceAs (Decidable (¬ (flag = .kNone ∧ res = -ECANCELED)))
  | .timeoutFirst _ _ _ => inferInstanceAs (Decidable False)

variable {i : Thread} {a : Addr} {k : Nat} {s t accepted : State}

/-- The state in which `AddTask` asks for the first SQE. -/
def State.readied (s : State) (i : Thread) (a : Addr) : State :=
  ((s.gate i a).reserve i a s.submissions).setTask a Task.readied

theorem submitted_readied (tries : 0 ≤ (s.task a).tryCount) : Submitted false s (s.readied i a) a := by
  have task : (s.readied i a).task a = { (s.task a).readied with taskState := .kSubmitted } := by
    simp [State.readied, State.gate, State.reserve, Task.readied]
  refine ⟨?_, ?_, ?_, ?_, ?_, Function.update_self .., Nat.lt_succ_self _, rfl, rfl⟩ <;> rw [task]
  · rfl
  · simp only [Task.readied]
    split
    · exact Int.le_refl 0
    · exact tries
  · rfl
  · rfl

theorem Submitted.finishSqe {middle : State} {u : Unit} (submitted : Submitted false s middle a)
    (run : Runs (code i) (finishSqe a k) middle u t) :
    Submitted false s t a ∧ t.refused ≤ middle.refused + 1 := by
  have written : Submitted false s (middle.setTask a fun task => { task with userData := some a }) a :=
    submitted.of_eq ⟨_, _, some a, by rw [setTask_task_self]⟩ rfl (Nat.le_refl _) rfl rfl
  simp only [Handler.finishSqe, linkTimeout, storeTask, loadTask, runs_store_bind, runs_load_bind] at run
  split at run
  · simp only [queueExtraSqe, runs_atomic_bind, runs_pure, Option.some.injEq] at run
    obtain ⟨c, later, rfl, -, rfl⟩ := run
    cases c.sqe with
    | true => exact ⟨written.of_eq ⟨_, _, _, rfl⟩ rfl (Nat.le_refl _) rfl rfl, Nat.le_succ _⟩
    | false => exact ⟨written.of_eq ⟨_, _, _, rfl⟩ rfl (Nat.le_refl _) rfl rfl, Nat.le_refl _⟩
  · obtain ⟨-, rfl⟩ := runs_pure.mp run
    exact ⟨written, Nat.le_succ _⟩

/-- `QueueFailedTask` fails the task at once if there is no SQE for that either. -/
theorem Submitted.queueFailedTask {middle : State} {u : Unit} (submitted : Submitted false s middle a)
    (run : Runs (code i) (queueFailedTask a k) middle u t) :
    Submitted false s t a ∧ t.refused = middle.refused ∨ middle.refused + 1 ≤ t.refused ∧
      ((s.task a).maxRetryCount ≤ 1 →
        ∃ bytes, t.calls a s.submissions = bytes :: s.calls a s.submissions) := by
  simp only [Handler.queueFailedTask, queueSqe, runs_atomic_bind, Option.some.injEq] at run
  obtain ⟨c, later, rfl, run⟩ := run
  cases sqe : c.sqe with
  | true =>
    simp only [sqe, if_true, autoFlush, runs_store] at run
    subst run
    exact Or.inl ⟨submitted.of_eq ⟨_, _, _, rfl⟩ rfl (Nat.le_refl _) rfl rfl, rfl⟩
  | false =>
    simp only [sqe, Bool.false_eq_true, if_false, runs_enter_bind, runs_pure] at run
    obtain ⟨r, later, failed, -, rfl⟩ := run
    have refused := runs_refused [a]
      (frames_handleFailedTask (refused_frame _) List.mem_cons_self none) failed
    refine Or.inr ⟨refused, fun retries => ?_⟩
    have last := submitted.exhausted retries
    have called := calls_handleFailedTask (k := s.submissions) (by exact submitted.current)
      (by exact submitted.fresh) (by exact last) failed
    exact ⟨_, called.2.trans (congrArg _ submitted.calls)⟩

theorem Submitted.submitTask {middle : State} {u : Unit} (submitted : Submitted false s middle a)
    (supported : (middle.task a).supported) (run : Runs (code i) (submitTask a k) middle u t) :
    Submitted false s t a ∧ t.refused < middle.refused + 2 ∨ middle.refused + 2 ≤ t.refused ∧
      ((s.task a).maxRetryCount ≤ 1 →
        ∃ bytes, t.calls a s.submissions = bytes :: s.calls a s.submissions) := by
  simp only [Handler.submitTask, loadTask, runs_load_bind, if_pos supported, queueSqe,
    runs_atomic_bind, Option.some.injEq] at run
  obtain ⟨c, later, rfl, run⟩ := run
  cases sqe : c.sqe with
  | true =>
    simp only [sqe, if_true] at run
    have queued : Submitted false s (middle.queue a .kNone k) a :=
      submitted.of_eq ⟨_, _, _, rfl⟩ rfl (Nat.le_refl _) rfl rfl
    obtain ⟨finished, refused⟩ := queued.finishSqe run
    exact Or.inl ⟨finished, Nat.lt_succ_of_le refused⟩
  | false =>
    simp only [sqe, Bool.false_eq_true, if_false] at run
    have refused : Submitted false s middle.refuse a := submitted.of_eq ⟨_, _, _, rfl⟩ rfl (Nat.le_refl _) rfl rfl
    obtain ⟨queued, same⟩ | failed := refused.queueFailedTask run
    · exact Or.inl ⟨queued, same ▸ Nat.lt_succ_self _⟩
    · exact Or.inr failed

/-- Either the operation's or the failure's SQE is in the ring, or both were
refused and the handler of a task without retries has been called. -/
theorem Accepts.submitted_or_failed (accepts : Accepts i a s t) :
    Submitted false s t a ∧ t.refused < s.refused + 2 ∨ s.refused + 2 ≤ t.refused ∧
      ((s.task a).maxRetryCount ≤ 1 →
        ∃ bytes, t.calls a s.submissions = bytes :: s.calls a s.submissions) := by
  obtain ⟨room, reserved⟩ := (runs_addTask_true accepts.idle).mp accepts.run
  obtain ⟨middle, run, rfl⟩ := runs_submitReserved_readies.mp reserved
  have submitted : Submitted false s (s.readied i a) a := submitted_readied accepts.tries
  have supported : ((s.readied i a).task a).supported := by
    simp only [State.readied, setTask_task_self]
    exact gated_supported accepts.supported
  obtain ⟨queued, refused⟩ | failed := submitted.submitTask supported run
  · exact Or.inl ⟨queued.of_eq ⟨_, _, _, rfl⟩ rfl (Nat.le_refl _) rfl rfl, refused⟩
  · exact Or.inr failed

theorem Accepts.submitted (accepts : Accepts i a s t) (sqes : t.refused < s.refused + 2) :
    Submitted false s t a := by
  obtain ⟨submitted, -⟩ | ⟨more, -⟩ := accepts.submitted_or_failed
  · exact submitted
  · omega

/-- The handler of an accepted task is called exactly once, unless the timeout's
completion is dispatched first or the operation completes as cancelled. -/
theorem handled_once_iff {order : Order} (accepts : Accepts i a s accepted)
    (retries : (s.task a).maxRetryCount ≤ 1) (operation : order.Operation)
    (sqes : order = .unqueued ↔ s.refused + 2 ≤ accepted.refused)
    (completes : Completes a s.submissions order accepted t) :
    (t.calls a s.submissions).length = (s.calls a s.submissions).length + 1 ↔ order.Answered := by
  obtain ⟨submitted, fewer⟩ | ⟨more, called⟩ := accepts.submitted_or_failed
  · have queued : order ≠ .unqueued := fun none => Nat.not_le_of_lt fewer (sqes.mp none)
    cases completes with
    | unqueued apart => contradiction
    | alone apart op =>
      obtain ⟨-, calls⟩ := (submitted.elsewhere apart).dispatches_operation retries operation op
      rw [calls]
      split <;> simp_all [Order.Answered]
    | opFirst apart op waits timeout =>
      obtain ⟨fresh, calls⟩ := (submitted.elsewhere apart).dispatches_operation retries operation op
      have later := calls_dispatchCqe_timeout (a := a)
        (by exact Nat.lt_of_lt_of_le fresh waits.fresh) rfl timeout.2
      rw [later.2.trans (waits.calls.trans calls)]
      split <;> simp_all [Order.Answered]
    | timeoutFirst apart timeout waits op =>
      obtain ⟨finished, calls, -⟩ := (submitted.elsewhere apart).dispatches_timeout timeout
      rw [((finished.elsewhere waits).dispatches op).1, waits.calls, calls]
      simp [Order.Answered]
  · obtain rfl := sqes.mpr more
    cases completes with
    | unqueued apart =>
      obtain ⟨bytes, calls⟩ := called retries
      rw [apart.calls, calls]
      simp [Order.Answered]

/-- A handler with one task and no limit. -/
def single (config : Task) : State := (start 0).shared.create 1 config

/-- The dispatch of a completion whose handler does nothing, where it ends within
64 nested steps. -/
def State.dispatch (s : State) (e : Entry) (res : Int) : State :=
  (((dispatchCqe e res).eval (code .loop) 64 (s.take e)).map Prod.snd).getD s

def State.dispatchable (s : State) (e : Entry) (res : Int) : Bool :=
  decide (e ∈ s.ring) && ((dispatchCqe e res).eval (code .loop) 64 (s.take e)).isSome

theorem dispatches_dispatch {e : Entry} {res : Int} (ready : s.dispatchable e res = true) :
    Dispatches e res s (s.dispatch e res) := by
  simp only [State.dispatchable, Bool.and_eq_true, decide_eq_true_eq] at ready
  refine ⟨ready.1, runs_of_eval (n := 64) ?_⟩
  obtain ⟨⟨u, t⟩, evaluated⟩ := Option.isSome_iff_exists.mp ready.2
  simp only [State.dispatch, evaluated, Option.map_some, Option.getD_some]

theorem accepts_single {config : Task} (supported : config.supported) :
    Accepts i 1 (single config) ((single config).accept i 1) := by
  have created : ((single config).task 1).supported := by
    simpa [single, State.create, Task.supported, Task.validateConnectTask] using supported
  refine ⟨?_, created, ?_, ?_⟩
  · simp [single, State.create]
  · simp [single, State.create]
  · refine ((runs_addTask_accepts ?_ ?_ created).mpr ⟨rfl, rfl⟩).1
    · simp [single, State.create]
    · intro limited
      exact absurd limited (Int.lt_irrefl 0)

def timedRead : Task := { taskType := .kRead, fd := 3, timeoutMs := 100, maxRetryCount := 1 }

def timedAccepted : State := (single timedRead).accept (.client 0) 1

theorem completes_opFirst {flag : EventFlag} {res timeoutRes : Int}
    (op : s.dispatchable ⟨a, flag, k⟩ res = true)
    (timeout : (s.dispatch ⟨a, flag, k⟩ res).dispatchable ⟨a, .kTimeout, k⟩ timeoutRes = true) :
    Completes a k (.opFirst flag res timeoutRes) s
      ((s.dispatch ⟨a, flag, k⟩ res).dispatch ⟨a, .kTimeout, k⟩ timeoutRes) :=
  .opFirst (.refl a k s) (dispatches_dispatch op) (.refl a k _) (dispatches_dispatch timeout)

theorem completes_timeoutFirst {flag : EventFlag} {res timeoutRes : Int}
    (timeout : s.dispatchable ⟨a, .kTimeout, k⟩ timeoutRes = true)
    (op : (s.dispatch ⟨a, .kTimeout, k⟩ timeoutRes).dispatchable ⟨a, flag, k⟩ res = true) :
    Completes a k (.timeoutFirst flag res timeoutRes) s
      ((s.dispatch ⟨a, .kTimeout, k⟩ timeoutRes).dispatch ⟨a, flag, k⟩ res) :=
  .timeoutFirst (.refl a k s) (dispatches_dispatch timeout) (.refl a k _) (dispatches_dispatch op)

/-- The operation fails and its timeout is cancelled. -/
theorem failed_read_handled_once :
    (((timedAccepted.dispatch ⟨1, .kNone, 0⟩ (-5)).dispatch ⟨1, .kTimeout, 0⟩ (-ECANCELED)).calls
      1 0).length = 1 :=
  (handled_once_iff (accepts_single rfl) (by decide) (by decide) (by decide +kernel)
    (completes_opFirst (by decide +kernel) (by decide +kernel))).mpr (by decide)

/-- The timeout of an operation that has read seven bytes is dispatched first. -/
theorem timeout_first_unhandled :
    ¬ ∀ (i : Thread) (a : Addr) (s accepted t : State) (order : Order), Accepts i a s accepted →
      (s.task a).maxRetryCount ≤ 1 → order.Operation →
      (order = .unqueued ↔ s.refused + 2 ≤ accepted.refused) →
      Completes a s.submissions order accepted t →
      (t.calls a s.submissions).length = (s.calls a s.submissions).length + 1 := by
  intro claimed
  have completes : Completes 1 0 (.timeoutFirst .kNone 7 (-ECANCELED)) timedAccepted _ :=
    completes_timeoutFirst (by decide +kernel) (by decide +kernel)
  have called := claimed _ 1 (single timedRead) timedAccepted _ _ (accepts_single rfl) (by decide)
    (by decide) (by decide +kernel) completes
  exact absurd called (by decide +kernel)

end Talon.Handler
