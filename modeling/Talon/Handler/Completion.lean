import Talon.Handler.Dispatch

/-! How often the completion handler is called for a submission, and in which
state the submission ends, for every order of its completions. -/
namespace Talon.Handler
open Interleaving

variable {i : Thread} {a : Addr} {k : Nat} {res : Int} {flag : EventFlag} {cancelled : Bool}
  {s t middle : State} {u : Unit}

/-- The event loop takes a completion off the ring and dispatches it. -/
def Dispatches (e : Entry) (res : Int) (s t : State) : Prop :=
  e ∈ s.ring ∧ Runs (code .loop) (dispatchCqe e res) (s.take e) () t

/-- A dispatch is a turn of `RunEventLoop` that no other thread interrupts. -/
theorem Dispatches.turn {e : Entry} (dispatches : Dispatches e res s t)
    (running : s.shutdownRequested = false) (thread : Thread → Code Unit) (k : Bool → Code Unit) :
    Pool.Reaches code (fun _ _ => True)
      ⟨s, Function.update thread .loop ((code .loop .runEventLoop).bind k)⟩
      ⟨t, Function.update thread .loop ((Prog.enter .runEventLoop).bind k)⟩ := by
  let turn : Code Bool := do
    let cqe ← takeCqe
    .enter (.dispatchCqe cqe.1 cqe.2)
  let onward (shutdown : Bool) : Code Bool :=
    if shutdown then return true
    else do
      let _ ← turn
      .enter .runEventLoop
  have tested : Runs (code .loop) (.load (·.shutdownRequested)) s false s :=
    runs_load.mpr ⟨rfl, running.symm⟩
  have turned : Runs (code .loop) turn s true t := by
    obtain ⟨queued, run⟩ := dispatches
    obtain ⟨n, found⟩ := List.getElem?_of_mem queued
    refine runs_atomic_bind.mpr ⟨{ entry := n, res := res }, s.take e, by simp [found], ?_⟩
    simp only [found, Option.getD_some, runs_enter]
    exact runs_unit_bind.mpr ⟨t, run, runs_pure.mpr ⟨rfl, rfl⟩⟩
  have first := tested.reaches thread fun shutdown => (onward shutdown).bind k
  have second := turned.reaches thread fun _ => (Prog.enter Procedure.runEventLoop).bind k
  exact first.trans second

/-- What may happen between two dispatches of completions of submission `k`:
anything that does not act on that submission. A rejected `AddTask` of the task
still writes its two texts, a submitted task keeps its submission, and a later
submission or another task in the same storage is unrestricted. -/
structure Elsewhere (a : Addr) (k : Nat) (s t : State) : Prop where
  fresh : s.submissions ≤ t.submissions
  calls : t.calls a k = s.calls a k
  endings : t.endings a k = s.endings a k
  waits : (s.task a).taskState = .kSubmitted → t.current a = s.current a
  kept : t.current a = some k → s.current a = some k ∧
    ∃ detach text, t.task a = { s.task a with detach := detach, debugStr := text }

theorem Elsewhere.refl (a : Addr) (k : Nat) (s : State) : Elsewhere a k s s :=
  ⟨Nat.le_refl _, rfl, rfl, fun _ => rfl, fun current => ⟨current, _, _, rfl⟩⟩

/-- The task at `a` is in the submission that `AddTask` began in state `s`, and
nothing has been done to that submission since, except perhaps to mark it as
cancelled. -/
structure Submitted (cancelled : Bool) (s t : State) (a : Addr) : Prop where
  state : (t.task a).taskState = .kSubmitted
  marked : (t.task a).isCancel = cancelled
  tries : 0 ≤ (t.task a).tryCount
  retries : (t.task a).maxRetryCount = (s.task a).maxRetryCount
  timeout : (t.task a).timeoutMs = (s.task a).timeoutMs
  current : t.current a = some s.submissions
  fresh : s.submissions < t.submissions
  calls : t.calls a s.submissions = s.calls a s.submissions
  endings : t.endings a s.submissions = s.endings a s.submissions

/-- Steps that write none of the fields above leave the submission untouched. -/
theorem Submitted.of_eq (submitted : Submitted cancelled s middle a)
    (task : ∃ detach text userData, t.task a =
      { middle.task a with detach := detach, debugStr := text, userData := userData })
    (current : t.current a = middle.current a) (submissions : middle.submissions ≤ t.submissions)
    (calls : t.calls a s.submissions = middle.calls a s.submissions)
    (endings : t.endings a s.submissions = middle.endings a s.submissions) :
    Submitted cancelled s t a := by
  obtain ⟨detach, text, userData, same⟩ := task
  refine ⟨?_, ?_, ?_, ?_, ?_, current.trans submitted.current,
    Nat.lt_of_lt_of_le submitted.fresh submissions, calls.trans submitted.calls,
    endings.trans submitted.endings⟩ <;> rw [same]
  · exact submitted.state
  · exact submitted.marked
  · exact submitted.tries
  · exact submitted.retries
  · exact submitted.timeout

theorem Submitted.elsewhere (submitted : Submitted cancelled s middle a)
    (apart : Elsewhere a s.submissions middle t) : Submitted cancelled s t a := by
  have current := apart.waits submitted.state
  obtain ⟨-, detach, text, same⟩ := apart.kept (current.trans submitted.current)
  exact submitted.of_eq ⟨detach, text, _, same⟩ current apart.fresh apart.calls apart.endings

theorem Submitted.live (submitted : Submitted cancelled s t a) : TaskState.Live (t.task a).taskState :=
  Or.inl submitted.state

/-- A task that may be tried once has no retry left. -/
theorem Submitted.exhausted (submitted : Submitted cancelled s t a)
    (retries : (s.task a).maxRetryCount ≤ 1) : (t.task a).maxRetryCount ≤ (t.task a).tryCount + 1 := by
  have tries := submitted.tries
  have same := submitted.retries
  omega

/-- Submission `k` of the task at `a` is over: the task, if it is still that
one, is skipped by every later completion. -/
def Finished (a : Addr) (k : Nat) (s : State) : Prop :=
  k < s.submissions ∧ (s.current a = some k → ¬ TaskState.Live (s.task a).taskState)

theorem Finished.elsewhere (finished : Finished a k s) (apart : Elsewhere a k s t) : Finished a k t := by
  refine ⟨Nat.lt_of_lt_of_le finished.1 apart.fresh, fun current => ?_⟩
  obtain ⟨before, detach, text, same⟩ := apart.kept current
  rw [same]
  exact finished.2 before

/-- A completion that comes after the end changes nothing about the submission. -/
theorem Finished.dispatches (finished : Finished a k s) (run : Dispatches ⟨a, flag, k⟩ res s t) :
    t.calls a k = s.calls a k ∧ t.endings a k = s.endings a k := by
  by_cases current : s.current a = some k
  · obtain rfl := (runs_dispatchCqe_skips (e := ⟨a, flag, k⟩) (s := s.take ⟨a, flag, k⟩)
      (finished.2 current)).mp run.2
    exact ⟨rfl, rfl⟩
  · exact outcome_dispatchCqe_lapsed (s := s.take ⟨a, flag, k⟩) finished.1 (fun _ => current) run.2

theorem calls_executeCompletionHandler (current : s.current a = some k) (fresh : k < s.submissions)
    (run : Runs (code i) (executeCompletionHandler a) s u t) :
    k < t.submissions ∧ t.calls a k = (s.task a).buffer.bytesTransferred :: s.calls a k := by
  simp only [executeCompletionHandler, runs_store_bind, runs_enter_bind, runs_pure] at run
  obtain ⟨r, middle, run, -, rfl⟩ := run
  have kept := calls_of_frames (a := a) (k := k) [] (by exact fresh) (by simp)
    (frames_user (calls_frame _)) run
  refine ⟨kept.1, kept.2.trans ?_⟩
  simp [State.calls, State.record, Event.call, current]

/-- Once the retries are used up, `HandleFailedTask` calls the handler. -/
theorem calls_handleFailedTask {cause : Option Nat} {r : Bool} (current : s.current a = some k)
    (fresh : k < s.submissions) (last : (s.task a).maxRetryCount ≤ (s.task a).tryCount + 1)
    (run : Runs (code i) (code i (.handleFailedTask a cause)) s r t) :
    k < t.submissions ∧ t.calls a k = (s.task a).buffer.bytesTransferred :: s.calls a k := by
  obtain ⟨returned, handled, deleted⟩ := runs_handleFailedTask_fails last run
  have deletes := deletes_of_deleteTask deleted
  have called := calls_executeCompletionHandler (k := k) (by exact current) (by exact fresh) handled
  rw [State.retried, setTask_task_self] at called
  rw [deletes.calls, deletes.submissions]
  exact called

/-- A task has been settled and deleted. -/
structure Closes (a : Addr) (k : Nat) (final : TaskState) (s t : State) : Prop where
  state : (t.task a).taskState = final
  submissions : t.submissions = s.submissions
  calls : t.calls a k = s.calls a k
  endings : t.endings a k = final :: s.endings a k

theorem closes_of_deleteTask {state : TaskState} {cause : Option Nat} (held : s.liveSubmission a = some k)
    (run : Runs (code i) (deleteTask a cause) (s.close i a state cause) u t) : Closes a k state s t := by
  have deletes := deletes_of_deleteTask run
  obtain ⟨alive, same⟩ := deletes.task a
  have live : State.liveSubmission (s.setTask a fun task =>
      { task with doneState := .kSignaled, detach := true }) a = some k := held
  refine ⟨?_, deletes.submissions, deletes.calls a k, (deletes.endings a k).trans ?_⟩
  · rw [same]
    simp [State.close, State.settle]
  · simp only [State.endings, State.close, State.settle, List.filterMap_cons, Event.ending, live,
      and_self, if_true]
    rfl

theorem Closes.ends {final : TaskState} {past : List Int} {ends : List TaskState}
    (closes : Closes a k final s t) (settled : ¬ TaskState.Live final) (fresh : k < s.submissions)
    (calls : s.calls a k = past) (endings : s.endings a k = ends) :
    Finished a k t ∧ t.calls a k = past ∧ t.endings a k = final :: ends := by
  refine ⟨⟨closes.submissions ▸ fresh, fun _ => ?_⟩, closes.calls.trans calls,
    closes.endings.trans (congrArg _ endings)⟩
  rw [closes.state]
  exact settled

theorem Submitted.held (submitted : Submitted cancelled s t a) :
    ((t.take ⟨a, flag, k⟩).find ⟨a, flag, k⟩).liveSubmission a = some s.submissions := by
  have state : ((t.take ⟨a, flag, k⟩).task a).taskState = .kSubmitted := submitted.state
  simp only [State.liveSubmission, State.find, if_pos state, Function.update_self]
  exact submitted.current

/-- A completion that is acted on, up to the decrement. -/
theorem Submitted.acts (submitted : Submitted false s middle a) (run : Dispatches ⟨a, flag, k⟩ res middle t) :
    ∃ last, Runs (code .loop) (handleEvent ⟨a, flag, k⟩ res)
      ((middle.take ⟨a, flag, k⟩).find ⟨a, flag, k⟩) () last ∧
        t = last.release k ((middle.take ⟨a, flag, k⟩).liveSubmission a) := by
  obtain ⟨last, acted, rfl⟩ := (runs_dispatchCqe_acts (e := ⟨a, flag, k⟩)
    (s := middle.take ⟨a, flag, k⟩) submitted.live).mp run.2
  exact ⟨last, (runs_actOnCqe_handles submitted.marked).mp acted, rfl⟩

/-- The timeout's completion ends the submission, whatever its result. -/
theorem Submitted.dispatches_timeout (submitted : Submitted false s middle a)
    (run : Dispatches ⟨a, .kTimeout, s.submissions⟩ res middle t) :
    Finished a s.submissions t ∧ t.calls a s.submissions = s.calls a s.submissions ∧
      t.endings a s.submissions = .kTimeout :: s.endings a s.submissions := by
  obtain ⟨last, handled, rfl⟩ := submitted.acts run
  have deleted := (runs_handleTimeoutTask (by exact submitted.live)).mp handled
  have closes := closes_of_deleteTask (k := s.submissions) (by exact submitted.held) deleted
  exact closes.ends (by decide) submitted.fresh submitted.calls submitted.endings

/-- A failed attempt that is not retried calls the handler with the errno. -/
theorem Submitted.calls_fails {r : Bool} (submitted : Submitted false s middle a)
    (retries : (s.task a).maxRetryCount ≤ 1)
    (run : Runs (code .loop) (code .loop (.handleFailedTask a (some k)))
      (((middle.take ⟨a, flag, k⟩).find ⟨a, flag, k⟩).deliver a res) r t) :
    s.submissions < t.submissions ∧ t.calls a s.submissions = res :: s.calls a s.submissions := by
  have last := submitted.exhausted retries
  have called := calls_handleFailedTask (k := s.submissions) (by exact submitted.current)
    (by exact submitted.fresh) (by rw [State.deliver, setTask_task_self]; exact last) run
  rw [State.deliver, setTask_task_self] at called
  exact ⟨called.1, called.2.trans (congrArg _ submitted.calls)⟩

/-- A successful operation calls the handler with its result, before anything is
submitted again. -/
theorem Submitted.dispatches_success (submitted : Submitted false s middle a) (success : 0 ≤ res)
    (run : Dispatches ⟨a, .kNone, s.submissions⟩ res middle t) :
    s.submissions < t.submissions ∧ t.calls a s.submissions = res :: s.calls a s.submissions := by
  obtain ⟨last, handled, rfl⟩ := submitted.acts run
  obtain ⟨returned, handled, finished⟩ := (runs_handleNormalEvent_succeeds success).mp handled
  have called := calls_executeCompletionHandler (k := s.submissions) (by exact submitted.current)
    (by exact submitted.fresh) handled
  rw [State.deliver, setTask_task_self] at called
  have kept := calls_finishSuccess called.1 finished
  exact ⟨kept.1, kept.2.trans (called.2.trans (congrArg _ submitted.calls))⟩

/-- An operation that the kernel cancelled ends the submission without a call. -/
theorem Submitted.dispatches_canceled (submitted : Submitted false s middle a)
    (run : Dispatches ⟨a, .kNone, s.submissions⟩ (-ECANCELED) middle t) :
    Finished a s.submissions t ∧ t.calls a s.submissions = s.calls a s.submissions ∧
      t.endings a s.submissions =
        (if 0 < (s.task a).timeoutMs then .kTimeout else .kCanceled) :: s.endings a s.submissions := by
  obtain ⟨last, handled, rfl⟩ := submitted.acts run
  have deleted := (runs_handleNormalEvent_canceled (by exact submitted.live)).mp handled
  have timeout : ((((middle.take ⟨a, .kNone, s.submissions⟩).find ⟨a, .kNone, s.submissions⟩).task
      a).timeoutMs = (s.task a).timeoutMs) := submitted.timeout
  simp only [timeout] at deleted
  split at deleted
  · next timed =>
    have closes := closes_of_deleteTask (k := s.submissions) (by exact submitted.held) deleted
    rw [if_pos timed]
    exact closes.ends (by decide) submitted.fresh submitted.calls submitted.endings
  · next untimed =>
    have closes := closes_of_deleteTask (k := s.submissions) (by exact submitted.held) deleted
    rw [if_neg untimed]
    exact closes.ends (by decide) submitted.fresh submitted.calls submitted.endings

/-- The operation's completion calls the handler with its result, unless the
kernel cancelled the operation. -/
theorem Submitted.dispatches_operation (submitted : Submitted false s middle a)
    (retries : (s.task a).maxRetryCount ≤ 1) (operation : flag = .kError ∨ flag = .kNone ∧ res ≠ -EAGAIN)
    (run : Dispatches ⟨a, flag, s.submissions⟩ res middle t) :
    s.submissions < t.submissions ∧ t.calls a s.submissions =
      if flag = .kNone ∧ res = -ECANCELED then s.calls a s.submissions
      else res :: s.calls a s.submissions := by
  by_cases canceled : flag = .kNone ∧ res = -ECANCELED
  · rw [if_pos canceled]
    obtain ⟨rfl, rfl⟩ := canceled
    obtain ⟨finished, calls, -⟩ := submitted.dispatches_canceled run
    exact ⟨finished.1, calls⟩
  rw [if_neg canceled]
  by_cases succeeds : flag = .kNone ∧ 0 ≤ res
  · obtain ⟨rfl, success⟩ := succeeds
    exact submitted.dispatches_success success run
  obtain ⟨last, handled, rfl⟩ := submitted.acts run
  change s.submissions < last.submissions ∧ last.calls a s.submissions = res :: s.calls a s.submissions
  rcases operation with rfl | ⟨rfl, again⟩
  · simp only [handleEvent, handleErrorEvent, setResult, storeTask, runs_store_bind, runs_enter_bind,
      runs_pure] at handled
    obtain ⟨r, later, failed, -, rfl⟩ := handled
    exact submitted.calls_fails retries failed
  · have failure : res < 0 := Int.not_le.mp fun success => succeeds ⟨rfl, success⟩
    have other : res ≠ -ECANCELED := fun same => canceled ⟨rfl, same⟩
    obtain ⟨r, failed⟩ := (runs_handleNormalEvent_fails failure again other).mp handled
    exact submitted.calls_fails retries failed

/-- The completion of a successful cancel request only marks the task. -/
theorem Submitted.dispatches_cancel (submitted : Submitted false s middle a) (success : 0 ≤ res)
    (run : Dispatches ⟨a, .kCancel, s.submissions⟩ res middle t) : Submitted true s t a := by
  obtain ⟨last, handled, rfl⟩ := submitted.acts run
  simp only [handleEvent, if_pos success, runs_handleCancelEvent] at handled
  subst handled
  refine ⟨?_, ?_, ?_, ?_, ?_, submitted.current, submitted.fresh, submitted.calls, submitted.endings⟩ <;>
    simp only [State.release, setTask_task_self]
  · exact submitted.state
  · exact submitted.tries
  · exact submitted.retries
  · exact submitted.timeout

/-- Every completion of a marked task ends it as cancelled. -/
theorem Submitted.dispatches_marked (submitted : Submitted true s middle a)
    (run : Dispatches ⟨a, flag, s.submissions⟩ res middle t) :
    Finished a s.submissions t ∧ t.calls a s.submissions = s.calls a s.submissions ∧
      t.endings a s.submissions = .kCanceled :: s.endings a s.submissions := by
  obtain ⟨last, acted, rfl⟩ := (runs_dispatchCqe_acts (e := ⟨a, flag, s.submissions⟩)
    (s := middle.take ⟨a, flag, s.submissions⟩) submitted.live).mp run.2
  have deleted := (runs_actOnCqe_cancels submitted.marked).mp acted
  have closes := closes_of_deleteTask (k := s.submissions) submitted.held deleted
  exact closes.ends (by decide) submitted.fresh submitted.calls submitted.endings

end Talon.Handler
