import Talon.Handler.Sequential

/-! Uninterrupted runs of `DispatchCqe`, one way through it at a time, and what
they record about a submission. -/
namespace Talon.Handler
open Interleaving

variable {program : Procedure → Code Bool} {i : Thread} {a : Addr} {k : Nat} {e : Entry} {res : Int}
  {s t : State} {u : Unit}

/-- The result that a call of the handler for submission `k` saw. -/
def Event.call (a : Addr) (k : Nat) : Event → Option Int
  | .handled b submission bytes => if b = a ∧ submission = some k then some bytes else none
  | _ => none

/-- The state that a store left submission `k` in. -/
def Event.ending (a : Addr) (k : Nat) : Event → Option TaskState
  | .settled b state _ target => if b = a ∧ target = some k then some state else none
  | _ => none

/-- The handler calls for submission `k` of the task at `a`, latest first. -/
def State.calls (s : State) (a : Addr) (k : Nat) : List Int := s.log.filterMap (Event.call a k)

/-- The states that the submission was left in, latest first. -/
def State.endings (s : State) (a : Addr) (k : Nat) : List TaskState :=
  s.log.filterMap (Event.ending a k)

/-- How many events of a kind have happened. -/
def State.tally (s : State) (kind : Event → Bool) : Nat := s.log.countP kind

/-- `delete` changes nothing but which objects are alive. -/
structure Deletes (s t : State) : Prop where
  task : ∀ b, ∃ alive, t.task b = { s.task b with alive := alive }
  current : t.current = s.current
  phase : t.phase = s.phase
  submissions : t.submissions = s.submissions
  inflight : t.inflight = s.inflight
  maxInflightOps : t.maxInflightOps = s.maxInflightOps
  outstanding : t.outstanding = s.outstanding
  refused : t.refused = s.refused
  calls : ∀ a k, t.calls a k = s.calls a k
  endings : ∀ a k, t.endings a k = s.endings a k
  tally : ∀ kind, (∀ b inherited cause target, kind (.destroyed b inherited cause target) = false) →
    t.tally kind = s.tally kind

theorem Deletes.refl (s : State) : Deletes s s :=
  ⟨fun b => ⟨(s.task b).alive, rfl⟩, rfl, rfl, rfl, rfl, rfl, rfl, rfl, fun _ _ => rfl, fun _ _ => rfl,
    fun _ _ => rfl⟩

theorem Deletes.destroy (deletes : Deletes s t) (inherited : Bool) (cause : Option Nat) :
    Deletes s (t.destroy i a inherited cause) := by
  refine ⟨fun b => ?_, deletes.current, deletes.phase, deletes.submissions, deletes.inflight,
    deletes.maxInflightOps, deletes.outstanding, deletes.refused, deletes.calls, deletes.endings,
    fun kind ignores => ?_⟩
  · obtain ⟨alive, same⟩ := deletes.task b
    by_cases here : b = a
    · subst here
      exact ⟨false, by simp [State.destroy, State.setTask, same]⟩
    · exact ⟨alive, by simp [State.destroy, State.setTask, here, same]⟩
  · rw [← deletes.tally kind ignores]
    simp [State.tally, State.destroy, ignores]

def deleteContract : Contract State Procedure Bool where
  A _ := State
  pre
    | .deleteTask _ _ _, x, s => Deletes x s
    | _, _, _ => False
  post _ x _ t := Deletes x t

theorem delete_verified : Verified sequential deleteContract (code i) := by
  intro f x s deletes
  cases f with
  | deleteTask a inherited cause =>
    have leaves : Leaves deleteContract (Deletes x) (code i (.deleteTask a inherited cause)) := by
      refine Leaves.bind ?_ fun _ => ?_
      · refine Leaves.bind Leaves.load fun task => ?_
        cases task.next with
        | none => exact Leaves.pure ()
        | some next =>
          refine Leaves.bind ?_ fun _ => Leaves.pure ()
          exact Leaves.enter x (fun _ holds => holds) fun _ _ holds => holds
      · refine Leaves.bind (Leaves.store fun _ holds => holds.destroy inherited cause) fun _ => ?_
        exact Leaves.pure true
    exact leaves s deletes
  | _ => exact deletes.elim

theorem deletes_of_run {inherited : Bool} {cause : Option Nat} {r : Bool}
    (run : Runs (code i) (code i (.deleteTask a inherited cause)) s r t) : Deletes s t :=
  run.sound delete_verified (fun _ _ => trivial)
    (delete_verified (.deleteTask a inherited cause) s s (Deletes.refl s))

theorem deletes_of_deleteTask {cause : Option Nat}
    (run : Runs (code i) (deleteTask a cause) s u t) : Deletes s t := by
  simp only [deleteTask, runs_enter_bind, runs_pure] at run
  obtain ⟨r, middle, deleted, -, rfl⟩ := run
  exact deletes_of_run deleted

theorem runs_dispatchCqe_skips (finished : ¬ TaskState.Live (s.task e.task).taskState) :
    Runs program (dispatchCqe e res) s u t ↔ t = s.find e := by
  simp only [dispatchCqe, runs_exchange_bind, if_neg finished, runs_pure, true_and]

theorem runs_dispatchCqe_acts (acts : TaskState.Live (s.task e.task).taskState) :
    Runs program (dispatchCqe e res) s u t ↔ ∃ middle,
      Runs program (actOnCqe e res) (s.find e) () middle ∧
        t = middle.release e.submission (s.liveSubmission e.task) := by
  simp only [dispatchCqe, runs_exchange_bind, if_pos acts]
  rw [runs_unit_bind]
  simp only [runs_store]

theorem runs_actOnCqe_handles (uncancelled : (s.task e.task).isCancel = false) :
    Runs program (actOnCqe e res) s u t ↔ Runs program (handleEvent e res) s u t := by
  simp only [actOnCqe, loadTask, runs_load_bind, uncancelled, Bool.false_eq_true, if_false]

/-- A task is signaled as done and settled, then deleted. -/
def State.close (s : State) (i : Thread) (a : Addr) (state : TaskState) (cause : Option Nat) : State :=
  (s.setTask a fun task => { task with doneState := .kSignaled, detach := true }).settle i a state cause true

theorem runs_close {state : TaskState} {cause : Option Nat} :
    Runs program (do
      markDetachedAndComplete a true
      setTaskState i a state cause true
      deleteTask a cause) s u t ↔
      Runs program (deleteTask a cause) (s.close i a state cause) u t := by
  simp only [markDetachedAndComplete, if_true, signalDone, storeDetach, storeTask, setTaskState,
    runs_bind_assoc, runs_store_bind, setTask_setTask, State.close]

theorem runs_actOnCqe_cancels (cancelled : (s.task e.task).isCancel = true) :
    Runs program (actOnCqe e res) s u t ↔
      Runs program (deleteTask e.task (some e.submission))
        (s.close .loop e.task .kCanceled (some e.submission)) u t := by
  simp only [actOnCqe, loadTask, runs_load_bind, cancelled, if_true]
  exact runs_close

theorem runs_handleTimeoutTask (acts : TaskState.Live (s.task a).taskState) :
    Runs program (handleTimeoutTask a k) s u t ↔
      Runs program (deleteTask a (some k))
        ((s.setTask a fun task => { task with debugStr := "timed out" }).close .loop a .kTimeout (some k)) u t := by
  simp only [handleTimeoutTask, loadTask, runs_load_bind, if_pos acts, setDebugStr, storeTask,
    runs_store_bind]
  exact runs_close

theorem runs_handleCancelEvent :
    Runs program (handleCancelEvent a) s u t ↔
      t = s.setTask a fun task => { task with isCancel := true, debugStr := "cancelled" } := by
  simp only [handleCancelEvent, setDebugStr, storeTask, runs_store_bind, runs_store, setTask_setTask]

/-- The completion's result in the task's buffer. -/
def State.deliver (s : State) (a : Addr) (res : Int) : State :=
  s.setTask a fun task => { task with
    buffer := { task.buffer with bytesTransferred := res, activeFileDescriptor := task.fd } }

theorem runs_handleNormalEvent_succeeds (success : 0 ≤ res) :
    Runs program (handleNormalEvent a k res) s u t ↔ ∃ middle,
      Runs program (executeCompletionHandler a) (s.deliver a res) () middle ∧
        Runs program (finishSuccess a k res) middle u t := by
  simp only [handleNormalEvent, setResult, storeTask, runs_store_bind, if_neg (Int.not_lt.mpr success)]
  exact runs_unit_bind

theorem runs_handleNormalEvent_fails (failure : res < 0) (again : res ≠ -EAGAIN)
    (uncancelled : res ≠ -ECANCELED) :
    Runs program (handleNormalEvent a k res) s u t ↔
      ∃ r, Runs program (program (.handleFailedTask a (some k))) (s.deliver a res) r t := by
  simp only [handleNormalEvent, setResult, storeTask, runs_store_bind, if_pos failure, if_neg again,
    if_neg uncancelled, runs_enter_bind, runs_pure]
  constructor
  · rintro ⟨r, middle, run, -, rfl⟩
    exact ⟨r, run⟩
  · rintro ⟨r, run⟩
    exact ⟨r, t, run, trivial, rfl⟩

/-- An operation that the kernel cancelled ends without its handler being called,
as a timeout if the task has one. -/
theorem runs_handleNormalEvent_canceled (acts : TaskState.Live (s.task a).taskState) :
    Runs program (handleNormalEvent a k (-ECANCELED)) s u t ↔
      Runs program (deleteTask a (some k))
        (if 0 < (s.task a).timeoutMs then
          ((s.deliver a (-ECANCELED)).setTask a fun task => { task with debugStr := "timed out" }).close
            .loop a .kTimeout (some k)
        else
          ((s.deliver a (-ECANCELED)).setTask a fun task => { task with debugStr := "cancelled by kernel" }).close
            .loop a .kCanceled (some k)) u t := by
  have failure : (-ECANCELED : Int) < 0 := by decide
  have other : (-ECANCELED : Int) ≠ -EAGAIN := by decide
  simp only [handleNormalEvent, setResult, storeTask, runs_store_bind, if_pos failure, if_neg other,
    if_true, loadTask, runs_load_bind, setTask_task_self]
  split
  · rw [runs_handleTimeoutTask (by rw [setTask_task_self]; exact acts)]
    rfl
  · simp only [setDebugStr, storeTask, runs_store_bind]
    exact runs_close

/-- `MarkDetachedAndComplete(true)` -/
def State.detached (s : State) (a : Addr) : State :=
  s.setTask a fun task => { task with doneState := .kSignaled, detach := true }

theorem runs_repeatOrDetach_once :
    Runs program (repeatOrDetach a false) s u t ↔ t = s.setTask a fun task => { task with detach := true } := by
  simp only [repeatOrDetach, Bool.false_eq_true, if_false, storeDetach, storeTask, runs_store]

/-- At the end of the file a one-shot task without a successor is closed. -/
theorem runs_finishSuccess_closes (once : (s.task a).repeatForever = false) (last : (s.task a).next = none)
    (run : Runs program (finishSuccess a k 0) s u t) :
    ∃ v, (v = s ∧ (s.task a).fd ≤ 0 ∨ 0 < (s.task a).fd ∧
        v = (s.record (.closed (s.task a).fd)).setTask a fun task => { task with fd := -1 }) ∧
      Runs program (deleteTask a (some k)) (v.close .loop a .kSuccess (some k)) u t := by
  have closes : ¬ (s.task a).repeatForever = true ∧ (s.task a).next = none := ⟨by simp [once], last⟩
  simp only [finishSuccess, if_true, finishEmpty, loadTask, runs_load_bind, if_pos closes] at run
  obtain ⟨v, closed, run⟩ := runs_unit_bind.mp run
  refine ⟨v, ?_, runs_close.mp run⟩
  simp only [closeFd, loadTask, storeTask, runs_load_bind] at closed
  split at closed
  · next open_ =>
    simp only [runs_store_bind, runs_store] at closed
    exact Or.inr ⟨open_, closed⟩
  · next shut => exact Or.inl ⟨(runs_pure.mp closed).2, Int.not_lt.mp shut⟩

/-- Every other success settles the task and submits again; a task that has
transferred something may be detached at the end. -/
theorem runs_finishSuccess_settles
    (goesOn : res = 0 → (s.task a).repeatForever = true ∨ (s.task a).next.isSome = true)
    (run : Runs program (finishSuccess a k res) s u t) :
    ∃ v w, Runs program (repeatOrDetach a (s.task a).repeatForever)
        (s.settle .loop a .kSuccess (some k) false) () v ∧
      Runs program (submitNext a) v () w ∧ (t = w ∨ t = w.detached a) := by
  unfold finishSuccess at run
  split at run
  · rename_i empty
    have follows : ¬ (¬ (s.task a).repeatForever = true ∧ (s.task a).next = none) := by
      rintro ⟨once, last⟩
      simpa [once, last] using goesOn empty
    simp only [finishEmpty, loadTask, runs_load_bind, if_neg follows, setTaskState, runs_store_bind] at run
    obtain ⟨v, repeated, next⟩ := runs_unit_bind.mp run
    refine ⟨v, t, ?_, next, Or.inl rfl⟩
    simpa [State.settle] using repeated
  · simp only [finishTransfer, loadTask, runs_load_bind, setTaskState, runs_store_bind] at run
    obtain ⟨v, repeated, run⟩ := runs_unit_bind.mp run
    obtain ⟨w, next, run⟩ := runs_unit_bind.mp run
    refine ⟨v, w, repeated, next, ?_⟩
    simp only [runs_load_bind] at run
    split at run
    · simp only [markDetachedAndComplete, if_true, signalDone, storeDetach, storeTask, runs_store_bind,
        runs_store, setTask_setTask] at run
      exact Or.inr run
    · exact Or.inl (runs_pure.mp run).2

/-- `++try_count_` -/
def State.retried (s : State) (a : Addr) : State :=
  s.setTask a fun task => { task with tryCount := task.tryCount + 1 }

/-- As long as the count is below the limit, the task goes back to ready and
through `AddTask`. -/
theorem runs_handleFailedTask_retries {cause : Option Nat} {r : Bool}
    (more : (s.task a).tryCount + 1 < (s.task a).maxRetryCount)
    (run : Runs (code i) (code i (.handleFailedTask a cause)) s r t) :
    ∃ r', Runs (code i) (addTask i a) ((s.retried a).settle i a .kReady cause false) r' t := by
  simp only [code, loadTask, runs_exchange_bind, runs_load_bind, setTask_task_self, if_pos more,
    setTaskState, runs_store_bind, runs_enter_bind, runs_pure] at run
  obtain ⟨r', last, added, -, rfl⟩ := run
  exact ⟨r', added⟩

/-- Otherwise the handler is called and the task is closed as failed. -/
theorem runs_handleFailedTask_fails {cause : Option Nat} {r : Bool}
    (last : (s.task a).maxRetryCount ≤ (s.task a).tryCount + 1)
    (run : Runs (code i) (code i (.handleFailedTask a cause)) s r t) :
    ∃ returned, Runs (code i) (executeCompletionHandler a) (s.retried a) () returned ∧
      Runs (code i) (deleteTask a cause)
        ((returned.setTask a fun task => { task with
          debugStr := "failed after " ++ toString ((s.task a).tryCount + 1) ++ " retries"
          tryCount := 0 }).close i a .kFailed cause) () t := by
  simp only [code, loadTask, runs_exchange_bind, runs_load_bind, setTask_task_self,
    if_neg (Int.not_lt.mpr last)] at run
  obtain ⟨returned, handled, run⟩ := runs_unit_bind.mp run
  simp only [setDebugStr, storeTask, markDetachedAndComplete, if_true, signalDone, storeDetach,
    setTaskState, runs_bind_assoc, runs_store_bind, setTask_setTask] at run
  obtain ⟨last, deleted, ended⟩ := runs_unit_bind.mp run
  obtain ⟨-, rfl⟩ := runs_pure.mp ended
  refine ⟨returned, handled, ?_⟩
  simpa only [State.close, setTask_setTask] using deleted

/-- A task whose latest submission is `k` is not owned by code that `AddTask`
or a handler runs: the gate gives every task it lets through a new number. -/
def Lapsed (a : Addr) (k : Nat) (b : Addr) (s : State) : Prop := b = a → s.current a ≠ some k

theorem lapsed_keep {need : Option Addr} {b : Addr} (fresh : k < s.submissions) (lapsed : Lapsed a k b s)
    (moved : Move i need s t) : Lapsed a k b t := by
  intro same
  cases moved with
  | @gate s' c opened =>
    by_cases here : a = c
    · subst here
      simp only [State.gate, Function.update_self]
      intro number
      exact absurd (Option.some.inj number) (Nat.ne_of_gt fresh)
    · simpa [State.gate, here] using lapsed same
  | @create s' c config =>
    by_cases here : a = c
    · subst here
      simp [State.create]
    · simpa [State.create, here] using lapsed same
  | _ => exact lapsed same

theorem lapsed_gain (b : Addr) (fresh : k < s.submissions) : Lapsed a k b (s.gate i b) := by
  rintro rfl number
  simp only [State.gate, Function.update_self, Option.some.injEq] at number
  omega

theorem submissions_mono {need : Option Addr} (fresh : k < s.submissions) (moved : Move i need s t) :
    k < t.submissions := by
  cases moved with
  | gate => exact Nat.lt_succ_of_lt fresh
  | _ => exact fresh

/-- Only calls of the handler of an owned task are recorded. -/
theorem calls_move {need : Option Addr} (owned : ∀ b, need = some b → Lapsed a k b s)
    (moved : Move i need s t) : t.calls a k = s.calls a k := by
  cases moved with
  | @handled b _ bytes =>
    have other : ¬ (b = a ∧ s.current b = some k) := by
      rintro ⟨rfl, current⟩
      exact owned b rfl rfl current
    simp [State.calls, State.record, Event.call, other]
  | _ => rfl

theorem endings_move {need : Option Addr} (owned : ∀ b, need = some b → Lapsed a k b s)
    (moved : Move i need s t) : t.endings a k = s.endings a k := by
  cases moved with
  | @settle b _ state cause dooms =>
    have other : ¬ (b = a ∧ s.liveSubmission b = some k) := by
      rintro ⟨rfl, live⟩
      refine owned b rfl rfl ?_
      unfold State.liveSubmission at live
      split at live
      · contradiction
      · exact live
    simp [State.endings, State.settle, Event.ending, other]
  | _ => rfl

/-- The handler is not called again for an earlier submission. -/
theorem calls_frame (past : List Int) :
    Frame i (fun s => k < s.submissions ∧ s.calls a k = past) (Lapsed a k) where
  step holds owned moved _ :=
    ⟨submissions_mono holds.1 moved, (calls_move owned moved).trans holds.2⟩
  keep holds lapsed moved _ := lapsed_keep holds.1 lapsed moved
  gain holds _ := lapsed_gain _ holds.1

/-- Nothing more happens to an earlier submission. -/
theorem outcome_frame (past : List Int) (ends : List TaskState) :
    Frame i (fun s => k < s.submissions ∧ s.calls a k = past ∧ s.endings a k = ends) (Lapsed a k) where
  step holds owned moved _ := ⟨submissions_mono holds.1 moved,
    (calls_move owned moved).trans holds.2.1, (endings_move owned moved).trans holds.2.2⟩
  keep holds lapsed moved _ := lapsed_keep holds.1 lapsed moved
  gain holds _ := lapsed_gain _ holds.1

theorem calls_of_frames {α : Type} {p : Code α} {r : α} (owned : List Addr) (fresh : k < s.submissions)
    (lapsed : ∀ b ∈ owned, Lapsed a k b s)
    (frames : Frames i (fun u => k < u.submissions ∧ u.calls a k = s.calls a k) (Lapsed a k) owned p)
    (run : Runs (code i) p s r t) : k < t.submissions ∧ t.calls a k = s.calls a k :=
  (frames.sound (frame_verified (calls_frame _)) run ⟨⟨fresh, rfl⟩, lapsed⟩).1

theorem calls_close {state : TaskState} {cause : Option Nat}
    (run : Runs (code i) (deleteTask a cause) (s.close i a state cause) u t) :
    t.submissions = s.submissions ∧ ∀ b, t.calls b k = s.calls b k := by
  have deletes := deletes_of_deleteTask run
  exact ⟨deletes.submissions, fun b => deletes.calls b k⟩

/-- The handler is not called again after it has returned from a success. -/
theorem calls_finishSuccess (fresh : k < s.submissions) (run : Runs (code .loop) (finishSuccess a k res) s u t) :
    k < t.submissions ∧ t.calls a k = s.calls a k := by
  by_cases closes : res = 0 ∧ (s.task a).repeatForever = false ∧ (s.task a).next = none
  · obtain ⟨rfl, once, last⟩ := closes
    obtain ⟨v, closed, deleted⟩ := runs_finishSuccess_closes once last run
    obtain ⟨submissions, calls⟩ := calls_close (k := k) deleted
    rw [submissions, calls a]
    obtain ⟨rfl, -⟩ | ⟨-, rfl⟩ := closed
    · exact ⟨fresh, rfl⟩
    · exact ⟨fresh, rfl⟩
  · have goesOn : res = 0 → (s.task a).repeatForever = true ∨ (s.task a).next.isSome = true := by
      intro empty
      by_contra neither
      simp only [not_or, Bool.not_eq_true, Option.isSome_eq_false_iff, Option.isNone_iff_eq_none] at neither
      exact closes ⟨empty, neither⟩
    obtain ⟨v, w, repeated, next, same⟩ := runs_finishSuccess_settles goesOn run
    have first := calls_of_frames (a := a) [] (by exact fresh) (by simp) (frames_repeatOrDetach (calls_frame _) _) repeated
    have second := calls_of_frames (a := a) [] first.1 (by simp) (frames_submitNext (calls_frame _)) next
    have both : k < w.submissions ∧ w.calls a k = s.calls a k := ⟨second.1, second.2.trans first.2⟩
    obtain rfl | rfl := same
    · exact both
    · exact both

/-- The completion of a timeout never calls the handler. -/
theorem calls_dispatchCqe_timeout (fresh : k < s.submissions) (timeout : e.flag = .kTimeout)
    (run : Runs (code .loop) (dispatchCqe e res) s u t) :
    k < t.submissions ∧ t.calls a k = s.calls a k := by
  by_cases acts : TaskState.Live (s.task e.task).taskState
  · obtain ⟨last, acted, rfl⟩ := (runs_dispatchCqe_acts acts).mp run
    cases cancelled : (s.task e.task).isCancel with
    | true =>
      obtain ⟨submissions, calls⟩ := calls_close (k := k) ((runs_actOnCqe_cancels (by exact cancelled)).mp acted)
      exact ⟨submissions ▸ fresh, calls a⟩
    | false =>
      have handled := (runs_actOnCqe_handles (by exact cancelled)).mp acted
      unfold handleEvent at handled
      rw [timeout] at handled
      obtain ⟨submissions, calls⟩ := calls_close (k := k) ((runs_handleTimeoutTask (by exact acts)).mp handled)
      exact ⟨submissions ▸ fresh, calls a⟩
  · obtain rfl := (runs_dispatchCqe_skips acts).mp run
    exact ⟨fresh, rfl⟩

/-- A completion that finds a later submission does nothing to submission `k`. -/
theorem outcome_dispatchCqe_lapsed (fresh : k < s.submissions) (lapsed : Lapsed a k e.task s)
    (run : Runs (code .loop) (dispatchCqe e res) s u t) :
    t.calls a k = s.calls a k ∧ t.endings a k = s.endings a k := by
  have frame := outcome_frame (i := .loop) (a := a) (k := k) (s.calls a k) (s.endings a k)
  have frames : Frames .loop _ _ [e.task] _ := frames_dispatchCqe frame List.mem_cons_self res
  exact (frames.sound (frame_verified frame) run ⟨⟨fresh, rfl, rfl⟩, by simpa using lapsed⟩).1.2

end Talon.Handler
