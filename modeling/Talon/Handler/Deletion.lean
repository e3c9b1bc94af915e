import Talon.Handler.Resubmission

/-! How often a task is deleted for a submission, and which completions of the
submission still come after that. -/
namespace Talon.Handler
open Interleaving

/-- The submission that the task at `a` is in, or was in last. -/
def latest (a : Addr) : List Event → Option Nat
  | [] => none
  | .gated b n :: past => if b = a then some n else latest a past
  | .created b :: past => if b = a then none else latest a past
  | _ :: past => latest a past

/-- The calls of `DeleteTask` on the task of submission `k`. -/
def deletions (a : Addr) (k : Nat) : List Event → Nat
  | [] => 0
  | .destroyed b inherited _ _ :: past =>
      if b = a ∧ inherited = false ∧ latest a past = some k then deletions a k past + 1 else deletions a k past
  | _ :: past => deletions a k past

/-- The completions of submission `k` that were dispatched after such a call. -/
def strays (a : Addr) (k : Nat) : List Event → Nat
  | [] => 0
  | .found e _ :: past =>
      if e.task = a ∧ e.submission = k ∧ deletions a k past ≠ 0 then strays a k past + 1 else strays a k past
  | _ :: past => strays a k past

/-- The task has been deleted once, and none of its completions was dispatched
afterwards. -/
structure DeletedOnce (a : Addr) (k : Nat) (s : State) : Prop where
  once : deletions a k s.log = 1
  last : strays a k s.log = 0

/-- The task of submission `k` has not been deleted. -/
structure Undeleted (a : Addr) (k : Nat) (s : State) : Prop where
  fresh : k < s.submissions
  recorded : latest a s.log = s.current a
  kept : deletions a k s.log = 0
  clean : strays a k s.log = 0

/-- Between two dispatches of completions of submission `k`: nothing that acts on
the submission or deletes its task. -/
structure Apart (a : Addr) (k : Nat) (s t : State) : Prop extends Elsewhere a k s t where
  recorded : latest a s.log = s.current a → latest a t.log = t.current a
  deletions : deletions a k t.log = deletions a k s.log
  strays : strays a k t.log = strays a k s.log

/-- The operation's completion is dispatched to a one-shot task, `chained` if it
has a successor when its handler returns. User code does not give away the
storage of a task that is being dispatched. -/
inductive Operates (a : Addr) (k : Nat) : EventFlag → Int → Bool → State → State → Prop where
  | succeeds (run : Succeeds a k res s m t) (once : (m.task a).repeatForever = false)
      (kept : m.current a = some k) : Operates a k .kNone res (m.task a).next.isSome s t
  | fails (run : Dispatches ⟨a, flag, k⟩ res s t)
      (failure : flag = .kError ∨ flag = .kNone ∧ res < 0 ∧ res ≠ -EAGAIN)
      (kept : t.current a = some k) : Operates a k flag res chained s t

/-- The completions of a one-shot task's submission, in any order. -/
inductive Concludes (a : Addr) (k : Nat) : Order → Bool → State → State → Prop where
  | unqueued (apart : Apart a k s t) : Concludes a k .unqueued chained s t
  | alone (apart : Apart a k s before) (op : Operates a k flag res chained before t) :
      Concludes a k (.alone flag res) chained s t
  | opFirst (apart : Apart a k s before) (op : Operates a k flag res chained before between)
      (waits : Apart a k between later) (timeout : Dispatches ⟨a, .kTimeout, k⟩ timeoutRes later t) :
      Concludes a k (.opFirst flag res timeoutRes) chained s t
  | timeoutFirst (apart : Apart a k s before)
      (timeout : Dispatches ⟨a, .kTimeout, k⟩ timeoutRes before between)
      (waits : Apart a k between later) (op : Dispatches ⟨a, flag, k⟩ res later t) :
      Concludes a k (.timeoutFirst flag res timeoutRes) chained s t

/-- There is no timeout, and the operation failed or found the end of the file
with nothing to follow. -/
def Order.Deletes (chained : Bool) : Order → Prop
  | .unqueued => True
  | .alone flag res => flag = .kError ∨ res < 0 ∨ res = 0 ∧ chained = false
  | .opFirst _ _ _ | .timeoutFirst _ _ _ => False

instance (chained : Bool) : DecidablePred (Order.Deletes chained)
  | .unqueued => inferInstanceAs (Decidable True)
  | .alone flag res => inferInstanceAs (Decidable (flag = .kError ∨ res < 0 ∨ res = 0 ∧ chained = false))
  | .opFirst _ _ _ | .timeoutFirst _ _ _ => inferInstanceAs (Decidable False)

variable {i : Thread} {a b : Addr} {k : Nat} {res : Int} {flag : EventFlag} {s t m middle accepted : State}
  {u : Unit}

theorem Undeleted.not_deletedOnce (undeleted : Undeleted a k s) : ¬ DeletedOnce a k s := by
  intro deleted
  exact absurd (undeleted.kept.symm.trans deleted.once) nofun

/-! ### What code that does not own the task leaves alone -/

theorem Undeleted.move {need : Option Addr} (undeleted : Undeleted a k s)
    (owned : ∀ b, need = some b → Lapsed a k b s) (moved : Move i need s t) : Undeleted a k t := by
  obtain ⟨fresh, recorded, kept, clean⟩ := undeleted
  cases moved with
  | @gate _ b opened =>
    refine ⟨Nat.lt_succ_of_lt fresh, ?_, kept, clean⟩
    by_cases here : b = a
    · subst here
      simp [State.gate, latest]
    · simpa [State.gate, latest, here, Ne.symm here] using recorded
  | @create _ b config =>
    refine ⟨fresh, ?_, kept, clean⟩
    by_cases here : b = a
    · subst here
      simp [State.create, latest]
    · simpa [State.create, latest, here, Ne.symm here] using recorded
  | inherit =>
    refine ⟨fresh, recorded, ?_, clean⟩
    simpa [State.destroy, deletions] using kept
  | @destroy b =>
    refine ⟨fresh, recorded, ?_, clean⟩
    have other : ¬ (b = a ∧ latest a s.log = some k) := by
      rintro ⟨rfl, last⟩
      exact owned b rfl rfl (recorded.symm.trans last)
    simpa [State.destroy, deletions, other] using kept
  | find =>
    refine ⟨fresh, recorded, kept, ?_⟩
    simpa [State.find, strays, kept] using clean
  | _ => exact ⟨fresh, recorded, kept, clean⟩

theorem undeleted_frame : Frame i (Undeleted a k) (Lapsed a k) where
  step undeleted owned moved _ := undeleted.move owned moved
  keep undeleted lapsed moved _ := lapsed_keep undeleted.fresh lapsed moved
  gain undeleted _ := lapsed_gain _ undeleted.fresh

theorem Undeleted.frames {α : Type} {p : Code α} {r : α} (undeleted : Undeleted a k s) (owned : List Addr)
    (lapsed : ∀ b ∈ owned, Lapsed a k b s) (frames : Frames i (Undeleted a k) (Lapsed a k) owned p)
    (run : Runs (code i) p s r t) : Undeleted a k t :=
  (frames.sound (frame_verified undeleted_frame) run ⟨undeleted, lapsed⟩).1

theorem Finished.setTask {f : Task → Task} (finished : Finished a k s)
    (kept : (f (s.task b)).taskState = (s.task b).taskState) : Finished a k (s.setTask b f) := by
  refine ⟨finished.1, fun current => ?_⟩
  by_cases here : a = b
  · subst here
    rw [setTask_task_self, kept]
    exact finished.2 current
  · rw [setTask_task_of_ne here]
    exact finished.2 current

/-- A state that the owner of another task stores. -/
theorem Finished.store {f : Task → Task} (finished : Finished a k s) (lapsed : Lapsed a k b s) :
    Finished a k (s.setTask b f) := by
  refine ⟨finished.1, fun current => ?_⟩
  by_cases here : b = a
  · exact absurd current (lapsed here)
  · rw [setTask_task_of_ne (Ne.symm here)]
    exact finished.2 current

theorem Finished.move {need : Option Addr} (finished : Finished a k s)
    (owned : ∀ b, need = some b → Lapsed a k b s) (moved : Move i need s t) : Finished a k t := by
  refine ⟨submissions_mono finished.1 moved, ?_⟩
  cases moved with
  | setTask kept => exact (finished.setTask kept).2
  | inherit => exact (finished.setTask (f := fun task => { task with alive := false }) rfl).2
  | destroy => exact (finished.setTask (f := fun task => { task with alive := false }) rfl).2
  | @reject b => exact (finished.store (f := fun task => { task with taskState := .kReady }) (owned b rfl)).2
  | @settle b _ state => exact (finished.store (f := fun task => { task with taskState := state }) (owned b rfl)).2
  | @gate _ b opened =>
    intro current
    have lapsed : Lapsed a k b (s.gate i b) := lapsed_gain b finished.1
    by_cases here : b = a
    · exact absurd current (lapsed here)
    · have before : s.current a = some k := by simpa [State.gate, Ne.symm here] using current
      simpa [State.gate, Ne.symm here] using finished.2 before
  | @create _ b config =>
    intro current
    by_cases here : b = a
    · subst here
      simp [State.create] at current
    · have before : s.current a = some k := by simpa [State.create, Ne.symm here] using current
      simpa [State.create, Ne.symm here] using finished.2 before
  | _ => exact finished.2

theorem finished_frame : Frame i (Finished a k) (Lapsed a k) where
  step finished owned moved _ := finished.move owned moved
  keep finished lapsed moved _ := lapsed_keep finished.1 lapsed moved
  gain finished _ := lapsed_gain _ finished.1

/-- A task that has been settled and not deleted stays so until it is submitted
again or its storage is reused. -/
theorem stays_frame : Frame i (fun s => Undeleted a k s ∧ Finished a k s) (Lapsed a k) :=
  undeleted_frame.and finished_frame

theorem stays_of_frames {α : Type} {p : Code α} {r : α} (owned : List Addr)
    (stays : Undeleted a k s ∧ Finished a k s) (lapsed : ∀ b ∈ owned, Lapsed a k b s)
    (frames : Frames i (fun s => Undeleted a k s ∧ Finished a k s) (Lapsed a k) owned p)
    (run : Runs (code i) p s r t) : Undeleted a k t ∧ Finished a k t :=
  (frames.sound (frame_verified stays_frame) run ⟨stays, lapsed⟩).1

theorem strays_frame (floor : Nat) : Frame i (fun s => floor ≤ strays a k s.log) fun _ _ => True where
  step holds _ moved _ := by
    cases moved with
    | find =>
      simp only [State.find, strays]
      split
      · exact Nat.le_succ_of_le holds
      · exact holds
    | _ => exact holds
  keep _ _ _ _ := trivial
  gain _ _ := trivial

/-! ### Deletion -/

theorem Undeleted.deleted {cause : Option Nat} (undeleted : Undeleted a k s) (current : t.current a = some k)
    (run : Runs (code i) (deleteTask a cause) s u t) : DeletedOnce a k t := by
  simp only [deleteTask, runs_enter_bind, runs_pure] at run
  obtain ⟨r, last, run, -, rfl⟩ := run
  obtain ⟨m, inherited, run⟩ := runs_unit_bind.mp run
  simp only [runs_store_bind, runs_pure] at run
  obtain ⟨-, rfl⟩ := run
  obtain ⟨-, recorded, kept, clean⟩ := undeleted.frames [] (by simp) (frames_deleteNext cause) inherited
  have own : latest a m.log = some k := recorded.trans current
  refine ⟨?_, clean⟩
  simp [State.destroy, deletions, own, kept]

theorem Undeleted.closed {state : TaskState} {cause : Option Nat} (undeleted : Undeleted a k s)
    (current : t.current a = some k)
    (run : Runs (code i) (deleteTask a cause) (s.close i a state cause) u t) : DeletedOnce a k t := by
  have settled : Undeleted a k (s.close i a state cause) := { undeleted with }
  exact settled.deleted current run

theorem Undeleted.handler (undeleted : Undeleted a k s)
    (run : Runs (code i) (executeCompletionHandler b) s u t) : Undeleted a k t := by
  simp only [executeCompletionHandler, runs_store_bind, runs_enter_bind, runs_pure] at run
  obtain ⟨r, middle, run, -, rfl⟩ := run
  have called : Undeleted a k (s.record (.handled b (s.current b) (s.task b).buffer.bytesTransferred)) :=
    { undeleted with }
  exact called.frames [] (by simp) (frames_user undeleted_frame) run

/-- `HandleFailedTask` of a task without retries deletes it. -/
theorem Undeleted.failed {cause : Option Nat} {r : Bool} (undeleted : Undeleted a k s)
    (last : (s.task a).maxRetryCount ≤ (s.task a).tryCount + 1) (current : t.current a = some k)
    (run : Runs (code i) (code i (.handleFailedTask a cause)) s r t) : DeletedOnce a k t := by
  obtain ⟨returned, handled, deleted⟩ := runs_handleFailedTask_fails last run
  have retried : Undeleted a k (s.retried a) := { undeleted with }
  obtain ⟨fresh, recorded, kept, clean⟩ := retried.handler handled
  refine Undeleted.closed ?_ current deleted
  exact ⟨fresh, recorded, kept, clean⟩

/-- A completion that is dispatched after the deletion is one too many. -/
theorem stray_dispatches (deleted : deletions a k s.log ≠ 0) (run : Dispatches ⟨a, flag, k⟩ res s t) :
    ¬ DeletedOnce a k t := by
  have found : 1 ≤ strays a k ((s.take ⟨a, flag, k⟩).find ⟨a, flag, k⟩).log := by
    simp [State.find, State.take, strays, deleted]
  have more : 1 ≤ strays a k t.log := by
    by_cases acts : TaskState.Live ((s.take ⟨a, flag, k⟩).task a).taskState
    · obtain ⟨last, acted, rfl⟩ := (runs_dispatchCqe_acts (e := ⟨a, flag, k⟩) acts).mp run.2
      have frame : Frame .loop _ _ := strays_frame (i := .loop) (a := a) (k := k) 1
      have frames : Frames .loop _ _ [a] _ := frames_actOnCqe frame (e := ⟨a, flag, k⟩) List.mem_cons_self res
      exact (frames.sound (frame_verified frame) acted ⟨found, fun _ _ => trivial⟩).1
    · obtain rfl := (runs_dispatchCqe_skips (e := ⟨a, flag, k⟩) acts).mp run.2
      exact found
  intro once
  rw [once.last] at more
  exact Nat.not_succ_le_zero 0 more

/-! ### `AddTask` -/

/-- Nothing is recorded of submission `k` yet. -/
def Unused (a : Addr) (k : Nat) (s : State) : Prop := deletions a k s.log = 0 ∧ strays a k s.log = 0

theorem Unused.readied (unused : Unused a s.submissions s) : Undeleted a s.submissions (s.readied i a) := by
  refine ⟨Nat.lt_succ_self _, ?_, unused.1, unused.2⟩
  simp [State.readied, State.gate, State.reserve, State.setTask, latest]

theorem Undeleted.queueFailedTask (undeleted : Undeleted a s.submissions middle)
    (submitted : Submitted false s middle a) (retries : (s.task a).maxRetryCount ≤ 1)
    (current : t.current a = some s.submissions) (run : Runs (code i) (queueFailedTask a k) middle u t) :
    Undeleted a s.submissions t ∧ t.refused = middle.refused ∨
      DeletedOnce a s.submissions t ∧ middle.refused + 1 ≤ t.refused := by
  simp only [Handler.queueFailedTask, queueSqe, runs_atomic_bind, Option.some.injEq] at run
  obtain ⟨c, later, rfl, run⟩ := run
  cases sqe : c.sqe with
  | true =>
    simp only [sqe, if_true, autoFlush, runs_store] at run
    subst run
    exact Or.inl ⟨{ undeleted with }, rfl⟩
  | false =>
    simp only [sqe, Bool.false_eq_true, if_false, runs_enter_bind, runs_pure] at run
    obtain ⟨r, later, failed, -, rfl⟩ := run
    have refused := runs_refused [a]
      (frames_handleFailedTask (refused_frame _) List.mem_cons_self none) failed
    have same : Undeleted a s.submissions middle.refuse := { undeleted with }
    exact Or.inr ⟨same.failed (by exact submitted.exhausted retries) current failed, refused⟩

theorem Undeleted.submitTask (undeleted : Undeleted a s.submissions middle)
    (submitted : Submitted false s middle a) (retries : (s.task a).maxRetryCount ≤ 1)
    (supported : (middle.task a).supported) (current : t.current a = some s.submissions)
    (run : Runs (code i) (submitTask a k) middle u t) :
    Undeleted a s.submissions t ∧ t.refused < middle.refused + 2 ∨
      DeletedOnce a s.submissions t ∧ middle.refused + 2 ≤ t.refused := by
  simp only [Handler.submitTask, loadTask, runs_load_bind, if_pos supported, queueSqe,
    runs_atomic_bind, Option.some.injEq] at run
  obtain ⟨c, later, rfl, run⟩ := run
  cases sqe : c.sqe with
  | true =>
    simp only [sqe, if_true] at run
    have queued : Undeleted a s.submissions (middle.queue a .kNone k) := { undeleted with }
    have filled : Submitted false s (middle.queue a .kNone k) a :=
      submitted.of_eq ⟨_, _, _, rfl⟩ rfl (Nat.le_refl _) rfl rfl
    have refused := (filled.finishSqe run).2
    exact Or.inl ⟨queued.frames [] (by simp) (frames_finishSqe undeleted_frame) run, Nat.lt_succ_of_le refused⟩
  | false =>
    simp only [sqe, Bool.false_eq_true, if_false] at run
    have refused : Submitted false s middle.refuse a := submitted.of_eq ⟨_, _, _, rfl⟩ rfl (Nat.le_refl _) rfl rfl
    have same : Undeleted a s.submissions middle.refuse := { undeleted with }
    obtain ⟨queued, count⟩ | failed := same.queueFailedTask refused retries current run
    · exact Or.inl ⟨queued, count ▸ Nat.lt_succ_self _⟩
    · exact Or.inr failed

/-- An accepted task has not been deleted, unless both its SQEs were refused. -/
theorem Accepts.deletedOnce_or_undeleted (accepts : Accepts i a s t) (unused : Unused a s.submissions s)
    (retries : (s.task a).maxRetryCount ≤ 1) (current : t.current a = some s.submissions) :
    Undeleted a s.submissions t ∧ t.refused < s.refused + 2 ∨
      DeletedOnce a s.submissions t ∧ s.refused + 2 ≤ t.refused := by
  obtain ⟨room, reserved⟩ := (runs_addTask_true accepts.idle).mp accepts.run
  obtain ⟨middle, run, rfl⟩ := runs_submitReserved_readies.mp reserved
  have supported : ((s.readied i a).task a).supported := by
    simp only [State.readied, setTask_task_self]
    exact gated_supported accepts.supported
  obtain ⟨undeleted, refused⟩ | ⟨deleted, refused⟩ :=
    unused.readied.submitTask (submitted_readied accepts.tries) retries supported (by exact current) run
  · exact Or.inl ⟨{ undeleted with }, refused⟩
  · exact Or.inr ⟨{ deleted with }, refused⟩

/-! ### The completions of a one-shot task -/

theorem Undeleted.apart (undeleted : Undeleted a k s) (apart : Apart a k s t) : Undeleted a k t where
  fresh := Nat.lt_of_lt_of_le undeleted.fresh apart.fresh
  recorded := apart.recorded undeleted.recorded
  kept := apart.deletions.trans undeleted.kept
  clean := apart.strays.trans undeleted.clean

theorem DeletedOnce.apart (deleted : DeletedOnce a k s) (apart : Apart a k s t) : DeletedOnce a k t :=
  ⟨apart.deletions.trans deleted.once, apart.strays.trans deleted.last⟩

/-- The completion has been found. -/
theorem Undeleted.found (undeleted : Undeleted a k s) (e : Entry) : Undeleted a k ((s.take e).find e) := by
  have taken : Undeleted a k (s.take e) := { undeleted with }
  exact taken.move (i := .loop) (by simp) .find

theorem Undeleted.setTask {f : Task → Task} (undeleted : Undeleted a k s) : Undeleted a k (s.setTask b f) :=
  { undeleted with }

/-- A one-shot task is deleted only at the end of the file and without a
successor; otherwise it stays, settled. -/
theorem Undeleted.succeeds (undeleted : Undeleted a k s) (run : Succeeds a k res s m t)
    (once : (m.task a).repeatForever = false) (kept : m.current a = some k) :
    if res = 0 ∧ (m.task a).next = none then DeletedOnce a k t else Undeleted a k t ∧ Finished a k t := by
  have returned : Undeleted a k m := (undeleted.found ⟨a, .kNone, k⟩).setTask.handler run.handled
  obtain ⟨last, finished, rfl⟩ := run.finished
  split
  · rename_i closes
    obtain ⟨rfl, last⟩ := closes
    obtain ⟨v, closed, deleted⟩ := runs_finishSuccess_closes once last finished
    have undeleted : Undeleted a k v := by
      obtain ⟨rfl, -⟩ | ⟨-, rfl⟩ := closed
      · exact returned
      · exact { returned with }
    have current : v.current a = some k := by
      obtain ⟨rfl, -⟩ | ⟨-, rfl⟩ := closed
      · exact kept
      · exact kept
    have once := undeleted.closed ((congrFun (deletes_of_deleteTask deleted).current a).trans current) deleted
    exact { once with }
  · rename_i stays
    have goesOn : res = 0 → (m.task a).repeatForever = true ∨ (m.task a).next.isSome = true := by
      intro empty
      exact Or.inr (Option.isSome_iff_ne_none.mpr fun none_ => stays ⟨empty, none_⟩)
    obtain ⟨v, w, repeated, next, same⟩ := runs_finishSuccess_settles goesOn finished
    have settled : Undeleted a k (m.settle .loop a .kSuccess (some k) false) := { returned with }
    have finishes : Finished a k (m.settle .loop a .kSuccess (some k) false) := by
      refine ⟨returned.fresh, fun _ => ?_⟩
      simp [State.settle, TaskState.Live]
    have first := stays_of_frames [] ⟨settled, finishes⟩ (by simp) (frames_repeatOrDetach stays_frame _) repeated
    have second := stays_of_frames [] first (by simp) (frames_submitNext stays_frame) next
    have ended : Undeleted a k last ∧ Finished a k last := by
      obtain rfl | rfl := same
      · exact second
      · exact ⟨second.1.setTask, second.2.setTask rfl⟩
    exact ⟨{ ended.1 with }, ended.2⟩

/-- Every failure deletes the task. -/
theorem Undeleted.fails (undeleted : Undeleted a s.submissions middle) (submitted : Submitted false s middle a)
    (retries : (s.task a).maxRetryCount ≤ 1)
    (failure : flag = .kError ∨ flag = .kNone ∧ res < 0 ∧ res ≠ -EAGAIN)
    (run : Dispatches ⟨a, flag, s.submissions⟩ res middle t) (kept : t.current a = some s.submissions) :
    DeletedOnce a s.submissions t := by
  obtain ⟨last, handled, rfl⟩ := submitted.acts run
  have found := undeleted.found ⟨a, flag, s.submissions⟩
  have exhausted : ((((middle.take ⟨a, flag, s.submissions⟩).find ⟨a, flag, s.submissions⟩).deliver a res).task
      a).maxRetryCount ≤ ((((middle.take ⟨a, flag, s.submissions⟩).find ⟨a, flag, s.submissions⟩).deliver a res).task
      a).tryCount + 1 := by
    rw [State.deliver, setTask_task_self]
    exact submitted.exhausted retries
  suffices once : DeletedOnce a s.submissions last from { once with }
  rcases failure with rfl | ⟨rfl, failure, again⟩
  · simp only [handleEvent, handleErrorEvent, setResult, storeTask, runs_store_bind, runs_enter_bind,
      runs_pure] at handled
    obtain ⟨r, later, failed, -, rfl⟩ := handled
    exact Undeleted.failed found.setTask exhausted kept failed
  · by_cases canceled : res = -ECANCELED
    · subst canceled
      have deleted := (runs_handleNormalEvent_canceled (by exact submitted.live)).mp handled
      split at deleted
      · exact Undeleted.closed found.setTask.setTask kept deleted
      · exact Undeleted.closed found.setTask.setTask kept deleted
    · obtain ⟨r, failed⟩ := (runs_handleNormalEvent_fails failure again canceled).mp handled
      exact Undeleted.failed found.setTask exhausted kept failed

/-- The timeout's completion deletes a task that is still submitted. -/
theorem Undeleted.times_out (undeleted : Undeleted a s.submissions middle) (submitted : Submitted false s middle a)
    (run : Dispatches ⟨a, .kTimeout, s.submissions⟩ res middle t) : DeletedOnce a s.submissions t := by
  obtain ⟨last, handled, rfl⟩ := submitted.acts run
  have deleted := (runs_handleTimeoutTask (by exact submitted.live)).mp handled
  have kept : last.current a = some s.submissions :=
    (congrFun (deletes_of_deleteTask deleted).current a).trans submitted.current
  have once := Undeleted.closed (undeleted.found ⟨a, .kTimeout, s.submissions⟩).setTask kept deleted
  exact { once with }

/-- A completion that comes after the end of a task that stays does not delete it
for that submission. -/
theorem Undeleted.skips (undeleted : Undeleted a k s) (finished : Finished a k s)
    (run : Dispatches ⟨a, flag, k⟩ res s t) : Undeleted a k t := by
  by_cases current : s.current a = some k
  · obtain rfl := (runs_dispatchCqe_skips (e := ⟨a, flag, k⟩) (s := s.take ⟨a, flag, k⟩)
      (finished.2 current)).mp run.2
    exact undeleted.found ⟨a, flag, k⟩
  · have taken : Undeleted a k (s.take ⟨a, flag, k⟩) := { undeleted with }
    refine taken.frames [a] ?_ (frames_dispatchCqe undeleted_frame (e := ⟨a, flag, k⟩) List.mem_cons_self res) run.2
    intro b member
    cases List.mem_singleton.mp member
    exact fun _ => current

theorem Undeleted.operates {chained : Bool} (undeleted : Undeleted a s.submissions middle)
    (submitted : Submitted false s middle a) (retries : (s.task a).maxRetryCount ≤ 1)
    (op : Operates a s.submissions flag res chained middle t) :
    if flag = .kError ∨ res < 0 ∨ res = 0 ∧ chained = false then DeletedOnce a s.submissions t
    else Undeleted a s.submissions t ∧ Finished a s.submissions t := by
  cases op with
  | @succeeds _ _ m _ run once kept =>
    have outcome := undeleted.succeeds run once kept
    by_cases closes : res = 0 ∧ (m.task a).next = none
    · rw [if_pos closes] at outcome
      rw [if_pos (Or.inr (Or.inr ⟨closes.1, by simp [closes.2]⟩))]
      exact outcome
    · rw [if_neg closes] at outcome
      have stays : ¬ (EventFlag.kNone = .kError ∨ res < 0 ∨ res = 0 ∧ (m.task a).next.isSome = false) := by
        rintro (error | negative | ⟨empty, unchained⟩)
        · contradiction
        · exact Int.not_lt.mpr run.success negative
        · exact closes ⟨empty, by simpa using unchained⟩
      rw [if_neg stays]
      exact outcome
  | fails run failure kept =>
    have deletes : flag = .kError ∨ res < 0 ∨ res = 0 ∧ chained = false :=
      failure.imp_right fun negative => Or.inl negative.2.1
    rw [if_pos deletes]
    exact undeleted.fails submitted retries failure run kept

/-- An accepted one-shot task is deleted exactly once, with no completion after
that, if its operation has no timeout and fails or finds the end of the file with
nothing to follow. Otherwise it is not deleted at all, or too early. -/
theorem deleted_once_iff {order : Order} {chained : Bool} (accepts : Accepts i a s accepted)
    (retries : (s.task a).maxRetryCount ≤ 1) (unused : Unused a s.submissions s)
    (kept : accepted.current a = some s.submissions)
    (sqes : order = .unqueued ↔ s.refused + 2 ≤ accepted.refused)
    (concludes : Concludes a s.submissions order chained accepted t) :
    DeletedOnce a s.submissions t ↔ order.Deletes chained := by
  obtain ⟨undeleted, fewer⟩ | ⟨deleted, more⟩ := accepts.deletedOnce_or_undeleted unused retries kept
  · have submitted := accepts.submitted fewer
    cases concludes with
    | unqueued apart => exact absurd (sqes.mp rfl) (Nat.not_le_of_lt fewer)
    | alone apart op =>
      have outcome := (undeleted.apart apart).operates (submitted.elsewhere apart.toElsewhere) retries op
      split at outcome
      · rename_i deletes
        exact iff_of_true outcome deletes
      · rename_i stays
        exact iff_of_false outcome.1.not_deletedOnce stays
    | opFirst apart op waits timeout =>
      have outcome := (undeleted.apart apart).operates (submitted.elsewhere apart.toElsewhere) retries op
      refine iff_of_false ?_ id
      split at outcome
      · refine stray_dispatches ?_ timeout
        rw [(outcome.apart waits).once]
        exact Nat.one_ne_zero
      · have later := outcome.2.elsewhere waits.toElsewhere
        exact ((outcome.1.apart waits).skips later timeout).not_deletedOnce
    | timeoutFirst apart timeout waits op =>
      have once := (undeleted.apart apart).times_out (submitted.elsewhere apart.toElsewhere) timeout
      refine iff_of_false (stray_dispatches ?_ op) id
      rw [(once.apart waits).once]
      exact Nat.one_ne_zero
  · obtain rfl := sqes.mpr more
    cases concludes with
    | unqueued apart => exact iff_of_true (deleted.apart apart) trivial

theorem Apart.refl (a : Addr) (k : Nat) (s : State) : Apart a k s s :=
  ⟨.refl a k s, id, rfl, rfl⟩

/-- A read without a timeout. -/
def plainRead : Task := { taskType := .kRead, fd := 3, maxRetryCount := 1 }

def plainAccepted : State := (single plainRead).accept (.client 0) 1

theorem failed_read_deleted_once : DeletedOnce 1 0 (plainAccepted.dispatch ⟨1, .kNone, 0⟩ (-5)) := by
  have failed : Operates 1 0 .kNone (-5) false plainAccepted (plainAccepted.dispatch ⟨1, .kNone, 0⟩ (-5)) :=
    .fails (dispatches_dispatch (by decide +kernel)) (by decide) (by decide +kernel)
  exact (deleted_once_iff (accepts_single rfl) (by decide) ⟨rfl, rfl⟩ (by decide +kernel) (by decide +kernel)
    (.alone (.refl 1 0 plainAccepted) failed)).mpr (by decide)

/-- Its operation has read five bytes and its handler has returned. -/
def plainReturned : State :=
  let delivered := ((plainAccepted.take ⟨1, .kNone, 0⟩).find ⟨1, .kNone, 0⟩).deliver 1 5
  delivered.record (.handled 1 (delivered.current 1) (delivered.task 1).buffer.bytesTransferred)

theorem plain_succeeds : ∃ t, Succeeds 1 0 5 plainAccepted plainReturned t := by
  have ends : ((finishSuccess 1 0 5).eval (code .loop) 64 plainReturned).isSome = true := by decide +kernel
  obtain ⟨⟨v, last⟩, evaluated⟩ := Option.isSome_iff_exists.mp ends
  exact ⟨_, by decide +kernel, by decide +kernel, by decide +kernel, by decide,
    runs_executeCompletionHandler_silent .., last, runs_of_eval evaluated, rfl⟩

/-- A read that has transferred something is never deleted. -/
theorem transferred_read_leaks :
    ¬ ∀ (i : Thread) (a : Addr) (s accepted t : State) (order : Order) (chained : Bool), Accepts i a s accepted →
      (s.task a).maxRetryCount ≤ 1 → Unused a s.submissions s → accepted.current a = some s.submissions →
      (order = .unqueued ↔ s.refused + 2 ≤ accepted.refused) →
      Concludes a s.submissions order chained accepted t → DeletedOnce a s.submissions t := by
  intro claimed
  obtain ⟨t, succeeds⟩ := plain_succeeds
  have once : (plainReturned.task 1).repeatForever = false := by decide +kernel
  have kept : plainReturned.current 1 = some 0 := by decide +kernel
  have deleted := claimed _ 1 (single plainRead) plainAccepted t _ _ (accepts_single rfl) (by decide) ⟨rfl, rfl⟩
    (by decide +kernel) (by decide +kernel) (.alone (.refl 1 0 plainAccepted) (.succeeds succeeds once kept))
  have undeleted : Undeleted 1 0 plainAccepted :=
    ⟨by decide +kernel, by decide +kernel, by decide +kernel, by decide +kernel⟩
  have outcome := undeleted.succeeds succeeds once kept
  rw [if_neg (by decide)] at outcome
  exact outcome.1.not_deletedOnce deleted

end Talon.Handler
