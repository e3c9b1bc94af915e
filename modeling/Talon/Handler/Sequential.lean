import Talon.Handler.Frame

/-! Uninterrupted runs of `AddTask` in closed form. -/
namespace Talon.Handler
open Interleaving

variable {program : Procedure → Code Bool} {i : Thread} {a : Addr} {k : Nat} {s t : State}

@[simp] theorem setTask_setTask (s : State) (a : Addr) (f g : Task → Task) :
    (s.setTask a f).setTask a g = s.setTask a fun task => g (f task) := by
  simp only [State.setTask, Function.update_self, Function.update_idem]

@[simp] theorem setTask_task_self (s : State) (a : Addr) (f : Task → Task) :
    (s.setTask a f).task a = f (s.task a) := Function.update_self ..

@[simp] theorem setTask_task_of_ne {b : Addr} {f : Task → Task} (other : b ≠ a) : (s.setTask a f).task b = s.task b :=
  Function.update_of_ne other ..

theorem setTask_refused (s : State) (a : Addr) (f : Task → Task) : (s.setTask a f).refused = s.refused := rfl

/-- The limit leaves a slot. -/
def State.Room (s : State) : Prop := 0 < s.maxInflightOps → s.inflight < s.maxInflightOps

@[simp] theorem see_task (s : State) (a : Addr) : (s.see a).task = s.task := rfl

theorem see_reserve (s : State) (i : Thread) (a : Addr) (k : Nat) : (s.see a).reserve i a k = s.reserve i a k := by
  simp only [State.see, State.reserve, Function.update_idem]

theorem see_self {s : State} {a : Addr} (seen : s.seen a = some s.inflight) : s.see a = s := by
  simp only [State.see, ← seen, Function.update_eq_self]

/-- The loop of the backpressure gate, alone on the counter: spurious failures
only repeat it. -/
def slotContract (i : Thread) : Contract State Procedure Bool where
  A _ := State
  pre
    | .reserveSlot a _ cur, x, s => s = x ∧ s.seen a = some s.inflight ∧ cur = s.inflight
    | _, _, _ => False
  post
    | .reserveSlot a k _, x, r, t =>
        if x.inflight < x.maxInflightOps then r = true ∧ t = x.reserve i a k else r = false ∧ t = x
    | _, _, _, _ => True

theorem slot_verified : Verified sequential (slotContract i) (code i) := by
  intro f x s pre
  cases f with
  | reserveSlot a k cur =>
    obtain ⟨rfl, seen, rfl⟩ := pre
    refine wp_bind (wp_atomic ?_)
    rintro _ rfl c _ ⟨⟩ -
    refine ⟨trivial, ?_⟩
    rintro _ rfl
    split
    · next room =>
      refine wp_bind (wp_atomic ?_)
      rintro _ rfl c _ ⟨⟩ -
      refine ⟨trivial, ?_⟩
      rintro _ rfl
      cases spurious : c.spurious with
      | false =>
        simp only [and_true, Bool.false_eq_true, not_false_eq_true, decide_true, if_true]
        rintro _ rfl
        simp [slotContract, room]
      | true =>
        simp only [not_true_eq_false, and_false, decide_false, Bool.false_eq_true, if_false]
        apply wp_enter
        rintro _ rfl
        rw [see_self seen]
        refine ⟨s, ⟨rfl, seen, rfl⟩, fun r u reached => ?_⟩
        rintro _ rfl
        exact reached
    · next full =>
      rintro _ rfl
      simp [slotContract, full]
  | _ => exact pre.elim

theorem runs_reserveSlot {r : Bool} :
    Runs (code i) (code i (.reserveSlot a k s.inflight)) (s.see a) r t ↔
      if s.inflight < s.maxInflightOps then r = true ∧ t = s.reserve i a k else r = false ∧ t = s.see a := by
  constructor
  · intro run
    have outcome := run.sound slot_verified (fun _ _ => trivial)
      (slot_verified (.reserveSlot a k s.inflight) (s.see a) (s.see a)
        ⟨rfl, Function.update_self .., rfl⟩)
    simp only [slotContract, see_reserve] at outcome
    exact outcome
  · intro outcome
    simp only [code, runs_load_bind]
    split at outcome
    · next room =>
      obtain ⟨rfl, rfl⟩ := outcome
      rw [if_pos (by exact room)]
      simp only [casInflight, runs_atomic_bind]
      exact ⟨{}, _, rfl, by simp [State.see, State.reserve]⟩
    · next full =>
      rw [if_neg (by exact full)]
      exact runs_pure.mpr outcome

theorem runs_reserveInflight {r : Bool} :
    Runs (code i) (reserveInflight i a k) s r t ↔
      s.Room ∧ r = true ∧ t = s.reserve i a k ∨ ¬ s.Room ∧ r = false ∧ t = s.see a := by
  simp only [reserveInflight, runs_load_bind, State.Room]
  by_cases limited : 0 < s.maxInflightOps
  · by_cases room : s.inflight < s.maxInflightOps <;> simp [limited, room, runs_reserveSlot]
  · simp [limited]

theorem runs_tryTransitionToSubmitted {gate : Option Nat} :
    Runs program (tryTransitionToSubmitted i a) s gate t ↔
      if (s.task a).taskState = .kSubmitted then gate = none ∧ t = s
      else gate = some s.submissions ∧ t = s.gate i a := by
  simp only [tryTransitionToSubmitted, loadTask, runs_load_bind]
  split
  · simp
  · simp [and_comm]

theorem refused_frame (floor : Nat) : Frame i (fun s => floor ≤ s.refused) fun _ _ => True where
  step holds _ moved _ := by
    cases moved with
    | refuse => exact Nat.le_succ_of_le holds
    | _ => exact holds
  keep _ _ _ _ := trivial
  gain _ _ := trivial

/-- `io_uring_get_sqe` has returned null no less often than before. -/
theorem runs_refused {α : Type} {p : Code α} (owned : List Addr) {r : α}
    (frames : Frames i (fun u => s.refused ≤ u.refused) (fun _ _ => True) owned p)
    (run : Runs (code i) p s r t) : s.refused ≤ t.refused :=
  (frames.sound (frame_verified (refused_frame s.refused)) run
    ⟨Nat.le_refl _, fun _ _ => trivial⟩).1

/-- The operation's SQE and, for a task with a timeout, the linked one. -/
def State.fill (s : State) (a : Addr) (k : Nat) : State :=
  let queued := (s.queue a .kNone k).setTask a fun task => { task with userData := some a }
  if 0 < (s.task a).timeoutMs then queued.queueExtra ⟨a, .kTimeout, k⟩ (.linked a k) else queued

theorem runs_linkTimeout {u : Unit} :
    Runs program (linkTimeout a k) s u t ∧ t.refused = s.refused ↔
      t = if 0 < (s.task a).timeoutMs then s.queueExtra ⟨a, .kTimeout, k⟩ (.linked a k) else s := by
  simp only [linkTimeout, loadTask, runs_load_bind]
  split
  · simp only [queueExtraSqe, runs_atomic_bind, runs_pure, true_and, Option.some.injEq]
    constructor
    · rintro ⟨⟨c, middle, stepped, rfl⟩, refused⟩
      cases sqe : c.sqe with
      | true => simp [← stepped, sqe]
      | false => simp [← stepped, sqe, State.refuse] at refused
    · rintro rfl
      exact ⟨⟨{}, _, rfl, rfl⟩, rfl⟩
  · simp only [runs_pure, true_and, and_iff_left_iff_imp]
    rintro rfl
    rfl

theorem runs_finishSqe {u : Unit} :
    Runs program (finishSqe a k) s u t ∧ t.refused = s.refused ↔
      t = (let queued := s.setTask a fun task => { task with userData := some a }
        if 0 < (s.task a).timeoutMs then queued.queueExtra ⟨a, .kTimeout, k⟩ (.linked a k) else queued) := by
  simp only [finishSqe, storeTask, runs_store_bind]
  rw [← setTask_refused s a fun task => { task with userData := some a }, runs_linkTimeout,
    setTask_task_self]

theorem runs_submitTask (supported : (s.task a).supported) {u : Unit} :
    Runs (code i) (submitTask a k) s u t ∧ t.refused = s.refused ↔ t = s.fill a k := by
  simp only [submitTask, loadTask, runs_load_bind, if_pos supported, queueSqe, runs_atomic_bind,
    Option.some.injEq]
  constructor
  · rintro ⟨⟨c, middle, rfl, run⟩, refused⟩
    cases sqe : c.sqe with
    | true =>
      rw [sqe] at run
      exact runs_finishSqe.mp ⟨run, refused⟩
    | false =>
      rw [sqe] at run
      have more := runs_refused [a]
        (frames_queueFailedTask (refused_frame _) List.mem_cons_self) run
      simp only [Bool.false_eq_true, if_false, State.refuse] at more
      omega
  · rintro rfl
    have finished : Runs (code i) (finishSqe a k) (s.queue a .kNone k) u (s.fill a k) ∧ _ :=
      runs_finishSqe.mpr rfl
    exact ⟨⟨{}, s.queue a .kNone k, rfl, finished.1⟩, finished.2⟩

theorem setTask_eq_self {f : Task → Task} (same : f (s.task a) = s.task a) : s.setTask a f = s := by
  simp only [State.setTask, same, Function.update_eq_self]

theorem runs_resetTryCount {u : Unit} :
    Runs program (resetTryCount a) s u t ↔
      t = s.setTask a fun task =>
        { task with tryCount := if 0 < task.maxRetryCount then 0 else task.tryCount } := by
  simp only [resetTryCount, loadTask, storeTask, runs_load_bind]
  split
  · next retries => simp only [runs_store, State.setTask, if_pos retries]
  · next once =>
    rw [runs_pure, setTask_eq_self (by simp only [if_neg once])]
    simp

/-- The fields that `AddTask` resets once it has a slot. -/
def Task.readied (task : Task) : Task :=
  { task with
    detach := false, isCancel := false, doneState := .kIdle
    tryCount := if 0 < task.maxRetryCount then 0 else task.tryCount }

theorem runs_submitReserved_readies {u : Unit} :
    Runs (code i) (submitReserved a k) s u t ↔ ∃ middle,
      Runs (code i) (submitTask a k) (s.setTask a Task.readied) () middle ∧ t = middle.submit := by
  simp only [submitReserved, markDetachedAndComplete, Bool.false_eq_true, if_false, storeDetach,
    storeTask, runs_store_bind, runs_bind_of_iff fun _ _ => runs_resetTryCount, setTask_setTask,
    autoFlush]
  rw [runs_unit_bind]
  simp only [runs_store]
  exact Iff.rfl

theorem runs_submitReserved (supported : (s.task a).supported) {u : Unit} :
    Runs (code i) (submitReserved a k) s u t ∧ t.refused = s.refused ↔
      t = ((s.setTask a Task.readied).fill a k).submit := by
  have filled (middle : State) := runs_submitTask (i := i) (k := k) (u := ()) (a := a) (t := middle)
    (s := s.setTask a Task.readied) (by rw [setTask_task_self]; exact supported)
  rw [runs_submitReserved_readies]
  constructor
  · rintro ⟨⟨middle, run, rfl⟩, refused⟩
    rw [(filled middle).mp ⟨run, refused⟩]
  · rintro rfl
    obtain ⟨run, refused⟩ := (filled _).mpr rfl
    exact ⟨⟨_, run, rfl⟩, refused⟩

/-- `AddTask` accepts the task and finds SQEs for it. -/
def State.accept (s : State) (i : Thread) (a : Addr) : State :=
  ((((s.gate i a).reserve i a s.submissions).setTask a Task.readied).fill a s.submissions).submit

theorem fill_task (s : State) (a : Addr) (k : Nat) :
    (s.fill a k).task = Function.update s.task a { s.task a with userData := some a } := by
  unfold State.fill
  split <;> rfl

theorem accept_task_self :
    (s.accept i a).task a =
      { (s.task a).readied with taskState := .kSubmitted, userData := some a } := by
  change ((((s.gate i a).reserve i a s.submissions).setTask a Task.readied).fill a s.submissions).task a = _
  rw [fill_task, Function.update_self, setTask_task_self]
  simp [State.gate, State.reserve, Task.readied]

theorem accept_task_of_ne {b : Addr} (other : b ≠ a) : (s.accept i a).task b = s.task b := by
  change ((((s.gate i a).reserve i a s.submissions).setTask a Task.readied).fill a s.submissions).task b = _
  rw [fill_task, Function.update_of_ne other]
  simp [State.gate, State.reserve, State.setTask, other]

theorem runs_addTask_idle (idle : (s.task a).taskState ≠ .kSubmitted) {r : Bool} :
    Runs (code i) (addTask i a) s r t ↔
      Runs (code i) (addGated i a s.submissions) (s.gate i a) r t := by
  simp only [addTask, runs_bind, runs_tryTransitionToSubmitted, if_neg idle]
  constructor
  · rintro ⟨gate, middle, ⟨rfl, rfl⟩, run⟩
    exact run
  · exact fun run => ⟨_, _, ⟨rfl, rfl⟩, run⟩

theorem gated_supported (supported : (s.task a).supported) :
    (((s.gate i a).reserve i a k).task a).supported := by
  simpa [State.gate, State.reserve, Task.supported, Task.validateConnectTask] using supported

/-- `AddTask` returns true exactly if it gets through both gates. -/
theorem runs_addTask_true (idle : (s.task a).taskState ≠ .kSubmitted) :
    Runs (code i) (addTask i a) s true t ↔ s.Room ∧
      Runs (code i) (submitReserved a s.submissions) ((s.gate i a).reserve i a s.submissions) () t := by
  rw [runs_addTask_idle idle, addGated, runs_bind]
  constructor
  · rintro ⟨swapped, later, reserved, rest⟩
    obtain ⟨room, rfl, rfl⟩ | ⟨full, rfl, rfl⟩ := runs_reserveInflight.mp reserved
    · obtain ⟨u, last, run, returned⟩ := runs_bind.mp rest
      obtain ⟨-, rfl⟩ := runs_pure.mp returned
      exact ⟨room, run⟩
    · simp at rest
  · rintro ⟨room, run⟩
    refine ⟨true, _, runs_reserveInflight.mpr (Or.inl ⟨room, rfl, rfl⟩), ?_⟩
    exact runs_bind.mpr ⟨(), t, run, runs_pure.mpr ⟨rfl, rfl⟩⟩

theorem runs_addTask_rejects (idle : (s.task a).taskState ≠ .kSubmitted) (full : ¬ s.Room) {r : Bool} :
    Runs (code i) (addTask i a) s r t ↔ r = false ∧ t = ((s.gate i a).see a).reject a := by
  have gated : ¬ (s.gate i a).Room := full
  rw [runs_addTask_idle idle, addGated, runs_bind]
  constructor
  · rintro ⟨swapped, later, reserved, rest⟩
    obtain ⟨room, -, -⟩ | ⟨-, rfl, rfl⟩ := runs_reserveInflight.mp reserved
    · exact absurd room gated
    · simpa using rest
  · rintro ⟨rfl, rfl⟩
    exact ⟨false, _, runs_reserveInflight.mpr (Or.inr ⟨gated, rfl, rfl⟩), by simp⟩

/-- Without a null SQE, `AddTask` of a supported task with a slot to spare has
one outcome. -/
theorem runs_addTask_accepts (idle : (s.task a).taskState ≠ .kSubmitted) (room : s.Room)
    (supported : (s.task a).supported) {r : Bool} :
    Runs (code i) (addTask i a) s r t ∧ t.refused = s.refused ↔ r = true ∧ t = s.accept i a := by
  have submitted := runs_submitReserved (i := i) (k := s.submissions) (t := t) (u := ())
    (gated_supported (i := i) (k := s.submissions) supported)
  cases r with
  | true =>
    rw [runs_addTask_true idle, and_assoc]
    exact and_congr (iff_of_true room rfl) submitted
  | false =>
    simp only [Bool.false_eq_true, false_and, iff_false, not_and]
    intro run
    rw [runs_addTask_idle idle, addGated, runs_bind] at run
    obtain ⟨swapped, later, reserved, rest⟩ := run
    obtain ⟨-, rfl, rfl⟩ | ⟨full, -, -⟩ := runs_reserveInflight.mp reserved
    · obtain ⟨u, last, -, returned⟩ := runs_bind.mp rest
      simp at returned
    · exact absurd room full

theorem runs_addBusy {r : Bool} :
    Runs program (addBusy a) s r t ↔ r = false ∧
      t = s.setTask a fun task => { task with debugStr := "failed: already executing", detach := false } := by
  simp only [addBusy, setDebugStr, storeDetach, storeTask, runs_store_bind, runs_pure, setTask_setTask]

theorem runs_addTask_busy (busy : (s.task a).taskState = .kSubmitted) {r : Bool} :
    Runs (code i) (addTask i a) s r t ↔ r = false ∧
      t = s.setTask a fun task => { task with debugStr := "failed: already executing", detach := false } := by
  simp only [addTask, runs_bind, runs_tryTransitionToSubmitted, if_pos busy]
  constructor
  · rintro ⟨gate, middle, ⟨rfl, rfl⟩, run⟩
    exact runs_addBusy.mp run
  · intro outcome
    exact ⟨none, s, ⟨rfl, rfl⟩, runs_addBusy.mpr outcome⟩

end Talon.Handler
