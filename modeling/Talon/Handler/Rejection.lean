import Talon.Handler.Accounting
import Talon.Handler.Outcome

/-! Calls of `AddTask` that return false: what they leave behind, and the loop in
`HandleNormalEvent` that repeats them. -/
namespace Talon.Handler
open Interleaving

variable {i : Thread} {a : Addr} {p : Option Addr} {k : Nat} {s t : State}

/-! ### What a rejected call leaves behind -/

/-- The call might as well not have been made. A completion that `DispatchCqe`
would have skipped before is skipped afterwards. -/
structure Unchanged (a : Addr) (s t : State) : Prop where
  inflight : t.inflight = s.inflight
  rings : t.sq = s.sq ∧ t.ring = s.ring
  taskState : (t.task a).taskState = (s.task a).taskState
  detach : (t.task a).detach = (s.task a).detach
  doneState : (t.task a).doneState = (s.task a).doneState
  isCancel : (t.task a).isCancel = (s.task a).isCancel
  tryCount : (t.task a).tryCount = (s.task a).tryCount
  skips : ¬ TaskState.Live (s.task a).taskState → ¬ TaskState.Live (t.task a).taskState

/-- The call leaves every task as it was. -/
def Atomic (s t : State) : Prop := ∀ a, Unchanged a s t

/-- The task is ready, or executing and not detached. -/
def Restorable (s : State) : Option Addr → Prop
  | none => True
  | some a => (s.task a).taskState = .kReady ∨
      (s.task a).taskState = .kSubmitted ∧ (s.task a).detach = false

theorem Unchanged.refl (a : Addr) (s : State) : Unchanged a s s :=
  ⟨rfl, ⟨rfl, rfl⟩, rfl, rfl, rfl, rfl, rfl, id⟩

/-- A task that the call has nothing to do with. -/
theorem unchanged_of_eq (same : t.task a = s.task a) (inflight : t.inflight = s.inflight)
    (rings : t.sq = s.sq ∧ t.ring = s.ring) : Unchanged a s t := by
  refine ⟨inflight, rings, ?_, ?_, ?_, ?_, ?_, ?_⟩ <;> rw [same]
  exact id

/-- The gate was open, so it was the limit that kept the task out. -/
theorem runs_addTask_false (idle : (s.task a).taskState ≠ .kSubmitted) :
    Runs (code i) (addTask i a) s false t ↔ ¬ s.Room ∧ t = ((s.gate i a).see a).reject a := by
  by_cases room : s.Room
  · refine iff_of_false (fun run => ?_) fun outcome => outcome.1 room
    rw [runs_addTask_idle idle, addGated, runs_bind] at run
    obtain ⟨swapped, later, reserved, rest⟩ := run
    obtain ⟨-, rfl, rfl⟩ | ⟨full, -, -⟩ := runs_reserveInflight.mp reserved
    · obtain ⟨u, last, -, returned⟩ := runs_bind.mp rest
      simp at returned
    · exact full room
  · rw [runs_addTask_rejects idle room]
    exact ⟨fun outcome => ⟨room, outcome.2⟩, fun outcome => ⟨rfl, outcome.2⟩⟩

theorem reject_task_self : (((s.gate i a).see a).reject a).task a = { s.task a with taskState := .kReady } := by
  simp [State.reject, State.gate, State.setTask]

theorem reject_task_of_ne {b : Addr} (other : b ≠ a) : (((s.gate i a).see a).reject a).task b = s.task b := by
  simp [State.reject, State.gate, State.setTask, other]

/-- At the limit the task ends up ready, whatever it was. -/
theorem rejects_atomic_iff (idle : (s.task a).taskState ≠ .kSubmitted) :
    Atomic s (((s.gate i a).see a).reject a) ↔ (s.task a).taskState = .kReady := by
  constructor
  · intro atomic
    have same := (atomic a).taskState
    rw [reject_task_self] at same
    exact same.symm
  · intro ready b
    by_cases here : b = a
    · subst here
      have same : (((s.gate i b).see b).reject b).task b = s.task b := by
        rw [reject_task_self, ← ready]
      exact unchanged_of_eq same rfl ⟨rfl, rfl⟩
    · exact unchanged_of_eq (reject_task_of_ne here) rfl ⟨rfl, rfl⟩

/-- A task that is executing ends up attached. -/
theorem busy_atomic_iff :
    Atomic s (s.setTask a fun task => { task with debugStr := "failed: already executing", detach := false }) ↔
      (s.task a).detach = false := by
  constructor
  · intro atomic
    have same := (atomic a).detach
    rw [setTask_task_self] at same
    exact same.symm
  · intro attached b
    by_cases here : b = a
    · subst here
      refine ⟨rfl, ⟨rfl, rfl⟩, ?_, ?_, ?_, ?_, ?_, ?_⟩ <;> rw [setTask_task_self]
      · exact attached.symm
      · exact id
    · exact unchanged_of_eq (setTask_task_of_ne here) rfl ⟨rfl, rfl⟩

/-- A call of `AddTask` that returns false has no effect exactly if there is no
task, the task was ready, or it was executing and not detached. -/
theorem rejected_atomic_iff (run : Runs (code i) (code i (.addTask p)) s false t) :
    Atomic s t ↔ Restorable s p := by
  cases p with
  | none =>
    obtain ⟨-, rfl⟩ := runs_pure.mp run
    exact iff_of_true (fun a => .refl a t) trivial
  | some a =>
    by_cases busy : (s.task a).taskState = .kSubmitted
    · obtain ⟨-, rfl⟩ := (runs_addTask_busy busy).mp run
      rw [busy_atomic_iff, Restorable, busy]
      simp
    · obtain ⟨-, rfl⟩ := (runs_addTask_false busy).mp run
      rw [rejects_atomic_iff busy, Restorable]
      simp [busy]

theorem second_add_atomic :
    ∃ t, Runs (code (.client 1)) (code (.client 1) (.addTask (some 1)))
      ((single readTask).accept (.client 0) 1) false t ∧ Atomic ((single readTask).accept (.client 0) 1) t := by
  have busy : (((single readTask).accept (.client 0) 1).task 1).taskState = .kSubmitted := by
    rw [accept_task_self]
  have run := (runs_addTask_busy (i := .client 1) (r := false) busy).mpr ⟨rfl, rfl⟩
  refine ⟨_, run, (rejected_atomic_iff (p := some 1) run).mpr (Or.inr ⟨busy, ?_⟩)⟩
  rw [accept_task_self]
  rfl

/-- A timed read has completed and its timeout's completion is still to come; the
one slot is taken by another read. -/
def leftOverSchedule : List (Thread × Choice) :=
  List.replicate 4 (Thread.client 0, { action := .create 1 { readTask with timeoutMs := 100 } }) ++
    List.replicate 20 (Thread.client 0, { action := .addTask (some 1) }) ++
    List.replicate 18 (Thread.loop, { res := 5 }) ++
    List.replicate 3 (Thread.client 0, { action := .create 2 readTask }) ++
    List.replicate 19 (Thread.client 0, { action := .addTask (some 2) })

/-- Turned away at the limit, the finished task is ready, and the completion that
was to be skipped acts on it. -/
theorem finished_task_readied :
    ¬ ∀ (maxInflightOps : Int) (pool : Pool Thread State Choice Procedure Bool) (i : Thread) (p : Option Addr)
      (t : State), Pool.Reaches code (fun _ _ => True) (start maxInflightOps) pool →
      Runs (code i) (code i (.addTask p)) pool.shared false t → Atomic pool.shared t := by
  intro claimed
  have executed : (Pool.run code (fun _ _ => true) leftOverSchedule (start 1)).map
      (fun q => ((q.shared.task 1).taskState, q.shared.ring, q.shared.inflight, q.shared.maxInflightOps)) =
      some (.kSuccess, [⟨1, .kTimeout, 0⟩, ⟨2, .kNone, 1⟩], 1, 1) := by
    decide +kernel
  obtain ⟨pool, run, outcome⟩ := Option.map_eq_some_iff.mp executed
  simp only [Prod.mk.injEq] at outcome
  obtain ⟨finished, -, inflight, limit⟩ := outcome
  have idle : (pool.shared.task 1).taskState ≠ .kSubmitted := by
    rw [finished]
    nofun
  have full : ¬ pool.shared.Room := by
    intro room
    have below := room (by omega)
    omega
  have rejected := (runs_addTask_false (i := .client 0) idle).mpr ⟨full, rfl⟩
  have atomic := claimed 1 pool (.client 0) (some 1) _ (Pool.reaches_of_run (fun _ _ _ => trivial) run) rejected
  have skipped := (atomic 1).skips (by rw [finished]; decide)
  rw [reject_task_self] at skipped
  exact skipped (Or.inr rfl)

/-! ### The loop that repeats a rejected call -/

/-- The task is executing and has not been cancelled. -/
def Stuck (a : Addr) (s : State) : Prop :=
  (s.task a).taskState = .kSubmitted ∧ (s.task a).isCancel = false

/-- The step does not take the task out of that state. -/
def Sticks (a : Addr) (s t : State) : Prop := Stuck a s → Stuck a t

/-- The event loop does as it likes, and the other threads leave the state of the
task to it. -/
inductive Continues (a : Addr) (start : Pool Thread State Choice Procedure Bool) :
    Pool Thread State Choice Procedure Bool → Prop where
  | refl : Continues a start start
  | loop : Continues a start before → Pool.step code .loop c before = some after → Continues a start after
  | client : Continues a start before → Pool.step code (.client n) c before = some after →
      Sticks a before.shared after.shared → Continues a start after

/-- The event loop gets to the next completion. -/
def Resumes (a : Addr) (pool : Pool Thread State Choice Procedure Bool) : Prop :=
  ∃ last rest, Continues a pool last ∧ last.thread .loop = .call .runEventLoop rest

def blockedDiscipline (a : Addr) : Discipline State where
  rely := Sticks a
  guar := Sticks a
  allowed _ _ := True
  rely_refl _ := id
  rely_trans first second := second ∘ first

/-- Nothing is known of the other threads. -/
def anyDiscipline : Discipline State where
  rely _ _ := True
  guar _ _ := True
  allowed _ _ := True
  rely_refl _ := trivial
  rely_trans _ _ := trivial

/-- What the event loop may call once it has found the completion. Only `AddTask`
returns. -/
def blockedContract (a : Addr) (k : Nat) : Contract State Procedure Bool where
  A _ := Unit
  pre
    | .dispatchCqe e res, _, s => e = ⟨a, .kNone, k⟩ ∧ res = -EAGAIN ∧ Stuck a s
    | .resubmitBlocked b, _, s => b = a ∧ Stuck a s
    | .addTask p, _, s => p = some a ∧ Stuck a s
    | _, _, _ => False
  post
    | .addTask _, _, r, s => r = false ∧ Stuck a s
    | _, _, _, _ => False

/-- Nothing is asked of the other threads. -/
def anyContract : Contract State Procedure Bool := ⟨fun _ => Unit, fun _ _ _ => True, fun _ _ _ _ => True⟩

theorem wp_any {α : Type} (q : Code α) (s : State) :
    wp anyDiscipline anyContract q (fun _ _ => True) s := by
  induction q generalizing s with
  | ret value => exact fun _ _ => trivial
  | act effect next ih => exact fun t _ c u _ _ => ⟨trivial, ih c t u⟩
  | call f next ih => exact fun _ _ => ⟨(), trivial, fun r u _ => ih r u⟩

theorem Stuck.setTask {f : Task → Task} (stuck : Stuck a s)
    (kept : (f (s.task a)).taskState = (s.task a).taskState ∧ (f (s.task a)).isCancel = (s.task a).isCancel) :
    Stuck a (s.setTask a f) := by
  rw [Stuck, setTask_task_self, kept.1, kept.2]
  exact stuck

theorem wp_storeTask {f : Task → Task} {K : Contract State Procedure Bool} (stuck : Stuck a s)
    (kept : ∀ task, (f task).taskState = task.taskState ∧ (f task).isCancel = task.isCancel) :
    wp (blockedDiscipline a) K (storeTask a f) (fun _ => Stuck a) s := by
  apply wp_atomic
  intro t moved c u stepped _
  cases Option.some.inj stepped
  have stored := (moved stuck).setTask (kept (t.task a))
  exact ⟨fun _ => stored, fun v later => later stored⟩

/-- The CAS gate turns the task away every time. -/
theorem wp_addTask_stuck {K : Contract State Procedure Bool} (stuck : Stuck a s) :
    wp (blockedDiscipline a) K (addTask i a) (fun r t => r = false ∧ Stuck a t) s := by
  refine wp_bind (wp_bind (wp_atomic fun t moved c u stepped _ => ?_))
  cases Option.some.inj stepped
  have here := moved stuck
  rw [if_pos here.1]
  refine ⟨id, fun v later => ?_⟩
  apply wp_ret
  intro w more
  refine wp_bind (wp_mono (fun _ x told => ?_) (wp_storeTask (more (later here)) fun _ => ⟨rfl, rfl⟩))
  refine wp_bind (wp_mono (fun _ y stored => ?_) (wp_storeTask told fun _ => ⟨rfl, rfl⟩))
  exact wp_ret fun z last => ⟨rfl, last stored⟩

theorem wp_dispatchCqe_stuck (stuck : Stuck a s) :
    wp (blockedDiscipline a) (blockedContract a k) (dispatchCqe ⟨a, .kNone, k⟩ (-EAGAIN)) (fun _ _ => False) s := by
  refine wp_bind (wp_atomic fun t moved c u stepped _ => ?_)
  cases Option.some.inj stepped
  have here := moved stuck
  have live : TaskState.Live (t.task a).taskState := Or.inl here.1
  refine ⟨id, fun v later => ?_⟩
  rw [if_pos live]
  refine wp_bind (wp_bind (wp_atomic fun w more c x stepped _ => ?_))
  cases Option.some.inj stepped
  have there : Stuck a w := more (later here)
  refine ⟨id, fun y still => ?_⟩
  rw [there.2]
  refine wp_bind (wp_mono (fun _ z stored => ?_) (wp_storeTask (still there) fun _ => ⟨rfl, rfl⟩))
  refine wp_bind (wp_enter fun _ last => ⟨(), ⟨rfl, last stored⟩, fun _ _ returned => returned.elim⟩)

theorem blocked_verified : Verified (blockedDiscipline a) (blockedContract a k) (code .loop) := by
  intro f x s pre
  cases f with
  | addTask p =>
    obtain ⟨rfl, stuck⟩ := pre
    exact wp_addTask_stuck stuck
  | resubmitBlocked b =>
    obtain ⟨rfl, stuck⟩ := pre
    refine wp_bind (wp_enter fun _ moved => ⟨(), ⟨rfl, moved stuck⟩, ?_⟩)
    rintro _ u ⟨rfl, again⟩ v later
    exact wp_enter fun _ more => ⟨(), ⟨rfl, more (later again)⟩, fun _ _ returned => returned.elim⟩
  | dispatchCqe e res =>
    obtain ⟨rfl, rfl, stuck⟩ := pre
    exact wp_bind (wp_mono (fun _ _ impossible => impossible.elim) (wp_dispatchCqe_stuck stuck))
  | reserveSlot | handleFailedTask | deleteTask | runEventLoop | user => exact pre.elim

def blockedDisciplines (a : Addr) : Thread → Discipline State
  | .loop => blockedDiscipline a
  | .client _ => anyDiscipline

def blockedContracts (a : Addr) (k : Nat) : Thread → Contract State Procedure Bool
  | .loop => blockedContract a k
  | .client _ => anyContract

/-- The event loop has `-EAGAIN` to dispatch to a task that is executing, or is
still at it. -/
def Blocked (a : Addr) (k : Nat) (pool : Pool Thread State Choice Procedure Bool) : Prop :=
  Proved (blockedDisciplines a) (blockedContracts a k) pool

theorem blocked_dispatching {pool : Pool Thread State Choice Procedure Bool} {next : Bool → Code Unit}
    (dispatching : pool.thread .loop = .call (.dispatchCqe ⟨a, .kNone, k⟩ (-EAGAIN)) next)
    (stuck : Stuck a pool.shared) : Blocked a k pool := by
  intro j
  cases j with
  | client n => exact wp_any (pool.thread (.client n)) pool.shared
  | loop =>
    rw [dispatching]
    exact fun _ moved => ⟨(), ⟨rfl, rfl, moved stuck⟩, fun _ _ returned => returned.elim⟩

theorem Blocked.step {pool after : Pool Thread State Choice Procedure Bool} {i : Thread} {c : Choice}
    (blocked : Blocked a k pool) (stepped : pool.step code i c = some after)
    (sticks : Sticks a pool.shared after.shared) : Blocked a k after := by
  have verified : ∀ j, Verified (blockedDisciplines a j) (blockedContracts a k j) (code j) := by
    intro j
    cases j with
    | loop => exact blocked_verified
    | client n => exact fun f _ s _ => wp_any (code (.client n) f) s
  have compatible : ∀ i j s t, i ≠ j → Sticks a s t → (blockedDisciplines a i).guar s t →
      (blockedDisciplines a j).rely s t := by
    intro i j s t _ kept _
    cases j with
    | loop => exact kept
    | client n => trivial
  have admits : ∀ i s t, Sticks a s t → (blockedDisciplines a i).allowed s t := by
    intro i s t _
    cases i <;> trivial
  exact (proved_step admits compatible verified blocked stepped sticks).1

/-- The event loop itself does not take the task out of its state. -/
theorem Blocked.sticks {pool after : Pool Thread State Choice Procedure Bool} {c : Choice}
    (blocked : Blocked a k pool) (stepped : pool.step code .loop c = some after) :
    Sticks a pool.shared after.shared := by
  have mine := blocked .loop
  obtain ⟨effect, next, s, program, moved, rfl⟩ | ⟨f, next, program, rfl⟩ := Pool.step_cases stepped
  · rw [program] at mine
    exact (mine _ id c s moved trivial).1
  · exact id

theorem Blocked.continues {pool last : Pool Thread State Choice Procedure Bool} (blocked : Blocked a k pool)
    (path : Continues a pool last) : Blocked a k last := by
  induction path with
  | refl => exact blocked
  | loop _ stepped ih => exact ih.step stepped (ih.sticks stepped)
  | client _ stepped sticks ih => exact ih.step stepped sticks

theorem Blocked.not_resumes {pool : Pool Thread State Choice Procedure Bool} (blocked : Blocked a k pool) :
    ¬ Resumes a pool := by
  rintro ⟨last, rest, path, resumed⟩
  have obligation := blocked.continues path .loop
  rw [resumed] at obligation
  obtain ⟨_, impossible, -⟩ := obligation _ id
  exact impossible

/-- Once the event loop dispatches `-EAGAIN` to a task that is executing, it never
gets to another completion. -/
theorem blocked_never_resumes {pool : Pool Thread State Choice Procedure Bool} {next : Bool → Code Unit}
    (dispatching : pool.thread .loop = .call (.dispatchCqe ⟨a, .kNone, k⟩ (-EAGAIN)) next)
    (submitted : (pool.shared.task a).taskState = .kSubmitted)
    (uncancelled : (pool.shared.task a).isCancel = false) : ¬ Resumes a pool :=
  (blocked_dispatching dispatching ⟨submitted, uncancelled⟩).not_resumes

/-- The completion that the thread is about to dispatch. -/
def dispatched : Code Unit → Option (Entry × Int)
  | .call (.dispatchCqe e res) _ => some (e, res)
  | _ => none

theorem dispatched_some {q : Code Unit} {e : Entry} {res : Int} (found : dispatched q = some (e, res)) :
    ∃ next, q = .call (.dispatchCqe e res) next := by
  unfold dispatched at found
  split at found
  · cases found
    exact ⟨_, rfl⟩
  · contradiction

/-- A read is added and its operation completes with `-EAGAIN`. -/
def blockedSchedule : List (Thread × Choice) :=
  List.replicate 4 (Thread.client 0, { action := .create 1 readTask }) ++
    List.replicate 19 (Thread.client 0, { action := .addTask (some 1) }) ++
    List.replicate 3 (Thread.loop, { res := -EAGAIN })

theorem blockedSchedule_dispatches : ∃ pool : Pool Thread State Choice Procedure Bool,
    Pool.Reaches code (fun _ _ => True) (start 1) pool ∧
    (∃ next, pool.thread .loop = .call (.dispatchCqe ⟨1, .kNone, 0⟩ (-EAGAIN)) next) ∧
    (pool.shared.task 1).taskState = .kSubmitted ∧ (pool.shared.task 1).isCancel = false := by
  have executed : (Pool.run code (fun _ _ => true) blockedSchedule (start 1)).map
      (fun q => (dispatched (q.thread .loop), (q.shared.task 1).taskState, (q.shared.task 1).isCancel)) =
      some (some (⟨1, .kNone, 0⟩, -EAGAIN), .kSubmitted, false) := by
    decide +kernel
  obtain ⟨pool, run, outcome⟩ := Option.map_eq_some_iff.mp executed
  simp only [Prod.mk.injEq] at outcome
  exact ⟨pool, Pool.reaches_of_run (fun _ _ _ => trivial) run, dispatched_some outcome.1, outcome.2⟩

theorem blocked_read_spins : ∃ pool : Pool Thread State Choice Procedure Bool,
    Pool.Reaches code (fun _ _ => True) (start 1) pool ∧ ¬ Resumes 1 pool := by
  obtain ⟨pool, path, ⟨next, dispatching⟩, submitted, uncancelled⟩ := blockedSchedule_dispatches
  exact ⟨pool, path, blocked_never_resumes dispatching submitted uncancelled⟩

theorem eagain_not_resubmitted :
    ¬ ∀ (maxInflightOps : Int) (pool : Pool Thread State Choice Procedure Bool) (a : Addr) (k : Nat)
      (next : Bool → Code Unit), Pool.Reaches code (fun _ _ => True) (start maxInflightOps) pool →
      pool.thread .loop = .call (.dispatchCqe ⟨a, .kNone, k⟩ (-EAGAIN)) next →
      (pool.shared.task a).taskState = .kSubmitted → (pool.shared.task a).isCancel = false → Resumes a pool := by
  intro claimed
  obtain ⟨pool, path, ⟨next, dispatching⟩, submitted, uncancelled⟩ := blockedSchedule_dispatches
  have resumes := claimed 1 pool 1 0 next path dispatching submitted uncancelled
  exact (blocked_dispatching dispatching ⟨submitted, uncancelled⟩).not_resumes resumes

end Talon.Handler
