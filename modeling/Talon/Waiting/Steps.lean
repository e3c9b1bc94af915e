import Talon.Interleaving.Ownership
import Talon.Waiting.Program

/-! Three disciplines under which the cells that `WaitForCompletion` reads agree
with each other, and what the single steps and `AddTask` do under them. -/
namespace Talon.Waiting
open Interleaving Talon.Handler Ownership

/-- Runs without the plain `detach_.store(true)`; runs in which no `AddTask` gets in
between the stores of a success; runs in which `WaitForCompletion` is called on a
task that the event loop has detached. -/
inductive Mode where
  | signaled
  | apart
  | waited
  deriving DecidableEq

/-- Which accesses a run may make, judged in the state before. In all of them the
stores of a submission and of a completion are not interleaved: no CAS succeeds and
no completion is found while another thread is still writing to the task. What is asked
of the calls of `WaitForCompletion` depends on the mode, and so does whose completions end
the task: in the last two only those of the last submission. -/
def Mode.Permits (m : Mode) (s : Shared) (i : Thread) : Access → Prop
  | .gates => s.holder = none ∧ (m ≠ .apart → s.waiting = [])
  | .refuses flag => m = .waited → flag ≠ .kError
  | .finds => s.holder = none
  | .acts cqe cancelled => (m ≠ .apart → cqe.flag ≠ .kTimeout ∧ cancelled = false) ∧
      (m ≠ .signaled → cqe.submission = some s.submission ∨ cqe.flag = .kCancel ∧ cancelled = false)
  | .detaches => m ≠ .signaled ∧ s.holder = some i
  | .finishes => s.holder = some i
  | .deletes => m ≠ .apart → s.waiting = []
  | .signals => m = .waited → s.task.doneState = .kWaiting ∨ s.parking = [] ∧ s.blocked = []
  | .notifies => m = .waited → s.blocked.length ≤ 1
  | .reads => m ≠ .apart → (m = .waited → s.task.detach = true) ∧
      (s.task.detach = true → s.outcome ≠ none ∧ s.task.alive = true)
  | .stores => m = .waited → s.task.doneState ≠ .kSignaled

def Mode.Admits (m : Mode) (s t : Shared) : Prop :=
  ∀ i a, t.accesses = (i, a) :: s.accesses → m.Permits s i a

/-- What `Signal` achieves: the flag stays signaled until the next `Reset`, after the
passage through the mutex nobody is about to block, and in the end nobody is blocked. -/
structure Delivery (m : Mode) (s : Shared) : Prop where
  exchanged : s.task.doneState = .kSignaled → s.stage ≠ .idle
  kept : m ≠ .apart → s.stage ≠ .idle → s.task.doneState = .kSignaled
  parked : s.parking = [] ∨ ∃ i, s.parking = [i] ∧ s.mutex = some i
  flushed : m = .waited → s.stage = .flushed ∨ s.stage = .freed → s.parking = []
  freed : m = .waited → s.stage = .freed → s.blocked = []

structure Valid (m : Mode) (s : Shared) : Prop where
  cleared : s.cleared = true → s.task.detach = false
  signaled : m = .signaled → s.task.detach = true →
    s.task.doneState = .kSignaled ∧ ∀ r, s.completion = some r → s.task.buffer.bytesTransferred = r
  apart : m = .apart → s.outstanding = true → s.task.detach = false ∧ s.stage = .idle
  outcome : ∀ b, s.outcome = some b →
    s.task.buffer.bytesTransferred = b ∧ (m = .waited → s.dispatched = some b)
  marked : s.marked = true → s.stage = .freed ∧ s.outcome ≠ none
  unsettled : TaskState.Live s.task.taskState → s.holder = none → s.outcome = none
  waiting : m ≠ .apart → ∀ i ∈ s.waiting, s.outcome ≠ none ∧ s.task.alive = true ∧
    (m = .signaled → s.task.doneState = .kSignaled)
  results : m = .waited → ∀ r ∈ s.results, r.2.1.iodone = true ∧ (r.1 < 0 → r.2.2 = some r.2.1.ioRet)
  delivery : Delivery m s

/-- What the thread that writes to the task knows of it. `detach_` is missing, which
other threads may clear, and so is the difference between idle and waiting. -/
structure Held where
  state : TaskState
  stage : Stage
  bytes : Int
  completion : Option Int
  dispatched : Option Int
  cleared : Bool
  outcome : Option Int
  marked : Bool
  outstanding : Bool

def Shared.held (s : Shared) : Held :=
  ⟨s.task.taskState, s.stage, s.task.buffer.bytesTransferred, s.completion, s.dispatched, s.cleared, s.outcome,
    s.marked, s.outstanding⟩

/-- A thread inside `WaitForCompletion` knows the result that it will return, and the one that
holds the mutex knows who is about to block. -/
@[ext]
structure View where
  hand : Option Held
  awaits : Option Int
  lock : Option (List Thread)

def view (m : Mode) (i : Thread) (s : Shared) : View where
  hand := if s.holder = some i then some s.held else none
  awaits := if m ≠ .apart ∧ i ∈ s.waiting then s.outcome else none
  lock := if s.mutex = some i then some s.parking else none

def ownership (m : Mode) : Ownership Thread Shared View := ⟨Valid m, view m, m.Admits⟩

def View.hold (v : View) (h : Held) : View := { v with hand := some h }

def View.drop (v : View) : View := { v with hand := none }

def View.locked (v : View) (parking : List Thread) : View := { v with lock := some parking }

def View.unlocked (v : View) : View := { v with lock := none }

theorem View.drop_self {v : View} (free : v.hand = none) : v.drop = v := View.ext free.symm rfl rfl

theorem View.drop_hold {v : View} {h : Held} (free : v.hand = none) : (v.hold h).drop = v := View.drop_self free

theorem View.unlocked_locked {v : View} {parking : List Thread} (free : v.lock = none) :
    (v.locked parking).unlocked = v := View.ext rfl rfl free.symm

/-- The submission has ended and its result is where it belongs, with the task not yet
marked complete. -/
structure Held.Over (h : Held) (m : Mode) : Prop where
  unmarked : h.marked = false
  apart : m = .apart → h.outstanding = false
  signaled : m = .signaled → ∀ r, h.completion = some r → h.bytes = r
  waited : m = .waited → h.dispatched = some h.bytes

def spec (m : Mode) : Spec Procedure Bool View where
  pre f v := match f with
    | .handleFailedTask => v.awaits = none ∧ ∃ h, v.hand = some h ∧ h.Over m ∧ h.outcome = none
    | .runEventLoop => v.awaits = none ∧ v.hand = none
    | .cvWait | .cvWaitFor => v.lock = some []
    | _ => v.awaits = none
  post f v r v' := match f with
    | .addTask => v' = v ∧ (r = true → v.hand = none)
    | .handleFailedTask => v' = v.drop
    | .resubmitBlocked => v' = v ∧ v.hand = none
    | .user | .cvWait | .cvWaitFor => v' = v
    | .runEventLoop => True

abbrev Ensures (m : Mode) (i : Thread) (v : View) {α : Type} (p : Code α) (post : α → View → Prop) : Prop :=
  (ownership m).Ensures (spec m) i v p post

variable {m : Mode} {i : Thread} {s t : Shared} {v : View} {h : Held} {α : Type}

theorem hand_some (held : (view m i s).hand = some h) : s.holder = some i ∧ s.held = h := by
  simp only [view, Option.ite_none_right_eq_some, Option.some.injEq] at held
  exact held

theorem lock_some {parking : List Thread} (locked : (view m i s).lock = some parking) :
    s.mutex = some i ∧ s.parking = parking := by
  simp only [view, Option.ite_none_right_eq_some, Option.some.injEq] at locked
  exact locked

theorem lock_unheld (free : s.mutex ≠ some i) : (view m i s).lock = none := if_neg free

theorem awaits_some {b : Int} (awaits : (view m i s).awaits = some b) :
    (m ≠ .apart ∧ i ∈ s.waiting) ∧ s.outcome = some b := by
  simp only [view, Option.ite_none_right_eq_some] at awaits
  exact awaits

theorem view_held (mine : s.holder = some i) : view m i s = (view m i s).hold s.held :=
  View.ext (if_pos mine) rfl rfl

theorem view_free (free : s.holder = none) : view m i s = (view m i s).drop := by
  refine View.ext (if_neg ?_) rfl rfl
  rw [free]
  nofun

/-- What the callers of `WaitForCompletion` know stays as it is, and so does the mutex. -/
structure Undisturbed (m : Mode) (s t : Shared) : Prop where
  waiting : t.waiting = s.waiting
  outcome : t.outcome = s.outcome ∨ m = .apart ∨ s.waiting = []
  mutex : t.mutex = s.mutex
  parking : t.parking = s.parking

theorem Undisturbed.awaits (quiet : Undisturbed m s t) (j : Thread) : (view m j t).awaits = (view m j s).awaits := by
  simp only [view, quiet.waiting]
  obtain same | rfl | nobody := quiet.outcome
  · rw [same]
  · simp only [ne_eq, not_true_eq_false, false_and, if_false]
  · simp only [nobody, List.not_mem_nil, and_false, if_false]

theorem Undisturbed.lock (quiet : Undisturbed m s t) (j : Thread) : (view m j t).lock = (view m j s).lock := by
  simp only [view, quiet.mutex, quiet.parking]

/-- A step by the only thread that writes to the task. -/
theorem moves_alone (valid : Valid m t) (before : ∀ j, j ≠ i → s.holder ≠ some j)
    (after : ∀ j, j ≠ i → t.holder ≠ some j) (quiet : Undisturbed m s t) :
    (ownership m).Moves i s t (view m i t) := by
  refine ⟨valid, fun j other => View.ext ?_ (quiet.awaits j) (quiet.lock j), rfl⟩
  exact (if_neg (after j other)).trans (if_neg (before j other)).symm

/-- A step that writes to nothing that a thread knows. -/
theorem moves_aside (valid : Valid m t) (same : ∀ j, view m j t = view m j s) :
    (ownership m).Moves i s t (view m i s) :=
  ⟨valid, fun j _ => same j, same i⟩

/-- A step by the thread that writes to the task, which may be its last. -/
theorem moves_held (valid : Valid m t) (mine : s.holder = some i) (after : t.holder = some i ∨ t.holder = none)
    (quiet : Undisturbed m s t) : (ownership m).Moves i s t (view m i t) := by
  refine moves_alone valid (fun j other taken => ?_) (fun j other taken => ?_) quiet
  · rw [mine] at taken
    exact other (Option.some.inj taken).symm
  · rcases after with own | free
    · rw [own] at taken
      exact other (Option.some.inj taken).symm
    · rw [free] at taken
      contradiction

/-- A step by which a thread becomes the one that writes to the task. -/
theorem moves_takes (valid : Valid m t) (free : s.holder = none) (mine : t.holder = some i)
    (quiet : Undisturbed m s t) : (ownership m).Moves i s t (view m i t) := by
  refine moves_alone valid (fun j other taken => ?_) (fun j other taken => ?_) quiet
  · rw [free] at taken
    contradiction
  · rw [mine] at taken
    exact other (Option.some.inj taken).symm

/-- A step on the mutex by the thread that holds it before or after. -/
theorem moves_lock {w : View} (valid : Valid m t) (hand : ∀ j, (view m j t).hand = (view m j s).hand)
    (awaits : ∀ j, (view m j t).awaits = (view m j s).awaits) (before : ∀ j, j ≠ i → s.mutex ≠ some j)
    (after : ∀ j, j ≠ i → t.mutex ≠ some j) (mine : view m i t = w) : (ownership m).Moves i s t w := by
  refine ⟨valid, fun j other => View.ext (hand j) (awaits j) ?_, mine⟩
  exact (if_neg (after j other)).trans (if_neg (before j other)).symm

theorem other_of_some {x : Option Thread} (mine : x = some i) (j : Thread) (other : j ≠ i) : x ≠ some j := by
  rw [mine]
  exact fun same => other (Option.some.inj same).symm

theorem other_of_none {x : Option Thread} (free : x = none) (j : Thread) (_ : j ≠ i) : x ≠ some j := by
  rw [free]
  nofun

theorem ensures_held {write : Shared → Shared} {w : View} {post : Unit → View → Prop}
    (hand : v.hand = some h) (reached : post () w)
    (step : ∀ s, Valid m s → s.holder = some i → s.held = h → m.Admits s (write s) →
      Valid m (write s) ∧ Undisturbed m s (write s) ∧ ((write s).holder = some i ∧ w.hand = some (write s).held ∨
        (write s).holder = none ∧ w.hand = none))
    (same : w.drop = v.drop) : Ensures m i v (.store write : Code Unit) post := by
  apply Ensures.exchange
  intro s holds admitted
  obtain ⟨valid, rfl⟩ := holds
  obtain ⟨mine, known⟩ := hand_some hand
  obtain ⟨kept, quiet, after⟩ := step s valid mine known admitted
  have seen : w = view m i (write s) := by
    refine View.ext ?_ ((congrArg View.awaits same).trans (quiet.awaits i).symm)
      ((congrArg View.lock same).trans (quiet.lock i).symm)
    rcases after with ⟨own, hand⟩ | ⟨free, hand⟩
    · rw [view_held own, hand]
      rfl
    · rw [view_free free, hand]
      rfl
  subst seen
  exact ⟨_, reached, moves_held kept mine (after.imp And.left And.left) quiet⟩

/-- A call whose result is not used. -/
theorem ensures_call {f : Procedure} {w : View} (pre : (spec m).pre f v)
    (post : ∀ r v', (spec m).post f v r v' → v' = w) :
    Ensures m i v (do let _ ← .enter f : Code Unit) fun _ v' => v' = w := by
  apply Ensures.bind (Ensures.enter pre post)
  rintro _ _ rfl
  exact Ensures.pure rfl

/-! ### Single steps -/

/-- The fields of a task that the invariant speaks of. -/
def cells (task : Task) : TaskState × Bool × Task.DoneState.Flag × Int × Bool :=
  (task.taskState, task.detach, task.doneState, task.buffer.bytesTransferred, task.alive)

theorem Valid.set {f : Task → Task} (valid : Valid m s) (kept : cells (f s.task) = cells s.task) :
    Valid m (s.set f) := by
  simp only [cells, Prod.mk.injEq] at kept
  obtain ⟨state, detach, doneState, bytes, alive⟩ := kept
  constructor <;> simp only [Shared.set, state, detach, doneState, bytes, alive]
  · exact valid.cleared
  · exact valid.signaled
  · exact valid.apart
  · exact valid.outcome
  · exact valid.marked
  · exact valid.unsettled
  · exact valid.waiting
  · exact valid.results
  · constructor <;> simp only [doneState]
    · exact valid.delivery.exchanged
    · exact valid.delivery.kept
    · exact valid.delivery.parked
    · exact valid.delivery.flushed
    · exact valid.delivery.freed

theorem ensures_storeTask {f : Task → Task} (kept : ∀ task, cells (f task) = cells task) :
    Ensures m i v (storeTask f) fun _ v' => v' = v := by
  apply Ensures.exchange
  intro s holds _
  obtain ⟨valid, rfl⟩ := holds
  have same := kept s.task
  simp only [cells, Prod.mk.injEq] at same
  have held : (s.set f).held = s.held := by simp only [Shared.held, Shared.set, same]
  refine ⟨_, rfl, moves_aside (valid.set (kept s.task)) fun j => View.ext ?_ rfl rfl⟩
  change (if s.holder = some j then some (s.set f).held else none) = _
  rw [held]
  rfl

theorem ensures_setDebugStr (text : String) : Ensures m i v (setDebugStr text) fun _ v' => v' = v :=
  ensures_storeTask fun _ => rfl

theorem ensures_loadTask : Ensures m i v loadTask fun _ v' => v' = v := Ensures.load fun _ _ => rfl

/-- What a load tells the thread that writes to the task. -/
theorem ensures_loadTask_held (hand : v.hand = some h) :
    Ensures m i v loadTask fun task v' => v' = v ∧ task.taskState = h.state := by
  refine Ensures.load fun s holds => ⟨rfl, ?_⟩
  obtain ⟨valid, rfl⟩ := holds
  obtain ⟨_, rfl⟩ := hand_some hand
  rfl

theorem ensures_undetach : Ensures m i v (.store (·.undetach) : Code Unit) fun _ v' => v' = v := by
  apply Ensures.exchange
  intro s holds _
  obtain ⟨valid, rfl⟩ := holds
  refine ⟨_, rfl, moves_aside ?_ fun _ => rfl⟩
  exact { valid with
    cleared := fun _ => rfl, signaled := fun _ => nofun, apart := fun apart out => ⟨rfl, (valid.apart apart out).2⟩
    delivery := { valid.delivery with } }

theorem ensures_deleteTask : Ensures m i v (deleteTask i) fun _ v' => v' = v := by
  apply Ensures.exchange
  intro s holds admitted
  obtain ⟨valid, rfl⟩ := holds
  refine ⟨_, rfl, moves_aside { valid with
    waiting := fun mode j waits => ?_, delivery := { valid.delivery with } } fun _ => rfl⟩
  have nobody : s.waiting = [] := admitted i .deletes rfl mode
  exact absurd (nobody ▸ waits) List.not_mem_nil

/-! ### `DoneState` -/

theorem ensures_lock :
    Ensures m i v (lock i) fun _ v' => v.lock = none ∧ v' = v.locked [] := by
  apply Ensures.atomic
  intro c s t holds stepped _
  obtain ⟨valid, rfl⟩ := holds
  simp only [Option.isNone_iff_eq_none, Option.ite_none_right_eq_some, Option.some.injEq] at stepped
  obtain ⟨free, rfl⟩ := stepped
  have nobody : s.parking = [] := by
    obtain none_ | ⟨j, -, taken⟩ := valid.delivery.parked
    · exact none_
    · rw [free] at taken
      contradiction
  refine ⟨(view m i s).locked [], ⟨if_neg (by rw [free]; nofun), rfl⟩, ?_⟩
  refine moves_lock { valid with delivery := { valid.delivery with parked := Or.inl nobody } } (fun _ => rfl)
    (fun _ => rfl) (other_of_none free) (other_of_some rfl) (View.ext rfl rfl ?_)
  exact (if_pos rfl).trans (congrArg some nobody)

/-- Giving the mutex back, by a thread that is not about to block. -/
theorem Valid.unlock (valid : Valid m s) (nobody : s.parking = []) : Valid m { s with mutex := none } :=
  { valid with delivery := { valid.delivery with parked := Or.inl nobody } }

theorem ensures_unlock (locked : v.lock = some []) :
    Ensures m i v unlock fun _ v' => v' = v.unlocked := by
  refine Ensures.exchange fun s holds _ => ⟨_, rfl, ?_⟩
  obtain ⟨valid, rfl⟩ := holds
  obtain ⟨mine, nobody⟩ := lock_some locked
  exact moves_lock (valid.unlock nobody) (fun _ => rfl) (fun _ => rfl) (other_of_some mine) (other_of_none rfl)
    (View.ext rfl rfl (lock_unheld (by nofun)))

/-- A plain store to `state_` does not overwrite a signal that a waiter relies on. -/
theorem ensures_storeState {state : Task.DoneState.Flag} (mode : m ≠ .signaled) (unsignaled : state ≠ .kSignaled) :
    Ensures m i v (storeState i state) fun _ v' => v' = v := by
  refine Ensures.exchange fun s holds admitted => ⟨_, rfl, ?_⟩
  obtain ⟨valid, rfl⟩ := holds
  have open_ : m ≠ .apart → s.stage = .idle := by
    intro other
    have waited : m = .waited := by
      cases m with
      | waited => rfl
      | _ => contradiction
    by_contra late
    exact admitted i .stores rfl waited (valid.delivery.kept other late)
  refine moves_aside { valid with
    signaled := fun same => absurd same mode
    waiting := fun other j waits => ?_
    delivery := { valid.delivery with
      exchanged := fun signaled => absurd signaled unsignaled
      kept := fun other late => absurd (open_ other) late } } fun _ => rfl
  have before := valid.waiting other j waits
  exact ⟨before.1, before.2.1, fun same => absurd same mode⟩

/-- The waiter that finds the flag unsignaled is about to block. -/
theorem ensures_predicate (locked : v.lock = some []) :
    Ensures m i v (predicate i) fun state v' => v' = if state = .kSignaled then v else v.locked [i] := by
  refine Ensures.exchange fun s holds _ => ⟨_, rfl, ?_⟩
  obtain ⟨valid, rfl⟩ := holds
  obtain ⟨mine, nobody⟩ := lock_some locked
  by_cases done : s.task.doneState = .kSignaled
  · rw [if_pos done, if_pos done]
    exact moves_aside valid fun _ => rfl
  · rw [if_neg done, if_neg done]
    have alone : i :: s.parking = [i] := congrArg (i :: ·) nobody
    have early (mode : m = .waited) : s.stage = .idle := by
      by_contra late
      exact done (valid.delivery.kept (by rw [mode]; nofun) late)
    refine moves_lock { valid with delivery := { valid.delivery with
      parked := Or.inr ⟨i, alone, mine⟩
      flushed := fun mode late => ?_ } } (fun _ => rfl) (fun _ => rfl) (other_of_some mine) (other_of_some mine)
        (View.ext rfl rfl ((if_pos mine).trans (congrArg some alone)))
    rw [early mode] at late
    simp at late

theorem ensures_block (locked : v.lock = some [i]) :
    Ensures m i v (block i) fun _ v' => v' = v.unlocked := by
  refine Ensures.exchange fun s holds _ => ⟨_, rfl, ?_⟩
  obtain ⟨valid, rfl⟩ := holds
  obtain ⟨mine, alone⟩ := lock_some locked
  have nobody : s.parking.erase i = [] := by simp [alone]
  refine moves_lock { valid with delivery := { valid.delivery with
    parked := Or.inl nobody
    flushed := fun _ _ => nobody
    freed := fun mode late => ?_ } } (fun _ => rfl) (fun _ => rfl) (other_of_some mine) (other_of_none rfl)
      (View.ext rfl rfl (lock_unheld (by nofun)))
  -- Nobody is about to block once `Signal` has passed through the mutex.
  have flushed := valid.delivery.flushed mode (Or.inr late)
  rw [alone] at flushed
  contradiction

/-- Leaving the condition variable is no business of anyone else. -/
theorem Valid.leave (valid : Valid m s) (j : Thread) : Valid m { s with blocked := s.blocked.erase j } := by
  refine { valid with delivery := { valid.delivery with freed := fun mode late => ?_ } }
  change s.blocked.erase j = []
  rw [valid.delivery.freed mode late]
  rfl

theorem ensures_wake : Ensures m i v (wake i) fun _ v' => v' = v := by
  refine Ensures.atomic fun c s t holds stepped _ => ⟨_, rfl, ?_⟩
  obtain ⟨valid, rfl⟩ := holds
  simp only [Option.ite_none_left_eq_some, Option.some.injEq] at stepped
  obtain ⟨-, rfl⟩ := stepped
  exact moves_aside (valid.leave i) fun _ => rfl

theorem ensures_wakeUntimed : Ensures m i v (wakeUntimed i) fun _ v' => v' = v := by
  refine Ensures.atomic fun c s t holds stepped _ => ⟨_, rfl, ?_⟩
  obtain ⟨valid, rfl⟩ := holds
  simp only [Option.ite_none_left_eq_some, Option.some.injEq] at stepped
  obtain ⟨-, rfl⟩ := stepped
  exact moves_aside (valid.leave i) fun _ => rfl

/-- How far `Signal` has come with its exchange. -/
def Stage.exchange (prev : Task.DoneState.Flag) : Stage := if prev = .kWaiting then .exchanged else .freed

theorem Stage.exchange_unfound {prev : Task.DoneState.Flag}
    (late : Stage.exchange prev = .flushed ∨ Stage.exchange prev = .freed) : prev ≠ .kWaiting := by
  rintro rfl
  simp [Stage.exchange] at late

theorem ensures_exchangeSignaled (hand : v.hand = some h) (ended : h.Over m) :
    Ensures m i v (.exchange (·.task.doneState) (·.signal i) : Code Task.DoneState.Flag)
      fun prev v' => v' = v.hold { h with stage := Stage.exchange prev } := by
  refine Ensures.exchange fun s holds admitted => ⟨_, rfl, ?_⟩
  obtain ⟨valid, rfl⟩ := holds
  obtain ⟨mine, rfl⟩ := hand_some hand
  have found := admitted i .signals rfl
  have stage : (s.signal i).stage = Stage.exchange s.task.doneState := rfl
  have kept : Valid m (s.signal i) := { valid with
    signaled := fun mode detached => ⟨rfl, (valid.signaled mode detached).2⟩
    apart := fun mode out => absurd ((ended.apart mode).symm.trans out) nofun
    marked := fun marked => absurd (ended.unmarked.symm.trans marked) nofun
    waiting := fun mode j waits => ⟨(valid.waiting mode j waits).1, (valid.waiting mode j waits).2.1, fun _ => rfl⟩
    delivery := {
      exchanged := fun _ => by
        rw [stage, Stage.exchange]
        split <;> nofun
      kept := fun _ _ => rfl
      parked := valid.delivery.parked
      flushed := fun mode flushed => ?_
      freed := fun mode freed => ?_ } }
  · have seen : view m i (s.signal i) = (view m i s).hold { s.held with stage := Stage.exchange s.task.doneState } :=
      View.ext (if_pos mine) rfl rfl
    change (ownership m).Moves i s (s.signal i) ((view m i s).hold _)
    rw [← seen]
    exact moves_held kept mine (Or.inl mine) ⟨rfl, Or.inl rfl, rfl, rfl⟩
  -- An exchange that finds no waiter finds nobody blocked or about to block.
  · exact ((found mode).resolve_left (Stage.exchange_unfound flushed)).1
  · exact ((found mode).resolve_left (Stage.exchange_unfound (Or.inr freed))).2

/-- A step of `Signal` after its exchange. -/
theorem Valid.advance (valid : Valid m s) {stage : Stage} {mutex : Option Thread} {blocked : List Thread}
    {accesses : List (Thread × Access)} (begun : s.stage = .exchanged ∨ s.stage = .flushed)
    (delivery : Delivery m { s with stage := stage, mutex := mutex, blocked := blocked, accesses := accesses }) :
    Valid m { s with stage := stage, mutex := mutex, blocked := blocked, accesses := accesses } := by
  refine { valid with apart := fun mode out => ?_, marked := fun marked => ?_, delivery := delivery }
  · have idle := (valid.apart mode out).2
    rcases begun with begun | begun <;> rw [begun] at idle <;> contradiction
  · have freed := (valid.marked marked).1
    rcases begun with begun | begun <;> rw [begun] at freed <;> contradiction

theorem Delivery.signaled (delivery : Delivery m s) (mode : m ≠ .apart)
    (begun : s.stage = .exchanged ∨ s.stage = .flushed) : s.task.doneState = .kSignaled := by
  apply delivery.kept mode
  rcases begun with begun | begun <;> rw [begun] <;> nofun

theorem ensures_flush (hand : v.hand = some h) (stage : h.stage = .exchanged) (locked : v.lock = some []) :
    Ensures m i v (.store (·.flush) : Code Unit)
      fun _ v' => v' = (v.hold { h with stage := .flushed }).unlocked := by
  refine Ensures.exchange fun s holds admitted => ⟨_, rfl, ?_⟩
  obtain ⟨valid, rfl⟩ := holds
  obtain ⟨mine, rfl⟩ := hand_some hand
  obtain ⟨own, nobody⟩ := lock_some locked
  have kept : Valid m s.flush := valid.advance (Or.inl stage) {
    exchanged := fun _ => nofun
    kept := fun mode _ => valid.delivery.signaled mode (Or.inl stage)
    parked := Or.inl nobody
    flushed := fun _ _ => nobody
    freed := fun _ => nofun }
  refine ⟨kept, fun j other => View.ext ?_ rfl ?_, View.ext (if_pos mine) rfl (lock_unheld (by nofun))⟩
  · exact (if_neg (other_of_some mine j other)).trans (if_neg (other_of_some mine j other)).symm
  · exact (lock_unheld (other_of_none rfl j other)).trans (lock_unheld (other_of_some own j other)).symm

theorem ensures_notifyOne (hand : v.hand = some h) (stage : h.stage = .flushed) :
    Ensures m i v (notifyOne i) fun _ v' => v' = v.hold { h with stage := .freed } := by
  refine Ensures.atomic fun c s t holds stepped admitted => ⟨_, rfl, ?_⟩
  cases Option.some.inj stepped
  obtain ⟨valid, rfl⟩ := holds
  obtain ⟨mine, rfl⟩ := hand_some hand
  have single := admitted i .notifies rfl
  have freed (mode : m = .waited) : s.blocked.eraseIdx (c.target % s.blocked.length) = [] :=
    match s.blocked, single mode with
    | [], _ => rfl
    | [_], _ => by simp [Nat.mod_one]
  have kept : Valid m ({ s with
      blocked := s.blocked.eraseIdx (c.target % s.blocked.length), stage := .freed }.access i .notifies) :=
    valid.advance (Or.inr stage) {
      exchanged := fun _ => nofun
      kept := fun mode _ => valid.delivery.signaled mode (Or.inr stage)
      parked := valid.delivery.parked
      flushed := fun mode _ => valid.delivery.flushed mode (Or.inl stage)
      freed := fun mode _ => freed mode }
  refine ⟨kept, fun j other => View.ext ?_ rfl rfl, View.ext (if_pos mine) rfl rfl⟩
  exact (if_neg (other_of_some mine j other)).trans (if_neg (other_of_some mine j other)).symm

/-- `Signal` leaves nobody behind. -/
theorem ensures_signal (hand : v.hand = some h) (ended : h.Over m) :
    Ensures m i v (signal i) fun _ v' => v' = v.hold { h with stage := .freed } := by
  apply Ensures.bind (ensures_exchangeSignaled hand ended)
  rintro prev _ rfl
  split
  · next waiting =>
    apply Ensures.bind ensures_lock
    rintro _ _ ⟨free, rfl⟩
    apply Ensures.bind (ensures_flush rfl (by rw [Stage.exchange, if_pos waiting]) rfl)
    rintro _ _ rfl
    apply (ensures_notifyOne rfl rfl).mono
    rintro _ _ rfl
    exact View.ext rfl rfl free.symm
  · next unfound =>
    apply Ensures.pure
    rw [Stage.exchange, if_neg unfound]

/-! ### The stores to the task -/

/-- The outcome is what is in the buffer, so setting it once more changes nothing. -/
theorem Valid.undisturbed (valid : Valid m s) (waiting : t.waiting = s.waiting) (mutex : t.mutex = s.mutex)
    (parking : t.parking = s.parking) (outcome : t.outcome = some s.task.buffer.bytesTransferred) :
    Undisturbed m s t := by
  refine ⟨waiting, ?_, mutex, parking⟩
  by_cases mode : m = .apart
  · exact Or.inr (Or.inl mode)
  cases before : s.outcome with
  | none => exact Or.inr (Or.inr (List.eq_nil_iff_forall_not_mem.mpr fun j waits => (valid.waiting mode j waits).1 before))
  | some b =>
    rw [(valid.outcome b before).1] at outcome
    exact Or.inl outcome

/-- `detach_.store(true)` makes the result of the submission its outcome. -/
theorem Valid.detached (valid : Valid m s) (ended : s.held.Over m)
    (signaled : m = .signaled → s.task.doneState = .kSignaled) (marked : Bool) (freed : marked = true → s.stage = .freed)
    (settled : s.holder ≠ none ∨ ¬ TaskState.Live s.task.taskState) (holder : Option Thread)
    (same : holder = s.holder ∨ ¬ TaskState.Live s.task.taskState) (accesses : List (Thread × Access)) :
    Valid m { s.set fun task => { task with detach := true } with
      cleared := false, outcome := some s.task.buffer.bytesTransferred, marked := marked, holder := holder
      accesses := accesses } where
  cleared := nofun
  signaled mode _ := ⟨signaled mode, ended.signaled mode⟩
  apart mode out := absurd ((ended.apart mode).symm.trans out) nofun
  outcome b same := ⟨Option.some.inj same, fun mode => (ended.waited mode).trans same⟩
  marked set := ⟨freed set, nofun⟩
  unsettled live free := by
    rcases same with rfl | dead
    · exact absurd free (settled.resolve_right (not_not_intro live))
    · exact absurd live dead
  waiting mode j waits := ⟨nofun, (valid.waiting mode j waits).2⟩
  results := valid.results
  delivery := { valid.delivery with }

theorem ensures_mark (hand : v.hand = some h) (ended : h.Over m) (freed : h.stage = .freed) :
    Ensures m i v (.store (·.mark) : Code Unit)
      fun _ v' => v' = v.hold { h with cleared := false, outcome := some h.bytes, marked := true } := by
  refine ensures_held hand rfl (fun s valid mine known _ => ?_) rfl
  subst known
  have signaled (mode : m = .signaled) : s.task.doneState = .kSignaled :=
    valid.delivery.kept (by rw [mode]; nofun) (by rw [show s.stage = .freed from freed]; nofun)
  exact ⟨valid.detached ended signaled true (fun _ => freed) (Or.inl (by rw [mine]; nofun)) _ (Or.inl rfl) _,
    valid.undisturbed rfl rfl rfl rfl, Or.inl ⟨mine, rfl⟩⟩

/-- `MarkDetachedAndComplete(true)` -/
theorem ensures_markDetachedAndComplete (hand : v.hand = some h) (ended : h.Over m) :
    Ensures m i v (markDetachedAndComplete i) fun _ v' =>
      v' = v.hold { h with stage := .freed, cleared := false, outcome := some h.bytes, marked := true } := by
  apply Ensures.bind (ensures_signal hand ended)
  rintro _ _ rfl
  exact ensures_mark (h := { h with stage := .freed }) rfl { ended with } rfl

/-- The last store of a success. -/
theorem ensures_mark_release (hand : v.hand = some h) (ended : h.Over m) (freed : h.stage = .freed)
    (settled : ¬ TaskState.Live h.state) :
    Ensures m i v (.store (·.mark.release) : Code Unit) fun _ v' => v' = v.drop := by
  refine ensures_held hand rfl (fun s valid mine known _ => ?_) rfl
  subst known
  have signaled (mode : m = .signaled) : s.task.doneState = .kSignaled :=
    valid.delivery.kept (by rw [mode]; nofun) (by rw [show s.stage = .freed from freed]; nofun)
  exact ⟨valid.detached ended signaled true (fun _ => freed) (Or.inr settled) none (Or.inr settled) _,
    valid.undisturbed rfl rfl rfl rfl, Or.inr ⟨rfl, rfl⟩⟩

/-- `SetTaskState` as the last store. -/
theorem ensures_setTaskState {state : TaskState} (hand : v.hand = some h)
    (settled : TaskState.Live state → h.outcome = none) :
    Ensures m i v (setTaskState state) fun _ v' => v' = v.drop := by
  refine ensures_held hand rfl (fun s valid mine known _ => ?_) rfl
  subst known
  exact ⟨{ valid with unsettled := fun live _ => settled live, delivery := { valid.delivery with } },
    ⟨rfl, Or.inl rfl, rfl, rfl⟩, Or.inr ⟨rfl, rfl⟩⟩

theorem ensures_settle {state : TaskState} (hand : v.hand = some h) (settled : ¬ TaskState.Live state)
    (goesOn : Bool) :
    Ensures m i v (.store (·.settle state goesOn) : Code Unit)
      fun _ v' => v' = if goesOn then v.hold { h with state := state } else v.drop := by
  cases goesOn with
  | false => exact ensures_setTaskState hand fun live => absurd live settled
  | true =>
    refine ensures_held hand rfl (fun s valid mine known _ => ?_) rfl
    subst known
    exact ⟨{ valid with unsettled := fun live _ => absurd live settled, delivery := { valid.delivery with } },
      ⟨rfl, Or.inl rfl, rfl, rfl⟩, Or.inl ⟨mine, rfl⟩⟩

/-- The plain `detach_.store(true)`, by the thread that still writes to the task. -/
theorem ensures_detach (hand : v.hand = some h) (ended : h.Over m) (settled : ¬ TaskState.Live h.state) :
    Ensures m i v (.store (·.detach i) : Code Unit)
      fun _ v' => v' = v.hold { h with cleared := false, outcome := some h.bytes } := by
  refine ensures_held hand rfl (fun s valid mine known admitted => ?_) rfl
  subst known
  have other := (admitted i .detaches rfl).1
  have kept := valid.detached ended (fun mode => absurd mode other) s.marked (fun set => (valid.marked set).1)
    (Or.inr settled) s.holder (Or.inl rfl) ((i, .detaches) :: s.accesses)
  exact ⟨kept, valid.undisturbed rfl rfl rfl rfl, Or.inl ⟨mine, rfl⟩⟩

theorem ensures_detach_release (hand : v.hand = some h) (ended : h.Over m) (settled : ¬ TaskState.Live h.state) :
    Ensures m i v (.store (fun s => (s.detach i).release) : Code Unit) fun _ v' => v' = v.drop := by
  refine ensures_held hand rfl (fun s valid mine known admitted => ?_) rfl
  subst known
  have other := (admitted i .detaches rfl).1
  have kept := valid.detached ended (fun mode => absurd mode other) s.marked (fun set => (valid.marked set).1)
    (Or.inr settled) none (Or.inr settled) ((i, .detaches) :: s.accesses)
  exact ⟨kept, valid.undisturbed rfl rfl rfl rfl, Or.inr ⟨rfl, rfl⟩⟩

/-- Without being the one that writes to the task, the store is not permitted. -/
theorem ensures_detach_free {post : Unit → View → Prop} {write : Shared → Shared} (free : v.hand = none)
    (detaches : ∀ s, (write s).accesses = (i, .detaches) :: s.accesses) :
    Ensures m i v (.store write : Code Unit) post := by
  apply Ensures.exchange
  intro s holds admitted
  obtain ⟨-, rfl⟩ := holds
  have permitted := admitted i .detaches (detaches s)
  have own : (view m i s).hand = some s.held := if_pos permitted.2
  exact absurd (own.symm.trans free) nofun

theorem ensures_reject (hand : v.hand = some h) (fresh : h.outcome = none) :
    Ensures m i v (.store (·.reject) : Code Unit) fun _ v' => v' = v.drop := by
  refine ensures_held hand rfl (fun s valid mine known _ => ?_) rfl
  subst known
  exact ⟨{ valid with unsettled := fun _ _ => fresh, delivery := { valid.delivery with } },
    ⟨rfl, Or.inl rfl, rfl, rfl⟩, Or.inr ⟨rfl, rfl⟩⟩

/-- `MarkDetachedAndComplete(false)` -/
theorem ensures_clear (hand : v.hand = some h) (ended : h.outstanding = false) :
    Ensures m i v (.store (·.clear) : Code Unit)
      fun _ v' => v' = v.hold { h with cleared := true, completion := none } := by
  refine ensures_held hand rfl (fun s valid mine known _ => ?_) rfl
  subst known
  refine ⟨{ valid with
    cleared := fun _ => rfl
    signaled := fun _ => nofun
    apart := fun _ out => absurd (ended.symm.trans out) nofun
    delivery := { valid.delivery with } }, ⟨rfl, Or.inl rfl, rfl, rfl⟩, Or.inl ⟨mine, rfl⟩⟩

theorem ensures_reset (hand : v.hand = some h) (ended : h.outstanding = false) (unmarked : h.marked = false)
    (cleared : h.cleared = true) (fresh : h.outcome = none) :
    Ensures m i v (.store (·.reset) : Code Unit) fun _ v' => v' = v.hold { h with stage := .idle } := by
  refine ensures_held hand rfl (fun s valid mine known _ => ?_) rfl
  subst known
  have attached : s.task.detach = false := valid.cleared cleared
  refine ⟨{ valid with
    signaled := fun _ detached => absurd (attached.symm.trans detached) nofun
    apart := fun _ out => absurd (ended.symm.trans out) nofun
    marked := fun marked => absurd (unmarked.symm.trans marked) nofun
    waiting := fun mode j waits => absurd fresh (valid.waiting mode j waits).1
    delivery := {
      exchanged := nofun
      kept := fun _ late => absurd rfl late
      parked := valid.delivery.parked
      flushed := fun _ late => by rcases late with late | late <;> contradiction
      freed := fun _ => nofun } }, ⟨rfl, Or.inl rfl, rfl, rfl⟩, Or.inl ⟨mine, rfl⟩⟩

/-- The result of an unprepared operation. -/
theorem ensures_setResult {res : Int} (hand : v.hand = some h) (fresh : h.outcome = none)
    (cleared : h.cleared = true) :
    Ensures m i v (.store (·.setResult res) : Code Unit) fun _ v' => v' = v.hold { h with bytes := res } := by
  refine ensures_held hand rfl (fun s valid mine known _ => ?_) rfl
  subst known
  have attached : s.task.detach = false := valid.cleared cleared
  refine ⟨{ valid with
    signaled := fun _ detached => absurd (attached.symm.trans detached) nofun
    outcome := fun _ known => absurd (known.symm.trans fresh) nofun
    delivery := { valid.delivery with } }, ⟨rfl, Or.inl rfl, rfl, rfl⟩, Or.inl ⟨mine, rfl⟩⟩

theorem ensures_deliver {res : Int} (hand : v.hand = some h) (fresh : h.outcome = none) :
    Ensures m i v (.store (·.deliver res) : Code Unit)
      fun _ v' => v' = v.hold { h with bytes := res, completion := some res } := by
  refine ensures_held hand rfl (fun s valid mine known _ => ?_) rfl
  subst known
  refine ⟨{ valid with
    signaled := fun mode detached => ⟨(valid.signaled mode detached).1, fun _ => Option.some.inj⟩
    outcome := fun _ known => absurd (known.symm.trans fresh) nofun
    delivery := { valid.delivery with } }, ⟨rfl, Or.inl rfl, rfl, rfl⟩, Or.inl ⟨mine, rfl⟩⟩

/-! ### `AddTask` -/

/-- The submission is handed to the ring with its cells cleared. -/
theorem ensures_queueSqe {flag : EventFlag} {k : Nat} (hand : v.hand = some h) (fresh : h.outcome = none)
    (cleared : h.cleared = true) (idle : h.stage = .idle) :
    Ensures m i v (queueSqe i flag k)
      fun sqe v' => if sqe then v' = v.drop else v' = v ∧ (m = .waited → flag ≠ .kError) := by
  apply Ensures.atomic
  intro c s t holds stepped admitted
  cases Option.some.inj stepped
  obtain ⟨valid, rfl⟩ := holds
  cases sqe : c.sqe with
  | false =>
    rw [sqe] at admitted
    exact ⟨_, ⟨rfl, admitted i (.refuses flag) rfl⟩,
      moves_aside { valid with delivery := { valid.delivery with } } fun _ => rfl⟩
  | true =>
    obtain ⟨mine, rfl⟩ := hand_some hand
    have kept : Valid m (s.queue flag k) := { valid with
      cleared := nofun
      apart := fun _ _ => ⟨valid.cleared cleared, idle⟩
      unsettled := fun _ _ => fresh
      delivery := { valid.delivery with } }
    exact ⟨view m i (s.queue flag k), rfl, moves_held kept mine (Or.inr rfl) ⟨rfl, Or.inl rfl, rfl, rfl⟩⟩

theorem ensures_queueExtraSqe (cqe : Choice → Option Cqe) :
    Ensures m i v (queueExtraSqe cqe) fun _ v' => v' = v := by
  apply Ensures.atomic
  intro c s t holds stepped _
  cases Option.some.inj stepped
  obtain ⟨valid, rfl⟩ := holds
  cases c.sqe with
  | false => exact ⟨_, rfl, moves_aside valid fun _ => rfl⟩
  | true => exact ⟨_, rfl, moves_aside { valid with delivery := { valid.delivery with } } fun _ => rfl⟩

/-- What is known of the task once the CAS of `AddTask` has succeeded. -/
structure Held.Gated (h : Held) : Prop where
  outstanding : h.outstanding = false
  outcome : h.outcome = none
  unmarked : h.marked = false

/-- What the CAS of `AddTask` leaves behind. -/
def Gates (v : View) (gate : Option Nat) (v' : View) : Prop :=
  if gate.isSome then v.hand = none ∧ ∃ h, v' = v.hold h ∧ h.Gated else v' = v

theorem ensures_gate (state : TaskState) :
    Ensures m i v (.exchange (fun s => if s.task.taskState = state then some (s.submission + 1) else none)
      (fun s => if s.task.taskState = state then s.gate i else s) : Code (Option Nat)) (Gates v) := by
  apply Ensures.exchange
  intro s holds admitted
  obtain ⟨valid, rfl⟩ := holds
  by_cases same : s.task.taskState = state
  · simp only [if_pos same] at admitted ⊢
    obtain ⟨free, nobody⟩ := admitted i .gates rfl
    have kept : Valid m (s.gate i) := { valid with
      cleared := nofun
      apart := fun _ => nofun
      outcome := nofun
      marked := nofun
      unsettled := fun _ _ => rfl
      waiting := fun mode j waits => absurd (nobody mode ▸ waits) List.not_mem_nil
      delivery := { valid.delivery with } }
    have quiet : Undisturbed m s (s.gate i) := by
      refine ⟨rfl, Or.inr ?_, rfl, rfl⟩
      by_cases mode : m = .apart
      · exact Or.inl mode
      · exact Or.inr (nobody mode)
    refine ⟨view m i (s.gate i), ?_, moves_takes kept free rfl quiet⟩
    simp only [Gates, Option.isSome_some, if_true]
    exact ⟨congrArg View.hand (view_free free), (s.gate i).held,
      View.ext (if_pos rfl) (quiet.awaits i) (quiet.lock i), rfl, rfl, rfl⟩
  · simp only [if_neg same]
    refine ⟨_, ?_, moves_aside valid fun _ => rfl⟩
    simp only [Gates, Option.isSome_none, Bool.false_eq_true, if_false]
    rfl

theorem ensures_tryTransitionToSubmitted : Ensures m i v (tryTransitionToSubmitted i) (Gates v) := by
  apply Ensures.bind ensures_loadTask
  rintro task _ rfl
  split
  · exact Ensures.pure rfl
  · exact ensures_gate task.taskState

theorem ensures_addBusy : Ensures m i v addBusy fun r v' => r = false ∧ v' = v := by
  apply Ensures.bind (ensures_setDebugStr _)
  rintro _ _ rfl
  apply Ensures.bind ensures_undetach
  rintro _ _ rfl
  exact Ensures.pure ⟨rfl, rfl⟩

/-- The cells as `AddTask` hands them to the ring. -/
structure Held.Readied (h : Held) : Prop extends h.Gated where
  cleared : h.cleared = true
  idle : h.stage = .idle
  completion : h.completion = none

theorem Held.Readied.ended (readied : h.Readied) (other : m ≠ .waited) : h.Over m := by
  refine ⟨readied.unmarked, fun _ => readied.outstanding, fun _ r completed => ?_, fun mode => absurd mode other⟩
  rw [readied.completion] at completed
  contradiction

theorem ensures_finishSqe (k : Nat) : Ensures m i v (finishSqe k) fun _ v' => v' = v := by
  refine Ensures.bind (ensures_storeTask fun _ => rfl) ?_
  rintro _ _ rfl
  apply Ensures.bind ensures_loadTask
  rintro task _ rfl
  split
  · apply Ensures.bind (ensures_queueExtraSqe _)
    rintro _ _ rfl
    exact Ensures.pure rfl
  · exact Ensures.pure rfl

theorem ensures_queueFailedTask {k : Nat} (hand : v.hand = some h) (readied : h.Readied) (awake : v.awaits = none) :
    Ensures m i v (queueFailedTask i k) fun _ v' => v' = v.drop := by
  apply Ensures.bind (ensures_queueSqe hand readied.outcome readied.cleared readied.idle)
  rintro (_ | _) w queued
  · obtain ⟨rfl, queues⟩ := queued
    have other : m ≠ .waited := fun mode => queues mode rfl
    exact ensures_call ⟨awake, h, hand, readied.ended other, readied.outcome⟩ fun _ _ dropped => dropped
  · exact Ensures.pure queued

theorem ensures_submitTask {k : Nat} (hand : v.hand = some h) (readied : h.Readied) (awake : v.awaits = none) :
    Ensures m i v (submitTask i k) fun _ v' => v' = v.drop := by
  refine Ensures.bind ensures_loadTask ?_
  rintro task _ rfl
  split
  · refine Ensures.bind (ensures_queueSqe hand readied.outcome readied.cleared readied.idle) ?_
    rintro (_ | _) w queued
    · obtain ⟨rfl, -⟩ := queued
      exact ensures_queueFailedTask hand readied awake
    · obtain rfl : w = _ := queued
      exact ensures_finishSqe k
  · refine Ensures.bind (ensures_queueExtraSqe _) ?_
    rintro (_ | _) _ rfl
    · exact ensures_queueFailedTask hand readied awake
    · refine Ensures.bind (ensures_setResult hand readied.outcome readied.cleared) ?_
      rintro _ _ rfl
      have same : Held.Readied { h with bytes := -EINVAL } := { readied with }
      refine Ensures.bind (ensures_queueFailedTask rfl same awake) ?_
      rintro _ _ rfl
      split
      · exact ensures_finishSqe k
      · exact Ensures.pure rfl

theorem ensures_resetTryCount : Ensures m i v resetTryCount fun _ v' => v' = v := by
  apply Ensures.bind ensures_loadTask
  rintro task _ rfl
  split
  · exact ensures_storeTask fun _ => rfl
  · exact Ensures.pure rfl

theorem ensures_submitReserved {k : Nat} (hand : v.hand = some h) (gated : h.Gated) (awake : v.awaits = none) :
    Ensures m i v (submitReserved i k) fun _ v' => v' = v.drop := by
  refine Ensures.bind (ensures_clear hand gated.outstanding) ?_
  rintro _ _ rfl
  refine Ensures.bind (ensures_storeTask fun _ => rfl) ?_
  rintro _ _ rfl
  refine Ensures.bind ensures_resetTryCount ?_
  rintro _ _ rfl
  refine Ensures.bind (ensures_reset rfl gated.outstanding gated.unmarked rfl gated.outcome) ?_
  rintro _ _ rfl
  exact ensures_submitTask rfl ⟨⟨gated.outstanding, gated.outcome, gated.unmarked⟩, rfl, rfl, rfl⟩ awake

/-- `AddTask` keeps what its caller knows; it succeeds only on a task that the
caller is not writing to. -/
theorem ensures_addTask (awake : v.awaits = none) :
    Ensures m i v (addTask i) fun r v' => v' = v ∧ (r = true → v.hand = none) := by
  refine Ensures.bind ensures_tryTransitionToSubmitted ?_
  rintro (_ | k) w gates
  · cases gates
    refine Ensures.mono ensures_addBusy ?_
    rintro _ _ ⟨rfl, rfl⟩
    exact ⟨rfl, nofun⟩
  · obtain ⟨free, h, rfl, gated⟩ := gates
    have back : (v.hold h).drop = v := View.drop_hold free
    refine Ensures.bind (M := fun _ w => w = v.hold h) (Ensures.choose fun _ => rfl) ?_
    rintro gate _ rfl
    split
    · refine Ensures.bind (ensures_submitReserved rfl gated awake) ?_
      rintro _ _ rfl
      exact Ensures.pure ⟨back, fun _ => free⟩
    · refine Ensures.bind (ensures_reject rfl gated.outcome) ?_
      rintro _ _ rfl
      exact Ensures.pure ⟨back, nofun⟩

end Talon.Waiting
