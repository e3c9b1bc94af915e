import Talon.Handler.ChainProofs
import Talon.Handler.Rejection

/-! The life of a task with `SetRepeatForever`, as the results of its operations make
it: what the handler is called with, how often the task is submitted, and how it ends. -/
namespace Talon.Handler
open Interleaving

/-- What happens to a task. -/
inductive Episode where
  | submitted
  | called (bytesTransferred : Int)
  | destroyed
  deriving DecidableEq

def Event.episode (a : Addr) : Event → Option Episode
  | .queued b _ _ => if b = a then some .submitted else none
  | .handled b _ bytes => if b = a then some (.called bytes) else none
  | .destroyed b _ _ _ => if b = a then some .destroyed else none
  | _ => none

/-- What has happened to the task, latest first. -/
def State.episodes (s : State) (a : Addr) : List Episode := s.log.filterMap (Event.episode a)

/-- The episodes so far, and the state in which the task was deleted. -/
structure Life where
  told : List Episode := [.submitted]
  ended : Option TaskState := none

/-- The next result. Nothing follows the end, and `-EAGAIN` is not among the results: its
dispatch does not return. -/
def Life.next (retries : Bool) (life : Life) (res : Int) : Life :=
  if 0 ≤ res then { life with told := life.told ++ [.called res, .submitted] }
  else if res = -ECANCELED then ⟨life.told ++ [.destroyed], some .kCanceled⟩
  else if retries then { life with told := life.told ++ [.submitted] }
  else ⟨life.told ++ [.called res, .destroyed], some .kFailed⟩

/-- What the results make of a task that repeats. -/
def Life.after (retries : Bool) (results : List Int) : Life := results.foldl (Life.next retries) {}

/-- A task that repeats, without a successor. `SetRepeatForever` has taken the timeout away. -/
structure Repeats (retries : Bool) (task : Task) : Prop where
  supported : task.supported
  repeats : task.repeatForever = true
  untimed : task.timeoutMs ≤ 0
  last : task.next = none
  tries : 0 ≤ task.tryCount
  retries : decide (1 < task.maxRetryCount) = retries

/-- Before `AddTask`. -/
structure Prepared (retries : Bool) (a : Addr) (s : State) : Prop where
  idle : (s.task a).taskState ≠ .kSubmitted
  repeats : Repeats retries (s.task a)
  clear : s.entries [a] = []
  unlimited : s.maxInflightOps = 0

/-- One operation of the task is under way. -/
structure Streams (retries : Bool) (a : Addr) (s : State) : Prop where
  submitted : (s.task a).taskState = .kSubmitted
  uncancelled : (s.task a).isCancel = false
  repeats : Repeats retries (s.task a)
  counted : 0 < (s.task a).maxRetryCount → (s.task a).tryCount = 0
  entries : ∃ k, s.entries [a] = [⟨a, .kNone, k⟩]
  unlimited : s.maxInflightOps = 0

/-- The task is deleted, and none of its operations is left. -/
structure Ended (a : Addr) (state : TaskState) (s : State) : Prop where
  state : (s.task a).taskState = state
  dead : (s.task a).alive = false
  clear : s.entries [a] = []

/-- What does not touch the task. -/
structure Ignores (a : Addr) (s t : State) : Prop where
  task : t.task a = s.task a
  entries : t.entries [a] = s.entries [a]
  episodes : t.episodes a = s.episodes a
  limit : t.maxInflightOps = s.maxInflightOps

/-- The dispatch of a completion. The handler, where it is called, does not touch the task. -/
inductive Answered (e : Entry) (res : Int) (s : State) : State → Prop where
  | calls (dispatches : Dispatches e res s t) (returns : Returns e.task e.submission res s before m t)
      (handler : Ignores e.task (before.handled e.task) m) : Answered e res s t
  | passes (dispatches : Dispatches e res s t)
      (silent : ∀ before m, ¬ Returns e.task e.submission res s before m t) : Answered e res s t

/-- `AddTask`, then completions of the task with any results, and whatever else happens
in between. -/
inductive StreamRun (a : Addr) (s : State) : List Int → State → Prop where
  | adds (run : Runs (code i) (addTask i a) s r t) (sqes : t.refused = s.refused) : StreamRun a s [] t
  | elsewhere (run : StreamRun a s results m) (apart : Ignores a m t) : StreamRun a s results t
  | completes (run : StreamRun a s results m) (own : e.task = a) (answered : Answered e res m t)
      (sqes : t.refused = m.refused) : StreamRun a s (results ++ [res]) t

/-- The task has lived through this since state `s`. -/
structure Lives (retries : Bool) (a : Addr) (s : State) (life : Life) (t : State) : Prop where
  told : t.episodes a = life.told.reverse ++ s.episodes a
  going : life.ended = none → Streams retries a t
  finished : ∀ state, life.ended = some state → Ended a state t

variable {i : Thread} {a : Addr} {k : Nat} {res : Int} {e : Entry} {retries : Bool} {s t m : State} {life : Life}
  {results : List Int}

/-! ### Submission -/

theorem episodes_accept : (s.accept i a).episodes a = .submitted :: s.episodes a := by
  have filled (s : State) (k : Nat) : (s.fill a k).episodes a = .submitted :: s.episodes a := by
    unfold State.fill
    split <;> simp [State.episodes, State.queueExtra, State.queue, State.setTask, List.filterMap_cons, Event.episode]
  change (State.fill _ a s.submissions).episodes a = _
  rw [filled]
  simp [State.episodes, State.setTask, State.reserve, State.gate, List.filterMap_cons, Event.episode]

theorem Prepared.adds {r : Bool} (prepared : Prepared retries a s) (run : Runs (code i) (addTask i a) s r t)
    (sqes : t.refused = s.refused) : Streams retries a t ∧ t.episodes a = .submitted :: s.episodes a := by
  have repeats := prepared.repeats
  have room : s.Room := by
    intro limited
    rw [prepared.unlimited] at limited
    contradiction
  obtain ⟨-, rfl⟩ := (runs_addTask_accepts prepared.idle room repeats.supported).mp ⟨run, sqes⟩
  have own : (s.accept i a).task a = { (s.task a).readied with taskState := .kSubmitted, userData := some a } :=
    accept_task_self
  refine ⟨⟨by rw [own], by rw [own]; rfl, ?_, ?_, ⟨s.submissions, ?_⟩, limit_accept.trans prepared.unlimited⟩,
    episodes_accept⟩
  · rw [own]
    refine ⟨repeats.supported, repeats.repeats, repeats.untimed, repeats.last, ?_, repeats.retries⟩
    rw [Task.readied]
    dsimp only
    split
    · exact Int.le_refl 0
    · exact repeats.tries
  · rw [own, Task.readied]
    exact fun retries => if_pos retries
  · rw [entries_accept List.mem_cons_self repeats.untimed, prepared.clear]
    rfl

theorem Streams.congr (streams : Streams retries a s)
    (task : ∃ detach done, t.task a = { s.task a with detach := detach, doneState := done })
    (entries : t.entries [a] = s.entries [a]) (limit : t.maxInflightOps = s.maxInflightOps) :
    Streams retries a t := by
  obtain ⟨detach, done, task⟩ := task
  have repeats := streams.repeats
  refine ⟨?_, ?_, ?_, ?_, entries ▸ streams.entries, limit.trans streams.unlimited⟩ <;> rw [task]
  · exact streams.submitted
  · exact streams.uncancelled
  · exact ⟨repeats.supported, repeats.repeats, repeats.untimed, repeats.last, repeats.tries, repeats.retries⟩
  · exact streams.counted

theorem Streams.ignores (streams : Streams retries a s) (ignores : Ignores a s t) : Streams retries a t :=
  streams.congr ⟨_, _, ignores.task⟩ ignores.entries ignores.limit

theorem Streams.only (streams : Streams retries a s) (queued : e ∈ s.ring) (own : e.task = a) :
    ∃ k, e = ⟨a, .kNone, k⟩ ∧ s.entries [a] = [⟨a, .kNone, k⟩] := by
  obtain ⟨k, alone⟩ := streams.entries
  have found : e ∈ s.entries [a] := mem_entries queued (by simp [own])
  rw [alone, List.mem_singleton] at found
  exact ⟨k, found, alone⟩

/-- The result is in the buffer, and there is no operation until the next `AddTask`. -/
structure Arrives (retries : Bool) (a : Addr) (res : Int) (s m : State) : Prop where
  repeats : Repeats retries (m.task a)
  bytes : (m.task a).buffer.bytesTransferred = res
  retries : (m.task a).maxRetryCount = (s.task a).maxRetryCount
  tries : (m.task a).tryCount = (s.task a).tryCount
  clear : m.entries [a] = []
  episodes : m.episodes a = s.episodes a
  unlimited : m.maxInflightOps = 0

theorem Streams.arrives (streams : Streams retries a s) (alone : s.entries [a] = [⟨a, .kNone, k⟩])
    (queued : ⟨a, .kNone, k⟩ ∈ s.ring) : Arrives retries a res s (s.delivered a k res) := by
  have opens : Opens [a] a s (s.delivered a k res) := opens_delivered alone queued List.mem_cons_self
  have repeats := streams.repeats
  have found : (s.delivered a k res).episodes a = s.episodes a := rfl
  refine ⟨?_, ?_, ?_, ?_, opens.clear, found, opens.limit.trans streams.unlimited⟩ <;> rw [delivered_task]
  exact ⟨repeats.supported, repeats.repeats, repeats.untimed, repeats.last, repeats.tries, repeats.retries⟩

/-- The handler has been called with the result, and has returned. -/
theorem Arrives.handled {called : State} (arrives : Arrives retries a res s called)
    (handler : Ignores a (called.handled a) m) :
    m.task a = called.task a ∧ m.entries [a] = [] ∧ m.episodes a = .called res :: s.episodes a ∧
      m.maxInflightOps = 0 := by
  refine ⟨handler.task, handler.entries.trans arrives.clear, handler.episodes.trans ?_,
    handler.limit.trans arrives.unlimited⟩
  rw [← arrives.episodes, ← arrives.bytes]
  simp [State.episodes, State.handled, State.record, Event.episode]

/-! ### Completions -/

/-- A success calls the handler and submits the task again. -/
theorem Streams.succeeds (streams : Streams retries a s) (alone : s.entries [a] = [⟨a, .kNone, k⟩])
    (succeeds : Succeeds a k res s m t) (handler : Ignores a ((s.delivered a k res).handled a) m)
    (sqes : t.refused = m.refused) :
    Streams retries a t ∧ t.episodes a = .submitted :: .called res :: s.episodes a := by
  have arrives : Arrives retries a res s (s.delivered a k res) := streams.arrives alone succeeds.queued
  obtain ⟨own, clear, episodes, unlimited⟩ := arrives.handled handler
  have repeats : Repeats retries (m.task a) := own ▸ arrives.repeats
  obtain ⟨last, finished, rfl⟩ := succeeds.finished
  obtain ⟨v, w, repeated, next, ended⟩ := runs_finishSuccess_settles (fun _ => Or.inl repeats.repeats) finished
  simp only [repeats.repeats, repeatOrDetach, if_true, runs_enter_bind, runs_pure] at repeated
  obtain ⟨r, v', added, -, rfl⟩ := repeated
  have settled : (m.settle .loop a .kSuccess (some k) false).task a = { m.task a with taskState := .kSuccess } := by
    simp [State.settle]
  have prepared : Prepared retries a (m.settle .loop a .kSuccess (some k) false) := by
    refine ⟨by rw [settled]; simp, ?_, clear, unlimited⟩
    rw [settled]
    exact ⟨repeats.supported, repeats.repeats, repeats.untimed, repeats.last, repeats.tries, repeats.retries⟩
  have same : v.refused = m.refused := by
    have first := runs_refused [] (frames_addTask (refused_frame _)) added
    have second := runs_refused [] (frames_submitNext (refused_frame _)) next
    have third : w.refused = m.refused := by rcases ended with rfl | rfl <;> exact sqes
    exact Nat.le_antisymm (third ▸ second) first
  obtain ⟨again, told⟩ := prepared.adds added same
  obtain ⟨-, rfl⟩ | ⟨n, r', successor, -⟩ := runs_submitNext next
  · have kept : last.episodes a = w.episodes a := by rcases ended with rfl | rfl <;> rfl
    refine ⟨again.congr ?_ ?_ ?_, (kept.trans told).trans (congrArg _ episodes)⟩
    · rcases ended with rfl | rfl
      · exact ⟨_, _, rfl⟩
      · refine ⟨true, .kSignaled, ?_⟩
        change (w.detached a).task a = _
        rw [State.detached, setTask_task_self]
    · rcases ended with rfl | rfl <;> rfl
    · rcases ended with rfl | rfl <;> rfl
  · rw [again.repeats.last] at successor
    contradiction

theorem Streams.acts (streams : Streams retries a s) (run : Dispatches ⟨a, .kNone, k⟩ res s t) :
    ∃ last, Runs (code .loop) (handleNormalEvent a k res)
      ((s.take ⟨a, .kNone, k⟩).find ⟨a, .kNone, k⟩) () last ∧
        t = last.release k ((s.take ⟨a, .kNone, k⟩).liveSubmission a) := by
  have live : TaskState.Live ((s.take ⟨a, .kNone, k⟩).task a).taskState := Or.inl streams.submitted
  obtain ⟨last, acted, rfl⟩ := (runs_dispatchCqe_acts (e := ⟨a, .kNone, k⟩) live).mp run.2
  exact ⟨last, (runs_actOnCqe_handles streams.uncancelled).mp acted, rfl⟩

/-- A failure that is retried submits it again, with the count at zero once more. -/
theorem Streams.retried (streams : Streams true a s) (alone : s.entries [a] = [⟨a, .kNone, k⟩])
    (failure : res < 0) (again : res ≠ -EAGAIN) (uncanceled : res ≠ -ECANCELED)
    (run : Dispatches ⟨a, .kNone, k⟩ res s t) (sqes : t.refused = s.refused) :
    Streams true a t ∧ t.episodes a = .submitted :: s.episodes a := by
  have arrives : Arrives true a res s (s.delivered a k res) := streams.arrives alone run.1
  have repeats := arrives.repeats
  obtain ⟨last, handled, rfl⟩ := streams.acts run
  obtain ⟨r, failed⟩ := (runs_handleNormalEvent_fails failure again uncanceled).mp handled
  have many : 1 < (s.task a).maxRetryCount := of_decide_eq_true streams.repeats.retries
  have counted : (s.task a).tryCount = 0 := streams.counted (by omega)
  have more : ((s.delivered a k res).task a).tryCount + 1 < ((s.delivered a k res).task a).maxRetryCount := by
    rw [arrives.tries, arrives.retries]
    omega
  obtain ⟨r', added⟩ := runs_handleFailedTask_retries more failed
  have own : (((s.delivered a k res).retried a).settle .loop a .kReady (some k) false).task a =
      { (s.delivered a k res).task a with
        taskState := .kReady, tryCount := ((s.delivered a k res).task a).tryCount + 1 } := by
    simp [State.settle, State.retried]
  have tries := repeats.tries
  have prepared : Prepared true a (((s.delivered a k res).retried a).settle .loop a .kReady (some k) false) := by
    refine ⟨by rw [own]; simp, ?_, arrives.clear, arrives.unlimited⟩
    rw [own]
    refine ⟨repeats.supported, repeats.repeats, repeats.untimed, repeats.last, ?_, repeats.retries⟩
    dsimp only
    omega
  obtain ⟨streams', told⟩ := prepared.adds added sqes
  exact ⟨streams'.congr ⟨_, _, rfl⟩ rfl rfl, told.trans (congrArg _ arrives.episodes)⟩

/-- The task is closed and deleted. -/
theorem ended_close {state : TaskState} {cause : Option Nat} {u : Unit} (last : (m.task a).next = none)
    (clear : m.entries [a] = []) (run : Runs (code i) (deleteTask a cause) (m.close i a state cause) u t) :
    Ended a state t ∧ t.episodes a = .destroyed :: m.episodes a := by
  simp only [deleteTask, runs_enter_bind, runs_pure] at run
  obtain ⟨r, t', deleted, -, rfl⟩ := run
  obtain ⟨m', next, deleted⟩ := runs_unit_bind.mp deleted
  have none_ : ((m.close i a state cause).task a).next = none := by simp [State.close, State.settle, last]
  simp only [deleteNext, loadTask, runs_load_bind, none_, runs_pure] at next
  obtain ⟨-, rfl⟩ := next
  simp only [runs_store_bind, runs_pure] at deleted
  obtain ⟨-, rfl⟩ := deleted
  refine ⟨⟨?_, ?_, clear⟩, ?_⟩
  · simp [State.destroy, State.close, State.settle]
  · simp [State.destroy]
  · simp [State.episodes, State.destroy, State.close, State.settle, State.setTask, List.filterMap_cons, Event.episode]

/-- A cancellation by the kernel ends it without a call. -/
theorem Streams.canceled (streams : Streams retries a s) (alone : s.entries [a] = [⟨a, .kNone, k⟩])
    (run : Dispatches ⟨a, .kNone, k⟩ (-ECANCELED) s t) :
    Ended a .kCanceled t ∧ t.episodes a = .destroyed :: s.episodes a := by
  have arrives : Arrives retries a (-ECANCELED) s (s.delivered a k (-ECANCELED)) := streams.arrives alone run.1
  obtain ⟨last, handled, rfl⟩ := streams.acts run
  have live : TaskState.Live (((s.take ⟨a, .kNone, k⟩).find ⟨a, .kNone, k⟩).task a).taskState :=
    Or.inl streams.submitted
  have untimed : ¬ 0 < (((s.take ⟨a, .kNone, k⟩).find ⟨a, .kNone, k⟩).task a).timeoutMs :=
    Int.not_lt.mpr streams.repeats.untimed
  have deleted := (runs_handleNormalEvent_canceled live).mp handled
  rw [if_neg untimed] at deleted
  have unchained : (((s.delivered a k (-ECANCELED)).setTask a fun task =>
      { task with debugStr := "cancelled by kernel" }).task a).next = none := by
    rw [setTask_task_self]
    exact arrives.repeats.last
  obtain ⟨ended, told⟩ := ended_close unchained (by exact arrives.clear) deleted
  exact ⟨⟨ended.state, ended.dead, ended.clear⟩, told.trans (congrArg _ arrives.episodes)⟩

/-- A failure that is not retried is reported and ends it. -/
theorem Streams.givesUp (streams : Streams retries a s) (alone : s.entries [a] = [⟨a, .kNone, k⟩])
    (queued : ⟨a, .kNone, k⟩ ∈ s.ring) (givesUp : GivesUp a k res s m t)
    (handler : Ignores a (((s.delivered a k res).retried a).handled a) m) :
    Ended a .kFailed t ∧ t.episodes a = .destroyed :: .called res :: s.episodes a := by
  have arrives : Arrives retries a res s (s.delivered a k res) := streams.arrives alone queued
  have counted : m.task a = ((s.delivered a k res).retried a).task a := handler.task
  have episodes : m.episodes a = .called res :: s.episodes a := by
    rw [handler.episodes, ← arrives.episodes]
    simp [State.episodes, State.handled, State.record, State.retried, State.setTask, Event.episode, arrives.bytes]
  obtain ⟨text, last, deleted, rfl⟩ := givesUp.finished
  have unchained : ((m.setTask a fun task => { task with debugStr := text, tryCount := 0 }).task a).next = none := by
    rw [setTask_task_self, counted, State.retried, setTask_task_self]
    exact arrives.repeats.last
  obtain ⟨ended, told⟩ := ended_close unchained (handler.entries.trans arrives.clear) deleted
  exact ⟨⟨ended.state, ended.dead, ended.clear⟩, told.trans (congrArg _ episodes)⟩

/-- `-EAGAIN` is never done with: `AddTask` turns the task away as long as it is submitted. -/
theorem Streams.blocked (streams : Streams retries a s) : ¬ Dispatches ⟨a, .kNone, k⟩ (-EAGAIN) s t := by
  rintro ⟨-, run⟩
  have stuck : Stuck a (s.take ⟨a, .kNone, k⟩) := ⟨streams.submitted, streams.uncancelled⟩
  exact run.sound blocked_verified (fun _ _ => trivial) (wp_dispatchCqe_stuck stuck)

theorem Streams.fails (streams : Streams false a s) (failure : res < 0) (again : res ≠ -EAGAIN)
    (uncanceled : res ≠ -ECANCELED) (run : Dispatches ⟨a, .kNone, k⟩ res s t) : ∃ m, GivesUp a k res s m t := by
  obtain ⟨last, handled, rfl⟩ := streams.acts run
  obtain ⟨r, failed⟩ := (runs_handleNormalEvent_fails failure again uncanceled).mp handled
  have few := of_decide_eq_false streams.repeats.retries
  have tries := streams.repeats.tries
  have exhausted : ((s.delivered a k res).task a).maxRetryCount ≤ ((s.delivered a k res).task a).tryCount + 1 := by
    rw [delivered_task]
    dsimp only
    omega
  obtain ⟨m, handled, deleted⟩ := runs_handleFailedTask_fails exhausted failed
  exact ⟨m, failure, uncanceled, by omega, handled, _, _, deleted, rfl⟩

/-! ### Whole runs -/

theorem Lives.ignores (lives : Lives retries a s life m) (ignores : Ignores a m t) : Lives retries a s life t where
  told := ignores.episodes.trans lives.told
  going unfinished := (lives.going unfinished).ignores ignores
  finished state ends := by
    have ended := lives.finished state ends
    exact ⟨ignores.task ▸ ended.state, ignores.task ▸ ended.dead, ignores.entries.trans ended.clear⟩

/-- Only the operation that is under way can complete. -/
theorem Lives.under_way (lives : Lives retries a s life m) (queued : e ∈ m.ring) (own : e.task = a) :
    life.ended = none := by
  cases ends : life.ended with
  | none => rfl
  | some state =>
    have found : e ∈ m.entries [a] := mem_entries queued (by simp [own])
    rw [(lives.finished state ends).clear] at found
    contradiction

theorem Answered.dispatches (answered : Answered e res s t) : Dispatches e res s t := by
  cases answered with
  | calls dispatches _ _ => exact dispatches
  | passes dispatches _ => exact dispatches

/-- Where the handler is called, it does not touch the task. -/
theorem Answered.handler {called m' : State} (answered : Answered e res s t)
    (returns : Returns e.task e.submission res s called m' t) :
    ∃ before m, Returns e.task e.submission res s before m t ∧ Ignores e.task (before.handled e.task) m := by
  cases answered with
  | calls _ returns handler => exact ⟨_, _, returns, handler⟩
  | passes _ silent => exact absurd returns (silent called m')

theorem Streams.goesOn {new : List Episode} (streams : Streams retries a t) (unfinished : life.ended = none)
    (lives : m.episodes a = life.told.reverse ++ s.episodes a) (told : t.episodes a = new.reverse ++ m.episodes a) :
    Lives retries a s { life with told := life.told ++ new } t := by
  refine ⟨?_, fun _ => streams, fun state finished => ?_⟩
  · rw [told, lives, List.reverse_append, List.append_assoc]
  · rw [unfinished] at finished
    contradiction

theorem Ended.stays {new : List Episode} {state : TaskState} (ended : Ended a state t)
    (lives : m.episodes a = life.told.reverse ++ s.episodes a) (told : t.episodes a = new.reverse ++ m.episodes a) :
    Lives retries a s ⟨life.told ++ new, some state⟩ t := by
  refine ⟨?_, nofun, fun state' same => ?_⟩
  · rw [told, lives, List.reverse_append, List.append_assoc]
  · obtain rfl := Option.some.inj same
    exact ended

/-- No dispatch with this result returns. -/
theorem Lives.served (lives : Lives retries a s life m) (own : e.task = a) (answered : Answered e res m t) :
    res ≠ -EAGAIN := by
  rintro rfl
  have run := answered.dispatches
  have streams := lives.going (lives.under_way run.1 own)
  obtain ⟨k, rfl, -⟩ := streams.only run.1 own
  exact streams.blocked run

/-- One completion. -/
theorem Lives.answered (lives : Lives retries a s life m) (own : e.task = a) (answered : Answered e res m t)
    (sqes : t.refused = m.refused) : Lives retries a s (life.next retries res) t := by
  have run := answered.dispatches
  have again := lives.served own answered
  have unfinished := lives.under_way run.1 own
  have streams := lives.going unfinished
  obtain ⟨k, rfl, alone⟩ := streams.only run.1 own
  unfold Life.next
  by_cases success : 0 ≤ res
  · rw [if_pos success]
    obtain ⟨m', succeeded⟩ := (dispatches_iff_succeeds streams.submitted streams.uncancelled success).mp run
    obtain ⟨before, m', returns, handler⟩ := answered.handler (.succeeds succeeded)
    cases returns with
    | fails givesUp => exact absurd givesUp.failure (Int.not_lt.mpr success)
    | succeeds succeeded =>
      have same : t.refused = m'.refused := by
        obtain ⟨last, finished, rfl⟩ := succeeded.finished
        have first : (m.delivered a k res).refused ≤ m'.refused := refused_handler succeeded.handled
        have second : m'.refused ≤ last.refused := refused_finishSuccess finished
        exact Nat.le_antisymm (sqes ▸ first) second
      obtain ⟨streams', told⟩ := streams.succeeds alone succeeded handler same
      exact streams'.goesOn unfinished lives.told told
  rw [if_neg success]
  have failure := Int.not_le.mp success
  by_cases canceled : res = -ECANCELED
  · subst canceled
    rw [if_pos rfl]
    obtain ⟨ended, told⟩ := streams.canceled alone run
    exact ended.stays lives.told told
  rw [if_neg canceled]
  cases retries with
  | true =>
    obtain ⟨streams', told⟩ := streams.retried alone failure again canceled run sqes
    exact streams'.goesOn unfinished lives.told told
  | false =>
    obtain ⟨m', failed⟩ := streams.fails failure again canceled run
    obtain ⟨before, m', returns, handler⟩ := answered.handler (.fails failed)
    cases returns with
    | succeeds succeeded => exact absurd succeeded.success success
    | fails givesUp =>
      obtain ⟨ended, told⟩ := streams.givesUp alone run.1 givesUp handler
      exact ended.stays lives.told told

/-- The results decide the whole life of a task that repeats: the calls of its handler
with their values, the submissions, and the one deletion. Until then it has one operation
under way after each of them. No run comes past `-EAGAIN`. -/
theorem repeating_life (prepared : Prepared retries a s) (run : StreamRun a s results t) :
    -EAGAIN ∉ results ∧ Lives retries a s (Life.after retries results) t := by
  induction run with
  | adds run sqes =>
    obtain ⟨streams, told⟩ := prepared.adds run sqes
    exact ⟨nofun, told, fun _ => streams, nofun⟩
  | elsewhere run apart ih => exact ⟨ih.1, ih.2.ignores apart⟩
  | completes run own answered sqes ih =>
    refine ⟨fun member => ?_, ?_⟩
    · rcases List.mem_append.mp member with earlier | last
      · exact ih.1 earlier
      · exact ih.2.served own answered (List.mem_singleton.mp last).symm
    · rw [Life.after, List.foldl_append]
      exact ih.2.answered own answered sqes

theorem succeeds_succeed (ready : s.succeedable a k res = true) :
    Succeeds a k res s ((s.delivered a k res).handled a) (s.succeed a k res) := by
  simp only [State.succeedable, Bool.and_eq_true, decide_eq_true_eq, Bool.not_eq_true'] at ready
  obtain ⟨⟨⟨⟨queued, submitted⟩, uncancelled⟩, success⟩, ends⟩ := ready
  obtain ⟨⟨u, last⟩, evaluated⟩ := Option.isSome_iff_exists.mp ends
  refine ⟨queued, submitted, uncancelled, success, runs_executeCompletionHandler_silent _ a, last,
    runs_of_eval evaluated, ?_⟩
  simp only [State.succeed, evaluated, Option.map_some, Option.getD_some]

def repeatedRead : State := single { taskType := .kRead, fd := 3, repeatForever := true }

/-- It has read five bytes once. -/
def readAgain : State := (repeatedRead.accept (.client 0) 1).succeed 1 0 5

/-- Five bytes are read, and the next operation is cancelled. -/
theorem read_until_canceled : ∃ t, StreamRun 1 repeatedRead [5, -ECANCELED] t ∧
    Lives false 1 repeatedRead (Life.after false [5, -ECANCELED]) t ∧
    t.episodes 1 = [.destroyed, .submitted, .called 5, .submitted] := by
  have prepared : Prepared false 1 repeatedRead :=
    ⟨nofun, ⟨rfl, rfl, Int.le_refl 0, rfl, Int.le_refl 0, rfl⟩, rfl, rfl⟩
  have room : repeatedRead.Room := fun limited => absurd limited (Int.lt_irrefl 0)
  have added := (runs_addTask_accepts (i := .client 0) prepared.idle room prepared.repeats.supported).mpr ⟨rfl, rfl⟩
  have adds : StreamRun 1 repeatedRead [] (repeatedRead.accept (.client 0) 1) := .adds added.1 added.2
  have succeeds : Succeeds 1 0 5 (repeatedRead.accept (.client 0) 1) _ readAgain :=
    succeeds_succeed (by decide +kernel)
  have dispatches := (dispatches_iff_succeeds succeeds.submitted succeeds.uncancelled succeeds.success).mpr
    ⟨_, succeeds⟩
  have read : StreamRun 1 repeatedRead [5] readAgain :=
    adds.completes rfl (.calls dispatches (.succeeds succeeds) ⟨rfl, rfl, rfl, rfl⟩) (by decide +kernel)
  have silent (before m t : State) : ¬ Returns 1 1 (-ECANCELED) readAgain before m t := by
    rintro (⟨⟨-, -, -, success, -⟩⟩ | ⟨⟨-, uncanceled, -⟩⟩)
    · exact absurd success (by decide)
    · exact uncanceled rfl
  have canceled : Dispatches ⟨1, .kNone, 1⟩ (-ECANCELED) readAgain _ := dispatches_dispatch (by decide +kernel)
  have full := read.completes rfl (.passes canceled fun before m => silent before m _) (by decide +kernel)
  exact ⟨_, full, (repeating_life prepared full).2, by decide +kernel⟩

end Talon.Handler
