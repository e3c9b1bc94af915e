import Talon.Handler.Outcome

/-! Retries of a failing operation. `HandleFailedTask` counts the attempts, but
each retry goes through `AddTask`, which sets the count back. -/
namespace Talon.Handler
open Interleaving

/-- An operation of the task is handed to the ring. -/
def Event.submits (a : Addr) : Event → Bool
  | .queued b flag _ => decide (b = a ∧ flag = .kNone)
  | _ => false

/-- The completion handler of the task is called. -/
def Event.answers (a : Addr) : Event → Bool
  | .handled b _ _ => decide (b = a)
  | _ => false

/-- A task is constructed in the storage. -/
def Event.creates (a : Addr) : Event → Bool
  | .created b => decide (b = a)
  | _ => false

/-- What may happen between two attempts: nothing that acts on the task, apart
from a rejected `AddTask`. -/
structure Untouched (a : Addr) (s t : State) : Prop where
  task : ∃ detach text, t.task a = { s.task a with detach := detach, debugStr := text }
  submits : t.tally (Event.submits a) = s.tally (Event.submits a)
  answers : t.tally (Event.answers a) = s.tally (Event.answers a)

/-- The completion of the task's latest submission is dispatched as a failure,
with a slot and SQEs to spare, and its storage is not reused meanwhile. -/
structure Failure (a : Addr) (s t : State) : Prop where
  room : s.Room
  dispatched : ∃ k res, res < 0 ∧ res ≠ -EAGAIN ∧ res ≠ -ECANCELED ∧ s.current a = some k ∧
    Dispatches ⟨a, .kNone, k⟩ res s t
  sqes : t.refused = s.refused
  kept : t.tally (Event.creates a) = s.tally (Event.creates a)

/-- So many attempts in a row fail. -/
inductive Fails (a : Addr) : Nat → State → State → Prop where
  | none : Fails a 0 s s
  | next (earlier : Fails a j s m) (apart : Untouched a m before) (failure : Failure a before t) :
      Fails a (j + 1) s t

/-- At most `n` submissions, and after the last failure one call of the handler
and the final state. -/
structure Bounded (n : Nat) (a : Addr) (s t : State) : Prop where
  submits : t.tally (Event.submits a) ≤ s.tally (Event.submits a) + n
  answers : t.tally (Event.answers a) = s.tally (Event.answers a) + 1
  state : (t.task a).taskState = .kFailed

/-- The task is in its attempt number `j + 1` since state `s`, and its handler
has not been called. -/
structure Attempt (n : Nat) (a : Addr) (j : Nat) (s t : State) : Prop where
  state : (t.task a).taskState = .kSubmitted
  uncancelled : (t.task a).isCancel = false
  tries : (t.task a).tryCount = 0
  retries : (t.task a).maxRetryCount = n
  supported : (t.task a).supported
  submits : t.tally (Event.submits a) = s.tally (Event.submits a) + (j + 1)
  answers : t.tally (Event.answers a) = s.tally (Event.answers a)

variable {i : Thread} {a : Addr} {k n j : Nat} {res : Int} {s t m : State} {u : Unit}

theorem submits_accept (s : State) (i : Thread) (a : Addr) :
    (s.accept i a).tally (Event.submits a) = s.tally (Event.submits a) + 1 := by
  unfold State.accept State.fill
  split <;> simp [State.tally, State.queue, State.queueExtra, State.setTask, State.reserve, State.gate,
    State.submit, Event.submits]

theorem answers_accept (s : State) (i : Thread) (a : Addr) :
    (s.accept i a).tally (Event.answers a) = s.tally (Event.answers a) := by
  unfold State.accept State.fill
  split <;> rfl

/-- An accepted task that is retried at all has its count at zero. -/
theorem attempt_accept (positive : 1 ≤ n) (retries : (m.task a).maxRetryCount = n)
    (supported : (m.task a).supported) (submits : m.tally (Event.submits a) = s.tally (Event.submits a) + j)
    (answers : m.tally (Event.answers a) = s.tally (Event.answers a)) :
    Attempt n a j s (m.accept i a) := by
  have positive' : 0 < (m.task a).maxRetryCount := by omega
  refine ⟨?_, ?_, ?_, ?_, ?_, ?_, (answers_accept m i a).trans answers⟩
  · rw [accept_task_self]
  · rw [accept_task_self]
    rfl
  · rw [accept_task_self]
    exact if_pos positive'
  · rw [accept_task_self]
    exact retries
  · rw [accept_task_self]
    exact supported
  · rw [submits_accept, submits, Nat.add_assoc]

theorem Attempt.untouched (attempt : Attempt n a j s m) (apart : Untouched a m t) : Attempt n a j s t := by
  obtain ⟨detach, text, same⟩ := apart.task
  refine ⟨?_, ?_, ?_, ?_, ?_, apart.submits.trans attempt.submits, apart.answers.trans attempt.answers⟩ <;>
    rw [same]
  · exact attempt.state
  · exact attempt.uncancelled
  · exact attempt.tries
  · exact attempt.retries
  · exact attempt.supported

theorem Attempt.deliver (attempt : Attempt n a j s m) (res : Int) : Attempt n a j s (m.deliver a res) := by
  refine ⟨?_, ?_, ?_, ?_, ?_, attempt.submits, attempt.answers⟩ <;> rw [State.deliver, setTask_task_self]
  · exact attempt.state
  · exact attempt.uncancelled
  · exact attempt.tries
  · exact attempt.retries
  · exact attempt.supported

/-- What the dispatch does before and after is no part of the attempt. -/
theorem Attempt.found (attempt : Attempt n a j s m) (e : Entry) : Attempt n a j s ((m.take e).find e) :=
  ⟨attempt.state, attempt.uncancelled, attempt.tries, attempt.retries, attempt.supported,
    attempt.submits, attempt.answers⟩

theorem Attempt.release (attempt : Attempt n a j s m) (k : Nat) (target : Option Nat) :
    Attempt n a j s (m.release k target) :=
  ⟨attempt.state, attempt.uncancelled, attempt.tries, attempt.retries, attempt.supported,
    attempt.submits, attempt.answers⟩

/-- A failure reaches `HandleFailedTask` in the middle of the attempt. -/
theorem Attempt.fails (attempt : Attempt n a j s m) (failure : Failure a m t) :
    ∃ before last k r target, Attempt n a j s before ∧ before.Room ∧ last.refused = before.refused ∧
      last.tally (Event.creates a) = before.tally (Event.creates a) ∧
      Runs (code .loop) (code .loop (.handleFailedTask a (some k))) before r last ∧
      t = last.release k target := by
  obtain ⟨k, res, negative, again, uncancelled, current, -, run⟩ := failure.dispatched
  obtain ⟨last, acted, rfl⟩ := (runs_dispatchCqe_acts (e := ⟨a, .kNone, k⟩)
    (s := m.take ⟨a, .kNone, k⟩) (Or.inl attempt.state)).mp run
  have normal := (runs_actOnCqe_handles attempt.uncancelled).mp acted
  obtain ⟨r, failed⟩ := (runs_handleNormalEvent_fails negative again uncancelled).mp normal
  exact ⟨_, last, k, r, _, (attempt.found ⟨a, .kNone, k⟩).deliver res, failure.room, failure.sqes,
    failure.kept, failed, rfl⟩

/-- With two or more attempts allowed, each failure begins another one, and the
count is back at zero. -/
theorem Attempt.retries_again (more : 2 ≤ n) (attempt : Attempt n a j s m) (failure : Failure a m t) :
    Attempt n a (j + 1) s t := by
  obtain ⟨before, last, k, r, target, attempt, room, sqes, -, failed, rfl⟩ := attempt.fails failure
  have tries := attempt.tries
  have retries := attempt.retries
  obtain ⟨r', added⟩ := runs_handleFailedTask_retries (by omega) failed
  have readied : (((before.retried a).settle .loop a .kReady (some k) false).task a) =
      { before.task a with taskState := .kReady, tryCount := (before.task a).tryCount + 1 } := by
    simp [State.settle, State.retried]
  obtain ⟨-, rfl⟩ := (runs_addTask_accepts (by rw [readied]; simp) (by exact room)
    (by rw [readied]; exact attempt.supported)).mp ⟨added, sqes⟩
  have again := attempt_accept (i := .loop) (s := s) (j := j + 1) (Nat.le_of_succ_le more)
    (by rw [readied]; exact retries) (by rw [readied]; exact attempt.supported)
    (by exact attempt.submits) (by exact attempt.answers)
  exact again.release k target

theorem Fails.attempt (more : 2 ≤ n) (first : Attempt n a 0 s m) (fails : Fails a j m t) :
    Attempt n a j s t := by
  induction fails with
  | none => exact first
  | next earlier apart failure ih => exact ((ih first).untouched apart).retries_again more failure

/-- A submitted task is neither handed to the ring nor answered by code that does
not own it, as long as its storage is not reused. -/
structure Held (a : Addr) (base s : State) : Prop where
  state : (s.task a).taskState = .kSubmitted
  submits : s.tally (Event.submits a) = base.tally (Event.submits a)
  answers : s.tally (Event.answers a) = base.tally (Event.answers a)
  kept : s.tally (Event.creates a) = base.tally (Event.creates a)

def Reused (a : Addr) (base s : State) : Prop :=
  base.tally (Event.creates a) < s.tally (Event.creates a)

theorem creates_mono {need : Option Addr} (moved : Move i need s t) :
    s.tally (Event.creates a) ≤ t.tally (Event.creates a) := by
  cases moved with
  | create => simp [State.tally, State.create, List.countP_cons]
  | _ => exact Nat.le_refl _

theorem held_setTask {b : Addr} {f : Task → Task} {base : State} (held : Held a base s)
    (kept : (f (s.task b)).taskState = (s.task b).taskState) : Held a base (s.setTask b f) := by
  refine ⟨?_, held.submits, held.answers, held.kept⟩
  by_cases here : a = b
  · subst here
    rw [setTask_task_self, kept]
    exact held.state
  · rw [setTask_task_of_ne here]
    exact held.state

theorem held_move {need : Option Addr} {base : State} (held : Held a base s)
    (owned : ∀ b, need = some b → b ≠ a) (moved : Move i need s t) : Held a base t ∨ Reused a base t := by
  cases moved with
  | setTask kept => exact Or.inl (held_setTask held kept)
  | @inherit _ b =>
    have kept : Held a base (s.setTask b fun task => { task with alive := false }) := held_setTask held rfl
    exact Or.inl ⟨kept.state, kept.submits, kept.answers, kept.kept⟩
  | @destroy b =>
    have kept : Held a base (s.setTask b fun task => { task with alive := false }) := held_setTask held rfl
    exact Or.inl ⟨kept.state, kept.submits, kept.answers, kept.kept⟩
  | @gate s' b opened =>
    have other : a ≠ b := by
      rintro rfl
      exact opened held.state
    exact Or.inl ⟨by simpa [State.gate, other] using held.state, held.submits, held.answers, held.kept⟩
  | @reject b =>
    have other : a ≠ b := Ne.symm (owned b rfl)
    exact Or.inl ⟨by simpa [State.reject, other] using held.state, held.submits, held.answers, held.kept⟩
  | @settle b =>
    have other : a ≠ b := Ne.symm (owned b rfl)
    exact Or.inl ⟨by simpa [State.settle, other] using held.state, held.submits, held.answers, held.kept⟩
  | @queue b =>
    have other : b ≠ a := owned b rfl
    refine Or.inl ⟨held.state, ?_, held.answers, held.kept⟩
    simpa [State.tally, State.queue, Event.submits, other] using held.submits
  | @handled b =>
    have other : b ≠ a := owned b rfl
    refine Or.inl ⟨held.state, held.submits, ?_, held.kept⟩
    simpa [State.tally, State.record, Event.answers, other] using held.answers
  | @create s' b =>
    by_cases here : b = a
    · subst here
      refine Or.inr ?_
      have kept := held.kept
      simp only [State.tally] at kept
      simp [Reused, State.tally, State.create, Event.creates, kept]
    · refine Or.inl ⟨?_, held.submits, held.answers, ?_⟩
      · simpa [State.create, Ne.symm here] using held.state
      · simpa [State.tally, State.create, Event.creates, here] using held.kept
  | _ => exact Or.inl ⟨held.state, held.submits, held.answers, held.kept⟩

theorem held_frame (a : Addr) (base : State) :
    Frame i (fun s => Held a base s ∨ Reused a base s) fun b s => b ≠ a ∨ Reused a base s where
  step holds owned moved _ := by
    rcases holds with held | reused
    · refine held_move held (fun b needed => (owned b needed).resolve_right fun reused => ?_) moved
      exact absurd held.kept (Nat.ne_of_gt reused)
    · exact Or.inr (Nat.lt_of_lt_of_le reused (creates_mono moved))
  keep _ owned moved _ := owned.imp_right fun reused => Nat.lt_of_lt_of_le reused (creates_mono moved)
  gain holds opened := by
    rcases holds with held | reused
    · refine Or.inl ?_
      rintro rfl
      exact opened held.state
    · exact Or.inr reused

/-- The handler's own code neither submits nor answers the failed task. -/
theorem Attempt.handler_returns (attempt : Attempt n a j s m)
    (run : Runs (code i) (executeCompletionHandler a) (m.retried a) u t)
    (kept : t.tally (Event.creates a) = m.tally (Event.creates a)) :
    t.tally (Event.submits a) = m.tally (Event.submits a) ∧
      t.tally (Event.answers a) = m.tally (Event.answers a) + 1 := by
  simp only [executeCompletionHandler, runs_store_bind, runs_enter_bind, runs_pure] at run
  obtain ⟨r, last, user, -, rfl⟩ := run
  generalize called : (m.retried a).record (.handled a ((m.retried a).current a)
    ((m.retried a).task a).buffer.bytesTransferred) = base at user
  have state : (base.task a).taskState = .kSubmitted := by
    rw [← called]
    simpa [State.record, State.retried] using attempt.state
  have answers : base.tally (Event.answers a) = m.tally (Event.answers a) + 1 := by
    rw [← called]
    simp [State.tally, State.record, Event.answers, State.retried, State.setTask]
  have frames : Frames i _ _ [] (code i .user) := frames_user (held_frame a base)
  obtain ⟨held | reused, -⟩ := frames.sound (frame_verified (held_frame a base)) user
    ⟨Or.inl ⟨state, rfl, rfl, rfl⟩, by simp⟩
  · refine ⟨held.submits.trans ?_, held.answers.trans answers⟩
    rw [← called]
    rfl
  · have same : base.tally (Event.creates a) = m.tally (Event.creates a) := by
      rw [← called]
      rfl
    exact absurd (kept.trans same.symm) (Nat.ne_of_gt reused)

/-- With one attempt allowed, its failure is answered. -/
theorem Attempt.answered (attempt : Attempt 1 a 0 s m) (failure : Failure a m t) : Bounded 1 a s t := by
  obtain ⟨before, last, k, r, target, attempt, -, -, kept, failed, rfl⟩ := attempt.fails failure
  have tries := attempt.tries
  have retries := attempt.retries
  obtain ⟨returned, handled, deleted⟩ := runs_handleFailedTask_fails (by omega) failed
  have deletes := deletes_of_deleteTask deleted
  have creates : last.tally (Event.creates a) = returned.tally (Event.creates a) :=
    deletes.tally (Event.creates a) fun _ _ _ _ => rfl
  obtain ⟨submits, answers⟩ := attempt.handler_returns handled (creates.symm.trans kept)
  obtain ⟨alive, same⟩ := deletes.task a
  refine ⟨?_, ?_, ?_⟩
  · have total : last.tally (Event.submits a) = returned.tally (Event.submits a) :=
      deletes.tally (Event.submits a) fun _ _ _ _ => rfl
    exact Nat.le_of_eq (total.trans (submits.trans attempt.submits))
  · have total : last.tally (Event.answers a) = returned.tally (Event.answers a) :=
      deletes.tally (Event.answers a) fun _ _ _ _ => rfl
    exact total.trans (answers.trans (congrArg (· + 1) attempt.answers))
  · change (last.task a).taskState = _
    rw [same]
    simp [State.close, State.settle]

/-- After as many failures as `SetMaxRetryCount` allows, the task has been
submitted no more often, answered once and left failed exactly if that number is
one: every retry starts the count again. -/
theorem retries_bounded_iff {accepted : State} (positive : 1 ≤ n) (accepts : Accepts i a s accepted)
    (configured : (s.task a).maxRetryCount = n) (sqes : accepted.refused = s.refused)
    (fails : Fails a n accepted t) : Bounded n a s t ↔ n = 1 := by
  obtain ⟨room, -⟩ := (runs_addTask_true accepts.idle).mp accepts.run
  obtain ⟨-, rfl⟩ := (runs_addTask_accepts accepts.idle room accepts.supported).mp ⟨accepts.run, sqes⟩
  have first : Attempt n a 0 s (s.accept i a) :=
    attempt_accept positive configured accepts.supported rfl rfl
  constructor
  · intro bounded
    by_contra several
    have attempt := fails.attempt (by omega) first
    have failed := bounded.state
    rw [attempt.state] at failed
    contradiction
  · rintro rfl
    cases fails with
    | next earlier apart failure =>
      cases earlier with
      | none => exact (first.untouched apart).answered failure

def retrying (maxRetryCount : Int) : Task := { taskType := .kRead, fd := 3, maxRetryCount := maxRetryCount }

/-- The attempt with number `k` reads with an error. -/
def State.failAttempt (s : State) (k : Nat) : State := s.dispatch ⟨1, .kNone, k⟩ (-5)

theorem failure_failAttempt (unlimited : s.maxInflightOps = 0) (current : s.current 1 = some k)
    (ready : s.dispatchable ⟨1, .kNone, k⟩ (-5) = true) (sqes : (s.failAttempt k).refused = s.refused)
    (kept : (s.failAttempt k).tally (Event.creates 1) = s.tally (Event.creates 1)) :
    Failure 1 s (s.failAttempt k) := by
  refine ⟨fun limited => ?_, ⟨k, -5, by decide, by decide, by decide, current, dispatches_dispatch ready⟩,
    sqes, kept⟩
  rw [unlimited] at limited
  contradiction

theorem untouched_refl (a : Addr) (s : State) : Untouched a s s := ⟨⟨_, _, rfl⟩, rfl, rfl⟩

theorem single_attempt_bounded :
    Bounded 1 1 (single (retrying 1)) (((single (retrying 1)).accept (.client 0) 1).failAttempt 0) := by
  have failure : Failure 1 ((single (retrying 1)).accept (.client 0) 1) _ :=
    failure_failAttempt rfl rfl (by decide +kernel) (by decide +kernel) (by decide +kernel)
  exact (retries_bounded_iff (Nat.le_refl 1) (accepts_single rfl) rfl (by decide +kernel)
    (.next .none (untouched_refl 1 _) failure)).mpr rfl

/-- After two failures of a task with two attempts the third is in the ring. -/
theorem second_failure_retried :
    ¬ ∀ (i : Thread) (a : Addr) (n : Nat) (s accepted t : State), 1 ≤ n → Accepts i a s accepted →
      (s.task a).maxRetryCount = n → accepted.refused = s.refused → Fails a n accepted t →
      Bounded n a s t := by
  intro claimed
  have first : Failure 1 ((single (retrying 2)).accept (.client 0) 1) _ :=
    failure_failAttempt rfl rfl (by decide +kernel) (by decide +kernel) (by decide +kernel)
  have second : Failure 1 (((single (retrying 2)).accept (.client 0) 1).failAttempt 0) _ :=
    failure_failAttempt (k := 1) (by decide +kernel) (by decide +kernel) (by decide +kernel)
      (by decide +kernel) (by decide +kernel)
  have bounded := claimed _ 1 2 _ _ _ (by decide) (accepts_single rfl) rfl (by decide +kernel)
    (.next (.next .none (untouched_refl 1 _) first) (untouched_refl 1 _) second)
  exact absurd bounded.submits (by decide +kernel)

end Talon.Handler
