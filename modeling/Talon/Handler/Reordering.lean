import Talon.Handler.Outcome

/-! Two completions of one submission, dispatched in either order. -/
namespace Talon.Handler
open Interleaving

/-- What a submission came to: the state it was left in, the result that each
call of the handler saw, and `inflight_count_`. -/
def State.outcome (s : State) (a : Addr) (k : Nat) : Option TaskState × List Int × Int :=
  ((s.endings a k).head?, s.calls a k, s.inflight)

/-- The completion of a cancel request and that of the operation it cancelled. -/
inductive CancelOrder where
  | opFirst
  | cancelFirst

inductive Cancels (a : Addr) (k : Nat) (cancelRes : Int) : CancelOrder → State → State → Prop where
  | opFirst (apart : Elsewhere a k s before) (op : Dispatches ⟨a, .kNone, k⟩ (-ECANCELED) before between)
      (waits : Elsewhere a k between later) (cancel : Dispatches ⟨a, .kCancel, k⟩ cancelRes later t) :
      Cancels a k cancelRes .opFirst s t
  | cancelFirst (apart : Elsewhere a k s before)
      (cancel : Dispatches ⟨a, .kCancel, k⟩ cancelRes before between)
      (waits : Elsewhere a k between later) (op : Dispatches ⟨a, .kNone, k⟩ (-ECANCELED) later t) :
      Cancels a k cancelRes .cancelFirst s t

/-- The submission ends as cancelled. -/
def State.Canceled (s : State) (a : Addr) (k : Nat) : Prop := (s.endings a k).head? = some .kCanceled

instance (s : State) (a : Addr) (k : Nat) : Decidable (s.Canceled a k) :=
  inferInstanceAs (Decidable (_ = _))

variable {i j : Thread} {a : Addr} {k : Nat} {s t u accepted : State}

/-- A timer that was cancelled because the operation had succeeded still ends
the submission when its completion is dispatched first, so the two orders never
agree. -/
theorem timeout_orders_differ {res : Int} (accepts : Accepts i a s accepted)
    (sqes : accepted.refused < s.refused + 2) (success : 0 ≤ res)
    (first : Completes a s.submissions (.opFirst .kNone res (-ECANCELED)) accepted t)
    (second : Completes a s.submissions (.timeoutFirst .kNone res (-ECANCELED)) accepted u) :
    t.outcome a s.submissions ≠ u.outcome a s.submissions := by
  have submitted := accepts.submitted sqes
  have answered : t.calls a s.submissions = res :: s.calls a s.submissions := by
    cases first with
    | opFirst apart op waits timeout =>
      obtain ⟨fresh, calls⟩ := (submitted.elsewhere apart).dispatches_success success op
      have later := calls_dispatchCqe_timeout (a := a)
        (by exact Nat.lt_of_lt_of_le fresh waits.fresh) rfl timeout.2
      exact later.2.trans (waits.calls.trans calls)
  have unanswered : u.calls a s.submissions = s.calls a s.submissions := by
    cases second with
    | timeoutFirst apart timeout waits op =>
      obtain ⟨finished, calls, -⟩ := (submitted.elsewhere apart).dispatches_timeout timeout
      exact ((finished.elsewhere waits).dispatches op).1.trans (waits.calls.trans calls)
  intro same
  have calls : t.calls a s.submissions = u.calls a s.submissions := congrArg (·.2.1) same
  rw [answered, unanswered] at calls
  exact List.cons_ne_self res _ calls

/-- Seven bytes read within the time limit, with the timer's completion second
and first. -/
theorem timely_read_orders_differ :
    ((timedAccepted.dispatch ⟨1, .kNone, 0⟩ 7).dispatch ⟨1, .kTimeout, 0⟩ (-ECANCELED)).outcome 1 0 ≠
      ((timedAccepted.dispatch ⟨1, .kTimeout, 0⟩ (-ECANCELED)).dispatch ⟨1, .kNone, 0⟩ 7).outcome 1 0 :=
  timeout_orders_differ (accepts_single rfl) (by decide +kernel) (by decide)
    (completes_opFirst (by decide +kernel) (by decide +kernel))
    (completes_timeoutFirst (by decide +kernel) (by decide +kernel))

theorem timely_read_lost :
    ¬ ∀ (i : Thread) (a : Addr) (s accepted t u : State) (res : Int), Accepts i a s accepted →
      0 < (s.task a).timeoutMs → accepted.refused < s.refused + 2 → 0 ≤ res →
      Completes a s.submissions (.opFirst .kNone res (-ECANCELED)) accepted t →
      Completes a s.submissions (.timeoutFirst .kNone res (-ECANCELED)) accepted u →
      t.outcome a s.submissions = u.outcome a s.submissions := by
  intro claimed
  have same := claimed _ 1 (single timedRead) timedAccepted _ _ 7 (accepts_single rfl) (by decide)
    (by decide +kernel) (by decide)
    (completes_opFirst (by decide +kernel) (by decide +kernel))
    (completes_timeoutFirst (by decide +kernel) (by decide +kernel))
  exact absurd same (by decide +kernel)

theorem Submitted.cancel {cancelled : Bool} {middle : State} {v : Unit} {special : Option (Addr × EventFlag)}
    (submitted : Submitted cancelled s middle a) (run : Runs (code j) (cancel a special) middle v t) :
    Submitted cancelled s t a := by
  simp only [Handler.cancel, runs_atomic_bind, Option.some.injEq] at run
  obtain ⟨c, later, rfl, run⟩ := run
  cases sqe : c.sqe with
  | false =>
    simp only [sqe, Bool.false_eq_true, if_false, runs_pure, true_and] at run
    subst run
    exact submitted.of_eq ⟨_, _, _, rfl⟩ rfl (Nat.le_refl _) rfl rfl
  | true =>
    simp only [sqe, if_true, autoFlush, runs_store] at run
    subst run
    cases cancelEntry middle a special with
    | none => exact submitted.of_eq ⟨_, _, _, rfl⟩ rfl (Nat.le_refl _) rfl rfl
    | some e => exact submitted.of_eq ⟨_, _, _, rfl⟩ rfl (Nat.le_refl _) rfl rfl

/-- After a successful `Cancel` both orders end as cancelled, with equally many
calls of the handler, exactly if the task has no timeout: the kernel reports a
cancelled and a timed out operation alike. -/
theorem cancel_orders_agree_iff {before cancelled : State} {res : Int} (accepts : Accepts i a s accepted)
    (sqes : accepted.refused < s.refused + 2) (apart : Elsewhere a s.submissions accepted before)
    (called : Runs (code j) (cancel a none) before () cancelled) (success : 0 ≤ res)
    (first : Cancels a s.submissions res .opFirst cancelled t)
    (second : Cancels a s.submissions res .cancelFirst cancelled u) :
    t.Canceled a s.submissions ∧ u.Canceled a s.submissions ∧
      (t.calls a s.submissions).length = (u.calls a s.submissions).length ↔
      (s.task a).timeoutMs ≤ 0 := by
  have submitted := ((accepts.submitted sqes).elsewhere apart).cancel called
  have opFirst : t.calls a s.submissions = s.calls a s.submissions ∧ t.endings a s.submissions =
      (if 0 < (s.task a).timeoutMs then .kTimeout else .kCanceled) :: s.endings a s.submissions := by
    cases first with
    | opFirst apart op waits cancel =>
      obtain ⟨finished, calls, endings⟩ := (submitted.elsewhere apart).dispatches_canceled op
      obtain ⟨sameCalls, sameEndings⟩ := (finished.elsewhere waits).dispatches cancel
      exact ⟨sameCalls.trans (waits.calls.trans calls), sameEndings.trans (waits.endings.trans endings)⟩
  have cancelFirst : u.calls a s.submissions = s.calls a s.submissions ∧
      u.endings a s.submissions = .kCanceled :: s.endings a s.submissions := by
    cases second with
    | cancelFirst apart cancel waits op =>
      have marked := (submitted.elsewhere apart).dispatches_cancel success cancel
      exact ((marked.elsewhere waits).dispatches_marked op).2
  simp only [State.Canceled, opFirst, cancelFirst, List.head?_cons, and_true]
  by_cases timed : 0 < (s.task a).timeoutMs
  · simp [timed]
  · simp [timed, Int.not_lt.mp timed]

theorem runs_cancel {b : Addr} (target : (s.task a).userData = some b) :
    Runs (code i) (cancel a none) s ()
      (s.queueExtra ⟨b, .kCancel, (s.current b).getD s.submissions⟩ (.requested b)).submit := by
  simp only [cancel, runs_atomic_bind, Option.some.injEq]
  refine ⟨{}, _, rfl, ?_⟩
  simp [cancelEntry, target, autoFlush]

def readWithin (timeoutMs : Int) : Task := { taskType := .kRead, fd := 3, timeoutMs := timeoutMs }

def acceptedWithin (timeoutMs : Int) : State := (single (readWithin timeoutMs)).accept (.client 0) 1

def cancelledWithin (timeoutMs : Int) : State :=
  ((acceptedWithin timeoutMs).queueExtra ⟨1, .kCancel, 0⟩ (.requested 1)).submit

theorem cancels_opFirst {res : Int} (op : s.dispatchable ⟨a, .kNone, k⟩ (-ECANCELED) = true)
    (cancel : (s.dispatch ⟨a, .kNone, k⟩ (-ECANCELED)).dispatchable ⟨a, .kCancel, k⟩ res = true) :
    Cancels a k res .opFirst s ((s.dispatch ⟨a, .kNone, k⟩ (-ECANCELED)).dispatch ⟨a, .kCancel, k⟩ res) :=
  .opFirst (.refl a k s) (dispatches_dispatch op) (.refl a k _) (dispatches_dispatch cancel)

theorem cancels_cancelFirst {res : Int} (cancel : s.dispatchable ⟨a, .kCancel, k⟩ res = true)
    (op : (s.dispatch ⟨a, .kCancel, k⟩ res).dispatchable ⟨a, .kNone, k⟩ (-ECANCELED) = true) :
    Cancels a k res .cancelFirst s ((s.dispatch ⟨a, .kCancel, k⟩ res).dispatch ⟨a, .kNone, k⟩ (-ECANCELED)) :=
  .cancelFirst (.refl a k s) (dispatches_dispatch cancel) (.refl a k _) (dispatches_dispatch op)

theorem untimed_cancel_agrees :
    (((cancelledWithin 0).dispatch ⟨1, .kNone, 0⟩ (-ECANCELED)).dispatch ⟨1, .kCancel, 0⟩ 0).Canceled 1 0 ∧
      (((cancelledWithin 0).dispatch ⟨1, .kCancel, 0⟩ 0).dispatch ⟨1, .kNone, 0⟩ (-ECANCELED)).Canceled
        1 0 := by
  have called : Runs (code (.client 1)) (cancel 1 none) (acceptedWithin 0) () (cancelledWithin 0) :=
    runs_cancel rfl
  have first : Cancels 1 0 0 .opFirst (cancelledWithin 0) _ :=
    cancels_opFirst (by decide +kernel) (by decide +kernel)
  have second : Cancels 1 0 0 .cancelFirst (cancelledWithin 0) _ :=
    cancels_cancelFirst (by decide +kernel) (by decide +kernel)
  have agrees := (cancel_orders_agree_iff (accepts_single rfl) (by decide +kernel) (.refl 1 0 _)
    called (by decide) first second).mpr (by decide)
  exact ⟨agrees.1, agrees.2.1⟩

/-- With a timeout of 100 ms the operation's completion ends the cancelled task
as timed out. -/
theorem timed_cancel_disagrees :
    ¬ ∀ (i j : Thread) (a : Addr) (s accepted before cancelled t u : State) (res : Int),
      Accepts i a s accepted → accepted.refused < s.refused + 2 →
      Elsewhere a s.submissions accepted before →
      Runs (code j) (cancel a none) before () cancelled → 0 ≤ res →
      Cancels a s.submissions res .opFirst cancelled t →
      Cancels a s.submissions res .cancelFirst cancelled u →
      t.Canceled a s.submissions ∧ u.Canceled a s.submissions ∧
        (t.calls a s.submissions).length = (u.calls a s.submissions).length := by
  intro claimed
  have called : Runs (code (.client 1)) (cancel 1 none) (acceptedWithin 100) () (cancelledWithin 100) :=
    runs_cancel rfl
  have canceled := claimed _ _ 1 (single (readWithin 100)) _ _ _ _ _ 0 (accepts_single rfl)
    (by decide +kernel) (.refl 1 0 _) called (by decide)
    (cancels_opFirst (by decide +kernel) (by decide +kernel))
    (cancels_cancelFirst (by decide +kernel) (by decide +kernel))
  exact absurd canceled.1 (by decide +kernel)

end Talon.Handler
