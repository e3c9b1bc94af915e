import Talon.Handler.Accounting
import Talon.Handler.Answering

/-! The functions of the handler call a completion handler only for a submission that they
hold, once, and then settle it. -/
namespace Talon.Handler.Answering
open Interleaving Ownership

/-- What the functions need of their caller's view and how they leave it. -/
def spec (i : Thread) : Spec Procedure Bool View where
  pre
    | .reserveSlot a k _, w => w.1.hand a = some (false, some k) ∧ w.2 a = 0
    | .handleFailedTask a cause, w =>
        ∃ k, w.1.hand a = some (true, some k) ∧ w.2 a = 0 ∧ (cause = none ∨ cause = some k)
    | f, w => (Handler.spec i).pre f w.1
  post
    | .addTask p, w, added, w' => w' = w ∧ ∀ a, p = some a → w.1.hand a ≠ none → added = false
    | .reserveSlot a k _, w, swapped, w' => w' = if swapped then hold w a (some (true, some k)) else w
    | .handleFailedTask a _, w, _, w' => w' = hold w a none
    | f, w, r, w' => (Handler.spec i).post f w.1 r w'.1 ∧ w'.2 = w.2

abbrev Ensures (m : Mode) (i : Thread) (w : View) {α : Type} (p : Code α) (post : α → View → Prop) : Prop :=
  (ownership m).Ensures (spec i) i w p post

abbrev Keeps (m : Mode) (i : Thread) (w : View) {α : Type} (p : Code α) : Prop := Ensures m i w p fun _ w' => w' = w

/-- No step of the program is about the account, and it calls no procedure. -/
abbrev Quiet {α : Type} (p : Code α) : Prop := Constant part (fun _ => False) p

variable {m : Mode} {i : Thread} {w : View} {a : Addr} {k : Nat} {α β : Type} {p : Code α} {next : α → Code β}
  {post : β → View → Prop}

theorem Keeps.bind (keeps : Keeps m i w p) (rest : ∀ r, Ensures m i w (next r) post) :
    Ensures m i w (p >>= next) post := by
  apply Ensures.bind keeps
  intro r w' same
  subst same
  exact rest r

/-- What is known of quiet code. -/
theorem ensures_quiet {post : α → Handler.View → Prop} (quiet : Quiet p) (ensures : Handler.Ensures m i w.1 p post) :
    Ensures m i w p fun r w' => post r w'.1 ∧ w'.2 = w.2 := by
  refine Ownership.Ensures.extend (fun s t same account => account.congr same) (fun j s t same => ?_) quiet ensures
  simp only [part, Prod.mk.injEq] at same
  obtain ⟨phase, current, -, -, -, told⟩ := same
  funext b
  simp only [counted, Handler.view, phase, current, calls_congr told]

theorem keeps_quiet (quiet : Quiet p) (keeps : Handler.Keeps m i w.1 p) : Keeps m i w p :=
  (ensures_quiet quiet keeps).mono fun _ _ same => Prod.ext same.1 same.2

/-! ### Quiet code -/

theorem quiet_storeTask (f : Task → Task) : Quiet (storeTask a f) := Constant.store fun _ => rfl

theorem quiet_markDetachedAndComplete (detach : Bool) : Quiet (markDetachedAndComplete a detach) := by
  cases detach with
  | true => exact Constant.bind (quiet_storeTask _) fun _ => quiet_storeTask _
  | false => exact quiet_storeTask _

theorem quiet_autoFlush : Quiet autoFlush := Constant.store fun _ => rfl

theorem quiet_finishSqe : Quiet (finishSqe a k) := by
  refine Constant.bind (quiet_storeTask _) fun _ => Constant.bind Constant.load fun task => ?_
  split
  · refine Constant.bind (Constant.atomic fun c s t stepped => ?_) fun _ => Constant.pure ()
    obtain rfl := Option.some.inj stepped
    cases c.sqe <;> rfl
  · exact Constant.pure ()

theorem quiet_resetTryCount : Quiet (resetTryCount a) := by
  apply Constant.bind Constant.load
  intro task
  split
  · exact quiet_storeTask _
  · exact Constant.pure ()

theorem quiet_closeFd : Quiet (closeFd a) := by
  apply Constant.bind Constant.load
  intro task
  split
  · exact Constant.bind (Constant.store fun _ => rfl) fun _ => quiet_storeTask _
  · exact Constant.pure ()

theorem quiet_cancel (special : Option (Addr × EventFlag)) : Quiet (cancel a special) := by
  refine Constant.bind (Constant.atomic fun c s t stepped => ?_) fun sqe => ?_
  · obtain rfl := Option.some.inj stepped
    cases c.sqe with
    | false => rfl
    | true => cases requested : cancelEntry s a special <;> rfl
  · cases sqe with
    | true => exact quiet_autoFlush
    | false => exact Constant.pure ()

theorem keeps_storeTask {f : Task → Task} (state : ∀ task, (f task).taskState = task.taskState) :
    Keeps m i w (storeTask a f) := keeps_quiet (quiet_storeTask f) (Handler.keeps_storeTask state)

theorem ensures_loadTask :
    Ensures m i w (loadTask a) fun task w' => (w.1.hand a ≠ none → task.taskState = .kSubmitted) ∧ w' = w := by
  have known : Handler.Ensures m i w.1 (loadTask a) fun task v' =>
      (w.1.hand a ≠ none → task.taskState = .kSubmitted) ∧ v' = w.1 :=
    Handler.ensures_loadTask fun _ submitted => ⟨submitted, rfl⟩
  have quiet : Quiet (loadTask a) := Constant.load
  exact (ensures_quiet quiet known).mono fun _ _ same => ⟨same.1.1, Prod.ext same.1.2 same.2⟩

theorem keeps_loadTask : Keeps m i w (loadTask a) := ensures_loadTask.mono fun _ _ same => same.2

theorem keeps_setDebugStr (text : String) : Keeps m i w (setDebugStr a text) := keeps_storeTask fun _ => rfl

theorem keeps_markDetachedAndComplete (detach : Bool) : Keeps m i w (markDetachedAndComplete a detach) :=
  keeps_quiet (quiet_markDetachedAndComplete detach) (Handler.keeps_markDetachedAndComplete detach)

theorem keeps_autoFlush : Keeps m i w autoFlush := keeps_quiet quiet_autoFlush Handler.keeps_autoFlush

/-! ### Submission -/

theorem ensures_queueSqe (held : w.1.hand a = some (true, some k)) (uncalled : w.2 a = 0)
    (apart : ∀ b, w.1.active ≠ some (b, k)) {flag : EventFlag} (completes : flag = .kNone ∨ flag = .kError) :
    Ensures m i w (queueSqe a flag k) fun sqe w' => w' = if sqe then hold w a none else w := by
  apply Ensures.atomic
  intro c s t seen stepped _
  cases Option.some.inj stepped
  cases c.sqe with
  | true => exact ⟨_, rfl, moves_queue seen held uncalled apart completes⟩
  | false => exact ⟨_, rfl, moves_apart seen (moves_refuse seen.base) rfl rfl⟩

theorem ensures_queueFailedTask (held : w.1.hand a = some (true, some k)) (uncalled : w.2 a = 0)
    (apart : ∀ b, w.1.active ≠ some (b, k)) :
    Ensures m i w (queueFailedTask a k) fun _ w' => w' = hold w a none := by
  apply Ensures.bind (ensures_queueSqe held uncalled apart (Or.inr rfl))
  rintro sqe w' rfl
  cases sqe with
  | true => exact keeps_autoFlush
  | false =>
    exact Ensures.bind (Ensures.enter ⟨k, held, uncalled, Or.inl rfl⟩ fun _ _ post => post)
      fun _ _ post => Ensures.pure post

theorem ensures_submitTask (held : w.1.hand a = some (true, some k)) (uncalled : w.2 a = 0)
    (apart : ∀ b, w.1.active ≠ some (b, k)) :
    Ensures m i w (submitTask a k) fun _ w' => w' = hold w a none := by
  apply Keeps.bind keeps_loadTask
  intro task
  split
  · apply Ensures.bind (ensures_queueSqe held uncalled apart (Or.inl rfl))
    rintro sqe w' rfl
    cases sqe with
    | true => exact keeps_quiet quiet_finishSqe Handler.keeps_finishSqe
    | false => exact ensures_queueFailedTask held uncalled apart
  · refine Ensures.bind (M := fun sqe w' => sqe = false ∧ w' = w) ?_ ?_
    · apply Ensures.atomic
      intro c s t seen stepped admitted
      cases Option.some.inj stepped
      cases sqe : c.sqe with
      | true =>
        rw [sqe] at admitted
        have permitted := admitted .unprepared rfl
        cases m <;> simp [Mode.permits] at permitted
      | false => exact ⟨w, ⟨rfl, rfl⟩, moves_apart seen (moves_refuse seen.base) rfl rfl⟩
    · rintro sqe w' ⟨rfl, rfl⟩
      exact ensures_queueFailedTask held uncalled apart

theorem ensures_submitReserved (held : w.1.hand a = some (true, some k)) (uncalled : w.2 a = 0)
    (apart : ∀ b, w.1.active ≠ some (b, k)) :
    Ensures m i w (submitReserved a k) fun _ w' => w' = hold w a none := by
  apply Keeps.bind (keeps_markDetachedAndComplete false)
  intro _
  refine Keeps.bind (keeps_storeTask fun _ => rfl) fun _ => ?_
  apply Keeps.bind (keeps_quiet quiet_resetTryCount Handler.keeps_resetTryCount)
  intro _
  refine Keeps.bind (keeps_storeTask fun _ => rfl) fun _ => ?_
  apply Ensures.bind (ensures_submitTask held uncalled apart)
  rintro _ w' rfl
  exact keeps_autoFlush

theorem ensures_limit : Ensures m i w (.load (·.maxInflightOps)) fun max w' => max = w.1.limit ∧ w' = w :=
  Ensures.load fun _ seen => ⟨congrArg Handler.View.limit seen.base.2, rfl⟩

theorem ensures_reserveInflight (held : w.1.hand a = some (false, some k)) (uncalled : w.2 a = 0) :
    Ensures m i w (reserveInflight i a k) fun swapped w' =>
      w' = if swapped then hold w a (some (true, some k)) else w := by
  apply Ensures.bind ensures_limit
  rintro _ w' ⟨rfl, rfl⟩
  split
  · refine Keeps.bind (Ensures.exchange fun _ seen _ => ⟨_, rfl, moves_apart seen (moves_see seen.base) rfl rfl⟩)
      fun cur => ?_
    exact Ensures.enter ⟨held, uncalled⟩ fun _ _ post => post
  · next unlimited =>
    refine Ensures.bind (M := fun _ w'' => w'' = hold w' a (some (true, some k))) ?_ ?_
    · exact Ensures.store rfl fun _ seen _ =>
        moves_reserve seen held uncalled fun limited => absurd limited unlimited
    · rintro _ w'' rfl
      exact Ensures.pure rfl

theorem ensures_reserveSlot (held : w.1.hand a = some (false, some k)) (uncalled : w.2 a = 0) (cur : Int) :
    Ensures m i w (code i (.reserveSlot a k cur)) ((spec i).post (.reserveSlot a k cur) w) := by
  apply Ensures.bind ensures_limit
  rintro _ w' ⟨rfl, rfl⟩
  split
  · next room =>
    refine Ensures.bind (M := fun r w'' => w'' = if r.1 then hold w' a (some (true, some k)) else w') ?_ ?_
    · apply Ensures.atomic
      intro c s t seen stepped _
      cases Option.some.inj stepped
      by_cases swaps : s.inflight = cur ∧ ¬ c.spurious
      · rw [if_pos swaps]
        refine ⟨_, (if_pos (decide_eq_true swaps)).symm, moves_reserve seen held uncalled fun _ => ?_⟩
        rw [swaps.1]
        exact room
      · rw [if_neg swaps]
        refine ⟨_, (if_neg ?_).symm, moves_apart seen (moves_see seen.base) rfl rfl⟩
        simpa only [decide_eq_true_eq] using swaps
    · rintro ⟨swapped, saw⟩ w'' rfl
      cases swapped with
      | true => exact Ensures.pure rfl
      | false => exact Ensures.enter ⟨held, uncalled⟩ fun _ _ post => post
  · exact Ensures.pure rfl

theorem ensures_tryTransitionToSubmitted :
    Ensures m i w (tryTransitionToSubmitted i a) fun gate w' =>
      (w.1.hand a ≠ none → gate = none) ∧ match gate with
        | none => w' = w
        | some k => (∀ b, w.1.active ≠ some (b, k)) ∧ w' = hold w a (some (false, some k)) := by
  apply Ensures.bind ensures_loadTask
  rintro task w' ⟨submitted, rfl⟩
  split
  · exact Ensures.pure ⟨fun _ => rfl, rfl⟩
  · next unsubmitted =>
    apply Ensures.atomic
    intro c s t seen stepped admitted
    cases Option.some.inj stepped
    have unheld : ¬ w'.1.hand a ≠ none := fun held => unsubmitted (submitted held)
    by_cases swaps : (s.task a).taskState = task.taskState
    · simp only [if_pos swaps] at admitted ⊢
      obtain ⟨apart, moves⟩ := moves_gate seen (fun same => unsubmitted (swaps ▸ same)) admitted
      exact ⟨_, ⟨fun held => absurd held unheld, apart, rfl⟩, moves⟩
    · simp only [if_neg swaps]
      exact ⟨w', ⟨fun _ => trivial, rfl⟩, seen.1, fun _ _ => rfl, seen.2⟩

theorem hold_hold (w : View) (a : Addr) (first second : Option (Bool × Option Nat)) :
    hold (hold w a first) a second = hold w a second :=
  Prod.ext (View.hold_hold w.1 a first second) (Function.update_idem ..)

theorem hold_none (unheld : w.1.hand a = none) (uncalled : w.2 a = 0) : hold w a none = w :=
  Prod.ext (View.hold_none unheld) (by rw [hold, ← uncalled, Function.update_eq_self])

theorem ensures_addTask :
    Ensures m i w (addTask i a) fun added w' => w' = w ∧ (w.1.hand a ≠ none → added = false) := by
  refine Ensures.known (P := w.1.hand a = none → w.2 a = 0) (fun s seen unheld => ?_) fun unused => ?_
  · rw [← Holds.seen seen, counted, unheld]
  refine Ensures.bind ensures_tryTransitionToSubmitted fun gate w' gated => ?_
  cases gate with
  | none =>
    obtain ⟨-, rfl⟩ := gated
    refine Keeps.bind (keeps_setDebugStr _) fun _ => ?_
    refine Keeps.bind (keeps_storeTask fun _ => rfl) fun _ => ?_
    exact Ensures.pure ⟨rfl, fun _ => rfl⟩
  | some k =>
    obtain ⟨open_, apart, rfl⟩ := gated
    have unheld : w.1.hand a = none := by
      by_contra held
      have closed := open_ held
      contradiction
    have back := hold_none unheld (unused unheld)
    refine Ensures.bind (ensures_reserveInflight (Function.update_self ..) (Function.update_self ..)) ?_
    rintro slotReserved w' rfl
    cases slotReserved with
    | true =>
      refine Ensures.bind (ensures_submitReserved (k := k) (Function.update_self ..) (Function.update_self ..) apart) ?_
      rintro _ w' rfl
      refine Ensures.pure ⟨?_, fun held => absurd unheld held⟩
      simp only [if_true, hold_hold, back]
    | false =>
      refine Ensures.bind (M := fun _ w' => w' = w) ?_ ?_
      · refine Ensures.store ?_ fun s seen _ => moves_reject (k := k) seen (Function.update_self ..)
        simp only [Bool.false_eq_true, if_false, hold_hold, back]
      · rintro _ w' rfl
        exact Ensures.pure ⟨rfl, fun _ => rfl⟩

theorem keeps_enter_addTask {q : Option Addr} {rest : α → View → Prop} {next : Bool → Code α}
    (kept : ∀ r, Ensures m i w (next r) rest) : Ensures m i w (.enter (.addTask q) >>= next) rest := by
  refine Ensures.bind (Ensures.enter trivial fun _ _ post => post) ?_
  rintro r w' ⟨rfl, -⟩
  exact kept r

/-! ### Completion -/

/-- The handler of `a` has been called. -/
def answered (w : View) (a : Addr) : View := (w.1, Function.update w.2 a 1)

theorem ensures_executeCompletionHandler (held : w.1.hand a = some (true, some k)) (uncalled : w.2 a = 0) :
    Ensures m i w (executeCompletionHandler a) fun _ w' => w' = answered w a := by
  refine Ensures.bind (M := fun _ w' => w' = answered w a)
    (Ensures.store rfl fun _ seen _ => moves_handled seen held uncalled) ?_
  rintro _ w' rfl
  refine Ensures.bind (Ensures.enter trivial fun _ _ post => post) ?_
  exact fun _ _ same => Ensures.pure (Prod.ext same.1 same.2)

theorem ensures_setTaskState (state : TaskState) (held : w.1.hand a = some (true, some k))
    (final : state ≠ .kSubmitted) (told : w.2 a = due state) {cause : Option Nat}
    (mine : cause = none ∨ cause = some k) (dooms : Bool) :
    Ensures m i w (setTaskState i a state cause dooms) fun _ w' =>
      w' = ({ w.1.hold a none with doomed := if dooms then ⟨i, a, some k⟩ :: w.1.doomed else w.1.doomed },
        Function.update w.2 a 0) :=
  Ensures.store rfl fun _ seen admitted => moves_settle seen held final told mine admitted

/-- The stores after which the task lives on. -/
theorem ensures_settle (state : TaskState) (held : w.1.hand a = some (true, some k)) (final : state ≠ .kSubmitted)
    (told : w.2 a = due state) {cause : Option Nat} (mine : cause = none ∨ cause = some k) :
    Ensures m i w (setTaskState i a state cause false) fun _ w' => w' = hold w a none :=
  ensures_setTaskState state held final told mine false

theorem ensures_deleteTask {rest : List Doom} (doomed : w.1.doomed = ⟨i, a, some k⟩ :: rest) {cause : Option Nat}
    (mine : cause = none ∨ cause = some k) :
    Ensures m i w (deleteTask a cause) fun _ w' => w' = ({ w.1 with doomed := rest }, w.2) := by
  refine Ensures.bind (Ensures.enter (Or.inr ⟨k, rest, doomed, mine⟩) fun _ _ post => post) ?_
  rintro _ w' ⟨same, kept⟩
  refine Ensures.pure (Prod.ext (same.trans ?_) kept)
  simp [View.undoom, doomed]

/-- The final state is stored, and the task deleted. -/
theorem ensures_finish (state : TaskState) (held : w.1.hand a = some (true, some k))
    (final : state ≠ .kSubmitted) (told : w.2 a = due state) {cause : Option Nat}
    (mine : cause = none ∨ cause = some k) :
    Ensures m i w (do setTaskState i a state cause true; deleteTask a cause) fun _ w' => w' = hold w a none := by
  apply Ensures.bind (ensures_setTaskState state held final told mine true)
  rintro _ w' rfl
  exact ensures_deleteTask rfl mine

theorem hold_answered (w : View) (a : Addr) (held : Option (Bool × Option Nat)) :
    hold (answered w a) a held = hold w a held := Prod.ext rfl (Function.update_idem ..)

theorem ensures_handleFailedTask {cause : Option Nat} (held : w.1.hand a = some (true, some k)) (uncalled : w.2 a = 0)
    (mine : cause = none ∨ cause = some k) :
    Ensures m i w (code i (.handleFailedTask a cause)) ((spec i).post (.handleFailedTask a cause) w) := by
  refine Keeps.bind (Ensures.atomic fun c s t seen stepped _ => ⟨w, rfl, ?_⟩) fun before => ?_
  · cases Option.some.inj stepped
    exact moves_apart seen (moves_setTask seen.base rfl) rfl rfl
  apply Keeps.bind keeps_loadTask
  intro task
  split
  · apply Ensures.bind (ensures_settle .kReady held (by simp) uncalled mine)
    rintro _ w' rfl
    exact keeps_enter_addTask fun _ => Ensures.pure rfl
  · apply Ensures.bind (ensures_executeCompletionHandler held uncalled)
    rintro _ w' rfl
    apply Keeps.bind (keeps_setDebugStr _)
    intro _
    refine Keeps.bind (keeps_storeTask fun _ => rfl) fun _ => ?_
    apply Keeps.bind (keeps_markDetachedAndComplete true)
    intro _
    have told : (answered w a).2 a = due .kFailed := Function.update_self ..
    apply Ensures.bind (ensures_setTaskState (w := answered w a) .kFailed held (by simp) told mine true)
    rintro _ w' rfl
    apply Ensures.bind (ensures_deleteTask rfl mine)
    rintro _ w' rfl
    exact Ensures.pure (hold_answered w a none)

theorem ensures_deleteTask_code {inherited : Bool} {cause : Option Nat}
    (doomed : inherited = true ∨
      ∃ k rest, w.1.doomed = ⟨i, a, some k⟩ :: rest ∧ (cause = none ∨ cause = some k)) :
    Ensures m i w (code i (.deleteTask a inherited cause))
      ((spec i).post (.deleteTask a inherited cause) w) := by
  refine Keeps.bind ?_ fun _ => ?_
  · apply Keeps.bind keeps_loadTask
    intro task
    cases task.next with
    | none => exact Ensures.pure rfl
    | some next =>
      refine Ensures.bind (Ensures.enter (Or.inl rfl) fun _ _ post => post) ?_
      rintro _ w' ⟨same, kept⟩
      exact Ensures.pure (Prod.ext same kept)
  · refine Ensures.bind (M := fun _ w' => w' = (w.1.undoom inherited, w.2)) ?_ ?_
    · exact Ensures.store rfl fun s seen admitted =>
        moves_apart seen (moves_destroy seen.base doomed admitted) rfl rfl
    · rintro _ w' rfl
      exact Ensures.pure ⟨rfl, rfl⟩

theorem ensures_handleTimeoutTask (held : w.1.hand a = some (true, some k)) (uncalled : w.2 a = 0) :
    Ensures m .loop w (handleTimeoutTask a k) fun _ w' => w' = hold w a none := by
  apply Ensures.bind ensures_loadTask
  rintro task w' ⟨submitted, rfl⟩
  have live : TaskState.Live task.taskState := Or.inl (submitted (by simp [held]))
  rw [if_pos live]
  apply Keeps.bind (keeps_setDebugStr _)
  intro _
  apply Keeps.bind (keeps_markDetachedAndComplete true)
  intro _
  exact ensures_finish .kTimeout held (by simp) uncalled (Or.inr rfl)

theorem ensures_handleErrorEvent (held : w.1.hand a = some (true, some k)) (uncalled : w.2 a = 0) (res : Int) :
    Ensures m i w (handleErrorEvent a k res) fun _ w' => w' = hold w a none := by
  refine Keeps.bind (keeps_storeTask fun _ => rfl) fun _ => ?_
  exact Ensures.bind (Ensures.enter ⟨k, held, uncalled, Or.inr rfl⟩ fun _ _ post => post)
    fun _ _ post => Ensures.pure post

theorem keeps_submitNext : Keeps m i w (submitNext a) := by
  apply Keeps.bind keeps_loadTask
  intro task
  split
  · refine Keeps.bind (Ensures.atomic fun c s t seen stepped _ => ⟨w, rfl, ?_⟩) fun next => ?_
    · cases Option.some.inj stepped
      exact moves_apart seen (moves_setTask seen.base rfl) rfl rfl
    · exact keeps_enter_addTask fun _ => Ensures.pure rfl
  · exact Ensures.pure rfl

theorem keeps_repeatOrDetach (repeatForever : Bool) : Keeps m i w (repeatOrDetach a repeatForever) := by
  cases repeatForever with
  | true => exact keeps_enter_addTask fun _ => Ensures.pure rfl
  | false => exact keeps_storeTask fun _ => rfl

/-- What follows the handler of a success. -/
theorem ensures_finishSuccess (held : w.1.hand a = some (true, some k)) (called : w.2 a = 1) (res : Int) :
    Ensures m .loop w (finishSuccess a k res) fun _ w' => w' = hold w a none := by
  unfold finishSuccess
  split
  · apply Keeps.bind keeps_loadTask
    intro task
    split
    · apply Keeps.bind (keeps_quiet quiet_closeFd Handler.keeps_closeFd)
      intro _
      apply Keeps.bind (keeps_markDetachedAndComplete true)
      intro _
      exact ensures_finish .kSuccess held (by simp) called (Or.inr rfl)
    · apply Ensures.bind (ensures_settle .kSuccess held (by simp) called (Or.inr rfl))
      rintro _ w' rfl
      apply Keeps.bind keeps_loadTask
      intro task
      exact Keeps.bind (keeps_repeatOrDetach _) fun _ => keeps_submitNext
  · apply Keeps.bind keeps_loadTask
    intro task
    apply Ensures.bind (ensures_settle .kSuccess held (by simp) called (Or.inr rfl))
    rintro _ w' rfl
    apply Keeps.bind (keeps_repeatOrDetach _)
    intro _
    apply Keeps.bind keeps_submitNext
    intro _
    apply Keeps.bind keeps_loadTask
    intro task
    split
    · exact keeps_markDetachedAndComplete true
    · exact Ensures.pure rfl

theorem ensures_handleNormalEvent (held : w.1.hand a = some (true, some k)) (uncalled : w.2 a = 0) (res : Int) :
    Ensures m .loop w (handleNormalEvent a k res) fun _ w' => w' = hold w a none := by
  refine Keeps.bind (keeps_storeTask fun _ => rfl) fun _ => ?_
  split
  · split
    · refine Ensures.bind (Ensures.enter (by simp [spec, Handler.spec, held]) fun _ _ never => never) ?_
      exact fun _ _ never => never.1.elim
    split
    · apply Keeps.bind keeps_loadTask
      intro task
      split
      · exact ensures_handleTimeoutTask held uncalled
      · apply Keeps.bind (keeps_setDebugStr _)
        intro _
        apply Keeps.bind (keeps_markDetachedAndComplete true)
        intro _
        exact ensures_finish .kCanceled held (by simp) uncalled (Or.inr rfl)
    · exact Ensures.bind (Ensures.enter ⟨k, held, uncalled, Or.inr rfl⟩ fun _ _ post => post)
        fun _ _ post => Ensures.pure post
  · apply Ensures.bind (ensures_executeCompletionHandler held uncalled)
    rintro _ w' rfl
    rw [← hold_answered]
    exact ensures_finishSuccess (w := answered w a) held (Function.update_self ..) res

theorem ensures_handleEvent {e : Entry} (tracked : m.tracks e)
    (held : w.1.hand e.task = some (true, some e.submission)) (uncalled : w.2 e.task = 0) (res : Int) :
    Ensures m .loop w (handleEvent e res) fun _ w' => w' = hold w e.task none := by
  unfold handleEvent
  cases flag : e.flag with
  | kNone => exact ensures_handleNormalEvent held uncalled res
  | kTimeout => exact ensures_handleTimeoutTask held uncalled
  | kError => exact ensures_handleErrorEvent held uncalled res
  | kCancel => cases m <;> simp [Mode.tracks, Entry.principal, flag] at tracked
  | kMask => cases m <;> simp [Mode.tracks, Entry.principal, flag] at tracked

theorem ensures_actOnCqe {e : Entry} (tracked : m.tracks e)
    (held : w.1.hand e.task = some (true, some e.submission)) (uncalled : w.2 e.task = 0) (res : Int) :
    Ensures m .loop w (actOnCqe e res) fun _ w' => w' = hold w e.task none := by
  apply Keeps.bind keeps_loadTask
  intro task
  split
  · apply Keeps.bind (keeps_markDetachedAndComplete true)
    intro _
    exact ensures_finish .kCanceled held (by simp) uncalled (Or.inr rfl)
  · exact ensures_handleEvent tracked held uncalled res

theorem ensures_find {e : Entry} (taken : w.1.taken = some e) (idle : w.1.Idle) :
    Ensures m .loop w (.exchange
      (fun s => ((s.task e.task).taskState, s.liveSubmission e.task)) (·.find e)) fun found w' =>
      ¬ TaskState.Live found.1 ∧ w' = ({ w.1 with taken := none }, w.2) ∨
      TaskState.Live found.1 ∧ m.tracks e ∧ found.2 = some e.submission ∧
        w' = (w.1.dispatching e, Function.update w.2 e.task 0) := by
  apply Ensures.atomic
  intro c s t seen stepped admitted
  cases Option.some.inj stepped
  by_cases acts : TaskState.Live (s.task e.task).taskState
  · have tracked : m.tracks e := by
      have permitted := admitted (.found e (s.task e.task).taskState) rfl
      cases m with
      | plain =>
        have base := seen.base
        obtain ⟨member, -⟩ := outstanding_find (s := s) (e := e) (by
          rw [← base.2] at taken
          simpa [Handler.ownership, Handler.view] using taken)
        exact base.1.rings.pure rfl e member
      | opFirst => simpa [Mode.permits, Mode.tracks, acts] using permitted
      | drained => simpa [Mode.permits, acts] using permitted
    obtain ⟨target, moves⟩ := moves_find seen taken idle.1 (idle.2 e.task) tracked acts
    exact ⟨_, Or.inr ⟨acts, tracked, target, rfl⟩, moves⟩
  · refine ⟨_, Or.inl ⟨acts, rfl⟩, moves_apart seen (moves_find_skip seen.base taken idle.1 acts) ?_ rfl⟩
    have finished : (s.task e.task).taskState ≠ .kSubmitted := fun same => acts (Or.inl same)
    simp [part, State.find, finished, tale, tells]

theorem ensures_dispatchCqe {e : Entry} (taken : w.1.taken = some e) (idle : w.1.Idle) (res : Int) :
    Ensures m .loop w (dispatchCqe e res) fun _ w' => w' = ({ w.1 with taken := none }, w.2) := by
  refine Ensures.known (P := w.2 e.task = 0) (fun s seen => ?_) fun unused => ?_
  · rw [← Holds.seen seen, counted, idle.2]
  apply Ensures.bind (ensures_find taken idle)
  rintro found w' (⟨skipped, rfl⟩ | ⟨acts, tracked, own, rfl⟩)
  · rw [if_neg skipped]
    exact Ensures.pure rfl
  · rw [if_pos acts]
    apply Ensures.bind (ensures_actOnCqe tracked (Function.update_self ..) (Function.update_self ..) res)
    rintro _ w' rfl
    refine Ensures.store ?_ fun s seen _ => moves_release (a := e.task) seen rfl (Function.update_self ..) own
    have hand : Function.update w.1.hand e.task none = w.1.hand := by
      rw [← idle.2 e.task, Function.update_eq_self]
    have back : Function.update w.2 e.task 0 = w.2 := by rw [← unused, Function.update_eq_self]
    simp only [hold, View.dispatching, View.hold, Function.update_idem, hand, idle.1, back]

/-! ### Threads -/

theorem keeps_setNextTask (next : Option Addr) : Keeps m i w (setNextTask a next) := by
  refine Keeps.bind (Ensures.atomic fun c s t seen stepped _ => ⟨w, rfl, ?_⟩) fun replaced => ?_
  · cases Option.some.inj stepped
    exact moves_apart seen (moves_setTask seen.base rfl) rfl rfl
  · cases replaced with
    | none => exact Ensures.pure rfl
    | some old =>
      refine Ensures.bind (Ensures.enter (Or.inl rfl) fun _ _ post => post) ?_
      exact fun _ _ same => Ensures.pure (Prod.ext same.1 same.2)

theorem keeps_perform (action : Action) : Keeps m i w (perform action) := by
  cases action with
  | stop => exact Ensures.pure rfl
  | addTask p => exact keeps_enter_addTask fun _ => Ensures.pure rfl
  | cancel a special => exact keeps_quiet (quiet_cancel special) (Handler.keeps_cancel special)
  | create a config =>
    refine Ensures.atomic fun c s t seen stepped admitted => ⟨w, rfl, ?_⟩
    simp only [Option.ite_none_left_eq_some, Option.some.injEq] at stepped
    obtain ⟨-, rfl⟩ := stepped
    exact moves_create seen admitted
  | configure a config =>
    exact Ensures.store rfl fun s seen _ => moves_apart seen (moves_setTask seen.base rfl) rfl rfl
  | setNextTask a next => exact keeps_setNextTask next
  | flush => exact keeps_autoFlush
  | requestShutdown => exact Ensures.store rfl fun s seen _ => moves_apart seen (moves_shutdown seen.base) rfl rfl

theorem ensures_user : Ensures m i w (code i .user) ((spec i).post .user w) := by
  refine Keeps.bind (Ensures.choose fun _ => rfl) fun choice => ?_
  split
  · exact Ensures.pure ⟨rfl, rfl⟩
  · apply Keeps.bind (keeps_perform _)
    intro _
    exact Ensures.enter trivial fun _ _ post => post

theorem ensures_runEventLoop (idle : w.1.taken = none ∧ w.1.Idle) :
    Ensures m .loop w (code .loop .runEventLoop) ((spec .loop).post .runEventLoop w) := by
  refine Keeps.bind (Ensures.load fun _ _ => rfl) fun shutdown => ?_
  split
  · exact Ensures.pure ⟨trivial, rfl⟩
  · refine Ensures.bind (M := fun cqe w' => w' = ({ w.1 with taken := some cqe.1 }, w.2)) ?_ ?_
    · apply Ensures.atomic
      intro c s t seen stepped _
      obtain ⟨e, posted, rfl⟩ := Option.map_eq_some_iff.mp stepped
      rw [posted, Option.getD_some]
      exact ⟨_, rfl, moves_apart seen (moves_take seen.base idle.1 (List.mem_of_getElem? posted)) rfl rfl⟩
    · rintro cqe w' rfl
      refine Ensures.bind (Ensures.enter ⟨rfl, rfl, idle.2⟩ fun _ _ post => post) ?_
      rintro _ ⟨_, _⟩ ⟨rfl, rfl⟩
      exact Ensures.enter ⟨rfl, rfl, idle.2⟩ fun _ _ post => post

theorem meets (i : Thread) (f : Procedure) (w : View) (pre : (spec i).pre f w) :
    Ensures m i w (code i f) ((spec i).post f w) := by
  cases f with
  | addTask p =>
    cases p with
    | none => exact Ensures.pure ⟨rfl, fun _ other => by contradiction⟩
    | some a =>
      refine ensures_addTask.mono fun added w' returned => ⟨returned.1, ?_⟩
      rintro b ⟨⟩
      exact returned.2
  | reserveSlot a k cur => exact ensures_reserveSlot pre.1 pre.2 cur
  | handleFailedTask a cause =>
    obtain ⟨k, held, uncalled, mine⟩ := pre
    exact ensures_handleFailedTask held uncalled mine
  | deleteTask a inherited cause => exact ensures_deleteTask_code pre
  | resubmitBlocked a =>
    refine Ensures.bind (Ensures.enter trivial fun _ _ post => post) ?_
    rintro added w' ⟨rfl, refused⟩
    rw [refused a rfl pre]
    exact Ensures.enter pre fun _ _ post => post
  | dispatchCqe e res =>
    obtain ⟨rfl, taken, idle⟩ := pre
    apply Ensures.bind (ensures_dispatchCqe taken idle res)
    rintro _ w' rfl
    exact Ensures.pure ⟨rfl, rfl⟩
  | runEventLoop =>
    obtain ⟨rfl, idle⟩ := pre
    exact ensures_runEventLoop idle
  | user => exact ensures_user

theorem start_account (maxInflightOps : Int) : Account (start maxInflightOps).shared :=
  ⟨fun _ _ => rfl, fun _ _ _ _ => rfl, fun _ => Nat.zero_le 1, fun _ _ _ _ settled => by contradiction,
    fun _ slot => by contradiction, fun _ slot => by contradiction⟩

theorem reaches_account {maxInflightOps : Int} {pool : Pool Thread State Choice Procedure Bool}
    (path : Pool.Reaches code m.Admits (start maxInflightOps) pool) : Valid m pool.shared ∧ Account pool.shared := by
  refine Ownership.invariant (O := ownership m) (K := spec) meets
    ⟨start_valid maxInflightOps, start_account maxInflightOps⟩ ?_ path
  intro i
  cases i with
  | loop =>
    refine Ensures.bind (Ensures.enter ⟨rfl, rfl, rfl, fun _ => rfl⟩ fun _ _ post => post) ?_
    exact fun _ _ _ => Ensures.pure trivial
  | client id =>
    refine Ensures.bind (Ensures.enter trivial fun _ _ post => post) ?_
    exact fun _ _ _ => Ensures.pure trivial

/-- No submission is answered twice or early. One that ended is answered exactly if it
succeeded or failed, and all end whose completions were dispatched. -/
structure AnsweredOnce (s : State) : Prop where
  once : ∀ k, s.log.countP (answers k) ≤ 1
  pending : ∀ e ∈ s.outstanding, e.principal → s.log.countP (answers e.submission) = 0
  ended : ∀ a state cause k, .settled a state cause (some k) ∈ s.log → s.log.countP (answers k) = due state
  complete : ∀ k ∈ s.released, ∃ a state cause, .settled a state cause (some k) ∈ s.log

theorem calls_log (s : State) (k : Nat) : s.log.countP (answers k) = calls s k := by
  rw [calls, tale, List.countP_filter]
  apply List.countP_congr
  intro event _
  cases event <;> simp [answers, tells]

/-- In every interleaving without timeouts and cancel requests, and in every one in which
their completions find the tasks finished; in both no storage is reused during a submission
on it, and no SQE is handed over unprepared. -/
theorem answered_once {maxInflightOps : Int} {pool : Pool Thread State Choice Procedure Bool} (direct : m ≠ .drained)
    (path : Pool.Reaches code m.Admits (start maxInflightOps) pool) : AnsweredOnce pool.shared := by
  obtain ⟨valid, account⟩ := reaches_account path
  refine ⟨fun k => ?_, fun e out principal => ?_, fun a state cause k settled => ?_, fun k slot => ?_⟩
  · rw [calls_log]
    exact account.once k
  · rw [calls_log]
    obtain ⟨number, queued | ⟨drained, -⟩⟩ := valid.rings.entries e out (Mode.tracks_of_principal principal)
    · exact account.waiting e.task e.submission number (Or.inl queued)
    · exact absurd drained direct
  · rw [calls_log]
    exact (account.ended a state cause k (List.mem_filter.mpr ⟨settled, rfl⟩)).1
  · obtain ⟨a, state, cause, settled⟩ := account.back k slot
    exact ⟨a, state, cause, (List.mem_filter.mp settled).1⟩

/-- The first operation of a repeating task has been answered, the second has not. -/
theorem repetition_answered_once : ∃ pool : Pool Thread State Choice Procedure Bool,
    Pool.Reaches code Mode.plain.Admits (start 2) pool ∧ pool.shared.log.countP (answers 0) = 1 ∧
    pool.shared.log.countP (answers 1) = 0 ∧ AnsweredOnce pool.shared := by
  have executed : (Pool.run code Mode.plain.admits repeatSchedule (start 2)).map
      (fun p => (p.shared.log.countP (answers 0), p.shared.log.countP (answers 1))) = some (1, 0) := by
    decide +kernel
  obtain ⟨pool, run, outcome⟩ := Option.map_eq_some_iff.mp executed
  have path := Pool.reaches_of_run Mode.admits_sound run
  simp only [Prod.mk.injEq] at outcome
  exact ⟨pool, path, outcome.1, outcome.2, answered_once (by decide) path⟩

end Talon.Handler.Answering
