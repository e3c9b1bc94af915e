import Talon.Handler.Moves

/-! Each function of the handler, run by any thread against any interference,
keeps the invariant and returns its caller's view as specified. -/
namespace Talon.Handler
open Interleaving Ownership

/-- The event loop between two completions. -/
def View.Idle (v : View) : Prop := v.active = none ∧ ∀ a, v.hand a = none

def View.undoom (v : View) (inherited : Bool) : View :=
  { v with doomed := if inherited then v.doomed else v.doomed.tail }

/-- What the functions need of their caller's view and how they leave it.
`AddTask` fails on a task its caller holds, so a blocked resubmission never
returns. -/
def spec (i : Thread) : Spec Procedure Bool View where
  pre
    | .addTask _, _ => True
    | .reserveSlot a k _, v => v.hand a = some (false, some k)
    | .handleFailedTask a cause, v =>
        ∃ k, v.hand a = some (true, some k) ∧ (cause = none ∨ cause = some k)
    | .deleteTask a inherited cause, v => inherited = true ∨
        ∃ k rest, v.doomed = ⟨i, a, some k⟩ :: rest ∧ (cause = none ∨ cause = some k)
    | .resubmitBlocked a, v => v.hand a ≠ none
    | .dispatchCqe e _, v => i = .loop ∧ v.taken = some e ∧ v.Idle
    | .runEventLoop, v => i = .loop ∧ v.taken = none ∧ v.Idle
    | .user, _ => True
  post
    | .addTask p, v, added, v' => v' = v ∧ ∀ a, p = some a → v.hand a ≠ none → added = false
    | .reserveSlot a k _, v, swapped, v' =>
        v' = if swapped then v.hold a (some (true, some k)) else v
    | .handleFailedTask a _, v, _, v' => v' = v.hold a none
    | .deleteTask _ inherited _, v, _, v' => v' = v.undoom inherited
    | .resubmitBlocked _, _, _, _ => False
    | .dispatchCqe _ _, v, _, v' => v' = { v with taken := none }
    | .runEventLoop, _, _, _ => True
    | .user, v, _, v' => v' = v

abbrev Ensures (m : Mode) (i : Thread) (v : View) {α : Type} (p : Prog State Choice Procedure Bool α)
    (post : α → View → Prop) : Prop := (ownership m).Ensures (spec i) i v p post

/-- The program leaves its thread's view as it is. -/
abbrev Keeps (m : Mode) (i : Thread) (v : View) {α : Type}
    (p : Prog State Choice Procedure Bool α) : Prop := Ensures m i v p fun _ v' => v' = v

variable {m : Mode} {i : Thread} {v : View} {a : Addr} {k : Nat} {α β : Type}
  {p : Prog State Choice Procedure Bool α} {next : α → Prog State Choice Procedure Bool β}
  {post : β → View → Prop}

theorem Keeps.bind (keeps : Keeps m i v p) (rest : ∀ r, Ensures m i v (next r) post) :
    Ensures m i v (p >>= next) post := by
  apply Ensures.bind keeps
  intro r v' same
  subst same
  exact rest r

theorem ensures_loadTask {post : Task → View → Prop}
    (holds : ∀ task : Task, (v.hand a ≠ none → task.taskState = .kSubmitted) → post task v) :
    Ensures m i v (loadTask a) post :=
  Ensures.load fun s seen => holds (s.task a) (Holds.submitted seen)

/-- Reads whose result does not matter to the proof. -/
theorem keeps_loadTask : Keeps m i v (loadTask a) := ensures_loadTask fun _ _ => rfl

theorem keeps_storeTask {f : Task → Task} (state : ∀ task, (f task).taskState = task.taskState) :
    Keeps m i v (storeTask a f) :=
  Ensures.store rfl fun s seen _ => moves_setTask seen (state (s.task a))

theorem keeps_setDebugStr (text : String) : Keeps m i v (setDebugStr a text) :=
  keeps_storeTask fun _ => rfl

theorem keeps_storeDetach (detach : Bool) : Keeps m i v (storeDetach a detach) :=
  keeps_storeTask fun _ => rfl

theorem keeps_setResult (res : Int) : Keeps m i v (setResult a res) :=
  keeps_storeTask fun _ => rfl

theorem keeps_markDetachedAndComplete (detach : Bool) :
    Keeps m i v (markDetachedAndComplete a detach) := by
  cases detach with
  | false => exact keeps_storeDetach false
  | true =>
    refine Keeps.bind (keeps_storeTask fun _ => rfl) fun _ => ?_
    exact keeps_storeDetach true

theorem keeps_autoFlush : Keeps m i v autoFlush :=
  Ensures.store rfl fun _ seen _ => moves_submit seen

theorem keeps_record {event : State → Event} (plain : ∀ s e st, event s ≠ .found e st)
    (own : ∀ s, (event s).isolated) :
    Keeps m i v (.store fun s => s.record (event s)) :=
  Ensures.store rfl fun s seen _ => moves_record seen (plain s) (own s)

theorem ensures_setTaskState (held : v.hand a = some (true, some k)) {state : TaskState}
    (final : state ≠ .kSubmitted) {cause : Option Nat} (mine : cause = none ∨ cause = some k)
    (dooms : Bool) :
    Ensures m i v (setTaskState i a state cause dooms) fun _ v' =>
      v' = { v.hold a none with doomed := if dooms then ⟨i, a, some k⟩ :: v.doomed else v.doomed } :=
  Ensures.store rfl fun _ seen admitted => moves_settle seen held final mine admitted

/-- The stores after which the task lives on. -/
theorem ensures_settle (held : v.hand a = some (true, some k)) {state : TaskState}
    (final : state ≠ .kSubmitted) {cause : Option Nat} (mine : cause = none ∨ cause = some k) :
    Ensures m i v (setTaskState i a state cause false) fun _ v' => v' = v.hold a none :=
  ensures_setTaskState held final mine false

theorem ensures_deleteTask {rest : List Doom} (doomed : v.doomed = ⟨i, a, some k⟩ :: rest)
    {cause : Option Nat} (mine : cause = none ∨ cause = some k) :
    Ensures m i v (deleteTask a cause) fun _ v' => v' = { v with doomed := rest } := by
  refine Ensures.bind (Ensures.enter (Or.inr ⟨k, rest, doomed, mine⟩) fun _ _ post => post) ?_
  rintro _ v' rfl
  apply Ensures.pure
  simp [View.undoom, doomed]

/-- Every way to finish a task: store the final state, then delete it. -/
theorem ensures_finish (held : v.hand a = some (true, some k)) {state : TaskState}
    (final : state ≠ .kSubmitted) {cause : Option Nat} (mine : cause = none ∨ cause = some k) :
    Ensures m i v (do setTaskState i a state cause true; deleteTask a cause) fun _ v' =>
      v' = v.hold a none := by
  apply Ensures.bind (ensures_setTaskState held final mine true)
  rintro _ v' rfl
  exact ensures_deleteTask rfl mine

theorem keeps_executeCompletionHandler : Keeps m i v (executeCompletionHandler a) := by
  refine Keeps.bind (keeps_record (by simp) fun _ => rfl) fun _ => ?_
  exact Keeps.bind (Ensures.enter trivial fun _ _ post => post) fun _ => Ensures.pure rfl

/-- Without an SQE the caller still holds the submission. -/
theorem ensures_queueSqe (held : v.hand a = some (true, some k)) (apart : ∀ b, v.active ≠ some (b, k))
    {flag : EventFlag} (completes : flag = .kNone ∨ flag = .kError) :
    Ensures m i v (queueSqe a flag k) fun sqe v' => v' = if sqe then v.hold a none else v := by
  apply Ensures.atomic
  intro c s t seen stepped _
  cases Option.some.inj stepped
  cases c.sqe with
  | true => exact ⟨_, rfl, moves_queue seen held apart completes⟩
  | false => exact ⟨_, rfl, moves_refuse seen⟩

theorem keeps_linkTimeout : Keeps m i v (linkTimeout a k) := by
  apply Keeps.bind keeps_loadTask
  intro task
  split
  · refine Keeps.bind ?_ fun _ => Ensures.pure rfl
    apply Ensures.atomic
    intro c s t seen stepped admitted
    cases Option.some.inj stepped
    cases sqe : c.sqe with
    | true =>
      rw [sqe] at admitted
      have permitted := admitted (.linked a k) rfl
      refine ⟨v, rfl, moves_queueExtra seen (fun plain => ?_) (by simp) rfl rfl fun tracked => ?_⟩
      · simp [plain, Mode.permits] at permitted
      cases m with
      | plain => simp [Mode.tracks, Entry.principal] at tracked
      | opFirst => simp [Mode.tracks, Entry.principal] at tracked
      | drained =>
        simp only [Mode.permits, decide_eq_true_eq] at permitted
        exact ⟨permitted.1, permitted.2.imp id fun owned => ⟨rfl, Or.inl owned⟩⟩
    | false => exact ⟨v, rfl, moves_refuse seen⟩
  · exact Ensures.pure rfl

theorem keeps_finishSqe : Keeps m i v (finishSqe a k) :=
  Keeps.bind (keeps_storeTask fun _ => rfl) fun _ => keeps_linkTimeout

theorem ensures_queueFailedTask (held : v.hand a = some (true, some k))
    (apart : ∀ b, v.active ≠ some (b, k)) :
    Ensures m i v (queueFailedTask a k) fun _ v' => v' = v.hold a none := by
  apply Ensures.bind (ensures_queueSqe held apart (Or.inr rfl))
  rintro sqe v' rfl
  cases sqe with
  | true => exact keeps_autoFlush
  | false =>
    exact Ensures.bind (Ensures.enter ⟨k, held, Or.inl rfl⟩ fun _ _ post => post)
      fun _ _ post => Ensures.pure post

/-- Both disciplines exclude runs that hand over an unprepared SQE. -/
theorem ensures_submitTask (held : v.hand a = some (true, some k))
    (apart : ∀ b, v.active ≠ some (b, k)) :
    Ensures m i v (submitTask a k) fun _ v' => v' = v.hold a none := by
  apply Keeps.bind keeps_loadTask
  intro task
  split
  · apply Ensures.bind (ensures_queueSqe held apart (Or.inl rfl))
    rintro sqe v' rfl
    cases sqe with
    | true => exact keeps_finishSqe
    | false => exact ensures_queueFailedTask held apart
  · refine Ensures.bind (M := fun sqe v' => sqe = false ∧ v' = v) ?_ ?_
    · apply Ensures.atomic
      intro c s t seen stepped admitted
      cases Option.some.inj stepped
      cases sqe : c.sqe with
      | true =>
        rw [sqe] at admitted
        have permitted := admitted .unprepared rfl
        cases m <;> simp [Mode.permits] at permitted
      | false => exact ⟨v, ⟨rfl, rfl⟩, moves_refuse seen⟩
    · rintro sqe v' ⟨rfl, rfl⟩
      exact ensures_queueFailedTask held apart

theorem keeps_resetTryCount : Keeps m i v (resetTryCount a) := by
  apply Keeps.bind keeps_loadTask
  intro task
  split
  · exact keeps_storeTask fun _ => rfl
  · exact Ensures.pure rfl

theorem ensures_submitReserved (held : v.hand a = some (true, some k))
    (apart : ∀ b, v.active ≠ some (b, k)) :
    Ensures m i v (submitReserved a k) fun _ v' => v' = v.hold a none := by
  apply Keeps.bind (keeps_markDetachedAndComplete false)
  intro _
  refine Keeps.bind (keeps_storeTask fun _ => rfl) fun _ => ?_
  apply Keeps.bind keeps_resetTryCount
  intro _
  refine Keeps.bind (keeps_storeTask fun _ => rfl) fun _ => ?_
  apply Ensures.bind (ensures_submitTask held apart)
  rintro _ v' rfl
  exact keeps_autoFlush

theorem ensures_reserve (held : v.hand a = some (false, some k)) (unlimited : ¬ 0 < v.limit) :
    Ensures m i v (.store (·.reserve i a k)) fun _ v' => v' = v.hold a (some (true, some k)) :=
  Ensures.store rfl fun _ seen _ => moves_reserve seen held fun limited => absurd limited unlimited

theorem ensures_reject (held : v.hand a = some (false, some k)) :
    Ensures m i v (.store (·.reject a)) fun _ v' => v' = v.hold a none :=
  Ensures.store rfl fun _ seen _ => moves_reject seen held

theorem ensures_reserveInflight (held : v.hand a = some (false, some k)) :
    Ensures m i v (reserveInflight i a k) fun swapped v' =>
      v' = if swapped then v.hold a (some (true, some k)) else v := by
  refine Ensures.bind (M := fun max v' => max = v.limit ∧ v' = v)
    (Ensures.load fun s seen => ⟨congrArg View.limit seen.2, rfl⟩) ?_
  rintro _ v' ⟨rfl, rfl⟩
  split
  · refine Keeps.bind (Ensures.exchange fun _ seen _ => ⟨_, rfl, moves_see seen⟩) fun cur => ?_
    exact Ensures.enter held fun _ _ post => post
  · next unlimited =>
    apply Ensures.bind (ensures_reserve held unlimited)
    rintro _ v' rfl
    exact Ensures.pure rfl

theorem ensures_reserveSlot (held : v.hand a = some (false, some k)) (cur : Int) :
    Ensures m i v (code i (.reserveSlot a k cur)) ((spec i).post (.reserveSlot a k cur) v) := by
  refine Ensures.bind (M := fun max v' => max = v.limit ∧ v' = v)
    (Ensures.load fun s seen => ⟨congrArg View.limit seen.2, rfl⟩) ?_
  rintro _ v' ⟨rfl, rfl⟩
  split
  · next room =>
    refine Ensures.bind (M := fun r v'' =>
      v'' = if r.1 then v'.hold a (some (true, some k)) else v') ?_ ?_
    · apply Ensures.atomic
      intro c s t seen stepped _
      cases Option.some.inj stepped
      by_cases swaps : s.inflight = cur ∧ ¬ c.spurious
      · rw [if_pos swaps]
        refine ⟨_, (if_pos (decide_eq_true swaps)).symm, moves_reserve seen held fun _ => ?_⟩
        rw [swaps.1]
        exact room
      · rw [if_neg swaps]
        refine ⟨_, (if_neg ?_).symm, moves_see seen⟩
        simpa only [decide_eq_true_eq] using swaps
    · rintro ⟨swapped, saw⟩ v'' rfl
      cases swapped with
      | true => exact Ensures.pure rfl
      | false => exact Ensures.enter held fun _ _ post => post
  · exact Ensures.pure rfl

/-- The submission's number is new, so no dispatch is about it. -/
theorem ensures_tryTransitionToSubmitted :
    Ensures m i v (tryTransitionToSubmitted i a) fun gate v' =>
      (v.hand a ≠ none → gate = none) ∧ match gate with
        | none => v' = v
        | some k => (∀ b, v.active ≠ some (b, k)) ∧ v' = v.hold a (some (false, some k)) := by
  refine Ensures.bind (M := fun task v' =>
      (v.hand a ≠ none → task.taskState = .kSubmitted) ∧ v' = v)
    (ensures_loadTask fun _ submitted => ⟨submitted, rfl⟩) ?_
  rintro task v' ⟨submitted, rfl⟩
  split
  · exact Ensures.pure ⟨fun _ => rfl, rfl⟩
  · next unsubmitted =>
    apply Ensures.atomic
    intro c s t seen stepped admitted
    cases Option.some.inj stepped
    have unheld : ¬ v'.hand a ≠ none := fun held => unsubmitted (submitted held)
    by_cases swaps : (s.task a).taskState = task.taskState
    · simp only [if_pos swaps] at admitted ⊢
      obtain ⟨apart, moves⟩ := moves_gate seen (fun same => unsubmitted (swaps ▸ same)) admitted
      exact ⟨_, ⟨fun held => absurd held unheld, apart, rfl⟩, moves⟩
    · simp only [if_neg swaps]
      exact ⟨v', ⟨fun _ => trivial, rfl⟩, seen.1, fun _ _ => rfl, seen.2⟩

theorem View.hold_hold (v : View) (a : Addr) (first second : Option (Bool × Option Nat)) :
    (v.hold a first).hold a second = v.hold a second := by
  simp only [View.hold, Function.update_idem]

theorem View.hold_none (unheld : v.hand a = none) : v.hold a none = v := by
  simp only [View.hold, ← unheld, Function.update_eq_self]

theorem ensures_addTask :
    Ensures m i v (addTask i a) fun added v' => v' = v ∧ (v.hand a ≠ none → added = false) := by
  refine Ensures.bind ensures_tryTransitionToSubmitted fun gate v' gated => ?_
  cases gate with
  | none =>
    obtain ⟨-, rfl⟩ := gated
    refine Keeps.bind (keeps_setDebugStr _) fun _ => ?_
    refine Keeps.bind (keeps_storeDetach false) fun _ => ?_
    exact Ensures.pure ⟨rfl, fun _ => rfl⟩
  | some k =>
    obtain ⟨open_, apart, rfl⟩ := gated
    have unheld : v.hand a = none := by
      by_contra held
      have closed := open_ held
      contradiction
    refine Ensures.bind (ensures_reserveInflight (Function.update_self ..)) ?_
    rintro slotReserved v' rfl
    cases slotReserved with
    | true =>
      refine Ensures.bind (ensures_submitReserved (k := k) (Function.update_self ..) apart) ?_
      rintro _ v' rfl
      refine Ensures.pure ⟨?_, fun held => absurd unheld held⟩
      simp only [if_true, View.hold_hold, View.hold_none unheld]
    | false =>
      refine Ensures.bind (ensures_reject (k := k) (Function.update_self ..)) ?_
      rintro _ v' rfl
      refine Ensures.pure ⟨?_, fun _ => rfl⟩
      simp only [Bool.false_eq_true, if_false, View.hold_hold, View.hold_none unheld]

theorem keeps_enter_addTask {p : Option Addr} {rest : α → View → Prop}
    {next : Bool → Prog State Choice Procedure Bool α} (kept : ∀ r, Ensures m i v (next r) rest) :
    Ensures m i v (.enter (.addTask p) >>= next) rest := by
  refine Ensures.bind (Ensures.enter trivial fun _ _ post => post) ?_
  rintro r v' ⟨rfl, -⟩
  exact kept r

theorem ensures_handleFailedTask {cause : Option Nat} (held : v.hand a = some (true, some k))
    (mine : cause = none ∨ cause = some k) :
    Ensures m i v (code i (.handleFailedTask a cause)) ((spec i).post (.handleFailedTask a cause) v) := by
  refine Keeps.bind (Ensures.atomic fun c s t seen stepped _ => ⟨v, rfl, ?_⟩) fun before => ?_
  · cases Option.some.inj stepped
    exact moves_setTask seen rfl
  apply Keeps.bind keeps_loadTask
  intro task
  split
  · apply Ensures.bind (ensures_settle held (by simp) mine)
    rintro _ v' rfl
    exact keeps_enter_addTask fun _ => Ensures.pure rfl
  · apply Keeps.bind keeps_executeCompletionHandler
    intro _
    apply Keeps.bind (keeps_setDebugStr _)
    intro _
    refine Keeps.bind (keeps_storeTask fun _ => rfl) fun _ => ?_
    apply Keeps.bind (keeps_markDetachedAndComplete true)
    intro _
    apply Ensures.bind (ensures_setTaskState held (by simp) mine true)
    rintro _ v' rfl
    apply Ensures.bind (ensures_deleteTask rfl mine)
    rintro _ v' rfl
    exact Ensures.pure rfl

theorem ensures_deleteTask_code {inherited : Bool} {cause : Option Nat}
    (doomed : inherited = true ∨
      ∃ k rest, v.doomed = ⟨i, a, some k⟩ :: rest ∧ (cause = none ∨ cause = some k)) :
    Ensures m i v (code i (.deleteTask a inherited cause))
      ((spec i).post (.deleteTask a inherited cause) v) := by
  refine Keeps.bind ?_ fun _ => ?_
  · apply Keeps.bind keeps_loadTask
    intro task
    cases task.next with
    | none => exact Ensures.pure rfl
    | some next =>
      refine Ensures.bind (Ensures.enter (Or.inl rfl) fun _ _ post => post) ?_
      rintro _ v' rfl
      exact Ensures.pure rfl
  · refine Ensures.bind (M := fun _ v' => v' = v.undoom inherited)
      (Ensures.store rfl fun s seen admitted => moves_destroy seen doomed admitted) ?_
    rintro _ v' rfl
    exact Ensures.pure rfl

theorem ensures_handleTimeoutTask (held : v.hand a = some (true, some k)) :
    Ensures m .loop v (handleTimeoutTask a k) fun _ v' => v' = v.hold a none := by
  refine Ensures.bind (M := fun task v' => task.taskState = .kSubmitted ∧ v' = v)
    (ensures_loadTask fun _ submitted => ⟨submitted (by simp [held]), rfl⟩) ?_
  rintro task v' ⟨submitted, rfl⟩
  rw [if_pos (show TaskState.Live task.taskState from Or.inl submitted)]
  apply Keeps.bind (keeps_setDebugStr _)
  intro _
  apply Keeps.bind (keeps_markDetachedAndComplete true)
  intro _
  exact ensures_finish held (by simp) (Or.inr rfl)

theorem ensures_handleErrorEvent (held : v.hand a = some (true, some k)) (res : Int) :
    Ensures m i v (handleErrorEvent a k res) fun _ v' => v' = v.hold a none := by
  apply Keeps.bind (keeps_setResult res)
  intro _
  exact Ensures.bind (Ensures.enter ⟨k, held, Or.inr rfl⟩ fun _ _ post => post)
    fun _ _ post => Ensures.pure post

theorem keeps_submitNext : Keeps m i v (submitNext a) := by
  apply Keeps.bind keeps_loadTask
  intro task
  split
  · refine Keeps.bind (Ensures.atomic fun c s t seen stepped _ => ⟨v, rfl, ?_⟩) fun next => ?_
    · cases Option.some.inj stepped
      exact moves_setTask seen rfl
    · exact keeps_enter_addTask fun _ => Ensures.pure rfl
  · exact Ensures.pure rfl

theorem keeps_repeatOrDetach (repeatForever : Bool) : Keeps m i v (repeatOrDetach a repeatForever) := by
  cases repeatForever with
  | true => exact keeps_enter_addTask fun _ => Ensures.pure rfl
  | false => exact keeps_storeDetach true

theorem keeps_closeFd : Keeps m i v (closeFd a) := by
  apply Keeps.bind keeps_loadTask
  intro task
  split
  · refine Keeps.bind (keeps_record (by simp) fun _ => rfl) fun _ => ?_
    exact keeps_storeTask fun _ => rfl
  · exact Ensures.pure rfl

theorem ensures_finishEmpty (held : v.hand a = some (true, some k)) :
    Ensures m .loop v (finishEmpty a k) fun _ v' => v' = v.hold a none := by
  apply Keeps.bind keeps_loadTask
  intro task
  split
  · apply Keeps.bind keeps_closeFd
    intro _
    apply Keeps.bind (keeps_markDetachedAndComplete true)
    intro _
    exact ensures_finish held (by simp) (Or.inr rfl)
  · apply Ensures.bind (ensures_settle held (by simp) (Or.inr rfl))
    rintro _ v' rfl
    apply Keeps.bind keeps_loadTask
    intro task
    exact Keeps.bind (keeps_repeatOrDetach _) fun _ => keeps_submitNext

theorem ensures_finishTransfer (held : v.hand a = some (true, some k)) :
    Ensures m .loop v (finishTransfer a k) fun _ v' => v' = v.hold a none := by
  apply Keeps.bind keeps_loadTask
  intro task
  apply Ensures.bind (ensures_settle held (by simp) (Or.inr rfl))
  rintro _ v' rfl
  apply Keeps.bind (keeps_repeatOrDetach _)
  intro _
  apply Keeps.bind keeps_submitNext
  intro _
  apply Keeps.bind keeps_loadTask
  intro task
  split
  · exact keeps_markDetachedAndComplete true
  · exact Ensures.pure rfl

theorem ensures_handleNormalEvent (held : v.hand a = some (true, some k)) (res : Int) :
    Ensures m .loop v (handleNormalEvent a k res) fun _ v' => v' = v.hold a none := by
  apply Keeps.bind (keeps_setResult res)
  intro _
  split
  · split
    · exact Ensures.bind (Ensures.enter (by simp [spec, held]) fun _ _ never => never)
        fun _ _ never => never.elim
    split
    · apply Keeps.bind keeps_loadTask
      intro task
      split
      · exact ensures_handleTimeoutTask held
      · apply Keeps.bind (keeps_setDebugStr _)
        intro _
        apply Keeps.bind (keeps_markDetachedAndComplete true)
        intro _
        exact ensures_finish held (by simp) (Or.inr rfl)
    · exact Ensures.bind (Ensures.enter ⟨k, held, Or.inr rfl⟩ fun _ _ post => post)
        fun _ _ post => Ensures.pure post
  · apply Keeps.bind keeps_executeCompletionHandler
    intro _
    unfold finishSuccess
    split
    · exact ensures_finishEmpty held
    · exact ensures_finishTransfer held

theorem ensures_handleEvent {e : Entry} (tracked : m.tracks e)
    (held : v.hand e.task = some (true, some e.submission)) (res : Int) :
    Ensures m .loop v (handleEvent e res) fun _ v' => v' = v.hold e.task none := by
  unfold handleEvent
  cases flag : e.flag with
  | kNone => exact ensures_handleNormalEvent held res
  | kTimeout => exact ensures_handleTimeoutTask held
  | kError => exact ensures_handleErrorEvent held res
  | kCancel => cases m <;> simp [Mode.tracks, Entry.principal, flag] at tracked
  | kMask => cases m <;> simp [Mode.tracks, Entry.principal, flag] at tracked

/-- What `DispatchCqe` has taken over when it acts on `e`. -/
def View.dispatching (v : View) (e : Entry) : View :=
  { v.hold e.task (some (true, some e.submission)) with
    active := some (e.task, e.submission), taken := none }

theorem ensures_find {e : Entry} (taken : v.taken = some e) (idle : v.Idle) :
    Ensures m .loop v (.exchange
      (fun s => ((s.task e.task).taskState, s.liveSubmission e.task)) (·.find e)) fun found v' =>
      ¬ TaskState.Live found.1 ∧ v' = { v with taken := none } ∨
      TaskState.Live found.1 ∧ m.tracks e ∧ found.2 = some e.submission ∧ v' = v.dispatching e := by
  apply Ensures.atomic
  intro c s t seen stepped admitted
  cases Option.some.inj stepped
  by_cases acts : TaskState.Live (s.task e.task).taskState
  · have tracked : m.tracks e := by
      have permitted := admitted (.found e (s.task e.task).taskState) rfl
      cases m with
      | plain =>
        obtain ⟨member, -⟩ := outstanding_find (s := s) (e := e) (by
          obtain ⟨-, rfl⟩ := seen
          simpa [ownership, view] using taken)
        exact seen.1.rings.pure rfl e member
      | opFirst => simpa [Mode.permits, Mode.tracks, acts] using permitted
      | drained => simpa [Mode.permits, acts] using permitted
    obtain ⟨target, moves⟩ := moves_find seen taken idle.1 (idle.2 e.task) tracked acts
    exact ⟨_, Or.inr ⟨acts, tracked, target, rfl⟩, moves⟩
  · exact ⟨_, Or.inl ⟨acts, rfl⟩, moves_find_skip seen taken idle.1 acts⟩

theorem ensures_actOnCqe {e : Entry} (tracked : m.tracks e)
    (held : v.hand e.task = some (true, some e.submission)) (res : Int) :
    Ensures m .loop v (actOnCqe e res) fun _ v' => v' = v.hold e.task none := by
  apply Keeps.bind keeps_loadTask
  intro task
  split
  · apply Keeps.bind (keeps_markDetachedAndComplete true)
    intro _
    exact ensures_finish held (by simp) (Or.inr rfl)
  · exact ensures_handleEvent tracked held res

theorem ensures_dispatchCqe {e : Entry} (taken : v.taken = some e) (idle : v.Idle) (res : Int) :
    Ensures m .loop v (dispatchCqe e res) fun _ v' => v' = { v with taken := none } := by
  apply Ensures.bind (ensures_find taken idle)
  rintro found v' (⟨skipped, rfl⟩ | ⟨acts, tracked, own, rfl⟩)
  · rw [if_neg skipped]
    exact Ensures.pure rfl
  · rw [if_pos acts]
    apply Ensures.bind (ensures_actOnCqe tracked (Function.update_self ..) res)
    rintro _ v' rfl
    refine Ensures.store ?_ fun s seen _ =>
      moves_release (a := e.task) seen rfl (Function.update_self ..) own
    have hand : Function.update v.hand e.task none = v.hand := by
      rw [← idle.2 e.task, Function.update_eq_self]
    simp only [View.dispatching, View.hold, Function.update_idem, hand, idle.1]

theorem cancelEntry_untracked {s : State} {special : Option (Addr × EventFlag)} {e : Entry}
    (requested : cancelEntry s a special = some e) :
    e.principal = false ∧ ¬ m.tracks e := by
  have flag : e.flag = .kCancel ∨ e.flag = .kMask := by
    unfold cancelEntry at requested
    split at requested
    · obtain rfl := Option.some.inj requested
      dsimp only
      split
      · exact Or.inl rfl
      · exact Or.inr rfl
    · obtain ⟨target, -, rfl⟩ := Option.map_eq_some_iff.mp requested
      exact Or.inl rfl
  rcases flag with flag | flag <;> cases m <;> simp [Mode.tracks, Entry.principal, flag]

theorem keeps_cancel (special : Option (Addr × EventFlag)) : Keeps m i v (cancel a special) := by
  refine Keeps.bind (Ensures.atomic fun c s t seen stepped admitted => ⟨v, rfl, ?_⟩) fun sqe => ?_
  · cases Option.some.inj stepped
    cases sqe : c.sqe with
    | false => exact moves_refuse seen
    | true =>
      cases requested : cancelEntry s a special with
      | none => exact ⟨seen.1, fun _ _ => rfl, seen.2⟩
      | some e =>
        obtain ⟨secondary, untracked⟩ := cancelEntry_untracked (m := m) requested
        refine moves_queueExtra seen (fun plain => ?_) (by simp) rfl secondary
          fun tracked => absurd tracked untracked
        have permitted := admitted (.requested e.task) (by simp [sqe, requested, State.queueExtra])
        simp [plain, Mode.permits] at permitted
  · cases sqe with
    | true => exact keeps_autoFlush
    | false => exact Ensures.pure rfl

theorem keeps_setNextTask (next : Option Addr) : Keeps m i v (setNextTask a next) := by
  refine Keeps.bind (Ensures.atomic fun c s t seen stepped _ => ⟨v, rfl, ?_⟩) fun replaced => ?_
  · cases Option.some.inj stepped
    exact moves_setTask seen rfl
  · cases replaced with
    | none => exact Ensures.pure rfl
    | some old => exact Ensures.bind (Ensures.enter (Or.inl rfl) fun _ _ post => post) fun _ _ same => Ensures.pure same

theorem keeps_perform (action : Action) : Keeps m i v (perform action) := by
  cases action with
  | stop => exact Ensures.pure rfl
  | addTask p => exact keeps_enter_addTask fun _ => Ensures.pure rfl
  | cancel a special => exact keeps_cancel special
  | create a config =>
    refine Ensures.atomic fun c s t seen stepped admitted => ⟨v, rfl, ?_⟩
    simp only [Option.ite_none_left_eq_some, Option.some.injEq] at stepped
    obtain ⟨-, rfl⟩ := stepped
    exact moves_create seen admitted
  | configure a config => exact Ensures.store rfl fun s seen _ => moves_setTask seen rfl
  | setNextTask a next => exact keeps_setNextTask next
  | flush => exact keeps_autoFlush
  | requestShutdown => exact Ensures.store rfl fun s seen _ => moves_shutdown seen

theorem ensures_user : Ensures m i v (code i .user) ((spec i).post .user v) := by
  refine Keeps.bind (Ensures.choose fun _ => rfl) fun choice => ?_
  split
  · exact Ensures.pure rfl
  · apply Keeps.bind (keeps_perform _)
    intro _
    exact Ensures.enter trivial fun _ _ post => post

theorem ensures_runEventLoop (idle : v.taken = none ∧ v.Idle) :
    Ensures m .loop v (code .loop .runEventLoop) ((spec .loop).post .runEventLoop v) := by
  refine Keeps.bind (Ensures.load fun _ _ => rfl) fun shutdown => ?_
  split
  · exact Ensures.pure trivial
  · refine Ensures.bind (M := fun cqe v' => v' = { v with taken := some cqe.1 }) ?_ ?_
    · apply Ensures.atomic
      intro c s t seen stepped _
      obtain ⟨e, posted, rfl⟩ := Option.map_eq_some_iff.mp stepped
      rw [posted, Option.getD_some]
      exact ⟨_, rfl, moves_take seen idle.1 (List.mem_of_getElem? posted)⟩
    · rintro cqe v' rfl
      refine Ensures.bind (Ensures.enter ⟨rfl, rfl, idle.2⟩ fun _ _ post => post) ?_
      rintro _ v' rfl
      exact Ensures.enter ⟨rfl, rfl, idle.2⟩ fun _ _ post => post

theorem meets (i : Thread) (f : Procedure) (v : View) (pre : (spec i).pre f v) :
    Ensures m i v (code i f) ((spec i).post f v) := by
  cases f with
  | addTask p =>
    cases p with
    | none => exact Ensures.pure ⟨rfl, fun _ other => by contradiction⟩
    | some a =>
      refine ensures_addTask.mono fun added v' returned => ⟨returned.1, ?_⟩
      rintro b ⟨⟩
      exact returned.2
  | reserveSlot a k cur => exact ensures_reserveSlot pre cur
  | handleFailedTask a cause =>
    obtain ⟨k, held, mine⟩ := pre
    exact ensures_handleFailedTask held mine
  | deleteTask a inherited cause => exact ensures_deleteTask_code pre
  | resubmitBlocked a =>
    refine Ensures.bind (Ensures.enter trivial fun _ _ post => post) ?_
    rintro added v' ⟨rfl, refused⟩
    rw [refused a rfl pre]
    exact Ensures.enter pre fun _ _ post => post
  | dispatchCqe e res =>
    obtain ⟨rfl, taken, idle⟩ := pre
    apply Ensures.bind (ensures_dispatchCqe taken idle res)
    rintro _ v' rfl
    exact Ensures.pure rfl
  | runEventLoop =>
    obtain ⟨rfl, idle⟩ := pre
    exact ensures_runEventLoop idle
  | user => exact ensures_user

theorem start_valid (maxInflightOps : Int) : Valid m (start maxInflightOps).shared where
  ledger := ⟨by simp [start], by simp [start], by simp [start], by simp [start], rfl,
    fun limited => Int.le_of_lt limited⟩
  tokens := ⟨fun a => ⟨by simp [start, State.states], by simp [start], by simp [start], by simp [start],
    by simp [start]⟩, by simp [start], by simp [start]⟩
  rings := ⟨by simp [start, State.outstanding], by simp [start, State.outstanding],
    by simp [start, State.outstanding]⟩
  logged := ⟨by simp [start], by simp [start], by simp [start]⟩

/-- The invariant holds in every state that a run of the discipline reaches. -/
theorem reaches_valid {maxInflightOps : Int} {pool : Pool Thread State Choice Procedure Bool}
    (path : Pool.Reaches code m.Admits (start maxInflightOps) pool) : Valid m pool.shared := by
  refine Ownership.invariant (O := ownership m) (K := spec) meets (start_valid maxInflightOps) ?_ path
  intro i
  cases i with
  | loop =>
    refine Ensures.bind (Ensures.enter ⟨rfl, rfl, rfl, fun _ => rfl⟩ fun _ _ post => post) ?_
    exact fun _ _ _ => Ensures.pure trivial
  | client id =>
    refine Ensures.bind (Ensures.enter trivial fun _ _ post => post) ?_
    exact fun _ _ _ => Ensures.pure trivial

end Talon.Handler
