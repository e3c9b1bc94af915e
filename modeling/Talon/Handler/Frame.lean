import Talon.Handler.Program

/-! What uninterrupted handler code leaves alone, whatever user code it calls.
A frame is an assertion that every move of the handler keeps, some of them only
on tasks that the running code owns; passing the CAS gate gives ownership. -/
namespace Talon.Handler
open Interleaving

/-- The moves of the program. The label is the task that has to be owned. -/
inductive Move (i : Thread) : Option Addr → State → State → Prop where
  | setTask (kept : (f (s.task a)).taskState = (s.task a).taskState) : Move i none s (s.setTask a f)
  | gate (opened : (s.task a).taskState ≠ .kSubmitted) : Move i none s (s.gate i a)
  | see : Move i none s (s.see a)
  | reserve : Move i none s (s.reserve i a k)
  | reject : Move i (some a) s (s.reject a)
  | queue : Move i (some a) s (s.queue a flag k)
  | link : Move i none s (s.queueExtra e (.linked a k))
  | request : Move i none s (s.queueExtra e (.requested a))
  | unprepared : Move i none s (s.queueExtra e .unprepared)
  | refuse : Move i none s s.refuse
  | submit : Move i none s s.submit
  | shutdown : Move i none s { s with shutdownRequested := true }
  | handled : Move i (some a) s (s.record (.handled a (s.current a) bytes))
  | closed : Move i none s (s.record (.closed fd))
  | settle : Move i (some a) s (s.settle i a state cause dooms)
  | create : Move i none s (s.create a config)
  | inherit : Move i none s (s.destroy i a true cause)
  | destroy : Move i (some a) s (s.destroy i a false cause)
  | find : Move i none s (s.find e)
  | release : Move i none s (s.release k target)

/-- The descriptors closed so far, latest first. -/
def State.closes (s : State) : List Int :=
  s.log.filterMap fun event => match event with
    | .closed fd => some fd
    | _ => none

/-- No slot is given back and no descriptor closed: only a dispatch does that.
Otherwise a task has another descriptor only if it is another task. -/
structure Quiet (s t : State) : Prop where
  released : t.released = s.released
  closes : t.closes = s.closes
  fd : ∀ b, (t.task b).fd = (s.task b).fd ∨ t.log = .created b :: s.log

theorem Quiet.of_task {s t : State} (released : t.released = s.released) (closes : t.closes = s.closes)
    (task : t.task = s.task) : Quiet s t :=
  ⟨released, closes, fun b => Or.inl (by rw [task])⟩

theorem Quiet.of_update {s t : State} {a : Addr} {task : Task} (released : t.released = s.released)
    (closes : t.closes = s.closes) (changed : t.task = Function.update s.task a task)
    (kept : task.fd = (s.task a).fd) : Quiet s t := by
  refine ⟨released, closes, fun b => Or.inl ?_⟩
  rw [changed]
  by_cases here : b = a
  · subst here
    rw [Function.update_self, kept]
  · rw [Function.update_of_ne here]

theorem Quiet.create {s : State} {a : Addr} {config : Task} : Quiet s (s.create a config) := by
  refine ⟨rfl, rfl, fun b => ?_⟩
  by_cases here : b = a
  · exact Or.inr (by rw [here]; rfl)
  · exact Or.inl (by simp [State.create, here])

/-- A frame of code that does not dispatch completions, or of all code if
`dispatches`. -/
structure FrameOf (dispatches : Bool) (i : Thread) (I : State → Prop) (Own : Addr → State → Prop) : Prop where
  step : ∀ {need s t}, I s → (∀ b, need = some b → Own b s) → Move i need s t →
    dispatches = true ∨ Quiet s t → I t
  keep : ∀ {need b s t}, I s → Own b s → Move i need s t → dispatches = true ∨ Quiet s t → Own b t
  gain : ∀ {b s}, I s → (s.task b).taskState ≠ .kSubmitted → Own b (s.gate i b)

abbrev Frame (i : Thread) (I : State → Prop) (Own : Addr → State → Prop) : Prop := FrameOf true i I Own

variable {d : Bool} {i : Thread} {I : State → Prop} {Own : Addr → State → Prop}

/-- Frames with one notion of ownership add up. -/
theorem FrameOf.and {J : State → Prop} (first : FrameOf d i I Own) (second : FrameOf d i J Own) :
    FrameOf d i (fun s => I s ∧ J s) Own where
  step holds owned moved quiet := ⟨first.step holds.1 owned moved quiet, second.step holds.2 owned moved quiet⟩
  keep holds owned moved quiet := first.keep holds.1 owned moved quiet
  gain holds opened := first.gain holds.1 opened

/-- The assertion together with the tasks owned so far. -/
def Owning (I : State → Prop) (Own : Addr → State → Prop) (owned : List Addr) (s : State) : Prop :=
  I s ∧ ∀ b ∈ owned, Own b s

/-- `HandleFailedTask`, `DispatchCqe` and `DeleteTask` act on a task that their
caller owns; a destroyed task also takes its successors along. -/
def needs (dispatches : Bool) (i : Thread) (owned : List Addr) : Procedure → Prop
  | .handleFailedTask a _ => a ∈ owned
  | .deleteTask a inherited _ => inherited = true ∨ a ∈ owned
  | .dispatchCqe e _ => dispatches = true ∧ i = .loop ∧ e.task ∈ owned
  | .runEventLoop => False
  | _ => True

def frameContract (dispatches : Bool) (i : Thread) (I : State → Prop) (Own : Addr → State → Prop) :
    Contract State Procedure Bool where
  A _ := List Addr
  pre f owned s := needs dispatches i owned f ∧ Owning I Own owned s
  post _ owned _ s := Owning I Own owned s

/-- The program keeps the frame and every task owned so far. -/
abbrev FramesOf (dispatches : Bool) (i : Thread) (I : State → Prop) (Own : Addr → State → Prop)
    (owned : List Addr) {α : Type} (p : Prog State Choice Procedure Bool α) : Prop :=
  Leaves (frameContract dispatches i I Own) (Owning I Own owned) p

abbrev Frames (i : Thread) (I : State → Prop) (Own : Addr → State → Prop) (owned : List Addr)
    {α : Type} (p : Prog State Choice Procedure Bool α) : Prop := FramesOf true i I Own owned p

theorem Owning.move (frame : FrameOf d i I Own) {owned : List Addr} {need : Option Addr} {s t : State}
    (holds : Owning I Own owned s) (moved : Move i need s t) (within : ∀ b, need = some b → b ∈ owned)
    (quiet : d = true ∨ Quiet s t) : Owning I Own owned t :=
  ⟨frame.step holds.1 (fun b needed => holds.2 b (within b needed)) moved quiet,
    fun b member => frame.keep holds.1 (holds.2 b member) moved quiet⟩

section
variable (frame : FrameOf d i I Own) {owned : List Addr} {a : Addr} {k : Nat}
include frame

theorem frames_store {write : State → State} (moved : ∀ s, Move i none s (write s))
    (quiet : ∀ s, d = true ∨ Quiet s (write s)) : FramesOf d i I Own owned (.store write) :=
  Leaves.store fun s holds => holds.move frame (moved s) (by simp) (quiet s)

theorem frames_store_owned {write : State → State} (member : a ∈ owned)
    (moved : ∀ s, Move i (some a) s (write s)) (quiet : ∀ s, Quiet s (write s)) :
    FramesOf d i I Own owned (.store write) :=
  Leaves.store fun s holds => holds.move frame (moved s) (by simpa using member) (Or.inr (quiet s))

omit frame in
theorem frames_enter {f : Procedure} (within : needs d i owned f) : FramesOf d i I Own owned (.enter f) :=
  Leaves.enter owned (fun _ holds => ⟨within, holds⟩) fun _ _ holds => holds

omit frame in
theorem frames_call {f : Procedure} (within : needs d i owned f) :
    FramesOf d i I Own owned (do let _ ← (.enter f : Code Bool)) :=
  Leaves.bind (frames_enter within) fun _ => Leaves.pure ()

theorem frames_storeTask {f : Task → Task}
    (kept : ∀ task, (f task).taskState = task.taskState ∧ (f task).fd = task.fd) :
    FramesOf d i I Own owned (storeTask a f) :=
  frames_store frame (fun s => .setTask (kept (s.task a)).1) fun s =>
    Or.inr (.of_update rfl rfl rfl (kept (s.task a)).2)

theorem frames_setDebugStr (text : String) : FramesOf d i I Own owned (setDebugStr a text) :=
  frames_storeTask frame fun _ => ⟨rfl, rfl⟩

theorem frames_storeDetach (detach : Bool) : FramesOf d i I Own owned (storeDetach a detach) :=
  frames_storeTask frame fun _ => ⟨rfl, rfl⟩

theorem frames_markDetachedAndComplete (detach : Bool) :
    FramesOf d i I Own owned (markDetachedAndComplete a detach) := by
  cases detach with
  | true => exact Leaves.bind (frames_storeTask frame fun _ => ⟨rfl, rfl⟩) fun _ => frames_storeDetach frame true
  | false => exact frames_storeDetach frame false

theorem frames_setResult (res : Int) : FramesOf d i I Own owned (setResult a res) :=
  frames_storeTask frame fun _ => ⟨rfl, rfl⟩

theorem frames_setTaskState (member : a ∈ owned) (state : TaskState) (cause : Option Nat) (dooms : Bool) :
    FramesOf d i I Own owned (setTaskState i a state cause dooms) :=
  frames_store_owned frame member (fun _ => .settle) fun _ => .of_update rfl rfl rfl rfl

theorem frames_autoFlush : FramesOf d i I Own owned autoFlush :=
  frames_store frame (fun _ => .submit) fun _ => Or.inr (.of_task rfl rfl rfl)

theorem frames_executeCompletionHandler (member : a ∈ owned) :
    FramesOf d i I Own owned (executeCompletionHandler a) :=
  Leaves.bind (frames_store_owned frame member (fun _ => .handled) fun _ => .of_task rfl rfl rfl) fun _ => frames_call trivial

theorem frames_queueSqe (member : a ∈ owned) (flag : EventFlag) :
    FramesOf d i I Own owned (queueSqe a flag k) := by
  apply Leaves.atomic
  intro c s t holds stepped
  cases Option.some.inj stepped
  cases c.sqe with
  | true => exact holds.move frame .queue (by simpa using member) (Or.inr (.of_task rfl rfl rfl))
  | false => exact holds.move frame .refuse (by simp) (Or.inr (.of_task rfl rfl rfl))

theorem frames_queueExtraSqe {entry : Choice → State → Entry} {event : Event}
    (moved : ∀ e s, Move i none s (s.queueExtra e event)) (quiet : ∀ e s, Quiet s (s.queueExtra e event)) :
    FramesOf d i I Own owned (queueExtraSqe entry event) := by
  apply Leaves.atomic
  intro c s t holds stepped
  cases Option.some.inj stepped
  cases c.sqe with
  | true => exact holds.move frame (moved _ s) (by simp) (Or.inr (quiet _ s))
  | false => exact holds.move frame .refuse (by simp) (Or.inr (.of_task rfl rfl rfl))

theorem frames_finishSqe : FramesOf d i I Own owned (finishSqe a k) := by
  refine Leaves.bind (frames_storeTask frame fun _ => ⟨rfl, rfl⟩) fun _ => ?_
  apply Leaves.bind Leaves.load
  intro task
  split
  · exact Leaves.bind (frames_queueExtraSqe frame (fun _ _ => .link) fun _ _ => .of_task rfl rfl rfl) fun _ => Leaves.pure ()
  · exact Leaves.pure ()

theorem frames_queueFailedTask (member : a ∈ owned) : FramesOf d i I Own owned (queueFailedTask a k) := by
  apply Leaves.bind (frames_queueSqe frame member .kError)
  intro sqe
  cases sqe with
  | true => exact frames_autoFlush frame
  | false => exact frames_call member

theorem frames_submitTask (member : a ∈ owned) : FramesOf d i I Own owned (submitTask a k) := by
  apply Leaves.bind Leaves.load
  intro task
  split
  · apply Leaves.bind (frames_queueSqe frame member .kNone)
    intro sqe
    cases sqe with
    | true => exact frames_finishSqe frame
    | false => exact frames_queueFailedTask frame member
  · refine Leaves.bind (frames_queueExtraSqe frame (fun _ _ => .unprepared) fun _ _ => .of_task rfl rfl rfl) fun sqe => ?_
    cases sqe with
    | true =>
      apply Leaves.bind (frames_setResult frame _)
      intro _
      apply Leaves.bind (frames_queueFailedTask frame member)
      intro _
      split
      · exact frames_finishSqe frame
      · exact Leaves.pure ()
    | false => exact frames_queueFailedTask frame member

theorem frames_submitReserved (member : a ∈ owned) : FramesOf d i I Own owned (submitReserved a k) := by
  apply Leaves.bind (frames_markDetachedAndComplete frame false)
  intro _
  refine Leaves.bind (frames_storeTask frame fun _ => ⟨rfl, rfl⟩) fun _ => ?_
  refine Leaves.bind ?_ fun _ => ?_
  · apply Leaves.bind Leaves.load
    intro task
    split
    · exact frames_storeTask frame fun _ => ⟨rfl, rfl⟩
    · exact Leaves.pure ()
  · refine Leaves.bind (frames_storeTask frame fun _ => ⟨rfl, rfl⟩) fun _ => ?_
    exact Leaves.bind (frames_submitTask frame member) fun _ => frames_autoFlush frame

theorem frames_reserveInflight : FramesOf d i I Own owned (reserveInflight i a k) := by
  apply Leaves.bind Leaves.load
  intro max
  split
  · refine Leaves.bind (Leaves.atomic fun c s t holds stepped => ?_) fun cur => frames_enter trivial
    cases Option.some.inj stepped
    exact holds.move frame .see (by simp) (Or.inr (.of_task rfl rfl rfl))
  · exact Leaves.bind (frames_store frame (fun _ => .reserve) fun _ => Or.inr (.of_task rfl rfl rfl)) fun _ => Leaves.pure true

/-- The gate adds its task to the owned ones. -/
theorem frames_tryTransitionToSubmitted {s : State} (holds : Owning I Own owned s) :
    wp sequential (frameContract d i I Own) (tryTransitionToSubmitted i a)
      (fun gate => Owning I Own (if gate.isSome then a :: owned else owned)) s := by
  refine wp_bind (wp_atomic ?_)
  rintro _ rfl c _ ⟨⟩ -
  refine ⟨trivial, ?_⟩
  rintro _ rfl
  split
  · rintro _ rfl
    exact holds
  · next opened =>
    apply wp_atomic
    rintro _ rfl c _ ⟨⟩ -
    refine ⟨trivial, ?_⟩
    rintro _ rfl
    simp only [if_true, Option.isSome_some]
    have moved := holds.move frame (.gate opened) (by simp) (Or.inr (.of_update rfl rfl rfl rfl))
    refine ⟨moved.1, fun b member => ?_⟩
    rcases List.mem_cons.mp member with rfl | member
    · exact frame.gain holds.1 opened
    · exact moved.2 b member

theorem frames_addTask : FramesOf d i I Own owned (addTask i a) := by
  intro s holds
  apply wp_bind
  refine wp_mono (fun gate t reached => ?_) (frames_tryTransitionToSubmitted frame holds)
  cases gate with
  | none =>
    refine Leaves.bind (frames_setDebugStr frame _) (fun _ => ?_) t reached
    exact Leaves.bind (frames_storeDetach frame false) fun _ => Leaves.pure false
  | some k =>
    have rest : FramesOf d i I Own (a :: owned) (addGated i a k) := by
      apply Leaves.bind (frames_reserveInflight frame)
      intro slotReserved
      cases slotReserved with
      | true =>
        exact Leaves.bind (frames_submitReserved frame List.mem_cons_self) fun _ => Leaves.pure true
      | false =>
        refine Leaves.bind (frames_store_owned frame List.mem_cons_self (fun _ => .reject)
          fun _ => .of_update rfl rfl rfl rfl) fun _ => ?_
        exact Leaves.pure false
    refine wp_mono (fun _ u ended => ?_) (rest t reached)
    exact ⟨ended.1, fun b member => ended.2 b (List.mem_cons_of_mem a member)⟩

theorem frames_reserveSlot (cur : Int) : FramesOf d i I Own owned (code i (.reserveSlot a k cur)) := by
  apply Leaves.bind Leaves.load
  intro max
  split
  · refine Leaves.bind (Leaves.atomic fun c s t holds stepped => ?_) fun seen => ?_
    · cases Option.some.inj stepped
      split
      · exact holds.move frame .reserve (by simp) (Or.inr (.of_task rfl rfl rfl))
      · exact holds.move frame .see (by simp) (Or.inr (.of_task rfl rfl rfl))
    · split
      · exact Leaves.pure true
      · exact frames_enter trivial
  · exact Leaves.pure false

theorem frames_deleteTask {state : TaskState} {cause : Option Nat} (member : a ∈ owned) :
    FramesOf d i I Own owned (do setTaskState i a state cause true; deleteTask a cause) :=
  Leaves.bind (frames_setTaskState frame member _ _ _) fun _ => frames_call (Or.inr member)

theorem frames_handleFailedTask (member : a ∈ owned) (cause : Option Nat) :
    FramesOf d i I Own owned (code i (.handleFailedTask a cause)) := by
  refine Leaves.bind (Leaves.atomic fun c s t holds stepped => ?_) fun before => ?_
  · cases Option.some.inj stepped
    exact holds.move frame (.setTask rfl) (by simp) (Or.inr (.of_update rfl rfl rfl rfl))
  apply Leaves.bind Leaves.load
  intro task
  split
  · apply Leaves.bind (frames_setTaskState frame member _ _ _)
    intro _
    exact Leaves.bind (frames_enter trivial) fun _ => Leaves.pure true
  · apply Leaves.bind (frames_executeCompletionHandler frame member)
    intro _
    apply Leaves.bind (frames_setDebugStr frame _)
    intro _
    refine Leaves.bind (frames_storeTask frame fun _ => ⟨rfl, rfl⟩) fun _ => ?_
    apply Leaves.bind (frames_markDetachedAndComplete frame true)
    intro _
    apply Leaves.bind (frames_setTaskState frame member _ _ _)
    intro _
    exact Leaves.bind (frames_call (Or.inr member)) fun _ => Leaves.pure false

omit frame in
theorem frames_deleteNext (cause : Option Nat) : FramesOf d i I Own owned (deleteNext a cause) := by
  apply Leaves.bind Leaves.load
  intro task
  cases task.next with
  | none => exact Leaves.pure ()
  | some next => exact frames_call (Or.inl rfl)

theorem frames_deleteTask_code {inherited : Bool} (within : inherited = true ∨ a ∈ owned) (cause : Option Nat) :
    FramesOf d i I Own owned (code i (.deleteTask a inherited cause)) := by
  apply Leaves.bind (frames_deleteNext cause)
  intro _
  refine Leaves.bind ?_ fun _ => Leaves.pure true
  cases inherited with
  | true => exact frames_store frame (fun _ => .inherit) fun _ => Or.inr (.of_update rfl rfl rfl rfl)
  | false =>
    exact frames_store_owned frame (within.resolve_left nofun) (fun _ => .destroy)
      fun _ => .of_update rfl rfl rfl rfl

theorem frames_setNextTask (next : Option Addr) : FramesOf d i I Own owned (setNextTask a next) := by
  refine Leaves.bind (Leaves.atomic fun c s t holds stepped => ?_) fun replaced => ?_
  · cases Option.some.inj stepped
    exact holds.move frame (.setTask rfl) (by simp) (Or.inr (.of_update rfl rfl rfl rfl))
  · cases replaced with
    | none => exact Leaves.pure ()
    | some old => exact frames_call (Or.inl rfl)

theorem frames_perform (action : Action) : FramesOf d i I Own owned (perform action) := by
  cases action with
  | stop => exact Leaves.pure ()
  | addTask p => exact frames_call trivial
  | cancel a special =>
    refine Leaves.bind (Leaves.atomic fun c s t holds stepped => ?_) fun sqe => ?_
    · cases Option.some.inj stepped
      cases c.sqe with
      | false => exact holds.move frame .refuse (by simp) (Or.inr (.of_task rfl rfl rfl))
      | true =>
        cases cancelEntry s a special with
        | none => exact holds
        | some e => exact holds.move frame .request (by simp) (Or.inr (.of_task rfl rfl rfl))
    · cases sqe with
      | true => exact frames_autoFlush frame
      | false => exact Leaves.pure ()
  | create a config =>
    apply Leaves.atomic
    intro c s t holds stepped
    simp only [Option.ite_none_left_eq_some, Option.some.injEq] at stepped
    obtain ⟨-, rfl⟩ := stepped
    exact holds.move frame .create (by simp) (Or.inr .create)
  | configure a config => exact frames_store frame (fun _ => .setTask rfl) fun _ => Or.inr (.of_update rfl rfl rfl rfl)
  | setNextTask a next => exact frames_setNextTask frame next
  | flush => exact frames_autoFlush frame
  | requestShutdown => exact frames_store frame (fun _ => .shutdown) fun _ => Or.inr (.of_task rfl rfl rfl)

theorem frames_user : FramesOf d i I Own owned (code i .user) := by
  refine Leaves.bind (Leaves.atomic fun c s t holds stepped => ?_) fun choice => ?_
  · cases Option.some.inj stepped
    exact holds
  · split
    · exact Leaves.pure true
    · exact Leaves.bind (frames_perform frame _) fun _ => frames_enter trivial

end

section Dispatch
variable (frame : FrameOf d .loop I Own) {owned : List Addr} {a : Addr} {k : Nat}
include frame

theorem frames_handleTimeoutTask (member : a ∈ owned) : FramesOf d .loop I Own owned (handleTimeoutTask a k) := by
  apply Leaves.bind Leaves.load
  intro task
  split
  · apply Leaves.bind (frames_setDebugStr frame _)
    intro _
    apply Leaves.bind (frames_markDetachedAndComplete frame true)
    intro _
    exact frames_deleteTask frame member
  · exact Leaves.pure ()

theorem frames_submitNext : FramesOf d .loop I Own owned (submitNext a) := by
  apply Leaves.bind Leaves.load
  intro task
  split
  · refine Leaves.bind (Leaves.atomic fun c s t holds stepped => ?_) fun next => frames_call trivial
    cases Option.some.inj stepped
    exact holds.move frame (.setTask rfl) (by simp) (Or.inr (.of_update rfl rfl rfl rfl))
  · exact Leaves.pure ()

theorem frames_repeatOrDetach (repeatForever : Bool) :
    FramesOf d .loop I Own owned (repeatOrDetach a repeatForever) := by
  cases repeatForever with
  | true => exact frames_call trivial
  | false => exact frames_storeDetach frame true

theorem frames_handleNormalEvent_fails {res : Int} (member : a ∈ owned) (failure : res < 0) :
    FramesOf d .loop I Own owned (handleNormalEvent a k res) := by
  apply Leaves.bind (frames_setResult frame res)
  intro _
  rw [if_pos failure]
  split
  · exact frames_call trivial
  split
  · apply Leaves.bind Leaves.load
    intro task
    split
    · exact frames_handleTimeoutTask frame member
    · apply Leaves.bind (frames_setDebugStr frame _)
      intro _
      apply Leaves.bind (frames_markDetachedAndComplete frame true)
      intro _
      exact frames_deleteTask frame member
  · exact frames_call member

theorem frames_handleEvent_of {e : Entry} {res : Int} (member : e.task ∈ owned)
    (normal : e.flag = .kNone → FramesOf d .loop I Own owned (handleNormalEvent e.task e.submission res)) :
    FramesOf d .loop I Own owned (handleEvent e res) := by
  have handleErrorEvent : FramesOf d .loop I Own owned (handleErrorEvent e.task e.submission res) :=
    Leaves.bind (frames_setResult frame res) fun _ => frames_call member
  unfold handleEvent
  cases flag : e.flag with
  | kNone => exact normal flag
  | kTimeout => exact frames_handleTimeoutTask frame member
  | kError => exact handleErrorEvent
  | kCancel =>
    change FramesOf d .loop I Own owned (if 0 ≤ res then handleCancelEvent e.task else Pure.pure ())
    split
    · exact Leaves.bind (frames_storeTask frame fun _ => ⟨rfl, rfl⟩) fun _ => frames_setDebugStr frame _
    · exact Leaves.pure ()
  | kMask => exact handleErrorEvent

/-- Only the completion of an operation may end in closing a descriptor. -/
theorem frames_actOnCqe_of {e : Entry} {res : Int} (member : e.task ∈ owned)
    (normal : e.flag = .kNone → FramesOf d .loop I Own owned (handleNormalEvent e.task e.submission res)) :
    FramesOf d .loop I Own owned (actOnCqe e res) := by
  apply Leaves.bind Leaves.load
  intro task
  split
  · apply Leaves.bind (frames_markDetachedAndComplete frame true)
    intro _
    exact frames_deleteTask frame member
  · exact frames_handleEvent_of frame member normal

end Dispatch

section Closing
variable (frame : Frame .loop I Own) {owned : List Addr} {a : Addr} {k : Nat}
include frame

theorem frames_finishSuccess (member : a ∈ owned) (res : Int) :
    Frames .loop I Own owned (finishSuccess a k res) := by
  unfold finishSuccess
  split
  · apply Leaves.bind Leaves.load
    intro task
    split
    · refine Leaves.bind ?_ fun _ => ?_
      · apply Leaves.bind Leaves.load
        intro task
        split
        · exact Leaves.bind (frames_store frame (fun _ => .closed) fun _ => Or.inl rfl) fun _ =>
            frames_store frame (fun _ => .setTask rfl) fun _ => Or.inl rfl
        · exact Leaves.pure ()
      · apply Leaves.bind (frames_markDetachedAndComplete frame true)
        intro _
        exact frames_deleteTask frame member
    · apply Leaves.bind (frames_setTaskState frame member _ _ _)
      intro _
      apply Leaves.bind Leaves.load
      intro task
      exact Leaves.bind (frames_repeatOrDetach frame _) fun _ => frames_submitNext frame
  · apply Leaves.bind Leaves.load
    intro task
    apply Leaves.bind (frames_setTaskState frame member _ _ _)
    intro _
    apply Leaves.bind (frames_repeatOrDetach frame _)
    intro _
    apply Leaves.bind (frames_submitNext frame)
    intro _
    apply Leaves.bind Leaves.load
    intro task
    split
    · exact frames_markDetachedAndComplete frame true
    · exact Leaves.pure ()

theorem frames_handleNormalEvent (member : a ∈ owned) (res : Int) :
    Frames .loop I Own owned (handleNormalEvent a k res) := by
  by_cases failure : res < 0
  · exact frames_handleNormalEvent_fails frame member failure
  apply Leaves.bind (frames_setResult frame res)
  intro _
  rw [if_neg failure]
  apply Leaves.bind (frames_executeCompletionHandler frame member)
  intro _
  exact frames_finishSuccess frame member res

theorem frames_actOnCqe {e : Entry} (member : e.task ∈ owned) (res : Int) :
    Frames .loop I Own owned (actOnCqe e res) :=
  frames_actOnCqe_of frame member fun _ => frames_handleNormalEvent frame member res

theorem frames_dispatchCqe {e : Entry} (member : e.task ∈ owned) (res : Int) :
    Frames .loop I Own owned (dispatchCqe e res) := by
  refine Leaves.bind (Leaves.atomic fun c s t holds stepped => ?_) fun found => ?_
  · cases Option.some.inj stepped
    exact holds.move frame .find (by simp) (Or.inl rfl)
  split
  · exact Leaves.bind (frames_actOnCqe frame member res) fun _ => frames_store frame (fun _ => .release) fun _ => Or.inl rfl
  · exact Leaves.pure ()

end Closing

theorem frame_verified (frame : FrameOf d i I Own) :
    Verified sequential (frameContract d i I Own) (code i) := by
  rintro f owned s ⟨within, holds⟩
  cases f with
  | addTask p =>
    cases p with
    | none => exact Leaves.pure (A := Owning I Own owned) false s holds
    | some a => exact frames_addTask frame s holds
  | reserveSlot a k cur => exact frames_reserveSlot frame cur s holds
  | handleFailedTask a cause => exact frames_handleFailedTask frame within cause s holds
  | deleteTask a inherited cause => exact frames_deleteTask_code frame within cause s holds
  | resubmitBlocked a =>
    have again : FramesOf d i I Own owned (code i (.resubmitBlocked a)) := by
      refine Leaves.bind (frames_enter trivial) fun added => ?_
      split
      · exact Leaves.pure true
      · exact frames_enter trivial
    exact again s holds
  | dispatchCqe e res =>
    obtain ⟨rfl, rfl, member⟩ := within
    exact Leaves.bind (frames_dispatchCqe frame member res) (fun _ => Leaves.pure true) s holds
  | runEventLoop => exact within.elim
  | user => exact frames_user frame s holds

end Talon.Handler
