import Talon.Handler.Outcome
import Talon.Interleaving.Interference
import Talon.Interleaving.Ownership

/-! What the handler submits by itself after a successful completion, under its
own backpressure limit and among the steps of other threads. -/
namespace Talon.Handler
open Interleaving

/-- The operations of a task whose completion is still to come. -/
def State.operations (s : State) (a : Addr) : List Entry :=
  s.outstanding.filter fun e => decide (e.task = a ∧ e.flag = .kNone)

/-- The task is submitted and has one operation outstanding. -/
def State.Resubmitted (s : State) (a : Addr) : Prop :=
  (s.task a).taskState = .kSubmitted ∧ (s.operations a).length = 1

instance (s : State) (a : Addr) : Decidable (s.Resubmitted a) := inferInstanceAs (Decidable (_ ∧ _))

/-- The event loop dispatches the successful operation of a submitted task, whose
handler returns in state `m`. -/
structure Succeeds (a : Addr) (k : Nat) (res : Int) (s m t : State) : Prop where
  queued : ⟨a, .kNone, k⟩ ∈ s.ring
  submitted : (s.task a).taskState = .kSubmitted
  uncancelled : (s.task a).isCancel = false
  success : 0 ≤ res
  handled : Runs (code .loop) (executeCompletionHandler a)
    (((s.take ⟨a, .kNone, k⟩).find ⟨a, .kNone, k⟩).deliver a res) () m
  finished : ∃ last, Runs (code .loop) (finishSuccess a k res) m () last ∧
    t = last.release k ((s.take ⟨a, .kNone, k⟩).liveSubmission a)

variable {i : Thread} {a b f : Addr} {n : Option Addr} {k : Nat} {res : Int} {r : Bool} {s t m : State} {u : Unit}

/-- Every dispatch of a successful operation has a state in which its handler
returned. -/
theorem dispatches_iff_succeeds (submitted : (s.task a).taskState = .kSubmitted)
    (uncancelled : (s.task a).isCancel = false) (success : 0 ≤ res) :
    Dispatches ⟨a, .kNone, k⟩ res s t ↔ ∃ m, Succeeds a k res s m t := by
  have acts : TaskState.Live ((s.take ⟨a, .kNone, k⟩).task a).taskState := Or.inl submitted
  constructor
  · rintro ⟨queued, run⟩
    obtain ⟨last, acted, ended⟩ := (runs_dispatchCqe_acts (e := ⟨a, .kNone, k⟩) acts).mp run
    have normal := (runs_actOnCqe_handles uncancelled).mp acted
    obtain ⟨m, handled, finished⟩ := (runs_handleNormalEvent_succeeds success).mp normal
    exact ⟨m, queued, submitted, uncancelled, success, handled, last, finished, ended⟩
  · rintro ⟨m, run⟩
    obtain ⟨last, finished, ended⟩ := run.finished
    have normal := (runs_handleNormalEvent_succeeds success).mpr ⟨m, run.handled, finished⟩
    refine ⟨run.queued, (runs_dispatchCqe_acts (e := ⟨a, .kNone, k⟩) acts).mpr ⟨last, ?_, ended⟩⟩
    exact (runs_actOnCqe_handles uncancelled).mpr normal

theorem runs_submitNext (run : Runs (code i) (submitNext a) s u t) :
    (s.task a).next = none ∧ t = s ∨ ∃ n r, (s.task a).next = some n ∧
      Runs (code i) (addTask i n) (s.setTask a fun task => { task with next := none }) r t := by
  simp only [submitNext, loadTask, runs_load_bind] at run
  cases next : (s.task a).next with
  | none =>
    simp only [next, Option.isSome_none, Bool.false_eq_true, if_false, runs_pure, true_and] at run
    exact Or.inl ⟨rfl, run⟩
  | some n =>
    simp only [next, Option.isSome_some, if_true, runs_exchange_bind, runs_enter_bind, runs_pure] at run
    obtain ⟨r, last, added, -, rfl⟩ := run
    exact Or.inr ⟨n, r, rfl, added⟩

/-- A handler that returns at once. -/
theorem runs_executeCompletionHandler_silent (s : State) (a : Addr) :
    Runs (code i) (executeCompletionHandler a) s ()
      (s.record (.handled a (s.current a) (s.task a).buffer.bytesTransferred)) :=
  runs_of_eval (n := 8) rfl


/-! ### The handler's own submissions among other threads -/

/-- What the submission of the task at `f` rests on, once the task at `a` has completed with
successor `n`, and how far it has got. -/
structure Outlook where
  limit : Int
  repeatForever : Bool
  next : Option Addr
  chained : Bool
  taskState : TaskState
  supported : Bool
  operations : List Entry
  seen : Option Int
  deriving DecidableEq

def State.outlook (s : State) (a f : Addr) (n : Option Addr) : Outlook where
  limit := s.maxInflightOps
  repeatForever := (s.task a).repeatForever
  next := (s.task a).next
  chained := n.all fun b => (s.task b).supported
  taskState := (s.task f).taskState
  supported := (s.task f).supported
  operations := s.operations f
  seen := s.seen f

/-- Another thread leaves these tasks to the event loop. It may submit, cancel, create and
configure any others, and reserve any slots. -/
def Aside (a f : Addr) (n : Option Addr) (s t : State) : Prop := t.outlook a f n = s.outlook a f n

instance (a f : Addr) (n : Option Addr) (s t : State) : Decidable (Aside a f n s t) :=
  inferInstanceAs (Decidable (_ = _))

/-- `io_uring_get_sqe` does not return null. -/
def Supplied (s t : State) : Prop := t.refused = s.refused

instance (s t : State) : Decidable (Supplied s t) := inferInstanceAs (Decidable (_ = _))

/-- What is left of a dispatch when the completion handler has returned. -/
def conclude (a : Addr) (k : Nat) (res : Int) (target : Option Nat) : Code Unit := do
  finishSuccess a k res
  .store (·.release k target)

/-- The event loop dispatches a successful operation among other threads. Its handler has
returned in state `m`, and `f` is the task to submit next. -/
structure GoesOn (a : Addr) (k : Nat) (res : Int) (target : Option Nat) (f : Addr) (s m t : State) : Prop where
  queued : ⟨a, .kNone, k⟩ ∈ s.ring
  success : 0 ≤ res
  returned : Advances (fun _ _ => True) (fun _ _ => True) (code .loop) (dispatchCqe ⟨a, .kNone, k⟩ res)
    (s.take ⟨a, .kNone, k⟩) (conclude a k res target) m
  finished : Advances Supplied (Aside a f (m.task a).next) (code .loop) (conclude a k res target) m (.ret ()) t

/-- The task at `f` is what the handler has to submit after the task at `a`: that
task again if it repeats, otherwise its successor. A task that has completed or
has not been submitted has no operation outstanding. -/
structure Follows (m : State) (a f : Addr) : Prop where
  which : if (m.task a).repeatForever then f = a
    else (m.task a).next = some f ∧ (m.task f).taskState ≠ .kSubmitted
  chain : ∀ n, (m.task a).next = some n → n ≠ a ∧ (m.task n).supported
  supported : (m.task f).supported
  clear : m.operations f = []

/-- The event loop is the only thread whose steps are followed. -/
def foresight (a f : Addr) (n : Option Addr) : Ownership Unit State Outlook where
  Inv _ := True
  view _ s := s.outlook a f n
  allowed := Supplied

namespace Outlook

/-- The task at `f` can be submitted. -/
def Open (v : Outlook) : Prop := v.taskState ≠ .kSubmitted ∧ v.supported = true ∧ v.operations = []

/-- A submission of the task at `f` that read `cur` last. -/
def submit (v : Outlook) (f : Addr) (k : Nat) (cur : Int) : Outlook :=
  if cur < v.limit then { v with taskState := .kSubmitted, operations := [⟨f, .kNone, k⟩], seen := some cur }
  else { v with taskState := .kReady, seen := some cur }

end Outlook

/-- `AddTask` submits the follow-up as far as the limit lets it, or leaves it alone. -/
def submission (f : Addr) (n : Option Addr) : Spec Procedure Bool Outlook where
  pre
    | .addTask p, v => 0 < v.limit ∧ ∀ b, p = some b → if b = f then v.Open else n = some b ∧ v.chained = true
    | .reserveSlot b _ cur, v => 0 < v.limit ∧ (b = f → v.seen = some cur)
    | _, _ => False
  post
    | .addTask p, v, _, v' => if p = some f then ∃ k cur, v' = v.submit f k cur else v' = v
    | .reserveSlot b _ _, v, reserved, v' =>
        if b = f then ∃ cur, v' = { v with seen := some cur } ∧ (reserved = true ↔ cur < v.limit) else v' = v
    | _, _, _, _ => True

abbrev Foresees (a f : Addr) (n : Option Addr) (v : Outlook) {α : Type} (p : Code α) (post : α → Outlook → Prop) : Prop :=
  (foresight a f n).Ensures (submission f n) () v p post

/-- The program leaves the outlook as it is. -/
abbrev Awaits (a f : Addr) (n : Option Addr) (v : Outlook) {α : Type} (p : Code α) : Prop :=
  Foresees a f n v p fun _ v' => v' = v

variable {v : Outlook} {α β : Type} {p : Code α}

theorem Awaits.bind {next : α → Code β} {post : β → Outlook → Prop} (awaits : Awaits a f n v p)
    (rest : ∀ x, Foresees a f n v (next x) post) : Foresees a f n v (p >>= next) post := by
  apply Ownership.Ensures.bind awaits
  intro x v' same
  subst same
  exact rest x

theorem moves_outlook {v' : Outlook} (same : t.outlook a f n = v') : (foresight a f n).Moves () s t v' :=
  ⟨trivial, fun _ different => absurd rfl different, same⟩

/-- A store whose effect on the outlook is known. -/
theorem foresees_store {write : State → State} {v' : Outlook}
    (moved : ∀ t : State, t.outlook a f n = v → (write t).outlook a f n = v') :
    Foresees a f n v (.store write) fun _ w => w = v' :=
  Ownership.Ensures.store rfl fun _ holds _ => moves_outlook (moved _ holds.2)

/-- A change of a task that may only move its state. -/
theorem outlook_setTask {g : Task → Task} (supported : (g (s.task b)).supported = (s.task b).supported)
    (next : (g (s.task b)).next = (s.task b).next) (repeats : (g (s.task b)).repeatForever = (s.task b).repeatForever) :
    (s.setTask b g).outlook a f n =
      { s.outlook a f n with taskState := if b = f then (g (s.task b)).taskState else (s.task f).taskState } := by
  have kept (c : Addr) : ((s.setTask b g).task c).supported = (s.task c).supported ∧
      ((s.setTask b g).task c).next = (s.task c).next ∧
      ((s.setTask b g).task c).repeatForever = (s.task c).repeatForever := by
    by_cases here : c = b
    · subst here
      rw [setTask_task_self]
      exact ⟨supported, next, repeats⟩
    · rw [setTask_task_of_ne here]
      exact ⟨rfl, rfl, rfl⟩
  have state : ((s.setTask b g).task f).taskState =
      if b = f then (g (s.task b)).taskState else (s.task f).taskState := by
    by_cases here : b = f
    · rw [if_pos here, ← here, setTask_task_self]
    · rw [if_neg here, setTask_task_of_ne (Ne.symm here)]
  have chained : (n.all fun c => ((s.setTask b g).task c).supported) = n.all fun c => (s.task c).supported := by
    simp only [(kept _).1]
  simp only [State.outlook, (kept a).2.1, (kept a).2.2, (kept f).1, state, chained]
  rfl

theorem outlook_gate (s : State) (i : Thread) (b : Addr) : (s.gate i b).outlook a f n =
    { s.outlook a f n with taskState := if b = f then .kSubmitted else (s.task f).taskState } :=
  outlook_setTask (s := s) (a := a) (b := b) (f := f) (n := n) (g := fun task => { task with taskState := .kSubmitted }) rfl rfl rfl

theorem outlook_reject (s : State) (b : Addr) : (s.reject b).outlook a f n =
    { s.outlook a f n with taskState := if b = f then .kReady else (s.task f).taskState } :=
  outlook_setTask (s := s) (a := a) (b := b) (f := f) (n := n) (g := fun task => { task with taskState := .kReady }) rfl rfl rfl

theorem outlook_setTask_same {g : Task → Task} (supported : (g (s.task b)).supported = (s.task b).supported)
    (next : (g (s.task b)).next = (s.task b).next) (repeats : (g (s.task b)).repeatForever = (s.task b).repeatForever)
    (state : (g (s.task b)).taskState = (s.task b).taskState) :
    (s.setTask b g).outlook a f n = s.outlook a f n := by
  rw [outlook_setTask supported next repeats, state]
  by_cases here : b = f
  · rw [if_pos here, here]
    rfl
  · rw [if_neg here]
    rfl

theorem awaits_storeTask {g : Task → Task} (supported : ∀ task, (g task).supported = task.supported)
    (next : ∀ task, (g task).next = task.next) (repeats : ∀ task, (g task).repeatForever = task.repeatForever)
    (state : ∀ task, (g task).taskState = task.taskState) : Awaits a f n v (storeTask b g) :=
  foresees_store fun _ seen => (outlook_setTask_same (supported _) (next _) (repeats _) (state _)).trans seen

theorem awaits_storeDetach (detach : Bool) : Awaits a f n v (storeDetach b detach) :=
  awaits_storeTask (fun _ => rfl) (fun _ => rfl) (fun _ => rfl) fun _ => rfl

theorem awaits_markDetachedAndComplete (detach : Bool) : Awaits a f n v (markDetachedAndComplete b detach) := by
  cases detach with
  | false => exact awaits_storeDetach false
  | true =>
    exact Awaits.bind (awaits_storeTask (fun _ => rfl) (fun _ => rfl) (fun _ => rfl) fun _ => rfl)
      fun _ => awaits_storeDetach true

theorem awaits_loadTask : Awaits a f n v (loadTask b) := Ownership.Ensures.load fun _ _ => rfl

theorem awaits_resetTryCount : Awaits a f n v (resetTryCount b) := by
  apply Awaits.bind awaits_loadTask
  intro task
  split
  · exact awaits_storeTask (fun _ => rfl) (fun _ => rfl) (fun _ => rfl) fun _ => rfl
  · exact Ownership.Ensures.pure rfl

theorem operations_submit (s : State) (a : Addr) : s.submit.operations a = s.operations a := by
  simp [State.operations, State.outstanding, State.submit]

theorem operations_queue (s : State) (a b : Addr) (k : Nat) :
    (s.queue b .kNone k).operations a = s.operations a ++ if b = a then [⟨b, .kNone, k⟩] else [] := by
  by_cases same : b = a <;> simp [State.operations, State.outstanding, State.queue, same]

theorem operations_link (s : State) (a b : Addr) (k : Nat) :
    (s.queueExtra ⟨b, .kTimeout, k⟩ (.linked b k)).operations a = s.operations a := by
  simp [State.operations, State.outstanding, State.queueExtra]

theorem awaits_autoFlush : Awaits a f n v autoFlush := by
  apply foresees_store
  intro s seen
  rw [← seen, State.outlook, operations_submit]
  rfl

/-- A link timeout is not an operation. -/
theorem awaits_finishSqe : Awaits a f n v (finishSqe b k) := by
  refine Awaits.bind (awaits_storeTask (fun _ => rfl) (fun _ => rfl) (fun _ => rfl) fun _ => rfl) fun _ => ?_
  apply Awaits.bind awaits_loadTask
  intro task
  split
  · refine Awaits.bind (Ownership.Ensures.atomic fun c s t holds stepped _ => ⟨v, rfl, moves_outlook ?_⟩)
      fun _ => Ownership.Ensures.pure rfl
    cases Option.some.inj stepped
    rw [← show s.outlook a f n = v from holds.2]
    cases c.sqe with
    | false => rfl
    | true =>
      simp only [if_true, State.outlook, operations_link]
      rfl
  · exact Ownership.Ensures.pure rfl

/-- The operation of a supported task is queued. -/
theorem foresees_submitTask (supported : ∀ s : State, s.outlook a f n = v → (s.task b).supported = true) :
    Foresees a f n v (submitTask b k) fun _ v' =>
      v' = { v with operations := v.operations ++ if b = f then [⟨b, .kNone, k⟩] else [] } := by
  refine Ownership.Ensures.bind (M := fun task v' => task.supported = true ∧ v' = v)
    (Ownership.Ensures.load fun s holds => ⟨supported s holds.2, rfl⟩) ?_
  rintro task v ⟨fits, rfl⟩
  rw [if_pos fits]
  refine Ownership.Ensures.bind (M := fun sqe v' => sqe = true ∧
      v' = { v with operations := v.operations ++ if b = f then [⟨b, .kNone, k⟩] else [] }) ?_ ?_
  · apply Ownership.Ensures.atomic
    intro c s t holds stepped supplied
    cases Option.some.inj stepped
    rw [← show s.outlook a f n = v from holds.2]
    cases sqe : c.sqe with
    | false =>
      simp [foresight, Supplied, sqe, State.refuse] at supplied
    | true =>
      refine ⟨_, ⟨rfl, rfl⟩, moves_outlook ?_⟩
      simp only [if_true, State.outlook, operations_queue]
      rfl
  · rintro sqe _ ⟨rfl, rfl⟩
    exact awaits_finishSqe

theorem foresees_submitReserved (supported : ∀ s : State, s.outlook a f n = v → (s.task b).supported = true) :
    Foresees a f n v (submitReserved b k) fun _ v' =>
      v' = { v with operations := v.operations ++ if b = f then [⟨b, .kNone, k⟩] else [] } := by
  apply Awaits.bind (awaits_markDetachedAndComplete false)
  intro _
  refine Awaits.bind (awaits_storeTask (fun _ => rfl) (fun _ => rfl) (fun _ => rfl) fun _ => rfl) fun _ => ?_
  apply Awaits.bind awaits_resetTryCount
  intro _
  refine Awaits.bind (awaits_storeTask (fun _ => rfl) (fun _ => rfl) (fun _ => rfl) fun _ => rfl) fun _ => ?_
  apply Ownership.Ensures.bind (foresees_submitTask supported)
  rintro _ _ rfl
  exact awaits_autoFlush

theorem foresees_limit : Foresees a f n v (.load (·.maxInflightOps)) fun max v' => max = v.limit ∧ v' = v :=
  Ownership.Ensures.load fun _ holds => ⟨congrArg Outlook.limit holds.2, rfl⟩

theorem outlook_see (s : State) (b : Addr) : (s.see b).outlook a f n =
    { s.outlook a f n with seen := if b = f then some s.inflight else s.seen f } := by
  by_cases here : b = f
  · subst here
    simp only [State.outlook, State.see, Function.update_self, if_true]
    rfl
  · simp only [State.outlook, State.see, Function.update_of_ne (Ne.symm here), if_neg here]
    rfl

/-- The exchange records the value that the follow-up's reservation read, and succeeds on the
expected one only. -/
theorem foresees_casInflight {cur : Int} (room : cur < v.limit) :
    Foresees a f n v (casInflight .loop b k cur) fun saw v' =>
      if b = f then v' = { v with seen := some saw.2 } ∧ (saw.1 = true → saw.2 < v.limit) else v' = v := by
  apply Ownership.Ensures.atomic
  intro c s t holds stepped _
  cases Option.some.inj stepped
  replace holds : s.outlook a f n = v := holds.2
  have moved : (if s.inflight = cur ∧ ¬ c.spurious then s.reserve .loop b k else s.see b).outlook a f n =
      { v with seen := if b = f then some s.inflight else s.seen f } := by
    rw [← holds, ← outlook_see]
    split <;> rfl
  refine ⟨_, ?_, moves_outlook moved⟩
  by_cases here : b = f
  · simp only [if_pos here, decide_eq_true_eq, true_and]
    rintro ⟨same, -⟩
    rw [same]
    exact room
  · simp only [if_neg here, ← holds]
    rfl

/-- The slot goes to the follow-up exactly if the value that it read last is below the limit. -/
theorem foresees_reserveSlot {cur : Int} (limit : 0 < v.limit) (read : b = f → v.seen = some cur) :
    Foresees a f n v (code .loop (.reserveSlot b k cur)) ((submission f n).post (.reserveSlot b k cur) v) := by
  apply Ownership.Ensures.bind foresees_limit
  rintro _ v ⟨rfl, rfl⟩
  split
  · next room =>
    apply Ownership.Ensures.bind (foresees_casInflight room)
    rintro ⟨swapped, saw⟩ v' reached
    cases swapped with
    | true =>
      apply Ownership.Ensures.pure
      simp only [submission]
      by_cases here : b = f
      · rw [if_pos here] at reached ⊢
        exact ⟨saw, reached.1, iff_of_true trivial (reached.2 rfl)⟩
      · rw [if_neg here] at reached ⊢
        exact reached
    | false =>
      by_cases here : b = f
      · rw [if_pos here] at reached
        obtain ⟨rfl, -⟩ := reached
        refine Ownership.Ensures.enter ⟨limit, fun _ => rfl⟩ fun r v'' returned => ?_
        simp only [submission, if_pos here] at returned ⊢
        exact returned
      · rw [if_neg here] at reached
        subst reached
        exact Ownership.Ensures.enter ⟨limit, fun same => absurd same here⟩ fun r v'' returned => returned
  · next full =>
    apply Ownership.Ensures.pure
    simp only [submission]
    split
    · next here => exact ⟨cur, by rw [← read here], iff_of_false (by simp) full⟩
    · trivial

theorem foresees_reserveInflight (limit : 0 < v.limit) :
    Foresees a f n v (reserveInflight .loop b k) fun reserved v' =>
      if b = f then ∃ cur, v' = { v with seen := some cur } ∧ (reserved = true ↔ cur < v.limit) else v' = v := by
  apply Ownership.Ensures.bind foresees_limit
  rintro _ v ⟨rfl, rfl⟩
  rw [if_pos limit]
  refine Ownership.Ensures.bind (M := fun cur v' => v' = if b = f then { v with seen := some cur } else v) ?_ ?_
  · refine Ownership.Ensures.exchange fun s holds _ => ⟨_, rfl, moves_outlook ?_⟩
    rw [outlook_see, ← show s.outlook a f n = v from holds.2]
    split <;> rfl
  · rintro cur _ rfl
    refine Ownership.Ensures.enter ⟨?_, fun here => by rw [if_pos here]⟩ fun r v' returned => ?_
    · split <;> exact limit
    · simp only [submission] at returned
      split at returned
      · next here =>
        rw [if_pos here]
        exact returned
      · next other =>
        rw [if_neg other]
        exact returned

theorem foresees_gate (open_ : v.taskState ≠ .kSubmitted) :
    Foresees a f n v (tryTransitionToSubmitted .loop f) fun gate v' =>
      gate.isSome = true ∧ v' = { v with taskState := .kSubmitted } := by
  refine Ownership.Ensures.bind (M := fun task v' => task.taskState = v.taskState ∧ v' = v)
    (Ownership.Ensures.load fun s holds => ⟨congrArg Outlook.taskState holds.2, rfl⟩) ?_
  rintro task v ⟨same, rfl⟩
  rw [if_neg (same ▸ open_)]
  apply Ownership.Ensures.exchange
  intro s holds _
  replace holds : s.outlook a f n = v := holds.2
  have swaps : (s.task f).taskState = task.taskState := (congrArg Outlook.taskState holds).trans same.symm
  rw [if_pos swaps, if_pos swaps]
  refine ⟨_, ⟨rfl, rfl⟩, moves_outlook ?_⟩
  rw [outlook_gate, if_pos rfl, holds]

theorem awaits_gate (other : b ≠ f) : Awaits a f n v (tryTransitionToSubmitted .loop b) := by
  apply Awaits.bind awaits_loadTask
  intro task
  split
  · exact Ownership.Ensures.pure rfl
  · refine Ownership.Ensures.exchange fun s holds _ => ⟨v, rfl, moves_outlook ?_⟩
    rw [← show s.outlook a f n = v from holds.2]
    split
    · rw [outlook_gate, if_neg other]
      rfl
    · rfl

theorem foresees_reject : Foresees a f n v (.store (·.reject b)) fun _ v' =>
    v' = if b = f then { v with taskState := .kReady } else v := by
  apply foresees_store
  intro s seen
  rw [outlook_reject, ← seen]
  split <;> rfl

/-- The follow-up is submitted exactly if the limit leaves a slot when its reservation reads
the counter last. -/
theorem foresees_addTask (limit : 0 < v.limit) (open_ : v.Open) :
    Foresees a f n v (addTask .loop f) fun _ v' => ∃ k cur, v' = v.submit f k cur := by
  obtain ⟨idle, supported, clear⟩ := open_
  refine Ownership.Ensures.bind (foresees_gate idle) ?_
  rintro gate _ ⟨gated, rfl⟩
  obtain ⟨k, rfl⟩ := Option.isSome_iff_exists.mp gated
  refine Ownership.Ensures.bind (foresees_reserveInflight limit) ?_
  rintro reserved v' reached
  rw [if_pos rfl] at reached
  obtain ⟨cur, rfl, taken⟩ := reached
  cases reserved with
  | true =>
    refine Ownership.Ensures.bind (foresees_submitReserved fun s seen => ?_) ?_
    · exact (congrArg Outlook.supported seen).trans supported
    · rintro _ _ rfl
      refine Ownership.Ensures.pure ⟨k, cur, ?_⟩
      rw [Outlook.submit, if_pos (taken.mp rfl)]
      simp [clear]
  | false =>
    refine Ownership.Ensures.bind foresees_reject ?_
    rintro _ _ rfl
    refine Ownership.Ensures.pure ⟨k, cur, ?_⟩
    rw [Outlook.submit, if_neg fun room => absurd (taken.mpr room) (by simp), if_pos rfl]

/-- The successor of a repeating task is submitted without any effect on that task. -/
theorem awaits_addTask (limit : 0 < v.limit) (other : b ≠ f) (successor : n = some b) (chained : v.chained = true) :
    Awaits a f n v (addTask .loop b) := by
  apply Awaits.bind (awaits_gate other)
  intro gate
  cases gate with
  | none =>
    refine Awaits.bind (awaits_storeTask (fun _ => rfl) (fun _ => rfl) (fun _ => rfl) fun _ => rfl) fun _ => ?_
    exact Awaits.bind (awaits_storeDetach false) fun _ => Ownership.Ensures.pure rfl
  | some k =>
    apply Ownership.Ensures.bind (foresees_reserveInflight limit)
    rintro reserved v' reached
    rw [if_neg other] at reached
    subst reached
    cases reserved with
    | true =>
      refine Ownership.Ensures.bind (foresees_submitReserved fun s seen => ?_) ?_
      · have fits : s.outlook a f n |>.chained := (congrArg Outlook.chained seen).trans chained
        simpa [State.outlook, successor] using fits
      · rintro _ _ rfl
        exact Ownership.Ensures.pure (by simp [other])
    | false =>
      apply Ownership.Ensures.bind foresees_reject
      rintro _ _ rfl
      exact Ownership.Ensures.pure (if_neg other)

theorem foresees_meets (f₀ : Procedure) (pre : (submission f n).pre f₀ v) :
    Foresees a f n v (code .loop f₀) ((submission f n).post f₀ v) := by
  cases f₀ with
  | addTask p =>
    obtain ⟨limit, fits⟩ := pre
    cases p with
    | none => exact Ownership.Ensures.pure rfl
    | some b =>
      have fits := fits b rfl
      by_cases here : b = f
      · subst here
        rw [if_pos rfl] at fits
        apply (foresees_addTask limit fits).mono
        intro _ _ submitted
        simpa [submission] using submitted
      · rw [if_neg here] at fits
        apply (awaits_addTask limit here fits.1 fits.2).mono
        intro _ _ same
        simpa [submission, here] using same
  | reserveSlot b k cur => exact foresees_reserveSlot pre.1 pre.2
  | _ => exact pre.elim

namespace Outlook

/-- The reservation of the follow-up has decided whether it is submitted. -/
def Settled (v : Outlook) : Prop :=
  ∃ cur, v.seen = some cur ∧ (v.taskState = .kSubmitted ∧ v.operations.length = 1 ↔ cur < v.limit)

theorem settled_submit (v : Outlook) (f : Addr) (k : Nat) (cur : Int) : (v.submit f k cur).Settled := by
  refine ⟨cur, ?_⟩
  by_cases room : cur < v.limit
  · rw [submit, if_pos room]
    exact ⟨rfl, iff_of_true ⟨rfl, rfl⟩ room⟩
  · rw [submit, if_neg room]
    exact ⟨rfl, iff_of_false (by simp) room⟩

/-- The task at `a` has completed, and `f` is to be submitted. -/
structure Turns (v : Outlook) (a f : Addr) (n : Option Addr) : Prop where
  limit : 0 < v.limit
  open_ : v.Open
  next : v.next = n
  chained : v.chained = true
  which : if v.repeatForever then f = a ∧ n ≠ some a else n = some f

/-- What `repeatOrDetach` makes of it. -/
def Turned (v : Outlook) (f : Addr) (v' : Outlook) : Prop :=
  if v.repeatForever then ∃ k cur, v' = v.submit f k cur else v' = v

theorem Turned.kept {v' : Outlook} (turned : v.Turned f v') :
    v'.limit = v.limit ∧ v'.next = v.next ∧ v'.chained = v.chained := by
  unfold Turned at turned
  split at turned
  · obtain ⟨k, cur, rfl⟩ := turned
    unfold submit
    split <;> exact ⟨rfl, rfl, rfl⟩
  · subst turned
    exact ⟨rfl, rfl, rfl⟩

theorem Turned.settled {v' : Outlook} (turned : v.Turned f v') (repeats : v.repeatForever = true) : v'.Settled := by
  rw [Turned, if_pos repeats] at turned
  obtain ⟨k, cur, rfl⟩ := turned
  exact v.settled_submit f k cur

theorem Turned.unchanged {v' : Outlook} (turned : v.Turned f v') (once : v.repeatForever = false) : v' = v := by
  rwa [Turned, once] at turned

/-- A task that repeats is not its own successor. -/
theorem Turns.other (turns : v.Turns a f n) (repeats : v.repeatForever = true) : n ≠ some f := by
  have which := turns.which
  rw [if_pos repeats] at which
  obtain ⟨rfl, apart⟩ := which
  exact apart

theorem Turns.successor (turns : v.Turns a f n) (once : v.repeatForever = false) : n = some f := by
  have which := turns.which
  rwa [once] at which

end Outlook

theorem foresees_repeatOrDetach (turns : v.Turns a f n) :
    Foresees a f n v (repeatOrDetach a v.repeatForever) fun _ v' => v.Turned f v' := by
  have which := turns.which
  cases repeats : v.repeatForever with
  | true =>
    rw [repeats, if_pos rfl] at which
    obtain ⟨rfl, -⟩ := which
    refine Ownership.Ensures.bind (M := fun _ => v.Turned f) ?_ fun _ _ turned => Ownership.Ensures.pure turned
    refine Ownership.Ensures.enter (f := Procedure.addTask (some f)) ⟨turns.limit, fun b same => ?_⟩ fun r v' returned => ?_
    · obtain rfl := Option.some.inj same
      rw [if_pos rfl]
      exact turns.open_
    · simp only [submission, if_true] at returned
      rw [Outlook.Turned, if_pos repeats]
      exact returned
  | false =>
    apply (awaits_storeDetach true).mono
    intro _ v' same
    rw [Outlook.Turned, repeats]
    exact same

theorem outlook_clearNext (s : State) (a f : Addr) (n : Option Addr) :
    (s.setTask a fun task => { task with next := none }).outlook a f n = { s.outlook a f n with next := none } := by
  have kept (c : Addr) : ((s.setTask a fun task => { task with next := none }).task c).supported =
      (s.task c).supported ∧ ((s.setTask a fun task => { task with next := none }).task c).taskState =
      (s.task c).taskState := by
    by_cases here : c = a
    · subst here
      rw [setTask_task_self]
      exact ⟨rfl, rfl⟩
    · rw [setTask_task_of_ne here]
      exact ⟨rfl, rfl⟩
  have chained : (n.all fun c => ((s.setTask a fun task => { task with next := none }).task c).supported) =
      n.all fun c => (s.task c).supported := by
    simp only [(kept _).1]
  simp only [State.outlook, (kept f).1, (kept f).2, chained, setTask_task_self]
  rfl

/-- The successor is the follow-up exactly if the task does not repeat. -/
theorem foresees_addNext {v' : Outlook} (turns : v.Turns a f (some b)) (turned : v.Turned f v') :
    Foresees a f (some b) { v' with next := none } (do let _ ← .enter (.addTask (some b)) : Code Unit)
      fun _ w => w.Settled := by
  obtain ⟨limit, -, chained⟩ := turned.kept
  refine Ownership.Ensures.bind (M := fun _ w => w.Settled) ?_ fun _ _ settled => Ownership.Ensures.pure settled
  cases repeats : v.repeatForever with
  | true =>
    have other : b ≠ f := fun same => turns.other repeats (congrArg some same)
    refine Ownership.Ensures.enter (f := Procedure.addTask (some b))
      ⟨limit ▸ turns.limit, fun c same => ?_⟩ fun r w returned => ?_
    · obtain rfl := Option.some.inj same
      rw [if_neg other]
      exact ⟨rfl, chained.trans turns.chained⟩
    · simp only [submission] at returned
      rw [if_neg fun same => other (Option.some.inj same)] at returned
      subst returned
      exact turned.settled repeats
  | false =>
    obtain rfl := Option.some.inj (turns.successor repeats)
    obtain rfl := turned.unchanged repeats
    refine Ownership.Ensures.enter (f := Procedure.addTask (some b)) ⟨turns.limit, fun c same => ?_⟩ fun r w returned => ?_
    · obtain rfl := Option.some.inj same
      rw [if_pos rfl]
      exact turns.open_
    · simp only [submission, if_true] at returned
      obtain ⟨k, cur, rfl⟩ := returned
      exact Outlook.settled_submit _ b k cur

/-- The successor is taken out of the task and added, whether or not it is the follow-up. -/
theorem foresees_submitNext {v' : Outlook} (turns : v.Turns a f n) (turned : v.Turned f v') :
    Foresees a f n v' (submitNext a) fun _ w => w.Settled := by
  have next : v'.next = n := turned.kept.2.1.trans turns.next
  refine Ownership.Ensures.bind (M := fun task w => task.next = n ∧ w = v')
    (Ownership.Ensures.load fun s holds => ⟨(congrArg Outlook.next holds.2).trans next, rfl⟩) ?_
  rintro task v' ⟨successor, rfl⟩
  cases n with
  | none =>
    -- Only a task that repeats has no successor here.
    rw [successor]
    apply Ownership.Ensures.pure
    cases repeats : v.repeatForever with
    | true => exact turned.settled repeats
    | false => exact absurd (turns.successor repeats) nofun
  | some b =>
    rw [if_pos (by rw [successor]; rfl)]
    refine Ownership.Ensures.bind (M := fun seen w => seen = some b ∧ w = { v' with next := none }) ?_ ?_
    · apply Ownership.Ensures.exchange
      intro s holds _
      replace holds : s.outlook a f (some b) = v' := holds.2
      refine ⟨_, ⟨(congrArg Outlook.next holds).trans next, rfl⟩, moves_outlook ?_⟩
      rw [← holds]
      exact outlook_clearNext s a f (some b)
    · rintro _ _ ⟨rfl, rfl⟩
      exact foresees_addNext turns turned

theorem foresees_settle : Foresees a f n v (setTaskState .loop a .kSuccess (some k) false) fun _ v' =>
    v' = if a = f then { v with taskState := .kSuccess } else v := by
  apply foresees_store
  intro s seen
  have settled : (s.settle .loop a .kSuccess (some k) false).outlook a f n =
      (s.setTask a fun task => { task with taskState := .kSuccess }).outlook a f n := rfl
  rw [settled, outlook_setTask rfl rfl rfl, ← seen]
  split <;> rfl

/-- The state in which the handler has returned, with the completed task stored as kSuccess. -/
theorem turns_of_follows (follows : Follows m a f) (limit : 1 ≤ m.maxInflightOps) (n : Option Addr)
    (successor : (m.task a).next = n) :
    (if a = f then { m.outlook a f n with taskState := .kSuccess } else m.outlook a f n).Turns a f n := by
  have chained : (m.outlook a f n).chained = true := by
    cases n with
    | none => rfl
    | some b => exact (follows.chain b successor).2
  have which := follows.which
  by_cases repeats : (m.task a).repeatForever = true
  · rw [if_pos repeats] at which
    subst which
    rw [if_pos rfl]
    refine ⟨limit, ⟨by simp, follows.supported, follows.clear⟩, successor, chained, ?_⟩
    rw [if_pos (by exact repeats)]
    exact ⟨rfl, fun loops => (follows.chain f (successor.trans loops)).1 rfl⟩
  · rw [if_neg repeats] at which
    have other : a ≠ f := fun same => (follows.chain f which.1).1 same.symm
    rw [if_neg other]
    refine ⟨limit, ⟨which.2, follows.supported, follows.clear⟩, successor, chained, ?_⟩
    rw [if_neg (by exact repeats)]
    exact successor.symm.trans which.1

theorem foresees_finishSuccess (turns : (if a = f then { v with taskState := .kSuccess } else v).Turns a f n) :
    Foresees a f n v (finishSuccess a k res) fun _ v' => v'.Settled := by
  have same : (if a = f then { v with taskState := .kSuccess } else v).repeatForever = v.repeatForever ∧
      (if a = f then { v with taskState := .kSuccess } else v).next = v.next := by
    split <;> exact ⟨rfl, rfl⟩
  have loads : Foresees a f n v (loadTask a) fun task v' =>
      (task.repeatForever = v.repeatForever ∧ task.next = v.next) ∧ v' = v :=
    Ownership.Ensures.load fun s holds =>
      ⟨⟨congrArg Outlook.repeatForever holds.2, congrArg Outlook.next holds.2⟩, rfl⟩
  have onward : ¬ (¬ v.repeatForever = true ∧ v.next = none) := by
    rintro ⟨once, last⟩
    have which := turns.which
    rw [same.1, if_neg once, ← turns.next, same.2, last] at which
    contradiction
  unfold finishSuccess
  split
  · apply Ownership.Ensures.bind loads
    rintro task _ ⟨⟨repeats, next⟩, rfl⟩
    rw [repeats, next, if_neg onward]
    apply Ownership.Ensures.bind foresees_settle
    rintro _ _ rfl
    refine Ownership.Ensures.bind (M := fun task v' => task.repeatForever = _ ∧ v' = _)
      (Ownership.Ensures.load fun s holds => ⟨congrArg Outlook.repeatForever holds.2, rfl⟩) ?_
    rintro task _ ⟨repeats, rfl⟩
    rw [repeats]
    apply Ownership.Ensures.bind (foresees_repeatOrDetach turns)
    intro _ v' turned
    exact foresees_submitNext turns turned
  · apply Ownership.Ensures.bind loads
    rintro task _ ⟨⟨repeats, -⟩, rfl⟩
    rw [repeats, ← same.1]
    apply Ownership.Ensures.bind foresees_settle
    rintro _ _ rfl
    apply Ownership.Ensures.bind (foresees_repeatOrDetach turns)
    intro _ v' turned
    apply Ownership.Ensures.bind (foresees_submitNext turns turned)
    intro _ w settled
    apply Awaits.bind awaits_loadTask
    intro task
    split
    · exact (awaits_markDetachedAndComplete true).mono fun _ _ same => same ▸ settled
    · exact Ownership.Ensures.pure settled

theorem foresees_conclude (k : Nat) (res : Int) (target : Option Nat)
    (turns : (if a = f then { v with taskState := .kSuccess } else v).Turns a f n) :
    Foresees a f n v (conclude a k res target) fun _ v' => v'.Settled := by
  apply Ownership.Ensures.bind (foresees_finishSuccess turns)
  intro _ v' settled
  have released : Awaits a f n v' (.store (·.release k target) : Code Unit) := foresees_store fun _ seen => seen
  exact released.mono fun _ w same => by rwa [same]

/-- Work that the handler submits by itself goes through, whatever other threads do to the
counter and to other tasks in between, exactly if the value of `inflight_count_` that its
reservation reads last, with the slot of the completed operation still in it, is below the
limit. -/
theorem resubmitted_iff {target : Option Nat} (goesOn : GoesOn a k res target f s m t) (follows : Follows m a f)
    (limit : 1 ≤ m.maxInflightOps) : t.Resubmitted f ↔ ∃ cur, t.seen f = some cur ∧ cur < t.maxInflightOps := by
  have verified : Verified ((foresight a f (m.task a).next).discipline ())
      ((foresight a f (m.task a).next).contract (submission f (m.task a).next) ()) (code .loop) :=
    fun g v s pre => foresees_meets g pre.1 s pre.2
  have relied (s t : State) (aside : Aside a f (m.task a).next s t) :
      ((foresight a f (m.task a).next).discipline ()).rely s t := fun _ => ⟨trivial, aside⟩
  have concludes := foresees_conclude k res target (turns_of_follows follows limit _ rfl)
  obtain ⟨v, ⟨cur, seen, outcome⟩, -, known⟩ :=
    goesOn.finished.sound verified (fun _ _ admitted => admitted) relied (concludes m ⟨trivial, rfl⟩)
  replace known : t.outlook a f (m.task a).next = v := known
  subst known
  refine Iff.trans (by exact outcome) ⟨fun room => ⟨cur, seen, room⟩, ?_⟩
  rintro ⟨last, read, room⟩
  obtain rfl := Option.some.inj (read.symm.trans seen)
  exact room

variable {other : State → State → Prop} {q : Code α}

theorem advances_exchange_bind {read : State → β} {write : State → State} (next : β → Code α)
    (rest : Advances (fun _ _ => True) other (code i) (next (read s)) (write s) q t) :
    Advances (fun _ _ => True) other (code i) (.exchange read write >>= next) s q t :=
  (Advances.act (c := default) .refl rfl trivial).trans rest

theorem advances_load_bind {read : State → β} (next : β → Code α)
    (rest : Advances (fun _ _ => True) other (code i) (next (read s)) s q t) :
    Advances (fun _ _ => True) other (code i) (.load read >>= next) s q t :=
  advances_exchange_bind next rest

/-- A dispatch that nobody interrupts before its handler has returned. -/
theorem dispatch_returned (submitted : (s.task a).taskState = .kSubmitted) (open_ : (s.task a).isCancel = false)
    (success : 0 ≤ res) (handled : Runs (code .loop) (executeCompletionHandler a)
      (((s.take ⟨a, .kNone, k⟩).find ⟨a, .kNone, k⟩).deliver a res) () m) :
    Advances (fun _ _ => True) other (code .loop) (dispatchCqe ⟨a, .kNone, k⟩ res) (s.take ⟨a, .kNone, k⟩)
      (conclude a k res ((s.take ⟨a, .kNone, k⟩).liveSubmission a)) m := by
  have live : TaskState.Live ((s.take ⟨a, .kNone, k⟩).task a).taskState := Or.inl submitted
  have uncancelled : ¬ (((s.take ⟨a, .kNone, k⟩).find ⟨a, .kNone, k⟩).task a).isCancel = true := by
    rw [Bool.not_eq_true]
    exact open_
  unfold dispatchCqe
  apply advances_exchange_bind _
  rw [if_pos live]
  refine advances_load_bind (fun task : Task => (if task.isCancel = true then do
      markDetachedAndComplete a true
      setTaskState .loop a .kCanceled (some k) true
      deleteTask a (some k)
    else handleEvent ⟨a, .kNone, k⟩ res) >>= fun _ => .store (·.release k _)) ?_
  rw [if_neg uncancelled]
  refine advances_exchange_bind (fun _ => (if res < 0 then _ else _) >>= fun _ => .store (·.release k _)) ?_
  rw [if_neg (Int.not_lt.mpr success)]
  exact handled.advances (fun _ _ => trivial) fun _ => conclude a k res _

/-- A repeating task and another one are created, and the repeating one is added. -/
def addingSchedule : List (Thread × Choice) :=
  List.replicate 4 (Thread.client 0, { action := .create 1 { taskType := .kRead, fd := 3, repeatForever := true } }) ++
    List.replicate 3 (Thread.client 0, { action := .create 2 { taskType := .kRead, fd := 4 } }) ++
    List.replicate 19 (Thread.client 0, { action := .addTask (some 1) })

def repeatingPool (maxInflightOps : Int) : Pool Thread State Choice Procedure Bool :=
  (Pool.run code (fun _ _ => true) addingSchedule (start maxInflightOps)).getD (start maxInflightOps)

/-- Its operation has read five bytes and its handler has returned. -/
def returned (maxInflightOps : Int) : State :=
  let delivered := (((repeatingPool maxInflightOps).shared.take ⟨1, .kNone, 0⟩).find ⟨1, .kNone, 0⟩).deliver 1 5
  delivered.record (.handled 1 (delivered.current 1) (delivered.task 1).buffer.bytesTransferred)

/-- The loop goes on, and a client adds the other task. -/
def concluding (maxInflightOps : Int) : Pool Thread State Choice Procedure Bool where
  shared := returned maxInflightOps
  thread
    | .loop => conclude 1 0 5 (some 0)
    | .client _ => do let _ ← .enter (.addTask (some 2))

/-- The loop finds SQEs, and the client leaves the repeating task alone. -/
def spares : Thread → State → State → Bool
  | .loop, s, t => decide (Supplied s t)
  | .client _, s, t => decide (Aside 1 1 none s t)

theorem concluding_goesOn {maxInflightOps : Int} {schedule : List (Thread × Choice)} {last : Pool Thread State Choice Procedure Bool}
    (queued : ⟨1, .kNone, 0⟩ ∈ (repeatingPool maxInflightOps).shared.ring)
    (submitted : ((repeatingPool maxInflightOps).shared.task 1).taskState = .kSubmitted)
    (uncancelled : ((repeatingPool maxInflightOps).shared.task 1).isCancel = false)
    (held : ((repeatingPool maxInflightOps).shared.take ⟨1, .kNone, 0⟩).liveSubmission 1 = some 0)
    (unchained : ((returned maxInflightOps).task 1).next = none)
    (executed : Pool.runAs code spares schedule (concluding maxInflightOps) = some last)
    (ended : (last.thread .loop).returned = some ()) :
    GoesOn 1 0 5 (some 0) 1 (repeatingPool maxInflightOps).shared (returned maxInflightOps) last.shared := by
  refine ⟨queued, by decide, ?_, ?_⟩
  · rw [← held]
    exact dispatch_returned submitted uncancelled (by decide) (runs_executeCompletionHandler_silent ..)
  · rw [unchained, ← Prog.returned_eq_some.mp ended]
    refine Pool.advances_of_runAs (fun s t checked => of_decide_eq_true checked) (fun j other s t checked => ?_) executed
    cases j with
    | loop => contradiction
    | client => exact of_decide_eq_true checked

theorem repeating_follows {maxInflightOps : Int} (repeats : ((returned maxInflightOps).task 1).repeatForever = true)
    (unchained : ((returned maxInflightOps).task 1).next = none)
    (supported : ((returned maxInflightOps).task 1).supported = true)
    (clear : (returned maxInflightOps).operations 1 = []) : Follows (returned maxInflightOps) 1 1 := by
  refine ⟨by rw [if_pos repeats], fun n successor => ?_, supported, clear⟩
  rw [unchained] at successor
  contradiction

/-- With a limit of three the repetition goes through, although a client takes a slot between the
first read of the counter and the CAS. -/
theorem repeating_within_limit : ∃ t, GoesOn 1 0 5 (some 0) 1 (repeatingPool 3).shared (returned 3) t ∧
    t.seen 1 = some 2 ∧ t.Resubmitted 1 := by
  have executed : (Pool.runAs code spares (List.replicate 7 (Thread.loop, default) ++
      List.replicate 17 (Thread.client 0, default) ++ List.replicate 18 (Thread.loop, default)) (concluding 3)).map
      (fun p => ((p.thread .loop).returned, p.shared.seen 1, p.shared.maxInflightOps)) =
        some (some (), some 2, 3) := by
    decide +kernel
  obtain ⟨last, run, outcome⟩ := Option.map_eq_some_iff.mp executed
  simp only [Prod.mk.injEq] at outcome
  obtain ⟨ended, seen, limit⟩ := outcome
  have goesOn := concluding_goesOn (by decide +kernel) (by decide +kernel) (by decide +kernel) (by decide +kernel)
    (by decide +kernel) run ended
  have follows : Follows (returned 3) 1 1 :=
    repeating_follows (by decide +kernel) (by decide +kernel) (by decide +kernel) (by decide +kernel)
  refine ⟨last.shared, goesOn, seen, (resubmitted_iff goesOn follows (by decide +kernel)).mpr ⟨2, seen, ?_⟩⟩
  rw [limit]
  decide

/-- A limit of one is still taken by the operation that has just completed. -/
theorem repeating_dropped_at_limit : ¬ ∀ (maxInflightOps : Int) (pool : Pool Thread State Choice Procedure Bool)
    (a : Addr) (k : Nat) (res : Int) (target : Option Nat) (f : Addr) (m t : State), 1 ≤ maxInflightOps →
      Pool.Reaches code (fun _ _ => True) (start maxInflightOps) pool → GoesOn a k res target f pool.shared m t →
      Follows m a f → t.Resubmitted f := by
  intro claimed
  have executed : (Pool.runAs code spares (List.replicate 13 (Thread.loop, default)) (concluding 1)).map
      (fun p => ((p.thread .loop).returned, decide (p.shared.Resubmitted 1))) = some (some (), false) := by
    decide +kernel
  obtain ⟨last, run, outcome⟩ := Option.map_eq_some_iff.mp executed
  simp only [Prod.mk.injEq] at outcome
  obtain ⟨ended, dropped⟩ := outcome
  have goesOn := concluding_goesOn (by decide +kernel) (by decide +kernel) (by decide +kernel) (by decide +kernel)
    (by decide +kernel) run ended
  have follows : Follows (returned 1) 1 1 :=
    repeating_follows (by decide +kernel) (by decide +kernel) (by decide +kernel) (by decide +kernel)
  have added : ((Pool.run code (fun _ _ => true) addingSchedule (start 1))).isSome = true := by decide +kernel
  obtain ⟨pool, reached⟩ := Option.isSome_iff_exists.mp added
  have path := Pool.reaches_of_run (fun _ _ _ => trivial) reached
  have same : repeatingPool 1 = pool := by rw [repeatingPool, reached]; rfl
  subst same
  have again := claimed 1 _ _ _ _ _ _ _ _ (by decide) path goesOn follows
  exact absurd again (of_decide_eq_false dropped)

end Talon.Handler
