import Talon.Interleaving.Machine
import Talon.Ring.UserData

/-! How an `IOHandler` comes to its end: `RequestShutdown`, called by any thread, by a
signal handler or by a completion handler, `Join`, `~IOHandler`, and `RunEventLoop` with
all its exits. Filling an SQE is one step, and so is taking a completion off the ring. A
completion handler returns; `DispatchCqe` may still spin, on a completion with `-EAGAIN`. -/
namespace Talon.Handler.Shutdown
open Interleaving Talon.Ring.UserData

/-- The `nop` of `RequestShutdown`, or another operation with its `user_data`. -/
inductive Sqe where
  | nop
  | operation (userData : Word)
  deriving DecidableEq

def Sqe.userData : Sqe → Word
  | .nop => 0#64
  | .operation userData => userData

structure Cqe where
  userData : Word
  res : Int
  deriving DecidableEq

/-- What `RunEventLoop` does next; `spinning` is the loop in `HandleNormalEvent` that calls
`AddTask` on the task of the completion until it is accepted, which it never is. -/
inductive Loop where
  | check
  | peek
  | wait
  | failed
  | seen (cqe : Cqe)
  | dispatching (cqe : Cqe)
  | spinning (cqe : Cqe)
  | ended
  deriving DecidableEq

/-- What a caller does next. `destroys` marks the calls that `~IOHandler` makes. -/
inductive Call where
  | idle
  | flagged (destroys : Bool)
  | filled (destroys : Bool)
  | joining (destroys : Bool)
  | exiting
  deriving DecidableEq

/-- The members, the SQEs not yet handed over, those the kernel has and its completions,
then history: whether a `nop` was ever filled and handed over by its caller, whether the
ring was released, what was dispatched, and how much of it after the request. The caller
`none` is a completion handler. -/
structure State (ι : Type) where
  shutdownRequested : Bool := false
  loop : Loop := .check
  joinable : Bool := true
  call : Option ι → Call := fun _ => .idle
  sq : List Sqe := []
  ring : List Sqe := []
  cq : List Cqe := []
  filled : Bool := false
  woken : Bool := false
  released : Bool := false
  dispatched : List Cqe := []
  late : Nat := 0

/-- What `io_uring_peek_cqe` and `io_uring_wait_cqe` come back with. -/
inductive Answer where
  | cqe
  | null
  | error (ret : Int)

inductive Action (ι : Type) where
  | turn (answer : Answer)
  | spin
  | requestShutdown (caller : Option ι)
  | getSqe (caller : Option ι) (granted : Bool)
  | submit (caller : Option ι)
  | join (caller : ι)
  | destroy (caller : ι)
  | joined (caller : ι)
  | exit (caller : ι)
  | queue (userData : Word)
  | flush
  | complete (index : Nat) (res : Int)

namespace State
variable {ι : Type} [DecidableEq ι]

def setCall (s : State ι) (caller : Option ι) (call : Call) : State ι :=
  { s with call := Function.update s.call caller call }

def goTo (s : State ι) (loop : Loop) : State ι := { s with loop := loop }

/-- The loop after a peek or, if `blocking`, after a wait. -/
def receive (s : State ι) (blocking : Bool) : Answer → Option (State ι)
  | .cqe =>
      match s.cq with
      | [] => none
      | cqe :: rest => some { s with cq := rest, loop := .seen cqe }
  | .null => some (s.goTo .check)
  | .error ret =>
      if 0 ≤ ret then none
      else if ret = -EAGAIN ∧ blocking = false then some (s.goTo .wait)
      else if ret = -EINTR then some (s.goTo .check)
      else some (s.goTo .failed)

/-- `DispatchCqe` begins. -/
def dispatch (s : State ι) (cqe : Cqe) : State ι :=
  { s with
    loop := .dispatching cqe
    dispatched := cqe :: s.dispatched
    late := if s.shutdownRequested then s.late + 1 else s.late }

/-- One step of `RunEventLoop`. The sentinel and the null pointer are dropped. -/
def turn (s : State ι) (answer : Answer) : Option (State ι) :=
  match s.loop with
  | .check => some (s.goTo (if s.shutdownRequested then .ended else .peek))
  | .peek => s.receive false answer
  | .wait => s.receive true answer
  | .failed => some (s.goTo (if s.shutdownRequested then .ended else .check))
  | .seen cqe =>
      match decode cqe.userData with
      | none => some (s.goTo .check)
      | some _ => some (s.dispatch cqe)
  | .dispatching _ => if s.call none = .idle then some (s.goTo .check) else none
  | .spinning _ => some s
  | .ended => none

/-- The completion is one of a task that `AddTask` refuses: `HandleNormalEvent` tries it again
and again. Whether it does, or the task was cancelled or has finished, is the environment's choice. -/
def spin (s : State ι) : Option (State ι) :=
  match s.loop with
  | .dispatching cqe => if s.call none = .idle ∧ cqe.res = -EAGAIN then some (s.goTo (.spinning cqe)) else none
  | _ => none

/-- A completion handler runs only while its completion is dispatched. -/
def mayCall (s : State ι) : Option ι → Bool
  | none =>
      match s.loop with
      | .dispatching _ => true
      | _ => false
  | some _ => true

/-- `shutdown_requested_.store(true)` -/
def request (s : State ι) (caller : Option ι) (destroys : Bool) : State ι :=
  { s with shutdownRequested := true }.setCall caller (.flagged destroys)

/-- `RequestShutdown` returns, and the destructor goes on to `Join`. -/
def requested (destroys : Bool) : Call := if destroys then .joining true else .idle

/-- `io_uring_prep_nop` and `user_data = 0` -/
def fill (s : State ι) : State ι := { s with sq := s.sq ++ [.nop], filled := true }

/-- `io_uring_submit` -/
def submit (s : State ι) : State ι := { s with ring := s.ring ++ s.sq, sq := [] }

def step (s : State ι) : Action ι → Option (State ι)
  | .turn answer => s.turn answer
  | .spin => s.spin
  | .requestShutdown c => if s.call c = .idle ∧ s.mayCall c then some (s.request c false) else none
  | .destroy c => if s.call (some c) = .idle then some (s.request (some c) true) else none
  | .getSqe c granted =>
      match s.call c with
      | .flagged destroys =>
          if granted then some (s.fill.setCall c (.filled destroys))
          else some (s.setCall c (requested destroys))
      | _ => none
  | .submit c =>
      match s.call c with
      | .filled destroys => some ({ s.submit with woken := true }.setCall c (requested destroys))
      | _ => none
  | .join c => if s.call (some c) = .idle then some (s.setCall (some c) (.joining false)) else none
  | .joined c =>
      match s.call (some c) with
      | .joining destroys =>
          if s.joinable = false ∨ s.loop = .ended then
            some ({ s with joinable := false }.setCall (some c) (if destroys then .exiting else .idle))
          else none
      | _ => none
  | .exit c =>
      if s.call (some c) = .exiting then some ({ s with released := true }.setCall (some c) .idle) else none
  | .queue userData => some { s with sq := s.sq ++ [.operation userData] }
  | .flush => some s.submit
  | .complete index res =>
      (s.ring[index]?).map fun sqe =>
        { s with
          ring := s.ring.eraseIdx index
          cq := s.cq ++ [⟨sqe.userData, if sqe = .nop then 0 else res⟩] }

end State

/-- The calls of the event loop's thread. -/
def Action.isTurn {ι : Type} : Action ι → Bool
  | .turn _ | .spin => true
  | _ => false

/-- A step after which no completion on the ring has `-EAGAIN`. -/
def State.serve {ι : Type} [DecidableEq ι] (s : State ι) (action : Action ι) : Option (State ι) :=
  (s.step action).filter fun t => t.cq.all fun cqe => cqe.res != -EAGAIN

section
variable {ι : Type} [DecidableEq ι] {s t : State ι}

abbrev Reaches (s t : State ι) : Prop := Machine.Reaches State.step s t

/-- Likewise, in a run in which no operation completes with `-EAGAIN`. -/
abbrev Serves (s t : State ι) : Prop := Machine.Reaches State.serve s t

/-- The loop has passed the check and has not taken a completion yet. -/
def State.Waiting (s : State ι) : Prop := s.loop = .peek ∨ s.loop = .wait

/-- A sentinel is among the completions. -/
def State.Posted (s : State ι) : Prop := ∃ cqe ∈ s.cq, cqe.userData = 0#64

/-- The loop ends when it next looks at the flag, and looks at nothing else before. -/
def Loop.Leaving : Loop → Prop
  | .check | .dispatching _ | .spinning _ | .ended => True
  | _ => False

/-- Everything that a step can do; `own` are the steps of the event loop. -/
inductive Move (s : State ι) : (own : Bool) → State ι → Prop where
  | ends (here : s.loop = .check ∨ s.loop = .failed) (requested : s.shutdownRequested = true) :
      Move s true (s.goTo .ended)
  | begins (here : s.loop = .check) (unrequested : s.shutdownRequested = false) : Move s true (s.goTo .peek)
  | blocks (here : s.loop = .peek) : Move s true (s.goTo .wait)
  | fails (here : s.Waiting) : Move s true (s.goTo .failed)
  | again (here : s.Waiting ∨ s.loop = .failed ∧ s.shutdownRequested = false ∨ (∃ cqe, s.loop = .seen cqe) ∨
      ∃ cqe, s.loop = .dispatching cqe) : Move s true (s.goTo .check)
  | takes (here : s.Waiting) (posted : s.cq = cqe :: rest) : Move s true { s with cq := rest, loop := .seen cqe }
  | dispatches (here : s.loop = .seen cqe) : Move s true (s.dispatch cqe)
  | spins (here : s.loop = .dispatching cqe) (unserved : cqe.res = -EAGAIN) : Move s true (s.goTo (.spinning cqe))
  | spinsOn (here : s.loop = .spinning cqe) : Move s true s
  | requests (c : Option ι) (d : Bool) (outer : c = none → d = false) : Move s false (s.request c d)
  | fills (c : Option ι) (here : s.call c = .flagged d) : Move s false (s.fill.setCall c (.filled d))
  | refused (c : Option ι) (here : s.call c = .flagged d) : Move s false (s.setCall c (State.requested d))
  | submits (c : Option ι) (here : s.call c = .filled d) :
      Move s false ({ s.submit with woken := true }.setCall c (State.requested d))
  | joins (c : ι) : Move s false (s.setCall (some c) (.joining false))
  | joined (c : ι) (d : Bool) (finished : s.joinable = false ∨ s.loop = .ended) :
      Move s false ({ s with joinable := false }.setCall (some c) (if d then .exiting else .idle))
  | exits (c : ι) (here : s.call (some c) = .exiting) :
      Move s false ({ s with released := true }.setCall (some c) .idle)
  | queues (userData : Word) : Move s false { s with sq := s.sq ++ [.operation userData] }
  | flushes : Move s false s.submit
  | completes (index : Nat) (res : Int) (there : s.ring[index]? = some sqe) :
      Move s false { s with ring := s.ring.eraseIdx index, cq := s.cq ++ [⟨sqe.userData, res⟩] }

theorem move_of_receive {answer : Answer} (blocking : Bool) (here : s.loop = if blocking then .wait else .peek)
    (received : s.receive blocking answer = some t) : Move s true t := by
  have waiting : s.Waiting := by
    cases blocking with
    | true => exact Or.inr here
    | false => exact Or.inl here
  cases answer with
  | cqe =>
    simp only [State.receive] at received
    split at received
    · contradiction
    · next cqe rest posted =>
      cases Option.some.inj received
      exact .takes waiting posted
  | null =>
    cases Option.some.inj received
    exact .again (Or.inl waiting)
  | error ret =>
    simp only [State.receive, Option.ite_none_left_eq_some] at received
    obtain ⟨-, received⟩ := received
    split at received
    · next again =>
      cases Option.some.inj received
      rw [again.2] at here
      exact .blocks here
    · split at received
      · cases Option.some.inj received
        exact .again (Or.inl waiting)
      · cases Option.some.inj received
        exact .fails waiting

theorem move_of_turn {answer : Answer} (turned : s.turn answer = some t) : Move s true t := by
  unfold State.turn at turned
  split at turned
  · next here =>
    cases Option.some.inj turned
    cases flag : s.shutdownRequested with
    | true => exact .ends (Or.inl here) flag
    | false => exact .begins here flag
  · next here => exact move_of_receive false here turned
  · next here => exact move_of_receive true here turned
  · next here =>
    cases Option.some.inj turned
    cases flag : s.shutdownRequested with
    | true => exact .ends (Or.inr here) flag
    | false => exact .again (Or.inr (Or.inl ⟨here, flag⟩))
  · next cqe here =>
    split at turned
    · cases Option.some.inj turned
      exact .again (Or.inr (Or.inr (Or.inl ⟨cqe, here⟩)))
    · cases Option.some.inj turned
      exact .dispatches here
  · next cqe here =>
    simp only [Option.ite_none_right_eq_some, Option.some.injEq] at turned
    obtain ⟨-, rfl⟩ := turned
    exact .again (Or.inr (Or.inr (Or.inr ⟨cqe, here⟩)))
  · next cqe here =>
    cases Option.some.inj turned
    exact .spinsOn here
  · contradiction

theorem move_of_step {action : Action ι} (stepped : s.step action = some t) : Move s action.isTurn t := by
  cases action with
  | turn answer => exact move_of_turn stepped
  | spin =>
    simp only [State.step, State.spin] at stepped
    split at stepped
    · next cqe here =>
      simp only [Option.ite_none_right_eq_some, Option.some.injEq] at stepped
      obtain ⟨⟨-, unserved⟩, rfl⟩ := stepped
      exact .spins here unserved
    · contradiction
  | requestShutdown c =>
    simp only [State.step, Option.ite_none_right_eq_some, Option.some.injEq] at stepped
    obtain ⟨-, rfl⟩ := stepped
    exact .requests c false fun _ => rfl
  | destroy c =>
    simp only [State.step, Option.ite_none_right_eq_some, Option.some.injEq] at stepped
    obtain ⟨-, rfl⟩ := stepped
    exact .requests (some c) true nofun
  | getSqe c granted =>
    simp only [State.step] at stepped
    split at stepped
    · next d here =>
      cases granted with
      | true =>
        cases Option.some.inj stepped
        exact .fills c here
      | false =>
        cases Option.some.inj stepped
        exact .refused c here
    · contradiction
  | submit c =>
    simp only [State.step] at stepped
    split at stepped
    · next d here =>
      cases Option.some.inj stepped
      exact .submits c here
    · contradiction
  | join c =>
    simp only [State.step, Option.ite_none_right_eq_some, Option.some.injEq] at stepped
    obtain ⟨-, rfl⟩ := stepped
    exact .joins c
  | joined c =>
    simp only [State.step] at stepped
    split at stepped
    · simp only [Option.ite_none_right_eq_some, Option.some.injEq] at stepped
      obtain ⟨finished, rfl⟩ := stepped
      exact .joined c _ finished
    · contradiction
  | exit c =>
    simp only [State.step, Option.ite_none_right_eq_some, Option.some.injEq] at stepped
    obtain ⟨here, rfl⟩ := stepped
    exact .exits c here
  | queue userData =>
    cases Option.some.inj stepped
    exact .queues userData
  | flush =>
    cases Option.some.inj stepped
    exact .flushes
  | complete index res =>
    obtain ⟨sqe, there, rfl⟩ := Option.map_eq_some_iff.mp stepped
    exact .completes index _ there

/-! ### What every step keeps -/

/-- What the callers know. -/
structure Called (s : State ι) : Prop where
  flagged : ∀ c d, s.call c = .flagged d → s.shutdownRequested = true
  filled : ∀ c d, s.call c = .filled d → s.filled = true
  requested : s.filled = true → s.shutdownRequested = true
  exiting : ∀ c, s.call c = .exiting → s.loop = .ended
  joined : s.joinable = false → s.loop = .ended
  released : s.released = true → s.loop = .ended
  inner : s.call none = .idle ∨ s.call none = .flagged false ∨ s.call none = .filled false

theorem setCall_self (s : State ι) (c : Option ι) (call : Call) : (s.setCall c call).call c = call :=
  Function.update_self _ _ _

theorem setCall_of_ne {c b : Option ι} (different : b ≠ c) (s : State ι) (call : Call) :
    (s.setCall c call).call b = s.call b := Function.update_of_ne different _ _

/-- One caller goes on, and what its new stage asserts holds. -/
theorem Called.setCall (called : Called s) (c : Option ι) (call : Call)
    (flagged : ∀ d, call = .flagged d → s.shutdownRequested = true) (filled : ∀ d, call = .filled d → s.filled = true)
    (exiting : call = .exiting → s.loop = .ended)
    (inner : c = none → call = .idle ∨ call = .flagged false ∨ call = .filled false) : Called (s.setCall c call) := by
  have split : ∀ b stage, (s.setCall c call).call b = stage → call = stage ∨ s.call b = stage := by
    intro b stage here
    by_cases same : b = c
    · rw [same, setCall_self] at here
      exact Or.inl here
    · rw [setCall_of_ne same] at here
      exact Or.inr here
  refine ⟨fun b d here => ?_, fun b d here => ?_, called.requested, fun b here => ?_, called.joined, called.released, ?_⟩
  · exact (split b _ here).elim (flagged d) (called.flagged b d)
  · exact (split b _ here).elim (filled d) (called.filled b d)
  · exact (split b _ here).elim exiting (called.exiting b)
  · by_cases here : c = none
    · subst here
      rw [setCall_self]
      exact inner rfl
    · rw [setCall_of_ne (Ne.symm here)]
      exact called.inner

omit [DecidableEq ι] in
/-- Queues and history do not matter. -/
theorem Called.of_eq (called : Called s) (call : t.call = s.call)
    (requested : t.shutdownRequested = s.shutdownRequested) (filled : t.filled = s.filled) (loop : t.loop = s.loop)
    (joinable : t.joinable = s.joinable) (released : t.released = s.released) : Called t := by
  constructor <;> simp only [call, requested, filled, loop, joinable, released]
  · exact called.flagged
  · exact called.filled
  · exact called.requested
  · exact called.exiting
  · exact called.joined
  · exact called.released
  · exact called.inner

omit [DecidableEq ι] in
/-- The loop goes on, unless it has ended. -/
theorem Called.goTo (called : Called s) (loop : Loop) (running : s.loop ≠ .ended) : Called (s.goTo loop) :=
  ⟨called.flagged, called.filled, called.requested, fun c here => absurd (called.exiting c here) running,
    fun joined => absurd (called.joined joined) running, fun released => absurd (called.released released) running,
    called.inner⟩

omit [DecidableEq ι] in
theorem State.Waiting.running (waiting : s.Waiting) : s.loop ≠ .ended := by
  rcases waiting with here | here
  all_goals
    rw [here]
    nofun

omit [DecidableEq ι] in
/-- A completion handler's call is never one of the destructor. -/
theorem Called.inner_request {d : Bool} (called : Called s) (c : Option ι)
    (here : s.call c = .flagged d ∨ s.call c = .filled d) : c = none → d = false := by
  rintro rfl
  rcases called.inner with stage | stage | stage
  · simp [stage] at here
  · simpa [stage, eq_comm] using here
  · simpa [stage, eq_comm] using here

/-- `RequestShutdown` returns. -/
theorem Called.returns {d : Bool} (called : Called s) (c : Option ι) (outer : c = none → d = false) :
    Called (s.setCall c (State.requested d)) := by
  refine called.setCall c _ (fun e here => ?_) (fun e here => ?_) (fun here => ?_) fun inner => ?_
  · cases d <;> contradiction
  · cases d <;> contradiction
  · cases d <;> contradiction
  · rw [outer inner]
    exact Or.inl rfl

theorem Called.move {own : Bool} (called : Called s) (move : Move s own t) : Called t := by
  cases move with
  | ends here requested =>
    exact ⟨called.flagged, called.filled, called.requested, fun _ _ => rfl, fun _ => rfl, fun _ => rfl, called.inner⟩
  | begins here unrequested =>
    apply called.goTo _
    rw [here]
    nofun
  | blocks here => exact called.goTo _ (State.Waiting.running (Or.inl here))
  | fails here => exact called.goTo _ here.running
  | again here =>
    apply called.goTo _
    obtain waiting | ⟨here, -⟩ | ⟨cqe, here⟩ | ⟨cqe, here⟩ := here
    · exact waiting.running
    all_goals
      rw [here]
      nofun
  | @takes cqe rest here posted => exact (called.goTo (.seen cqe) here.running).of_eq rfl rfl rfl rfl rfl rfl
  | @dispatches cqe here =>
    have running : s.loop ≠ .ended := by
      rw [here]
      nofun
    exact (called.goTo (.dispatching cqe) running).of_eq rfl rfl rfl rfl rfl rfl
  | spins here unserved =>
    apply called.goTo _
    rw [here]
    nofun
  | spinsOn here => exact called
  | requests c d outer =>
    have flagged : Called { s with shutdownRequested := true } :=
      ⟨fun _ _ _ => rfl, called.filled, fun _ => rfl, called.exiting, called.joined, called.released, called.inner⟩
    refine flagged.setCall c _ (fun _ _ => rfl) nofun nofun fun inner => ?_
    rw [outer inner]
    exact Or.inr (Or.inl rfl)
  | @fills d c here =>
    have filled : Called s.fill :=
      ⟨called.flagged, fun _ _ _ => rfl, fun _ => called.flagged c d here, called.exiting, called.joined, called.released,
        called.inner⟩
    refine filled.setCall c _ nofun (fun _ _ => rfl) nofun fun inner => ?_
    rw [called.inner_request c (Or.inl here) inner]
    exact Or.inr (Or.inr rfl)
  | refused c here => exact called.returns c (called.inner_request c (Or.inl here))
  | submits c here =>
    have submitted : Called { s.submit with woken := true } := called.of_eq rfl rfl rfl rfl rfl rfl
    exact submitted.returns c (called.inner_request c (Or.inr here))
  | joins c => exact called.setCall _ _ nofun nofun nofun nofun
  | joined c d finished =>
    have ended : s.loop = .ended := finished.elim called.joined id
    have joined : Called { s with joinable := false } :=
      ⟨called.flagged, called.filled, called.requested, called.exiting, fun _ => ended, called.released, called.inner⟩
    refine joined.setCall _ _ (fun e here => ?_) (fun e here => ?_) (fun _ => ended) nofun
    · cases d <;> contradiction
    · cases d <;> contradiction
  | exits c here =>
    have released : Called { s with released := true } :=
      ⟨called.flagged, called.filled, called.requested, called.exiting, called.joined,
        fun _ => called.exiting _ here, called.inner⟩
    exact released.setCall _ _ nofun nofun nofun nofun
  | queues userData => exact called.of_eq rfl rfl rfl rfl rfl rfl
  | flushes => exact called.of_eq rfl rfl rfl rfl rfl rfl
  | completes index res there => exact called.of_eq rfl rfl rfl rfl rfl rfl

/-! ### The sentinel -/

/-- A loop that waits after a `nop` was filled will be woken: by now the `nop` is on its
way, and once its caller has handed it over the kernel has it or has completed it. -/
structure Wakes (s : State ι) : Prop where
  filled : s.woken = true → s.filled = true
  pending : s.filled = true → s.Waiting → .nop ∈ s.sq ++ s.ring ∨ s.Posted
  posted : s.woken = true → s.Waiting → .nop ∈ s.ring ∨ s.Posted

omit [DecidableEq ι] in
/-- The loop waits for nothing before it has found the flag unset. -/
theorem Wakes.goTo (wakes : Wakes s) (loop : Loop) (still : (s.goTo loop).Waiting → s.Waiting) :
    Wakes (s.goTo loop) :=
  ⟨wakes.filled, fun filled waiting => wakes.pending filled (still waiting),
    fun woken waiting => wakes.posted woken (still waiting)⟩

omit [DecidableEq ι] in
/-- More is queued, handed over or completed. -/
theorem Wakes.of_eq (wakes : Wakes s) (loop : t.loop = s.loop) (filled : t.filled = s.filled)
    (woken : t.woken = s.woken) (queued : .nop ∈ s.sq ++ s.ring → .nop ∈ t.sq ++ t.ring ∨ t.Posted)
    (handed : .nop ∈ s.ring → .nop ∈ t.ring ∨ t.Posted) (completed : s.Posted → t.Posted) : Wakes t := by
  have waits : t.Waiting → s.Waiting := by
    rw [State.Waiting, State.Waiting, loop]
    exact id
  refine ⟨by rw [filled, woken]; exact wakes.filled, fun isFilled waiting => ?_, fun isWoken waiting => ?_⟩
  · rw [filled] at isFilled
    exact (wakes.pending isFilled (waits waiting)).elim queued fun posted => Or.inr (completed posted)
  · rw [woken] at isWoken
    exact (wakes.posted isWoken (waits waiting)).elim handed fun posted => Or.inr (completed posted)

theorem Wakes.move {own : Bool} (called : Called s) (wakes : Wakes s) (move : Move s own t) : Wakes t := by
  cases move with
  | ends here requested => exact wakes.goTo _ (by rintro (here | here) <;> contradiction)
  | begins here unrequested =>
    have unfilled : ¬ s.filled = true := by
      intro filled
      rw [called.requested filled] at unrequested
      contradiction
    refine ⟨wakes.filled, fun filled => absurd filled unfilled, fun woken => ?_⟩
    exact absurd (wakes.filled woken) unfilled
  | blocks here => exact wakes.goTo _ fun _ => Or.inl here
  | fails here => exact wakes.goTo _ fun _ => here
  | again here => exact wakes.goTo _ (by rintro (here | here) <;> contradiction)
  | takes here posted =>
    exact ⟨wakes.filled, fun _ => by rintro (here | here) <;> contradiction,
      fun _ => by rintro (here | here) <;> contradiction⟩
  | dispatches here =>
    exact ⟨wakes.filled, fun _ => by rintro (here | here) <;> contradiction,
      fun _ => by rintro (here | here) <;> contradiction⟩
  | spins here unserved => exact wakes.goTo _ (by rintro (here | here) <;> contradiction)
  | spinsOn here => exact wakes
  | requests c d outer => exact wakes.of_eq rfl rfl rfl Or.inl Or.inl id
  | fills c here =>
    refine ⟨fun _ => rfl, fun _ _ => Or.inl ?_, wakes.posted⟩
    exact List.mem_append_left _ (List.mem_append_right _ (List.mem_singleton_self _))
  | refused c here => exact wakes.of_eq rfl rfl rfl Or.inl Or.inl id
  | submits c here =>
    have filled := called.filled c _ here
    have handed : s.Waiting → .nop ∈ s.ring ++ s.sq ∨ s.Posted := by
      intro waiting
      apply (wakes.pending filled waiting).imp_left
      intro member
      exact List.mem_append.mpr (List.mem_append.mp member).symm
    refine ⟨fun _ => filled, fun _ waiting => ?_, fun _ waiting => handed waiting⟩
    exact (handed waiting).imp_left (List.mem_append_right [])
  | joins c => exact wakes.of_eq rfl rfl rfl Or.inl Or.inl id
  | joined c d finished => exact wakes.of_eq rfl rfl rfl Or.inl Or.inl id
  | exits c here => exact wakes.of_eq rfl rfl rfl Or.inl Or.inl id
  | queues userData =>
    refine wakes.of_eq rfl rfl rfl (fun member => Or.inl ?_) Or.inl id
    rcases List.mem_append.mp member with queued | handed
    · exact List.mem_append_left _ (List.mem_append_left _ queued)
    · exact List.mem_append_right _ handed
  | flushes =>
    refine wakes.of_eq rfl rfl rfl (fun member => Or.inl ?_) (fun handed => ?_) id
    · exact List.mem_append_right [] (List.mem_append.mpr (List.mem_append.mp member).symm)
    · exact Or.inl (List.mem_append_left _ handed)
  | @completes sqe index res there =>
    have completed : ∀ cqe, cqe ∈ s.cq ++ [⟨sqe.userData, res⟩] → cqe.userData = 0#64 →
        State.Posted { s with ring := s.ring.eraseIdx index, cq := s.cq ++ [⟨sqe.userData, res⟩] } :=
      fun cqe member zero => ⟨cqe, member, zero⟩
    -- The entry that completes is the sentinel, or the sentinel stays.
    have stays : .nop ∈ s.ring → .nop ∈ s.ring.eraseIdx index ∨
        State.Posted { s with ring := s.ring.eraseIdx index, cq := s.cq ++ [⟨sqe.userData, res⟩] } := by
      intro member
      by_cases same : sqe = .nop
      · refine Or.inr (completed ⟨sqe.userData, res⟩ (List.mem_append_right _ (List.mem_singleton_self _)) ?_)
        rw [same]
        rfl
      · obtain ⟨j, there'⟩ := List.mem_iff_getElem?.mp member
        refine Or.inl (List.mem_eraseIdx_iff_getElem?.mpr ⟨j, ?_, there'⟩)
        rintro rfl
        rw [there'] at there
        exact same (Option.some.inj there).symm
    refine wakes.of_eq rfl rfl rfl (fun member => ?_) stays ?_
    · rcases List.mem_append.mp member with queued | handed
      · exact Or.inl (List.mem_append_left _ queued)
      · exact (stays handed).imp_left (List.mem_append_right _)
    · rintro ⟨cqe, member, zero⟩
      exact completed cqe (List.mem_append_left _ member) zero

/-! ### After the request -/

/-- At most one completion is dispatched after the request, and then the loop ends. -/
def Punctual (s : State ι) : Prop := s.late = 0 ∨ s.late = 1 ∧ s.shutdownRequested = true ∧ s.loop.Leaving

theorem Punctual.move {own : Bool} (punctual : Punctual s) (move : Move s own t) : Punctual t := by
  rcases punctual with none_ | ⟨one, requested, leaving⟩
  · cases move with
    | dispatches here =>
      cases flag : s.shutdownRequested with
      | false => exact Or.inl (by simp [State.dispatch, flag, none_])
      | true => exact Or.inr ⟨by simp [State.dispatch, flag, none_], flag, trivial⟩
    | _ => exact Or.inl none_
  · cases move with
    | ends here requested => exact Or.inr ⟨one, requested, trivial⟩
    | begins here unrequested =>
      rw [requested] at unrequested
      contradiction
    | blocks here =>
      rw [here] at leaving
      contradiction
    | fails here =>
      rcases here with here | here <;> rw [here] at leaving <;> contradiction
    | again here => exact Or.inr ⟨one, requested, trivial⟩
    | takes here posted =>
      rcases here with here | here <;> rw [here] at leaving <;> contradiction
    | dispatches here =>
      rw [here] at leaving
      contradiction
    | spins here unserved => exact Or.inr ⟨one, requested, trivial⟩
    | requests c d outer => exact Or.inr ⟨one, rfl, leaving⟩
    | _ => exact Or.inr ⟨one, requested, leaving⟩

/-- How many turns the loop has left once it was asked to end. -/
def State.rank (s : State ι) : Nat :=
  match s.loop with
  | .peek => 5
  | .wait => 4
  | .seen _ => 3
  | .dispatching _ | .spinning _ => 2
  | .check | .failed => 1
  | .ended => 0

theorem rank_move {own : Bool} (requested : s.shutdownRequested = true) (returns : ∀ cqe, t.loop ≠ .spinning cqe)
    (move : Move s own t) : t.rank + own.toNat ≤ s.rank ∧ t.shutdownRequested = true := by
  cases move with
  | ends here _ => rcases here with here | here <;> simp [State.rank, State.goTo, here, requested]
  | begins here unrequested =>
    rw [requested] at unrequested
    contradiction
  | blocks here => simp [State.rank, State.goTo, here, requested]
  | fails here => rcases here with here | here <;> simp [State.rank, State.goTo, here, requested]
  | again here =>
    obtain (here | here) | ⟨-, unrequested⟩ | ⟨cqe, here⟩ | ⟨cqe, here⟩ := here
    · simp [State.rank, State.goTo, here, requested]
    · simp [State.rank, State.goTo, here, requested]
    · rw [requested] at unrequested
      contradiction
    · simp [State.rank, State.goTo, here, requested]
    · simp [State.rank, State.goTo, here, requested]
  | takes here posted => rcases here with here | here <;> simp [State.rank, here, requested]
  | dispatches here => simp [State.rank, State.dispatch, here, requested]
  | @spins cqe here unserved => exact absurd rfl (returns cqe)
  | @spinsOn cqe here => exact absurd here (returns cqe)
  | requests c d outer => exact ⟨Nat.le_refl _, rfl⟩
  | _ => exact ⟨Nat.le_refl _, requested⟩

structure Sound (s : State ι) : Prop where
  called : Called s
  wakes : Wakes s
  punctual : Punctual s

theorem Sound.step {action : Action ι} (sound : Sound s) (stepped : s.step action = some t) : Sound t := by
  have move := move_of_step stepped
  exact ⟨sound.called.move move, sound.wakes.move sound.called move, sound.punctual.move move⟩

theorem Reaches.sound (run : Reaches {} s) : Sound s := by
  refine Machine.Reaches.invariant run (fun _ _ _ sound stepped => sound.step stepped) ⟨?_, ?_, Or.inl rfl⟩
  · exact ⟨nofun, nofun, nofun, nofun, nofun, nofun, Or.inl rfl⟩
  · exact ⟨nofun, nofun, nofun⟩

/-- A loop that has ended does nothing more. -/
theorem ended_move {own : Bool} (ended : s.loop = .ended) (move : Move s own t) :
    t.loop = .ended ∧ t.dispatched = s.dispatched := by
  cases move with
  | ends here _ => exact ⟨rfl, rfl⟩
  | begins here _ => rw [ended] at here; contradiction
  | blocks here => rw [ended] at here; contradiction
  | fails here => exact absurd ended here.running
  | again here =>
    obtain waiting | ⟨here, -⟩ | ⟨cqe, here⟩ | ⟨cqe, here⟩ := here
    · exact absurd ended waiting.running
    all_goals
      rw [ended] at here
      contradiction
  | takes here posted => exact absurd ended here.running
  | dispatches here => rw [ended] at here; contradiction
  | spins here unserved => rw [ended] at here; contradiction
  | _ => exact ⟨ended, rfl⟩

theorem Reaches.ended (run : Reaches s t) (ended : s.loop = .ended) :
    t.loop = .ended ∧ t.dispatched = s.dispatched := by
  refine Machine.Reaches.invariant (P := fun u => u.loop = .ended ∧ u.dispatched = s.dispatched) run
    (fun u action v before stepped => ?_) ⟨ended, rfl⟩
  have after := ended_move before.1 (move_of_step stepped)
  exact ⟨after.1, after.2.trans before.2⟩

/-- After the request at most one completion is dispatched. Once a `Join` has returned, or
the destructor has released the ring, nothing is dispatched any more. -/
theorem shutdown_orderly (run : Reaches {} s) :
    s.late ≤ 1 ∧ (s.joinable = false ∨ s.released = true → s.loop = .ended ∧
      ∀ t, Reaches s t → t.loop = .ended ∧ t.dispatched = s.dispatched) := by
  have sound := run.sound
  refine ⟨?_, fun finished => ?_⟩
  · rcases sound.punctual with none_ | ⟨one, -⟩
    · omega
    · omega
  · have ended := finished.elim sound.called.joined sound.called.released
    exact ⟨ended, fun t rest => rest.ended ended⟩

/-! ### The loop ends -/

/-- The loop sleeps, and nothing that the library has asked for will wake it. -/
def State.Blocked (s : State ι) : Prop := s.loop = .wait ∧ s.cq = [] ∧ .nop ∉ s.ring

omit [DecidableEq ι] in
theorem Sound.not_blocked (sound : Sound s) (woken : s.woken = true) : ¬ s.Blocked := by
  rintro ⟨waits, empty, absent⟩
  rcases sound.wakes.posted woken (Or.inr waits) with handed | ⟨cqe, member, -⟩
  · exact absent handed
  · rw [empty] at member
    contradiction

/-- The loop that spins has nothing to end it. -/
theorem spinning_move {own : Bool} {cqe : Cqe} (here : s.loop = .spinning cqe) (move : Move s own t) :
    t.loop = .spinning cqe := by
  have elsewhere : ¬ s.Waiting := by
    rintro (waits | waits) <;> rw [here] at waits <;> contradiction
  cases move with
  | ends other _ => rcases other with other | other <;> rw [here] at other <;> contradiction
  | begins other _ => rw [here] at other; contradiction
  | blocks other => exact absurd (Or.inl other) elsewhere
  | fails other => exact absurd other elsewhere
  | again other =>
    obtain waits | ⟨other, -⟩ | ⟨_, other⟩ | ⟨_, other⟩ := other
    · exact absurd waits elsewhere
    all_goals
      rw [here] at other
      contradiction
  | takes other _ => exact absurd other elsewhere
  | dispatches other => rw [here] at other; contradiction
  | spins other _ => rw [here] at other; contradiction
  | _ => exact here

/-- A dispatch that spins never returns: whoever requests the end, the loop does not come to it. -/
theorem Reaches.spins {cqe : Cqe} (run : Reaches s t) (here : s.loop = .spinning cqe) : t.loop = .spinning cqe :=
  Machine.Reaches.invariant (P := fun u => u.loop = .spinning cqe) run
    (fun _ _ _ spinning stepped => spinning_move spinning (move_of_step stepped)) here

/-- No completion on its way to the loop, or in its hands, has `-EAGAIN`. -/
structure Served (s : State ι) : Prop where
  posted : ∀ cqe ∈ s.cq, cqe.res ≠ -EAGAIN
  taken : ∀ cqe, s.loop = .seen cqe ∨ s.loop = .dispatching cqe → cqe.res ≠ -EAGAIN
  returns : ∀ cqe, s.loop ≠ .spinning cqe

omit [DecidableEq ι] in
/-- The loop goes elsewhere, with no completion in its hands. -/
theorem Served.goTo (served : Served s) (loop : Loop) (empty : ∀ cqe, loop ≠ .seen cqe ∧ loop ≠ .dispatching cqe)
    (returns : ∀ cqe, loop ≠ .spinning cqe) : Served (s.goTo loop) :=
  ⟨served.posted, fun cqe here => absurd here (not_or.mpr (empty cqe)), returns⟩

theorem Served.move {own : Bool} (served : Served s) (move : Move s own t)
    (posted : ∀ cqe ∈ t.cq, cqe.res ≠ -EAGAIN) : Served t := by
  cases move with
  | ends here requested => exact served.goTo _ (fun _ => ⟨nofun, nofun⟩) nofun
  | begins here unrequested => exact served.goTo _ (fun _ => ⟨nofun, nofun⟩) nofun
  | blocks here => exact served.goTo _ (fun _ => ⟨nofun, nofun⟩) nofun
  | fails here => exact served.goTo _ (fun _ => ⟨nofun, nofun⟩) nofun
  | again here => exact served.goTo _ (fun _ => ⟨nofun, nofun⟩) nofun
  | @takes first rest here there =>
    refine ⟨posted, ?_, nofun⟩
    rintro cqe (same | same)
    · obtain rfl : first = cqe := Loop.seen.inj same
      exact served.posted first (there ▸ List.mem_cons_self)
    · contradiction
  | @dispatches first here =>
    refine ⟨posted, ?_, nofun⟩
    rintro cqe (same | same)
    · contradiction
    · obtain rfl : first = cqe := Loop.dispatching.inj same
      exact served.taken first (Or.inl here)
  | @spins cqe here unserved => exact absurd unserved (served.taken cqe (Or.inr here))
  | _ => exact ⟨posted, served.taken, served.returns⟩

theorem serve_eq {action : Action ι} (stepped : s.step action = some t)
    (posted : ∀ cqe ∈ t.cq, cqe.res ≠ -EAGAIN) : s.serve action = some t := by
  refine Option.filter_eq_some_iff.mpr ⟨stepped, List.all_eq_true.mpr fun cqe member => ?_⟩
  exact bne_iff_ne.mpr (posted cqe member)

theorem serve_cases {action : Action ι} (served : s.serve action = some t) :
    s.step action = some t ∧ ∀ cqe ∈ t.cq, cqe.res ≠ -EAGAIN := by
  obtain ⟨stepped, posted⟩ := Option.filter_eq_some_iff.mp served
  exact ⟨stepped, fun cqe member => bne_iff_ne.mp (List.all_eq_true.mp posted cqe member)⟩

theorem Served.step {action : Action ι} (served : Served s) (stepped : s.serve action = some t) : Served t := by
  obtain ⟨stepped, posted⟩ := serve_cases stepped
  exact served.move (move_of_step stepped) posted

theorem serves_step (action : Action ι) (stepped : s.step action = some t)
    (posted : ∀ cqe ∈ t.cq, cqe.res ≠ -EAGAIN) : Serves s t :=
  .next action .refl (serve_eq stepped posted)

/-- A completion is there to be taken. -/
theorem takes_posted (served : Served s) (waiting : s.Waiting) (posted : s.cq ≠ []) :
    ∃ t, Serves s t ∧ t.rank < s.rank := by
  obtain ⟨cqe, rest, same⟩ := List.exists_cons_of_ne_nil posted
  refine ⟨{ s with cq := rest, loop := .seen cqe }, serves_step (.turn .cqe) ?_ fun other member => ?_, ?_⟩
  · rcases waiting with here | here <;> simp [State.step, State.turn, State.receive, here, same]
  · exact served.posted other (same ▸ List.mem_cons_of_mem _ member)
  · rcases waiting with here | here <;> simp [State.rank, here]

/-- A completion handler comes to its end. -/
theorem handler_returns (called : Called s) (served : Served s) :
    ∃ t, Serves s t ∧ t.call none = .idle ∧ t.loop = s.loop ∧ t.cq = s.cq := by
  rcases called.inner with stage | stage | stage
  · exact ⟨s, .refl, stage, rfl, rfl⟩
  · refine ⟨s.setCall none .idle, serves_step (.getSqe none false) ?_ served.posted, setCall_self .., rfl, rfl⟩
    simp [State.step, stage, State.requested]
  · refine ⟨{ s.submit with woken := true }.setCall none .idle, serves_step (.submit none) ?_ served.posted,
      setCall_self .., rfl, rfl⟩
    simp [State.step, stage, State.requested]

/-- Some run always brings the loop nearer to its end. -/
theorem Sound.nears (sound : Sound s) (served : Served s) (woken : s.woken = true) (running : s.rank ≠ 0) :
    ∃ t, Serves s t ∧ t.rank < s.rank := by
  have requested := sound.called.requested (sound.wakes.filled woken)
  cases here : s.loop with
  | check =>
    refine ⟨s.goTo .ended, serves_step (.turn .null) ?_ served.posted, by simp [State.rank, State.goTo, here]⟩
    simp [State.step, State.turn, here, requested]
  | peek =>
    by_cases posted : s.cq = []
    · refine ⟨s.goTo .wait, serves_step (.turn (.error (-EAGAIN))) ?_ served.posted,
        by simp [State.rank, State.goTo, here]⟩
      simp [State.step, State.turn, State.receive, here, EAGAIN]
    · exact takes_posted served (Or.inl here) posted
  | wait =>
    by_cases posted : s.cq = []
    · -- The kernel completes the `nop`.
      have handed : .nop ∈ s.ring := by
        by_contra absent
        exact sound.not_blocked woken ⟨here, posted, absent⟩
      obtain ⟨index, there⟩ := List.mem_iff_getElem?.mp handed
      have completed : s.step (.complete index 0) = some
          { s with ring := s.ring.eraseIdx index, cq := s.cq ++ [⟨0#64, 0⟩] } := by
        simp [State.step, there, Sqe.userData]
      have step := serve_eq completed (by simp [posted, EAGAIN])
      obtain ⟨t, run, less⟩ := takes_posted (served.step step) (Or.inr here) (by simp)
      exact ⟨t, (Machine.Reaches.next _ .refl step).trans run, less⟩
    · exact takes_posted served (Or.inr here) posted
  | failed =>
    refine ⟨s.goTo .ended, serves_step (.turn .null) ?_ served.posted, by simp [State.rank, State.goTo, here]⟩
    simp [State.step, State.turn, here, requested]
  | seen cqe =>
    cases word : decode cqe.userData with
    | none =>
      refine ⟨s.goTo .check, serves_step (.turn .null) ?_ served.posted, by simp [State.rank, State.goTo, here]⟩
      simp [State.step, State.turn, here, word]
    | some found =>
      refine ⟨s.dispatch cqe, serves_step (.turn .null) ?_ served.posted, by simp [State.rank, State.dispatch, here]⟩
      simp [State.step, State.turn, here, word]
  | dispatching cqe =>
    obtain ⟨t, run, idle, same, kept⟩ := handler_returns sound.called served
    have returned : t.step (.turn .null) = some (t.goTo .check) := by
      simp [State.step, State.turn, same, here, idle]
    have step : Serves t (t.goTo .check) := serves_step _ returned fun other member =>
      served.posted other (kept ▸ member)
    exact ⟨t.goTo .check, run.trans step, by simp [State.rank, State.goTo, here]⟩
  | spinning cqe => exact absurd here (served.returns cqe)
  | ended => simp [State.rank, here] at running

/-- What a request that found an SQE still leads to, whatever the callers, the completion
handlers and the kernel do, as long as no operation completes with `-EAGAIN`: few turns of the
loop, none of which sleeps for good, and its end within reach all the time. -/
structure Ending (s : State ι) : Prop where
  bounded : ∀ n t, Machine.Takes State.serve Action.isTurn s n t → n ≤ 5
  awake : ∀ t, Reaches s t → ¬ t.Blocked
  ends : ∀ t, Serves s t → ∃ u, Serves t u ∧ u.loop = .ended

theorem woken_move {own : Bool} (woken : s.woken = true) (move : Move s own t) : t.woken = true := by
  cases move with
  | submits c here => rfl
  | _ => exact woken

theorem shutdown_ends (run : Serves {} s) (woken : s.woken = true) : Ending s := by
  have begun : Served ({} : State ι) := ⟨nofun, fun _ => by rintro (here | here) <;> contradiction, nofun⟩
  have found : Sound s ∧ Served s := Machine.Reaches.invariant (P := fun u => Sound u ∧ Served u) run
    (fun u action v held stepped => ⟨held.1.step (serve_cases stepped).1, held.2.step stepped⟩)
    ⟨Reaches.sound .refl, begun⟩
  have requested : s.shutdownRequested = true := found.1.called.requested (found.1.wakes.filled woken)
  -- What every further step keeps.
  have kept : ∀ (u : State ι) action v, (Sound u ∧ Served u) ∧ u.woken = true → u.serve action = some v →
      (Sound v ∧ Served v) ∧ v.woken = true := by
    rintro u action v ⟨⟨sound, served⟩, woken⟩ stepped
    have move := move_of_step (serve_cases stepped).1
    exact ⟨⟨sound.step (serve_cases stepped).1, served.step stepped⟩, woken_move woken move⟩
  refine ⟨fun n t takes => ?_, fun t rest => ?_, fun t rest => ?_⟩
  · have pays : ∀ (u : State ι) action v, u.shutdownRequested = true ∧ Served u → u.serve action = some v →
        v.rank + action.isTurn.toNat ≤ u.rank ∧ v.shutdownRequested = true := by
      rintro u action v ⟨flag, served⟩ stepped
      exact rank_move flag (served.step stepped).returns (move_of_step (serve_cases stepped).1)
    have paid := Machine.Takes.bounded (P := fun u => u.shutdownRequested = true ∧ Served u) takes
      (fun u action v held stepped => ⟨(pays u action v held stepped).2, held.2.step stepped⟩)
      (fun u action v held stepped => (pays u action v held stepped).1) ⟨requested, found.2⟩
    have most : s.rank ≤ 5 := by
      unfold State.rank
      split <;> omega
    omega
  · obtain ⟨sound, still⟩ := Machine.Reaches.invariant (P := fun u => Sound u ∧ u.woken = true) rest
      (fun u action v held stepped => ⟨held.1.step stepped, woken_move held.2 (move_of_step stepped)⟩)
      ⟨found.1, woken⟩
    exact sound.not_blocked still
  · obtain ⟨u, final, spent⟩ := Machine.ends kept (fun u held => held.1.1.nears held.1.2 held.2)
      (rest.invariant kept ⟨found, woken⟩)
    refine ⟨u, final, ?_⟩
    cases here : u.loop <;> simp [State.rank, here] at spent ⊢

end

/-- The request comes while a completion is in the loop's hands: that one is still
dispatched, and none after it. -/
theorem taken_completion_orderly : ∃ s : State Nat, s.late = 1 ∧ s.joinable = false ∧
    ∀ t, Reaches s t → t.loop = .ended ∧ t.dispatched = [⟨8#64, 5⟩] := by
  have queued : Reaches ({} : State Nat) _ := .next (.queue 8#64) .refl rfl
  have flushed : Reaches ({} : State Nat) _ := .next .flush queued rfl
  have completed : Reaches ({} : State Nat) _ := .next (.complete 0 5) flushed rfl
  have checked : Reaches ({} : State Nat) _ := .next (.turn .null) completed rfl
  have taken : Reaches ({} : State Nat) _ := .next (.turn .cqe) checked rfl
  have flagged : Reaches ({} : State Nat) _ := .next (.requestShutdown (some 0)) taken rfl
  have dispatched : Reaches ({} : State Nat) _ := .next (.turn .null) flagged rfl
  have returned : Reaches ({} : State Nat) _ := .next (.turn .null) dispatched rfl
  have ended : Reaches ({} : State Nat) _ := .next (.turn .null) returned rfl
  have joining : Reaches ({} : State Nat) _ := .next (.join 1) ended rfl
  have joined : Reaches ({} : State Nat) _ := .next (.joined 1) joining rfl
  exact ⟨_, rfl, rfl, ((shutdown_orderly joined).2 (Or.inl rfl)).2⟩

/-- The loop sleeps when a client asks it to end. -/
theorem sleeping_loop_ends : ∃ s : State Nat, Serves ({} : State Nat) s ∧ s.loop = .wait ∧ s.cq = [] ∧ Ending s := by
  have checked : Serves ({} : State Nat) _ := .next (.turn .null) .refl rfl
  have slept : Serves ({} : State Nat) _ := .next (.turn (.error (-EAGAIN))) checked rfl
  have flagged : Serves ({} : State Nat) _ := .next (.requestShutdown (some 0)) slept rfl
  have filled : Serves ({} : State Nat) _ := .next (.getSqe (some 0) true) flagged rfl
  have woken : Serves ({} : State Nat) _ := .next (.submit (some 0)) filled rfl
  exact ⟨_, woken, rfl, rfl, shutdown_ends woken rfl⟩

end Talon.Handler.Shutdown
