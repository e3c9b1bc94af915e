import Mathlib.Data.List.Nodup
import Talon.Handler.Program
import Talon.Interleaving.Ownership

/-! The invariant of the handler, for three disciplines of runs: tasks without
timeout that nobody cancels; runs in which the operation's completion always
reaches its task before those of timeouts and cancel requests; and runs in which
a link timeout may come first, but no address is submitted or reused while
completions of an earlier submission on it are outstanding. -/
namespace Talon.Handler
open Interleaving

inductive Mode where
  | plain
  | opFirst
  | drained
  deriving DecidableEq

/-- The completion that ends a submission: the operation's own or the one of
`QueueFailedTask`. -/
def Entry.principal (e : Entry) : Bool := e.flag = .kNone ∨ e.flag = .kError

/-- The entries that belong to the submission they name. -/
def Mode.tracks : Mode → Entry → Bool
  | .plain, e => e.principal
  | .opFirst, e => e.principal
  | .drained, e => e.principal ∨ e.flag = .kTimeout

/-- No completion of an earlier submission on `a` is outstanding. -/
def State.clear (s : State) (a : Addr) : Bool :=
  s.outstanding.all fun e => !(decide (e.task = a) && Mode.drained.tracks e)

/-- No thread is about to delete the task at `a`. -/
def State.spared (s : State) (a : Addr) : Bool := s.doomed.all fun d => d.task ≠ a

/-- Which events a run may produce, judged in the state before the step. -/
def Mode.permits : Mode → State → Event → Bool
  | .plain, s, .created a => s.phase a = .free
  | .plain, _, .linked _ _ => false
  | .plain, _, .requested _ => false
  | .plain, _, .unprepared => false
  | .plain, _, _ => true
  | .opFirst, s, .created a => s.phase a = .free
  | .opFirst, _, .unprepared => false
  | .opFirst, _, .found e state => e.principal ∨ ¬ TaskState.Live state
  | .opFirst, _, _ => true
  | .drained, s, .gated a _ => s.clear a && s.spared a
  | .drained, s, .created a => s.clear a && s.spared a && decide (s.phase a = .free)
  | .drained, s, .linked a k => s.current a = some k ∧ (s.phase a = .queued ∨ s.phase a = .owned .loop)
  | .drained, _, .unprepared => false
  | .drained, _, .found e state => Mode.drained.tracks e ∨ ¬ TaskState.Live state
  | .drained, s, .settled a .kReady _ _ => s.clear a
  | .drained, s, .destroyed a true _ _ => s.phase a = .free
  | .drained, _, _ => true

/-- The step's event, if it has one, is permitted. -/
def Mode.Admits (m : Mode) (s t : State) : Prop :=
  ∀ event, t.log = event :: s.log → m.permits s event

/-- A dispatch stores the state of a task, deletes it and gives a slot back on behalf of one
submission. The event is isolated if it was this submission that was hit: not another one,
nor a task that has not been submitted. A successor that is deleted with its
predecessor must not be in a submission at all. -/
def Event.isolated : Event → Bool
  | .settled _ _ (some cause) target => target = some cause
  | .destroyed _ false (some cause) target => target = some cause
  | .destroyed _ true (some _) target => target = none
  | .decremented cause target => target = some cause
  | _ => true

section Parts
variable (m : Mode) (state : Addr → TaskState) (phase : Addr → Phase)
  (current : Addr → Option Nat) (active : Option (Addr × Nat)) (submissions : Nat)
  (reserved released : List Nat)

/-- Slots: `inflight_count_` counts the reservations that were not given back. -/
structure Ledger (inflight max : Int) : Prop where
  bounded : ∀ k ∈ reserved, k < submissions
  reservedOnce : reserved.Nodup
  releasedOnce : released.Nodup
  given : ∀ k ∈ released, k ∈ reserved
  counted : inflight + released.length = reserved.length
  limited : 0 < max → inflight ≤ max

/-- The CAS gate: `kSubmitted` means that somebody owns the task. Its latest
submission has a slot from the reservation until its dispatch gives it back. -/
structure Standing (state : TaskState) (phase : Phase) (current : Option Nat) : Prop where
  token : phase = .free ↔ state ≠ .kSubmitted
  numbered : phase ≠ .free → ∃ k, current = some k
  fresh : ∀ k, current = some k → k < submissions
  unreserved : ∀ k i, phase = .gated i → current = some k → k ∉ reserved
  slot : ∀ k, current = some k → (∃ i, phase = .owned i) ∨ phase = .queued →
    k ∈ reserved ∧ k ∉ released

/-- No two tasks share a submission, and the one being dispatched has its slot. -/
structure Tokens : Prop where
  standing : ∀ a, Standing submissions reserved released (state a) (phase a) (current a)
  distinct : ∀ a b k, current a = some k → current b = some k → a = b
  dispatching : ∀ a k, active = some (a, k) → k ∈ reserved ∧ k ∉ released ∧
    ∀ b, current b = some k → b = a ∧ (phase b = .owned .loop ∨ phase b = .free)

/-- Where a task stands while completions of its submission are outstanding. -/
def Mode.InRing (phase : Phase) (state : TaskState) : Prop :=
  phase = .queued ∨
    m = .drained ∧ (phase = .owned .loop ∨ phase = .free ∧ ¬ TaskState.Live state)

/-- Outstanding completions belong to the latest submission of their task. -/
structure Rings (outstanding : List Entry) : Prop where
  entries : ∀ e ∈ outstanding, m.tracks e → current e.task = some e.submission ∧
    m.InRing (phase e.task) (state e.task)
  single : m ≠ .drained → ((outstanding.filter Entry.principal).map Entry.task).Nodup
  pure : m = .plain → ∀ e ∈ outstanding, e.principal

/-- What has been recorded so far. -/
structure Logged (doomed : List Doom) (log : List Event) : Prop where
  found : m ≠ .drained → ∀ e st, Event.found e st ∈ log → e.principal →
    st = .kSubmitted ∧ (e.submission ∈ released ∨ active = some (e.task, e.submission))
  doom : m = .drained → ∀ d ∈ doomed, phase d.task = .free ∧ current d.task = d.submission
  own : m = .drained → ∀ event ∈ log, event.isolated

end Parts

def State.states (s : State) (a : Addr) : TaskState := (s.task a).taskState

structure Valid (m : Mode) (s : State) : Prop where
  ledger : Ledger s.submissions s.reserved s.released s.inflight s.maxInflightOps
  tokens : Tokens s.states s.phase s.current s.active s.submissions s.reserved s.released
  rings : Rings m s.states s.phase s.current s.outstanding
  logged : Logged m s.phase s.current s.active s.released s.doomed s.log

/-- What thread `j` holds of a task: `false` between the CAS and the slot,
`true` from then on, with the submission's number. -/
def grip (j : Thread) (phase : Phase) (current : Option Nat) : Option (Bool × Option Nat) :=
  match phase with
  | .gated i => if i = j then some (false, current) else none
  | .owned i => if i = j then some (true, current) else none
  | _ => none

structure View where
  limit : Int
  hand : Addr → Option (Bool × Option Nat)
  active : Option (Addr × Nat)
  taken : Option Entry
  doomed : List Doom

def view (j : Thread) (s : State) : View where
  limit := s.maxInflightOps
  hand a := grip j (s.phase a) (s.current a)
  active := if j = .loop then s.active else none
  taken := if j = .loop then s.taken else none
  doomed := s.doomed.filter fun d => d.thread = j

def ownership (m : Mode) : Ownership Thread State View where
  Inv := Valid m
  view := view
  allowed := m.Admits

def View.hold (v : View) (a : Addr) (held : Option (Bool × Option Nat)) : View :=
  { v with hand := Function.update v.hand a held }

end Talon.Handler
